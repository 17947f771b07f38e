import Mathlib.Data.Finset.Card
import Mathlib.Data.Finset.Dedup
import Mathlib.Data.List.Dedup
import TieredMemory.Proofs.Recency.Ledger

namespace TieredMemory.Recency

def recent (uses : List Nat) : List Nat := uses.dedup.reverse

def Near (capacity : Nat) (uses : List Nat) (key : Nat) : Prop :=
  ∃ earlier since, uses = earlier ++ key :: since ∧ key ∉ since ∧ since.toFinset.card < capacity

def bring (capacity key : Nat) (keys : List Nat) : List Nat :=
  (key :: keys.filter (· ≠ key)).take capacity

section Order

variable {capacity key : Nat} {uses : List Nat}

theorem nodup_recent (uses : List Nat) : (recent uses).Nodup :=
  List.nodup_reverse.mpr uses.nodup_dedup

theorem length_recent (uses : List Nat) : (recent uses).length = uses.toFinset.card := by
  rw [recent, List.length_reverse, List.card_toFinset]

theorem recent_concat (uses : List Nat) (key : Nat) :
    recent (uses ++ [key]) = key :: (recent uses).filter (· ≠ key) := by
  have hdedup : (uses ++ [key]).dedup = uses.dedup.filter (· ≠ key) ++ [key] := by
    induction uses with
    | nil => rfl
    | cons first uses ih =>
      rw [List.cons_append]
      by_cases hm : first ∈ uses
      · rw [List.dedup_cons_of_mem (List.mem_append_left _ hm), List.dedup_cons_of_mem hm, ih]
      · rw [List.dedup_cons_of_notMem hm]
        by_cases hk : first = key
        · subst hk
          rw [List.dedup_cons_of_mem (by simp), List.filter_cons_of_neg (by simp), ih]
        · rw [List.dedup_cons_of_notMem (by simp [hm, hk]),
            List.filter_cons_of_pos (by simpa using hk),
            ih, List.cons_append]
  rw [recent, hdedup, List.reverse_append, ← List.filter_reverse]
  rfl

theorem recent_append_cons {since : List Nat} (earlier : List Nat) (h : key ∉ since) :
    ∃ rest, recent (earlier ++ key :: since) = recent since ++ key :: rest := by
  obtain ⟨rest, hr⟩ := List.suffix_union_right earlier (key :: since).dedup
  refine ⟨rest.reverse, ?_⟩
  rw [recent, List.dedup_append, ← hr, List.dedup_cons_of_notMem h, List.reverse_append,
    List.reverse_cons, List.append_assoc]
  rfl

theorem mem_take_recent_iff : key ∈ (recent uses).take capacity ↔ Near capacity uses key := by
  constructor
  · intro hm
    have hused : key ∈ uses.reverse := by
      simpa [recent] using List.mem_of_mem_take hm
    obtain ⟨since, earlier, hs, hn⟩ := List.eq_append_cons_of_mem hused
    have hsplit : uses = earlier.reverse ++ key :: since.reverse := by
      rw [← List.reverse_reverse uses, hs, List.reverse_append, List.reverse_cons,
        List.append_assoc]
      rfl
    rw [← List.mem_reverse] at hn
    refine ⟨_, _, hsplit, hn, ?_⟩
    obtain ⟨rest, hr⟩ := recent_append_cons earlier.reverse hn
    rw [← length_recent]
    by_contra hle
    -- otherwise the keys in front of `key` fill the capacity
    rw [hsplit, hr, List.take_append_of_le_length (Nat.not_lt.mp hle)] at hm
    have := List.mem_of_mem_take hm
    rw [recent, List.mem_reverse, List.mem_dedup] at this
    exact hn this
  · rintro ⟨earlier, since, rfl, hn, hlt⟩
    obtain ⟨rest, hr⟩ := recent_append_cons earlier hn
    rw [← length_recent] at hlt
    obtain ⟨n, rfl⟩ : ∃ n, capacity = (recent since).length + (n + 1) :=
      ⟨capacity - (recent since).length - 1, by omega⟩
    rw [hr, List.take_length_add_append, List.take_succ_cons]
    simp

theorem Near.mono {capacity' : Nat} (hle : capacity ≤ capacity') (h : Near capacity uses key) :
    Near capacity' uses key := by
  obtain ⟨earlier, since, hs, hn, hlt⟩ := h
  exact ⟨earlier, since, hs, hn, Nat.lt_of_lt_of_le hlt hle⟩

theorem filter_take_of_nodup {keys : List Nat} (h : keys.Nodup) (n key : Nat) :
    ((keys.take (n + 1)).filter (· ≠ key)).take n = (keys.filter (· ≠ key)).take n := by
  induction keys generalizing n with
  | nil => rfl
  | cons first keys ih =>
    obtain ⟨hfirst, hkeys⟩ := List.nodup_cons.mp h
    rw [List.take_succ_cons]
    by_cases hk : first = key
    · subst hk
      have hall : ∀ k ∈ keys, decide (k ≠ first) = true := by
        intro k hm
        simpa using ne_of_mem_of_not_mem hm hfirst
      rw [List.filter_cons_of_neg (by simp), List.filter_cons_of_neg (by simp),
        List.filter_eq_self.mpr hall,
        List.filter_eq_self.mpr fun k hm => hall k (List.mem_of_mem_take hm), List.take_take,
        Nat.min_self]
    · rw [List.filter_cons_of_pos (by simpa using hk), List.filter_cons_of_pos (by simpa using hk)]
      cases n with
      | zero => rfl
      | succ n => rw [List.take_succ_cons, List.take_succ_cons, ih hkeys]

theorem bring_take_recent (hc : 0 < capacity) (uses : List Nat) (key : Nat) :
    bring capacity key ((recent uses).take capacity) = (recent (uses ++ [key])).take capacity := by
  obtain ⟨n, rfl⟩ : ∃ n, capacity = n + 1 := ⟨capacity - 1, by omega⟩
  rw [bring, recent_concat, List.take_succ_cons, List.take_succ_cons,
    filter_take_of_nodup (nodup_recent uses)]

theorem length_bring_le (capacity key : Nat) (keys : List Nat) :
    (bring capacity key keys).length ≤ capacity :=
  List.length_take_le _ _

theorem filter_ne_of_notMem {keys : List Nat} (h : key ∉ keys) : keys.filter (· ≠ key) = keys := by
  rw [List.filter_eq_self]
  intro k hm
  simpa using ne_of_mem_of_not_mem hm h

theorem bring_of_room {keys : List Nat} (hl : keys.length ≤ capacity)
    (hroom : key ∉ keys → keys.length < capacity) :
    bring capacity key keys = key :: keys.filter (· ≠ key) := by
  rw [bring, List.take_of_length_le]
  by_cases hm : key ∈ keys
  · have hlt : (keys.filter (· ≠ key)).length < keys.length :=
      List.length_filter_lt_length_iff_exists.mpr ⟨key, hm, by simp⟩
    rw [List.length_cons]
    omega
  · rw [filter_ne_of_notMem hm]
    exact hroom hm

theorem bring_of_full {keys : List Nat} (hc : 0 < capacity) (hl : keys.length = capacity)
    (h : key ∉ keys) : bring capacity key keys = key :: keys.take (keys.length - 1) := by
  obtain ⟨n, rfl⟩ : ∃ n, capacity = n + 1 := ⟨capacity - 1, by omega⟩
  rw [bring, filter_ne_of_notMem h, List.take_succ_cons, hl]
  rfl

end Order

structure Handler.Keeps {σ α : Type} (h : Handler σ α) (I : σ → Prop) : Prop where
  fault : ∀ key s, I s → I (h.fault key s).2
  flush : ∀ key v s, I s → I (h.flush key (v, s)).2.2
  release : ∀ key v s, I s → I (h.release key v s).2

structure Judged (hit : Prop) (l l' : Lookups) : Prop where
  hits : hit → l'.hits = l.hits + 1 ∧ l'.misses = l.misses
  misses : ¬ hit → l'.hits = l.hits ∧ l'.misses = l.misses + 1

namespace Ledger

variable {σ α β : Type} {h : Handler σ α} {I : σ → Prop} {l : Ledger α} {s : σ}

def keys (l : Ledger α) : List Nat := l.entries.map Prod.fst

theorem mem_keys_of_lookup {key : Nat} {v : α} (hl : l.entries.lookup key = some v) :
    key ∈ l.keys := by
  by_contra hn
  rw [lookup_eq_none_iff_notMem.mpr hn] at hl
  cases hl

theorem keys_without (key : Nat) (entries : List (Nat × α)) :
    (without key entries).map Prod.fst = (entries.map Prod.fst).filter (· ≠ key) := by
  rw [without, List.filter_map]
  rfl

theorem ends_evictLoop_keys (hk : h.Keeps I) (n done : Nat) (hs : I s) :
    (evictLoop h n done).Ends (l, s)
      (fun _ t => t.1.keys = l.keys.take (l.keys.length - n) ∧ t.1.lookups.hits = l.lookups.hits ∧
        t.1.lookups.misses = l.lookups.misses ∧ I t.2)
      (fun _ t => t.1.keys <+: l.keys ∧ I t.2) := by
  induction n generalizing l s done with
  | zero => exact ⟨(List.take_length).symm, rfl, rfl, hs⟩
  | succ n ih =>
    obtain ⟨entries, lookups⟩ := l
    rcases List.eq_nil_or_concat' entries with rfl | ⟨xs, ⟨key, v⟩, rfl⟩
    · exact ⟨List.take_nil.symm, rfl, rfl, hs⟩
    · have hflush := hk.flush key v s hs
      have hkeys : ∀ w : α, (xs ++ [(key, w)]).map Prod.fst = xs.map Prod.fst ++ [key] := by simp
      rcases hf : h.flush key (v, s) with ⟨e | _, w, s'⟩
      · rw [hf] at hflush
        refine .of_error (evictLoop_of_flush_error rfl hf) ⟨?_, hflush⟩
        rw [keys, keys, hkeys, hkeys]
      · rw [hf] at hflush
        have hrelease := hk.release key w s' hflush
        rcases hr : h.release key w s' with ⟨e | _, s''⟩
        · rw [hr] at hrelease
          refine .of_error (evictLoop_of_release_error rfl hf hr) ⟨?_, hrelease⟩
          rw [keys, keys, hkeys]
          exact List.prefix_append _ _
        · rw [hr] at hrelease
          rw [Op.Ends, evictLoop_of_flushed n done rfl hf hr]
          apply (ih (done + 1) hrelease).mono
          · rintro _ t ⟨ht, hhits, hmisses, hi⟩
            refine ⟨?_, hhits, hmisses, hi⟩
            rw [ht, keys, keys, hkeys, List.length_append, List.length_singleton,
              Nat.add_sub_add_right, List.take_append_of_le_length (Nat.sub_le _ _)]
          · rintro e t ⟨ht, hi⟩
            refine ⟨ht.trans ?_, hi⟩
            rw [keys, keys, hkeys]
            exact List.prefix_append _ _

theorem ends_access_keys (hk : h.Keeps I) (key : Nat) {use : Op (α × σ) β}
    (huse : ∀ v s, I s → I (use (v, s)).2.2) (hs : I s) :
    (access h key use).Ends (l, s)
      (fun _ t => t.1.keys = key :: l.keys.filter (· ≠ key) ∧
        Judged (key ∈ l.keys) l.lookups t.1.lookups ∧ I t.2)
      (fun _ t => (t.1.keys = l.keys ∨ t.1.keys = key :: l.keys.filter (· ≠ key)) ∧ I t.2) := by
  cases hl : l.entries.lookup key with
  | some v =>
    have hmem := mem_keys_of_lookup hl
    have hi := huse v s hs
    have hkeys : ∀ w, keys ⟨(key, w) :: without key l.entries, l.lookups⟩ =
        key :: l.keys.filter (· ≠ key) := fun w => congrArg (key :: ·) (keys_without key l.entries)
    rcases hu : use (v, s) with ⟨e | b, w, s'⟩
    · rw [hu] at hi
      apply Op.Ends.of_error (e := e)
      · simp only [access, hl, hu]
        rfl
      · exact ⟨.inr (hkeys w), hi⟩
    · rw [hu] at hi
      apply Op.Ends.of_ok (a := b)
      · simp only [access, hl, hu]
        rfl
      · exact ⟨hkeys w, ⟨fun _ => ⟨rfl, rfl⟩, fun hn => absurd hmem hn⟩, hi⟩
  | none =>
    have hnew : key ∉ l.keys := lookup_eq_none_iff_notMem.mp hl
    have hfault := hk.fault key s hs
    rcases hf : h.fault key s with ⟨e | v, s'⟩
    · rw [hf] at hfault
      apply Op.Ends.of_error (e := e)
      · simp only [access, hl, hf]
        rfl
      · exact ⟨.inl rfl, hfault⟩
    · rw [hf] at hfault
      have hi := huse v s' hfault
      rw [filter_ne_of_notMem hnew]
      rcases hu : use (v, s') with ⟨e | b, w, s''⟩
      · rw [hu] at hi
        apply Op.Ends.of_error (e := e)
        · simp only [access, hl, hf, hu]
          rfl
        · exact ⟨.inr rfl, hi⟩
      · rw [hu] at hi
        apply Op.Ends.of_ok (a := b)
        · simp only [access, hl, hf, hu]
          rfl
        · exact ⟨rfl, ⟨fun hm => absurd hm hnew, fun _ => ⟨rfl, rfl⟩⟩, hi⟩

theorem keys_flushEach (hk : h.Keeps I) (entries : List (Nat × α)) (hs : I s) :
    (flushEach h entries s).2.1.map Prod.fst = entries.map Prod.fst ∧
      I (flushEach h entries s).2.2 := by
  induction entries generalizing s with
  | nil => exact ⟨rfl, hs⟩
  | cons entry entries ih =>
    obtain ⟨key, v⟩ := entry
    have hflush := hk.flush key v s hs
    rcases hf : h.flush key (v, s) with ⟨e | _, w, s'⟩
    · rw [hf] at hflush
      simp only [flushEach, hf]
      exact ⟨rfl, hflush⟩
    · rw [hf] at hflush
      obtain ⟨hkeys, hi⟩ := ih hflush
      simp only [flushEach, hf, List.map_cons, hkeys]
      exact ⟨trivial, hi⟩

theorem ends_flushAll_keys (hk : h.Keeps I) (hs : I s) :
    (flushAll h).Ends (l, s) (fun _ t => t.1.keys = l.keys ∧ t.1.lookups = l.lookups ∧ I t.2)
      (fun _ t => t.1.keys = l.keys ∧ t.1.lookups = l.lookups ∧ I t.2) := by
  obtain ⟨hkeys, hi⟩ := keys_flushEach hk l.entries hs
  rcases hf : flushEach h l.entries s with ⟨e | _, entries, s'⟩
  · rw [hf] at hkeys hi
    apply Op.Ends.of_error (e := e)
    · simp only [flushAll, hf]
      rfl
    · exact ⟨hkeys, rfl, hi⟩
  · rw [hf] at hkeys hi
    apply Op.Ends.of_ok (a := ())
    · simp only [flushAll, hf]
      rfl
    · exact ⟨hkeys, rfl, hi⟩

end Ledger

end TieredMemory.Recency
