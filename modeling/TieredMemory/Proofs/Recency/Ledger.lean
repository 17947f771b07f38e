import TieredMemory.Proofs.Index.Direct
import TieredMemory.Proofs.Outcome
import TieredMemory.Proofs.Recency.Links
import TieredMemory.Recency.Cache

/-!
A recency cache does what a list of keys and values does that is kept in the order of use. Neither
the slots nor the direct-mapped table can be told from its answers.
-/

namespace TieredMemory.Recency

variable {σ α β : Type}

structure Ledger (α : Type) where
  entries : List (Nat × α)
  lookups : Lookups

namespace Ledger

def without (key : Nat) (entries : List (Nat × α)) : List (Nat × α) :=
  entries.filter (·.1 ≠ key)

def access (h : Handler σ α) (key : Nat) (use : Op (α × σ) β) : Op (Ledger α × σ) β := fun (l, s) =>
  match l.entries.lookup key with
  | some v =>
    let (r, v, s) := use (v, s)
    (r, ⟨(key, v) :: without key l.entries, { l.lookups with hits := l.lookups.hits + 1 }⟩, s)
  | none =>
    let lookups := { l.lookups with misses := l.lookups.misses + 1 }
    match h.fault key s with
    | (.error e, s) => (.error e, ⟨l.entries, lookups⟩, s)
    | (.ok v, s) =>
      let (r, v, s) := use (v, s)
      (r, ⟨(key, v) :: l.entries, { lookups with inserts := lookups.inserts + 1 }⟩, s)

def flushEach (h : Handler σ α) : List (Nat × α) → σ → Except Error Unit × List (Nat × α) × σ
  | [], s => (.ok (), [], s)
  | (key, v) :: rest, s =>
    match h.flush key (v, s) with
    | (.error e, v, s) => (.error e, (key, v) :: rest, s)
    | (.ok (), v, s) =>
      let (r, rest, s) := flushEach h rest s
      (r, (key, v) :: rest, s)

def flushAll (h : Handler σ α) : Op (Ledger α × σ) Unit := fun (l, s) =>
  let (r, entries, s) := flushEach h l.entries s
  (r, ⟨entries, l.lookups⟩, s)

def evictLoop (h : Handler σ α) : (n done : Nat) → Op (Ledger α × σ) Nat
  | 0, done => pure done
  | n + 1, done => fun (l, s) =>
    match l.entries.getLast? with
    | none => (.ok done, l, s)
    | some (key, v) =>
      match h.flush key (v, s) with
      | (.error e, v, s) => (.error e, ⟨l.entries.dropLast ++ [(key, v)], l.lookups⟩, s)
      | (.ok (), v, s) =>
        match h.release key v s with
        | (.error e, s) => (.error e, ⟨l.entries.dropLast, l.lookups⟩, s)
        | (.ok (), s) =>
          let lookups := { l.lookups with evictions := l.lookups.evictions + 1 }
          evictLoop h n (done + 1) (⟨l.entries.dropLast, lookups⟩, s)

def evict (h : Handler σ α) (n : Nat) : Op (Ledger α × σ) Nat := evictLoop h n 0

def clear (h : Handler σ α) : Op (Ledger α × σ) Nat := fun (l, s) =>
  evict h l.entries.length (l, s)

section Turns

variable {h : Handler σ α} {l : Ledger α} {rest : List (Nat × α)} {key : Nat} {v w : α}
variable {s t u : σ} {e : Error}

theorem evictLoop_of_flushed (n done : Nat) (hl : l.entries = rest ++ [(key, v)])
    (hf : h.flush key (v, s) = (.ok (), w, t)) (hr : h.release key w t = (.ok (), u)) :
    evictLoop h (n + 1) done (l, s) =
      evictLoop h n (done + 1)
        (⟨rest, { l.lookups with evictions := l.lookups.evictions + 1 }⟩, u) := by
  simp only [evictLoop, hl, List.getLast?_concat, List.dropLast_concat, hf, hr]

theorem evictLoop_of_flush_error {n done : Nat} (hl : l.entries = rest ++ [(key, v)])
    (hf : h.flush key (v, s) = (.error e, w, t)) :
    evictLoop h (n + 1) done (l, s) = (.error e, ⟨rest ++ [(key, w)], l.lookups⟩, t) := by
  simp only [evictLoop, hl, List.getLast?_concat, List.dropLast_concat, hf]

theorem evictLoop_of_release_error {n done : Nat} (hl : l.entries = rest ++ [(key, v)])
    (hf : h.flush key (v, s) = (.ok (), w, t)) (hr : h.release key w t = (.error e, u)) :
    evictLoop h (n + 1) done (l, s) = (.error e, ⟨rest, l.lookups⟩, u) := by
  simp only [evictLoop, hl, List.getLast?_concat, List.dropLast_concat, hf, hr]

end Turns

theorem lookup_eq_none_iff_notMem {key : Nat} {xs : List (Nat × α)} :
    xs.lookup key = none ↔ key ∉ xs.map Prod.fst := by
  rw [List.lookup_eq_none_iff]
  constructor
  · intro h hm
    obtain ⟨e, he, rfl⟩ := List.mem_map.mp hm
    simpa using h e he
  · intro h e he
    have : e.1 ≠ key := fun hk => h (hk ▸ List.mem_map_of_mem he)
    simpa using this.symm

theorem lookup_middle {key : Nat} {xs : List (Nat × α)} (h : key ∉ xs.map Prod.fst) (v : α)
    (ys : List (Nat × α)) : (xs ++ (key, v) :: ys).lookup key = some v := by
  simp [List.lookup_append, lookup_eq_none_iff_notMem.mpr h]

theorem notMem_of_nodup {xs ys : List (Nat × α)} {key : Nat} {v : α}
    (h : ((xs ++ (key, v) :: ys).map Prod.fst).Nodup) :
    key ∉ xs.map Prod.fst ∧ key ∉ ys.map Prod.fst := by
  rw [List.map_append, List.map_cons, List.nodup_middle, List.nodup_cons, List.mem_append,
    not_or] at h
  exact h.1

theorem lookup_eq_some_iff_mem {xs : List (Nat × α)} (h : (xs.map Prod.fst).Nodup) {key : Nat}
    {v : α} : xs.lookup key = some v ↔ (key, v) ∈ xs := by
  constructor
  · intro hl
    obtain ⟨as, bs, rfl, -⟩ := List.lookup_eq_some_iff.mp hl
    exact List.mem_append_right as List.mem_cons_self
  · intro hm
    obtain ⟨as, bs, rfl⟩ := List.append_of_mem hm
    exact lookup_middle (notMem_of_nodup h).1 v bs

theorem lookup_perm {xs ys : List (Nat × α)} (hp : xs.Perm ys) (h : (xs.map Prod.fst).Nodup)
    (key : Nat) : xs.lookup key = ys.lookup key := by
  apply Option.ext
  intro v
  rw [lookup_eq_some_iff_mem h,
    lookup_eq_some_iff_mem ((hp.map Prod.fst).nodup_iff.mp h), hp.mem_iff]

theorem without_of_notMem {key : Nat} {xs : List (Nat × α)} (h : key ∉ xs.map Prod.fst) :
    without key xs = xs := by
  refine List.filter_eq_self.mpr fun e he => ?_
  have : e.1 ≠ key := fun hk => h (hk ▸ List.mem_map_of_mem he)
  simpa using this

theorem without_middle {key : Nat} {xs ys : List (Nat × α)} (hx : key ∉ xs.map Prod.fst)
    (hy : key ∉ ys.map Prod.fst) (v : α) : without key (xs ++ (key, v) :: ys) = xs ++ ys := by
  have hc : without key ((key, v) :: ys) = without key ys := List.filter_cons_of_neg (by simp)
  rw [without, List.filter_append, ← without, ← without, hc, without_of_notMem hx,
    without_of_notMem hy]

theorem perm_without {xs : List (Nat × α)} (h : (xs.map Prod.fst).Nodup) {key : Nat} {v : α}
    (hl : xs.lookup key = some v) : xs.Perm ((key, v) :: without key xs) := by
  obtain ⟨as, bs, rfl⟩ := List.append_of_mem ((lookup_eq_some_iff_mem h).mp hl)
  rw [without_middle (notMem_of_nodup h).1 (notMem_of_nodup h).2]
  exact List.perm_middle

end Ledger

namespace Cache

structure Valid (c : Cache α) (slots : List Nat) : Prop where
  arena : c.arena.Holds slots
  index : ∀ key slot,
    c.index[key]? = some slot ↔ slot ∈ slots ∧ ∃ v, c.arena.item? slot = some (key, v)
  direct : ∀ key slot, c.direct.get? key = some slot → c.index[key]? = some slot
  count : c.count = slots.length

def IsValid (c : Cache α) : Prop := ∃ slots, c.Valid slots

def ledger (c : Cache α) : Ledger α := ⟨c.toList, c.lookups⟩

theorem valid_empty (lines : Nat) (h : 0 < lines) : (empty lines h : Cache α).Valid [] := by
  refine ⟨⟨⟨trivial, rfl, rfl, List.nodup_nil⟩, fun s n hn => ?_, fun s => ?_, List.nodup_nil⟩,
    fun key slot => ?_, fun key slot hk => ?_, rfl⟩
  · simp [empty, Arena.node?] at hn
  · simp [empty]
  · simp [empty]
  · cases (DirectTable.get?_empty lines h key).symm.trans hk

section Views

variable {c : Cache α} {slots : List Nat}

theorem Valid.toList_eq (h : c.Valid slots) : c.toList = slots.filterMap c.arena.item? := by
  rw [toList, h.arena.toList_eq, List.map_filterMap]
  rfl

theorem Valid.length_toList (h : c.Valid slots) : c.toList.length = slots.length := by
  rw [h.toList_eq]
  have : ∀ s ∈ slots, (c.arena.item? s).isSome := by
    intro s hs
    obtain ⟨n, hn⟩ := h.arena.exists_node hs
    rw [Arena.item?_of_node? hn]
    rfl
  exact List.filterMap_length_eq_length.mpr this

theorem Valid.slot?_eq (h : c.Valid slots) (key : Nat) : c.slot? key = c.index[key]? := by
  rw [slot?]
  cases hd : c.direct.get? key with
  | none => rfl
  | some slot => rw [Option.some_or, h.direct key slot hd]

theorem Valid.locate_eq_some_iff (h : c.Valid slots) {key slot : Nat} {n : Node α} :
    c.locate key = some (slot, n) ↔ slot ∈ slots ∧ c.arena.node? slot = some n ∧ n.key = key := by
  have hl : c.locate key = (c.index[key]?).bind fun s => (c.arena.node? s).map fun n => (s, n) := by
    rw [locate, h.slot?_eq]
    cases c.index[key]? with
    | none => rfl
    | some s => cases hn : c.arena.node? s <;> simp [hn]
  rw [hl]
  constructor
  · intro hb
    obtain ⟨s, hs, hm⟩ := Option.bind_eq_some_iff.mp hb
    obtain ⟨m, hn, he⟩ := Option.map_eq_some_iff.mp hm
    cases he
    obtain ⟨hmem, v, hv⟩ := (h.index key slot).mp hs
    rw [Arena.item?_of_node? hn] at hv
    cases hv
    exact ⟨hmem, hn, rfl⟩
  · rintro ⟨hmem, hn, rfl⟩
    rw [(h.index n.key slot).mpr ⟨hmem, n.value, Arena.item?_of_node? hn⟩, Option.bind_some, hn]
    rfl

theorem Valid.slot_unique (h : c.Valid slots) {s t key : Nat} {v w : α} (hs : s ∈ slots)
    (ht : t ∈ slots) (hv : c.arena.item? s = some (key, v)) (hw : c.arena.item? t = some (key, w)) :
    s = t :=
  Option.some.inj (((h.index key s).mpr ⟨hs, v, hv⟩).symm.trans ((h.index key t).mpr ⟨ht, w, hw⟩))

theorem Valid.key_notMem {xs ys : List Nat} {slot key : Nat} {v : α}
    (h : c.Valid (xs ++ slot :: ys)) (hv : c.arena.item? slot = some (key, v)) :
    key ∉ ((xs ++ ys).filterMap c.arena.item?).map Prod.fst := by
  intro hk
  obtain ⟨⟨k, w⟩, he, rfl⟩ := List.mem_map.mp hk
  obtain ⟨s, hs, hw⟩ := List.mem_filterMap.mp he
  have hs' : s ∈ xs ++ slot :: ys := List.perm_middle.mem_iff.mpr (List.mem_cons_of_mem slot hs)
  have hm : slot ∈ xs ++ slot :: ys := List.mem_append_right xs List.mem_cons_self
  have := h.slot_unique hs' hm hw hv
  exact (List.nodup_middle.mp h.arena.nodup).notMem (this ▸ hs)

theorem Valid.toList_middle {xs ys : List Nat} {slot key : Nat} {v : α}
    (h : c.Valid (xs ++ slot :: ys)) (hv : c.arena.item? slot = some (key, v)) :
    c.toList = xs.filterMap c.arena.item? ++ (key, v) :: ys.filterMap c.arena.item? := by
  rw [h.toList_eq, List.filterMap_append, List.filterMap_cons_some hv]

theorem Valid.lookup_toList (h : c.Valid slots) (key : Nat) :
    c.toList.lookup key = (c.locate key).map fun p => p.2.value := by
  cases hl : c.locate key with
  | some p =>
    obtain ⟨slot, n⟩ := p
    obtain ⟨hs, hn, rfl⟩ := h.locate_eq_some_iff.mp hl
    obtain ⟨xs, ys, rfl⟩ := List.append_of_mem hs
    have hv : c.arena.item? slot = some (n.key, n.value) := Arena.item?_of_node? hn
    have hk := h.key_notMem hv
    rw [List.filterMap_append, List.map_append, List.mem_append, not_or] at hk
    rw [h.toList_middle hv, Ledger.lookup_middle hk.1]
    rfl
  | none =>
    refine List.lookup_eq_none_iff.mpr fun e he => ?_
    rw [h.toList_eq] at he
    obtain ⟨slot, hs, hv⟩ := List.mem_filterMap.mp he
    obtain ⟨n, hn, rfl⟩ := Option.map_eq_some_iff.mp hv
    have hne : n.key ≠ key := by
      intro hk
      rw [h.locate_eq_some_iff.mpr ⟨hs, hn, hk⟩] at hl
      cases hl
    simpa using hne.symm

theorem Valid.nodup_keys (h : c.Valid slots) : (c.toList.map Prod.fst).Nodup := by
  rw [h.toList_eq, List.map_filterMap]
  refine (List.Pairwise.and_mem.mp h.arena.nodup).filterMap _ ?_
  rintro s t ⟨hs, ht, hne⟩ k hk k' hk' rfl
  obtain ⟨⟨_, v⟩, hv, rfl⟩ := Option.map_eq_some_iff.mp hk
  obtain ⟨⟨_, w⟩, hw, rfl⟩ := Option.map_eq_some_iff.mp hk'
  exact hne (h.slot_unique hs ht hv hw)

theorem IsValid.nodup_keys (h : c.IsValid) : (c.toList.map Prod.fst).Nodup := by
  obtain ⟨slots, h⟩ := h
  exact h.nodup_keys

theorem IsValid.count_eq (h : c.IsValid) : c.count = c.toList.length := by
  obtain ⟨slots, h⟩ := h
  exact h.count.trans h.length_toList.symm

theorem IsValid.peek?_eq (h : c.IsValid) (key : Nat) : c.peek? key = c.toList.lookup key := by
  obtain ⟨slots, h⟩ := h
  exact (h.lookup_toList key).symm

theorem IsValid.contains_eq (h : c.IsValid) (key : Nat) :
    c.contains key = (c.toList.lookup key).isSome := by
  rw [← h.peek?_eq, contains, peek?, Option.isSome_map]

end Views

section Steps

variable {c : Cache α}

theorem Valid.refresh {xs ys : List Nat} {slot key : Nat} {v : α} (h : c.Valid (xs ++ slot :: ys))
    (hv : c.arena.item? slot = some (key, v)) (value : α) :
    (c.refresh slot key value).Valid (slot :: (xs ++ ys)) ∧
      (c.refresh slot key value).toList = (key, value) :: Ledger.without key c.toList := by
  have hnm : slot ∉ xs ++ ys := (List.nodup_middle.mp h.arena.nodup).notMem
  have hmem : ∀ s, s ∈ slot :: (xs ++ ys) ↔ s ∈ xs ++ slot :: ys :=
    fun s => List.perm_middle.symm.mem_iff
  obtain ⟨hh, he⟩ := (h.arena.setValue slot value).moveToFront
  have hentry : ∀ s, (c.refresh slot key value).arena.item? s =
      if slot = s then (c.arena.item? s).map fun e => (e.1, value) else c.arena.item? s :=
    fun s => (he.item? s).trans (Arena.item?_setValue c.arena slot value s)
  have hslot : (c.refresh slot key value).arena.item? slot = some (key, value) := by
    rw [hentry, if_pos rfl, hv]
    rfl
  have hothers : ∀ s ∈ xs ++ ys, (c.refresh slot key value).arena.item? s = c.arena.item? s :=
    fun s hs => (hentry s).trans (if_neg (ne_of_mem_of_not_mem hs hnm).symm)
  have hval : (c.refresh slot key value).Valid (slot :: (xs ++ ys)) := by
    refine ⟨hh, fun k s => ?_, fun k s hk => ?_, ?_⟩
    · refine (h.index k s).trans (and_congr (hmem s).symm ?_)
      rw [hentry]
      split
      · subst slot
        rw [hv]
        simp
      · rfl
    · rw [show (c.refresh slot key value).direct = c.direct.insert key slot from rfl,
        DirectTable.get?_insert] at hk
      split at hk
      · cases hk
        subst k
        exact (h.index key slot).mpr ⟨(hmem slot).mp List.mem_cons_self, v, hv⟩
      · split at hk
        · cases hk
        · exact h.direct k s hk
    · exact h.count.trans List.perm_middle.length_eq
  refine ⟨hval, ?_⟩
  have hk := h.key_notMem hv
  rw [List.filterMap_append, List.map_append, List.mem_append, not_or] at hk
  rw [hval.toList_eq, List.filterMap_cons_some hslot, List.filterMap_congr hothers,
    h.toList_middle hv, Ledger.without_middle hk.1 hk.2, List.filterMap_append]

theorem Valid.index_insert {slots : List Nat} {slot key : Nat} {value : α} {a : Arena α}
    (h : c.Valid slots) (hs : a.item? slot = some (key, value))
    (ho : ∀ s ∈ slots, a.item? s = c.arena.item? s)
    (hnew : ∀ s ∈ slots, ∀ v, c.arena.item? s ≠ some (key, v)) (k s : Nat) :
    (c.index.insert key slot)[k]? = some s ↔ s ∈ slot :: slots ∧ ∃ v, a.item? s = some (k, v) := by
  rw [Std.TreeMap.getElem?_insert, List.mem_cons]
  by_cases hks : key = k
  · subst hks
    simp only [Std.ReflCmp.compare_self, if_true, Option.some.injEq]
    constructor
    · rintro rfl
      exact ⟨.inl rfl, value, hs⟩
    · rintro ⟨rfl | hm, v, hv⟩
      · rfl
      · exact absurd (ho s hm ▸ hv) (hnew s hm v)
  · rw [if_neg (by simpa using hks), h.index]
    constructor
    · rintro ⟨hm, v, hv⟩
      exact ⟨.inr hm, v, (ho s hm).trans hv⟩
    · rintro ⟨rfl | hm, v, hv⟩
      · rw [hs] at hv
        cases hv
        exact absurd rfl hks
      · exact ⟨hm, v, (ho s hm).symm.trans hv⟩

theorem Valid.direct_insert {slots : List Nat} {slot key k s : Nat} (h : c.Valid slots)
    (hd : (c.direct.insert key slot).get? k = some s) :
    (c.index.insert key slot)[k]? = some s := by
  rw [DirectTable.get?_insert] at hd
  rw [Std.TreeMap.getElem?_insert]
  split at hd
  · cases hd
    subst k
    simp
  · split at hd
    · cases hd
    · rw [if_neg (by simpa using Ne.symm ‹_›)]
      exact h.direct k s hd

theorem Valid.insertFront {slots : List Nat} {key : Nat} (h : c.Valid slots)
    (hk : key ∉ c.toList.map Prod.fst) (value : α) :
    (c.insertFront key value).IsValid ∧
      (c.insertFront key value).toList = (key, value) :: c.toList := by
  obtain ⟨-, hh, hs, ho⟩ := h.arena.insert key value
  have hnew : ∀ s ∈ slots, ∀ v, c.arena.item? s ≠ some (key, v) := by
    intro s hm v hv
    exact hk (List.mem_map_of_mem (h.toList_eq ▸ List.mem_filterMap.mpr ⟨s, hm, hv⟩))
  have hval : (c.insertFront key value).Valid ((c.arena.insert key value).1 :: slots) := by
    constructor
    · exact hh
    · exact h.index_insert hs ho hnew
    · exact fun k s hd => h.direct_insert hd
    · exact congrArg (· + 1) h.count
  refine ⟨⟨_, hval⟩, hval.toList_eq.trans ?_⟩
  exact (List.filterMap_cons_some hs).trans
    (congrArg ((key, value) :: ·) ((List.filterMap_congr ho).trans h.toList_eq.symm))

theorem Valid.index_erase {xs ys : List Nat} {slot key : Nat} {v : α} {a : Arena α}
    (h : c.Valid (xs ++ slot :: ys)) (hv : c.arena.item? slot = some (key, v))
    (ho : ∀ s ∈ xs ++ ys, a.item? s = c.arena.item? s) (k s : Nat) :
    (c.index.erase key)[k]? = some s ↔ s ∈ xs ++ ys ∧ ∃ w, a.item? s = some (k, w) := by
  have hnm : slot ∉ xs ++ ys := (List.nodup_middle.mp h.arena.nodup).notMem
  have hmem : ∀ s, s ∈ xs ++ slot :: ys ↔ s = slot ∨ s ∈ xs ++ ys :=
    fun s => List.perm_middle.mem_iff.trans List.mem_cons
  rw [Std.TreeMap.getElem?_erase]
  by_cases hk : key = k
  · subst hk
    simp only [Std.ReflCmp.compare_self, if_true, reduceCtorEq, false_iff]
    rintro ⟨hs, w, hw⟩
    have hs' := (hmem s).mpr (.inr hs)
    have hsl := (hmem slot).mpr (.inl rfl)
    have : s = slot := h.slot_unique hs' hsl ((ho s hs).symm.trans hw) hv
    exact hnm (this ▸ hs)
  · rw [if_neg (by simpa using hk), h.index, hmem]
    constructor
    · rintro ⟨rfl | hs, w, hw⟩
      · rw [hv] at hw
        cases hw
        exact absurd rfl hk
      · exact ⟨hs, w, (ho s hs).trans hw⟩
    · rintro ⟨hs, w, hw⟩
      exact ⟨.inr hs, w, (ho s hs).symm.trans hw⟩

theorem Valid.direct_erase {slots : List Nat} {key k s : Nat} (h : c.Valid slots)
    (hd : (c.direct.erase key).get? k = some s) : (c.index.erase key)[k]? = some s := by
  rw [DirectTable.get?_erase] at hd
  split at hd
  · cases hd
  · rw [Std.TreeMap.getElem?_erase, if_neg (by simpa using Ne.symm ‹_›)]
    exact h.direct k s hd

theorem Valid.detach {xs ys : List Nat} {slot key : Nat} {v : α} (h : c.Valid (xs ++ slot :: ys))
    (hv : c.arena.item? slot = some (key, v)) :
    (c.detach slot key).Valid (xs ++ ys) ∧
      (c.detach slot key).toList = (xs ++ ys).filterMap c.arena.item? := by
  obtain ⟨hh, ho⟩ := h.arena.remove
  have hcount : c.count - 1 = (xs ++ ys).length := by
    rw [h.count, List.perm_middle.length_eq]
    rfl
  have hval : (c.detach slot key).Valid (xs ++ ys) := by
    constructor
    · exact hh
    · exact h.index_erase hv ho
    · exact fun k s hd => h.direct_erase hd
    · exact hcount
  exact ⟨hval, hval.toList_eq.trans (List.filterMap_congr ho)⟩

theorem Valid.setValue {xs ys : List Nat} {slot key : Nat} {v : α} (h : c.Valid (xs ++ slot :: ys))
    (hv : c.arena.item? slot = some (key, v)) (value : α) :
    { c with arena := c.arena.setValue slot value }.Valid (xs ++ slot :: ys) ∧
      { c with arena := c.arena.setValue slot value }.toList =
        xs.filterMap c.arena.item? ++ (key, value) :: ys.filterMap c.arena.item? := by
  have hnm : slot ∉ xs ++ ys := (List.nodup_middle.mp h.arena.nodup).notMem
  rw [List.mem_append, not_or] at hnm
  have hval : { c with arena := c.arena.setValue slot value }.Valid (xs ++ slot :: ys) := by
    refine ⟨h.arena.setValue slot value, fun k s => ?_, h.direct, h.count⟩
    refine (h.index k s).trans (and_congr Iff.rfl ?_)
    rw [Arena.item?_setValue]
    split
    · subst slot
      rw [hv]
      simp
    · rfl
  refine ⟨hval, (hval.toList_middle (Arena.item?_setValue_self hv value)).trans ?_⟩
  rw [Arena.filterMap_setValue c.arena hnm.1, Arena.filterMap_setValue c.arena hnm.2]

theorem Valid.withLookups {slots : List Nat} (h : c.Valid slots) (lookups : Lookups) :
    { c with lookups }.Valid slots :=
  ⟨h.arena, h.index, h.direct, h.count⟩

theorem Valid.leastRecentNode?_eq_none (h : c.Valid []) : c.leastRecentNode? = none := by
  rw [leastRecentNode?, h.arena.oldest]
  rfl

theorem Valid.leastRecentNode?_eq_some {xs : List Nat} {slot : Nat} {n : Node α}
    (h : c.Valid (xs ++ [slot])) (hn : c.arena.node? slot = some n) :
    c.leastRecentNode? = some (slot, n) := by
  rw [leastRecentNode?, h.arena.oldest, List.getLast?_concat]
  simp [hn]

end Steps

section Refinement

/-- From a state that is in order, `op` answers what `model` answers on the ledger, calls the
handler as `model` does, and leaves a state in order whose ledger is the one that `model` leaves. -/
def Tracks (op : Op (Cache α × σ) β) (model : Op (Ledger α × σ) β) : Prop :=
  ∀ c s, c.IsValid → (op (c, s)).2.1.IsValid ∧
    model (c.ledger, s) = ((op (c, s)).1, (op (c, s)).2.1.ledger, (op (c, s)).2.2)

theorem Tracks.ends {op : Op (Cache α × σ) β} {model : Op (Ledger α × σ) β} {c : Cache α} {s : σ}
    {ok : β → Ledger α × σ → Prop} {bad : Error → Ledger α × σ → Prop} (ht : Tracks op model)
    (hc : c.IsValid) (hm : model.Ends (c.ledger, s) ok bad) :
    op.Ends (c, s) (fun a t => t.1.IsValid ∧ ok a (t.1.ledger, t.2))
      (fun e t => t.1.IsValid ∧ bad e (t.1.ledger, t.2)) := by
  obtain ⟨hv, he⟩ := ht c s hc
  rw [Op.Ends, he] at hm
  rw [Op.Ends]
  rcases hop : op (c, s) with ⟨_ | _, t⟩
  · rw [hop] at hm hv
    exact ⟨hv, hm⟩
  · rw [hop] at hm hv
    exact ⟨hv, hm⟩

theorem Tracks.bind {γ : Type} {op : Op (Cache α × σ) β} {model : Op (Ledger α × σ) β}
    {f : β → Op (Cache α × σ) γ} {g : β → Op (Ledger α × σ) γ} (ht : Tracks op model)
    (hf : ∀ b, Tracks (f b) (g b)) : Tracks (op >>= f) (model >>= g) := by
  intro c s hc
  obtain ⟨hv, hm⟩ := ht c s hc
  rcases hop : op (c, s) with ⟨e | b, c', s'⟩
  · rw [hop] at hv hm
    rw [Op.bind_apply_error hop, Op.bind_apply_error hm]
    exact ⟨hv, rfl⟩
  · rw [hop] at hv hm
    rw [Op.bind_apply_ok hop, Op.bind_apply_ok hm]
    exact hf b c' s' hv

theorem tracks_access (h : Handler σ α) (key : Nat) (use : Op (α × σ) β) :
    Tracks (access h key use) (Ledger.access h key use) := by
  rintro c s ⟨slots, hc⟩
  have hl := hc.lookup_toList key
  cases hloc : c.locate key with
  | some p =>
    obtain ⟨slot, n⟩ := p
    obtain ⟨hs, hn, rfl⟩ := hc.locate_eq_some_iff.mp hloc
    obtain ⟨xs, ys, rfl⟩ := List.append_of_mem hs
    have hv : c.arena.item? slot = some (n.key, n.value) := Arena.item?_of_node? hn
    obtain ⟨r, v, s', hu⟩ : ∃ r v s', use (n.value, s) = (r, v, s') := ⟨_, _, _, rfl⟩
    obtain ⟨hr, ht⟩ := (hc.withLookups c.recordHit.lookups).refresh hv v
    have hop : access h n.key use (c, s) = (r, c.recordHit.refresh slot n.key v, s') := by
      simp only [access, hloc, hu]
    rw [hloc] at hl
    have hmodel : Ledger.access h n.key use (c.ledger, s) =
        (r, ⟨(n.key, v) :: Ledger.without n.key c.toList, c.recordHit.lookups⟩, s') := by
      simp only [Ledger.access, ledger, hl, Option.map_some, hu]
      rfl
    rw [hop, hmodel]
    exact ⟨⟨_, hr⟩, congrArg (fun l => (r, Ledger.mk l c.recordHit.lookups, s')) ht.symm⟩
  | none =>
    rw [hloc, Option.map_none] at hl
    have hk := Ledger.lookup_eq_none_iff_notMem.mp hl
    rcases hf : h.fault key s with ⟨e | v, s'⟩
    · have hop : access h key use (c, s) = (.error e, c.recordMiss, s') := by
        simp only [access, hloc, hf]
      rw [hop]
      refine ⟨⟨slots, hc.withLookups _⟩, ?_⟩
      simp only [Ledger.access, ledger, hl, hf]
      rfl
    · obtain ⟨r, v', s'', hu⟩ : ∃ r v' s'', use (v, s') = (r, v', s'') := ⟨_, _, _, rfl⟩
      obtain ⟨hr, ht⟩ := (hc.withLookups c.recordMiss.lookups).insertFront hk v'
      have hop : access h key use (c, s) = (r, c.recordMiss.insertFront key v', s'') := by
        simp only [access, hloc, hf, hu]
      have hmodel : Ledger.access h key use (c.ledger, s) =
          (r, ⟨(key, v') :: c.toList, (c.recordMiss.insertFront key v').lookups⟩, s'') := by
        simp only [Ledger.access, ledger, hl, hf, hu]
        rfl
      rw [hop, hmodel]
      exact ⟨hr, congrArg (fun l => (r, Ledger.mk l _, s'')) ht.symm⟩

theorem tracks_evictLoop (h : Handler σ α) (n done : Nat) :
    Tracks (evictLoop h n done) (Ledger.evictLoop h n done) := by
  induction n generalizing done with
  | zero => exact fun c s hc => ⟨hc, rfl⟩
  | succ n ih =>
    rintro c s ⟨slots, hc⟩
    rcases List.eq_nil_or_concat' slots with rfl | ⟨xs, slot, rfl⟩
    · have hop : evictLoop h (n + 1) done (c, s) = (.ok done, c, s) := by
        simp only [evictLoop, hc.leastRecentNode?_eq_none]
      have hl : c.toList = [] := hc.toList_eq
      rw [hop]
      refine ⟨⟨[], hc⟩, ?_⟩
      simp only [Ledger.evictLoop, ledger, hl, List.getLast?_nil]
    · obtain ⟨m, hm⟩ := hc.arena.exists_node (List.mem_append_right xs List.mem_cons_self)
      have hv : c.arena.item? slot = some (m.key, m.value) := Arena.item?_of_node? hm
      have hl := hc.toList_middle hv
      rw [List.filterMap_nil] at hl
      rcases hf : h.flush m.key (m.value, s) with ⟨e | _, v, s'⟩
      · obtain ⟨hval, ht⟩ := hc.setValue hv v
        have hop : evictLoop h (n + 1) done (c, s) =
            (.error e, { c with arena := c.arena.setValue slot v }, s') := by
          simp only [evictLoop, hc.leastRecentNode?_eq_some hm, expel, hf]
        rw [hop]
        refine ⟨⟨_, hval⟩, ?_⟩
        simp only [Ledger.evictLoop, ledger, hl, List.getLast?_concat, hf, List.dropLast_concat, ht]
        rfl
      · obtain ⟨hval, ht⟩ := hc.detach hv
        rw [List.append_nil] at ht hval
        rcases hr : h.release m.key v s' with ⟨e | _, s''⟩
        · have hop : evictLoop h (n + 1) done (c, s) = (.error e, c.detach slot m.key, s'') := by
            simp only [evictLoop, hc.leastRecentNode?_eq_some hm, expel, hf, hr]
          rw [hop]
          refine ⟨⟨_, hval⟩, ?_⟩
          simp only [Ledger.evictLoop, ledger, hl, List.getLast?_concat, hf, hr,
            List.dropLast_concat, ht]
          rfl
        · have hop : evictLoop h (n + 1) done (c, s) =
              evictLoop h n (done + 1) ((c.detach slot m.key).recordEviction, s'') := by
            simp only [evictLoop, hc.leastRecentNode?_eq_some hm, expel, hf, hr]
          have hmodel : Ledger.evictLoop h (n + 1) done (c.ledger, s) =
              Ledger.evictLoop h n (done + 1)
                ((c.detach slot m.key).recordEviction.ledger, s'') := by
            have : (c.detach slot m.key).recordEviction.toList = xs.filterMap c.arena.item? := ht
            simp only [Ledger.evictLoop, ledger, hl, List.getLast?_concat, hf, hr,
              List.dropLast_concat, this]
            rfl
          rw [hop, hmodel]
          exact ih (done + 1) _ s'' ⟨_, hval.withLookups _⟩

theorem tracks_evict (h : Handler σ α) (n : Nat) : Tracks (evict h n) (Ledger.evict h n) :=
  tracks_evictLoop h n 0

theorem tracks_clear (h : Handler σ α) : Tracks (clear h) (Ledger.clear h) := by
  intro c s hc
  simpa only [clear, Ledger.clear, ledger, hc.count_eq] using tracks_evict h c.toList.length c s hc

theorem flushFrom_tracks (h : Handler σ α) {n : Nat} {c : Cache α} {s : σ} {xs ys : List Nat}
    (hc : c.Valid (xs ++ ys)) (hn : ys.length ≤ n) :
    ∃ r c' s', flushFrom h n ys.head? (c, s) = (r, c', s') ∧ c'.IsValid ∧ c'.lookups = c.lookups ∧
      ∃ entries, Ledger.flushEach h (ys.filterMap c.arena.item?) s = (r, entries, s') ∧
        c'.toList = xs.filterMap c.arena.item? ++ entries := by
  -- on the slots still ahead of the cursor; those in `xs` are flushed
  induction ys generalizing n c s xs with
  | nil =>
    refine ⟨.ok (), c, s, ?_, ⟨_, hc⟩, rfl, [], rfl, ?_⟩
    · cases n <;> rfl
    · simpa using hc.toList_eq
  | cons slot ys ih =>
    obtain ⟨n, rfl⟩ : ∃ m, n = m + 1 := ⟨n - 1, by simp at hn; omega⟩
    obtain ⟨m, hm⟩ := hc.arena.exists_node (List.mem_append_right xs List.mem_cons_self)
    have hv : c.arena.item? slot = some (m.key, m.value) := Arena.item?_of_node? hm
    have hnext : m.older = ys.head? := by
      obtain ⟨m', hm', -, ho⟩ := hc.arena.toLinked.node?_eq
      cases hm.symm.trans hm'
      exact ho
    rw [List.filterMap_cons_some hv]
    rcases hf : h.flush m.key (m.value, s) with ⟨e | _, v, s'⟩
    · obtain ⟨hval, ht⟩ := hc.setValue hv v
      refine ⟨.error e, { c with arena := c.arena.setValue slot v }, s', ?_, ⟨_, hval⟩,
        rfl, _, ?_, ht⟩
      · simp only [flushFrom, List.head?_cons, hm, flushNode, hf]
      · simp only [Ledger.flushEach, hf]
    · obtain ⟨hval, ht⟩ := hc.setValue hv v
      have hsplit : xs ++ slot :: ys = (xs ++ [slot]) ++ ys := by simp
      have hnm : slot ∉ xs ++ ys := (List.nodup_middle.mp hc.arena.nodup).notMem
      rw [List.mem_append, not_or] at hnm
      have hpre : (xs ++ [slot]).filterMap (c.arena.setValue slot v).item? =
          xs.filterMap c.arena.item? ++ [(m.key, v)] := by
        rw [List.filterMap_append, Arena.filterMap_setValue c.arena hnm.1,
          List.filterMap_cons_some (Arena.item?_setValue_self hv v), List.filterMap_nil]
      obtain ⟨r, c', s'', hop, hvalid, hlook, entries, hmodel, hlist⟩ :=
        ih (c := { c with arena := c.arena.setValue slot v }) (s := s') (hsplit ▸ hval)
          (by simpa using hn)
      refine ⟨r, c', s'', ?_, hvalid, hlook, (m.key, v) :: entries, ?_, ?_⟩
      · simp only [flushFrom, List.head?_cons, hm, flushNode, hf, hnext]
        exact hop
      · rw [Arena.filterMap_setValue c.arena hnm.2] at hmodel
        simp only [Ledger.flushEach, hf, hmodel]
      · rw [hlist, hpre]
        simp

theorem tracks_flushAll (h : Handler σ α) : Tracks (flushAll h) (Ledger.flushAll h) := by
  rintro c s ⟨slots, hc⟩
  obtain ⟨r, c', s', hop, hvalid, hlook, entries, hmodel, hlist⟩ :=
    flushFrom_tracks h (s := s) (show c.Valid ([] ++ slots) from hc) hc.arena.length_le
  have hop : flushAll h (c, s) = (r, c', s') := by
    rw [← hop]
    exact congrArg (fun cursor => flushFrom h _ cursor (c, s)) hc.arena.newest
  rw [hop]
  refine ⟨hvalid, ?_⟩
  simp only [Ledger.flushAll, ledger, hc.toList_eq, hmodel, hlook, hlist]
  rfl

end Refinement

end Cache

end TieredMemory.Recency
