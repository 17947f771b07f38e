import TieredMemory.Proofs.Alike
import TieredMemory.Proofs.Recency.Requests

namespace TieredMemory.Recency

variable {σ τ α β γ δ : Type}

abbrev Pairs (α β : Type) := List (Nat × α × β)

/-- The callbacks of `h` and `h'` are alike and fail as `allowed`. Between callbacks `R` relates the
entries and the two worlds; a fault needs `Ready`, and a flush that succeeds leaves `Flushed`. -/
structure Handler.Alike (R Ready : Pairs α β → σ → τ → Prop)
    (Flushed : Nat → α → β → Pairs α β → σ → τ → Prop) (allowed : Error → Prop)
    (h : Handler σ α) (h' : Handler τ β) : Prop where
  perm : ∀ {es es' : Pairs α β} {s : σ} {t : τ}, es.Perm es' → R es s t → R es' s t
  fault : ∀ {es : Pairs α β} {s : σ} {t : τ} {key : Nat}, Ready es s t →
    key ∉ es.map Prod.fst → (h.fault key).Alike (h'.fault key) s t
      (fun v w s' t' => R ((key, v, w) :: es) s' t') (fun e s' t' => allowed e ∧ R es s' t')
  flush : ∀ {es : Pairs α β} {s : σ} {t : τ} {key : Nat} {v : α} {w : β},
    R ((key, v, w) :: es) s t → (h.flush key).Alike (h'.flush key) (v, s) (w, t)
      (fun _ _ x y => Flushed key x.1 y.1 es x.2 y.2)
      (fun e x y => allowed e ∧ R ((key, x.1, y.1) :: es) x.2 y.2)
  flushed : ∀ {es : Pairs α β} {s : σ} {t : τ} {key : Nat} {v : α} {w : β},
    Flushed key v w es s t → R ((key, v, w) :: es) s t
  release : ∀ {es : Pairs α β} {s : σ} {t : τ} {key : Nat} {v : α} {w : β},
    Flushed key v w es s t → (h.release key v).Alike (h'.release key w) s t
      (fun _ _ s' t' => R es s' t') (fun e s' t' => allowed e ∧ R es s' t')

namespace Ledger

def map (f : α → β) (l : Ledger α) : Ledger β := ⟨l.entries.map fun e => (e.1, f e.2), l.lookups⟩

theorem lookup_map (f : α → β) (entries : List (Nat × α)) (key : Nat) :
    (entries.map fun e => (e.1, f e.2)).lookup key = (entries.lookup key).map f := by
  induction entries with
  | nil => rfl
  | cons e entries ih =>
    rw [List.map_cons, List.lookup_cons, List.lookup_cons]
    cases key == e.1
    · exact ih
    · rfl

theorem keys_map (f : α → β) (entries : List (Nat × α)) :
    (entries.map fun e => (e.1, f e.2)).map Prod.fst = entries.map Prod.fst := by
  rw [List.map_map]
  rfl

theorem without_map (f : α → β) (key : Nat) (entries : List (Nat × α)) :
    without key (entries.map fun e => (e.1, f e.2)) =
      (without key entries).map fun e => (e.1, f e.2) := by
  rw [without, List.filter_map]
  rfl

theorem entries_map_concat (f : α → β) {l : Ledger α} {key : Nat} {v : α} {entries : List (Nat × α)}
    (hl : l.entries = entries ++ [(key, v)]) :
    (l.map f).entries = entries.map (fun e => (e.1, f e.2)) ++ [(key, f v)] := by
  rw [map, hl, List.map_append]
  rfl

structure Side (R : Pairs α β → σ → τ → Prop) (m : Ledger (α × β)) (x : Ledger α × σ)
    (y : Ledger β × τ) : Prop where
  left : x.1 = m.map Prod.fst
  right : y.1 = m.map Prod.snd
  nodup : (m.entries.map Prod.fst).Nodup
  holds : R m.entries x.2 y.2

def Together (R : Pairs α β → σ → τ → Prop) (x : Ledger α × σ) (y : Ledger β × τ) : Prop :=
  ∃ m, Side R m x y

variable {R Ready : Pairs α β → σ → τ → Prop}
variable {Flushed : Nat → α → β → Pairs α β → σ → τ → Prop} {allowed : Error → Prop}
variable {h : Handler σ α} {h' : Handler τ β} {m : Ledger (α × β)}
variable {x : Ledger α × σ} {y : Ledger β × τ} {key : Nat}

theorem Side.length_eq (hs : Side R m x y) : x.1.entries.length = m.entries.length := by
  rw [hs.left, map, List.length_map]

def Uses (R : Pairs α β → σ → τ → Prop) (allowed : Error → Prop) (key : Nat)
    (ok : γ → δ → Prop) (use : Op (α × σ) γ) (use' : Op (β × τ) δ) : Prop :=
  ∀ es v w s t, R ((key, v, w) :: es) s t → use.Alike use' (v, s) (w, t)
    (fun a b x y => ok a b ∧ R ((key, x.1, y.1) :: es) x.2 y.2)
    (fun e x y => allowed e ∧ R ((key, x.1, y.1) :: es) x.2 y.2)

theorem alike_access {ok : γ → δ → Prop} {use : Op (α × σ) γ} {use' : Op (β × τ) δ}
    (hh : h.Alike R Ready Flushed allowed h') (hs : Side R m x y)
    (hready : key ∉ m.entries.map Prod.fst → Ready m.entries x.2 y.2)
    (huse : Uses R allowed key ok use use') :
    (access h key use).Alike (access h' key use') x y
      (fun a b x' y' => ok a b ∧ Together R x' y')
      (fun e x' y' => allowed e ∧ Together R x' y') := by
  obtain ⟨l, s⟩ := x
  obtain ⟨l', t⟩ := y
  obtain ⟨rfl, rfl, hnodup, hr⟩ := hs
  have hleft := lookup_map Prod.fst m.entries key
  have hright := lookup_map Prod.snd m.entries key
  cases hl : m.entries.lookup key with
  | some p =>
    obtain ⟨v, w⟩ := p
    rw [hl] at hleft hright
    have hperm := perm_without hnodup hl
    have hkeys : (((key, v, w) :: without key m.entries).map Prod.fst).Nodup :=
      (hperm.map Prod.fst).nodup_iff.mp hnodup
    -- whatever becomes of the two values, their key moves to the front
    have hmoved : ∀ v' w' s' t', R ((key, v', w') :: without key m.entries) s' t' →
        Side R ⟨(key, v', w') :: without key m.entries,
            { m.lookups with hits := m.lookups.hits + 1 }⟩
          (⟨(key, v') :: without key (m.map Prod.fst).entries,
            { m.lookups with hits := m.lookups.hits + 1 }⟩, s')
          (⟨(key, w') :: without key (m.map Prod.snd).entries,
            { m.lookups with hits := m.lookups.hits + 1 }⟩, t') := by
      intro v' w' s' t' hr'
      refine ⟨?_, ?_, hkeys, hr'⟩
      · simp only [map, without_map, List.map_cons]
      · simp only [map, without_map, List.map_cons]
    rcases (huse _ v w s t (hh.perm hperm hr)).cases with
      ⟨a, ⟨v', s'⟩, b, ⟨w', t'⟩, he, he', hok, hr'⟩ | ⟨e, ⟨v', s'⟩, ⟨w', t'⟩, he, he', hall, hr'⟩
    · apply Op.Alike.of_ok
      · simp only [access, map, hleft, Option.map_some, he]
        rfl
      · simp only [access, map, hright, Option.map_some, he']
        rfl
      · exact ⟨hok, _, hmoved v' w' s' t' hr'⟩
    · apply Op.Alike.of_error
      · simp only [access, map, hleft, Option.map_some, he]
        rfl
      · simp only [access, map, hright, Option.map_some, he']
        rfl
      · exact ⟨hall, _, hmoved v' w' s' t' hr'⟩
  | none =>
    rw [hl] at hleft hright
    have hnew := lookup_eq_none_iff_notMem.mp hl
    rcases (hh.fault (hready hnew) hnew).cases with
      ⟨v, s₁, w, t₁, he, he', hr'⟩ | ⟨e, s₁, t₁, he, he', hall, hr'⟩
    · have hcame : ∀ v' w' s' t', R ((key, v', w') :: m.entries) s' t' →
          Side R ⟨(key, v', w') :: m.entries, { m.lookups with
                misses := m.lookups.misses + 1, inserts := m.lookups.inserts + 1 }⟩
            (⟨(key, v') :: (m.map Prod.fst).entries, { m.lookups with
                misses := m.lookups.misses + 1, inserts := m.lookups.inserts + 1 }⟩, s')
            (⟨(key, w') :: (m.map Prod.snd).entries, { m.lookups with
                misses := m.lookups.misses + 1, inserts := m.lookups.inserts + 1 }⟩, t') :=
        fun v' w' s' t' hr' => ⟨rfl, rfl, List.nodup_cons.mpr ⟨hnew, hnodup⟩, hr'⟩
      rcases (huse _ v w s₁ t₁ hr').cases with
        ⟨a, ⟨v', s'⟩, b, ⟨w', t'⟩, hu, hu', hok, hr'⟩ | ⟨e, ⟨v', s'⟩, ⟨w', t'⟩, hu, hu', hall, hr'⟩
      · apply Op.Alike.of_ok
        · simp only [access, map, hleft, Option.map_none, he, hu]
          rfl
        · simp only [access, map, hright, Option.map_none, he', hu']
          rfl
        · exact ⟨hok, _, hcame v' w' s' t' hr'⟩
      · apply Op.Alike.of_error
        · simp only [access, map, hleft, Option.map_none, he, hu]
          rfl
        · simp only [access, map, hright, Option.map_none, he', hu']
          rfl
        · exact ⟨hall, _, hcame v' w' s' t' hr'⟩
    · apply Op.Alike.of_error
      · simp only [access, map, hleft, Option.map_none, he]
        rfl
      · simp only [access, map, hright, Option.map_none, he']
        rfl
      · exact ⟨hall, ⟨m.entries, { m.lookups with misses := m.lookups.misses + 1 }⟩, rfl, rfl,
          hnodup, hr'⟩

theorem alike_evictLoop (hh : h.Alike R Ready Flushed allowed h') (n done : Nat)
    (hs : Side R m x y) :
    (evictLoop h n done).Alike (evictLoop h' n done) x y
      (fun a b x' y' => b = a ∧ x'.1.entries.length = m.entries.length - n ∧ Together R x' y')
      (fun e x' y' => allowed e ∧ Together R x' y') := by
  induction n generalizing done m x y with
  | zero => exact Op.alike_pure ⟨rfl, hs.length_eq, m, hs⟩
  | succ n ih =>
    obtain ⟨l, s⟩ := x
    obtain ⟨l', t⟩ := y
    rcases List.eq_nil_or_concat' m.entries with hnil | ⟨es, ⟨key, v, w⟩, hm⟩
    · have hempty : (m.map Prod.fst).entries = [] ∧ (m.map Prod.snd).entries = [] := by
        simp only [map, hnil, List.map_nil, and_self]
      have hlen := hs.length_eq
      obtain ⟨rfl, rfl, -, -⟩ := id hs
      apply Op.Alike.of_ok
      · simp only [evictLoop, hempty.1, List.getLast?_nil]
        rfl
      · simp only [evictLoop, hempty.2, List.getLast?_nil]
        rfl
      · refine ⟨rfl, hlen.trans ?_, m, hs⟩
        rw [hnil]
        exact (Nat.zero_sub _).symm
    · obtain ⟨rfl, rfl, hkeys, hr⟩ := hs
      have hlast := entries_map_concat Prod.fst hm
      have hlast' := entries_map_concat Prod.snd hm
      have hperm : ∀ q, (es ++ [(key, q)]).Perm ((key, q) :: es) :=
        fun q => List.perm_append_singleton _ _
      have hfront := (hm ▸ hperm (v, w) : m.entries.Perm _)
      have hkeys : (key :: es.map Prod.fst).Nodup := (hfront.map Prod.fst).nodup_iff.mp hkeys
      have hnodup := (List.nodup_cons.mp hkeys).2
      rcases (hh.flush (hh.perm hfront hr)).cases with
        ⟨_, ⟨v', s₁⟩, _, ⟨w', t₁⟩, hf, hf', hr⟩ | ⟨e, ⟨v', s₁⟩, ⟨w', t₁⟩, hf, hf', hall, hr⟩
      · rcases (hh.release hr).cases with
            ⟨_, s₂, _, t₂, hx, hx', hr⟩ | ⟨e, s₂, t₂, hx, hx', hall, hr⟩
        · have hop := evictLoop_of_flushed n done hlast hf hx
          have hop' := evictLoop_of_flushed n done hlast' hf' hx'
          have hlen : m.entries.length - (n + 1) = es.length - n := by
            rw [hm, List.length_append, List.length_singleton]
            omega
          rw [hlen]
          apply Op.Alike.of_eq hop hop'
          exact ih (done + 1) (m := ⟨es, _⟩) ⟨rfl, rfl, hnodup, hr⟩
        · apply Op.Alike.of_error (evictLoop_of_release_error hlast hf hx)
            (evictLoop_of_release_error hlast' hf' hx')
          exact ⟨hall, ⟨es, m.lookups⟩, rfl, rfl, hnodup, hr⟩
      · have hback := (hperm (v', w')).symm
        apply Op.Alike.of_error (evictLoop_of_flush_error hlast hf)
          (evictLoop_of_flush_error hlast' hf')
        refine ⟨hall, ⟨es ++ [(key, v', w')], m.lookups⟩, ?_, ?_, ?_, hh.perm hback hr⟩
        · simp only [map, List.map_append, List.map_cons, List.map_nil]
        · simp only [map, List.map_append, List.map_cons, List.map_nil]
        · exact (hback.map Prod.fst).nodup_iff.mp hkeys

theorem alike_clear (hh : h.Alike R Ready Flushed allowed h') (hs : Side R m x y) :
    (clear h).Alike (clear h') x y
      (fun a b x' y' => b = a ∧ x'.1.entries = [] ∧ Together R x' y')
      (fun e x' y' => allowed e ∧ Together R x' y') := by
  have hlen : y.1.entries.length = m.entries.length := by rw [hs.right, map, List.length_map]
  have hevict := alike_evictLoop hh m.entries.length 0 hs
  have hop : clear h x = evictLoop h m.entries.length 0 x := by
    rw [clear, hs.length_eq]
    rfl
  have hop' : clear h' y = evictLoop h' m.entries.length 0 y := by
    rw [clear, hlen]
    rfl
  apply Op.Alike.of_eq hop hop'
  apply hevict.mono
  · rintro a b x' y' ⟨rfl, hl, ht⟩
    rw [Nat.sub_self] at hl
    exact ⟨rfl, List.eq_nil_of_length_eq_zero hl, ht⟩
  · exact fun e x' y' hr => hr

theorem flushEach_alike (hh : h.Alike R Ready Flushed allowed h') {done es : Pairs α β}
    {s : σ} {t : τ} (hr : R (done ++ es) s t) :
    ∃ r fs s' t', flushEach h (es.map fun e => (e.1, e.2.1)) s =
        (r, (fs : Pairs α β).map (fun e => (e.1, e.2.1)), s') ∧
      flushEach h' (es.map fun e => (e.1, e.2.2)) t = (r, fs.map (fun e => (e.1, e.2.2)), t') ∧
      fs.map Prod.fst = es.map Prod.fst ∧ R (done ++ fs) s' t' ∧ ∀ e, r = .error e → allowed e := by
  induction es generalizing done s t with
  | nil =>
    refine ⟨.ok (), [], s, t, rfl, rfl, rfl, hr, ?_⟩
    intro e he
    cases he
  | cons entry es ih =>
    obtain ⟨key, v, w⟩ := entry
    have hback : ∀ q fs, ((key, q) :: (done ++ fs)).Perm (done ++ (key, q) :: fs) :=
      fun q fs => List.perm_middle.symm
    rcases (hh.flush (hh.perm List.perm_middle hr)).cases with
      ⟨_, ⟨v', s₁⟩, _, ⟨w', t₁⟩, hf, hf', hflushed⟩ | ⟨e, ⟨v', s₁⟩, ⟨w', t₁⟩, hf, hf', hall, hr⟩
    · have hnext : R (done ++ [(key, v', w')] ++ es) s₁ t₁ := by
        rw [List.append_assoc]
        exact hh.perm (hback _ _) (hh.flushed hflushed)
      obtain ⟨r, fs, s', t', he, he', hkeys, hr, hall⟩ := ih hnext
      rw [List.append_assoc] at hr
      refine ⟨r, (key, v', w') :: fs, s', t', ?_, ?_, ?_, hr, hall⟩
      · simp only [List.map_cons, flushEach, hf, he]
      · simp only [List.map_cons, flushEach, hf', he']
      · simp only [List.map_cons, hkeys]
    · refine ⟨.error e, (key, v', w') :: es, s₁, t₁, ?_, ?_, rfl, hh.perm (hback _ _) hr, ?_⟩
      · simp only [List.map_cons, flushEach, hf]
      · simp only [List.map_cons, flushEach, hf']
      · rintro _ ⟨⟩
        exact hall

theorem alike_flushAll (hh : h.Alike R Ready Flushed allowed h') (hs : Side R m x y) :
    (flushAll h).Alike (flushAll h') x y (fun a b x' y' => b = a ∧ Together R x' y')
      (fun e x' y' => allowed e ∧ Together R x' y') := by
  obtain ⟨l, s⟩ := x
  obtain ⟨l', t⟩ := y
  obtain ⟨rfl, rfl, hnodup, hr⟩ := hs
  have hstart : R ([] ++ m.entries) s t := hr
  obtain ⟨r, fs, s', t', he, he', hkeys, hr, hall⟩ := flushEach_alike hh hstart
  have hside : Side R ⟨fs, m.lookups⟩ (⟨fs.map fun e => (e.1, e.2.1), m.lookups⟩, s')
      (⟨fs.map fun e => (e.1, e.2.2), m.lookups⟩, t') :=
    ⟨rfl, rfl, hkeys ▸ hnodup, hr⟩
  have hop : flushAll h (m.map Prod.fst, s) =
      (r, ⟨fs.map fun e => (e.1, e.2.1), m.lookups⟩, s') := by
    simp only [flushAll, map, he]
  have hop' : flushAll h' (m.map Prod.snd, t) =
      (r, ⟨fs.map fun e => (e.1, e.2.2), m.lookups⟩, t') := by
    simp only [flushAll, map, he']
  cases r with
  | ok _ => exact .of_ok hop hop' ⟨rfl, _, hside⟩
  | error e => exact .of_error hop hop' ⟨hall e rfl, _, hside⟩

theorem replace_map (f : α → β) (key : Nat) (v : α) (entries : List (Nat × α)) :
    replace key (f v) (entries.map fun e => (e.1, f e.2)) =
      (replace key v entries).map fun e => (e.1, f e.2) := by
  rw [replace, replace, List.map_map, List.map_map]
  apply List.map_congr_left
  intro e _
  simp only [Function.comp_apply]
  split <;> rfl

theorem keys_replace (key : Nat) (v : α) (entries : List (Nat × α)) :
    (replace key v entries).map Prod.fst = entries.map Prod.fst := by
  rw [replace, List.map_map]
  apply List.map_congr_left
  intro e _
  simp only [Function.comp_apply]
  split
  · exact (‹e.1 = key›).symm
  · rfl

theorem perm_replace {entries : List (Nat × α)} (hn : (entries.map Prod.fst).Nodup) {old : α}
    (hl : entries.lookup key = some old) (v : α) :
    (replace key v entries).Perm ((key, v) :: without key entries) := by
  obtain ⟨as, bs, rfl⟩ := List.append_of_mem ((lookup_eq_some_iff_mem hn).mp hl)
  rw [List.map_append, List.map_cons, List.nodup_middle, List.nodup_cons, List.mem_append,
    not_or] at hn
  rw [replace_middle hn.1.1 hn.1.2, without_middle hn.1.1 hn.1.2]
  exact List.perm_middle

theorem alike_remove (hh : h.Alike R Ready Flushed allowed h') (hs : Side R m x y) :
    (remove h key).Alike (remove h' key) x y (fun a b x' y' => b = a ∧ Together R x' y')
      (fun e x' y' => allowed e ∧ Together R x' y') := by
  obtain ⟨l, s⟩ := x
  obtain ⟨l', t⟩ := y
  have hleft := lookup_map Prod.fst m.entries key
  have hright := lookup_map Prod.snd m.entries key
  cases hl : m.entries.lookup key with
  | none =>
    rw [hl] at hleft hright
    have hside := hs
    obtain ⟨rfl, rfl, -, -⟩ := hs
    apply Op.Alike.of_ok
    · simp only [remove, map, hleft, Option.map_none]
      rfl
    · simp only [remove, map, hright, Option.map_none]
      rfl
    · exact ⟨rfl, m, hside⟩
  | some p =>
    obtain ⟨v, w⟩ := p
    rw [hl] at hleft hright
    obtain ⟨rfl, rfl, hnodup, hr⟩ := hs
    have hfront := perm_without hnodup hl
    have hkeys : (key :: (without key m.entries).map Prod.fst).Nodup :=
      (hfront.map Prod.fst).nodup_iff.mp hnodup
    have hrest := (List.nodup_cons.mp hkeys).2
    rcases (hh.flush (hh.perm hfront hr)).cases with
      ⟨_, ⟨v', s₁⟩, _, ⟨w', t₁⟩, hf, hf', hr⟩ | ⟨e, ⟨v', s₁⟩, ⟨w', t₁⟩, hf, hf', hall, hr⟩
    · rcases (hh.release hr).cases with ⟨_, s₂, _, t₂, hx, hx', hr⟩ | ⟨e, s₂, t₂, hx, hx', hall, hr⟩
      · apply Op.Alike.of_ok
        · simp only [remove, map, hleft, Option.map_some, hf, hx, without_map]
          rfl
        · simp only [remove, map, hright, Option.map_some, hf', hx', without_map]
          rfl
        · exact ⟨rfl, ⟨without key m.entries, m.lookups⟩, rfl, rfl, hrest, hr⟩
      · apply Op.Alike.of_error
        · simp only [remove, map, hleft, Option.map_some, hf, hx, without_map]
          rfl
        · simp only [remove, map, hright, Option.map_some, hf', hx', without_map]
          rfl
        · exact ⟨hall, ⟨without key m.entries, m.lookups⟩, rfl, rfl, hrest, hr⟩
    · have hback := (perm_replace hnodup hl (v', w')).symm
      apply Op.Alike.of_error
      · simp only [remove, map, hleft, Option.map_some, hf]
        rfl
      · simp only [remove, map, hright, Option.map_some, hf']
        rfl
      · refine ⟨hall, ⟨replace key (v', w') m.entries, m.lookups⟩, ?_, ?_, ?_, hh.perm hback hr⟩
        · exact congrArg (Ledger.mk · m.lookups) (replace_map Prod.fst key (v', w') m.entries)
        · exact congrArg (Ledger.mk · m.lookups) (replace_map Prod.snd key (v', w') m.entries)
        · exact keys_replace key (v', w') m.entries ▸ hnodup

end Ledger

namespace Cache

theorem Tracks.alike {op : Op (Cache α × σ) γ} {op' : Op (Cache β × τ) δ}
    {model : Op (Ledger α × σ) γ} {model' : Op (Ledger β × τ) δ} {c : Cache α} {c' : Cache β}
    {s : σ} {t : τ} {ok : γ → δ → Ledger α × σ → Ledger β × τ → Prop}
    {bad : Error → Ledger α × σ → Ledger β × τ → Prop} (ht : Tracks op model)
    (ht' : Tracks op' model') (hc : c.IsValid) (hc' : c'.IsValid)
    (hm : model.Alike model' (c.ledger, s) (c'.ledger, t) ok bad) :
    op.Alike op' (c, s) (c', t)
      (fun a b x y => (x.1.IsValid ∧ y.1.IsValid) ∧ ok a b (x.1.ledger, x.2) (y.1.ledger, y.2))
      (fun e x y => (x.1.IsValid ∧ y.1.IsValid) ∧ bad e (x.1.ledger, x.2) (y.1.ledger, y.2)) := by
  obtain ⟨hv, he⟩ := ht c s hc
  obtain ⟨hv', he'⟩ := ht' c' t hc'
  rcases hop : op (c, s) with ⟨answer, x⟩
  rcases hop' : op' (c', t) with ⟨answer', y⟩
  rw [hop] at hv he
  rw [hop'] at hv' he'
  rw [Op.Alike, he, he'] at hm
  rw [Op.Alike, hop, hop']
  cases answer with
  | error e =>
    cases answer' with
    | error e' => exact ⟨hm.1, ⟨hv, hv'⟩, hm.2⟩
    | ok b => exact hm
  | ok a =>
    cases answer' with
    | error e' => exact hm
    | ok b => exact ⟨⟨hv, hv'⟩, hm⟩

structure Together (R : Pairs α β → σ → τ → Prop) (x : Cache α × σ) (y : Cache β × τ) : Prop where
  left : x.1.IsValid
  right : y.1.IsValid
  ledgers : Ledger.Together R (x.1.ledger, x.2) (y.1.ledger, y.2)

end Cache

end TieredMemory.Recency
