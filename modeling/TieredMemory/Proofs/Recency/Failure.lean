import TieredMemory.Proofs.Recency.Interruption

namespace TieredMemory.Recency

variable {σ α : Type}

def Handler.Sparing (h : Handler σ α) : Prop :=
  ∀ key v s e w t, h.flush key (v, s) = (.error e, w, t) → w = v

theorem Handler.Sparing.limited {h : Handler σ α} (hs : h.Sparing) : h.limited.Sparing := by
  rintro key v ⟨s, n⟩ e w t hf
  cases n with
  | zero =>
    cases hf
    rfl
  | succ n =>
    rcases hflush : h.flush key (v, s) with ⟨r, w', s'⟩
    simp only [Handler.limited, hflush] at hf
    cases hf
    exact hs _ _ _ _ _ _ hflush

inductive Persists (h : Handler σ α) : List (Nat × α) → σ → List (Nat × α) → σ → Prop
  | nil (s : σ) : Persists h [] s [] s
  | cons {key : Nat} {v w : α} {rest flushed : List (Nat × α)} {s t u : σ}
      (hflush : h.flush key (v, s) = (.ok (), w, t)) (hrest : Persists h rest t flushed u) :
      Persists h ((key, v) :: rest) s ((key, w) :: flushed) u

theorem Persists.keys_eq {h : Handler σ α} {entries flushed : List (Nat × α)} {s t : σ}
    (hp : Persists h entries s flushed t) : flushed.map Prod.fst = entries.map Prod.fst := by
  induction hp with
  | nil s => rfl
  | cons hflush hrest ih => rw [List.map_cons, List.map_cons, ih]

inductive Expels (h : Handler σ α) : List (Nat × α) → σ → σ → Prop
  | nil (s : σ) : Expels h [] s s
  | cons {key : Nat} {v w : α} {rest : List (Nat × α)} {s t u u' : σ}
      (hflush : h.flush key (v, s) = (.ok (), w, t)) (hrelease : h.release key w t = (.ok (), u))
      (hrest : Expels h rest u u') : Expels h ((key, v) :: rest) s u'

namespace Ledger

/-- A request fails with `e`. On the left is what it finds, and on the right what it leaves. -/
inductive Stops (h : Handler σ α) :
    Request α → Ledger α × σ → Error → Ledger α × σ → Prop
  | get {key : Nat} {change : α → α} {entries : List (Nat × α)} {lookups : Lookups} {s t : σ}
      {e : Error} (habsent : key ∉ entries.map Prod.fst) (hfault : h.fault key s = (.error e, t)) :
      Stops h (.get key change) (⟨entries, lookups⟩, s) e
        (⟨entries, { lookups with misses := lookups.misses + 1 }⟩, t)
  | flushAll {first flushed rest : List (Nat × α)} {key : Nat} {v : α} {lookups : Lookups}
      {s t u : σ} {e : Error} (hfirst : Persists h first s flushed t)
      (hflush : h.flush key (v, t) = (.error e, v, u)) :
      Stops h .flushAll (⟨first ++ (key, v) :: rest, lookups⟩, s) e
        (⟨flushed ++ (key, v) :: rest, lookups⟩, u)
  | evictFlush (kept gone : List (Nat × α)) {n key : Nat} {v : α} {lookups : Lookups}
      {s t u : σ} {e : Error} (hn : gone.length < n) (hgone : Expels h gone s t)
      (hflush : h.flush key (v, t) = (.error e, v, u)) :
      Stops h (.evict n) (⟨kept ++ (key, v) :: gone.reverse, lookups⟩, s) e
        (⟨kept ++ [(key, v)], { lookups with evictions := lookups.evictions + gone.length }⟩, u)
  | evictRelease (kept gone : List (Nat × α)) {n key : Nat} {v w : α} {lookups : Lookups}
      {s t u u' : σ} {e : Error} (hn : gone.length < n) (hgone : Expels h gone s t)
      (hflush : h.flush key (v, t) = (.ok (), w, u))
      (hrelease : h.release key w u = (.error e, u')) :
      Stops h (.evict n) (⟨kept ++ (key, v) :: gone.reverse, lookups⟩, s) e
        (⟨kept, { lookups with evictions := lookups.evictions + gone.length }⟩, u')
  | clear {l : Ledger α} {s : σ} {e : Error} {after : Ledger α × σ}
      (hevict : Stops h (.evict l.entries.length) (l, s) e after) : Stops h .clear (l, s) e after
  | removeFlush {key : Nat} {v : α} {l : Ledger α} {s t : σ} {e : Error} (hv : (key, v) ∈ l.entries)
      (hflush : h.flush key (v, s) = (.error e, v, t)) : Stops h (.remove key) (l, s) e (l, t)
  | removeRelease {newer older : List (Nat × α)} {key : Nat} {v w : α} {lookups : Lookups}
      {s t u : σ} {e : Error} (hflush : h.flush key (v, s) = (.ok (), w, t))
      (hrelease : h.release key w t = (.error e, u)) :
      Stops h (.remove key) (⟨newer ++ (key, v) :: older, lookups⟩, s) e
        (⟨newer ++ older, lookups⟩, u)

variable {h : Handler σ α} {l : Ledger α} {s : σ} {e : Error} {after : Ledger α × σ}

section Flushing

theorem flushEach_of_persists {first flushed rest : List (Nat × α)} {t : σ}
    (hp : Persists h first s flushed t) :
    flushEach h (first ++ rest) s =
      ((flushEach h rest t).1, flushed ++ (flushEach h rest t).2.1, (flushEach h rest t).2.2) := by
  induction hp with
  | nil s => rfl
  | cons hflush hrest ih => simp only [List.cons_append, flushEach, hflush, ih]

theorem persists_of_flushEach (hs : h.Sparing) {entries entries' : List (Nat × α)} {t : σ}
    (hf : flushEach h entries s = (.error e, entries', t)) :
    ∃ first flushed rest key v u, entries = first ++ (key, v) :: rest ∧
      Persists h first s flushed u ∧ h.flush key (v, u) = (.error e, v, t) ∧
      entries' = flushed ++ (key, v) :: rest := by
  induction entries generalizing s entries' with
  | nil => cases hf
  | cons entry rest ih =>
    obtain ⟨key, v⟩ := entry
    rcases hflush : h.flush key (v, s) with ⟨e' | _, w, u⟩
    · obtain rfl := hs _ _ _ _ _ _ hflush
      simp only [flushEach, hflush] at hf
      cases hf
      exact ⟨[], [], rest, key, w, s, rfl, .nil s, hflush, rfl⟩
    · rcases hrest : flushEach h rest u with ⟨r, left, t'⟩
      simp only [flushEach, hflush, hrest] at hf
      cases hf
      obtain ⟨first, flushed, later, key', v', u', rfl, hp, hfail, rfl⟩ := ih hrest
      exact ⟨_, _, later, key', v', u', rfl, .cons hflush hp, hfail, rfl⟩

end Flushing

section Eviction

variable {kept gone : List (Nat × α)} {lookups : Lookups} {n done : Nat} {t : σ}

theorem evictLoop_of_expels (hn : gone.length ≤ n) (hg : Expels h gone s t) :
    evictLoop h n done (⟨kept ++ gone.reverse, lookups⟩, s) =
      evictLoop h (n - gone.length) (done + gone.length)
        (⟨kept, { lookups with evictions := lookups.evictions + gone.length }⟩, t) := by
  induction hg generalizing n done lookups with
  | nil s => rw [List.reverse_nil, List.append_nil]; rfl
  | @cons key v w rest s t u u' hflush hrelease hrest ih =>
    obtain ⟨n, rfl⟩ := Nat.exists_eq_add_one_of_ne_zero (Nat.ne_of_gt (Nat.lt_of_lt_of_le
      (Nat.zero_lt_succ _) hn))
    have hlast : kept ++ ((key, v) :: rest).reverse = (kept ++ rest.reverse) ++ [(key, v)] := by
      rw [List.reverse_cons, List.append_assoc]
    rw [evictLoop_of_flushed n done hlast hflush hrelease, ih (Nat.le_of_succ_le_succ hn),
      List.length_cons, Nat.succ_sub_succ, Nat.add_assoc done,
      Nat.add_assoc lookups.evictions, Nat.add_comm 1]

theorem evictLoop_of_stops (hstop : Stops h (.evict n) (l, s) e after) :
    evictLoop h n done (l, s) = (.error e, after) := by
  cases hstop with
  | evictFlush kept gone hn hgone hflush =>
    obtain ⟨m, hm⟩ := Nat.exists_eq_add_one_of_ne_zero (Nat.sub_ne_zero_of_lt hn)
    rw [List.append_cons, evictLoop_of_expels (Nat.le_of_lt hn) hgone, hm,
      evictLoop_of_flush_error rfl hflush]
  | evictRelease kept gone hn hgone hflush hrelease =>
    obtain ⟨m, hm⟩ := Nat.exists_eq_add_one_of_ne_zero (Nat.sub_ne_zero_of_lt hn)
    rw [List.append_cons, evictLoop_of_expels (Nat.le_of_lt hn) hgone, hm,
      evictLoop_of_release_error rfl hflush hrelease]

theorem Stops.evict_succ {key : Nat} {v w : α} {entries : List (Nat × α)} {u u' : σ}
    (hflush : h.flush key (v, s) = (.ok (), w, u)) (hrelease : h.release key w u = (.ok (), u'))
    (hstop : Stops h (.evict n)
      (⟨entries, { lookups with evictions := lookups.evictions + 1 }⟩, u') e after) :
    Stops h (.evict (n + 1)) (⟨entries ++ [(key, v)], lookups⟩, s) e after := by
  have hlist (kept gone : List (Nat × α)) (entry : Nat × α) :
      (kept ++ entry :: gone.reverse) ++ [(key, v)] =
        kept ++ entry :: ((key, v) :: gone).reverse := by
    simp
  have hcount (gone : List (Nat × α)) :
      lookups.evictions + 1 + gone.length = lookups.evictions + ((key, v) :: gone).length := by
    rw [List.length_cons, Nat.add_assoc, Nat.add_comm 1]
  cases hstop with
  | evictFlush kept gone hn hgone hfail =>
    rw [hlist, hcount]
    exact .evictFlush kept _ (Nat.succ_lt_succ hn) (.cons hflush hrelease hgone) hfail
  | evictRelease kept gone hn hgone hflush' hfail =>
    rw [hlist, hcount]
    exact .evictRelease kept _ (Nat.succ_lt_succ hn) (.cons hflush hrelease hgone) hflush' hfail

theorem stops_of_evictLoop (hs : h.Sparing) (he : evictLoop h n done (l, s) = (.error e, after)) :
    Stops h (.evict n) (l, s) e after := by
  induction n generalizing l s done with
  | zero => cases he
  | succ n ih =>
    obtain ⟨entries, lookups⟩ := l
    rcases List.eq_nil_or_concat' entries with rfl | ⟨kept, ⟨key, v⟩, rfl⟩
    · cases he
    · rcases hflush : h.flush key (v, s) with ⟨e' | _, w, u⟩
      · obtain rfl := hs _ _ _ _ _ _ hflush
        rw [evictLoop_of_flush_error rfl hflush] at he
        cases he
        exact .evictFlush kept [] (Nat.zero_lt_succ n) (.nil s) hflush
      · rcases hrelease : h.release key w u with ⟨e' | _, u'⟩
        · rw [evictLoop_of_release_error rfl hflush hrelease] at he
          cases he
          exact .evictRelease kept [] (Nat.zero_lt_succ n) (.nil s) hflush hrelease
        · rw [evictLoop_of_flushed n done rfl hflush hrelease] at he
          exact .evict_succ hflush hrelease (ih he)

theorem evict_eq_error_iff (hs : h.Sparing) :
    evict h n (l, s) = (.error e, after) ↔ Stops h (.evict n) (l, s) e after :=
  ⟨stops_of_evictLoop hs, evictLoop_of_stops⟩

end Eviction

section Requests

variable {key : Nat} {change : α → α}

theorem access_eq_error_iff :
    access h key (lend change) (l, s) = (.error e, after) ↔
      Stops h (.get key change) (l, s) e after := by
  constructor
  · intro he
    cases hl : l.entries.lookup key with
    | some v =>
      simp only [access, hl, lend] at he
      cases he
    | none =>
      rcases hfault : h.fault key s with ⟨e' | v, t⟩
      · simp only [access, hl, hfault] at he
        cases he
        exact .get (lookup_eq_none_iff_notMem.mp hl) hfault
      · simp only [access, hl, hfault, lend] at he
        cases he
  · rintro ⟨habsent, hfault⟩
    simp only [access, lookup_eq_none_iff_notMem.mpr habsent, hfault]

theorem flushAll_eq_error_iff (hs : h.Sparing) :
    flushAll h (l, s) = (.error e, after) ↔ Stops h .flushAll (l, s) e after := by
  obtain ⟨entries, lookups⟩ := l
  constructor
  · intro he
    rcases hf : flushEach h entries s with ⟨_ | _, entries', t⟩
    · simp only [flushAll, hf] at he
      cases he
      obtain ⟨first, flushed, rest, key, v, u, rfl, hp, hflush, rfl⟩ := persists_of_flushEach hs hf
      exact .flushAll hp hflush
    · simp only [flushAll, hf] at he
      cases he
  · intro hstop
    cases hstop with
    | flushAll hfirst hflush =>
      simp only [flushAll, flushEach_of_persists hfirst, flushEach, hflush]

theorem remove_eq_error_iff (hs : h.Sparing) (hn : (l.entries.map Prod.fst).Nodup) :
    remove h key (l, s) = (.error e, after) ↔ Stops h (.remove key) (l, s) e after := by
  obtain ⟨entries, lookups⟩ := l
  constructor
  · intro he
    cases hl : entries.lookup key with
    | none =>
      simp only [remove, hl] at he
      cases he
    | some v =>
      have hm := (lookup_eq_some_iff_mem hn).mp hl
      obtain ⟨newer, older, rfl⟩ := List.append_of_mem hm
      obtain ⟨hnewer, holder⟩ := notMem_of_nodup hn
      rcases hflush : h.flush key (v, s) with ⟨e' | _, w, t⟩
      · obtain rfl := hs _ _ _ _ _ _ hflush
        simp only [remove, hl, hflush, replace_middle hnewer holder] at he
        cases he
        exact .removeFlush hm hflush
      · rcases hrelease : h.release key w t with ⟨e' | _, u⟩
        · simp only [remove, hl, hflush, hrelease, without_middle hnewer holder, Except.map] at he
          cases he
          exact .removeRelease hflush hrelease
        · simp only [remove, hl, hflush, hrelease, Except.map] at he
          cases he
  · intro hstop
    cases hstop with
    | removeFlush hm hflush =>
      have hl := (lookup_eq_some_iff_mem hn).mpr hm
      obtain ⟨newer, older, rfl⟩ := List.append_of_mem hm
      obtain ⟨hnewer, holder⟩ := notMem_of_nodup hn
      simp only [remove, hl, hflush, replace_middle hnewer holder]
    | removeRelease hflush hrelease =>
      obtain ⟨hnewer, holder⟩ := notMem_of_nodup hn
      simp only [remove, lookup_middle hnewer, hflush, hrelease, without_middle hnewer holder,
        Except.map]

theorem reply_eq_error_iff {β γ : Type} {op : Op (Ledger α × σ) β} {reply : β → γ}
    {t : Ledger α × σ} :
    (do let b ← op; return reply b : Op _ _) t = (.error e, after) ↔ op t = (.error e, after) := by
  rcases hop : op t with ⟨e' | b, t'⟩
  · rw [Op.bind_apply_error hop]
    constructor
    · rintro ⟨⟩
      rfl
    · rintro ⟨⟩
      rfl
  · rw [Op.bind_apply_ok hop]
    exact ⟨nofun, nofun⟩

theorem perform_eq_error_iff (hs : h.Sparing) (hn : (l.entries.map Prod.fst).Nodup)
    (request : Request α) :
    perform h request (l, s) = (.error e, after) ↔ Stops h request (l, s) e after := by
  cases request with
  | get key change => exact reply_eq_error_iff.trans access_eq_error_iff
  | remove key => exact reply_eq_error_iff.trans (remove_eq_error_iff hs hn)
  | flushAll => exact reply_eq_error_iff.trans (flushAll_eq_error_iff hs)
  | evict n => exact reply_eq_error_iff.trans (evict_eq_error_iff hs)
  | clear =>
    refine (reply_eq_error_iff.trans (evict_eq_error_iff hs)).trans ⟨.clear, fun hstop => ?_⟩
    cases hstop with
    | clear hevict => exact hevict
  | add key value => exact ⟨nofun, nofun⟩
  | peek key => exact ⟨nofun, nofun⟩
  | modify key change => exact ⟨nofun, nofun⟩
  | contains key => exact ⟨nofun, nofun⟩

end Requests

theorem Stops.keys_of_flushAll {t : Ledger α × σ} (hstop : Stops h .flushAll (l, s) e t) :
    t.1.entries.map Prod.fst = l.entries.map Prod.fst := by
  cases hstop with
  | flushAll hfirst hflush => rw [List.map_append, List.map_append, hfirst.keys_eq, List.map_cons]

end Ledger

namespace Cache

def holding (lines : Nat) (hl : 0 < lines) (l : Ledger α) : Cache α :=
  { l.entries.foldr (fun e c => (c.add e.1 e.2).2) (empty lines hl) with lookups := l.lookups }

theorem isValid_empty (lines : Nat) (hl : 0 < lines) : (empty lines hl : Cache α).IsValid :=
  ⟨[], valid_empty lines hl⟩

theorem isValid_holding {lines : Nat} (hl : 0 < lines) {l : Ledger α}
    (hn : (l.entries.map Prod.fst).Nodup) :
    (holding lines hl l).IsValid ∧ (holding lines hl l).ledger = l := by
  obtain ⟨entries, lookups⟩ := l
  have hadded : (entries.foldr (fun e c => (c.add e.1 e.2).2) (empty lines hl)).IsValid ∧
      (entries.foldr (fun e c => (c.add e.1 e.2).2) (empty lines hl)).toList = entries := by
    induction entries with
    | nil => exact ⟨isValid_empty lines hl, (valid_empty lines hl).toList_eq⟩
    | cons entry entries ih =>
      obtain ⟨hk, hn⟩ := List.nodup_cons.mp hn
      obtain ⟨hv, hlist⟩ := ih hn
      obtain ⟨hv, hadd⟩ := hv.add entry.1 entry.2
      simp only [Ledger.add, ledger, hlist, Ledger.lookup_eq_none_iff_notMem.mpr hk] at hadd
      exact ⟨hv, (congrArg (fun p => p.2.entries) hadd).symm⟩
  obtain ⟨⟨slots, hv⟩, hlist⟩ := hadded
  exact ⟨⟨slots, hv.withLookups lookups⟩, congrArg (Ledger.mk · lookups) hlist⟩

def serve (call : Handler σ α × Request α) : Op (Cache α × σ) (Reply α) := perform call.1 call.2

theorem isValid_of_runs {lines : Nat} {hl : 0 < lines} {s : σ} {t : Cache α × σ}
    {steps : List (Step (Handler σ α × Request α) (Reply α) (Cache α × σ))}
    (hr : Op.Runs serve (empty lines hl, s) steps t) : t.1.IsValid :=
  hr.always (P := fun t => t.1.IsValid) (Q := fun _ => True) (fun _ _ => trivial)
    (fun call t _ hv => (tracks_perform call.1 call.2 t.1 t.2 hv).1) (isValid_empty lines hl)

/-- A request to a cache that earlier requests led to fails in the ways that are listed for a plain
list, and in no other. After it, the cache cannot be told from one that was made of what remains. -/
theorem failures_leave_rest {lines : Nat} {hl : 0 < lines} {s₀ s : σ} {c : Cache α}
    {steps : List (Step (Handler σ α × Request α) (Reply α) (Cache α × σ))}
    (hr : Op.Runs serve (empty lines hl, s₀) steps (c, s)) {h : Handler σ α} (hs : h.Sparing)
    (request : Request α) :
    (∀ e c' s', perform h request (c, s) = (.error e, c', s') →
      Ledger.Stops h request (c.ledger, s) e (c'.ledger, s') ∧
      (request = .flushAll → c'.keysByRecency = c.keysByRecency) ∧
      ∀ lines' (hl' : 0 < lines') (g : Handler σ α) (later : List (Request α)),
        (Op.history (perform g) later (c', s')).map view =
          (Op.history (perform g) later (holding lines' hl' c'.ledger, s')).map view) ∧
    ∀ e l' s', Ledger.Stops h request (c.ledger, s) e (l', s') →
      ∃ c', perform h request (c, s) = (.error e, c', s') ∧ c'.ledger = l' := by
  have hv : c.IsValid := isValid_of_runs hr
  obtain ⟨hv', hmodel⟩ := tracks_perform h request c s hv
  have hiff (e : Error) (after : Ledger α × σ) :
      Ledger.perform h request (c.ledger, s) = (.error e, after) ↔
        Ledger.Stops h request (c.ledger, s) e after :=
    Ledger.perform_eq_error_iff hs hv.nodup_keys request
  constructor
  · intro e c' s' hop
    rw [hop] at hv' hmodel
    have hstop := (hiff e (c'.ledger, s')).mp hmodel
    refine ⟨hstop, ?_, fun lines' hl' g later => ?_⟩
    · rintro rfl
      rw [keysByRecency_eq, keysByRecency_eq]
      exact hstop.keys_of_flushAll
    · obtain ⟨hvh, hledger⟩ := isValid_holding hl' (l := c'.ledger) hv'.nodup_keys
      rw [history_matches g later s' hv', history_matches g later s' hvh, hledger]
  · intro e l' s' hstop
    have he := (hiff e (l', s')).mpr hstop
    rcases hop : perform h request (c, s) with ⟨r, c', t⟩
    rw [hop] at hmodel
    cases hmodel.symm.trans he
    exact ⟨c', rfl, rfl⟩

theorem sparing_tenfold : tenfold.Sparing := by
  rintro key v s e w t ⟨⟩

theorem failures_leave_rest_halfway :
    let calls := [1, 3, 5].map fun key => (tenfold.limited, Request.get key id)
    let fresh : Cache Nat × Unit × Nat := (empty 2 (by decide), (), 5)
    let filled := calls.foldl (fun t call => (serve call t).2) fresh
    Op.Runs serve fresh (Op.history serve calls fresh) filled ∧
      filled.1.ledger = ⟨[(5, 50), (3, 30), (1, 10)], { inserts := 3, misses := 3 }⟩ ∧
      ∃ c, perform tenfold.limited (.evict 3) filled = (.error interrupted, c, (), 0) ∧
        c.ledger = ⟨[(5, 50), (3, 30)], { inserts := 3, misses := 3, evictions := 1 }⟩ ∧
        ∀ later, (Op.history (perform tenfold.limited) later (c, (), 0)).map view =
          (Op.history (perform tenfold.limited) later (holding 7 (by decide) c.ledger, (), 0)).map
            view := by
  intro calls fresh filled
  have hruns := Op.runs_history serve calls fresh
  have hstop : Ledger.Stops tenfold.limited (.evict 3) (filled.1.ledger, (), 2) interrupted
      (⟨[(5, 50), (3, 30)], { inserts := 3, misses := 3, evictions := 1 }⟩, (), 0) :=
    .evictFlush [(5, 50)] [(1, 10)] (by decide) (.cons rfl rfl (.nil _)) rfl
  obtain ⟨hfails, hall⟩ :=
    failures_leave_rest (c := filled.1) hruns sparing_tenfold.limited (.evict 3)
  obtain ⟨c, hop, hledger⟩ := hall _ _ _ hstop
  obtain ⟨-, -, hlater⟩ := hfails _ _ _ hop
  exact ⟨hruns, rfl, c, hop, hledger, hlater 7 (by decide) tenfold.limited⟩

end Cache

end TieredMemory.Recency
