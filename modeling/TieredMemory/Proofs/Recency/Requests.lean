import TieredMemory.Proofs.History
import TieredMemory.Proofs.Recency.Ledger

namespace TieredMemory.Recency

variable {σ α : Type}

/-- A request hands out references where the client may change the value through them. -/
inductive Request (α : Type) where
  | get (key : Nat) (change : α → α)
  | add (key : Nat) (value : α)
  | remove (key : Nat)
  | peek (key : Nat)
  | modify (key : Nat) (change : α → α)
  | contains (key : Nat)
  | flushAll
  | evict (n : Nat)
  | clear

inductive Reply (α : Type) where
  | value (found : Option α)
  | flag (b : Bool)
  | evicted (n : Nat)
  | done

inductive Callback (α : Type) where
  | fault (key : Nat)
  | flush (key : Nat) (value : α)
  | release (key : Nat) (value : α)

def Handler.recorded (h : Handler σ α) : Handler (σ × List (Callback α)) α where
  fault key := fun (s, log) =>
    let (r, s) := h.fault key s
    (r, s, log ++ [.fault key])
  flush key := fun (v, s, log) =>
    let (r, w, s) := h.flush key (v, s)
    (r, w, s, log ++ [.flush key v])
  release key v := fun (s, log) =>
    let (r, s) := h.release key v s
    (r, s, log ++ [.release key v])

structure Observation (σ α : Type) where
  count : Nat
  keys : List Nat
  leastRecent : Option (Nat × α)
  lookups : Lookups
  world : σ

def lend (change : α → α) : Op (α × σ) α := fun (v, s) => (.ok v, change v, s)

namespace Cache

def perform (h : Handler σ α) : Request α → Op (Cache α × σ) (Reply α)
  | .get key change => do
    let v ← access h key (lend change)
    return .value (some v)
  | .add key value => fun (c, s) =>
    let (old, c) := c.add key value
    (.ok (.value old), c, s)
  | .remove key => do
    let found ← remove h key
    return .flag found
  | .peek key => fun (c, s) => (.ok (.value (c.peek? key)), c, s)
  | .modify key change => fun (c, s) => (.ok (.value (c.peek? key)), c.modify key change, s)
  | .contains key => fun (c, s) => (.ok (.flag (c.contains key)), c, s)
  | .flushAll => do
    flushAll h
    return .done
  | .evict n => do
    let n ← evict h n
    return .evicted n
  | .clear => do
    let n ← clear h
    return .evicted n

def observe (t : Cache α × σ) : Observation σ α :=
  ⟨t.1.count, t.1.keysByRecency, t.1.leastRecent?, t.1.lookups, t.2⟩

end Cache

namespace Ledger

def replace (key : Nat) (value : α) (entries : List (Nat × α)) : List (Nat × α) :=
  entries.map fun e => if e.1 = key then (key, value) else e

def add (key : Nat) (value : α) (l : Ledger α) : Option α × Ledger α :=
  match l.entries.lookup key with
  | some old => (some old, ⟨(key, value) :: without key l.entries, l.lookups⟩)
  | none =>
    (none, ⟨(key, value) :: l.entries, { l.lookups with inserts := l.lookups.inserts + 1 }⟩)

def remove (h : Handler σ α) (key : Nat) : Op (Ledger α × σ) Bool := fun (l, s) =>
  match l.entries.lookup key with
  | none => (.ok false, l, s)
  | some v =>
    match h.flush key (v, s) with
    | (.error e, v, s) => (.error e, ⟨replace key v l.entries, l.lookups⟩, s)
    | (.ok (), v, s) =>
      let (r, s) := h.release key v s
      (r.map fun _ => true, ⟨without key l.entries, l.lookups⟩, s)

def modify (key : Nat) (change : α → α) (l : Ledger α) : Ledger α :=
  match l.entries.lookup key with
  | some v => ⟨replace key (change v) l.entries, l.lookups⟩
  | none => l

def perform (h : Handler σ α) : Request α → Op (Ledger α × σ) (Reply α)
  | .get key change => do
    let v ← access h key (lend change)
    return .value (some v)
  | .add key value => fun (l, s) =>
    let (old, l) := l.add key value
    (.ok (.value old), l, s)
  | .remove key => do
    let found ← remove h key
    return .flag found
  | .peek key => fun (l, s) => (.ok (.value (l.entries.lookup key)), l, s)
  | .modify key change => fun (l, s) =>
    (.ok (.value (l.entries.lookup key)), l.modify key change, s)
  | .contains key => fun (l, s) => (.ok (.flag (l.entries.lookup key).isSome), l, s)
  | .flushAll => do
    flushAll h
    return .done
  | .evict n => do
    let n ← evict h n
    return .evicted n
  | .clear => do
    let n ← clear h
    return .evicted n

def observe (t : Ledger α × σ) : Observation σ α :=
  ⟨t.1.entries.length, t.1.entries.map Prod.fst, t.1.entries.getLast?, t.1.lookups, t.2⟩

def view (x : Step (Request α) (Reply α) (Ledger α × σ)) :
    Observation σ α × Except Error (Reply α) × Observation σ α :=
  (observe x.before, x.answer, observe x.after)

theorem replace_of_notMem {key : Nat} {xs : List (Nat × α)} (h : key ∉ xs.map Prod.fst)
    (value : α) : replace key value xs = xs := by
  refine (List.map_congr_left fun e he => if_neg fun hk => ?_).trans (List.map_id xs)
  exact h (hk ▸ List.mem_map_of_mem he)

theorem replace_middle {key : Nat} {xs ys : List (Nat × α)} (hx : key ∉ xs.map Prod.fst)
    (hy : key ∉ ys.map Prod.fst) (v value : α) :
    replace key value (xs ++ (key, v) :: ys) = xs ++ (key, value) :: ys := by
  rw [replace, List.map_append, List.map_cons, ← replace, ← replace, replace_of_notMem hx,
    replace_of_notMem hy, if_pos rfl]

end Ledger

namespace Cache

section Views

variable {c : Cache α} {slots : List Nat}

theorem Valid.middle {key slot : Nat} {n : Node α} (h : c.Valid slots)
    (hl : c.locate key = some (slot, n)) :
    ∃ xs ys, c.Valid (xs ++ slot :: ys) ∧ c.arena.item? slot = some (key, n.value) ∧
      n.key = key ∧ key ∉ (xs.filterMap c.arena.item?).map Prod.fst ∧
      key ∉ (ys.filterMap c.arena.item?).map Prod.fst := by
  obtain ⟨hs, hn, rfl⟩ := h.locate_eq_some_iff.mp hl
  obtain ⟨xs, ys, rfl⟩ := List.append_of_mem hs
  have hv : c.arena.item? slot = some (n.key, n.value) := Arena.item?_of_node? hn
  have hk := h.key_notMem hv
  rw [List.filterMap_append, List.map_append, List.mem_append, not_or] at hk
  exact ⟨xs, ys, h, hv, rfl, hk⟩

theorem keysByRecency_eq (c : Cache α) : c.keysByRecency = c.toList.map Prod.fst := by
  rw [keysByRecency, toList, List.map_map]
  rfl

theorem IsValid.leastRecent?_eq (h : c.IsValid) : c.leastRecent? = c.toList.getLast? := by
  obtain ⟨slots, h⟩ := h
  rcases List.eq_nil_or_concat' slots with rfl | ⟨xs, slot, rfl⟩
  · rw [leastRecent?, h.leastRecentNode?_eq_none, h.toList_eq]
    rfl
  · obtain ⟨n, hn⟩ := h.arena.exists_node (List.mem_append_right xs List.mem_cons_self)
    have hv : c.arena.item? slot = some (n.key, n.value) := Arena.item?_of_node? hn
    rw [leastRecent?, h.leastRecentNode?_eq_some hn, h.toList_middle hv, List.filterMap_nil,
      List.getLast?_concat]
    rfl

theorem IsValid.observe_eq {s : σ} (h : c.IsValid) :
    observe (c, s) = Ledger.observe (c.ledger, s) := by
  simp only [observe, Ledger.observe, h.count_eq, keysByRecency_eq, h.leastRecent?_eq, ledger]

end Views

section Requests

theorem IsValid.add {c : Cache α} (h : c.IsValid) (key : Nat) (value : α) :
    (c.add key value).2.IsValid ∧
      c.ledger.add key value = ((c.add key value).1, (c.add key value).2.ledger) := by
  obtain ⟨slots, h⟩ := h
  have hl := h.lookup_toList key
  cases hloc : c.locate key with
  | some p =>
    obtain ⟨slot, n⟩ := p
    obtain ⟨xs, ys, h, hv, -⟩ := h.middle hloc
    obtain ⟨hr, ht⟩ := h.refresh hv value
    rw [hloc] at hl
    simp only [Cache.add, hloc, Ledger.add, ledger, hl, Option.map_some]
    exact ⟨⟨_, hr⟩, congrArg (fun l => (some n.value, Ledger.mk l c.lookups)) ht.symm⟩
  | none =>
    rw [hloc] at hl
    obtain ⟨hr, ht⟩ := h.insertFront (Ledger.lookup_eq_none_iff_notMem.mp hl) value
    simp only [Cache.add, hloc, Ledger.add, ledger, hl, Option.map_none]
    exact ⟨hr, congrArg (fun l => (none, Ledger.mk l (c.insertFront key value).lookups)) ht.symm⟩

theorem IsValid.modify {c : Cache α} (h : c.IsValid) (key : Nat) (change : α → α) :
    (c.modify key change).IsValid ∧ c.ledger.modify key change = (c.modify key change).ledger := by
  obtain ⟨slots, h⟩ := h
  have hl := h.lookup_toList key
  cases hloc : c.locate key with
  | some p =>
    obtain ⟨slot, n⟩ := p
    obtain ⟨xs, ys, h, hv, -, hx, hy⟩ := h.middle hloc
    obtain ⟨hr, ht⟩ := h.setValue hv (change n.value)
    rw [hloc, h.toList_middle hv] at hl
    simp only [Cache.modify, hloc, Ledger.modify, ledger, hl, Option.map_some, h.toList_middle hv,
      Ledger.replace_middle hx hy, ht]
    exact ⟨⟨_, hr⟩, trivial⟩
  | none =>
    rw [hloc] at hl
    simp only [Cache.modify, hloc, Ledger.modify, ledger, hl, Option.map_none]
    exact ⟨⟨_, h⟩, trivial⟩

theorem tracks_remove (h : Handler σ α) (key : Nat) :
    Tracks (remove h key) (Ledger.remove h key) := by
  rintro c s ⟨slots, hc⟩
  have hl := hc.lookup_toList key
  cases hloc : c.locate key with
  | none =>
    rw [hloc] at hl
    simp only [remove, hloc, Ledger.remove, ledger, hl, Option.map_none]
    exact ⟨⟨_, hc⟩, trivial⟩
  | some p =>
    obtain ⟨slot, n⟩ := p
    obtain ⟨xs, ys, hc, hv, rfl, hx, hy⟩ := hc.middle hloc
    rw [hloc, hc.toList_middle hv] at hl
    rcases hf : h.flush n.key (n.value, s) with ⟨e | _, v, s'⟩
    · obtain ⟨hval, ht⟩ := hc.setValue hv v
      have hop : remove h n.key (c, s) =
          (.error e, { c with arena := c.arena.setValue slot v }, s') := by
        simp only [remove, hloc]
        exact Op.bind_apply_error (by simp only [expel, hf])
      rw [hop]
      refine ⟨⟨_, hval⟩, ?_⟩
      simp only [Ledger.remove, ledger, hl, Option.map_some, hf, hc.toList_middle hv,
        Ledger.replace_middle hx hy, ht]
    · obtain ⟨hval, ht⟩ := hc.detach hv
      rw [List.filterMap_append] at ht
      rcases hr : h.release n.key v s' with ⟨e | _, s''⟩
      · have hop : remove h n.key (c, s) = (.error e, c.detach slot n.key, s'') := by
          simp only [remove, hloc]
          exact Op.bind_apply_error (by simp only [expel, hf, hr])
        rw [hop]
        refine ⟨⟨_, hval⟩, ?_⟩
        simp only [Ledger.remove, ledger, hl, Option.map_some, hf, hr, hc.toList_middle hv,
          Ledger.without_middle hx hy, ht]
        rfl
      · have hop : remove h n.key (c, s) = (.ok true, c.detach slot n.key, s'') := by
          simp only [remove, hloc]
          exact Op.bind_apply_ok (a := ()) (by simp only [expel, hf, hr])
        rw [hop]
        refine ⟨⟨_, hval⟩, ?_⟩
        simp only [Ledger.remove, ledger, hl, Option.map_some, hf, hr, hc.toList_middle hv,
          Ledger.without_middle hx hy, ht]
        rfl

theorem tracks_pure {β : Type} (b : β) : Tracks (pure b : Op (Cache α × σ) β) (pure b) :=
  fun _ _ hc => ⟨hc, rfl⟩

theorem tracks_perform (h : Handler σ α) (request : Request α) :
    Tracks (perform h request) (Ledger.perform h request) := by
  cases request with
  | get key change => exact (tracks_access h key (lend change)).bind fun v => tracks_pure _
  | add key value =>
    intro c s hc
    obtain ⟨hv, he⟩ := hc.add key value
    refine ⟨hv, ?_⟩
    simp only [Ledger.perform, he]
    rfl
  | remove key => exact (tracks_remove h key).bind fun found => tracks_pure _
  | peek key =>
    intro c s hc
    refine ⟨hc, ?_⟩
    simp only [perform, Ledger.perform, hc.peek?_eq, ledger]
  | modify key change =>
    intro c s hc
    obtain ⟨hv, he⟩ := hc.modify key change
    refine ⟨hv, ?_⟩
    simp only [perform, Ledger.perform, hc.peek?_eq, he]
    rfl
  | contains key =>
    intro c s hc
    refine ⟨hc, ?_⟩
    simp only [perform, Ledger.perform, hc.contains_eq, ledger]
  | flushAll => exact (tracks_flushAll h).bind fun _ => tracks_pure _
  | evict n => exact (tracks_evict h n).bind fun n => tracks_pure _
  | clear => exact (tracks_clear h).bind fun n => tracks_pure _

end Requests

section Histories

def view (x : Step (Request α) (Reply α) (Cache α × σ)) :
    Observation σ α × Except Error (Reply α) × Observation σ α :=
  (observe x.before, x.answer, observe x.after)

theorem history_matches (h : Handler σ α) (requests : List (Request α)) {c : Cache α} (s : σ)
    (hc : c.IsValid) :
    (Op.history (perform h) requests (c, s)).map view =
      (Op.history (Ledger.perform h) requests (c.ledger, s)).map Ledger.view := by
  refine Op.map_history_eq (R := fun t m => t.1.IsValid ∧ m = (t.1.ledger, t.2)) ?_
    requests ⟨hc, rfl⟩
  rintro request ⟨c, s⟩ _ ⟨hc, rfl⟩
  obtain ⟨hv, he⟩ := tracks_perform h request c s hc
  simp only [view, Ledger.view, he, hc.observe_eq, hv.observe_eq, and_true]
  exact ⟨trivial, hv⟩

theorem history_nodup (h : Handler σ α) (requests : List (Request α)) {c : Cache α} (s : σ)
    (hc : c.IsValid) :
    ∀ x ∈ Op.history (Ledger.perform h) requests (c.ledger, s),
      (x.after.1.entries.map Prod.fst).Nodup := by
  refine Op.forall_mem_history (P := fun m => ∃ c : Cache α, c.IsValid ∧ m.1 = c.ledger) ?_ requests
    ⟨c, hc, rfl⟩
  rintro request ⟨_, s⟩ ⟨c, hc, rfl⟩
  obtain ⟨hv, he⟩ := tracks_perform h request c s hc
  rw [he]
  obtain ⟨slots, hslots⟩ := hv
  exact ⟨⟨_, ⟨slots, hslots⟩, rfl⟩, hslots.nodup_keys⟩

/-- A cache of any number of lines and a list with distinct keys, most recent first, give the same
replies and show the same at all times, the log of callbacks included. -/
theorem requests_match_list {lines : Nat} (hl : 0 < lines) (h : Handler σ α) (s : σ)
    (requests : List (Request α)) :
    let onCache := Op.history (perform h.recorded) requests (empty lines hl, s, [])
    let onList := Op.history (Ledger.perform h.recorded) requests (⟨[], {}⟩, s, [])
    onCache.map view = onList.map Ledger.view ∧
      (∀ x ∈ onList, (x.after.1.entries.map Prod.fst).Nodup) ∧
      ∀ lines' (hl' : 0 < lines'),
        onCache.map view =
          (Op.history (perform h.recorded) requests (empty lines' hl', s, [])).map view := by
  have hfresh : ∀ lines (hl : 0 < lines), (empty lines hl : Cache α).IsValid :=
    fun lines hl => ⟨[], valid_empty lines hl⟩
  have hledger : ∀ lines (hl : 0 < lines), (empty lines hl : Cache α).ledger = ⟨[], {}⟩ := by
    intro lines hl
    rw [ledger, (valid_empty lines hl).toList_eq]
    rfl
  have hmatch : ∀ lines (hl : 0 < lines),
      (Op.history (perform h.recorded) requests (empty lines hl, s, [])).map view =
        (Op.history (Ledger.perform h.recorded) requests (⟨[], {}⟩, s, [])).map Ledger.view := by
    intro lines hl
    rw [← hledger lines hl]
    exact history_matches h.recorded requests (s, []) (hfresh lines hl)
  refine ⟨hmatch lines hl, ?_, fun lines' hl' => (hmatch lines hl).trans (hmatch lines' hl').symm⟩
  rw [← hledger lines hl]
  exact history_nodup h.recorded requests (s, []) (hfresh lines hl)

def tenfold : Handler Unit Nat where
  fault key := fun s => (.ok (key * 10), s)
  flush _ := fun (v, s) => (.ok (), v + 1, s)
  release _ _ := fun s => (.ok (), s)

def colliding : List (Request Nat) :=
  [.get 1 id, .get 3 (· + 5), .add 1 7, .flushAll, .evict 1, .get 3 id, .remove 1, .clear]

example : (Op.history (Ledger.perform tenfold) colliding (⟨[], {}⟩, ())).map (·.after.1.entries) =
    [[(1, 10)], [(3, 35), (1, 10)], [(1, 7), (3, 35)], [(1, 8), (3, 36)], [(1, 8)],
      [(3, 30), (1, 8)], [(3, 30)], []] := by
  decide

theorem requests_match_list_colliding :
    let onCache := Op.history (perform tenfold.recorded) colliding (empty 2 (by decide), (), [])
    let onList := Op.history (Ledger.perform tenfold.recorded) colliding (⟨[], {}⟩, (), [])
    onCache.map view = onList.map Ledger.view ∧
      (∀ x ∈ onList, (x.after.1.entries.map Prod.fst).Nodup) ∧
      ∀ lines' (hl' : 0 < lines'),
        onCache.map view =
          (Op.history (perform tenfold.recorded) colliding (empty lines' hl', (), [])).map view :=
  requests_match_list (by decide) tenfold () colliding

end Histories

end Cache

end TieredMemory.Recency
