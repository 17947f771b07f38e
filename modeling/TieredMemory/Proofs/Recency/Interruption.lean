import TieredMemory.Proofs.Recency.Items

namespace TieredMemory.Recency

variable {σ α β γ X Y : Type}

def interrupted : Error := .io "interrupted"

def Handler.limited (h : Handler σ α) : Handler (σ × Nat) α where
  fault key := fun (s, n) =>
    match n with
    | 0 => (.error interrupted, s, 0)
    | n + 1 =>
      let (r, s) := h.fault key s
      (r, s, n)
  flush key := fun (v, s, n) =>
    match n with
    | 0 => (.error interrupted, v, s, 0)
    | n + 1 =>
      let (r, v, s) := h.flush key (v, s)
      (r, v, s, n)
  release key v := fun (s, n) =>
    match n with
    | 0 => (.error interrupted, s, 0)
    | n + 1 =>
      let (r, s) := h.release key v s
      (r, s, n)

theorem callbacks_cons {ask : Event α} {cb : Callback α} (h : ask.callback? = some cb)
    (events : List (Event α)) : callbacks (ask :: events) = cb :: callbacks events :=
  List.filterMap_cons_some h

theorem callbacks_split {past past' rest rest' : List (Event α)} {ask ask' : Event α}
    (he : past ++ ask :: rest = past' ++ ask' :: rest') (hask : ask.callback?.isSome)
    (hask' : ask'.callback?.isSome) (hlen : (callbacks past).length = (callbacks past').length) :
    past = past' ∧ ask = ask' := by
  -- if one past ends first, the other one has a callback more
  induction past generalizing past' with
  | nil =>
    cases past' with
    | nil => exact ⟨rfl, (List.cons_eq_cons.mp he).1⟩
    | cons first past' =>
      obtain ⟨rfl, -⟩ := List.cons_eq_cons.mp he
      obtain ⟨cb, hcb⟩ := Option.isSome_iff_exists.mp hask
      rw [callbacks_cons hcb] at hlen
      cases hlen
  | cons first past ih =>
    cases past' with
    | nil =>
      obtain ⟨rfl, -⟩ := List.cons_eq_cons.mp he
      obtain ⟨cb, hcb⟩ := Option.isSome_iff_exists.mp hask'
      rw [callbacks_cons hcb] at hlen
      cases hlen
    | cons first' past' =>
      obtain ⟨rfl, htail⟩ := List.cons_eq_cons.mp he
      have hrest : (callbacks past).length = (callbacks past').length := by
        have happend :
            ∀ events, callbacks (first :: events) = callbacks [first] ++ callbacks events :=
          callbacks_append [first]
        rw [happend, happend past', List.length_append, List.length_append] at hlen
        exact Nat.add_left_cancel hlen
      obtain ⟨rfl, rfl⟩ := ih htail hrest
      exact ⟨rfl, rfl⟩

section Callbacks

variable (h : Handler σ α) (key : Nat) (item : Item α) (s : σ) (events : List (Event α))

theorem fault_limited : ∃ r s' later, callbacks later = [] ∧
    h.numbered.fault key (s, events) = (r, s', events ++ .fault key :: later) ∧
    ∀ n, h.limited.numbered.fault key ((s, n + 1), events) =
      (r, (s', n), events ++ .fault key :: later) := by
  rcases hf : h.fault key s with ⟨e | v, s'⟩
  · refine ⟨.error e, s', [], rfl, ?_, fun n => ?_⟩
    · simp only [Handler.numbered, hf]
    · simp only [Handler.numbered, Handler.limited, hf]
  · let item : Item α := ⟨(entered events).length, v⟩
    refine ⟨.ok item, s', [.came key item], rfl, ?_, fun n => ?_⟩
    · simp only [Handler.numbered, hf, item]
    · simp only [Handler.numbered, Handler.limited, hf, item]

theorem flush_limited : ∃ r after s' later, callbacks later = [] ∧
    h.numbered.flush key (item, s, events) = (r, after, s', events ++ .flush key item :: later) ∧
    ∀ n, h.limited.numbered.flush key (item, (s, n + 1), events) =
      (r, after, (s', n), events ++ .flush key item :: later) := by
  rcases hf : h.flush key (item.value, s) with ⟨e | _, v, s'⟩
  · refine ⟨.error e, { item with value := v }, s', [], rfl, ?_, fun n => ?_⟩
    · simp only [Handler.numbered, hf]
    · simp only [Handler.numbered, Handler.limited, hf]
  · let after : Item α := { item with value := v }
    refine ⟨.ok (), after, s', [.flushed key after], rfl, ?_, fun n => ?_⟩
    · simp only [Handler.numbered, hf, after]
    · simp only [Handler.numbered, Handler.limited, hf, after]

theorem release_limited : ∃ r s',
    h.numbered.release key item (s, events) = (r, s', events ++ [.release key item]) ∧
    ∀ n, h.limited.numbered.release key item ((s, n + 1), events) =
      (r, (s', n), events ++ [.release key item]) :=
  ⟨_, _, rfl, fun _ => rfl⟩

end Callbacks

abbrev Outcome (X σ α β : Type) := Except Error β × X × σ × List (Event α)

/-- After the same `events`, `cut n` is `full` if that makes at most `n` callbacks, and otherwise it
stops as the next callback after `n` others is asked for. -/
def CutOff (events : List (Event α)) (full : Outcome X σ α β)
    (cut : Nat → Outcome X (σ × Nat) α β) : Prop :=
  ∃ made, full.2.2.2 = events ++ made ∧ ∀ n,
    ((callbacks made).length ≤ n ∧ cut n = (full.1, full.2.1,
      (full.2.2.1, n - (callbacks made).length), full.2.2.2)) ∨
    ∃ past ask rest, made = past ++ ask :: rest ∧ ask.callback?.isSome ∧
      (callbacks past).length = n ∧ (∃ e, (cut n).1 = .error e) ∧
      (cut n).2.2.2 = events ++ past ++ [ask]

namespace CutOff

variable {events : List (Event α)} {r : Except Error β} {x : X} {s : σ}
variable {full : Outcome X σ α β} {cut : Nat → Outcome X (σ × Nat) α β}

theorem done (events : List (Event α)) (r : Except Error β) (x : X) (s : σ) :
    CutOff events (r, x, s, events) fun n => (r, x, (s, n), events) :=
  ⟨[], (List.append_nil _).symm, fun n => .inl ⟨n.zero_le, rfl⟩⟩

theorem ask (ask : Event α) {later : List (Event α)} (hask : ask.callback?.isSome)
    (hlater : callbacks later = []) (hstop : ∃ e, (cut 0).1 = .error e)
    (hevents : (cut 0).2.2.2 = events ++ [ask])
    (hnext : CutOff (events ++ ask :: later) full fun n => cut (n + 1)) :
    CutOff events full cut := by
  obtain ⟨cb, hcb⟩ := Option.isSome_iff_exists.mp hask
  have hfirst : ∀ made, callbacks (ask :: later ++ made) = cb :: callbacks made := by
    intro made
    rw [callbacks_append, callbacks_cons hcb, hlater]
    rfl
  obtain ⟨made, hmade, hcut⟩ := hnext
  refine ⟨ask :: later ++ made, hmade.trans (List.append_assoc _ _ _), fun n => ?_⟩
  cases n with
  | zero => exact .inr ⟨[], ask, later ++ made, rfl, hask, rfl, hstop, by simpa using hevents⟩
  | succ n =>
    rcases hcut n with ⟨hle, he⟩ | ⟨past, ask', rest, rfl, hask', rfl, he, hevents'⟩
    · refine .inl ⟨?_, ?_⟩
      · rw [hfirst]
        exact Nat.succ_le_succ hle
      · rw [hfirst, List.length_cons, Nat.succ_sub_succ]
        exact he
    · refine .inr ⟨ask :: later ++ past, ask', rest, ?_, hask', ?_, he, ?_⟩
      · rw [List.append_assoc]
      · rw [hfirst, List.length_cons]
      · rw [hevents', List.append_assoc events, List.append_assoc]

theorem onState (h : CutOff events full cut) (f : X → Y) :
    CutOff events (full.1, f full.2.1, full.2.2) fun n =>
      ((cut n).1, f (cut n).2.1, (cut n).2.2) := by
  obtain ⟨made, hmade, hcut⟩ := h
  refine ⟨made, hmade, fun n => ?_⟩
  rcases hcut n with ⟨hle, he⟩ | hstop
  · exact .inl ⟨hle, by simp only [he]⟩
  · exact .inr hstop

theorem onAnswer (h : CutOff events full cut) (g : β → γ) :
    CutOff events (full.1.map g, full.2) fun n => ((cut n).1.map g, (cut n).2) := by
  obtain ⟨made, hmade, hcut⟩ := h
  refine ⟨made, hmade, fun n => ?_⟩
  rcases hcut n with ⟨hle, he⟩ | ⟨past, ask, rest, hsplit, hask, hlen, ⟨e, he⟩, hevents⟩
  · exact .inl ⟨hle, by simp only [he]⟩
  · exact .inr ⟨past, ask, rest, hsplit, hask, hlen, ⟨e, by simp only [he, Except.map]⟩, hevents⟩

theorem append (h : CutOff events full cut) {later : Except Error β → List (Event α)}
    (hlater : ∀ r, callbacks (later r) = []) (herror : ∀ e, later (.error e) = []) :
    CutOff events (full.1, full.2.1, full.2.2.1, full.2.2.2 ++ later full.1) fun n =>
      ((cut n).1, (cut n).2.1, (cut n).2.2.1, (cut n).2.2.2 ++ later (cut n).1) := by
  obtain ⟨made, hmade, hcut⟩ := h
  refine ⟨made ++ later full.1, ?_, fun n => ?_⟩
  · rw [hmade, List.append_assoc]
  · rcases hcut n with ⟨hle, he⟩ | ⟨past, ask, rest, rfl, hask, hlen, ⟨e, he⟩, hevents⟩
    · rw [callbacks_append, hlater, List.append_nil]
      exact .inl ⟨hle, by simp only [he]⟩
    · refine .inr ⟨past, ask, rest ++ later full.1, ?_, hask, hlen, ⟨e, he⟩, ?_⟩
      · rw [List.append_assoc, List.cons_append]
      · simp only [he, herror, List.append_nil, hevents]

theorem stops (h : CutOff events full cut) {past rest : List (Event α)} {ask : Event α}
    (hfull : full.2.2.2 = events ++ (past ++ ask :: rest)) (hask : ask.callback?.isSome) :
    (cut (callbacks past).length).2.2.2 = events ++ past ++ [ask] := by
  obtain ⟨made, hmade, hcut⟩ := h
  obtain rfl := List.append_cancel_left (hmade.symm.trans hfull)
  -- it does not run to its end, for `ask` is one callback too many
  rcases hcut (callbacks past).length with ⟨hle, -⟩ |
    ⟨past', ask', rest', hsplit, hask', hlen, -, hevents⟩
  · obtain ⟨cb, hcb⟩ := Option.isSome_iff_exists.mp hask
    rw [callbacks_append, callbacks_cons hcb, List.length_append, List.length_cons] at hle
    omega
  · obtain ⟨rfl, rfl⟩ := callbacks_split hsplit hask hask' hlen.symm
    exact hevents

end CutOff

namespace Ledger

variable (h : Handler σ α) (l : Ledger (Item α)) (s : σ) (events : List (Event α)) (key : Nat)

theorem cutOff_access (change : Item α → Item α) :
    CutOff events (access h.numbered key (lend change) (l, s, events)) fun n =>
      access h.limited.numbered key (lend change) (l, (s, n), events) := by
  cases hl : l.entries.lookup key with
  | some item =>
    simp only [access, hl, lend]
    exact .done ..
  | none =>
    obtain ⟨r, s', later, hlater, hf, hf'⟩ := fault_limited h key s events
    apply CutOff.ask (.fault key) rfl hlater
    · exact ⟨interrupted, by simp only [access, hl]; rfl⟩
    · simp only [access, hl]
      rfl
    · simp only [access, hl, hf, hf']
      cases r with
      | error e => exact .done ..
      | ok item => exact .done ..

theorem cutOff_remove : CutOff events (remove h.numbered key (l, s, events)) fun n =>
    remove h.limited.numbered key (l, (s, n), events) := by
  cases hl : l.entries.lookup key with
  | none =>
    simp only [remove, hl]
    exact .done ..
  | some item =>
    obtain ⟨r, after, s', later, hlater, hf, hf'⟩ := flush_limited h key item s events
    apply CutOff.ask (.flush key item) rfl hlater
    · exact ⟨interrupted, by simp only [remove, hl]; rfl⟩
    · simp only [remove, hl]
      rfl
    · cases r with
      | error e =>
        simp only [remove, hl, hf, hf']
        exact .done ..
      | ok _ =>
        obtain ⟨r, s'', hr, hr'⟩ :=
          release_limited h key after s' (events ++ .flush key item :: later)
        simp only [remove, hl, hf, hf', hr]
        apply CutOff.ask (.release key after) rfl
          (show callbacks ([] : List (Event α)) = [] from rfl)
        · exact ⟨interrupted, rfl⟩
        · rfl
        · simp only [hr']
          exact .done ..

theorem cutOff_flushEach (entries : List (Nat × Item α)) :
    CutOff events (flushEach h.numbered entries (s, events)) fun n =>
      flushEach h.limited.numbered entries ((s, n), events) := by
  induction entries generalizing s events with
  | nil => exact .done ..
  | cons entry rest ih =>
    obtain ⟨key, item⟩ := entry
    obtain ⟨r, after, s', later, hlater, hf, hf'⟩ := flush_limited h key item s events
    apply CutOff.ask (.flush key item) rfl hlater
    · exact ⟨interrupted, rfl⟩
    · rfl
    · cases r with
      | error e =>
        simp only [flushEach, hf, hf']
        exact .done ..
      | ok _ =>
        simp only [flushEach, hf, hf']
        exact (ih s' _).onState ((key, after) :: ·)

theorem cutOff_flushAll : CutOff events (flushAll h.numbered (l, s, events)) fun n =>
    flushAll h.limited.numbered (l, (s, n), events) :=
  (cutOff_flushEach h s events l.entries).onState (Ledger.mk · l.lookups)

theorem cutOff_evictLoop (n done : Nat) :
    CutOff events (evictLoop h.numbered n done (l, s, events)) fun m =>
      evictLoop h.limited.numbered n done (l, (s, m), events) := by
  -- a turn of the loop asks for a flush and then for a release
  induction n generalizing done l s events with
  | zero => exact .done ..
  | succ n ih =>
    rcases hl : l.entries.getLast? with _ | ⟨key, item⟩
    · simp only [evictLoop, hl]
      exact .done ..
    · obtain ⟨r, after, s', later, hlater, hf, hf'⟩ := flush_limited h key item s events
      apply CutOff.ask (.flush key item) rfl hlater
      · exact ⟨interrupted, by simp only [evictLoop, hl]; rfl⟩
      · simp only [evictLoop, hl]
        rfl
      · cases r with
        | error e =>
          simp only [evictLoop, hl, hf, hf']
          exact .done ..
        | ok _ =>
          obtain ⟨r, s'', hr, hr'⟩ :=
            release_limited h key after s' (events ++ .flush key item :: later)
          simp only [evictLoop, hl, hf, hf', hr]
          apply CutOff.ask (.release key after) rfl
            (show callbacks ([] : List (Event α)) = [] from rfl)
          · exact ⟨interrupted, rfl⟩
          · rfl
          · simp only [hr']
            cases r with
            | error e => exact .done ..
            | ok _ => exact ih _ _ _ _

theorem cutOff_reply {op : Op (Ledger (Item α) × σ × List (Event α)) β}
    {op' : Op (Ledger (Item α) × (σ × Nat) × List (Event α)) β}
    (hop : CutOff events (op (l, s, events)) fun n => op' (l, (s, n), events)) (reply : β → γ) :
    CutOff events ((do let b ← op; return reply b : Op _ _) (l, s, events)) fun n =>
      (do let b ← op'; return reply b : Op _ _) (l, (s, n), events) := by
  have hmap : ∀ {τ : Type} (op : Op τ β) (t : τ),
      (do let b ← op; return reply b : Op _ _) t = ((op t).1.map reply, (op t).2) := by
    intro τ op t
    rcases he : op t with ⟨e | b, t'⟩
    · exact Op.bind_apply_error he
    · exact Op.bind_apply_ok he
  simp only [hmap]
  exact hop.onAnswer reply

theorem cutOff_perform (request : Request (Item α)) :
    CutOff events (perform h.numbered request (l, s, events)) fun n =>
      perform h.limited.numbered request (l, (s, n), events) := by
  cases request with
  | get key change => exact cutOff_reply l s events (cutOff_access h l s events key change) _
  | add key item => exact .done ..
  | remove key => exact cutOff_reply l s events (cutOff_remove h l s events key) _
  | peek key => exact .done ..
  | modify key change => exact .done ..
  | contains key => exact .done ..
  | flushAll => exact cutOff_reply l s events (cutOff_flushAll h l s events) _
  | evict n => exact cutOff_reply l s events (cutOff_evictLoop h l s events n 0) _
  | clear =>
    exact cutOff_reply l s events (cutOff_evictLoop h l s events l.entries.length 0) _

theorem cutOff_noting (request : Request α) :
    CutOff events (noting (perform h.numbered) request (l, s, events)) fun n =>
      noting (perform h.limited.numbered) request (l, (s, n), events) := by
  apply (cutOff_perform h l s events (request.numbered (entered events).length)).append
  · exact Request.callbacks_moves _ request
  · exact Request.moves_error _ request

end Ledger

end TieredMemory.Recency
