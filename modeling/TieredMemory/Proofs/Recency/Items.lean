import TieredMemory.Proofs.Recency.Requests

namespace TieredMemory.Recency

variable {σ α γ : Type}

structure Item (α : Type) where
  number : Nat
  value : α

inductive Event (α : Type) where
  | fault (key : Nat)
  | came (key : Nat) (item : Item α)
  | flush (key : Nat) (item : Item α)
  | flushed (key : Nat) (item : Item α)
  | release (key : Nat) (item : Item α)
  | handedBack (key : Nat) (item : Item α)

namespace Event

def callback? : Event α → Option (Callback α)
  | .fault key => some (.fault key)
  | .flush key item => some (.flush key item.value)
  | .release key item => some (.release key item.value)
  | _ => none

def entered? : Event α → Option (Nat × Nat)
  | .came key item => some (key, item.number)
  | _ => none

def left? : Event α → Option (Nat × Nat)
  | .release key item => some (key, item.number)
  | .handedBack key item => some (key, item.number)
  | _ => none

def Fits (held : List (Nat × Nat)) : Event α → Prop
  | .fault key => key ∉ held.map Prod.fst
  | .flush key item => (key, item.number) ∈ held
  | .release key _ => key ∉ held.map Prod.fst
  | _ => True

end Event

def callbacks (events : List (Event α)) : List (Callback α) := events.filterMap Event.callback?

def entered (events : List (Event α)) : List (Nat × Nat) := events.filterMap Event.entered?

def left (events : List (Event α)) : List (Nat × Nat) := events.filterMap Event.left?

def numbers (entries : List (Nat × Item α)) : List (Nat × Nat) :=
  entries.map fun e => (e.1, e.2.number)

def Handler.numbered (h : Handler σ α) : Handler (σ × List (Event α)) (Item α) where
  fault key := fun (s, events) =>
    match h.fault key s with
    | (.error e, s) => (.error e, s, events ++ [.fault key])
    | (.ok v, s) =>
      let item := ⟨(entered events).length, v⟩
      (.ok item, s, events ++ [.fault key, .came key item])
  flush key := fun (item, s, events) =>
    match h.flush key (item.value, s) with
    | (.error e, v, s) => (.error e, { item with value := v }, s, events ++ [.flush key item])
    | (.ok (), v, s) =>
      let after := { item with value := v }
      (.ok (), after, s, events ++ [.flush key item, .flushed key after])
  release key item := fun (s, events) =>
    let (r, s) := h.release key item.value s
    (r, s, events ++ [.release key item])

namespace Request

def numbered (number : Nat) : Request α → Request (Item α)
  | .get key change => .get key fun item => { item with value := change item.value }
  | .add key value => .add key ⟨number, value⟩
  | .remove key => .remove key
  | .peek key => .peek key
  | .modify key change => .modify key fun item => { item with value := change item.value }
  | .contains key => .contains key
  | .flushAll => .flushAll
  | .evict n => .evict n
  | .clear => .clear

def moves (number : Nat) : Request α → Except Error (Reply (Item α)) → List (Event α)
  | .add key value, .ok (.value (some old)) => [.handedBack key old, .came key ⟨number, value⟩]
  | .add key value, .ok (.value none) => [.came key ⟨number, value⟩]
  | _, _ => []

theorem callbacks_moves (number : Nat) (request : Request α)
    (answer : Except Error (Reply (Item α))) : callbacks (request.moves number answer) = [] := by
  unfold moves
  split <;> rfl

theorem moves_error (number : Nat) (request : Request α) (e : Error) :
    request.moves number (.error e) = [] := by
  cases request <;> rfl

end Request

def noting (act : Request (Item α) → Op (γ × σ × List (Event α)) (Reply (Item α)))
    (request : Request α) : Op (γ × σ × List (Event α)) (Reply (Item α)) := fun (c, s, events) =>
  let number := (entered events).length
  let (answer, c, s, later) := act (request.numbered number) (c, s, events)
  (answer, c, s, later ++ request.moves number answer)

theorem noting_eq {act : Request (Item α) → Op (γ × σ × List (Event α)) (Reply (Item α))}
    {request : Request α} (hm : ∀ number answer, request.moves number answer = [])
    (t : γ × σ × List (Event α)) :
    noting act request t = act (request.numbered (entered t.2.2).length) t := by
  simp only [noting, hm, List.append_nil]
  rfl

structure Custody (events : List (Event α)) (held : List (Nat × Nat)) : Prop where
  numbered : (entered events).map Prod.snd = List.range (entered events).length
  settled : (entered events).Perm (left events ++ held)
  later : ∀ past, past <+: events → left past ⊆ entered past
  afterFlush : ∀ past key item rest, events = past ++ .release key item :: rest →
    ∃ first before, past = first ++ [.flush key before, .flushed key item] ∧
      before.number = item.number

section Custody

variable {events : List (Event α)} {held held' : List (Nat × Nat)} {event : Event α}
variable {key number : Nat}

theorem callbacks_append (events events' : List (Event α)) :
    callbacks (events ++ events') = callbacks events ++ callbacks events' :=
  List.filterMap_append

theorem entered_concat (events : List (Event α)) (event : Event α) :
    entered (events ++ [event]) = entered events ++ event.entered?.toList := by
  rw [entered, List.filterMap_append, List.filterMap_cons]
  cases event.entered? <;> rfl

theorem left_concat (events : List (Event α)) (event : Event α) :
    left (events ++ [event]) = left events ++ event.left?.toList := by
  rw [left, List.filterMap_append, List.filterMap_cons]
  cases event.left? <;> rfl

theorem entered_note (events : List (Event α)) (h : event.entered? = none) :
    entered (events ++ [event]) = entered events := by
  rw [entered_concat, h, Option.toList_none, List.append_nil]

theorem custody_nil : Custody ([] : List (Event α)) [] := by
  refine ⟨rfl, .refl _, ?_, ?_⟩
  · intro past hp
    rw [List.prefix_nil.mp hp]
    exact List.Subset.refl _
  · intro past key item rest he
    simp at he

theorem Custody.nodup (h : Custody events held) : ((left events ++ held).map Prod.snd).Nodup := by
  rw [← (h.settled.map Prod.snd).nodup_iff, h.numbered]
  exact List.nodup_range

theorem Custody.perm (h : Custody events held) (hp : held.Perm held') : Custody events held' :=
  ⟨h.numbered, h.settled.trans (hp.append_left _), h.later, h.afterFlush⟩

theorem Custody.concat (h : Custody events held)
    (hn : (entered (events ++ [event])).map Prod.snd =
      List.range (entered (events ++ [event])).length)
    (hs : (entered (events ++ [event])).Perm (left (events ++ [event]) ++ held'))
    (hf : ∀ key item, event = .release key item → ∃ first before,
      events = first ++ [.flush key before, .flushed key item] ∧ before.number = item.number) :
    Custody (events ++ [event]) held' := by
  refine ⟨hn, hs, ?_, ?_⟩
  · intro past hp
    rcases List.prefix_concat_iff.mp hp with rfl | hp
    · exact fun p hm => hs.mem_iff.mpr (List.mem_append_left _ hm)
    · exact h.later past hp
  · intro past key item rest he
    -- the release is the event at the end, or it was there before
    rcases List.eq_nil_or_concat' rest with rfl | ⟨rest, last, rfl⟩
    · obtain ⟨rfl, hlast⟩ := List.append_inj' he rfl
      exact hf key item (List.singleton_inj.mp hlast)
    · rw [← List.cons_append, ← List.append_assoc] at he
      exact h.afterFlush past key item rest (List.append_inj' he rfl).1

theorem Custody.note (h : Custody events held) (he : event.entered? = none)
    (hl : event.left? = none) : Custody (events ++ [event]) held := by
  have hentered := entered_note events he
  have hleft : left (events ++ [event]) = left events := by
    rw [left_concat, hl, Option.toList_none, List.append_nil]
  apply h.concat
  · rw [hentered]
    exact h.numbered
  · rw [hentered, hleft]
    exact h.settled
  · rintro key item rfl
    cases hl

theorem Custody.came {item : Item α} (h : Custody events held)
    (hi : item.number = (entered events).length) :
    Custody (events ++ [.came key item]) ((key, item.number) :: held) := by
  have hentered : entered (events ++ [.came key item]) = entered events ++ [(key, item.number)] :=
    entered_concat events (.came key item)
  have hleft : left (events ++ [.came key item]) = left events :=
    (left_concat events (.came key item)).trans (List.append_nil _)
  apply h.concat
  · rw [hentered, List.map_append, h.numbered, List.length_append, List.length_singleton,
      List.range_succ, ← hi]
    rfl
  · rw [hentered, hleft]
    exact (List.perm_append_singleton _ _).trans ((h.settled.cons _).trans List.perm_middle.symm)
  · rintro key item ⟨⟩

theorem Custody.gone (h : Custody events ((key, number) :: held)) (he : event.entered? = none)
    (hl : event.left? = some (key, number))
    (hf : ∀ key item, event = .release key item → ∃ first before,
      events = first ++ [.flush key before, .flushed key item] ∧ before.number = item.number) :
    Custody (events ++ [event]) held := by
  have hentered := entered_note events he
  have hleft : left (events ++ [event]) = left events ++ [(key, number)] := by
    rw [left_concat, hl, Option.toList_some]
  apply h.concat
  · rw [hentered]
    exact h.numbered
  · rw [hentered, hleft, List.append_assoc]
    exact h.settled
  · exact hf

end Custody

structure Account (events : List (Event α)) (held : List (Nat × Nat)) : Prop extends
    Custody events held where
  keys : (held.map Prod.fst).Nodup
  last : ∀ event, events.getLast? = some event → event.Fits held

namespace Account

variable {events : List (Event α)} {held held' : List (Nat × Nat)} {key : Nat} {item : Item α}

theorem nil : Account ([] : List (Event α)) [] := by
  refine ⟨custody_nil, List.nodup_nil, ?_⟩
  intro event he
  cases he

theorem perm (h : Account events held) (hp : held.Perm held') : Account events held' := by
  have hkeys := hp.map Prod.fst
  refine ⟨h.toCustody.perm hp, hkeys.nodup_iff.mp h.keys, ?_⟩
  intro event he
  have hfits := h.last event he
  cases event with
  | fault key => exact fun hm => hfits (hkeys.mem_iff.mpr hm)
  | flush key item => exact hp.mem_iff.mp hfits
  | release key item => exact fun hm => hfits (hkeys.mem_iff.mpr hm)
  | came key item => trivial
  | flushed key item => trivial
  | handedBack key item => trivial

theorem last_concat {event : Event α} (h : event.Fits held) :
    ∀ e, (events ++ [event]).getLast? = some e → e.Fits held := by
  intro e he
  rw [List.getLast?_concat] at he
  cases he
  exact h

theorem fault (h : Account events held) (hk : key ∉ held.map Prod.fst) :
    Account (events ++ [.fault key]) held :=
  ⟨h.toCustody.note rfl rfl, h.keys, last_concat hk⟩

theorem came (h : Account events held) (hk : key ∉ held.map Prod.fst)
    (hi : item.number = (entered events).length) :
    Account (events ++ [.came key item]) ((key, item.number) :: held) :=
  ⟨h.toCustody.came hi, List.nodup_cons.mpr ⟨hk, h.keys⟩, last_concat trivial⟩

theorem flush (h : Account events ((key, item.number) :: held)) :
    Account (events ++ [.flush key item]) ((key, item.number) :: held) :=
  ⟨h.toCustody.note rfl rfl, h.keys, last_concat List.mem_cons_self⟩

theorem flushed (h : Account events held) (key : Nat) (item : Item α) :
    Account (events ++ [.flushed key item]) held :=
  ⟨h.toCustody.note rfl rfl, h.keys, last_concat trivial⟩

theorem release (h : Account events ((key, item.number) :: held)) {first : List (Event α)}
    {before : Item α} (he : events = first ++ [.flush key before, .flushed key item])
    (hb : before.number = item.number) : Account (events ++ [.release key item]) held := by
  obtain ⟨hk, hkeys⟩ := List.nodup_cons.mp h.keys
  refine ⟨h.toCustody.gone rfl rfl ?_, hkeys, last_concat hk⟩
  rintro _ _ ⟨⟩
  exact ⟨first, before, he, hb⟩

theorem handedBack (h : Account events ((key, item.number) :: held)) :
    Account (events ++ [.handedBack key item]) held := by
  obtain ⟨-, hkeys⟩ := List.nodup_cons.mp h.keys
  refine ⟨h.toCustody.gone rfl rfl ?_, hkeys, last_concat trivial⟩
  rintro _ _ ⟨⟩

end Account

end TieredMemory.Recency
