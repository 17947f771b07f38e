import TieredMemory.Handles

namespace TieredMemory

namespace Disk

theorem find_put (d : Disk) (path other : String) (place : Location) :
    (d.put path place).find other = if path = other then place else d.find other := by
  simp only [find, put, Std.TreeMap.getD_insert, Std.LawfulEqCmp.compare_eq_iff_eq]

theorem find_put_self (d : Disk) (path : String) (place : Location) :
    (d.put path place).find path = place := by
  rw [find_put, if_pos rfl]

theorem find_put_of_ne {path other : String} (h : path ≠ other) (d : Disk) (place : Location) :
    (d.put path place).find other = d.find other := by
  rw [find_put, if_neg h]

end Disk

namespace Hierarchy

variable {D : Type} [BlockDevice D]

def holding (bytes : SparseBytes) (h : Hierarchy D) : Hierarchy D :=
  (h.editFile (·.swapBytes bytes)).2

def disturb (onRead onWrite onSync : Faults) (h : Hierarchy D) : Hierarchy D :=
  (h.editFile fun f => ((), { f with onRead, onWrite, onSync })).2

end Hierarchy

namespace Handles

inductive Event where
  | create (path : Option ByteArray) (maximumSize : Nat) (himem psram ram : TierShape)
  | read (handle address : Nat) (room : Option Nat)
  | write (handle address : Nat) (data : Option ByteArray)
  | flush (handle : Nat)
  | destroy (handle : Nat)
  | disturb (handle : Nat) (onRead onWrite onSync : Faults)
  | touch (path : String) (place : Location)

inductive Reply where
  | number (n : Nat)
  | code (c : Int) (bytes : ByteArray := ByteArray.empty)

namespace Event

def handle? : Event → Option Nat
  | read handle .. | write handle .. | flush handle | destroy handle | disturb handle .. =>
    some handle
  | create .. | touch .. => none

def creates : Event → Bool
  | create .. => true
  | _ => false

def destroyed? : Event → Option Nat
  | destroy handle => some handle
  | _ => none

def config? : Event → Option Config
  | create path maximumSize himem psram ram =>
    (path.bind String.fromUTF8?).map fun pagefile =>
      { pagefile, maximumSize, ram, psram, himem, syncOnFlush := false }
  | _ => none

def build? (e : Event) (disk : Disk) : Option HeldHierarchy :=
  e.config?.bind fun config =>
    (Hierarchy.create config ({} : EmulatedProvider) (disk.find config.pagefile)).toOption

def direct : Event → HeldHierarchy → Reply × HeldHierarchy
  | read _ address (some length), h =>
    let (r, h) := Hierarchy.read address length h
    (.code (status r) (r.toOption.getD ByteArray.empty), h)
  | write _ address (some data), h =>
    let (r, h) := Hierarchy.write address data h
    (.code (status r), h)
  | flush _, h =>
    let (r, h) := Hierarchy.flush h
    (.code (status r), h)
  | destroy _, h =>
    let (r, h) := Hierarchy.destroy h
    (.code (status r), h)
  | disturb _ onRead onWrite onSync, h => (.code 0, h.disturb onRead onWrite onSync)
  | _, h => (.code (-1), h)

def perform : Event → StateM Handles Reply
  | create path maximumSize himem psram ram => do
    return .number (← Handles.create path maximumSize himem psram ram)
  | read handle address room => do
    let (code, bytes) ← Handles.read handle address room
    return .code code bytes
  | write handle address data => do
    return .code (← Handles.write handle address data)
  | flush handle => do
    return .code (← Handles.flush handle)
  | destroy handle => do
    return .code (← Handles.destroy handle)
  | disturb handle onRead onWrite onSync => fun s =>
    match s.live[handle]? with
    | none => (.code (-1), s)
    | some h =>
      (.code 0, { s with live := s.live.insert handle (h.disturb onRead onWrite onSync) })
  | touch path place => fun s => (.code 0, { s with disk := s.disk.put path place })

end Event

structure Entry where
  event : Event
  reply : Reply
  before : Handles
  after : Handles

def enter (e : Event) (s : Handles) : Entry := ⟨e, (e.perform s).1, s, (e.perform s).2⟩

def history : List Event → Handles → List Entry
  | [], _ => []
  | e :: events, s => enter e s :: history events (e.perform s).2

theorem history_split {P : List Entry → Handles → Prop} {Q : Entry → Prop} {events : List Event}
    {s : Handles} (hq : ∀ c ∈ history events s, Q c) (hs : P [] s)
    (hstep : ∀ e past s, Q (enter e s) → P past s → P (past ++ [enter e s]) (e.perform s).2)
    {past future : List Entry} {c : Entry} (h : history events s = past ++ c :: future) :
    c = enter c.event c.before ∧ P past c.before ∧ P (past ++ [c]) c.after ∧
      ∃ events', future = history events' c.after := by
  induction events generalizing P s past with
  | nil =>
    rw [history] at h
    exact absurd h.symm (by simp)
  | cons e events ih =>
    obtain ⟨he, hevents⟩ := List.forall_mem_cons.mp hq
    cases past with
    | nil =>
      obtain ⟨rfl, hrest⟩ := List.cons_eq_cons.mp h
      exact ⟨rfl, hs, hstep e [] s he hs, events, hrest.symm⟩
    | cons first past =>
      obtain ⟨rfl, hrest⟩ := List.cons_eq_cons.mp h
      apply ih (P := fun rest => P (enter e s :: rest)) hevents (hstep e [] s he hs) _ hrest
      exact fun e' rest => hstep e' (enter e s :: rest)

section Steps

variable {e : Event} {s : Handles} {h : HeldHierarchy} {k : Nat}

theorem perform_none (hk : e.handle? = some k) (hs : s.live[k]? = none) :
    e.perform s = (.code (-1), s) := by
  have hcall {α : Type} (op : Op HeldHierarchy α) :
      call k op s = (.error (.invalidHandle k), s) := by
    simp only [call, hs]
  cases e with
  | create => cases hk
  | touch => cases hk
  | read handle address room =>
    obtain rfl := Option.some.inj hk
    cases room with
    | none => rfl
    | some length =>
      change (Reply.code (status (call handle (Hierarchy.read address length) s).1)
        ((call handle (Hierarchy.read address length) s).1.toOption.getD ByteArray.empty),
        (call handle (Hierarchy.read address length) s).2) = _
      rw [hcall]
      rfl
  | write handle address data =>
    obtain rfl := Option.some.inj hk
    cases data with
    | none => rfl
    | some data =>
      change (Reply.code (status (call handle (Hierarchy.write address data) s).1),
        (call handle (Hierarchy.write address data) s).2) = _
      rw [hcall]
      rfl
  | flush handle =>
    obtain rfl := Option.some.inj hk
    change (Reply.code (status (call handle Hierarchy.flush s).1),
      (call handle Hierarchy.flush s).2) = _
    rw [hcall]
    rfl
  | destroy handle =>
    obtain rfl := Option.some.inj hk
    change (Reply.code (Handles.destroy handle s).1, (Handles.destroy handle s).2) = _
    simp only [Handles.destroy, hs]
  | disturb handle onRead onWrite onSync =>
    obtain rfl := Option.some.inj hk
    simp only [Event.perform, hs]

theorem perform_some (hk : e.handle? = some k) (hs : s.live[k]? = some h) :
    (e.destroyed? = none ∧ e.perform s = (.code (-1), s) ∧ ∀ u, e.direct u = (.code (-1), u)) ∨
    (∃ onRead onWrite onSync, e = .disturb k onRead onWrite onSync ∧
      e.perform s =
        (.code 0, { s with live := s.live.insert k (h.disturb onRead onWrite onSync) })) ∨
    (let t := e.direct (h.holding ((s.disk.find h.config.pagefile).bytes?.getD (.zeros 0)))
    e.perform s = (t.1, { s with
      live := if e.destroyed? = some k then s.live.erase k else
        s.live.insert k (t.2.holding (.zeros 0))
      disk := s.disk.put h.config.pagefile (.file t.2.file.bytes) })) := by
  have hcall {α : Type} (op : Op HeldHierarchy α) : call k op s =
      ((onDisk op h s.disk).1, { s with
        live := s.live.insert k (onDisk op h s.disk).2.1
        disk := (onDisk op h s.disk).2.2 }) := by
    simp only [call, hs]
  cases e with
  | create => cases hk
  | touch => cases hk
  | read handle address room =>
    obtain rfl := Option.some.inj hk
    cases room with
    | none => exact .inl ⟨rfl, rfl, fun _ => rfl⟩
    | some length =>
      refine .inr (.inr ?_)
      change (Reply.code (status (call handle (Hierarchy.read address length) s).1)
        ((call handle (Hierarchy.read address length) s).1.toOption.getD ByteArray.empty),
        (call handle (Hierarchy.read address length) s).2) = _
      rw [hcall]
      rfl
  | write handle address data =>
    obtain rfl := Option.some.inj hk
    cases data with
    | none => exact .inl ⟨rfl, rfl, fun _ => rfl⟩
    | some data =>
      refine .inr (.inr ?_)
      change (Reply.code (status (call handle (Hierarchy.write address data) s).1),
        (call handle (Hierarchy.write address data) s).2) = _
      rw [hcall]
      rfl
  | flush handle =>
    obtain rfl := Option.some.inj hk
    refine .inr (.inr ?_)
    change (Reply.code (status (call handle Hierarchy.flush s).1),
      (call handle Hierarchy.flush s).2) = _
    rw [hcall]
    rfl
  | destroy handle =>
    obtain rfl := Option.some.inj hk
    refine .inr (.inr ?_)
    change (Reply.code (Handles.destroy handle s).1, (Handles.destroy handle s).2) = _
    simp only [Handles.destroy, hs, Event.destroyed?, if_pos]
    rfl
  | disturb handle onRead onWrite onSync =>
    obtain rfl := Option.some.inj hk
    refine .inr (.inl ⟨onRead, onWrite, onSync, rfl, ?_⟩)
    simp only [Event.perform, hs]

variable {config : Config}

theorem build?_eq_some (he : e.config? = some config)
    (hh : Hierarchy.create config ({} : EmulatedProvider) (s.disk.find config.pagefile) = .ok h) :
    e.build? s.disk = some h := by
  rw [Event.build?, he, Option.bind_some, hh]
  rfl

theorem exists_of_build? (hb : e.build? s.disk = some h) :
    ∃ config, e.config? = some config ∧
      Hierarchy.create config ({} : EmulatedProvider) (s.disk.find config.pagefile) = .ok h := by
  obtain ⟨config, he, hh⟩ := Option.bind_eq_some_iff.mp hb
  refine ⟨config, he, ?_⟩
  rcases hr : Hierarchy.create config ({} : EmulatedProvider) (s.disk.find config.pagefile) with
    r | u
  · rw [hr] at hh
    cases hh
  · rw [hr] at hh
    exact congrArg Except.ok (Option.some.inj hh)

theorem perform_create_error {refusal : Refusal EmulatedProvider EmulatedMemory}
    (he : e.config? = some config)
    (hr : Hierarchy.create config {} (s.disk.find config.pagefile) = .error refusal) :
    e.perform s = (.number 0, { s with disk := s.disk.put config.pagefile refusal.place }) := by
  cases e with
  | create path maximumSize himem psram ram =>
    change (Reply.number (Handles.create path maximumSize himem psram ram s).1,
      (Handles.create path maximumSize himem psram ram s).2) = _
    obtain ⟨pagefile, hp, rfl⟩ := Option.map_eq_some_iff.mp he
    simp only [Handles.create, hp, hr]
  | _ => cases he

theorem perform_create_ok (he : e.config? = some config)
    (hh : Hierarchy.create config ({} : EmulatedProvider) (s.disk.find config.pagefile) = .ok h) :
    e.perform s = (.number s.next, {
      next := s.next + 1
      live := s.live.insert s.next (h.holding (.zeros 0))
      disk := s.disk.put config.pagefile (.file h.file.bytes) }) := by
  cases e with
  | create path maximumSize himem psram ram =>
    change (Reply.number (Handles.create path maximumSize himem psram ram s).1,
      (Handles.create path maximumSize himem psram ram s).2) = _
    obtain ⟨pagefile, hp, rfl⟩ := Option.map_eq_some_iff.mp he
    simp only [Handles.create, hp, hh]
    rfl
  | _ => cases he

theorem perform_unbuilt (hc : e.creates = true) (hb : e.build? s.disk = none) :
    e.perform s = (.number 0, s) ∨ ∃ config refusal, e.config? = some config ∧
      Hierarchy.create config ({} : EmulatedProvider) (s.disk.find config.pagefile) =
        .error refusal ∧
      e.perform s = (.number 0, { s with disk := s.disk.put config.pagefile refusal.place }) := by
  cases he : e.config? with
  | none =>
    cases e with
    | create path maximumSize himem psram ram =>
      rw [Event.config?, Option.map_eq_none_iff] at he
      left
      change (Reply.number (Handles.create path maximumSize himem psram ram s).1,
        (Handles.create path maximumSize himem psram ram s).2) = _
      simp only [Handles.create, he]
    | _ => cases hc
  | some config =>
    cases hr : Hierarchy.create config ({} : EmulatedProvider) (s.disk.find config.pagefile) with
    | error refusal => exact .inr ⟨config, refusal, rfl, hr, perform_create_error he hr⟩
    | ok h =>
      rw [build?_eq_some he hr] at hb
      cases hb

end Steps

end Handles

end TieredMemory
