import TieredMemory.Proofs.Page.Accesses
import TieredMemory.Proofs.Page.Failures
import TieredMemory.Proofs.Page.Layers

namespace TieredMemory

variable {S H B α : Type}

theorem DirtyRange.length_cover_pos (range : Option DirtyRange) (start : Nat) {length : Nat}
    (h : 0 < length) : 0 < (cover range start length).length := by
  cases range with
  | none => exact h
  | some r =>
    simp only [cover, union]
    omega

structure Backend.Closed [Backend B] (P : B → Prop) : Prop where
  read : ∀ {b : B} (address length : Nat), P b → P (Backend.read address length b).2
  write : ∀ {b : B} (address : Nat) (data : ByteArray), P b → P (Backend.write address data b).2
  flush : ∀ {b : B}, P b → P (Backend.flush b).2
  shutdown : ∀ {b : B}, P b → P (Backend.shutdown b).2

theorem Backend.Closed.of_write [Backend B] {P : B → Prop} {b t : B} {address : Nat}
    {data : ByteArray} {answer : Except Error Unit} (h : Closed P) (hb : P b)
    (hw : Backend.write address data b = (answer, t)) : P t := by
  have := h.write address data hb
  rwa [hw] at this

theorem Traffic.closed [Backend B] {P : B → Prop} {pageSize : Nat} {bytes : Nat → Nat → UInt8}
    {dirty d : Nat → Option DirtyRange} {below b : B} {refused : Bool}
    (h : Traffic pageSize bytes dirty below d b refused) (hP : Backend.Closed P) (hb : P below) :
    P b := by
  induction h with
  | start => exact hb
  | read address length _ ih => exact hP.read address length ih
  | flush _ ih => exact hP.flush ih
  | shutdown _ ih => exact hP.shutdown ih
  | written _ _ _ hw ih => exact hP.of_write ih hw
  | refused _ _ _ hw ih => exact hP.of_write ih hw

namespace PageCache

def Marked (c : PageCache S H B) : Prop := ∀ page r, c.dirtyRange? page = some r → 0 < r.length

variable [PageStorage S H] [PageContents S H] [LawfulStorage S H] [Backend B]
variable {pageSize : Nat} {c : PageCache S H B} {P : B → Prop}

theorem Served.marked {a : Action} {t : PageCache S H B} (h : Served pageSize a c t)
    (ha : a.Fits pageSize) (hc : c.Marked) : t.Marked := by
  obtain ⟨d, ht, -, hmarks⟩ := h.traffic
  have hrest : ∀ page r, d page = some r → 0 < r.length :=
    fun page r hr => hc page r (ht.eq_of_some hr)
  intro page r hr
  rw [hmarks] at hr
  cases a with
  | write target offset data =>
    by_cases hp : page = target
    · subst hp
      simp only [Action.marks, Function.update_self, Option.some.injEq] at hr
      exact hr ▸ DirtyRange.length_cover_pos _ _ ha.1
    · rw [Action.marks, Function.update_of_ne hp] at hr
      exact hrest page r hr
  | _ => exact hrest page r hr

theorem Stopped.marked {t : PageCache S H B} (h : Stopped pageSize c t) (hc : c.Marked) :
    t.Marked := by
  obtain ⟨refused, ht⟩ := h.traffic
  exact fun page r hr => hc page r (ht.eq_of_some hr)

theorem marked_perform {a : Action} (h : Traced pageSize c) (ha : a.Fits pageSize)
    (hc : c.Marked) : (a.perform c).2.Marked := by
  apply Op.Ends.always (P := Marked)
  apply (ends_perform a h).mono
  · exact fun _ t ht => ht.marked ha hc
  · exact fun e t ht => ht.marked hc

theorem closed_perform (a : Action) (h : Traced pageSize c) (hP : Backend.Closed P)
    (hc : P c.below) : P (a.perform c).2.below := by
  apply Op.Ends.always (P := fun t : PageCache S H B => P t.below)
  apply (ends_perform a h).mono
  · rintro _ t ht
    obtain ⟨d, htraffic, -⟩ := ht.traffic
    exact htraffic.closed hP hc
  · rintro e t ht
    obtain ⟨refused, htraffic⟩ := ht.traffic
    exact htraffic.closed hP hc

theorem marked_call (h : Traced pageSize c) (hP : Backend.Closed P) (hc : c.Marked)
    (hb : P c.below) (request : Call Upkeep) :
    (call request c).2.Marked ∧ P (call request c).2.below := by
  have hrun := Op.runs_attempt Action.perform (c.actions request) c
  rw [inOrder_actions] at hrun
  have hsize : c.pageSize = pageSize := h.sound.pageSize_eq
  have hfits : ∀ a ∈ c.actions request, a.Fits pageSize := hsize ▸ fits_actions c request
  have hend : Traced pageSize (call request c).2 ∧ (call request c).2.Marked ∧
      P (call request c).2.below := by
    apply hrun.always (P := fun t => Traced pageSize t ∧ t.Marked ∧ P t.below)
      (Q := fun a => a.Fits pageSize)
    · exact Op.forall_mem_attempt hfits c
    · rintro a t ha ⟨ht, hm, hb⟩
      exact ⟨traced_perform a ht, marked_perform ht ha hm, closed_perform a ht hP hb⟩
    · exact ⟨h, hc, hb⟩
  exact hend.2

omit [PageContents S H] [LawfulStorage S H] in
theorem closed_of_call {Q : PageCache S H B → Prop}
    (h : ∀ {c} request, Q c → Q (call request c).2) : Backend.Closed Q where
  read address length hc := h (.read address length) hc
  write address data hc := by
    have := h (.write address data) hc
    rwa [call, Op.state_answer] at this
  flush hc := by
    have := h (.sync .flushAll) hc
    rwa [call, Op.state_answer] at this
  shutdown hc := by
    have := h (.sync .shutdown) hc
    rwa [call, Op.state_answer] at this

section Consistency

variable [Contents B] [PageRoom S H]

/-- A resident page of a tier over a store of `limit` bytes: it has the bytes of that store outside
its modified range, zeros past the end of the store, and its modified range is not empty and lies
inside both the page and the store. -/
structure Matches (c : PageCache S H B) (limit number : Nat) (page : Page H) : Prop where
  same : ∀ i < c.pageSize, c.pager.pageAddress number + i < limit →
    (∀ r, page.dirty = some r → ¬ (r.start ≤ i ∧ i < r.stop)) →
    PageContents.byteAt c.storage page.handle i =
      Contents.byteAt c.below (c.pager.pageAddress number + i)
  past : ∀ i < c.pageSize, limit ≤ c.pager.pageAddress number + i →
    PageContents.byteAt c.storage page.handle i = 0 ∧
      ∀ r, page.dirty = some r → ¬ (r.start ≤ i ∧ i < r.stop)
  modified : ∀ r, page.dirty = some r →
    0 < r.length ∧ r.stop ≤ c.pageSize ∧ c.pager.pageAddress number + r.stop ≤ limit

structure Consistent (limit : Nat) (c : PageCache S H B) : Prop where
  capacity : Backend.capacity c = some limit
  pages : ∀ number page, c.cache.peek? number = some page → Matches c limit number page
  loads : ∀ number, c.pager.readable number ≤ c.pageSize
  accesses : ∀ request : Call Upkeep,
    (call request c.survey).1 = (call request c).1 ∧
    (call request c.survey).2.storage.inner = (call request c).2.storage ∧
    ∀ a ∈ (call request c.survey).2.storage.accesses, a.offset + a.length ≤ c.pageSize ∧
      (c.pageSize ≤ PageRoom.width c.storage → a.offset + a.length ≤ a.room)

variable [LawfulBackend B]

omit [PageRoom S H] in
theorem Valid.matches (h : c.Valid False pageSize) (hm : c.Marked) {number : Nat} {page : Page H}
    (hp : c.cache.peek? number = some page) : Matches c (Contents.size c) number page := by
  have hmem : (number, page) ∈ c.cache.toList := by
    rw [h.cache.peek?_eq] at hp
    exact (Recency.Ledger.lookup_eq_some_iff_mem h.coherent.nodup).mp hp
  have hpage : Residents.Agrees c.pager number page := h.coherent.agrees _ hmem
  have houtside : ∀ i, Contents.size c ≤ c.pager.pageAddress number + i →
      ∀ r, page.dirty = some r → ¬ (r.start ≤ i ∧ i < r.stop) := by
    intro i hi r hr hin
    have hstop : c.pager.pageAddress number + r.stop ≤ Contents.size c := (hpage.inside r hr).2
    omega
  refine ⟨?_, ?_, ?_⟩
  · intro i hi _ hclean
    exact (hpage.same i hi hclean).trans (blockOf_of_lt hi _ _)
  · intro i hi hpast
    refine ⟨?_, houtside i hpast⟩
    have hzero := LawfulBackend.byteAt_of_size_le h.coherent.below hpast
    exact ((hpage.same i hi (houtside i hpast)).trans (blockOf_of_lt hi _ _)).trans hzero
  · intro r hr
    refine ⟨hm number r ?_, hpage.inside r hr⟩
    rw [dirtyRange?, hp]
    exact hr

theorem Valid.consistent [SteadyStorage S H] (h : c.Valid False pageSize) (hm : c.Marked) :
    Consistent (Contents.size c) c := by
  refine ⟨capacity_below h, fun number page hp => h.matches hm hp, Pager.readable_le c.pager, ?_⟩
  intro request
  obtain ⟨hanswer, hinner, hfits⟩ := survey_call h request
  refine ⟨hanswer, hinner, fun a ha => ?_⟩
  have hstop := (hfits a ha).stop_le
  rw [← h.pageSize_eq] at hstop
  refine ⟨hstop, fun hwhole => ?_⟩
  rw [(hfits a ha).room_eq]
  exact Nat.le_trans hstop hwhole

end Consistency

end PageCache

namespace TierPlan

theorem create_of_raise [Backend B] {p : TierPlan} {below : B}
    {c : PageCache p.kind.Store p.kind.Handle B} (h : p.raise below = .ok c) :
    ∃ name storage, PageCache.create name p.pageSize p.capacity storage below = .ok c := by
  match p with
  | ⟨name, pageSize, capacity, .heap size⟩ => exact ⟨name, _, of_mapError h⟩
  | ⟨name, pageSize, capacity, .emulated provider blockSize blocks roomFor⟩ =>
    obtain ⟨device, -, hc⟩ := PageCache.overBlocks_eq_ok (of_mapError h)
    exact ⟨name, _, hc⟩
  | ⟨name, pageSize, capacity, .paged provider blockSize blocks roomFor⟩ =>
    obtain ⟨device, -, hc⟩ := PageCache.overBlocks_eq_ok (of_mapError h)
    exact ⟨name, _, hc⟩

theorem marked_raise [Backend B] {p : TierPlan} {below : B}
    {c : PageCache p.kind.Store p.kind.Handle B} (h : p.raise below = .ok c) :
    c.Marked ∧ c.below = below := by
  obtain ⟨name, storage, hc⟩ := create_of_raise h
  obtain ⟨hcache, hnil, -, -, -, hbelow, -⟩ := PageCache.create_eq_ok hc
  refine ⟨fun page r hr => ?_, hbelow⟩
  rw [PageCache.dirtyRange?, hcache.peek?_eq, hnil] at hr
  cases hr

end TierPlan

namespace Tower

variable [Backend B]

/-- The states of the tiers of a stack from `t` on. A tier below another one is called at any time,
in any way, so its states while the tier above is at work are among them. -/
inductive Occurs {ks : List StorageKind} (t : Tower B ks) :
    (ls : List StorageKind) → Tower B ls → Prop
  | start : Occurs t ks t
  | call {l : StorageKind} {ls : List StorageKind} {u : Tower B (l :: ls)} (c : Call Sync)
    (h : Occurs t (l :: ls) u) : Occurs t (l :: ls) (call (l :: ls) c u).2
  | lower {l : StorageKind} {ls : List StorageKind} {u : Tower B (l :: ls)}
    (h : Occurs t (l :: ls) u) : Occurs t ls u.pager.below

theorem Occurs.run {ks ls : List StorageKind} {l : StorageKind} {t : Tower B ks}
    {u : Tower B (l :: ls)} (h : Occurs t (l :: ls) u) (calls : List (Call Sync)) :
    Occurs t (l :: ls) (run (Tower.call (l :: ls)) calls u).2 :=
  run_invariant (fun c _ hu => hu.call c) calls h

def Marked : (ks : List StorageKind) → Tower B ks → Prop
  | [], _ => True
  | k :: ks, c =>
    PageCache.Marked (show PageCache k.Store k.Handle (Tower B ks) from c) ∧ Marked ks c.pager.below

variable [Contents B] [LawfulBackend B]

structure Tidy (limit : Nat) (ks : List StorageKind) (t : Tower B ks) : Prop where
  valid : LawfulBackend.Valid False t
  size_eq : Contents.size t = limit
  marked : Marked ks t

variable {limit : Nat} {k : StorageKind} {ks : List StorageKind} {t : Tower B (k :: ks)}

theorem Tidy.below (h : Tidy limit (k :: ks) t) : Tidy limit ks t.pager.below := by
  have hv : TopValid False _ t := h.valid
  exact ⟨hv.coherent.below, h.size_eq, h.marked.2⟩

theorem Tidy.request (hbelow : Backend.Closed (Tidy (B := B) limit ks))
    (h : Tidy limit (k :: ks) t) (request : Call PageCache.Upkeep) :
    Tidy limit (k :: ks) (PageCache.call (S := k.Store) (B := Tower B ks) request t).2 := by
  have hv : TopValid False _ t := h.valid
  obtain ⟨hvalid, hsize⟩ := PageCache.valid_call hv request
  obtain ⟨hm, hb⟩ := PageCache.marked_call hv.traced hbelow h.marked.1 h.below request
  exact ⟨hvalid.self, hsize.trans h.size_eq, hm, hb.marked⟩

theorem tidy_write_base (address : Nat) (data : ByteArray) {b : B} (h : Tidy limit [] b) :
    Tidy limit [] (show B from (Backend.write address data b).2) := by
  have hwrite : (Backend.write address data : Op B Unit).Ends b (fun _ u => Tidy limit [] u)
      (fun _ u => Tidy limit [] u) := by
    apply (LawfulBackend.ends_write address data h.valid).mono
    · exact fun _ u hu => ⟨hu.1, hu.2.2.size.trans h.size_eq, trivial⟩
    · rintro e u ⟨hv, ⟨n, -, hw⟩, -⟩
      exact ⟨hv, hw.size.trans h.size_eq, trivial⟩
  exact hwrite.always

theorem closed_tidy (limit : Nat) (ks : List StorageKind) :
    Backend.Closed (Tidy (B := B) limit ks) := by
  induction ks with
  | nil =>
    have hkept : ∀ {b u : B}, Tidy limit [] b → LawfulBackend.Valid False u ∧ Keeps b u →
        Tidy limit [] u :=
      fun h hu => ⟨hu.1, hu.2.size.trans h.size_eq, trivial⟩
    constructor
    · exact fun address length h => hkept h (LawfulBackend.kept_read address length h.valid)
    · exact fun address data h => tidy_write_base address data h
    · exact fun h => hkept h (LawfulBackend.kept_flush h.valid)
    · exact fun h => hkept h (LawfulBackend.kept_shutdown h.valid)
  | cons k ks ih =>
    exact PageCache.closed_of_call (S := k.Store) (B := Tower B ks) fun request h =>
      h.request ih request

theorem Tidy.call (h : Tidy limit (k :: ks) t) (c : Call Sync) :
    Tidy limit (k :: ks) (Tower.call (k :: ks) c t).2 := by
  have hbelow := closed_tidy (B := B) limit ks
  cases c with
  | read address length => exact h.request hbelow (.read address length)
  | write address data => exact h.request hbelow (.write address data)
  | sync kind =>
    cases kind with
    | tier => exact h.request hbelow (.sync .flush)
    | flush => exact h.request hbelow (.sync .flushAll)
    | shutdown => exact h.request hbelow (.sync .shutdown)

theorem Tidy.occurs {ls : List StorageKind} {t : Tower B ks} {u : Tower B ls}
    (h : Tidy limit ks t) (hu : Occurs t ls u) : Tidy limit ls u := by
  induction hu with
  | start => exact h
  | call c _ ih => exact ih.call c
  | lower _ ih => exact ih.below

theorem tidy_build {plans : List TierPlan} {b : B} {t : Tower B (plans.map TierPlan.kind)}
    (hb : LawfulBackend.Valid False b) (h : build plans b = .ok t) :
    Tidy (Contents.size b) _ t := by
  obtain ⟨hv, hsize, -⟩ := lawful_build hb False.elim h
  refine ⟨hv, hsize, ?_⟩
  clear hv hsize
  induction plans with
  | nil => trivial
  | cons p plans ih =>
    obtain ⟨below, hbelow, hp⟩ := build_cons h
    obtain ⟨hm, rfl⟩ := TierPlan.marked_raise hp
    exact ⟨hm, ih hbelow⟩

/-- Over any store that has an end, and whatever fails there or in a driver: in every state that a
tier of a stack gets into, it is consistent with the tier below. -/
theorem tiers_stay_consistent {plans : List TierPlan} {b : B}
    {t : Tower B (plans.map TierPlan.kind)} {u : Tower B (k :: ks)}
    (hb : LawfulBackend.Valid False b) (ht : build plans b = .ok t) (hu : Occurs t (k :: ks) u) :
    PageCache.Consistent (S := k.Store) (H := k.Handle) (B := Tower B ks) (Contents.size b) u := by
  have htidy := (tidy_build hb ht).occurs hu
  have hv : TopValid False _ u := htidy.valid
  have hsize : Contents.size u = Contents.size b := htidy.size_eq
  exact hsize ▸ hv.consistent htidy.marked.1

theorem tiers_stay_consistent_two_tiers :
    let gate : Gate FlatMemory := { inner := .ofSize 11, onWrite := .burst 0 1 }
    let calls : List (Call Sync) := [.write 2 ⟨#[1, 2, 3]⟩, .write 8 ⟨#[4, 5, 6]⟩]
    ∃ t : Tower (Gate FlatMemory) [.heap, .emulated], build twoTiers gate = .ok t ∧
      (run (call [.heap, .emulated]) calls t).1.map Except.isOk = [false, true] ∧
      ∃ top : PageCache HeapStorage ByteArray (Tower (Gate FlatMemory) [.emulated]),
        top = (run (call [.heap, .emulated]) calls t).2 ∧ top.dirtyRange? 2 = some ⟨0, 3⟩ ∧
        top.Consistent 11 ∧
        PageCache.Consistent (S := BlockStorage EmulatedMemory) (B := Gate FlatMemory) 11
          top.below := by
  intro gate calls
  have hgate : LawfulBackend.Valid False gate := Gate.Valid.mk trivial rfl False.elim
  have htop : ∀ t : Tower (Gate FlatMemory) [.heap, .emulated],
      Occurs t [.heap, .emulated] (run (call [.heap, .emulated]) calls t).2 :=
    fun t => Occurs.start.run calls
  refine ⟨_, rfl, by decide +kernel, _, rfl, by decide +kernel, ?_, ?_⟩
  · exact @tiers_stay_consistent _ _ _ _ .heap [.emulated] twoTiers gate _ _ hgate rfl (htop _)
  · exact @tiers_stay_consistent _ _ _ _ .emulated [] twoTiers gate _ _ hgate rfl (htop _).lower

end Tower

end TieredMemory
