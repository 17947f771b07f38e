import TieredMemory.Proofs.Block.Replay
import TieredMemory.Proofs.Hierarchy
import TieredMemory.Proofs.Page.Layers

namespace TieredMemory

namespace PageCache

variable {S H B : Type} [PageStorage S H] [PageContents S H] [LawfulStorage S H]
variable [Backend B] [Contents B] [LawfulBackend B]

section Orderly

variable {pageSize : Nat} {c : PageCache S H B}

def Action.syncs : Action → Bool
  | flushBelow => true
  | _ => false

structure Orderly (pageSize size : Nat) (s : Step Action Unit (PageCache S H B)) : Prop where
  within : s.call.Within pageSize size
  clean : s.call.syncs = true → ∀ e ∈ s.before.cache.toList, e.2.dirty = none

omit [PageContents S H] [LawfulStorage S H] [Contents B] [LawfulBackend B] in
theorem orderly_attempt {actions : List Action} {size : Nat}
    (h : ∀ a ∈ actions, a.Within pageSize size) (hs : ∀ a ∈ actions, a.syncs = false)
    (c : PageCache S H B) : ∀ s ∈ Op.attempt Action.perform actions c, Orderly pageSize size s := by
  intro s hm
  have hw := Op.forall_mem_attempt h c s hm
  have hq := Op.forall_mem_attempt hs c s hm
  refine ⟨hw, fun hsync => ?_⟩
  rw [hq] at hsync
  cases hsync

theorem orderly_flush (rest : List Action) (size : Nat) (h : c.Valid False pageSize)
    (hw : ∀ a ∈ rest, a.Within pageSize size) (hs : ∀ a ∈ rest, a.syncs = false) :
    ∀ s ∈ Op.attempt Action.perform (.flush :: .flushBelow :: rest) c, Orderly pageSize size s := by
  rcases (ends_flush h).cases with ⟨_, t, he, -, -, hclean⟩ | ⟨e, t, he, -⟩
  · have hop : Action.perform .flush c = (.ok (), t) := he
    simp only [Op.attempt, hop, List.forall_mem_cons]
    refine ⟨⟨trivial, fun hsync => by cases hsync⟩, ?_⟩
    rcases hb : Action.perform .flushBelow t with ⟨e | _, u⟩
    · simp only [List.forall_mem_singleton]
      exact ⟨trivial, fun _ => hclean⟩
    · simp only [List.forall_mem_cons]
      exact ⟨⟨trivial, fun _ => hclean⟩, orderly_attempt hw hs u⟩
  · have hop : Action.perform .flush c = (.error e, t) := he
    simp only [Op.attempt, hop, List.forall_mem_singleton]
    exact ⟨trivial, fun hsync => by cases hsync⟩

omit [PageStorage S H] [PageContents S H] [LawfulStorage S H] [Contents B] [LawfulBackend B] in
theorem syncs_actions (c : PageCache S H B) {request : Call Upkeep}
    (hr : request ≠ .sync .flushAll) :
    ∀ a ∈ c.actions request, a.syncs = false := by
  cases request with
  | read address length =>
    intro a ha
    simp only [actions] at ha
    split at ha
    · cases ha
    · obtain ⟨piece, -, rfl⟩ := List.mem_map.mp ha
      rfl
  | write address data =>
    intro a ha
    obtain ⟨page, offset, k, n, rfl, -⟩ := of_mem_actions_write c address data a ha
    rfl
  | sync kind =>
    cases kind with
    | flush => exact List.forall_mem_singleton.mpr rfl
    | flushAll => exact absurd rfl hr
    | clear => exact List.forall_mem_singleton.mpr rfl
    | shutdown => exact List.forall_mem_cons.mpr ⟨rfl, List.forall_mem_singleton.mpr rfl⟩

theorem orderly_actions (h : c.Valid False pageSize) (request : Call Upkeep) :
    ∀ s ∈ Op.attempt Action.perform (c.actions request) c,
      Orderly pageSize (Contents.size c) s := by
  by_cases hr : request = .sync .flushAll
  · subst hr
    apply orderly_flush [] _ h
    · exact fun a ha => absurd ha List.not_mem_nil
    · exact fun a ha => absurd ha List.not_mem_nil
  · exact orderly_attempt (within_actions h request) (syncs_actions c hr) c

theorem orderly_steps (h : c.Valid False pageSize) (requests : List (Call Upkeep)) :
    ∀ s ∈ steps requests c, Orderly pageSize (Contents.size c) s := by
  induction requests generalizing c with
  | nil => exact fun s hs => absurd hs List.not_mem_nil
  | cons request requests ih =>
    obtain ⟨hv, hsize⟩ := valid_call h request
    rw [steps, List.forall_mem_append]
    exact ⟨orderly_actions h request, hsize ▸ ih hv⟩

end Orderly

end PageCache

namespace Hierarchy

open PageCache (Action)

variable {P D α β : Type} [BlockDevice D] {h : Hierarchy D}

def request : Call Unit → Call PageCache.Upkeep
  | .read address length => .read address length
  | .write address data => .write address data
  | .sync () => .sync .flushAll

def closing : List Action := [.flush, .flushBelow, .clear, .shutdownBelow]

section Ram

omit [BlockDevice D] in
theorem state_onRam_bind {op : Op (RamTier D) α} {rest : α → Op (Hierarchy D) β}
    (hr : ∀ a t, ∃ client, (rest a t).2 = { t with client }) :
    ∃ client, ((onRam op >>= rest) h).2 = { h with ram := (op h.ram).2, client } := by
  rcases he : op h.ram with ⟨e | a, ram⟩
  · have hop : onRam op h = (.error e, { h with ram }) := by simp only [onRam, he]
    rw [Op.bind_apply_error hop]
    exact ⟨h.client, rfl⟩
  · have hop : onRam op h = (.ok a, { h with ram }) := by simp only [onRam, he]
    rw [Op.bind_apply_ok hop]
    exact hr a { h with ram }

variable [BlockContents D] [LawfulDevice D]

structure InUse (h : Hierarchy D) : Prop where
  ram : h.ram.Valid False h.ram.pageSize
  size : Contents.size h.ram = h.maximumSize
  isOpen : h.closed = false

theorem InUse.capacity_eq (hu : InUse h) : Backend.capacity h.ram.below = some h.maximumSize :=
  (PageCache.capacity_below hu.ram).trans (congrArg some hu.size)

theorem InUse.state_call (hu : InUse h) (c : Call Unit) :
    ∃ client, (call c h).2 =
      { h with ram := (PageCache.call (request c) h.ram).2, client } := by
  cases c with
  | read address length =>
    rcases Nat.lt_or_ge h.maximumSize (address + length) with hr | hr
    · refine ⟨h.client, ?_⟩
      simp only [call, read_of_lt hr, request, PageCache.call, PageCache.read, hu.capacity_eq,
        checkRange_of_lt hr]
    · rw [call, read_of_le hr]
      exact state_onRam_bind fun _ t => ⟨t.client.recordRead length, rfl⟩
  | write address data =>
    rw [call, request, PageCache.call, Op.state_answer, Op.state_answer]
    rcases Nat.lt_or_ge h.maximumSize (address + data.size) with hr | hr
    · refine ⟨h.client, ?_⟩
      simp only [write_of_lt hr, PageCache.write, hu.capacity_eq, checkRange_of_lt hr]
    · rw [write_of_le hr]
      exact state_onRam_bind fun _ t => ⟨t.client.recordWrite data.size, rfl⟩
  | sync kind =>
    refine ⟨h.client, ?_⟩
    rw [call, request, PageCache.call, Op.state_answer, Op.state_answer]
    rfl

theorem InUse.call (hu : InUse h) (c : Call Unit) : InUse (call c h).2 := by
  obtain ⟨client, ht⟩ := hu.state_call c
  obtain ⟨hv, hs⟩ := PageCache.valid_call hu.ram (request c)
  rw [ht]
  exact ⟨hv.self, hs.trans hu.size, hu.isOpen⟩

theorem InUse.run (hu : InUse h) (calls : List (Call Unit)) :
    InUse (TieredMemory.run Hierarchy.call calls h).2 ∧
    (TieredMemory.run Hierarchy.call calls h).2.ram =
      (TieredMemory.run PageCache.call (calls.map request) h.ram).2 := by
  induction calls generalizing h with
  | nil => exact ⟨hu, rfl⟩
  | cons c calls ih =>
    obtain ⟨client, ht⟩ := hu.state_call c
    have hram : (Hierarchy.call c h).2.ram = (PageCache.call (request c) h.ram).2 := by rw [ht]
    obtain ⟨hend, heq⟩ := ih (hu.call c)
    rw [hram] at heq
    exact ⟨hend, heq⟩

omit [BlockDevice D] [BlockContents D] [LawfulDevice D] in
theorem inOrder_closing {S H B : Type} [PageStorage S H] [Backend B] :
    Op.inOrder Action.perform closing =
      (do Backend.flush; Backend.shutdown : Op (PageCache S H B) Unit) := by
  have hsplit : closing = [.flush, .flushBelow] ++ [.clear, .shutdownBelow] := rfl
  rw [hsplit, Op.inOrder_append, Op.inOrder_pair, Op.inOrder_pair]
  rfl

theorem InUse.ram_shutdown (hu : InUse h) :
    (shutdown h).2.ram = (Op.inOrder Action.perform closing h.ram).2 := by
  have hop : shutdown h = (do
      onRam Backend.flush
      onRam Backend.shutdown : Op (Hierarchy D) Unit) { h with closed := true } := by
    rw [shutdown, hu.isOpen]
    rfl
  rw [hop, inOrder_closing]
  rcases he : (Backend.flush : Op (RamTier D) Unit) h.ram with ⟨e | _, ram⟩
  · have honRam : onRam Backend.flush { h with closed := true } =
        (.error e, { h with ram, closed := true }) := by
      simp only [onRam, he]
    rw [Op.bind_apply_error he, Op.bind_apply_error honRam]
  · have honRam : onRam Backend.flush { h with closed := true } =
        (.ok (), { h with ram, closed := true }) := by
      simp only [onRam, he]
    rw [Op.bind_apply_ok he, Op.bind_apply_ok honRam]
    rfl

theorem InUse.file_drop (hu : InUse h) :
    (drop h).file =
      (Op.inOrder Action.perform closing h.ram).2.below.below.below := by
  rw [← hu.ram_shutdown]
  rfl

end Ram

abbrev Tiers (D B : Type) :=
  PageCache HeapStorage ByteArray
    (PageCache HeapStorage ByteArray (PageCache (BlockStorage D) Nat B))

namespace Tiers

variable {B : Type}

def base (c : Tiers D B) : B := c.below.below.below

def watch (c : Tiers D PageFile) : Tiers D (Recorded PageFile) :=
  c.mapBelow (PageCache.mapBelow (PageCache.mapBelow Recorded.start))

def unwatch (c : Tiers D (Recorded PageFile)) : Tiers D PageFile :=
  c.mapBelow (PageCache.mapBelow (PageCache.mapBelow Recorded.inner))

theorem hom_inner : Backend.Hom (PageCache.mapBelow (S := HeapStorage) (H := ByteArray)
    (PageCache.mapBelow (S := BlockStorage D) (H := Nat) (Recorded.inner (β := PageFile)))) :=
  PageCache.hom_mapBelow (PageCache.hom_mapBelow Recorded.hom_inner)

theorem simulates_unwatch :
    Simulates (PageCache.call : Call _ → Op (Tiers D (Recorded PageFile)) ByteArray) PageCache.call
      fun c t => Tiers.unwatch c = t :=
  PageCache.simulates_mapBelow hom_inner

section

variable [BlockContents D] [LawfulDevice D]

theorem preserves_watch : Preserves (watch : Tiers D PageFile → _) :=
  PageCache.preserves_mapBelow (PageCache.preserves_mapBelow
    (PageCache.preserves_mapBelow Recorded.preserves_start))

theorem preserves_unwatch : Preserves (unwatch : _ → Tiers D PageFile) :=
  PageCache.preserves_mapBelow (PageCache.preserves_mapBelow
    (PageCache.preserves_mapBelow Recorded.preserves_inner))

end

omit [BlockDevice D] in
theorem unwatch_watch (c : Tiers D PageFile) : c.watch.unwatch = c := rfl

end Tiers

section Moments

def remember {B : Type} (memory : Nat → UInt8) (s : Step Action Unit (Tiers D B)) : Nat → UInt8 :=
  if s.answer.isOk then s.call.onBytes s.before.pageSize memory else memory

/-- The moments of a step: after each write to the file, and at the end. A flush that succeeds has
brought the file up to date. -/
def momentsOf (memory : Nat → UInt8) (s : Step Action Unit (Tiers D (Recorded PageFile))) :
    List Moment :=
  ((s.after.base.log.drop s.before.base.log.length).map fun w =>
    ⟨memory, w.left.bytes.byteAt, false⟩) ++
  [⟨remember memory s, s.after.base.inner.bytes.byteAt, s.call.syncs && s.answer.isOk⟩]

def moments (memory : Nat → UInt8) :
    List (Step Action Unit (Tiers D (Recorded PageFile))) → List Moment
  | [] => []
  | s :: steps => momentsOf memory s ++ moments (remember memory s) steps

omit [BlockDevice D] in
theorem getLast?_momentsOf (memory : Nat → UInt8)
    (s : Step Action Unit (Tiers D (Recorded PageFile))) :
    (momentsOf memory s).getLast? = some ⟨remember memory s, s.after.base.inner.bytes.byteAt,
      s.call.syncs && s.answer.isOk⟩ := by
  rw [momentsOf, List.getLast?_concat]

omit [BlockDevice D] in
theorem moments_append (memory : Nat → UInt8)
    (steps steps' : List (Step Action Unit (Tiers D (Recorded PageFile)))) :
    moments memory (steps ++ steps') =
      moments memory steps ++ moments (steps.foldl remember memory) steps' := by
  induction steps generalizing memory with
  | nil => rfl
  | cons s steps ih => simp only [List.cons_append, moments, ih, List.foldl_cons, List.append_assoc]

variable [BlockContents D] [LawfulDevice D]
variable {pageSize size : Nat} {past : List Moment} {memory : Nat → UInt8}
variable {c t : Tiers D (Recorded PageFile)}

/-- After the moments of the past, the tiers hold at every address versions that are not older than
the one in the file, and the newer the higher. -/
structure Tracked (pageSize size : Nat) (past : List Moment) (memory : Nat → UInt8)
    (c : Tiers D (Recorded PageFile)) : Prop where
  valid : c.Valid False pageSize
  size_eq : Contents.size c = size
  bytes : Contents.byteAt c = memory
  trails : ∀ i, Trails i past (layers c i)

omit [BlockDevice D] [LawfulDevice D] in
theorem momentsOf_eq {a : Action} {answer : Except Error Unit} {fresh : List (Nat → UInt8)}
    (h : Layers.states t.below = Layers.states c.below ++ fresh) :
    momentsOf memory ⟨a, answer, c, t⟩ = (fresh.map fun copy => ⟨memory, copy, false⟩) ++
      [⟨remember memory ⟨a, answer, c, t⟩, t.base.inner.bytes.byteAt, a.syncs && answer.isOk⟩] := by
  have hlog : t.base.log.map (fun w => Contents.byteAt w.left) =
      c.base.log.map (fun w => Contents.byteAt w.left) ++ fresh := h
  have hfresh :
      (t.base.log.drop c.base.log.length).map (fun w => Contents.byteAt w.left) = fresh := by
    rw [List.map_drop, hlog, List.drop_left' (List.length_map _)]
  rw [momentsOf, ← hfresh, List.map_map]
  rfl

theorem Tracked.bytes_step {a : Action} {answer : Except Error Unit}
    (h : Tracked pageSize size past memory c) (ha : a.Within pageSize size)
    (he : a.perform c = (answer, t)) :
    t.Valid False pageSize ∧ Contents.size t = size ∧
      Contents.byteAt t = remember memory ⟨a, answer, c, t⟩ := by
  have hp : c.pageSize = pageSize := h.valid.coherent.pageSize_eq
  have hends := PageCache.ends_perform_bytes a h.valid (h.size_eq ▸ ha)
  cases answer with
  | error e =>
    obtain ⟨hv, hs, hb⟩ := hends.error_of_eq he
    exact ⟨hv, hs.trans h.size_eq, hb.trans h.bytes⟩
  | ok _ =>
    obtain ⟨hv, hs, hb⟩ := hends.ok_of_eq he
    refine ⟨hv, hs.trans h.size_eq, hb.trans ?_⟩
    rw [h.bytes, ← hp]
    rfl

theorem clean_of_syncs {a : Action} (h : c.Valid False pageSize)
    (hclean : ∀ e ∈ c.cache.toList, e.2.dirty = none) (hs : a.syncs = true)
    (he : a.perform c = (.ok (), t)) : Contents.Clean t := by
  cases a with
  | flushBelow =>
    have hflush := PageCache.ends_below h hclean (LawfulBackend.ends_flush h.coherent.below)
    exact (hflush.ok_of_eq he).2.2
  | _ => cases hs

theorem Tracked.step {a : Action} {answer : Except Error Unit}
    (h : Tracked pageSize size past memory c)
    (ho : PageCache.Orderly pageSize size ⟨a, answer, c, t⟩) (he : a.perform c = (answer, t)) :
    Tracked pageSize size (past ++ momentsOf memory ⟨a, answer, c, t⟩)
      (remember memory ⟨a, answer, c, t⟩) t := by
  obtain ⟨hv, hsize, hbytes⟩ := h.bytes_step ho.within he
  refine ⟨hv, hsize, hbytes, fun i => ?_⟩
  have htakes := PageCache.takes_below a h.valid
  rw [he] at htakes
  obtain ⟨fresh, hstates, hf⟩ := htakes
  rw [momentsOf_eq hstates, ← List.append_assoc]
  -- all writes to the file come before the client sees the bytes of this step
  have hcopies :
      Trails i (past ++ fresh.map fun copy => ⟨memory, copy, false⟩) (layers t.below i) :=
    ((h.trails i).mono (hf i)).copies
  have htop : layers t i = layers t.below i ++ [remember memory ⟨a, answer, c, t⟩ i] := by
    rw [← hbytes]
    rfl
  cases hs : a.syncs && answer.isOk with
  | false =>
    rw [htop]
    have hnext := Trails.next (m := ⟨remember memory ⟨a, answer, c, t⟩, _, false⟩) hcopies rfl
    exact hnext
  | true =>
    rw [Bool.and_eq_true] at hs
    cases answer with
    | error e => cases hs.2
    | ok _ =>
      -- nothing is left to write back, so all layers hold what the client sees
      have hclean := clean_of_syncs h.valid (ho.clean hs.1) hs.1 he
      have hlower := LawfulLayers.lower_of_clean (i := i) hv.self hclean
      rw [hbytes] at hlower
      have hsame : ∀ v ∈ layers t i, v = remember memory ⟨a, .ok (), c, t⟩ i := by
        rw [layers, List.forall_mem_append, hbytes]
        exact ⟨hlower, by simp⟩
      refine (hcopies.sync (m := ⟨_, _, true⟩) ?_).mono (.of_forall_eq hsame)
      exact hlower _ List.mem_cons_self

theorem Tracked.runs {steps : List (Step Action Unit (Tiers D (Recorded PageFile)))}
    (h : Tracked pageSize size past memory c) (hr : Op.Runs Action.perform c steps t)
    (ho : ∀ s ∈ steps, PageCache.Orderly pageSize size s) :
    Tracked pageSize size (past ++ moments memory steps) (steps.foldl remember memory) t := by
  induction hr generalizing past memory with
  | nil c =>
    rw [moments, List.append_nil]
    exact h
  | cons he _ ih =>
    obtain ⟨hstep, hsteps⟩ := List.forall_mem_cons.mp ho
    rw [moments, ← List.append_assoc]
    exact ih (h.step hstep he) hsteps

end Moments

section Observation

def during (calls : List (Call Unit)) (h : Hierarchy D) :
    List (Step Action Unit (Tiers D (Recorded PageFile))) :=
  PageCache.steps (calls.map request) (Tiers.watch h.ram)

def ending (calls : List (Call Unit)) (h : Hierarchy D) :
    List (Step Action Unit (Tiers D (Recorded PageFile))) :=
  Op.attempt Action.perform closing
    (run PageCache.call (calls.map request) (Tiers.watch h.ram)).2

theorem unwatch_run (calls : List (Call Unit)) (h : Hierarchy D) :
    Tiers.unwatch (run PageCache.call (calls.map request) (Tiers.watch h.ram)).2 =
      (run PageCache.call (calls.map request) h.ram).2 :=
  (Tiers.simulates_unwatch.run (calls.map request) (Tiers.unwatch_watch h.ram)).2

theorem during_unwatch (calls : List (Call Unit)) (h : Hierarchy D) :
    (during calls h).map (Step.mapState Tiers.unwatch) =
      PageCache.steps (calls.map request) h.ram :=
  (PageCache.steps_mapBelow Tiers.hom_inner (calls.map request) (Tiers.watch h.ram)).symm

theorem ending_unwatch (calls : List (Call Unit)) (h : Hierarchy D) :
    (ending calls h).map (Step.mapState Tiers.unwatch) =
      Op.attempt Action.perform closing (run PageCache.call (calls.map request) h.ram).2 := by
  rw [← unwatch_run]
  exact (Op.attempt_map (PageCache.commutes_perform Tiers.hom_inner) closing _).symm

theorem during_concat (calls : List (Call Unit)) (c : Call Unit) (h : Hierarchy D) :
    during (calls ++ [c]) h = during calls h ++
      (let t := (run PageCache.call (calls.map request) (Tiers.watch h.ram)).2
      Op.attempt Action.perform (t.actions (request c)) t) := by
  rw [during, List.map_append]
  exact PageCache.steps_concat _ _ _

theorem attempt_flush {c t : Tiers D (Recorded PageFile)} (h : Backend.flush c = (.ok (), t)) :
    ∃ u, Op.attempt Action.perform (c.actions (.sync .flushAll)) c =
      [⟨.flush, .ok (), c, u⟩, ⟨.flushBelow, .ok (), u, t⟩] := by
  change (do PageCache.flush; PageCache.onBelow Backend.flush : Op (Tiers D _) Unit) c = _ at h
  rcases hu : PageCache.flush c with ⟨e | _, u⟩
  · rw [Op.bind_apply_error hu] at h
    cases h
  · rw [Op.bind_apply_ok hu] at h
    have hfirst : Action.perform .flush c = (.ok (), u) := hu
    have hsecond : Action.perform .flushBelow u = (.ok (), t) := h
    refine ⟨u, ?_⟩
    simp only [PageCache.actions, Op.attempt, hfirst, hsecond]

theorem flush_of_call {data : ByteArray} (h' : (call (.sync ()) h).1 = .ok data) :
    ∃ t, Backend.flush h.ram = (.ok (), t) := by
  rcases he : Backend.flush h.ram with ⟨e | _, t⟩
  · have hop : flush h = (.error e, { h with ram := t }) := by simp only [flush, onRam, he]
    rw [call, Op.bind_apply_error hop] at h'
    cases h'
  · exact ⟨t, rfl⟩

theorem synced_of_flush {calls : List (Call Unit)} {data : ByteArray}
    (hr : (run call calls h).2.ram = (run PageCache.call (calls.map request) h.ram).2)
    (h' : (call (.sync ()) (run call calls h).2).1 = .ok data) (memory : Nat → UInt8) :
    ∃ m, (moments memory (during (calls ++ [.sync ()]) h)).getLast? = some m ∧ m.synced = true := by
  obtain ⟨t, ht⟩ := flush_of_call h'
  rw [hr, ← unwatch_run] at ht
  generalize hc : (run PageCache.call (calls.map request) (Tiers.watch h.ram)).2 = c at ht
  rcases he : (Backend.flush : Op (Tiers D (Recorded PageFile)) Unit) c with ⟨answer, u⟩
  have hsame := (PageCache.hom_mapBelow (S := HeapStorage) Tiers.hom_inner).flush.apply_eq he
  rw [Tiers.unwatch, hsame] at ht
  obtain ⟨rfl, -⟩ := Prod.mk.inj ht
  obtain ⟨mid, hattempt⟩ := attempt_flush he
  rw [during_concat, hc, moments_append]
  dsimp only [request]
  rw [hattempt]
  simp only [moments, List.append_nil, List.getLast?_append, getLast?_momentsOf, Option.some_or,
    Option.some.injEq, exists_eq_left']
  rfl

variable [BlockContents D]

/-- A run of calls and the end of the hierarchy after it are the steps that are observed. A client
sees what is remembered, and of this the page file is at every moment a faithful copy. -/
structure Observed (calls : List (Call Unit)) (h : Hierarchy D) : Prop where
  runs : Op.Runs Action.perform h.ram ((during calls h).map (Step.mapState Tiers.unwatch))
    (run call calls h).2.ram
  view : Contents.byteAt (run call calls h).2 = (during calls h).foldl remember fun _ => 0
  flushed : ∀ data, (call (.sync ()) (run call calls h).2).1 = .ok data →
    ∃ m, (moments (fun _ => 0) (during (calls ++ [.sync ()]) h)).getLast? = some m ∧
      m.synced = true
  ends : ∃ t : Tiers D PageFile,
    Op.Runs Action.perform (run call calls h).2.ram
      ((ending calls h).map (Step.mapState Tiers.unwatch)) t ∧
    t.base = (drop (run call calls h).2).file
  faithful : Faithful (⟨fun _ => 0, h.file.bytes.byteAt, true⟩ ::
    moments (fun _ => 0) (during calls h ++ ending calls h))

variable [LawfulDevice D]

theorem tracked_start {file : PageFile} (hf : Fresh False h.config file h)
    (hz : ∀ i, file.bytes.byteAt i = 0) :
    Tracked h.ram.pageSize (Contents.size h.ram) [⟨fun _ => 0, h.file.bytes.byteAt, true⟩]
      (fun _ => 0) (Tiers.watch h.ram) := by
  have hwatch := Tiers.preserves_watch (D := D)
  have hv := hwatch.valid h.ram hf.ram
  have hbytes : Contents.byteAt (Tiers.watch h.ram) = fun _ => 0 := by
    rw [hwatch.bytes, hf.bytes]
    exact funext hz
  have hsame : ∀ i, ∀ v ∈ layers (Tiers.watch h.ram) i, v = 0 := by
    intro i
    have hlower := LawfulLayers.lower_of_clean (i := i) hv (hwatch.clean h.ram hf.clean)
    rw [hbytes] at hlower
    rw [layers, List.forall_mem_append, hbytes]
    exact ⟨hlower, by simp⟩
  refine ⟨hv, hwatch.size h.ram, hbytes, fun i => ?_⟩
  have hnone : Trails i [] [] := ⟨0, .start, .nil _⟩
  refine (hnone.sync (m := ⟨fun _ => 0, h.file.bytes.byteAt, true⟩) ?_).mono
    (.of_forall_eq (hsame i))
  exact hsame i _ List.mem_cons_self

theorem observed {file : PageFile} (hf : Fresh False h.config file h) (hu : InUse h)
    (hz : ∀ i, file.bytes.byteAt i = 0) (calls : List (Call Unit)) : Observed calls h := by
  obtain ⟨huse, hram⟩ := hu.run calls
  have hv : (Tiers.watch h.ram).Valid False h.ram.pageSize :=
    Tiers.preserves_watch.valid h.ram hu.ram
  have hsize := Tiers.preserves_watch.size h.ram
  have hduring : Op.Runs Action.perform (Tiers.watch h.ram) (during calls h) _ :=
    PageCache.runs_steps (calls.map request) _
  have horderly : ∀ s ∈ during calls h, PageCache.Orderly h.ram.pageSize (Contents.size h.ram) s :=
    hsize ▸ PageCache.orderly_steps hv _
  have htracked := (tracked_start hf hz).runs hduring horderly
  have hclosing := Op.runs_attempt Action.perform closing
    (run PageCache.call (calls.map request) (Tiers.watch h.ram)).2
  constructor
  · rw [during_unwatch, hram]
    exact PageCache.runs_steps _ _
  · have hview := htracked.bytes
    rw [← Tiers.preserves_unwatch.bytes, unwatch_run, ← hram] at hview
    exact hview
  · exact fun data hok => synced_of_flush hram hok _
  · refine ⟨_, ?_, huse.file_drop.symm⟩
    rw [ending_unwatch, ← hram]
    exact Op.runs_attempt _ _ _
  · have hclean := PageCache.orderly_flush [.clear, .shutdownBelow]
      (Contents.size h.ram) htracked.valid (by simp [Action.Within]) (by simp [Action.syncs])
    have hend := (tracked_start hf hz).runs (hduring.append hclosing)
      (List.forall_mem_append.mpr ⟨horderly, hclean⟩)
    apply Dated.faithful
    intro i
    obtain ⟨v, hv, -⟩ := hend.trails i
    exact ⟨v, hv⟩

theorem fresh_created [BlockProvider P D] [LawfulProvider P D] {config : Config} {provider : P}
    {place : Location} {file : PageFile} {onRead onWrite onSync : Faults}
    (hp : LawfulProvider.Ready False provider)
    (hf : PageFile.create place config.maximumSize config.syncOnFlush = .ok file)
    (hs : stack config provider { file with onRead, onWrite, onSync } = .ok h) :
    Fresh False config { file with onRead, onWrite, onSync } h ∧ InUse h := by
  obtain ⟨hv, hm⟩ := file_create hf
  have hvalid : PageFile.Valid False { file with onRead, onWrite, onSync } :=
    ⟨hv.size, False.elim⟩
  have hfresh := fresh_stack hp hvalid hs
  have hmax : h.maximumSize = config.maximumSize := congrArg Config.maximumSize hfresh.config_eq
  have hsize : Contents.size h.ram = h.maximumSize := by
    rw [hfresh.size, hmax, ← Bytes.size_zeros config.maximumSize]
    exact hm.size
  exact ⟨hfresh, hfresh.ram, hsize, hfresh.isOpen⟩

/-- The page file of a hierarchy over a device and a file that may fail at any time, in use and at
its end. -/
theorem file_faithful [BlockProvider P D] [LawfulProvider P D] {config : Config} {provider : P}
    {place : Location} {file : PageFile} {onRead onWrite onSync : Faults}
    (hp : LawfulProvider.Ready False provider)
    (hf : PageFile.create place config.maximumSize config.syncOnFlush = .ok file)
    (hs : stack config provider { file with onRead, onWrite, onSync } = .ok h)
    (calls : List (Call Unit)) : Observed calls h := by
  obtain ⟨-, hm⟩ := file_create hf
  obtain ⟨hfresh, huse⟩ := fresh_created hp hf hs
  apply observed (hfresh.config_eq ▸ hfresh) huse
  intro i
  exact (congrFun hm.bytes i).trans (Bytes.byteAt_zeros _ i)

omit [BlockContents D] [LawfulDevice D] in
theorem exists_stack [BlockProvider P D] {config : Config} {provider : P} {a : Allocator D}
    (file : PageFile)
    (ha : Allocator.init provider config.himem.pageSize config.himem.pages = .ok a)
    (hb : a.blockSize = config.himem.pageSize)
    (hram : 0 < config.ram.pageSize ∧ 0 < config.ram.pages)
    (hpsram : 0 < config.psram.pageSize ∧ 0 < config.psram.pages)
    (hhimem : 0 < config.himem.pageSize ∧ 0 < config.himem.pages) :
    ∃ h, stack config provider file = .ok h := by
  have hstorage : BlockStorage.ofAllocator a config.himem.pageSize = .ok ⟨a⟩ := if_neg (by omega)
  obtain ⟨himem, hh⟩ := PageCache.exists_create (H := Nat) "himem" (⟨a⟩ : BlockStorage D) file
    hhimem.1 hhimem.2
  obtain ⟨psram, hp⟩ := PageCache.exists_create (H := ByteArray) "psram"
    (⟨config.psram.pageSize⟩ : HeapStorage) himem hpsram.1 hpsram.2
  obtain ⟨ram, hr⟩ := PageCache.exists_create (H := ByteArray) "ram"
    (⟨config.ram.pageSize⟩ : HeapStorage) psram hram.1 hram.2
  refine ⟨{ ram, config }, ?_⟩
  simp only [stack, PageCache.himem, PageCache.overBlocks, PageCache.heap, ha, hstorage, hh, hp, hr]

def bankedTiers : Config := ⟨"pagefile.bin", 65536, ⟨4, 1⟩, ⟨3, 2⟩, ⟨4096, 16⟩, true⟩

theorem ready_flakyBanks : LawfulProvider.Ready False PagedMemory.flakyBanks :=
  ⟨trivial, False.elim⟩

theorem exists_bankedTiers (file : PageFile) :
    ∃ h : Hierarchy (PagedMemory (Monitored SimulatedBanks)),
      stack bankedTiers PagedMemory.flakyBanks file = .ok h := by
  obtain ⟨m, hm⟩ := PagedMemory.init_flakyBanks
  have hblock : BlockDevice.blockSize m = 4096 :=
    (LawfulProvider.valid_of_init ready_flakyBanks False.elim hm).2.1
  have hinit : Allocator.init PagedMemory.flakyBanks 4096 16 = .ok { device := m } := by
    change (PagedMemory.flakyBanks.init 4096 16 >>= _) = _
    rw [hm]
    rfl
  exact exists_stack file hinit hblock (by decide) (by decide) (by decide)

theorem file_faithful_flaky :
    ∃ (file : PageFile) (h : Hierarchy (PagedMemory (Monitored SimulatedBanks))),
      PageFile.create .vacant bankedTiers.maximumSize bankedTiers.syncOnFlush = .ok file ∧
      stack bankedTiers PagedMemory.flakyBanks
        { file with onRead := .burst 1 1, onWrite := .burst 0 2, onSync := .burst 0 1 } = .ok h ∧
      ∀ calls, Observed calls h := by
  have hfile : PageFile.create .vacant bankedTiers.maximumSize bankedTiers.syncOnFlush = .ok _ :=
    rfl
  obtain ⟨h, hs⟩ := exists_bankedTiers _
  exact ⟨_, h, hfile, hs, file_faithful ready_flakyBanks hfile hs⟩

end Observation

end Hierarchy

end TieredMemory
