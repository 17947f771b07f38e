import TieredMemory.Proofs.Block.Replay

/-!
What a driver of bank-switched memory is asked for, from the allocation of its memory to the end.
The log of a monitored driver is replayed, and a call out of turn stops the replay.
-/

namespace TieredMemory

variable {D : Type}

inductive Tenure where
  | fresh
  | refused
  | held (bytes : Nat) (mapped : Option Nat)
  | ended (freed : Bool)
  deriving DecidableEq

namespace Tenure

/-- The driver is first asked for memory, once. Superblocks inside that memory are mapped one at a
time. Memory is given back while nothing is mapped, and that is the last call, whether it fails or
not. -/
def next : Tenure → BankEvent → Option Tenure
  | fresh, ⟨.alloc bytes, succeeded⟩ => some (if succeeded then held bytes none else refused)
  | held bytes none, ⟨.map offset, succeeded⟩ =>
    if superblockSize ∣ offset ∧ offset + superblockSize ≤ bytes then
      some (held bytes (if succeeded then some offset else none))
    else none
  | held bytes (some offset), ⟨.unmap, succeeded⟩ =>
    some (held bytes (if succeeded then none else some offset))
  | held _ none, ⟨.free, succeeded⟩ => some (ended succeeded)
  | _, _ => none

def replay (log : BankLog) : Option Tenure := log.toList.foldlM next fresh

theorem replay_push {log : BankLog} {t : Tenure} {event : BankEvent} (h : replay log = some t) :
    replay (log.push event) = t.next event := by
  rw [replay, Array.toList_push, List.foldlM_append]
  change (replay log >>= fun t => [event].foldlM next t) = _
  rw [h]
  change [event].foldlM next t = _
  rw [List.foldlM_cons]
  exact bind_pure (t.next event)

def Shows [BankContents D] : Tenure → D → Prop
  | held _ mapped, d => BankContents.mapped d = mapped
  | ended freed, d => BankContents.mapped d = none ∧ (freed = true → BankContents.size d = 0)
  | _, d => BankContents.mapped d = none

end Tenure

class FaithfulBanks (D : Type) [BankSwitch D] [BankContents D] : Prop where
  mapped_alloc (bytes : Nat) (d : D) :
    BankContents.mapped (BankSwitch.alloc bytes d).2 = BankContents.mapped d
  ends_map (offset : Nat) (d : D) : (BankSwitch.map offset : Op D Unit).Ends d
    (fun _ t => BankContents.mapped t = some offset)
    (fun _ t => BankContents.mapped t = BankContents.mapped d)
  ends_unmap (d : D) : (BankSwitch.unmap : Op D Unit).Ends d
    (fun _ t => BankContents.mapped t = none)
    (fun _ t => BankContents.mapped t = BankContents.mapped d)
  ends_free (d : D) : (BankSwitch.free : Op D Unit).Ends d
    (fun _ t => BankContents.mapped t = BankContents.mapped d ∧ BankContents.size t = 0)
    (fun _ t => BankContents.mapped t = BankContents.mapped d)
  mapped_editWindow (f : ByteArray → ByteArray) (d : D) :
    BankContents.mapped (BankSwitch.editWindow f d) = BankContents.mapped d

instance : FaithfulBanks SimulatedBanks where
  mapped_alloc bytes b := by
    change (SimulatedBanks.alloc bytes b).2.mappedAt = b.mappedAt
    unfold SimulatedBanks.alloc
    split
    · rfl
    · split <;> rfl
  ends_map offset b := by
    change (SimulatedBanks.map offset).Ends b _ _
    by_cases hm : b.mappedAt.isSome
    · exact .of_error (t := b) (if_pos hm) rfl
    · by_cases hs : b.physical.size < offset + superblockSize
      · exact .of_error (t := b) ((if_neg hm).trans (if_pos hs)) rfl
      · exact .of_ok (a := ()) ((if_neg hm).trans (if_neg hs)) rfl
  ends_unmap b := by
    change SimulatedBanks.unmap.Ends b _ _
    cases hm : b.mappedAt with
    | none =>
      apply Op.Ends.of_error (e := .bankSwitch "window not mapped") (t := b) _ rfl
      simp only [SimulatedBanks.unmap, hm]
    | some offset =>
      apply Op.Ends.of_ok (a := ()) (t := { b with
        physical := Bytes.patch b.physical offset b.window, mappedAt := none }) _ rfl
      simp only [SimulatedBanks.unmap, hm]
  ends_free b := by
    change SimulatedBanks.free.Ends b _ _
    by_cases hm : b.mappedAt.isSome
    · exact .of_error (t := b) (if_pos hm) rfl
    · exact .of_ok (a := ()) (if_neg hm) ⟨rfl, rfl⟩
  mapped_editWindow f b := rfl

namespace Monitored

variable [BankSwitch D] [BankContents D]

structure InTurn (t : Tenure) (m : Monitored D) : Prop where
  replay : Tenure.replay m.events = some t
  shows : t.Shows m.driver

variable {t t₁ t₂ : Tenure} {m : Monitored D} {bytes offset : Nat} {mapped : Option Nat}

theorem InTurn.perform (call : BankCall) (name : String) (fails : Bool) {op : Op D Unit}
    (h : InTurn t m) (hok : t.next ⟨call, true⟩ = some t₁) (hbad : t.next ⟨call, false⟩ = some t₂)
    (hop : op.Ends m.driver (fun _ d => t₁.Shows d) (fun _ d => t₂.Shows d))
    (hinjected : t₂.Shows m.driver) :
    (Monitored.perform call name fails op).Ends m
      (fun _ m' => InTurn t₁ m' ∧ m'.events = m.events.push ⟨call, true⟩)
      (fun _ m' => InTurn t₂ m' ∧ m'.events = m.events.push ⟨call, false⟩) := by
  apply ends_perform
  · exact fun _ => ⟨⟨(Tenure.replay_push h.replay).trans hbad, hinjected⟩, rfl⟩
  · intro driver ho
    exact ⟨⟨(Tenure.replay_push h.replay).trans hok, hop.ok_of_eq ho⟩, rfl⟩
  · intro e driver ho
    exact ⟨⟨(Tenure.replay_push h.replay).trans hbad, hop.error_of_eq ho⟩, rfl⟩

variable [FaithfulBanks D]

theorem InTurn.alloc (bytes : Nat) (h : InTurn .fresh m) :
    (BankSwitch.alloc bytes : Op (Monitored D) Unit).Ends m
      (fun _ m' => InTurn (.held bytes none) m') (fun _ m' => InTurn .refused m') := by
  have hm : BankContents.mapped m.driver = none := h.shows
  have hkeep := (FaithfulBanks.mapped_alloc bytes m.driver).trans hm
  have hf : InTurn .fresh { m with onAlloc := m.onAlloc.next.2 } := ⟨h.replay, h.shows⟩
  have hp := hf.perform (.alloc bytes) "alloc" m.onAlloc.next.1 rfl rfl
    ((Op.ends_of_state (P := fun d => BankContents.mapped d = none) hkeep).mono
      (fun _ _ ht => ht) fun _ _ ht => ht.2) hm
  exact hp.mono (fun _ _ hr => hr.1) fun _ _ hr => hr.1

theorem InTurn.map (h : InTurn (.held bytes none) m) (haligned : superblockSize ∣ offset)
    (hfit : offset + superblockSize ≤ bytes) :
    (BankSwitch.map offset : Op (Monitored D) Unit).Ends m
      (fun _ m' => InTurn (.held bytes (some offset)) m')
      (fun _ m' => InTurn (.held bytes none) m') := by
  have hm : BankContents.mapped m.driver = none := h.shows
  have hf : InTurn (.held bytes none) { m with onMap := m.onMap.next.2 } := ⟨h.replay, h.shows⟩
  have hp := hf.perform (.map offset) "map" m.onMap.next.1 (if_pos ⟨haligned, hfit⟩)
    (if_pos ⟨haligned, hfit⟩)
    ((FaithfulBanks.ends_map offset m.driver).mono (fun _ _ ht => ht) fun _ _ ht => ht.trans hm) hm
  exact hp.mono (fun _ _ hr => hr.1) fun _ _ hr => hr.1

theorem InTurn.unmap (h : InTurn (.held bytes (some offset)) m) :
    (BankSwitch.unmap : Op (Monitored D) Unit).Ends m
      (fun _ m' => InTurn (.held bytes none) m' ∧ m'.events = m.events.push ⟨.unmap, true⟩)
      (fun _ m' => InTurn (.held bytes (some offset)) m' ∧
        m'.events = m.events.push ⟨.unmap, false⟩) := by
  have hm : BankContents.mapped m.driver = some offset := h.shows
  have hf : InTurn (.held bytes (some offset)) { m with onUnmap := m.onUnmap.next.2 } :=
    ⟨h.replay, h.shows⟩
  have hp := hf.perform .unmap "unmap" m.onUnmap.next.1 rfl rfl
    ((FaithfulBanks.ends_unmap m.driver).mono (fun _ _ ht => ht) fun _ _ ht => ht.trans hm) hm
  exact hp

theorem InTurn.free (h : InTurn (.held bytes none) m) :
    (BankSwitch.free : Op (Monitored D) Unit).Ends m
      (fun _ m' => InTurn (.ended true) m')
      (fun _ m' => InTurn (.ended false) m' ∧ m'.events = m.events.push ⟨.free, false⟩) := by
  have hm : BankContents.mapped m.driver = none := h.shows
  have hf : InTurn (.held bytes none) { m with onFree := m.onFree.next.2 } := ⟨h.replay, h.shows⟩
  have hp := hf.perform .free "free" m.onFree.next.1 rfl rfl
    ((FaithfulBanks.ends_free m.driver).mono (fun _ _ ht => ⟨ht.1.trans hm, fun _ => ht.2⟩)
      fun _ _ ht => ⟨ht.trans hm, nofun⟩) ⟨hm, nofun⟩
  exact hp.mono (fun _ _ hr => hr.1) fun _ _ hr => hr

theorem InTurn.editWindow (f : ByteArray → ByteArray) (h : InTurn (.held bytes mapped) m) :
    InTurn (.held bytes mapped) (BankSwitch.editWindow f m) :=
  ⟨h.replay, (FaithfulBanks.mapped_editWindow f m.driver).trans h.shows⟩

end Monitored

namespace PagedMemory

open Monitored (InTurn)

variable [BankSwitch D] [BankContents D]

structure Leased (blockSize blocks : Nat) (m : PagedMemory (Monitored D)) : Prop where
  isOpen : m.released = false
  blockSize_pos : 0 < blockSize
  blockSize_eq : m.blockSize = blockSize
  maxBlocks_eq : m.maxBlocks = blocks
  inTurn : InTurn (.held (superblocksNeeded blockSize blocks * superblockSize)
    (m.mapped.map (· * superblockSize))) m.driver

/-- In the end all memory is free and the window empty, unless a call that the driver has seen since
`before` failed. -/
def GivenBack (before after : Monitored D) : Prop :=
  ∃ t, InTurn t after ∧ (t = .ended true ∨
    ∃ calls, after.events = before.events ++ calls ∧ ∃ event ∈ calls, event.succeeded = false)

def NeverTaken (m : Monitored D) : Prop := InTurn .fresh m ∨ InTurn .refused m

variable {blockSize blocks : Nat} {m : PagedMemory (Monitored D)}

omit [BankSwitch D] in
theorem Leased.withDriver {driver : Monitored D} (mapped : Option Nat) (remaps : Nat)
    (h : Leased blockSize blocks m)
    (hf : InTurn (.held (superblocksNeeded blockSize blocks * superblockSize)
      (mapped.map (· * superblockSize))) driver) :
    Leased blockSize blocks { m with driver, mapped, remaps } :=
  ⟨h.isOpen, h.blockSize_pos, h.blockSize_eq, h.maxBlocks_eq, hf⟩

variable [FaithfulBanks D]

theorem Leased.enter {superblock : Nat} (h : Leased blockSize blocks m) (hm : m.mapped = none)
    (hs : superblock < superblocksNeeded blockSize blocks) :
    Leased blockSize blocks (mapSuperblock superblock m).2 := by
  have hf := h.inTurn
  rw [hm] at hf
  have hfit : superblock * superblockSize + superblockSize ≤
      superblocksNeeded blockSize blocks * superblockSize := by
    rw [← Nat.succ_mul]
    exact Nat.mul_le_mul_right superblockSize hs
  rcases (hf.map (Nat.dvd_mul_left _ _) hfit).cases with ⟨_, driver, he, hf⟩ | ⟨e, driver, he, hf⟩
  · simp only [mapSuperblock, hm, he]
    exact h.withDriver (some superblock) (m.remaps + 1) hf
  · simp only [mapSuperblock, hm, he]
    exact h.withDriver none m.remaps hf

theorem Leased.mapSuperblock {superblock : Nat} (h : Leased blockSize blocks m)
    (hs : superblock < superblocksNeeded blockSize blocks) :
    Leased blockSize blocks (mapSuperblock superblock m).2 := by
  cases hm : m.mapped with
  | none => exact h.enter hm hs
  | some current =>
    by_cases hc : current = superblock
    · simp only [PagedMemory.mapSuperblock, hm, if_pos hc]
      exact h
    · have hf := h.inTurn
      rw [hm] at hf
      rcases hf.unmap.cases with ⟨_, driver, hu, hf, -⟩ | ⟨e, driver, hu, hf, -⟩
      · have hop : PagedMemory.mapSuperblock superblock m =
            PagedMemory.mapSuperblock superblock { m with driver, mapped := none } := by
          simp only [PagedMemory.mapSuperblock, hm, if_neg hc, hu]
        rw [hop]
        exact (h.withDriver none m.remaps hf).enter rfl hs
      · simp only [PagedMemory.mapSuperblock, hm, if_neg hc, hu]
        exact h.withDriver (some current) m.remaps hf

theorem Leased.locate {block : Nat} (h : Leased blockSize blocks m) (hb : block < m.maxBlocks) :
    Leased blockSize blocks (locate block m).2 := by
  have hs : block * m.blockSize / superblockSize < superblocksNeeded blockSize blocks := by
    rw [h.blockSize_eq]
    exact superblock_lt h.blockSize_pos (h.maxBlocks_eq ▸ hb)
  have hl := h.mapSuperblock hs
  rcases he : PagedMemory.mapSuperblock (block * m.blockSize / superblockSize) m with ⟨_ | _, t⟩
  · rw [he] at hl
    simp only [PagedMemory.locate, he]
    exact hl
  · rw [he] at hl
    simp only [PagedMemory.locate, he]
    exact hl

theorem Leased.editWindow (f : ByteArray → ByteArray) (h : Leased blockSize blocks m) :
    Leased blockSize blocks { m with driver := BankSwitch.editWindow f m.driver } :=
  h.withDriver _ m.remaps (h.inTurn.editWindow f)

theorem Leased.read (block offset length : Nat) (h : Leased blockSize blocks m) :
    Leased blockSize blocks (PagedMemory.read block offset length m).2 := by
  rcases BlockDevice.checkAccess_cases block m.maxBlocks m.blockSize offset length with
    ⟨hc, hb, -⟩ | ⟨e, hc, -⟩
  · have hl := h.locate hb
    rcases he : PagedMemory.locate block m with ⟨_ | start, t⟩
    · rw [he] at hl
      simp only [PagedMemory.read, hc, he]
      exact hl
    · rw [he] at hl
      simp only [PagedMemory.read, hc, he]
      exact hl
  · simp only [PagedMemory.read, hc]
    exact h

theorem Leased.write (block offset : Nat) (data : ByteArray) (h : Leased blockSize blocks m) :
    Leased blockSize blocks (PagedMemory.write block offset data m).2 := by
  rcases BlockDevice.checkAccess_cases block m.maxBlocks m.blockSize offset data.size with
    ⟨hc, hb, -⟩ | ⟨e, hc, -⟩
  · have hl := h.locate hb
    rcases he : PagedMemory.locate block m with ⟨_ | start, t⟩
    · rw [he] at hl
      simp only [PagedMemory.write, hc, he]
      exact hl
    · rw [he] at hl
      simp only [PagedMemory.write, hc, he]
      exact hl.editWindow (Bytes.patch · (start + offset) data)
  · simp only [PagedMemory.write, hc]
    exact h

theorem Leased.clearSuperblocks (n first : Nat) (h : Leased blockSize blocks m)
    (hn : first + n ≤ superblocksNeeded blockSize blocks) :
    Leased blockSize blocks (clearSuperblocks n first m).2 := by
  induction n generalizing first m with
  | zero => exact h
  | succ n ih =>
    have hl := h.mapSuperblock (show first < superblocksNeeded blockSize blocks by omega)
    rcases he : PagedMemory.mapSuperblock first m with ⟨e | _, t⟩
    · rw [he] at hl
      rw [PagedMemory.clearSuperblocks, Op.bind_apply_error he]
      exact hl
    · rw [he] at hl
      rw [PagedMemory.clearSuperblocks, Op.bind_apply_ok he]
      exact ih (first + 1) (hl.editWindow fun w => Bytes.zeros w.size) (by omega)

theorem Leased.perform (call : BlockCall) (h : Leased blockSize blocks m) :
    Leased blockSize blocks (call.perform m).2 := by
  cases call with
  | read block offset length => exact h.read block offset length
  | write block offset data =>
    have hl := h.write block offset data
    rcases he : PagedMemory.write block offset data m with ⟨e | moved, t⟩
    · rw [he] at hl
      have hop : (BlockCall.write block offset data).perform m = (.error e, t) :=
        Op.bind_apply_error he
      rwa [hop]
    · rw [he] at hl
      have hop :
          (BlockCall.write block offset data).perform m = (.ok (moved, ByteArray.empty), t) :=
        Op.bind_apply_ok he
      rwa [hop]

theorem Leased.release (h : Leased blockSize blocks m) :
    GivenBack m.driver (release m).2.driver := by
  have hf := h.inTurn
  cases hm : m.mapped with
  | none =>
    rw [hm] at hf
    rcases hf.free.cases with ⟨_, driver, he, hf⟩ | ⟨e, driver, he, hf, hfree⟩
    · simp only [PagedMemory.release, h.isOpen, hm, he, Bool.false_eq_true, if_false]
      exact ⟨_, hf, .inl rfl⟩
    · simp only [PagedMemory.release, h.isOpen, hm, he, Bool.false_eq_true, if_false]
      exact ⟨_, hf, .inr ⟨#[⟨.free, false⟩], hfree, _, Array.mem_singleton.mpr rfl, rfl⟩⟩
  | some current =>
    rw [hm] at hf
    rcases hf.unmap.cases with ⟨_, driver, hu, hf, hunmap⟩ | ⟨e, driver, hu, hf, hunmap⟩
    · rcases hf.free.cases with ⟨_, driver', he, hf⟩ | ⟨e, driver', he, hf, hfree⟩
      · simp only [PagedMemory.release, h.isOpen, hm, hu, he, Bool.false_eq_true, if_false]
        exact ⟨_, hf, .inl rfl⟩
      · rw [hunmap] at hfree
        simp only [PagedMemory.release, h.isOpen, hm, hu, he, Bool.false_eq_true, if_false]
        exact ⟨_, hf, .inr ⟨#[⟨.unmap, true⟩, ⟨.free, false⟩], hfree, _,
          List.mem_toArray.mpr (List.mem_cons_of_mem _ List.mem_cons_self), rfl⟩⟩
    -- memory that stays mapped is not freed
    · simp only [PagedMemory.release, h.isOpen, hm, hu, Bool.false_eq_true, if_false]
      exact ⟨_, hf, .inr ⟨#[⟨.unmap, false⟩], hunmap, _, Array.mem_singleton.mpr rfl, rfl⟩⟩

omit [BankContents D] [FaithfulBanks D] in
theorem released_release (m : PagedMemory (Monitored D)) : (release m).2.released = true := by
  cases hr : m.released with
  | true =>
    simp only [release, hr, if_true]
  | false =>
    cases hm : m.mapped with
    | none =>
      simp only [release, hr, hm, Bool.false_eq_true, if_false]
      rfl
    | some current =>
      rcases hu : (BankSwitch.unmap : Op (Monitored D) Unit) m.driver with ⟨_ | _, driver⟩
      · simp only [release, hr, hm, hu, Bool.false_eq_true, if_false]
      · simp only [release, hr, hm, hu, Bool.false_eq_true, if_false]
        rfl

omit [BankContents D] [FaithfulBanks D] in
theorem release_again (m : PagedMemory (Monitored D)) :
    release (release m).2 = (.ok (), (release m).2) := by
  rw [release, if_pos (released_release m)]

section Init

variable {p q : PagedProvider (Monitored D)} {e : Error}

structure Unused (m : Monitored D) : Prop where
  events : m.events = #[]
  mapped : BankContents.mapped m.driver = none

omit [BankSwitch D] [FaithfulBanks D] in
theorem Unused.inTurn {m : Monitored D} (h : Unused m) : InTurn .fresh m :=
  ⟨by rw [h.events]; rfl, h.mapped⟩

theorem Leased.of_alloc {driver : Monitored D} (hp : Unused p.driver)
    (hsize : checkBlockSize blockSize = .ok ())
    (ha : BankSwitch.alloc (superblocksNeeded blockSize blocks * superblockSize) p.driver =
      (.ok (), driver)) :
    Leased blockSize blocks { driver, blockSize, maxBlocks := blocks } :=
  ⟨rfl, (checkBlockSize_eq_ok hsize).1, rfl, rfl, (hp.inTurn.alloc _).ok_of_eq ha⟩

theorem leased_of_init (hp : Unused p.driver) (h : p.init blockSize blocks = .ok m) :
    Leased blockSize blocks m := by
  obtain ⟨hsize, -, driver, ha, hc⟩ := init_eq_ok h
  have hl := (Leased.of_alloc hp hsize ha).clearSuperblocks (superblocksNeeded blockSize blocks) 0
    (Nat.le_of_eq (Nat.zero_add _))
  rwa [hc] at hl

def ClearingFailed (p : PagedProvider (Monitored D)) (blockSize blocks : Nat) (e : Error)
    (m : PagedMemory (Monitored D)) : Prop :=
  ∃ driver, BankSwitch.alloc (superblocksNeeded blockSize blocks * superblockSize) p.driver =
      (.ok (), driver) ∧
    clearSuperblocks (superblocksNeeded blockSize blocks) 0
      { driver, blockSize, maxBlocks := blocks } =
      (.error e, m)

def Refused (p : PagedProvider (Monitored D)) (blockSize blocks : Nat) (e : Error)
    (q : PagedProvider (Monitored D)) : Prop :=
  NeverTaken q.driver ∨ ∃ m, ClearingFailed p blockSize blocks e m ∧ Leased blockSize blocks m ∧
    GivenBack m.driver q.driver

theorem refused_of_init (hp : Unused p.driver) (h : p.init blockSize blocks = .error (e, q)) :
    Refused p blockSize blocks e q := by
  -- a variable, as in `init_eq_ok`
  obtain ⟨superblocks, hn⟩ : ∃ superblocks, superblocksNeeded blockSize blocks = superblocks :=
    ⟨_, rfl⟩
  rw [PagedProvider.init, hn] at h
  -- three checks stand before the first call
  split at h
  · cases h
    exact .inl (.inl hp.inTurn)
  · split at h
    · cases h
      exact .inl (.inl hp.inTurn)
    · split at h
      · cases h
        exact .inl (.inl hp.inTurn)
      · simp only at h
        split at h
        · cases h
          exact .inl (.inr ((hp.inTurn.alloc _).error_of_eq ‹_›))
        · split at h
          · cases h
          · rename_i driver ha _ e m hc
            cases h
            subst hn
            have hl := (Leased.of_alloc hp ‹_› ha).clearSuperblocks
              (superblocksNeeded blockSize blocks) 0 (Nat.le_of_eq (Nat.zero_add _))
            rw [hc] at hl
            exact .inr ⟨m, ⟨driver, ha, hc⟩, hl, hl.release⟩

end Init

end PagedMemory

end TieredMemory
