import TieredMemory.Proofs.Block.Replay

namespace TieredMemory

namespace BankLog

def since (seen log : BankLog) : List BankEvent := (log.extract seen.size).toList

theorem since_self (log : BankLog) : since log log = [] := by
  simp [since]

theorem since_append (log : BankLog) (fresh : List BankEvent) :
    since log (log ++ fresh.toArray) = fresh := by
  simp [since]

end BankLog

def succeeded (calls : List BankCall) : List BankEvent := calls.map fun call => ⟨call, true⟩

theorem succeeded_of_mem {calls : List BankCall} {event : BankEvent} (h : event ∈ succeeded calls) :
    event.succeeded = true := by
  obtain ⟨call, -, rfl⟩ := List.mem_map.mp h
  rfl

theorem succeeded_append (calls calls' : List BankCall) :
    succeeded (calls ++ calls') = succeeded calls ++ succeeded calls' :=
  List.map_append

namespace Monitored

variable {D : Type} [BankSwitch D] {m : Monitored D}

def Called (calls : List BankCall) (m t : Monitored D) : Prop :=
  t.events = m.events ++ (succeeded calls).toArray

def Failed (m t : Monitored D) : Prop :=
  ∃ fresh : List BankEvent, t.events = m.events ++ fresh.toArray ∧
    ∃ event ∈ fresh, event.succeeded = false

omit [BankSwitch D] in
theorem Called.trans {calls calls' : List BankCall} {t u : Monitored D} (h : Called calls m t)
    (h' : Called calls' t u) : Called (calls ++ calls') m u := by
  rw [Called, h', h, succeeded_append, Array.append_assoc,
    List.append_toArray (succeeded calls) (succeeded calls')]

omit [BankSwitch D] in
theorem Called.failed {calls : List BankCall} {t u : Monitored D} (h : Called calls m t)
    (h' : Failed t u) : Failed m u := by
  obtain ⟨fresh, hu, event, hmem, hf⟩ := h'
  refine ⟨succeeded calls ++ fresh, ?_, event, List.mem_append_right _ hmem, hf⟩
  rw [hu, h, Array.append_assoc, List.append_toArray (succeeded calls) fresh]

omit [BankSwitch D] in
theorem Called.since {calls : List BankCall} {t : Monitored D} (h : Called calls m t) :
    BankLog.since m.events t.events = succeeded calls := by
  rw [h, BankLog.since_append]

omit [BankSwitch D] in
theorem Failed.since {t : Monitored D} (h : Failed m t) :
    ∃ event ∈ BankLog.since m.events t.events, event.succeeded = false := by
  obtain ⟨fresh, ht, h⟩ := h
  rwa [ht, BankLog.since_append]

theorem ends_perform_called (call : BankCall) (name : String) (fails : Bool) (op : Op D Unit)
    (m : Monitored D) :
    (perform call name fails op).Ends m (fun _ t => Called [call] m t) (fun _ t => Failed m t) :=
  ends_perform (fun _ => ⟨[⟨call, false⟩], Array.push_eq_append, _, List.mem_singleton_self _, rfl⟩)
    (fun _ _ => Array.push_eq_append)
    fun _ _ _ => ⟨[⟨call, false⟩], Array.push_eq_append, _, List.mem_singleton_self _, rfl⟩

theorem ends_alloc_called (bytes : Nat) (m : Monitored D) :
    (BankSwitch.alloc bytes).Ends m (fun _ t => Called [.alloc bytes] m t)
    (fun _ t => Failed m t) :=
  ends_perform_called (.alloc bytes) "alloc" m.onAlloc.next.1 (BankSwitch.alloc bytes)
    { m with onAlloc := m.onAlloc.next.2 }

theorem ends_map_called (offset : Nat) (m : Monitored D) :
    (BankSwitch.map offset).Ends m (fun _ t => Called [.map offset] m t) (fun _ t => Failed m t) :=
  ends_perform_called (.map offset) "map" m.onMap.next.1 (BankSwitch.map offset)
    { m with onMap := m.onMap.next.2 }

theorem ends_unmap_called (m : Monitored D) :
    (BankSwitch.unmap : Op (Monitored D) Unit).Ends m (fun _ t => Called [.unmap] m t)
      (fun _ t => Failed m t) :=
  ends_perform_called .unmap "unmap" m.onUnmap.next.1 BankSwitch.unmap
    { m with onUnmap := m.onUnmap.next.2 }

end Monitored

namespace BlockCall

def Fits (blockSize blocks : Nat) (call : BlockCall) : Prop :=
  call.block < blocks ∧ call.offset + call.length ≤ blockSize

instance (blockSize blocks : Nat) (call : BlockCall) : Decidable (call.Fits blockSize blocks) :=
  inferInstanceAs (Decidable (_ ∧ _))

def superblock (blockSize : Nat) (call : BlockCall) : Nat := call.block * blockSize / superblockSize

def visited (blockSize blocks : Nat) (calls : List BlockCall) : List Nat :=
  (calls.filter fun call => decide (call.Fits blockSize blocks)).map (superblock blockSize)

variable {blockSize blocks : Nat} {call : BlockCall}

theorem visited_cons_of_fits (h : call.Fits blockSize blocks) (calls : List BlockCall) :
    visited blockSize blocks (call :: calls) =
      call.superblock blockSize :: visited blockSize blocks calls := by
  rw [visited, List.filter_cons_of_pos (by simpa using h), List.map_cons, visited]

theorem visited_cons_of_not_fits (h : ¬ call.Fits blockSize blocks) (calls : List BlockCall) :
    visited blockSize blocks (call :: calls) = visited blockSize blocks calls := by
  rw [visited, List.filter_cons_of_neg (by simpa using h), visited]

theorem visited_zero (blockSize : Nat) (calls : List BlockCall) :
    visited blockSize 0 calls = [] := by
  induction calls with
  | nil => rfl
  | cons call calls ih =>
    rw [visited_cons_of_not_fits fun h => Nat.not_lt_zero _ h.1, ih]

end BlockCall

namespace PagedMemory

section Walks

def switch (mapped : Option Nat) (superblock : Nat) : List BankCall :=
  match mapped with
  | none => [.map (superblock * superblockSize)]
  | some current =>
    if current = superblock then [] else [.unmap, .map (superblock * superblockSize)]

def switches : (mapped : Option Nat) → (walk : List Nat) → List BankCall
  | _, [] => []
  | mapped, superblock :: walk => switch mapped superblock ++ switches (some superblock) walk

def crossings : (mapped : Option Nat) → (walk : List Nat) → Nat
  | _, [] => 0
  | mapped, superblock :: walk =>
    (if mapped = some superblock then 0 else 1) + crossings (some superblock) walk

theorem crossings_range' (n first : Nat) {mapped : Option Nat} (h : mapped ≠ some first) :
    crossings mapped (List.range' first n) = n := by
  induction n generalizing first mapped with
  | zero => rfl
  | succ n ih =>
    rw [List.range'_succ, crossings, if_neg h, ih _ (by simp), Nat.add_comm]

end Walks

variable {D : Type} [BankSwitch D] {m t u : PagedMemory (Monitored D)}

section Switching

structure Walked (walk : List Nat) (m t : PagedMemory (Monitored D)) : Prop where
  mapped : t.mapped = walk.getLast?.or m.mapped
  remaps : t.remaps = m.remaps + crossings m.mapped walk
  blockSize : t.blockSize = m.blockSize
  maxBlocks : t.maxBlocks = m.maxBlocks
  called : m.driver.Called (switches m.mapped walk) t.driver

omit [BankSwitch D] in
theorem Walked.nil (m : PagedMemory (Monitored D)) : Walked [] m m :=
  ⟨rfl, rfl, rfl, rfl, by simp [Monitored.Called, switches, succeeded]⟩

omit [BankSwitch D] in
theorem Walked.cons {superblock : Nat} {walk : List Nat} (h : Walked [superblock] m t)
    (h' : Walked walk t u) : Walked (superblock :: walk) m u := by
  have hm : t.mapped = some superblock := h.mapped
  refine ⟨?_, ?_, h'.blockSize.trans h.blockSize, h'.maxBlocks.trans h.maxBlocks, ?_⟩
  · rw [h'.mapped, hm, List.getLast?_cons]
    cases walk.getLast? <;> rfl
  · rw [h'.remaps, h.remaps, hm, crossings, crossings, crossings, Nat.add_zero, Nat.add_assoc]
  · have hcalls := h'.called
    rw [hm] at hcalls
    have := h.called.trans hcalls
    rwa [switches, switches, List.append_nil] at this

theorem Walked.edit {walk : List Nat} (h : Walked walk m t) (f : ByteArray → ByteArray) :
    Walked walk m { t with driver := BankSwitch.editWindow f t.driver } :=
  ⟨h.mapped, h.remaps, h.blockSize, h.maxBlocks, h.called⟩

theorem ends_enter_walked (superblock : Nat) (hm : m.mapped = none) :
    (mapSuperblock superblock).Ends m (fun _ t => Walked [superblock] m t)
      (fun _ t => m.driver.Failed t.driver) := by
  rcases (Monitored.ends_map_called (superblock * superblockSize) m.driver).cases with
    ⟨_, driver, he, hc⟩ | ⟨e, driver, he, hf⟩
  · refine .of_ok (a := ())
      (t := { m with driver, mapped := some superblock, remaps := m.remaps + 1 }) ?_
      ⟨rfl, ?_, rfl, rfl, ?_⟩
    · simp only [mapSuperblock, hm, he]
    · rw [hm]
      rfl
    · rw [hm]
      exact hc
  · exact .of_error (by simp only [mapSuperblock, hm, he]; rfl) hf

theorem ends_mapSuperblock_walked (superblock : Nat) (m : PagedMemory (Monitored D)) :
    (mapSuperblock superblock).Ends m (fun _ t => Walked [superblock] m t)
      (fun _ t => m.driver.Failed t.driver) := by
  cases hm : m.mapped with
  | none => exact ends_enter_walked superblock hm
  | some current =>
    by_cases hc : current = superblock
    · subst hc
      refine .of_ok (a := ()) (t := m) (by simp only [mapSuperblock, hm, if_true])
        ⟨hm, ?_, rfl, rfl, ?_⟩
      · rw [hm, crossings, crossings, if_pos rfl, Nat.add_zero]
      · rw [hm, switches, switches, switch, if_pos rfl]
        exact (Walked.nil m).called
    · rcases (Monitored.ends_unmap_called m.driver).cases with
        ⟨_, driver, he, hu⟩ | ⟨e, driver, he, hf⟩
      · have hop : mapSuperblock superblock m =
            mapSuperblock superblock { m with driver, mapped := none } := by
          simp only [mapSuperblock, hm, if_neg hc, he]
        rw [Op.Ends, hop]
        refine (ends_enter_walked superblock rfl).mono (fun _ t ht => ?_) fun _ t hf => hu.failed hf
        refine ⟨ht.mapped, ht.remaps.trans ?_, ht.blockSize, ht.maxBlocks, ?_⟩
        · rw [hm, crossings, crossings, crossings, if_neg (by simp),
            if_neg fun h => hc (Option.some.inj h)]
          rfl
        · have hcalls := hu.trans ht.called
          rw [hm, switches, switches, switch, if_neg hc]
          exact hcalls
      · exact .of_error (by simp only [mapSuperblock, hm, if_neg hc, he]; rfl) hf

theorem ends_locate_walked (block : Nat) (m : PagedMemory (Monitored D)) :
    (locate block).Ends m (fun _ t => Walked [block * m.blockSize / superblockSize] m t)
      (fun _ t => m.driver.Failed t.driver) := by
  rcases (ends_mapSuperblock_walked (block * m.blockSize / superblockSize) m).cases with
    ⟨_, t, he, ht⟩ | ⟨e, t, he, hf⟩
  · exact .of_ok (by simp only [locate, he]; rfl) ht
  · exact .of_error (by simp only [locate, he]; rfl) hf

theorem ends_clearSuperblocks_walked (n first : Nat) (m : PagedMemory (Monitored D)) :
    (clearSuperblocks n first).Ends m (fun _ t => Walked (List.range' first n) m t)
      (fun _ t => m.driver.Failed t.driver) := by
  induction n generalizing first m with
  | zero => exact Op.ends_pure (.nil m)
  | succ n ih =>
    rw [clearSuperblocks]
    refine (ends_mapSuperblock_walked first m).bind (fun _ t ht => ?_) fun _ _ hf => hf
    refine (ih (first + 1) _).mono (fun _ u hu => ?_) fun _ u hf => ?_
    · exact (ht.edit fun w => Bytes.zeros w.size).cons hu
    · exact ht.called.failed hf

end Switching

section Runs

def driverCalls (s : BlockStep (PagedMemory (Monitored D))) : List BankEvent :=
  BankLog.since s.before.driver.events s.after.driver.events

structure Maps (blockSize blocks : Nat) (s : BlockStep (PagedMemory (Monitored D))) : Prop where
  accepted : s.call.Fits blockSize blocks →
    (∃ a, s.answer = .ok a) ∧ s.after.mapped = some (s.call.superblock blockSize) ∧
      driverCalls s = succeeded (switch s.before.mapped (s.call.superblock blockSize))
  rejected : ¬ s.call.Fits blockSize blocks →
    (∃ e, BlockDevice.checkAccess s.call.block blocks blockSize s.call.offset s.call.length =
      .error e ∧ s.answer = .error e) ∧ s.after = s.before ∧ driverCalls s = []

variable {call : BlockCall} {answer : Except Error (Nat × ByteArray)}

theorem check_eq_ok_iff : call.check m = .ok () ↔ call.Fits m.blockSize m.maxBlocks :=
  BlockDevice.checkAccess_eq_ok_iff

theorem walked_of_fits (hf : call.Fits m.blockSize m.maxBlocks)
    (he : call.perform m = (answer, t))
    (hok : ∀ event ∈ BankLog.since m.driver.events t.driver.events, event.succeeded = true) :
    (∃ a, answer = .ok a) ∧ Walked [call.superblock m.blockSize] m t := by
  have h : call.perform.Ends m (fun _ t => Walked [call.superblock m.blockSize] m t)
      (fun _ t => m.driver.Failed t.driver) :=
    ends_perform_of_locate (check_eq_ok_iff.mpr hf) (ends_locate_walked call.block m)
      fun f t ht => ht.edit f
  rcases answer with e | a
  · obtain ⟨event, hmem, hfail⟩ := (h.error_of_eq he).since
    rw [hok event hmem] at hfail
    cases hfail
  · exact ⟨⟨a, rfl⟩, h.ok_of_eq he⟩

theorem rejected_of_not_fits (hf : ¬ call.Fits m.blockSize m.maxBlocks)
    (he : call.perform m = (answer, t)) :
    (∃ e, call.check m = .error e ∧ answer = .error e) ∧ t = m := by
  rcases hc : call.check m with e | _
  · rw [perform_of_check hc] at he
    cases he
    exact ⟨⟨e, rfl, rfl⟩, rfl⟩
  · exact absurd (check_eq_ok_iff.mp hc) hf

theorem maps_step (he : call.perform m = (answer, t))
    (hok : ∀ event ∈ BankLog.since m.driver.events t.driver.events, event.succeeded = true) :
    Maps m.blockSize m.maxBlocks ⟨call, answer, m, t⟩ where
  accepted hf := by
    obtain ⟨ha, hw⟩ := walked_of_fits hf he hok
    refine ⟨ha, hw.mapped, hw.called.since.trans ?_⟩
    rw [switches, switches, List.append_nil]
  rejected hf := by
    obtain ⟨ha, rfl⟩ := rejected_of_not_fits hf he
    exact ⟨ha, rfl, BankLog.since_self _⟩

theorem walked_of_runs {steps : List (BlockStep (PagedMemory (Monitored D)))}
    (h : Op.Runs BlockCall.perform m steps t)
    (hok : ∀ s ∈ steps, ∀ event ∈ driverCalls s, event.succeeded = true) :
    Walked (BlockCall.visited m.blockSize m.maxBlocks (steps.map (·.call))) m t ∧
      ∀ s ∈ steps, Maps m.blockSize m.maxBlocks s := by
  induction h with
  | nil m => exact ⟨.nil m, fun _ hs => absurd hs List.not_mem_nil⟩
  | @cons m t u call answer steps he _ ih =>
    obtain ⟨hfirst, hrest⟩ := List.forall_mem_cons.mp hok
    obtain ⟨hw, hmaps⟩ := ih hrest
    have hstep := maps_step he hfirst
    by_cases hf : call.Fits m.blockSize m.maxBlocks
    · obtain ⟨-, ht⟩ := walked_of_fits hf he hfirst
      rw [ht.blockSize, ht.maxBlocks] at hw hmaps
      refine ⟨?_, List.forall_mem_cons.mpr ⟨hstep, hmaps⟩⟩
      rw [List.map_cons, BlockCall.visited_cons_of_fits hf]
      exact ht.cons hw
    · obtain ⟨-, rfl⟩ := rejected_of_not_fits hf he
      refine ⟨?_, List.forall_mem_cons.mpr ⟨hstep, hmaps⟩⟩
      rwa [List.map_cons, BlockCall.visited_cons_of_not_fits hf]

end Runs

section SettingUp

variable {p : PagedProvider (Monitored D)} {blockSize blocks : Nat}

theorem walked_of_init (h : p.init blockSize blocks = .ok m) :
    m.blockSize = blockSize ∧ m.maxBlocks = blocks ∧
      m.remaps = superblocksNeeded blockSize blocks ∧
      m.mapped = (List.range (superblocksNeeded blockSize blocks)).getLast? ∧
      p.driver.Called (.alloc (superblocksNeeded blockSize blocks * superblockSize) ::
        switches none (List.range (superblocksNeeded blockSize blocks))) m.driver := by
  obtain ⟨-, -, driver, ha, hc⟩ := init_eq_ok h
  generalize superblocksNeeded blockSize blocks = n at ha hc ⊢
  have hw := (ends_clearSuperblocks_walked n 0
    { driver, blockSize, maxBlocks := blocks }).ok_of_eq hc
  have hrange : List.range n = List.range' 0 n := List.range_eq_range'
  refine ⟨hw.blockSize, hw.maxBlocks, ?_, ?_, ?_⟩
  · rw [hw.remaps, crossings_range' n 0 (by simp), Nat.zero_add]
  · rw [hw.mapped, hrange]
    exact Option.or_none
  · rw [hrange]
    exact ((Monitored.ends_alloc_called _ p.driver).ok_of_eq ha).trans hw.called

theorem block_ends_in_superblock (hd : blockSize ∣ superblockSize) (block : Nat) :
    (block + 1) * blockSize ≤ (block * blockSize / superblockSize + 1) * superblockSize := by
  have hin := block_in_superblock hd block
  have hdiv := Nat.div_add_mod' (block * blockSize) superblockSize
  rw [Nat.succ_mul, Nat.succ_mul]
  omega

theorem crossings_of_init (hpos : 0 < blockSize) (calls : List BlockCall) :
    crossings (List.range (superblocksNeeded blockSize blocks)).getLast?
        (BlockCall.visited blockSize blocks calls) =
      crossings (some (superblocksNeeded blockSize blocks - 1))
        (BlockCall.visited blockSize blocks calls) := by
  rcases Nat.eq_zero_or_pos blocks with rfl | hb
  · rw [BlockCall.visited_zero]
    rfl
  · rw [List.getLast?_range, if_neg (Nat.ne_of_gt (superblocksNeeded_pos hpos hb))]

end SettingUp

/-- Remaps count the superblocks that setting up maps and the crossings after that. -/
theorem remaps_eq_crossings {p : PagedProvider (Monitored D)} {blockSize blocks : Nat}
    (h : p.init blockSize blocks = .ok m) :
    BankLog.since p.driver.events m.driver.events =
        succeeded (.alloc (superblocksNeeded blockSize blocks * superblockSize) ::
          switches none (List.range (superblocksNeeded blockSize blocks))) ∧
      (∀ block < blocks, ∃ superblock < superblocksNeeded blockSize blocks,
        superblock = block * blockSize / superblockSize ∧
        superblock * superblockSize ≤ block * blockSize ∧
        (block + 1) * blockSize ≤ (superblock + 1) * superblockSize) ∧
      ∀ calls : List BlockCall,
        (∀ s ∈ Op.history BlockCall.perform calls m, ∀ event ∈ driverCalls s,
          event.succeeded = true) →
        (calls.foldl (fun m call => (call.perform m).2) m).remaps =
            superblocksNeeded blockSize blocks +
              crossings (some (superblocksNeeded blockSize blocks - 1))
                (BlockCall.visited blockSize blocks calls) ∧
          ∀ s ∈ Op.history BlockCall.perform calls m, Maps blockSize blocks s := by
  obtain ⟨hpos, hdvd⟩ := checkBlockSize_eq_ok (init_eq_ok h).1
  obtain ⟨hbs, hmb, hremaps, hmapped, hcalled⟩ := walked_of_init h
  refine ⟨hcalled.since, fun block hb => ?_, fun calls hok => ?_⟩
  · exact ⟨_, superblock_lt hpos hb, rfl, Nat.div_mul_le_self _ _,
      block_ends_in_superblock hdvd block⟩
  · obtain ⟨hw, hmaps⟩ := walked_of_runs (Op.runs_history _ calls m) hok
    rw [hbs, hmb] at hw hmaps
    refine ⟨?_, hmaps⟩
    rw [hw.remaps, hremaps, hmapped, Op.map_call_history, crossings_of_init hpos]

theorem succeeded_of_sure [BankContents D] [LawfulBankSwitch D] (hv : LawfulDevice.Valid True m)
    (calls : List BlockCall) :
    ∀ s ∈ Op.history BlockCall.perform calls m, ∀ event ∈ driverCalls s,
      event.succeeded = true := by
  refine Op.forall_mem_history (P := LawfulDevice.Valid True)
    (Q := fun s => ∀ event ∈ driverCalls s, event.succeeded = true)
    (fun call m hv => ⟨valid_perform hv call, ?_⟩) calls hv
  by_cases hf : call.Fits m.blockSize m.maxBlocks
  · have hw := ends_perform_of_locate (check_eq_ok_iff.mpr hf) (ends_locate_walked call.block m)
      fun f t ht => ht.edit f
    rcases ((ends_perform_sure hv hf).and hw).cases with ⟨a, t, he, -, hw⟩ | ⟨_, _, -, hn, -⟩
    · simp only [driverCalls, he, hw.called.since]
      exact fun event => succeeded_of_mem
    · exact hn.elim
  · rcases he : call.perform m with ⟨answer, t⟩
    obtain rfl := (rejected_of_not_fits hf he).2
    simp only [driverCalls, BankLog.since_self]
    exact fun event hmem => absurd hmem List.not_mem_nil

def quietBanks : PagedProvider (Monitored SimulatedBanks) :=
  ⟨{ driver := { physicalSize := 65536, reservedSize := 65536 } }⟩

def wanderings : List BlockCall :=
  [.read 0 0 1, .read 7 4095 1, .read 16 0 1, .write 8 0 ByteArray.empty, .read 0 4096 1,
    .read 15 0 4096]

theorem remaps_eq_crossings_quiet :
    ∃ m, quietBanks.init 4096 16 = .ok m ∧ m.remaps = 2 ∧
      (wanderings.foldl (fun m call => (call.perform m).2) m).remaps = 4 := by
  obtain ⟨m, h⟩ : ∃ m, quietBanks.init 4096 16 = .ok m :=
    init_of_spares rfl (by decide) (by decide) rfl rfl ⟨by decide, by decide⟩
  have hnever : ({} : Faults).Never := fun _ => rfl
  have hready : LawfulBankSwitch.Ready True quietBanks.driver :=
    ⟨trivial, fun _ => ⟨hnever, hnever, hnever, hnever⟩⟩
  have hv := (valid_of_init hready (fun _ => by decide) h).1
  obtain ⟨-, -, hrun⟩ := remaps_eq_crossings h
  exact ⟨m, h, (hrun [] (succeeded_of_sure hv [])).1,
    (hrun wanderings (succeeded_of_sure hv wanderings)).1⟩

end PagedMemory

end TieredMemory
