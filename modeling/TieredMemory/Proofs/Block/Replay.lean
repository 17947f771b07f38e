import TieredMemory.Proofs.Block.Paged
import TieredMemory.Proofs.History

namespace TieredMemory

inductive BlockCall where
  | read (block offset length : Nat)
  | write (block offset : Nat) (data : ByteArray)

namespace BlockCall

variable {D : Type} [BlockDevice D]

def block : BlockCall → Nat
  | read block _ _ => block
  | write block _ _ => block

def offset : BlockCall → Nat
  | read _ offset _ => offset
  | write _ offset _ => offset

def length : BlockCall → Nat
  | read _ _ length => length
  | write _ _ data => data.size

def perform : BlockCall → Op D (Nat × ByteArray)
  | read block offset length => BlockDevice.read block offset length
  | write block offset data => do
    let moved ← BlockDevice.write block offset data
    return (moved, ByteArray.empty)

def check (call : BlockCall) (d : D) : Except Error Unit :=
  BlockDevice.checkAccess call.block (BlockDevice.maxBlocks d) (BlockDevice.blockSize d) call.offset
    call.length

theorem inBlock_of_check {call : BlockCall} {d : D} (h : call.check d = .ok ()) :
    BlockDevice.InBlock d call.block call.offset call.length :=
  BlockDevice.checkAccess_eq_ok_iff.mp h

theorem check_ne_bankSwitch (call : BlockCall) (d : D) (reason : String) :
    call.check d ≠ .error (.bankSwitch reason) := by
  unfold check BlockDevice.checkAccess
  split
  · simp
  · split
    · simp
    · split <;> simp

end BlockCall

structure SameArray {D E : Type} [BlockDevice D] [BlockContents D] [BlockDevice E] [BlockContents E]
    (d : D) (e : E) : Prop where
  blockSize : BlockDevice.blockSize e = BlockDevice.blockSize d
  maxBlocks : BlockDevice.maxBlocks e = BlockDevice.maxBlocks d
  bytes : ∀ block < BlockDevice.maxBlocks d,
    BlockContents.byteAt e block = BlockContents.byteAt d block

section Devices

variable {D E : Type} [BlockDevice D] [BlockContents D] [BlockDevice E] [BlockContents E]
variable {d t : D} {e : E}

theorem SameArray.of_sameBlocks (h : SameArray d e) (hs : SameBlocks d t) : SameArray t e where
  blockSize := h.blockSize.trans hs.blockSize.symm
  maxBlocks := h.maxBlocks.trans hs.maxBlocks.symm
  bytes block hb := by
    rw [hs.bytes]
    exact h.bytes block (hs.maxBlocks ▸ hb)

theorem SameArray.inBlock {block offset length : Nat} (h : SameArray d e)
    (hr : BlockDevice.InBlock d block offset length) : BlockDevice.InBlock e block offset length :=
  ⟨h.maxBlocks ▸ hr.1, h.blockSize ▸ hr.2⟩

variable [LawfulDevice D] [LawfulDevice E]

theorem SameArray.perform {call : BlockCall} {a : Nat × ByteArray} {sure : Prop}
    (h : SameArray d e) (hd : LawfulDevice.Valid sure d) (he : LawfulDevice.Valid True e)
    (ha : call.perform d = (.ok a, t)) :
    ∃ u, call.perform e = (.ok a, u) ∧ LawfulDevice.Valid True u ∧ SameArray t u := by
  cases call with
  | read block offset length =>
    obtain ⟨-, hs, hr, hn, hb⟩ := (LawfulDevice.ends_read block offset length hd).ok_of_eq ha
    rcases (LawfulDevice.ends_read block offset length he).cases with
      ⟨a', u, hu, hv, hs', -, hn', hb'⟩ | ⟨_, u, -, -, -, hn'⟩
    · rw [h.bytes block hr.1] at hb'
      refine ⟨u, hu.trans ?_, hv, ?_⟩
      · rw [Prod.ext (hn'.trans hn.symm) (hb'.eq hb)]
      · have hsame := h.of_sameBlocks hs
        exact ⟨hs'.blockSize.trans hsame.blockSize, hs'.maxBlocks.trans hsame.maxBlocks,
          fun b hb => hs'.bytes ▸ hsame.bytes b hb⟩
    · exact absurd ⟨trivial, h.inBlock hr⟩ hn'
  | write block offset data =>
    rcases hw : (BlockDevice.write block offset data : Op D Nat) d with ⟨_ | moved, t'⟩
    · rw [BlockCall.perform, Op.bind_apply_error hw] at ha
      cases ha
    · rw [BlockCall.perform, Op.bind_apply_ok hw] at ha
      cases ha
      obtain ⟨-, hr, hn, hbs, hmb, hself, hrest⟩ :=
        (LawfulDevice.ends_write block offset data hd).ok_of_eq hw
      rcases (LawfulDevice.ends_write block offset data he).cases with
        ⟨moved', u, hu, hv, -, hn', hbs', hmb', hself', hrest'⟩ | ⟨_, u, -, -, -, hn'⟩
      · refine ⟨u, ?_, hv, ?_, ?_, fun b hb => ?_⟩
        · rw [BlockCall.perform, Op.bind_apply_ok hu, hn, hn']
          rfl
        · rw [hbs', h.blockSize, hbs]
        · rw [hmb', h.maxBlocks, hmb]
        · rw [hmb] at hb
          by_cases hself'' : b = block
          · rw [hself'', hself', hself, h.bytes block hr.1]
          · rw [hrest' b hself'', hrest b hself'', h.bytes b hb]
      · exact absurd ⟨trivial, h.inBlock hr⟩ hn'

theorem valid_perform {sure : Prop} (hv : LawfulDevice.Valid sure d) (call : BlockCall) :
    LawfulDevice.Valid sure (call.perform d).2 := by
  cases call with
  | read block offset length =>
    exact ((LawfulDevice.ends_read block offset length hv).mono (fun _ _ h => h.1)
      fun _ _ h => h.1).always
  | write block offset data =>
    have hw : (BlockCall.write block offset data).perform.Ends d
        (fun _ t => LawfulDevice.Valid sure t) (fun _ t => LawfulDevice.Valid sure t) :=
      (LawfulDevice.ends_write block offset data hv).bind (fun _ _ h => Op.ends_pure h.1)
        fun _ _ h => h.1
    exact hw.always

theorem ends_perform_sure {call : BlockCall} (hv : LawfulDevice.Valid True d)
    (hr : BlockDevice.InBlock d call.block call.offset call.length) :
    call.perform.Ends d (fun _ _ => True) (fun _ _ => False) := by
  cases call with
  | read block offset length =>
    exact (LawfulDevice.ends_read block offset length hv).mono (fun _ _ _ => trivial)
      fun _ _ h => h.2.2 ⟨trivial, hr⟩
  | write block offset data =>
    have hw : (BlockCall.write block offset data).perform.Ends d (fun _ _ => True)
        (fun _ _ => False) :=
      (LawfulDevice.ends_write block offset data hv).bind (fun _ _ _ => Op.ends_pure trivial)
        fun _ _ h => h.2.2 ⟨trivial, hr⟩
    exact hw

end Devices

abbrev BlockStep (D : Type) := Step BlockCall (Nat × ByteArray) D

def BlockStep.refused {D : Type} (s : BlockStep D) : Bool :=
  match s.answer with
  | .error (.bankSwitch _) => true
  | _ => false

namespace EmulatedMemory

theorem perform_of_check {call : BlockCall} {m : EmulatedMemory} {er : Error}
    (h : call.check m = .error er) : call.perform m = (.error er, m) := by
  cases call with
  | read block offset length =>
    have hc : BlockDevice.checkAccess block m.maxBlocks m.blockSize offset length = .error er := h
    change EmulatedMemory.read block offset length m = _
    simp only [EmulatedMemory.read, hc]
  | write block offset data =>
    have hc : BlockDevice.checkAccess block m.maxBlocks m.blockSize offset data.size = .error er :=
      h
    refine Op.bind_apply_error ?_
    change EmulatedMemory.write block offset data m = _
    simp only [EmulatedMemory.write, hc]

end EmulatedMemory

namespace PagedMemory

section Accesses

variable {D : Type} [BankSwitch D] {m : PagedMemory D} {call : BlockCall}

theorem perform_of_check {er : Error} (h : call.check m = .error er) :
    call.perform m = (.error er, m) := by
  cases call with
  | read block offset length =>
    have hc : BlockDevice.checkAccess block m.maxBlocks m.blockSize offset length = .error er := h
    change PagedMemory.read block offset length m = _
    simp only [PagedMemory.read, hc]
  | write block offset data =>
    have hc : BlockDevice.checkAccess block m.maxBlocks m.blockSize offset data.size = .error er :=
      h
    refine Op.bind_apply_error ?_
    change PagedMemory.write block offset data m = _
    simp only [PagedMemory.write, hc]

theorem ends_perform_of_locate {ok : PagedMemory D → Prop} {bad : Error → PagedMemory D → Prop}
    (hc : call.check m = .ok ()) (hl : (locate call.block).Ends m (fun _ t => ok t) bad)
    (hedit : ∀ f t, ok t → ok { t with driver := BankSwitch.editWindow f t.driver }) :
    call.perform.Ends m (fun _ t => ok t) bad := by
  cases call with
  | read block offset length =>
    have hc : BlockDevice.checkAccess block m.maxBlocks m.blockSize offset length = .ok () := hc
    change (PagedMemory.read block offset length).Ends m _ _
    rcases hl.cases with ⟨start, t, he, ht⟩ | ⟨e, t, he, ht⟩
    · simp only [BlockCall.block] at he
      exact .of_ok (by simp only [PagedMemory.read, hc, he]; rfl) ht
    · simp only [BlockCall.block] at he
      exact .of_error (by simp only [PagedMemory.read, hc, he]) ht
  | write block offset data =>
    have hc : BlockDevice.checkAccess block m.maxBlocks m.blockSize offset data.size = .ok () := hc
    have hw : (PagedMemory.write block offset data).Ends m (fun _ t => ok t) bad := by
      rcases hl.cases with ⟨start, t, he, ht⟩ | ⟨e, t, he, ht⟩
      · simp only [BlockCall.block] at he
        exact .of_ok (by simp only [PagedMemory.write, hc, he]; rfl) (hedit _ t ht)
      · simp only [BlockCall.block] at he
        exact .of_error (by simp only [PagedMemory.write, hc, he]) ht
    exact hw.bind (fun _ _ ht => Op.ends_pure ht) fun _ _ ht => ht

end Accesses

section Refusals

variable {m : PagedMemory (Monitored SimulatedBanks)} {call : BlockCall}

theorem ends_mapSuperblock_injected {superblock : Nat} (hv : m.Valid False)
    (hs : superblock < superblocksNeeded m.blockSize m.maxBlocks) :
    (mapSuperblock superblock).Ends m
      (fun _ t => ∀ n, m.driver.Spares (n + 1) → t.driver.Spares n)
      (fun e _ => m.driver.Injected e) := by
  have hfit : superblock * superblockSize + superblockSize ≤ BankContents.size m.driver := by
    rw [hv.size, ← Nat.succ_mul]
    exact Nat.mul_le_mul_right superblockSize hs
  cases hm : m.mapped with
  | none =>
    have hfree : BankContents.mapped m.driver = none := by
      rw [hv.mapped, hm]
      rfl
    rcases (Monitored.ends_map_injected hfree hfit).cases with
      ⟨a, d, hd, hon, hun⟩ | ⟨e, d, hd, hi⟩
    · exact .of_ok (by simp only [mapSuperblock, hm, BankSwitch.map, hd]; rfl)
        fun n h => ⟨hon ▸ h.1.next, hun ▸ h.2.of_succ⟩
    · exact .of_error (by simp only [mapSuperblock, hm, BankSwitch.map, hd]; rfl) (.inl hi)
  | some current =>
    by_cases hc : current = superblock
    · exact .of_ok (by simp only [mapSuperblock, hm, hc, if_true]; rfl)
        fun n h => ⟨h.1.of_succ, h.2.of_succ⟩
    · have hmap : BankContents.mapped m.driver = some (current * superblockSize) := by
        rw [hv.mapped, hm]
        rfl
      rcases (Monitored.ends_unmap_injected hv.driver hmap).cases with
        ⟨_, d, hd, hon, hun⟩ | ⟨e, d, hd, hi⟩
      · -- the window is free now, and the schedule of mappings is still the one from before
        obtain ⟨-, hfree, hsize, -⟩ := (Monitored.ends_unmap hv.driver hmap).ok_of_eq hd
        rcases (Monitored.ends_map_injected hfree (hsize ▸ hfit)).cases with
          ⟨a, d', hd', hon', hun'⟩ | ⟨e, d', hd', hi⟩
        · rw [hon] at hon'
          rw [hun] at hun'
          exact .of_ok (by
            simp only [mapSuperblock, hm, if_neg hc, BankSwitch.unmap, BankSwitch.map, hd, hd']
            rfl) fun n h => ⟨hon' ▸ h.1.next, hun' ▸ h.2.next⟩
        · rw [hon] at hi
          exact .of_error (by
            simp only [mapSuperblock, hm, if_neg hc, BankSwitch.unmap, BankSwitch.map, hd, hd']
            rfl) (.inl hi)
      · exact .of_error (by
          simp only [mapSuperblock, hm, if_neg hc, BankSwitch.unmap, hd]
          rfl) (.inr hi)

theorem ends_locate_injected {block : Nat} (hv : m.Valid False) (hb : block < m.maxBlocks) :
    (locate block).Ends m (fun _ _ => True) (fun e _ => m.driver.Injected e) := by
  rcases (ends_mapSuperblock_injected hv (superblock_lt hv.blockSize_pos hb)).cases with
    ⟨_, t, he, -⟩ | ⟨e, t, he, hi⟩
  · exact .of_ok (by simp only [locate, he]; rfl) trivial
  · exact .of_error (by simp only [locate, he]; rfl) hi

theorem valid_of_check (hv : LawfulDevice.Valid False m) (hc : call.check m = .ok ()) :
    m.Valid False := by
  rcases hv with hv | ⟨hz, -⟩
  · exact hv
  · have hlt : call.block < m.maxBlocks := (BlockCall.inBlock_of_check hc).1
    omega

theorem ends_perform_injected (hv : LawfulDevice.Valid False m) (hc : call.check m = .ok ()) :
    call.perform.Ends m (fun _ _ => True) (fun e _ => m.driver.Injected e) :=
  ends_perform_of_locate hc
    (ends_locate_injected (valid_of_check hv hc) (BlockCall.inBlock_of_check hc).1) fun _ _ ht => ht

end Refusals

section Serving

variable {m : PagedMemory (Monitored SimulatedBanks)} {call : BlockCall}

structure Serves (s : BlockStep (PagedMemory (Monitored SimulatedBanks))) : Prop where
  refusal : s.refused = true → ∃ e, s.answer = .error e ∧ s.before.driver.Injected e
  failure : ∀ e, s.answer = .error e → SameBlocks s.before s.after
  read : ∀ block offset length, s.call = .read block offset length →
    SameBlocks s.before s.after ∧ ∀ a, s.answer = .ok a →
      a.1 = length ∧ Bytes.Shows (BlockContents.byteAt s.before block) offset length a.2
  write : ∀ block offset data a, s.call = .write block offset data → s.answer = .ok a →
    a.1 = data.size ∧
    BlockContents.byteAt s.after block =
      Bytes.overlay offset data (BlockContents.byteAt s.before block) ∧
    ∀ b, b ≠ block → BlockContents.byteAt s.after b = BlockContents.byteAt s.before b
  window : ∀ start t, s.call.check s.before = .ok () →
    locate s.call.block s.before = (.ok start, t) →
    (BankSwitch.window t.driver).size = superblockSize ∧
      start + s.call.offset + s.call.length ≤ superblockSize

def serve (call : BlockCall) (m : PagedMemory (Monitored SimulatedBanks)) :
    BlockStep (PagedMemory (Monitored SimulatedBanks)) :=
  ⟨call, (call.perform m).1, m, (call.perform m).2⟩

theorem sameBlocks_of_failure (hv : LawfulDevice.Valid False m) {e : Error}
    {t : PagedMemory (Monitored SimulatedBanks)} (h : call.perform m = (.error e, t)) :
    SameBlocks m t := by
  cases call with
  | read block offset length =>
    exact ((LawfulDevice.ends_read block offset length hv).error_of_eq h).2.1
  | write block offset data =>
    rcases (LawfulDevice.ends_write block offset data hv).cases with
      ⟨a, u, he, -⟩ | ⟨_, u, he, -, hs, -⟩
    · cases (Op.bind_apply_ok he).symm.trans h
    · cases (Op.bind_apply_error he).symm.trans h
      exact hs

theorem window_of_locate {start : Nat} {t : PagedMemory (Monitored SimulatedBanks)}
    (hv : LawfulDevice.Valid False m) (hc : call.check m = .ok ())
    (hl : locate call.block m = (.ok start, t)) :
    (BankSwitch.window t.driver).size = superblockSize ∧
      start + call.offset + call.length ≤ superblockSize := by
  obtain ⟨hb, hr⟩ := BlockCall.inBlock_of_check hc
  obtain ⟨hv, hs, hl⟩ := (ends_locate (valid_of_check hv hc) hb).ok_of_eq hl
  have hfit := hl.fits
  rw [hs.blockSize] at hfit
  change call.offset + call.length ≤ m.blockSize at hr
  exact ⟨LawfulBankSwitch.size_window hv.driver hl.mapped, by omega⟩

theorem refused_of_check {er : Error} (h : call.check m = .error er) :
    (serve call m).refused = false := by
  have hne := call.check_ne_bankSwitch m
  rw [h] at hne
  simp only [BlockStep.refused, serve, perform_of_check h]
  split
  · rename_i heq
    cases heq
    exact (hne _ rfl).elim
  · rfl

theorem injected_of_refused (hv : LawfulDevice.Valid False m)
    (h : (serve call m).refused = true) :
    ∃ e, (serve call m).answer = .error e ∧ m.driver.Injected e := by
  rcases hc : call.check m with er | _
  · rw [refused_of_check hc] at h
    cases h
  · rcases (ends_perform_injected hv hc).cases with ⟨a, t, hp, -⟩ | ⟨e, t, hp, hi⟩
    · simp only [BlockStep.refused, serve, hp] at h
      cases h
    · exact ⟨e, congrArg Prod.fst hp, hi⟩

theorem serves_serve (hv : LawfulDevice.Valid False m) (call : BlockCall) :
    Serves (serve call m) where
  refusal := injected_of_refused hv
  failure e h := sameBlocks_of_failure hv (Prod.ext h rfl)
  read block offset length h := by
    obtain rfl : call = _ := h
    rcases (LawfulDevice.ends_read block offset length hv).cases with
      ⟨a, t, he, -, hs, -, hn, hd⟩ | ⟨e, t, he, -, hs, -⟩
    · simp only [serve, BlockCall.perform, he]
      exact ⟨hs, fun _ ha => by cases ha; exact ⟨hn, hd⟩⟩
    · simp only [serve, BlockCall.perform, he]
      exact ⟨hs, fun _ ha => by cases ha⟩
  write block offset data a h ha := by
    obtain rfl : call = _ := h
    rcases (LawfulDevice.ends_write block offset data hv).cases with
      ⟨moved, t, he, -, -, hn, -, -, hself, hrest⟩ | ⟨e, t, he, -⟩
    · have hp := Op.bind_apply_ok (f := fun moved => pure (moved, ByteArray.empty)) he
      simp only [serve, BlockCall.perform, hp] at ha ⊢
      cases ha
      exact ⟨hn, hself, hrest⟩
    · have hp := Op.bind_apply_error (f := fun moved => pure (moved, ByteArray.empty)) he
      simp only [serve, BlockCall.perform, hp] at ha
      cases ha
  window start t := window_of_locate hv

theorem sameArray_serve {e : EmulatedMemory} (hv : LawfulDevice.Valid False m) (h : SameArray m e)
    (call : BlockCall) :
    ((serve call m).refused = true ∧ SameArray (serve call m).after e) ∨
      ((serve call m).refused = false ∧ (serve call m).answer = (call.perform e).1 ∧
        SameArray (serve call m).after (call.perform e).2) := by
  rcases hp : call.perform m with ⟨er | a, t⟩
  · rcases hc : call.check m with er | _
    · have hce : call.check e = .error er := by
        rw [← hc, BlockCall.check, BlockCall.check, h.blockSize, h.maxBlocks]
      have hr := refused_of_check hc
      rw [serve, perform_of_check hc] at hr ⊢
      rw [EmulatedMemory.perform_of_check hce]
      exact .inr ⟨hr, rfl, h⟩
    · left
      rw [serve, hp]
      refine ⟨?_, h.of_sameBlocks (sameBlocks_of_failure hv hp)⟩
      rcases (ends_perform_injected hv hc).error_of_eq hp with ⟨rfl, -⟩ | ⟨rfl, -⟩ <;> rfl
  · obtain ⟨u, hu, -, hs⟩ := h.perform hv trivial hp
    rw [serve, hp, hu]
    exact .inr ⟨rfl, rfl, hs⟩

end Serving

theorem ready (p : PagedProvider (Monitored SimulatedBanks)) :
    LawfulBankSwitch.Ready False p.driver :=
  ⟨trivial, False.elim⟩

theorem ends_clearSuperblocks_spared {n first : Nat} {m : PagedMemory (Monitored SimulatedBanks)}
    (hv : m.Valid False) (hn : first + n ≤ superblocksNeeded m.blockSize m.maxBlocks)
    (hs : m.driver.Spares n) :
    (clearSuperblocks n first).Ends m (fun _ _ => True) (fun _ _ => False) := by
  induction n generalizing first m with
  | zero => exact Op.ends_pure trivial
  | succ n ih =>
    have hfirst : first < superblocksNeeded m.blockSize m.maxBlocks := by omega
    rcases (ends_mapSuperblock hv hfirst).cases with ⟨_, t, he, ht, hsame, hm⟩ | ⟨e, t, he, -⟩
    · have hspare := (ends_mapSuperblock_injected hv hfirst).ok_of_eq he n hs
      rw [Op.Ends, clearSuperblocks, Op.bind_apply_ok he]
      refine ih (clear_window ht hm).1 ?_ hspare
      change first + 1 + n ≤ superblocksNeeded t.blockSize t.maxBlocks
      rw [hsame.blockSize, hsame.maxBlocks]
      omega
    · exact absurd ((ends_mapSuperblock_injected hv hfirst).error_of_eq he) hs.not_injected

theorem init_of_spares {p : PagedProvider (Monitored SimulatedBanks)} {d : Monitored SimulatedBanks}
    {blockSize blocks : Nat} (hsize : checkBlockSize blockSize = .ok ())
    (hroom : blocks ≤ p.maximumBlocks blockSize)
    (hreserved : superblockSize ≤ BankSwitch.reservedSize p.driver)
    (ha : BankSwitch.alloc (superblocksNeeded blockSize blocks * superblockSize) p.driver =
      (.ok (), d))
    (hm : BankContents.mapped d = none) (hs : d.Spares (superblocksNeeded blockSize blocks)) :
    ∃ m, p.init blockSize blocks = .ok m := by
  obtain ⟨hpos, hdvd⟩ := checkBlockSize_eq_ok hsize
  obtain ⟨hv, hd⟩ := LawfulBankSwitch.valid_of_alloc (ready p) ha hm
  have hfresh : ({ driver := d, blockSize, maxBlocks := blocks } : PagedMemory _).Valid False :=
    ⟨hv, hm, hpos, hdvd, hd⟩
  rcases (ends_clearSuperblocks_spared hfresh (Nat.le_of_eq (Nat.zero_add _)) hs).cases with
    ⟨_, m, he, -⟩ | ⟨_, _, -, hf⟩
  · exact ⟨m, init_of_clear hsize hroom hreserved rfl ha he⟩
  · exact hf.elim

theorem sameArray_of_init {p : PagedProvider (Monitored SimulatedBanks)}
    {m : PagedMemory (Monitored SimulatedBanks)} {blockSize blocks : Nat}
    (h : p.init blockSize blocks = .ok m) :
    ∃ e, EmulatedProvider.init ⟨blockSize * blocks⟩ blockSize blocks = .ok e ∧ SameArray m e := by
  obtain ⟨-, hbs, hmb⟩ := valid_of_init (ready p) False.elim h
  obtain ⟨hsize, hroom, -⟩ := init_eq_ok h
  have hs := (checkBlockSize_eq_ok hsize).1
  have hlimit : blocks ≤ EmulatedProvider.maximumBlocks ⟨blockSize * blocks⟩ blockSize := by
    simp only [PagedProvider.maximumBlocks, hsize] at hroom
    rw [EmulatedProvider.maximumBlocks, Nat.mul_div_cancel_left blocks hs]
    exact Nat.le_min.mpr ⟨Nat.le_refl blocks, (Nat.le_min.mp hroom).2⟩
  refine ⟨⟨.zeros (blockSize * blocks), blockSize, blocks⟩, ?_, hbs.symm, hmb.symm, fun b hb => ?_⟩
  · rw [EmulatedProvider.init, if_neg (Nat.ne_of_gt hs), if_neg (Nat.not_lt.mpr hlimit)]
  · funext offset
    rw [byteAt_of_init (ready p) h (hmb ▸ hb : b < blocks)]
    simp only [BlockContents.byteAt, blockOf, SparseBytes.byteAt_zeros, ite_self]

/-- Under every schedule of failures, paged memory is the array of blocks that the flat
buffer is. -/
theorem answers_as_emulated {p : PagedProvider (Monitored SimulatedBanks)}
    {m : PagedMemory (Monitored SimulatedBanks)} {blockSize blocks : Nat}
    (h : p.init blockSize blocks = .ok m) :
    (∀ block < blocks, ∀ offset, BlockContents.byteAt m block offset = 0) ∧
    ∃ e, EmulatedProvider.init ⟨blockSize * blocks⟩ blockSize blocks = .ok e ∧
      ∀ calls : List BlockCall,
        let steps := Op.history BlockCall.perform calls m
        let effective := steps.filter (!BlockStep.refused ·)
        effective.map (·.answer) =
            (Op.history BlockCall.perform (effective.map (·.call)) e).map (·.answer) ∧
          ∀ s ∈ steps, Serves s := by
  obtain ⟨hv, -⟩ := valid_of_init (ready p) False.elim h
  obtain ⟨e, he, hsame⟩ := sameArray_of_init h
  refine ⟨fun block hb => byteAt_of_init (ready p) h hb, e, he,
    fun calls => ⟨?_, ?_⟩⟩
  · refine Op.answers_of_kept (R := fun m e => LawfulDevice.Valid False m ∧ SameArray m e)
      (fun call m e ⟨hv, hs⟩ => ?_) calls ⟨hv, hsame⟩
    rcases sameArray_serve hv hs call with ⟨hr, hs⟩ | ⟨hr, ha, hs⟩
    · exact .inl ⟨hr, valid_perform hv call, hs⟩
    · exact .inr ⟨hr, ha, valid_perform hv call, hs⟩
  · exact Op.forall_mem_history (P := LawfulDevice.Valid False) (Q := Serves)
      (fun call m hv => ⟨valid_perform hv call, serves_serve hv call⟩) calls hv

def flakyBanks : PagedProvider (Monitored SimulatedBanks) :=
  ⟨{ driver := { physicalSize := 65536, reservedSize := 65536 }
     onMap := .burst 2 1
     onUnmap := .burst 2 1 }⟩

theorem init_flakyBanks : ∃ m, flakyBanks.init 4096 16 = .ok m :=
  init_of_spares rfl (by decide) (by decide) rfl rfl ⟨by decide, by decide⟩

theorem answers_as_emulated_flaky :
    ∃ m, flakyBanks.init 4096 16 = .ok m ∧
      (∀ block < 16, ∀ offset, BlockContents.byteAt m block offset = 0) ∧
      ∃ e, EmulatedProvider.init ⟨4096 * 16⟩ 4096 16 = .ok e ∧
        ∀ calls : List BlockCall,
          let steps := Op.history BlockCall.perform calls m
          let effective := steps.filter (!BlockStep.refused ·)
          effective.map (·.answer) =
              (Op.history BlockCall.perform (effective.map (·.call)) e).map (·.answer) ∧
            ∀ s ∈ steps, Serves s := by
  obtain ⟨m, hm⟩ := init_flakyBanks
  exact ⟨m, hm, answers_as_emulated hm⟩

end PagedMemory

end TieredMemory
