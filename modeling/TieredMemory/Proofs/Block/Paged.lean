import TieredMemory.Block.Paged
import TieredMemory.Proofs.Block.Banks
import TieredMemory.Proofs.Block.Device

namespace TieredMemory.PagedMemory

variable {D : Type} [BankSwitch D] [BankContents D]

instance : BlockContents (PagedMemory D) where
  byteAt m := blockOf m.blockSize (BankContents.byteAt m.driver)

section Arithmetic

theorem superblockSize_pos : 0 < superblockSize := by decide

theorem checkBlockSize_eq_error {size : Nat} {e : Error} (h : checkBlockSize size = .error e) :
    ∃ reason, e = .invalidBlockSize reason := by
  unfold checkBlockSize at h
  split at h
  · cases h
    exact ⟨_, rfl⟩
  · split at h
    · cases h
      exact ⟨_, rfl⟩
    · split at h
      · cases h
        exact ⟨_, rfl⟩
      · cases h

theorem checkBlockSize_eq_ok {size : Nat} (h : checkBlockSize size = .ok ()) :
    0 < size ∧ size ∣ superblockSize := by
  rw [checkBlockSize] at h
  split at h
  · cases h
  · split at h
    · cases h
    · split at h
      · cases h
      · exact ⟨by omega, Nat.dvd_of_mod_eq_zero (by omega)⟩

theorem superblock_lt {blockSize block blocks : Nat} (hs : 0 < blockSize) (hb : block < blocks) :
    block * blockSize / superblockSize < superblocksNeeded blockSize blocks := by
  rw [superblocksNeeded, Nat.lt_div_iff_mul_lt superblockSize_pos]
  have hd := Nat.div_mul_le_self (block * blockSize) superblockSize
  have hm := Nat.mul_le_mul_left blockSize (show block + 1 ≤ blocks from hb)
  rw [Nat.mul_succ, Nat.mul_comm blockSize block] at hm
  omega

theorem superblocksNeeded_pos {blockSize blocks : Nat} (hs : 0 < blockSize) (hb : 0 < blocks) :
    0 < superblocksNeeded blockSize blocks :=
  Nat.lt_of_le_of_lt (Nat.zero_le _) (superblock_lt hs hb)

theorem blocks_fit (blockSize blocks : Nat) :
    blockSize * blocks ≤ superblocksNeeded blockSize blocks * superblockSize := by
  simp only [superblocksNeeded, superblockSize]
  omega

theorem block_in_superblock {blockSize : Nat} (hd : blockSize ∣ superblockSize) (block : Nat) :
    block * blockSize % superblockSize + blockSize ≤ superblockSize := by
  obtain ⟨k, hk⟩ := hd
  rw [hk, Nat.mul_comm block, Nat.mul_mod_mul_left]
  have hlt : block % k < k := by
    refine Nat.mod_lt _ (Nat.pos_of_ne_zero ?_)
    rintro rfl
    exact absurd hk (Nat.ne_of_gt superblockSize_pos)
  exact Nat.mul_le_mul_left blockSize (show block % k + 1 ≤ k from hlt)

end Arithmetic

structure SameMemory (m t : PagedMemory D) : Prop where
  blockSize : t.blockSize = m.blockSize
  maxBlocks : t.maxBlocks = m.maxBlocks
  bytes : BankContents.byteAt t.driver = BankContents.byteAt m.driver

omit [BankSwitch D] in
theorem SameMemory.trans {m t u : PagedMemory D} (h : SameMemory m t) (h' : SameMemory t u) :
    SameMemory m u :=
  ⟨h'.blockSize.trans h.blockSize, h'.maxBlocks.trans h.maxBlocks, h'.bytes.trans h.bytes⟩

theorem SameMemory.sameBlocks {m t : PagedMemory D} (h : SameMemory m t) : SameBlocks m t := by
  refine ⟨h.blockSize, h.maxBlocks, ?_⟩
  change blockOf t.blockSize _ = blockOf m.blockSize _
  rw [h.blockSize, h.bytes]

variable [LawfulBankSwitch D]

protected structure Valid (sure : Prop) (m : PagedMemory D) : Prop where
  driver : LawfulBankSwitch.Valid sure m.driver
  mapped : BankContents.mapped m.driver = m.mapped.map (· * superblockSize)
  blockSize_pos : 0 < m.blockSize
  divides : m.blockSize ∣ superblockSize
  size : BankContents.size m.driver = superblocksNeeded m.blockSize m.maxBlocks * superblockSize

variable {sure : Prop} {m : PagedMemory D}

theorem Valid.withDriver {driver : D} (h : m.Valid sure) (hd : LawfulBankSwitch.Valid sure driver)
    (hs : BankContents.size driver = BankContents.size m.driver) (mapped : Option Nat)
    (remaps : Nat) (hm : BankContents.mapped driver = mapped.map (· * superblockSize)) :
    { m with driver, mapped, remaps }.Valid sure :=
  ⟨hd, hm, h.blockSize_pos, h.divides, hs.trans h.size⟩

theorem ends_enter {superblock : Nat} (h : m.Valid sure) (hm : m.mapped = none)
    (hs : superblock < superblocksNeeded m.blockSize m.maxBlocks) :
    (mapSuperblock superblock).Ends m
      (fun _ t => t.Valid sure ∧ SameMemory m t ∧ t.mapped = some superblock)
      (fun _ t => t.Valid sure ∧ SameMemory m t ∧ ¬ sure) := by
  have hfit : superblock * superblockSize + superblockSize ≤ BankContents.size m.driver := by
    rw [h.size, ← Nat.succ_mul]
    exact Nat.mul_le_mul_right superblockSize hs
  have hfree : BankContents.mapped m.driver = none := by rw [h.mapped, hm]; rfl
  rcases (LawfulBankSwitch.ends_map h.driver hfree hfit).cases with
    ⟨a, driver, he, hv, hmap, hsize, hb⟩ | ⟨e, driver, he, hv, hmap, hsize, hb, hn⟩
  · refine .of_ok (a := ())
      (t := { m with driver, mapped := some superblock, remaps := m.remaps + 1 }) ?_
      ⟨h.withDriver hv hsize _ _ hmap, ⟨rfl, rfl, hb⟩, rfl⟩
    simp only [mapSuperblock, hm, he]
  · refine .of_error (e := e) (t := { m with driver }) ?_
      ⟨h.withDriver hv hsize m.mapped m.remaps (hmap.trans ?_), ⟨rfl, rfl, hb⟩, hn⟩
    · simp only [mapSuperblock, hm, he]
    · rw [hm]
      rfl

theorem ends_mapSuperblock {superblock : Nat} (h : m.Valid sure)
    (hs : superblock < superblocksNeeded m.blockSize m.maxBlocks) :
    (mapSuperblock superblock).Ends m
      (fun _ t => t.Valid sure ∧ SameMemory m t ∧ t.mapped = some superblock)
      (fun _ t => t.Valid sure ∧ SameMemory m t ∧ ¬ sure) := by
  cases hm : m.mapped with
  | none => exact ends_enter h hm hs
  | some current =>
    by_cases hc : current = superblock
    · subst hc
      refine .of_ok (a := ()) (t := m) ?_ ⟨h, ⟨rfl, rfl, rfl⟩, hm⟩
      simp only [mapSuperblock, hm, if_true]
    · have hmap : BankContents.mapped m.driver = some (current * superblockSize) := by
        rw [h.mapped, hm]
        rfl
      rcases (LawfulBankSwitch.ends_unmap h.driver hmap).cases with
        ⟨a, driver, he, hv, hfree, hsize, hb⟩ | ⟨e, driver, he, hv, hkept, hsize, hb, hn⟩
      · have ht : { m with driver, mapped := none }.Valid sure :=
          h.withDriver hv hsize none m.remaps hfree
        have hsame₀ : SameMemory m { m with driver, mapped := none } := ⟨rfl, rfl, hb⟩
        have hop : mapSuperblock superblock m =
            mapSuperblock superblock { m with driver, mapped := none } := by
          simp only [mapSuperblock, hm, if_neg hc, he]
        rw [Op.Ends, hop]
        refine (ends_enter ht rfl hs).mono ?_ ?_
        · rintro _ t ⟨hv, hsame, hmapped⟩
          exact ⟨hv, hsame₀.trans hsame, hmapped⟩
        · rintro _ t ⟨hv, hsame, hn⟩
          exact ⟨hv, hsame₀.trans hsame, hn⟩
      · refine .of_error (e := e) (t := { m with driver }) ?_
          ⟨h.withDriver hv hsize m.mapped m.remaps (hkept.trans ?_), ⟨rfl, rfl, hb⟩, hn⟩
        · simp only [mapSuperblock, hm, if_neg hc, he]
        · rw [hm]
          rfl

structure Located (m : PagedMemory D) (block start : Nat) : Prop where
  mapped : BankContents.mapped m.driver = some (block * m.blockSize - start)
  start_le : start ≤ block * m.blockSize
  fits : start + m.blockSize ≤ superblockSize

theorem ends_locate {block : Nat} (h : m.Valid sure) (hb : block < m.maxBlocks) :
    (locate block).Ends m
      (fun start t => t.Valid sure ∧ SameMemory m t ∧ Located t block start)
      (fun _ t => t.Valid sure ∧ SameMemory m t ∧ ¬ sure) := by
  rcases (ends_mapSuperblock h (superblock_lt h.blockSize_pos hb)).cases with
    ⟨a, t, he, hv, hs, hm⟩ | ⟨e, t, he, hr⟩
  · have hdiv := Nat.div_add_mod (block * m.blockSize) superblockSize
    rw [Nat.mul_comm superblockSize] at hdiv
    refine .of_ok (a := block * m.blockSize % superblockSize) (t := t) (by simp only [locate, he])
      ⟨hv, hs, ?_, ?_, ?_⟩
    · rw [hv.mapped, hm, hs.blockSize, Option.map_some]
      exact congrArg some (by omega)
    · rw [hs.blockSize]
      omega
    · rw [hs.blockSize]
      exact block_in_superblock h.divides block
  · exact .of_error (e := e) (t := t) (by simp only [locate, he]) hr

theorem Located.byteAt {block start i : Nat} (hl : Located m block start) (h : m.Valid sure)
    (hi : i < m.blockSize) :
    Bytes.byteAt (BankSwitch.window m.driver) (start + i) =
      BankContents.byteAt m.driver (block * m.blockSize + i) := by
  have := hl.fits
  have := hl.start_le
  rw [LawfulBankSwitch.byteAt_window h.driver hl.mapped (by omega)]
  exact congrArg _ (by omega)

theorem ends_read (block offset length : Nat) (h : m.Valid sure) :
    (PagedMemory.read block offset length).Ends m
      (fun a t => t.Valid sure ∧ SameBlocks m t ∧ BlockDevice.InBlock m block offset length ∧
        a.1 = length ∧ Bytes.Shows (BlockContents.byteAt m block) offset length a.2)
      (fun _ t => t.Valid sure ∧ SameBlocks m t ∧
        ¬ (sure ∧ BlockDevice.InBlock m block offset length)) := by
  rcases BlockDevice.checkAccess_cases block m.maxBlocks m.blockSize offset length with
    ⟨hc, hb, hr⟩ | ⟨e, hc, hr⟩
  · rcases (ends_locate h hb).cases with ⟨start, t, he, hv, hs, hl⟩ | ⟨e, t, he, hv, hs, hn⟩
    · have hr' : offset + length ≤ t.blockSize := hs.blockSize ▸ hr
      have hw := LawfulBankSwitch.size_window hv.driver hl.mapped
      have hfit := hl.fits
      refine .of_ok (t := t)
        (a := (length, Bytes.slice (BankSwitch.window t.driver) (start + offset) length)) ?_
        ⟨hv, hs.sameBlocks, ⟨hb, hr⟩, rfl, ?_⟩
      · simp only [PagedMemory.read, hc, he]
      · rw [← hs.sameBlocks.bytes]
        refine shows_blockOf hr' ⟨Bytes.size_slice (by omega), fun i hi => ?_⟩
        rw [Bytes.byteAt_slice hi, Nat.add_assoc, hl.byteAt hv (by omega), Nat.add_assoc]
    · refine .of_error (e := e) (t := t) ?_ ⟨hv, hs.sameBlocks, fun hx => hn hx.1⟩
      simp only [PagedMemory.read, hc, he]
  · refine .of_error (e := e) (t := m) ?_ ⟨h, .refl m, fun hx => hr hx.2⟩
    simp only [PagedMemory.read, hc]

theorem overlay_patch {window data : ByteArray} {address offset : Nat} {bytes : Nat → UInt8}
    (hr : offset + data.size ≤ window.size)
    (hw : ∀ i < window.size, Bytes.byteAt window i = bytes (address + i)) :
    Bytes.overlay address (Bytes.patch window offset data) bytes =
      Bytes.overlay (address + offset) data bytes := by
  funext i
  rw [Bytes.overlay, Bytes.overlay, Bytes.size_patch (by omega), Nat.max_eq_left hr]
  by_cases hi : address ≤ i ∧ i < address + window.size
  · rw [if_pos hi, Bytes.byteAt_patch (by omega)]
    by_cases hp : offset ≤ i - address ∧ i - address < offset + data.size
    · rw [if_pos hp, if_pos (by omega), Nat.sub_sub]
    · rw [if_neg hp, if_neg (by omega), hw _ (by omega)]
      exact congrArg bytes (by omega)
  · rw [if_neg hi, if_neg (by omega)]

theorem ends_write (block offset : Nat) (data : ByteArray) (h : m.Valid sure) :
    (PagedMemory.write block offset data).Ends m
      (fun a t => t.Valid sure ∧ BlockDevice.InBlock m block offset data.size ∧ a = data.size ∧
        BlockDevice.blockSize t = BlockDevice.blockSize m ∧
        BlockDevice.maxBlocks t = BlockDevice.maxBlocks m ∧
        BlockContents.byteAt t block = Bytes.overlay offset data (BlockContents.byteAt m block) ∧
        ∀ b, b ≠ block → BlockContents.byteAt t b = BlockContents.byteAt m b)
      (fun _ t => t.Valid sure ∧ SameBlocks m t ∧
        ¬ (sure ∧ BlockDevice.InBlock m block offset data.size)) := by
  rcases BlockDevice.checkAccess_cases block m.maxBlocks m.blockSize offset data.size with
    ⟨hc, hb, hr⟩ | ⟨e, hc, hr⟩
  · rcases (ends_locate h hb).cases with ⟨start, t, he, hv, hs, hl⟩ | ⟨e, t, he, hv, hs, hn⟩
    · have hr' : offset + data.size ≤ t.blockSize := hs.blockSize ▸ hr
      have hw := LawfulBankSwitch.size_window hv.driver hl.mapped
      have hfit := hl.fits
      have hle := hl.start_le
      have hpatch : (Bytes.patch (BankSwitch.window t.driver) (start + offset) data).size =
          superblockSize := by
        rw [Bytes.size_patch (by omega), hw]
        omega
      obtain ⟨hd, hmap, hsize, hbytes⟩ :=
        LawfulBankSwitch.editWindow (f := (Bytes.patch · (start + offset) data)) hv.driver
          hl.mapped hpatch
      rw [overlay_patch (by omega) (fun i hi => LawfulBankSwitch.byteAt_window hv.driver hl.mapped
        (hw ▸ hi)), show block * t.blockSize - start + (start + offset) =
          block * t.blockSize + offset by omega] at hbytes
      refine .of_ok (a := data.size) (t := { t with
          driver := BankSwitch.editWindow (Bytes.patch · (start + offset) data) t.driver }) ?_
        ⟨hv.withDriver hd hsize t.mapped t.remaps (hmap.trans (hl.mapped.symm.trans hv.mapped)),
          ⟨hb, hr⟩, rfl,
          hs.blockSize, hs.maxBlocks, ?_, fun b hne => ?_⟩
      · simp only [PagedMemory.write, hc, he]
      · rw [← hs.sameBlocks.bytes]
        exact (congrArg (blockOf t.blockSize · block) hbytes).trans (blockOf_overlay_self _ hr')
      · rw [← hs.sameBlocks.bytes]
        exact (congrArg (blockOf t.blockSize · b) hbytes).trans (blockOf_overlay_ne _ hr' hne)
    · refine .of_error (e := e) (t := t) ?_ ⟨hv, hs.sameBlocks, fun hx => hn hx.1⟩
      simp only [PagedMemory.write, hc, he]
  · refine .of_error (e := e) (t := m) ?_ ⟨h, .refl m, fun hx => hr hx.2⟩
    simp only [PagedMemory.write, hc]

theorem ends_release (h : m.Valid sure) :
    (release : Op (PagedMemory D) Unit).Ends m (fun _ _ => True) (fun _ _ => ¬ sure) := by
  cases hr : m.released with
  | true => exact .of_ok (a := ()) (t := m) (by simp only [release, hr, if_true]) trivial
  | false =>
    cases hm : m.mapped with
    | none =>
      have hfree : BankContents.mapped m.driver = none := by rw [h.mapped, hm]; rfl
      rcases (LawfulBankSwitch.ends_free h.driver hfree).cases with ⟨_, t, he, -⟩ | ⟨e, t, he, hn⟩
      · exact .of_ok (by simp only [release, hr, hm, he, Bool.false_eq_true, if_false]; rfl) trivial
      · exact .of_error (by simp only [release, hr, hm, he, Bool.false_eq_true, if_false]; rfl) hn
    | some current =>
      have hmap : BankContents.mapped m.driver = some (current * superblockSize) := by
        rw [h.mapped, hm]
        rfl
      rcases (LawfulBankSwitch.ends_unmap h.driver hmap).cases with
        ⟨_, t, he, hv, hfree, -⟩ | ⟨e, t, he, -, -, -, -, hn⟩
      · rcases (LawfulBankSwitch.ends_free hv hfree).cases with ⟨_, u, hf, -⟩ | ⟨e, u, hf, hn⟩
        · exact .of_ok (by simp only [release, hr, hm, he, hf, Bool.false_eq_true, if_false]; rfl)
            trivial
        · exact .of_error
            (by simp only [release, hr, hm, he, hf, Bool.false_eq_true, if_false]; rfl)
            hn
      · exact .of_error (by simp only [release, hr, hm, he, Bool.false_eq_true, if_false]; rfl) hn

omit [BankSwitch D] [BankContents D] [LawfulBankSwitch D] in
theorem checkAccess_of_no_blocks (h : m.maxBlocks = 0) (block offset length : Nat) :
    BlockDevice.checkAccess block m.maxBlocks m.blockSize offset length =
      .error (.blockOutOfRange block m.maxBlocks) :=
  if_pos (h ▸ Nat.zero_le block)

instance : LawfulDevice (PagedMemory D) where
  Valid sure m := m.Valid sure ∨ m.maxBlocks = 0 ∧ ¬ sure
  ends_read {sure m} block offset length h := by
    rcases h with h | h
    · apply (ends_read block offset length h).mono
      · exact fun a t ht => ⟨.inl ht.1, ht.2⟩
      · exact fun e t ht => ⟨.inl ht.1, ht.2⟩
    · apply Op.Ends.of_error (e := .blockOutOfRange block m.maxBlocks) (t := m)
      · change PagedMemory.read block offset length m = _
        simp only [PagedMemory.read, checkAccess_of_no_blocks h.1]
      · exact ⟨.inr h, .refl m, fun hx => h.2 hx.1⟩
  ends_write {sure m} block offset data h := by
    rcases h with h | h
    · apply (ends_write block offset data h).mono
      · exact fun a t ht => ⟨.inl ht.1, ht.2⟩
      · exact fun e t ht => ⟨.inl ht.1, ht.2⟩
    · apply Op.Ends.of_error (e := .blockOutOfRange block m.maxBlocks) (t := m)
      · change PagedMemory.write block offset data m = _
        simp only [PagedMemory.write, checkAccess_of_no_blocks h.1]
      · exact ⟨.inr h, .refl m, fun hx => h.2 hx.1⟩
  ends_close {sure m} h := by
    rcases h with h | h
    · exact ends_release h
    · rcases hr : release m with ⟨e | _, t⟩
      · exact .of_error hr h.2
      · exact .of_ok hr trivial

theorem clear_window {superblock : Nat} (h : m.Valid sure) (hm : m.mapped = some superblock) :
    { m with driver := BankSwitch.editWindow (fun w => Bytes.zeros w.size) m.driver }.Valid sure ∧
      ∀ i, BankContents.byteAt (BankSwitch.editWindow (fun w => Bytes.zeros w.size) m.driver) i =
        if superblock * superblockSize ≤ i ∧ i < (superblock + 1) * superblockSize then 0
        else BankContents.byteAt m.driver i := by
  have hmap : BankContents.mapped m.driver = some (superblock * superblockSize) := by
    rw [h.mapped, hm]
    rfl
  have hw := LawfulBankSwitch.size_window h.driver hmap
  obtain ⟨hd, hmap', hsize, hbytes⟩ :=
    LawfulBankSwitch.editWindow (f := fun w => Bytes.zeros w.size) h.driver hmap
      ((Bytes.size_zeros _).trans hw)
  refine ⟨h.withDriver hd hsize m.mapped m.remaps (hmap'.trans (hmap.symm.trans h.mapped)),
    fun i => ?_⟩
  rw [hbytes, Bytes.overlay, Bytes.byteAt_zeros, Bytes.size_zeros, hw, Nat.succ_mul]

theorem ends_clearSuperblocks {n first : Nat} (h : m.Valid sure)
    (hn : first + n ≤ superblocksNeeded m.blockSize m.maxBlocks) :
    (clearSuperblocks n first).Ends m
      (fun _ t => t.Valid sure ∧ t.blockSize = m.blockSize ∧ t.maxBlocks = m.maxBlocks ∧
        ∀ i < (first + n) * superblockSize,
          (i < first * superblockSize → BankContents.byteAt m.driver i = 0) →
          BankContents.byteAt t.driver i = 0)
      (fun _ _ => ¬ sure) := by
  induction n generalizing first m with
  | zero => exact Op.ends_pure ⟨h, rfl, rfl, fun i hi hz => hz hi⟩
  | succ n ih =>
    refine (ends_mapSuperblock h (by omega)).bind ?_ fun _ _ hn => hn.2.2
    rintro _ t ⟨hv, hs, hm⟩
    obtain ⟨ht, hbytes⟩ := clear_window hv hm
    refine (ih ht ?_).mono (fun _ u hu => ?_) fun _ _ hn => hn
    · change first + 1 + n ≤ superblocksNeeded t.blockSize t.maxBlocks
      rw [hs.blockSize, hs.maxBlocks]
      omega
    · obtain ⟨hu, hblock, hblocks, hzero⟩ := hu
      refine ⟨hu, hblock.trans hs.blockSize, hblocks.trans hs.maxBlocks, fun i hi hz => ?_⟩
      refine hzero i (by rwa [Nat.add_right_comm, Nat.add_assoc]) fun hfirst => ?_
      rw [hbytes, hs.bytes]
      split
      · rfl
      · exact hz (by omega)

theorem mapped_of_clearSuperblocks {n first : Nat} {t : PagedMemory D} (hm : m.mapped = none)
    (h : clearSuperblocks (n + 1) first m = (.ok (), t)) : BankContents.mapped m.driver = none := by
  -- clearing starts with a mapping, and a driver refuses one while another is in the window
  rcases hd : BankSwitch.map (first * superblockSize) m.driver with ⟨e | _, driver⟩
  · have hop : mapSuperblock first m = (.error e, { m with driver }) := by
      simp only [mapSuperblock, hm, hd]
    rw [clearSuperblocks, Op.bind_apply_error hop] at h
    cases h
  · exact LawfulBankSwitch.mapped_of_map hd

omit [BankContents D] [LawfulBankSwitch D] in
theorem init_eq_ok {p : PagedProvider D} {blockSize blocks : Nat}
    (h : p.init blockSize blocks = .ok m) :
    checkBlockSize blockSize = .ok () ∧ blocks ≤ p.maximumBlocks blockSize ∧
      ∃ driver, BankSwitch.alloc (superblocksNeeded blockSize blocks * superblockSize) p.driver =
          (.ok (), driver) ∧
        clearSuperblocks (superblocksNeeded blockSize blocks) 0
          { driver, blockSize, maxBlocks := blocks } = (.ok (), m) := by
  -- as a term the number would be evaluated, superblock by superblock, when the splits are checked
  obtain ⟨superblocks, hn⟩ : ∃ superblocks, superblocksNeeded blockSize blocks = superblocks :=
    ⟨_, rfl⟩
  rw [PagedProvider.init, hn] at h
  rw [hn]
  split at h
  · cases h
  · split at h
    · cases h
    · split at h
      · cases h
      · simp only at h
        split at h
        · cases h
        · split at h
          · cases h
            exact ⟨‹_›, Nat.not_lt.mp ‹_›, _, ‹_›, ‹_›⟩
          · cases h

omit [BankContents D] [LawfulBankSwitch D] in
theorem init_of_clear {p : PagedProvider D} {driver : D} {blockSize blocks superblocks : Nat}
    (hsize : checkBlockSize blockSize = .ok ()) (hroom : blocks ≤ p.maximumBlocks blockSize)
    (hreserved : superblockSize ≤ BankSwitch.reservedSize p.driver)
    (hn : superblocksNeeded blockSize blocks = superblocks)
    (ha : BankSwitch.alloc (superblocks * superblockSize) p.driver = (.ok (), driver))
    (hc : clearSuperblocks superblocks 0 { driver, blockSize, maxBlocks := blocks } = (.ok (), m)) :
    p.init blockSize blocks = .ok m := by
  rw [PagedProvider.init, hn]
  simp only [hsize, if_neg (Nat.not_lt.mpr hroom), if_neg (Nat.not_lt.mpr hreserved), ha, hc]

theorem cleared_of_init {p : PagedProvider D} {blockSize blocks : Nat}
    (hr : LawfulBankSwitch.Ready sure p.driver) (hb : 0 < blocks)
    (h : p.init blockSize blocks = .ok m) :
    m.Valid sure ∧ m.blockSize = blockSize ∧ m.maxBlocks = blocks ∧
      ∀ i < superblocksNeeded blockSize blocks * superblockSize,
        BankContents.byteAt m.driver i = 0 := by
  obtain ⟨hsize, -, driver, ha, hc⟩ := init_eq_ok h
  obtain ⟨hs, hd⟩ := checkBlockSize_eq_ok hsize
  obtain ⟨n, hn⟩ := Nat.exists_eq_add_one_of_ne_zero (Nat.ne_of_gt (superblocksNeeded_pos hs hb))
  have hm := mapped_of_clearSuperblocks rfl (hn ▸ hc)
  obtain ⟨hv, hsize⟩ := LawfulBankSwitch.valid_of_alloc hr ha hm
  have hfresh : ({ driver, blockSize, maxBlocks := blocks } : PagedMemory D).Valid sure :=
    ⟨hv, hm, hs, hd, hsize⟩
  obtain ⟨ht, hblock, hblocks, hzero⟩ :=
    (ends_clearSuperblocks hfresh (Nat.le_of_eq (Nat.zero_add _))).ok_of_eq hc
  refine ⟨ht, hblock, hblocks, fun i hi => hzero i (by rwa [Nat.zero_add]) fun hlt => ?_⟩
  rw [Nat.zero_mul] at hlt
  exact absurd hlt (Nat.not_lt_zero i)

theorem valid_of_init {p : PagedProvider D} {blockSize blocks : Nat}
    (hr : LawfulBankSwitch.Ready sure p.driver) (hb : sure → 0 < blocks)
    (h : p.init blockSize blocks = .ok m) :
    LawfulDevice.Valid sure m ∧ m.blockSize = blockSize ∧ m.maxBlocks = blocks := by
  by_cases hz : blocks = 0
  · subst hz
    obtain ⟨-, -, driver, -, hc⟩ := init_eq_ok h
    have hnone : superblocksNeeded blockSize 0 = 0 := by
      rw [superblocksNeeded, Nat.mul_zero, Nat.zero_add]
      exact Nat.div_eq_of_lt (by decide)
    rw [hnone] at hc
    cases hc
    exact ⟨.inr ⟨rfl, fun hx => Nat.lt_irrefl 0 (hb hx)⟩, rfl, rfl⟩
  · obtain ⟨hv, hblock, hblocks, -⟩ := cleared_of_init hr (Nat.pos_of_ne_zero hz) h
    exact ⟨.inl hv, hblock, hblocks⟩

theorem byteAt_of_init {p : PagedProvider D} {blockSize blocks block : Nat}
    (hr : LawfulBankSwitch.Ready sure p.driver) (h : p.init blockSize blocks = .ok m)
    (hb : block < blocks) (offset : Nat) : BlockContents.byteAt m block offset = 0 := by
  obtain ⟨hv, rfl, rfl, hzero⟩ := cleared_of_init hr (Nat.zero_lt_of_lt hb) h
  simp only [BlockContents.byteAt, blockOf]
  split
  · refine hzero _ ?_
    have hlast := Nat.mul_le_mul_left m.blockSize (show block + 1 ≤ m.maxBlocks from hb)
    have hfit := blocks_fit m.blockSize m.maxBlocks
    rw [Nat.mul_succ, Nat.mul_comm m.blockSize block] at hlast
    omega
  · rfl

instance : LawfulProvider (PagedProvider D) (PagedMemory D) where
  Ready sure p := LawfulBankSwitch.Ready sure p.driver
  valid_of_init := valid_of_init

end TieredMemory.PagedMemory
