import TieredMemory.Proofs.Block.Paged

namespace TieredMemory

variable {P D : Type} [BlockProvider P D]

def TakesSize (p : P) (blockSize : Nat) : Prop :=
  ∀ blocks reason left,
    BlockProvider.init p blockSize blocks ≠ .error (.invalidBlockSize reason, left)

def RoomIsExact (p : P) (blockSize : Nat) : Prop :=
  ∀ blocks ≤ BlockDevice.blockLimit,
    ((∃ d, BlockProvider.init p blockSize blocks = .ok d) ↔
      blocks ≤ BlockProvider.maximumBlocks p blockSize) ∧
    (BlockProvider.maximumBlocks p blockSize < blocks →
      BlockProvider.init p blockSize blocks =
        .error (.insufficientMemory blocks (BlockProvider.maximumBlocks p blockSize), p))

namespace EmulatedProvider

variable {p : EmulatedProvider} {blockSize : Nat}

theorem takesSize_iff : TakesSize p blockSize ↔ 0 < blockSize := by
  constructor
  · intro h
    rcases Nat.eq_zero_or_pos blockSize with rfl | hpos
    · exact absurd rfl (h 0 _ p)
    · exact hpos
  · intro hpos blocks reason left hop
    change p.init blockSize blocks = _ at hop
    rw [EmulatedProvider.init, if_neg (Nat.ne_of_gt hpos)] at hop
    split at hop <;> cases hop

theorem roomIsExact (hpos : 0 < blockSize) : RoomIsExact p blockSize := by
  intro blocks _
  have hsize : blockSize ≠ 0 := Nat.ne_of_gt hpos
  change ((∃ d, p.init blockSize blocks = .ok d) ↔ blocks ≤ p.maximumBlocks blockSize) ∧
    (p.maximumBlocks blockSize < blocks → p.init blockSize blocks = _)
  rcases Nat.lt_or_ge (p.maximumBlocks blockSize) blocks with hlt | hle
  · have hop : p.init blockSize blocks =
        .error (.insufficientMemory blocks (p.maximumBlocks blockSize), p) := by
      rw [EmulatedProvider.init, if_neg hsize, if_pos hlt]
    refine ⟨⟨?_, fun hle => absurd hlt (Nat.not_lt.mpr hle)⟩, fun _ => hop⟩
    rintro ⟨d, hd⟩
    rw [hop] at hd
    cases hd
  · refine ⟨⟨fun _ => hle, fun _ => ⟨⟨.zeros (blockSize * blocks), blockSize, blocks⟩, ?_⟩⟩,
      fun hlt => absurd hlt (Nat.not_lt.mpr hle)⟩
    rw [EmulatedProvider.init, if_neg hsize, if_neg (Nat.not_lt.mpr hle)]

end EmulatedProvider

namespace PagedMemory

section Arithmetic

variable {blockSize blocks physicalSize : Nat}

theorem superblocksNeeded_le_iff {superblocks : Nat} :
    superblocksNeeded blockSize blocks ≤ superblocks ↔
      blockSize * blocks ≤ superblocks * superblockSize := by
  rw [superblocksNeeded, ← Nat.lt_succ_iff, Nat.div_lt_iff_lt_mul superblockSize_pos, Nat.succ_mul]
  have := superblockSize_pos
  omega

theorem superblocksNeeded_fits_iff :
    superblocksNeeded blockSize blocks * superblockSize ≤ physicalSize ↔
      blockSize * blocks ≤ physicalSize / superblockSize * superblockSize := by
  rw [← Nat.le_div_iff_mul_le superblockSize_pos, superblocksNeeded_le_iff]

theorem superblocksNeeded_mono {more : Nat} (h : blocks ≤ more) :
    superblocksNeeded blockSize blocks ≤ superblocksNeeded blockSize more :=
  superblocksNeeded_le_iff.mpr
    (Nat.le_trans (Nat.mul_le_mul_left blockSize h) (blocks_fit blockSize more))

theorem superblocksNeeded_div_fits_iff (hpos : 0 < blockSize) (hd : blockSize ∣ superblockSize) :
    superblocksNeeded blockSize (physicalSize / blockSize) * superblockSize ≤ physicalSize ↔
      physicalSize % superblockSize < blockSize := by
  have hwhole := Nat.div_add_mod physicalSize superblockSize
  have hblocks := Nat.div_add_mod physicalSize blockSize
  rw [Nat.mul_comm superblockSize] at hwhole
  rw [superblocksNeeded_fits_iff]
  constructor
  · intro hle
    have := Nat.mod_lt physicalSize hpos
    omega
  · intro hlt
    have hrest : physicalSize % blockSize = physicalSize % superblockSize := by
      rw [← Nat.mod_mod_of_dvd physicalSize hd, Nat.mod_eq_of_lt hlt]
    omega

end Arithmetic

section Fresh

variable {physicalSize reservedSize blockSize blocks : Nat}

def freshBanks (physicalSize reservedSize : Nat) : PagedProvider SimulatedBanks :=
  ⟨{ physicalSize, reservedSize }⟩

theorem alloc_freshBanks_of_le {bytes : Nat} (h : bytes ≤ physicalSize) :
    BankSwitch.alloc bytes (freshBanks physicalSize reservedSize).driver =
      (.ok (),
        { physicalSize, reservedSize, physical := Bytes.filled SimulatedBanks.poison bytes }) := by
  simp only [BankSwitch.alloc, SimulatedBanks.alloc, freshBanks, ByteArray.size_empty, ne_eq,
    not_true_eq_false, if_false]
  exact if_neg (Nat.not_lt.mpr h)

theorem alloc_freshBanks_of_lt {bytes : Nat} (h : physicalSize < bytes) :
    BankSwitch.alloc bytes (freshBanks physicalSize reservedSize).driver =
      (.error (.bankSwitch s!"cannot allocate {bytes} of {physicalSize} bytes"),
        (freshBanks physicalSize reservedSize).driver) := by
  simp only [BankSwitch.alloc, SimulatedBanks.alloc, freshBanks, ByteArray.size_empty, ne_eq,
    not_true_eq_false, if_false]
  exact if_pos h

theorem checkBlockSize_of_takesSize
    (h : TakesSize (freshBanks physicalSize reservedSize) blockSize) :
    checkBlockSize blockSize = .ok () := by
  rcases hc : checkBlockSize blockSize with e | _
  · have hop : BlockProvider.init (freshBanks physicalSize reservedSize) blockSize 0 =
        .error (e, freshBanks physicalSize reservedSize) := by
      change PagedProvider.init _ blockSize 0 = _
      simp only [PagedProvider.init, hc]
    obtain ⟨reason, rfl⟩ := checkBlockSize_eq_error hc
    exact absurd hop (h 0 reason _)
  · rfl

theorem maximumBlocks_freshBanks (hsize : checkBlockSize blockSize = .ok ()) :
    (freshBanks physicalSize reservedSize).maximumBlocks blockSize =
      min (physicalSize / blockSize) BlockDevice.blockLimit := by
  simp only [PagedProvider.maximumBlocks, hsize]
  rfl

theorem le_maximumBlocks_of_fits (hsize : checkBlockSize blockSize = .ok ())
    (hb : blocks ≤ BlockDevice.blockLimit)
    (hfit : superblocksNeeded blockSize blocks * superblockSize ≤ physicalSize) :
    blocks ≤ (freshBanks physicalSize reservedSize).maximumBlocks blockSize := by
  rw [maximumBlocks_freshBanks hsize]
  refine Nat.le_min.mpr ⟨?_, hb⟩
  rw [Nat.le_div_iff_mul_le (checkBlockSize_eq_ok hsize).1, Nat.mul_comm]
  exact Nat.le_trans (blocks_fit blockSize blocks) hfit

theorem init_of_fits (hsize : checkBlockSize blockSize = .ok ())
    (hreserved : superblockSize ≤ reservedSize) (hb : blocks ≤ BlockDevice.blockLimit)
    (hfit : superblocksNeeded blockSize blocks * superblockSize ≤ physicalSize) :
    ∃ m, (freshBanks physicalSize reservedSize).init blockSize blocks = .ok m := by
  have hroom : blocks ≤ (freshBanks physicalSize reservedSize).maximumBlocks blockSize :=
    le_maximumBlocks_of_fits hsize hb hfit
  obtain ⟨driver, ha, hm⟩ : ∃ driver,
      BankSwitch.alloc (superblocksNeeded blockSize blocks * superblockSize)
        (freshBanks physicalSize reservedSize).driver = (.ok (), driver) ∧
      BankContents.mapped driver = none :=
    ⟨_, alloc_freshBanks_of_le hfit, rfl⟩
  obtain ⟨hv, hd⟩ : LawfulBankSwitch.Valid True driver ∧
      BankContents.size driver = superblocksNeeded blockSize blocks * superblockSize :=
    LawfulBankSwitch.valid_of_alloc trivial ha hm
  have hfresh : ({ driver, blockSize, maxBlocks := blocks } : PagedMemory _).Valid True :=
    ⟨hv, hm, (checkBlockSize_eq_ok hsize).1, (checkBlockSize_eq_ok hsize).2, hd⟩
  rcases (ends_clearSuperblocks hfresh (Nat.le_of_eq (Nat.zero_add _))).cases with
    ⟨_, m, he, -⟩ | ⟨_, _, -, hn⟩
  · exact ⟨m, init_of_clear hsize hroom hreserved rfl ha he⟩
  · exact absurd trivial hn

theorem init_of_unfit (hsize : checkBlockSize blockSize = .ok ())
    (hreserved : superblockSize ≤ reservedSize)
    (hroom : blocks ≤ (freshBanks physicalSize reservedSize).maximumBlocks blockSize)
    (hlt : physicalSize < superblocksNeeded blockSize blocks * superblockSize) :
    (freshBanks physicalSize reservedSize).init blockSize blocks =
      .error (.bankSwitch
        s!"cannot allocate {superblocksNeeded blockSize blocks * superblockSize} of {physicalSize} bytes",
        freshBanks physicalSize reservedSize) := by
  have hreserved : ¬ BankSwitch.reservedSize (freshBanks physicalSize reservedSize).driver <
      superblockSize := Nat.not_lt.mpr hreserved
  simp only [PagedProvider.init, hsize, if_neg (Nat.not_lt.mpr hroom), if_neg hreserved,
    alloc_freshBanks_of_lt hlt]

theorem init_of_short (hsize : checkBlockSize blockSize = .ok ())
    (hshort : (freshBanks physicalSize reservedSize).maximumBlocks blockSize < blocks) :
    (freshBanks physicalSize reservedSize).init blockSize blocks =
      .error (.insufficientMemory blocks
        ((freshBanks physicalSize reservedSize).maximumBlocks blockSize),
        freshBanks physicalSize reservedSize) := by
  simp only [PagedProvider.init, hsize, if_pos hshort]

theorem init_ok_iff (hsize : checkBlockSize blockSize = .ok ())
    (hreserved : superblockSize ≤ reservedSize) (hb : blocks ≤ BlockDevice.blockLimit) :
    (∃ m, (freshBanks physicalSize reservedSize).init blockSize blocks = .ok m) ↔
      superblocksNeeded blockSize blocks * superblockSize ≤ physicalSize := by
  refine ⟨?_, init_of_fits hsize hreserved hb⟩
  rintro ⟨m, hm⟩
  refine Nat.not_lt.mp fun hunfit => ?_
  rw [init_of_unfit hsize hreserved (init_eq_ok hm).2.1 hunfit] at hm
  cases hm

theorem takesSize_freshBanks (hsize : checkBlockSize blockSize = .ok ())
    (hreserved : superblockSize ≤ reservedSize) :
    TakesSize (freshBanks physicalSize reservedSize) blockSize := by
  intro blocks reason left hop
  change (freshBanks physicalSize reservedSize).init blockSize blocks = _ at hop
  rcases Nat.lt_or_ge ((freshBanks physicalSize reservedSize).maximumBlocks blockSize) blocks with
    hshort | hroom
  · rw [init_of_short hsize hshort] at hop
    cases hop
  · rcases Nat.lt_or_ge physicalSize (superblocksNeeded blockSize blocks * superblockSize) with
      hlt | hfit
    · rw [init_of_unfit hsize hreserved hroom hlt] at hop
      cases hop
    · rw [maximumBlocks_freshBanks hsize] at hroom
      obtain ⟨m, hm⟩ := init_of_fits hsize hreserved (Nat.le_min.mp hroom).2 hfit
      rw [hm] at hop
      cases hop

theorem roomIsExact_iff_fits (hsize : checkBlockSize blockSize = .ok ())
    (hreserved : superblockSize ≤ reservedSize) :
    RoomIsExact (freshBanks physicalSize reservedSize) blockSize ↔
      superblocksNeeded blockSize (min (physicalSize / blockSize) BlockDevice.blockLimit) *
        superblockSize ≤ physicalSize := by
  have hmin : (freshBanks physicalSize reservedSize).maximumBlocks blockSize =
      min (physicalSize / blockSize) BlockDevice.blockLimit := maximumBlocks_freshBanks hsize
  have hlimit : (freshBanks physicalSize reservedSize).maximumBlocks blockSize ≤
      BlockDevice.blockLimit := by
    rw [hmin]
    exact Nat.min_le_right _ _
  rw [← hmin]
  constructor
  · intro h
    exact (init_ok_iff hsize hreserved hlimit).mp ((h _ hlimit).1.mpr (Nat.le_refl _))
  · intro hmax blocks hb
    refine ⟨(init_ok_iff hsize hreserved hb).trans
      ⟨le_maximumBlocks_of_fits hsize hb, fun hle => ?_⟩,
      init_of_short hsize⟩
    exact Nat.le_trans (Nat.mul_le_mul_right superblockSize (superblocksNeeded_mono hle)) hmax

theorem roomIsExact_freshBanks_iff (hsize : checkBlockSize blockSize = .ok ())
    (hreserved : superblockSize ≤ reservedSize) :
    RoomIsExact (freshBanks physicalSize reservedSize) blockSize ↔
      physicalSize % superblockSize < blockSize ∨
      superblocksNeeded blockSize BlockDevice.blockLimit * superblockSize ≤ physicalSize := by
  obtain ⟨hpos, hd⟩ := checkBlockSize_eq_ok hsize
  rw [roomIsExact_iff_fits hsize hreserved, ← superblocksNeeded_div_fits_iff hpos hd]
  have hmono {a b : Nat} (h : a ≤ b) :
      superblocksNeeded blockSize a * superblockSize ≤
        superblocksNeeded blockSize b * superblockSize :=
    Nat.mul_le_mul_right superblockSize (superblocksNeeded_mono h)
  rcases Nat.le_total (physicalSize / blockSize) BlockDevice.blockLimit with hle | hle
  · rw [Nat.min_eq_left hle]
    exact ⟨.inl, fun h => h.elim id (Nat.le_trans (hmono hle))⟩
  · rw [Nat.min_eq_right hle]
    exact ⟨.inr, fun h => h.elim (Nat.le_trans (hmono hle)) id⟩

end Fresh

end PagedMemory

/-- The room in a flat buffer is exact. That in fresh banks is exact unless a block too many fits
into the bytes after the last whole superblock; a set-up of such blocks is refused by the driver. -/
theorem init_ok_iff_room (blockSize : Nat) :
    (∀ p : EmulatedProvider, TakesSize p blockSize → RoomIsExact p blockSize) ∧
    ∀ physicalSize reservedSize, superblockSize ≤ reservedSize →
      let p := PagedMemory.freshBanks physicalSize reservedSize
      TakesSize p blockSize →
      (∀ blocks ≤ BlockDevice.blockLimit,
        let bytes := PagedMemory.superblocksNeeded blockSize blocks * superblockSize
        ((∃ m, p.init blockSize blocks = .ok m) ↔ bytes ≤ physicalSize) ∧
        (p.maximumBlocks blockSize < blocks → p.init blockSize blocks =
          .error (.insufficientMemory blocks (p.maximumBlocks blockSize), p)) ∧
        (blocks ≤ p.maximumBlocks blockSize → physicalSize < bytes → p.init blockSize blocks =
          .error (.bankSwitch s!"cannot allocate {bytes} of {physicalSize} bytes", p))) ∧
      (RoomIsExact p blockSize ↔
        physicalSize % superblockSize < blockSize ∨
        PagedMemory.superblocksNeeded blockSize BlockDevice.blockLimit * superblockSize ≤
          physicalSize) := by
  refine ⟨fun p h => EmulatedProvider.roomIsExact (EmulatedProvider.takesSize_iff.mp h), ?_⟩
  intro physicalSize reservedSize hreserved p h
  have hsize := PagedMemory.checkBlockSize_of_takesSize h
  refine ⟨fun blocks hb => ⟨?_, ?_, ?_⟩, PagedMemory.roomIsExact_freshBanks_iff hsize hreserved⟩
  · exact PagedMemory.init_ok_iff hsize hreserved hb
  · exact PagedMemory.init_of_short hsize
  · exact PagedMemory.init_of_unfit hsize hreserved

/-- A superblock and one block more: there is said to be room for 33 blocks, and 32 can
be set up. -/
theorem init_ok_iff_room_of_odd_banks :
    RoomIsExact ({} : EmulatedProvider) 1000 ∧
    TakesSize (PagedMemory.freshBanks 33792 32768) 1024 ∧
    (PagedMemory.freshBanks 33792 32768).maximumBlocks 1024 = 33 ∧
    (∃ m, (PagedMemory.freshBanks 33792 32768).init 1024 32 = .ok m) ∧
    (PagedMemory.freshBanks 33792 32768).init 1024 33 =
      .error (.bankSwitch "cannot allocate 65536 of 33792 bytes",
        PagedMemory.freshBanks 33792 32768) ∧
    RoomIsExact (PagedMemory.freshBanks 65536 32768) 1024 := by
  have htakes (physicalSize : Nat) : TakesSize (PagedMemory.freshBanks physicalSize 32768) 1024 :=
    PagedMemory.takesSize_freshBanks rfl (by decide)
  obtain ⟨-, hpaged⟩ := init_ok_iff_room 1024
  obtain ⟨hodd, -⟩ := hpaged 33792 32768 (by decide) (htakes _)
  obtain ⟨-, heven⟩ := hpaged 65536 32768 (by decide) (htakes _)
  obtain ⟨hemulated, -⟩ := init_ok_iff_room 1000
  refine ⟨hemulated {} (EmulatedProvider.takesSize_iff.mpr (by decide)),
    htakes _, by decide, ?_, ?_,
    heven.mpr (.inl (by decide))⟩
  · exact (hodd 32 (by decide)).1.mpr (by decide)
  · exact (hodd 33 (by decide)).2.2 (by decide) (by decide)

theorem not_roomIsExact_odd_banks :
    TakesSize (PagedMemory.freshBanks 33792 32768) 1024 ∧
    ¬ RoomIsExact (PagedMemory.freshBanks 33792 32768) 1024 := by
  refine ⟨PagedMemory.takesSize_freshBanks rfl (by decide), fun h => ?_⟩
  have := (PagedMemory.roomIsExact_freshBanks_iff rfl (by decide)).mp h
  exact absurd this (by decide)

end TieredMemory
