import TieredMemory.Block.Clipped
import TieredMemory.Block.Emulated
import TieredMemory.Proofs.Backend.Contents

namespace TieredMemory

class BlockContents (D : Type) where
  byteAt : D → (block offset : Nat) → UInt8

structure SameBlocks {D : Type} [BlockDevice D] [BlockContents D] (d t : D) : Prop where
  blockSize : BlockDevice.blockSize t = BlockDevice.blockSize d
  maxBlocks : BlockDevice.maxBlocks t = BlockDevice.maxBlocks d
  bytes : BlockContents.byteAt t = BlockContents.byteAt d

def BlockDevice.InBlock {D : Type} [BlockDevice D] (d : D) (block offset length : Nat) : Prop :=
  block < BlockDevice.maxBlocks d ∧ offset + length ≤ BlockDevice.blockSize d

class LawfulDevice (D : Type) [BlockDevice D] [BlockContents D] where
  Valid : (sure : Prop) → D → Prop
  ends_read {sure : Prop} {d : D} (block offset length : Nat) : Valid sure d →
    (BlockDevice.read block offset length : Op D (Nat × ByteArray)).Ends d
      (fun a t => Valid sure t ∧ SameBlocks d t ∧ BlockDevice.InBlock d block offset length ∧
        a.1 = length ∧ Bytes.Shows (BlockContents.byteAt d block) offset length a.2)
      (fun _ t => Valid sure t ∧ SameBlocks d t ∧
        ¬ (sure ∧ BlockDevice.InBlock d block offset length))
  ends_write {sure : Prop} {d : D} (block offset : Nat) (data : ByteArray) : Valid sure d →
    (BlockDevice.write block offset data : Op D Nat).Ends d
      (fun a t => Valid sure t ∧ BlockDevice.InBlock d block offset data.size ∧ a = data.size ∧
        BlockDevice.blockSize t = BlockDevice.blockSize d ∧
        BlockDevice.maxBlocks t = BlockDevice.maxBlocks d ∧
        BlockContents.byteAt t block = Bytes.overlay offset data (BlockContents.byteAt d block) ∧
        ∀ b, b ≠ block → BlockContents.byteAt t b = BlockContents.byteAt d b)
      (fun _ t => Valid sure t ∧ SameBlocks d t ∧
        ¬ (sure ∧ BlockDevice.InBlock d block offset data.size))
  ends_close {sure : Prop} {d : D} : Valid sure d →
    (BlockDevice.close : Op D Unit).Ends d (fun _ _ => True) (fun _ _ => ¬ sure)

class LawfulProvider (P : Type) (D : outParam Type) [BlockProvider P D] [BlockDevice D]
    [BlockContents D] [LawfulDevice D] where
  Ready : (sure : Prop) → P → Prop
  valid_of_init {sure : Prop} {p : P} {d : D} {blockSize blocks : Nat} : Ready sure p →
    (sure → 0 < blocks) → BlockProvider.init p blockSize blocks = .ok d →
    LawfulDevice.Valid sure d ∧ BlockDevice.blockSize d = blockSize ∧
      BlockDevice.maxBlocks d = blocks

theorem SameBlocks.refl {D : Type} [BlockDevice D] [BlockContents D] (d : D) : SameBlocks d d :=
  ⟨rfl, rfl, rfl⟩

def blockOf (blockSize : Nat) (m : Nat → UInt8) (block offset : Nat) : UInt8 :=
  if offset < blockSize then m (block * blockSize + offset) else 0

theorem shows_blockOf {blockSize block offset length : Nat} {m : Nat → UInt8} {data : ByteArray}
    (h : offset + length ≤ blockSize)
    (hd : Bytes.Shows m (block * blockSize + offset) length data) :
    Bytes.Shows (blockOf blockSize m block) offset length data := by
  refine ⟨hd.1, fun i hi => ?_⟩
  rw [hd.2 i hi, blockOf, if_pos (by omega), Nat.add_assoc]

theorem blockOf_overlay_self {blockSize block offset : Nat} {data : ByteArray} (m : Nat → UInt8)
    (h : offset + data.size ≤ blockSize) :
    blockOf blockSize (Bytes.overlay (block * blockSize + offset) data m) block =
      Bytes.overlay offset data (blockOf blockSize m block) := by
  funext i
  simp only [blockOf, Bytes.overlay]
  by_cases hi : i < blockSize
  · rw [if_pos hi, if_pos hi]
    by_cases hr : offset ≤ i ∧ i < offset + data.size
    · rw [if_pos hr, if_pos (by omega)]
      congr 1
      omega
    · rw [if_neg hr, if_neg (by omega)]
  · rw [if_neg hi, if_neg hi, if_neg (by omega)]

theorem blockOf_overlay_ne {blockSize block b offset : Nat} {data : ByteArray} (m : Nat → UInt8)
    (h : offset + data.size ≤ blockSize) (hb : b ≠ block) :
    blockOf blockSize (Bytes.overlay (block * blockSize + offset) data m) b =
      blockOf blockSize m b := by
  funext i
  simp only [blockOf, Bytes.overlay]
  by_cases hi : i < blockSize
  · rw [if_pos hi, if_pos hi, if_neg]
    rintro ⟨h₁, h₂⟩
    rcases Nat.lt_or_gt_of_ne hb with hlt | hgt
    · have := Nat.mul_le_mul_right blockSize (show b + 1 ≤ block from hlt)
      rw [Nat.succ_mul] at this
      omega
    · have := Nat.mul_le_mul_right blockSize (show block + 1 ≤ b from hgt)
      rw [Nat.succ_mul] at this
      omega
  · rw [if_neg hi, if_neg hi]

namespace BlockDevice

theorem checkAccess_cases (block maxBlocks blockSize offset length : Nat) :
    (checkAccess block maxBlocks blockSize offset length = .ok () ∧ block < maxBlocks ∧
      offset + length ≤ blockSize) ∨
    ∃ e, checkAccess block maxBlocks blockSize offset length = .error e ∧
      ¬ (block < maxBlocks ∧ offset + length ≤ blockSize) := by
  rcases h : checkAccess block maxBlocks blockSize offset length with e | _
  · refine .inr ⟨e, rfl, fun hr => ?_⟩
    rw [checkAccess_eq_ok_iff.mpr hr] at h
    cases h
  · exact .inl ⟨rfl, checkAccess_eq_ok_iff.mp h⟩

end BlockDevice

namespace EmulatedMemory

instance : BlockContents EmulatedMemory where
  byteAt m := blockOf m.blockSize m.container.byteAt

instance : LawfulDevice EmulatedMemory where
  Valid _ _ := True
  ends_read {sure m} block offset length _ := by
    rcases BlockDevice.checkAccess_cases block m.maxBlocks m.blockSize offset length with
      ⟨hc, hr⟩ | ⟨e, hc, hr⟩
    · refine .of_ok (a := (length, m.container.slice (m.position block offset) length)) (t := m) ?_
        ⟨trivial, .refl m, hr, rfl, shows_blockOf hr.2 (FlatMemory.shows_slice _ _ _)⟩
      change EmulatedMemory.read block offset length m = _
      simp only [EmulatedMemory.read, hc]
    · refine .of_error (e := e) (t := m) ?_ ⟨trivial, .refl m, fun h => hr h.2⟩
      change EmulatedMemory.read block offset length m = _
      simp only [EmulatedMemory.read, hc]
  ends_write {sure m} block offset data _ := by
    rcases BlockDevice.checkAccess_cases block m.maxBlocks m.blockSize offset data.size with
      ⟨hc, hr⟩ | ⟨e, hc, hr⟩
    · have hp : (m.container.patch (m.position block offset) data).byteAt =
          Bytes.overlay (block * m.blockSize + offset) data m.container.byteAt := by
        funext i
        exact SparseBytes.byteAt_patch _ _ _ i
      refine .of_ok (a := data.size)
        (t := { m with container := m.container.patch (m.position block offset) data }) ?_
        ⟨trivial, hr, rfl, rfl, rfl, ?_, fun b hb => ?_⟩
      · change EmulatedMemory.write block offset data m = _
        simp only [EmulatedMemory.write, hc]
      · exact (congrArg (blockOf m.blockSize · block) hp).trans (blockOf_overlay_self _ hr.2)
      · exact (congrArg (blockOf m.blockSize · b) hp).trans (blockOf_overlay_ne _ hr.2 hb)
    · refine .of_error (e := e) (t := m) ?_ ⟨trivial, .refl m, fun h => hr h.2⟩
      change EmulatedMemory.write block offset data m = _
      simp only [EmulatedMemory.write, hc]
  ends_close _ := trivial

theorem size_of_init {p : EmulatedProvider} {m : EmulatedMemory} {blockSize blocks : Nat}
    (h : p.init blockSize blocks = .ok m) : m.blockSize = blockSize ∧ m.maxBlocks = blocks := by
  rw [EmulatedProvider.init] at h
  split at h
  · cases h
  · split at h
    · cases h
    · cases h
      exact ⟨rfl, rfl⟩

instance : LawfulProvider EmulatedProvider EmulatedMemory where
  Ready _ _ := True
  valid_of_init _ _ h := ⟨trivial, size_of_init h⟩

end EmulatedMemory

namespace Clipped

variable {D : Type} [BlockDevice D] [BlockContents D]

instance : BlockContents (Clipped D) where
  byteAt c := BlockContents.byteAt c.device

variable [LawfulDevice D]

protected structure Valid (sure : Prop) (c : Clipped D) : Prop where
  device : LawfulDevice.Valid sure c.device
  limit : BlockDevice.blockSize c.device ≤ c.limit

theorem ends_read {sure : Prop} {c : Clipped D} (block offset length : Nat) (h : c.Valid sure) :
    (Clipped.read block offset length).Ends c
      (fun a t => t.Valid sure ∧ SameBlocks c t ∧ BlockDevice.InBlock c block offset length ∧
        a.1 = length ∧ Bytes.Shows (BlockContents.byteAt c block) offset length a.2)
      (fun _ t => t.Valid sure ∧ SameBlocks c t ∧
        ¬ (sure ∧ BlockDevice.InBlock c block offset length)) := by
  rcases (LawfulDevice.ends_read block offset length h.device).cases with
    ⟨⟨moved, data⟩, t, he, hv, hs, hr, hm, hd⟩ | ⟨e, t, he, hv, hs, hr⟩
  · have hl : min c.limit moved = length := by
      have := h.limit
      have := hr.2
      simp only at hm
      omega
    refine .of_ok (a := (min c.limit moved, data)) (t := { c with device := t }) ?_
      ⟨⟨hv, hs.blockSize ▸ h.limit⟩, ⟨hs.blockSize, hs.maxBlocks, hs.bytes⟩, hr, hl, hd⟩
    simp only [Clipped.read, pass, Op.bind_apply_ok he, Op.pure_apply]
  · refine .of_error (e := e) (t := { c with device := t }) ?_
      ⟨⟨hv, hs.blockSize ▸ h.limit⟩, ⟨hs.blockSize, hs.maxBlocks, hs.bytes⟩, hr⟩
    simp only [Clipped.read, pass, Op.bind_apply_error he]

theorem ends_write {sure : Prop} {c : Clipped D} (block offset : Nat) (data : ByteArray)
    (h : c.Valid sure) :
    (Clipped.write block offset data).Ends c
      (fun a t => t.Valid sure ∧ BlockDevice.InBlock c block offset data.size ∧ a = data.size ∧
        BlockDevice.blockSize t = BlockDevice.blockSize c ∧
        BlockDevice.maxBlocks t = BlockDevice.maxBlocks c ∧
        BlockContents.byteAt t block = Bytes.overlay offset data (BlockContents.byteAt c block) ∧
        ∀ b, b ≠ block → BlockContents.byteAt t b = BlockContents.byteAt c b)
      (fun _ t => t.Valid sure ∧ SameBlocks c t ∧
        ¬ (sure ∧ BlockDevice.InBlock c block offset data.size)) := by
  rcases (LawfulDevice.ends_write block offset data h.device).cases with
    ⟨moved, t, he, hv, hr, hm, hb, hx, hd⟩ | ⟨e, t, he, hv, hs, hr⟩
  · have hl : min c.limit moved = data.size := by
      have := h.limit
      have := hr.2
      omega
    refine .of_ok (a := min c.limit moved) (t := { c with device := t }) ?_
      ⟨⟨hv, hb ▸ h.limit⟩, hr, hl, hb, hx, hd⟩
    simp only [Clipped.write, pass, Op.bind_apply_ok he, Op.pure_apply]
  · refine .of_error (e := e) (t := { c with device := t }) ?_
      ⟨⟨hv, hs.blockSize ▸ h.limit⟩, ⟨hs.blockSize, hs.maxBlocks, hs.bytes⟩, hr⟩
    simp only [Clipped.write, pass, Op.bind_apply_error he]

theorem ends_close {sure : Prop} {c : Clipped D} (h : c.Valid sure) :
    (pass BlockDevice.close : Op (Clipped D) Unit).Ends c (fun _ _ => True)
    (fun _ _ => ¬ sure) := by
  rcases (LawfulDevice.ends_close h.device).cases with ⟨a, t, he, -⟩ | ⟨e, t, he, hn⟩
  · exact .of_ok (a := a) (t := { c with device := t }) (by simp only [pass, he]) trivial
  · exact .of_error (e := e) (t := { c with device := t }) (by simp only [pass, he]) hn

instance : LawfulDevice (Clipped D) where
  Valid sure c := c.Valid sure
  ends_read := ends_read
  ends_write := ends_write
  ends_close := ends_close

end Clipped

end TieredMemory
