import TieredMemory.Page.Storage
import TieredMemory.Proofs.Block.Device

namespace TieredMemory

class PageContents (S H : Type) where
  byteAt : S → H → Nat → UInt8

def SamePages {S H : Type} [PageContents S H] (s t : S) (handles : List H) : Prop :=
  ∀ g ∈ handles, PageContents.byteAt t g = PageContents.byteAt s g

class LawfulStorage (S H : Type) [PageStorage S H] [PageContents S H] where
  Valid : (sure : Prop) → (pageSize count : Nat) → S → List H → Prop
  valid_perm {sure : Prop} {pageSize count : Nat} {s : S} {hs hs' : List H} :
    hs.Perm hs' → Valid sure pageSize count s hs → Valid sure pageSize count s hs'
  ends_acquire {sure : Prop} {pageSize count : Nat} {s : S} {hs : List H} :
    Valid sure pageSize count s hs →
    (PageStorage.acquire : Op S H).Ends s
      (fun h t => Valid sure pageSize count t (h :: hs) ∧ SamePages s t hs)
      (fun _ t => Valid sure pageSize count t hs ∧ SamePages s t hs ∧ ¬ (sure ∧ hs.length < count))
  ends_release {sure : Prop} {pageSize count : Nat} {s : S} {h : H} {hs : List H} :
    Valid sure pageSize count s (h :: hs) →
    (PageStorage.release h : Op S Unit).Ends s
      (fun _ t => Valid sure pageSize count t hs ∧ SamePages s t hs) (fun _ _ => False)
  ends_read {sure : Prop} {pageSize count : Nat} {s : S} {h : H} {hs : List H}
    (offset length : Nat) : Valid sure pageSize count s (h :: hs) →
    (PageStorage.read h offset length : Op S ByteArray).Ends s
      (fun data t => Valid sure pageSize count t (h :: hs) ∧ SamePages s t (h :: hs) ∧
        Bytes.Shows (PageContents.byteAt s h) offset length data)
      (fun _ t => Valid sure pageSize count t (h :: hs) ∧ SamePages s t (h :: hs) ∧
        ¬ (sure ∧ offset + length ≤ pageSize))
  ends_write {sure : Prop} {pageSize count : Nat} {s : S} {h : H} {hs : List H}
    (offset : Nat) (data : ByteArray) : Valid sure pageSize count s (h :: hs) →
    (PageStorage.write offset data : Op (H × S) Unit).Ends (h, s)
      (fun _ t => Valid sure pageSize count t.2 (t.1 :: hs) ∧ SamePages s t.2 hs ∧
        PageContents.byteAt t.2 t.1 = Bytes.overlay offset data (PageContents.byteAt s h))
      (fun _ t => Valid sure pageSize count t.2 (t.1 :: hs) ∧ SamePages s t.2 hs ∧
        PageContents.byteAt t.2 t.1 = PageContents.byteAt s h ∧
        ¬ (sure ∧ offset + data.size ≤ pageSize))
  ends_close {sure : Prop} {pageSize count : Nat} {s : S} : Valid sure pageSize count s [] →
    (PageStorage.close : Op S Unit).Ends s (fun _ _ => True) (fun _ _ => ¬ sure)

section SamePages

variable {S H : Type} [PageContents S H] {s t u : S} {hs : List H}

theorem SamePages.refl (s : S) (hs : List H) : SamePages s s hs := fun _ _ => rfl

theorem SamePages.trans (h : SamePages s t hs) (h' : SamePages t u hs) : SamePages s u hs :=
  fun g hg => (h' g hg).trans (h g hg)

end SamePages

namespace HeapStorage

instance : PageContents HeapStorage ByteArray where
  byteAt _ page := Bytes.byteAt page

protected structure Valid (sure : Prop) (pageSize : Nat) (s : HeapStorage)
    (pages : List ByteArray) : Prop where
  size : ∀ page ∈ pages, page.size = s.pageSize
  room : sure → pageSize ≤ s.pageSize

theorem checkBounds_cases (pageSize offset length : Nat) :
    (checkBounds pageSize offset length = .ok () ∧ offset + length ≤ pageSize) ∨
    ∃ e, checkBounds pageSize offset length = .error e ∧ ¬ offset + length ≤ pageSize := by
  by_cases h : offset + length ≤ pageSize
  · exact .inl ⟨if_pos h, h⟩
  · exact .inr ⟨_, if_neg h, h⟩

variable {sure : Prop} {pageSize : Nat} {s : HeapStorage} {page : ByteArray}
  {pages : List ByteArray}

theorem ends_read (offset length : Nat) (h : s.Valid sure pageSize (page :: pages)) :
    (HeapStorage.read page offset length).Ends s
      (fun data t => t.Valid sure pageSize (page :: pages) ∧ SamePages s t (page :: pages) ∧
        Bytes.Shows (PageContents.byteAt s page) offset length data)
      (fun _ t => t.Valid sure pageSize (page :: pages) ∧ SamePages s t (page :: pages) ∧
        ¬ (sure ∧ offset + length ≤ pageSize)) := by
  have hp := h.size page List.mem_cons_self
  rcases checkBounds_cases s.pageSize offset length with ⟨hc, hr⟩ | ⟨e, hc, hr⟩
  · refine .of_ok (a := Bytes.slice page offset length) (t := s)
      (by simp only [HeapStorage.read, hc])
      ⟨h, .refl s _, Bytes.size_slice (by omega), fun i hi => Bytes.byteAt_slice hi⟩
  · refine .of_error (e := e) (t := s) (by simp only [HeapStorage.read, hc])
      ⟨h, .refl s _, fun hx => ?_⟩
    have := h.room hx.1
    omega

theorem ends_write (offset : Nat) (data : ByteArray) (h : s.Valid sure pageSize (page :: pages)) :
    (HeapStorage.write offset data).Ends (page, s)
      (fun _ t => t.2.Valid sure pageSize (t.1 :: pages) ∧ SamePages s t.2 pages ∧
        PageContents.byteAt t.2 t.1 = Bytes.overlay offset data (PageContents.byteAt s page))
      (fun _ t => t.2.Valid sure pageSize (t.1 :: pages) ∧ SamePages s t.2 pages ∧
        PageContents.byteAt t.2 t.1 = PageContents.byteAt s page ∧
        ¬ (sure ∧ offset + data.size ≤ pageSize)) := by
  have hp := h.size page List.mem_cons_self
  rcases checkBounds_cases s.pageSize offset data.size with ⟨hc, hr⟩ | ⟨e, hc, hr⟩
  · refine .of_ok (a := ()) (t := (Bytes.patch page offset data, s))
      (by simp only [HeapStorage.write, hc]) ⟨⟨?_, h.room⟩, .refl s _, ?_⟩
    · rw [List.forall_mem_cons]
      refine ⟨?_, fun g hg => h.size g (List.mem_cons_of_mem page hg)⟩
      rw [Bytes.size_patch (by omega), hp]
      exact Nat.max_eq_left hr
    · funext i
      exact Bytes.byteAt_patch (by omega) i
  · refine .of_error (e := e) (t := (page, s)) (by simp only [HeapStorage.write, hc])
      ⟨h, .refl s _, rfl, fun hx => ?_⟩
    have := h.room hx.1
    omega

instance : LawfulStorage HeapStorage ByteArray where
  Valid sure pageSize _ s pages := s.Valid sure pageSize pages
  valid_perm hp h := ⟨fun g hg => HeapStorage.Valid.size h g (hp.mem_iff.mpr hg), h.room⟩
  ends_acquire {sure pageSize _ s pages} h := by
    refine .of_ok (a := Bytes.zeros s.pageSize) (t := s) rfl ⟨⟨?_, h.room⟩, .refl s _⟩
    rw [List.forall_mem_cons]
    exact ⟨Bytes.size_zeros s.pageSize, h.size⟩
  ends_release h := ⟨⟨(List.forall_mem_cons.mp (HeapStorage.Valid.size h)).2, h.room⟩, .refl _ _⟩
  ends_read := ends_read
  ends_write := ends_write
  ends_close _ := trivial

end HeapStorage

namespace BlockStorage

variable {D : Type} [BlockDevice D]

structure Issued (a : Allocator D) (blocks : List Nat) : Prop where
  nodup : (a.freeList ++ blocks).Nodup
  lt : ∀ b ∈ a.freeList ++ blocks, b < a.nextUnused
  count : a.freeList.length + blocks.length = a.nextUnused
  le : a.nextUnused ≤ a.maxBlocks

section Allocation

variable {a : Allocator D} {blocks : List Nat}

theorem Issued.perm {blocks' : List Nat} (hp : blocks.Perm blocks') (h : Issued a blocks) :
    Issued a blocks' := by
  have hp' := hp.append_left a.freeList
  exact ⟨hp'.nodup_iff.mp h.nodup, fun b hb => h.lt b (hp'.mem_iff.mpr hb),
    hp.length_eq ▸ h.count, h.le⟩

theorem Issued.allocate (h : Issued a blocks) :
    Allocator.allocate.Ends a (fun b t => t.device = a.device ∧ Issued t (b :: blocks))
      (fun _ t => t = a ∧ a.maxBlocks ≤ blocks.length) := by
  cases hf : a.freeList with
  | cons b rest =>
    have hp : (rest ++ b :: blocks).Perm (a.freeList ++ blocks) := hf ▸ List.perm_middle
    refine .of_ok (a := b) (t := { a with freeList := rest })
      (by simp only [Allocator.allocate, hf])
      ⟨rfl, hp.nodup_iff.mpr h.nodup, fun c hc => h.lt c (hp.mem_iff.mp hc), ?_, h.le⟩
    have hc := h.count
    rw [hf, List.length_cons] at hc
    rw [List.length_cons]
    change rest.length + (blocks.length + 1) = a.nextUnused
    omega
  | nil =>
    have hn := h.nodup
    have hlt := h.lt
    have hc := h.count
    rw [hf, List.nil_append] at hn hlt
    rw [hf, List.length_nil, Nat.zero_add] at hc
    by_cases hu : a.nextUnused < a.maxBlocks
    · refine .of_ok (a := a.nextUnused) (t := { a with nextUnused := a.nextUnused + 1 })
        (by simp only [Allocator.allocate, hf, if_pos hu]) ⟨rfl, ?_, ?_, ?_, hu⟩
      · change (a.freeList ++ a.nextUnused :: blocks).Nodup
        rw [hf, List.nil_append, List.nodup_cons]
        exact ⟨fun hm => Nat.lt_irrefl _ (hlt _ hm), hn⟩
      · change ∀ b ∈ a.freeList ++ a.nextUnused :: blocks, b < a.nextUnused + 1
        rw [hf, List.nil_append, List.forall_mem_cons]
        exact ⟨Nat.lt_succ_self _, fun b hb => Nat.lt_succ_of_lt (hlt b hb)⟩
      · change a.freeList.length + (blocks.length + 1) = a.nextUnused + 1
        rw [hf, List.length_nil]
        omega
    · refine .of_error (e := .noSpace) (t := a) (by simp only [Allocator.allocate, hf, if_neg hu])
        ⟨rfl, by omega⟩

theorem Issued.free {block : Nat} (h : Issued a (block :: blocks)) :
    (Allocator.free block).Ends a (fun _ t => t.device = a.device ∧ Issued t blocks)
      (fun _ _ => False) := by
  have hp : (block :: a.freeList ++ blocks).Perm (a.freeList ++ block :: blocks) :=
    List.perm_middle.symm
  have hlt : block < a.nextUnused := h.lt block (hp.mem_iff.mp List.mem_cons_self)
  refine .of_ok (a := ()) (t := { a with freeList := block :: a.freeList }) ?_
    ⟨rfl, hp.nodup_iff.mpr h.nodup, fun c hc => h.lt c (hp.mem_iff.mp hc), ?_, h.le⟩
  · simp only [Allocator.free, if_neg (Nat.not_le.mpr hlt)]
  · have hc := h.count
    rw [List.length_cons] at hc
    change a.freeList.length + 1 + blocks.length = a.nextUnused
    omega

theorem Issued.withDevice {d : D} (h : Issued a blocks)
    (hd : BlockDevice.maxBlocks d = BlockDevice.maxBlocks a.device) :
    Issued { a with device := d } blocks :=
  ⟨h.nodup, h.lt, h.count, Nat.le_trans h.le (Nat.le_of_eq hd.symm)⟩

end Allocation

section Passing

variable {α : Type} {s : BlockStorage D} {answer : Except Error α}

omit [BlockDevice D] in
theorem onAllocator_apply {op : Op (Allocator D) α} {a : Allocator D}
    (h : op s.allocator = (answer, a)) : onAllocator op s = (answer, ⟨a⟩) := by
  simp only [onAllocator, h]

omit [BlockDevice D] in
theorem onDevice_apply {op : Op D α} {d : D} (h : op s.allocator.device = (answer, d)) :
    onAllocator (Allocator.onDevice op) s = (answer, ⟨{ s.allocator with device := d }⟩) :=
  onAllocator_apply (by simp only [Allocator.onDevice, h])

end Passing

variable [BlockContents D]

instance : PageContents (BlockStorage D) Nat where
  byteAt s block := BlockContents.byteAt s.allocator.device block

variable [LawfulDevice D]

protected structure Valid (sure : Prop) (pageSize count : Nat) (s : BlockStorage D)
    (blocks : List Nat) : Prop where
  device : LawfulDevice.Valid sure s.allocator.device
  issued : Issued s.allocator blocks
  room : sure → pageSize ≤ s.allocator.blockSize ∧ count ≤ s.allocator.maxBlocks

variable {sure : Prop} {pageSize count : Nat} {s : BlockStorage D} {block : Nat} {blocks : List Nat}

theorem Valid.withAllocator {a : Allocator D} {blocks' : List Nat}
    (h : s.Valid sure pageSize count blocks) (hd : a.device = s.allocator.device)
    (hi : Issued a blocks') : BlockStorage.Valid sure pageSize count ⟨a⟩ blocks' := by
  refine ⟨hd ▸ h.device, hi, ?_⟩
  change sure → pageSize ≤ BlockDevice.blockSize a.device ∧ count ≤ BlockDevice.maxBlocks a.device
  rw [hd]
  exact h.room

theorem Valid.withDevice {d : D} (h : s.Valid sure pageSize count blocks)
    (hd : LawfulDevice.Valid sure d)
    (hb : BlockDevice.blockSize d = BlockDevice.blockSize s.allocator.device)
    (hm : BlockDevice.maxBlocks d = BlockDevice.maxBlocks s.allocator.device) :
    BlockStorage.Valid sure pageSize count ⟨{ s.allocator with device := d }⟩ blocks :=
  ⟨hd, h.issued.withDevice hm,
    fun hs => ⟨Nat.le_trans (h.room hs).1 (Nat.le_of_eq hb.symm),
      Nat.le_trans (h.room hs).2 (Nat.le_of_eq hm.symm)⟩⟩

theorem ends_acquire (h : s.Valid sure pageSize count blocks) :
    (PageStorage.acquire : Op (BlockStorage D) Nat).Ends s
      (fun b t => t.Valid sure pageSize count (b :: blocks) ∧ SamePages s t blocks)
      (fun _ t => t.Valid sure pageSize count blocks ∧ SamePages s t blocks ∧
        ¬ (sure ∧ blocks.length < count)) := by
  rcases h.issued.allocate.cases with ⟨b, a, he, hd, hi⟩ | ⟨e, a, he, rfl, hn⟩
  · refine .of_ok (onAllocator_apply he) ⟨h.withAllocator hd hi, fun g _ => ?_⟩
    exact congrArg (BlockContents.byteAt · g) hd
  · refine .of_error (onAllocator_apply he) ⟨h, .refl s _, fun hx => ?_⟩
    have := (h.room hx.1).2
    omega

theorem ends_release (h : s.Valid sure pageSize count (block :: blocks)) :
    (PageStorage.release block : Op (BlockStorage D) Unit).Ends s
      (fun _ t => t.Valid sure pageSize count blocks ∧ SamePages s t blocks)
      (fun _ _ => False) := by
  rcases h.issued.free.cases with ⟨_, a, he, hd, hi⟩ | ⟨_, _, _, hf⟩
  · refine .of_ok (onAllocator_apply he) ⟨h.withAllocator hd hi, fun g _ => ?_⟩
    exact congrArg (BlockContents.byteAt · g) hd
  · exact hf.elim

theorem ends_read (offset length : Nat) (h : s.Valid sure pageSize count (block :: blocks)) :
    (BlockStorage.read block offset length).Ends s
      (fun data t =>
        t.Valid sure pageSize count (block :: blocks) ∧ SamePages s t (block :: blocks) ∧
        Bytes.Shows (PageContents.byteAt s block) offset length data)
      (fun _ t => t.Valid sure pageSize count (block :: blocks) ∧ SamePages s t (block :: blocks) ∧
        ¬ (sure ∧ offset + length ≤ pageSize)) := by
  have hb : block < BlockDevice.maxBlocks s.allocator.device :=
    Nat.lt_of_lt_of_le (h.issued.lt block (List.mem_append_right _ List.mem_cons_self)) h.issued.le
  rcases (LawfulDevice.ends_read block offset length h.device).cases with
    ⟨⟨moved, data⟩, d, he, hv, hs, hr, hm, hd⟩ | ⟨e, d, he, hv, hs, hr⟩
  · have hop : onAllocator (Allocator.read block offset length) s =
        (.ok (moved, data), ⟨{ s.allocator with device := d }⟩) := onDevice_apply he
    refine .of_ok (a := data) (t := ⟨{ s.allocator with device := d }⟩) ?_
      ⟨h.withDevice hv hs.blockSize hs.maxBlocks, fun g _ => congrFun hs.bytes g, hd⟩
    rw [BlockStorage.read, Op.bind_apply_ok hop]
    change (Op.ofExcept (checkFull moved length) >>= fun _ => pure data) _ = _
    rw [checkFull, if_pos hm]
    rfl
  · refine .of_error (e := e) (t := ⟨{ s.allocator with device := d }⟩) ?_
      ⟨h.withDevice hv hs.blockSize hs.maxBlocks, fun g _ => congrFun hs.bytes g, fun hx => ?_⟩
    · exact Op.bind_apply_error (onDevice_apply he)
    · exact hr ⟨hx.1, hb, Nat.le_trans hx.2 (h.room hx.1).1⟩

omit [BlockContents D] [LawfulDevice D] in
theorem write_apply (offset : Nat) (data : ByteArray) :
    (PageStorage.write offset data : Op (Nat × BlockStorage D) Unit) (block, s) =
      ((BlockStorage.write block offset data s).1, block,
        (BlockStorage.write block offset data s).2) :=
  rfl

theorem ends_write (offset : Nat) (data : ByteArray)
    (h : s.Valid sure pageSize count (block :: blocks)) :
    (PageStorage.write offset data : Op (Nat × BlockStorage D) Unit).Ends (block, s)
      (fun _ t => t.2.Valid sure pageSize count (t.1 :: blocks) ∧ SamePages s t.2 blocks ∧
        PageContents.byteAt t.2 t.1 = Bytes.overlay offset data (PageContents.byteAt s block))
      (fun _ t => t.2.Valid sure pageSize count (t.1 :: blocks) ∧ SamePages s t.2 blocks ∧
        PageContents.byteAt t.2 t.1 = PageContents.byteAt s block ∧
        ¬ (sure ∧ offset + data.size ≤ pageSize)) := by
  have hb : block < BlockDevice.maxBlocks s.allocator.device :=
    Nat.lt_of_lt_of_le (h.issued.lt block (List.mem_append_right _ List.mem_cons_self)) h.issued.le
  have hnd : block ∉ blocks := (List.nodup_cons.mp (List.nodup_append.mp h.issued.nodup).2.1).1
  rcases (LawfulDevice.ends_write block offset data h.device).cases with
    ⟨moved, d, he, hv, hr, hm, hbs, hmb, hd, ho⟩ | ⟨e, d, he, hv, hs, hr⟩
  · have hop : onAllocator (Allocator.write block offset data) s =
        (.ok moved, ⟨{ s.allocator with device := d }⟩) := onDevice_apply he
    have hw : BlockStorage.write block offset data s =
        (.ok (), ⟨{ s.allocator with device := d }⟩) := by
      rw [BlockStorage.write, Op.bind_apply_ok hop, checkFull, if_pos hm]
      rfl
    refine .of_ok (a := ()) (t := (block, ⟨{ s.allocator with device := d }⟩)) ?_
      ⟨h.withDevice hv hbs hmb, fun g hg => ho g (ne_of_mem_of_not_mem hg hnd), hd⟩
    rw [write_apply, hw]
  · have hw : BlockStorage.write block offset data s =
        (.error e, ⟨{ s.allocator with device := d }⟩) :=
      Op.bind_apply_error (onDevice_apply he)
    refine .of_error (e := e) (t := (block, ⟨{ s.allocator with device := d }⟩)) ?_
      ⟨h.withDevice hv hs.blockSize hs.maxBlocks, fun g _ => congrFun hs.bytes g,
        congrFun hs.bytes block, fun hx => ?_⟩
    · rw [write_apply, hw]
    · exact hr ⟨hx.1, hb, Nat.le_trans hx.2 (h.room hx.1).1⟩

instance : LawfulStorage (BlockStorage D) Nat where
  Valid sure pageSize count s blocks := s.Valid sure pageSize count blocks
  valid_perm hp h := ⟨BlockStorage.Valid.device h, h.issued.perm hp, h.room⟩
  ends_acquire := ends_acquire
  ends_release := ends_release
  ends_read := ends_read
  ends_write := ends_write
  ends_close {_ _ _ s} h := by
    rcases (LawfulDevice.ends_close (BlockStorage.Valid.device h)).cases with
      ⟨_, d, he, -⟩ | ⟨e, d, he, hn⟩
    · exact .of_ok (onDevice_apply he) trivial
    · exact .of_error (onDevice_apply he) hn

theorem valid_fresh {d : D} (hd : LawfulDevice.Valid sure d)
    (hr : sure → pageSize ≤ BlockDevice.blockSize d ∧ count ≤ BlockDevice.maxBlocks d) :
    BlockStorage.Valid sure pageSize count ⟨{ device := d }⟩ [] :=
  ⟨hd, ⟨List.nodup_nil, by simp, rfl, Nat.zero_le _⟩, hr⟩

end BlockStorage

end TieredMemory
