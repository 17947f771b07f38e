import TieredMemory.Block.Clipped
import TieredMemory.Block.Emulated
import TieredMemory.Block.Monitored
import TieredMemory.Block.Paged
import TieredMemory.Proofs.Backend.Service
import TieredMemory.Proofs.Page.Books

namespace TieredMemory

variable {σ τ D α β : Type}

namespace Op

def OwnErrors (op : Op σ α) : Prop := ∀ s e, (op s).1 = .error e → ¬ e.OutOfRange

theorem OwnErrors.bind {op : Op σ α} {f : α → Op σ β} (h : op.OwnErrors)
    (hf : ∀ a, (f a).OwnErrors) : (op >>= f).OwnErrors := by
  intro s e he
  rcases hop : op s with ⟨e' | a, t⟩
  · rw [bind_apply_error hop] at he
    cases he
    exact h s e (congrArg Prod.fst hop)
  · rw [bind_apply_ok hop] at he
    exact hf a t e he

theorem OwnErrors.pure (a : α) : Op.OwnErrors (Pure.pure a : Op σ α) := fun _ _ he => nomatch he

theorem OwnErrors.of_fst {op : Op σ α} {op' : Op τ α} (view : τ → σ) (h : op.OwnErrors)
    (hfst : ∀ t, (op' t).1 = (op (view t)).1) : op'.OwnErrors :=
  fun t e he => h (view t) e ((hfst t).symm.trans he)

end Op

class BankSwitch.OwnErrors (D : Type) [BankSwitch D] : Prop where
  map (offset : Nat) : (BankSwitch.map offset : Op D Unit).OwnErrors
  unmap : (BankSwitch.unmap : Op D Unit).OwnErrors

class BlockDevice.OwnErrors (D : Type) [BlockDevice D] : Prop where
  read (block offset length : Nat) : (BlockDevice.read block offset length : Op D _).OwnErrors
  write (block offset : Nat) (data : ByteArray) :
    (BlockDevice.write block offset data : Op D Nat).OwnErrors

theorem BlockDevice.not_outOfRange_checkAccess {block blocks blockSize offset length : Nat}
    {e : Error} (h : checkAccess block blocks blockSize offset length = .error e) :
    ¬ e.OutOfRange := by
  rintro ⟨address, n, limit, rfl⟩
  unfold checkAccess at h
  split at h
  · cases h
  · split at h
    · cases h
    · split at h <;> cases h

section Drivers

instance : BankSwitch.OwnErrors SimulatedBanks where
  map offset s := by
    rintro e he ⟨address, length, limit, rfl⟩
    change (SimulatedBanks.map offset s).1 = _ at he
    unfold SimulatedBanks.map at he
    dsimp only at he
    split at he
    · cases he
    · split at he <;> cases he
  unmap s := by
    rintro e he ⟨address, length, limit, rfl⟩
    change (SimulatedBanks.unmap s).1 = _ at he
    unfold SimulatedBanks.unmap at he
    split at he <;> cases he

theorem Monitored.ownErrors_perform (call : BankCall) (name : String) (fails : Bool)
    {op : Op D Unit} (h : op.OwnErrors) : (perform call name fails op).OwnErrors := by
  intro m e he
  unfold perform at he
  split at he
  · cases he
    rintro ⟨address, length, limit, hrange⟩
    cases hrange
  · exact h m.driver e he

instance [BankSwitch D] [BankSwitch.OwnErrors D] : BankSwitch.OwnErrors (Monitored D) where
  map offset _ := Monitored.ownErrors_perform _ _ _ (BankSwitch.OwnErrors.map offset) _
  unmap _ := Monitored.ownErrors_perform _ _ _ BankSwitch.OwnErrors.unmap _

end Drivers

section Devices

instance : BlockDevice.OwnErrors EmulatedMemory where
  read block offset length m e he := by
    change (EmulatedMemory.read block offset length m).1 = _ at he
    unfold EmulatedMemory.read at he
    split at he
    · cases he
      exact BlockDevice.not_outOfRange_checkAccess ‹_›
    · cases he
  write block offset data m e he := by
    change (EmulatedMemory.write block offset data m).1 = _ at he
    unfold EmulatedMemory.write at he
    split at he
    · cases he
      exact BlockDevice.not_outOfRange_checkAccess ‹_›
    · cases he

theorem Clipped.ownErrors_pass {op : Op D α} (h : op.OwnErrors) : (pass op).OwnErrors :=
  h.of_fst Clipped.device fun _ => rfl

instance [BlockDevice D] [BlockDevice.OwnErrors D] : BlockDevice.OwnErrors (Clipped D) where
  read block offset length c :=
    Clipped.ownErrors_pass ((BlockDevice.OwnErrors.read block offset length).bind fun _ =>
      .pure (min c.limit _, _)) c
  write block offset data c :=
    Clipped.ownErrors_pass ((BlockDevice.OwnErrors.write block offset data).bind fun _ =>
      .pure (min c.limit _)) c

namespace PagedMemory

variable [BankSwitch D] [BankSwitch.OwnErrors D]

theorem not_outOfRange_enter {superblock : Nat} {m : PagedMemory D} {e : Error}
    (hm : m.mapped = none) (he : (mapSuperblock superblock m).1 = .error e) : ¬ e.OutOfRange := by
  rcases hmap : BankSwitch.map (superblock * superblockSize) m.driver with ⟨cause | _, driver⟩
  · simp only [mapSuperblock, hm, hmap] at he
    cases he
    exact BankSwitch.OwnErrors.map _ m.driver _ (congrArg Prod.fst hmap)
  · simp only [mapSuperblock, hm, hmap] at he
    cases he

theorem ownErrors_mapSuperblock (superblock : Nat) :
    (mapSuperblock superblock : Op (PagedMemory D) Unit).OwnErrors := by
  intro m e he
  cases hm : m.mapped with
  | none => exact not_outOfRange_enter hm he
  | some current =>
    by_cases hc : current = superblock
    · simp only [mapSuperblock, hm, if_pos hc] at he
      cases he
    · rcases hunmap : BankSwitch.unmap m.driver with ⟨cause | _, driver⟩
      · simp only [mapSuperblock, hm, if_neg hc, hunmap] at he
        cases he
        exact BankSwitch.OwnErrors.unmap m.driver _ (congrArg Prod.fst hunmap)
      · have hop : mapSuperblock superblock m =
            mapSuperblock superblock { m with driver, mapped := none } := by
          simp only [mapSuperblock, hm, if_neg hc, hunmap]
        rw [hop] at he
        exact not_outOfRange_enter rfl he

theorem ownErrors_locate (block : Nat) : (locate block : Op (PagedMemory D) Nat).OwnErrors := by
  intro m e he
  unfold locate at he
  dsimp only at he
  split at he
  · cases he
    exact ownErrors_mapSuperblock _ m _ (congrArg Prod.fst ‹_›)
  · cases he

instance : BlockDevice.OwnErrors (PagedMemory D) where
  read block offset length m e he := by
    change (PagedMemory.read block offset length m).1 = _ at he
    unfold PagedMemory.read at he
    split at he
    · cases he
      exact BlockDevice.not_outOfRange_checkAccess ‹_›
    · split at he
      · cases he
        exact ownErrors_locate _ m _ (congrArg Prod.fst ‹_›)
      · cases he
  write block offset data m e he := by
    change (PagedMemory.write block offset data m).1 = _ at he
    unfold PagedMemory.write at he
    split at he
    · cases he
      exact BlockDevice.not_outOfRange_checkAccess ‹_›
    · split at he
      · cases he
        exact ownErrors_locate _ m _ (congrArg Prod.fst ‹_›)
      · cases he

end PagedMemory

end Devices

section Storages

theorem HeapStorage.not_outOfRange_checkBounds {pageSize offset length : Nat} {e : Error}
    (h : checkBounds pageSize offset length = .error e) : ¬ e.OutOfRange := by
  rintro ⟨address, n, limit, rfl⟩
  unfold checkBounds at h
  split at h <;> cases h

theorem HeapStorage.blames : PageStorage.Blames HeapStorage fun e => ¬ e.OutOfRange where
  acquire h := nomatch h
  read {page offset length s t e} h := by
    change HeapStorage.read page offset length s = _ at h
    unfold HeapStorage.read at h
    split at h
    · cases h
      exact not_outOfRange_checkBounds ‹_›
    · cases h
  write {offset data s t e} h := by
    change HeapStorage.write offset data s = _ at h
    unfold HeapStorage.write at h
    dsimp only at h
    split at h
    · cases h
      exact not_outOfRange_checkBounds ‹_›
    · cases h

namespace BlockStorage

theorem ownErrors_onAllocator {op : Op (Allocator D) α} (h : op.OwnErrors) :
    (onAllocator op).OwnErrors :=
  h.of_fst BlockStorage.allocator fun _ => rfl

theorem ownErrors_onDevice {op : Op D α} (h : op.OwnErrors) : (Allocator.onDevice op).OwnErrors :=
  h.of_fst Allocator.device fun _ => rfl

theorem ownErrors_allocate [BlockDevice D] :
    (Allocator.allocate : Op (Allocator D) Nat).OwnErrors := by
  rintro a e he ⟨address, n, limit, rfl⟩
  unfold Allocator.allocate at he
  split at he
  · cases he
  · split at he <;> cases he

theorem ownErrors_checkFull (transferred requested : Nat) :
    (Op.ofExcept (checkFull transferred requested) : Op σ Unit).OwnErrors := by
  rintro s e he ⟨address, n, limit, rfl⟩
  unfold Op.ofExcept checkFull at he
  dsimp only at he
  split at he <;> cases he

theorem blames [BlockDevice D] [BlockDevice.OwnErrors D] :
    PageStorage.Blames (BlockStorage D) fun e => ¬ e.OutOfRange where
  acquire h := ownErrors_onAllocator ownErrors_allocate _ _ (congrArg Prod.fst h)
  read {block offset length s t e} h := by
    have hread : (BlockStorage.read block offset length : Op (BlockStorage D) _).OwnErrors :=
      (ownErrors_onAllocator (ownErrors_onDevice (BlockDevice.OwnErrors.read _ _ _))).bind
        fun _ => (ownErrors_checkFull _ _).bind fun _ => .pure _
    exact hread s e (congrArg Prod.fst h)
  write {offset data s t e} h := by
    have hwrite : (BlockStorage.write s.1 offset data : Op (BlockStorage D) Unit).OwnErrors :=
      (ownErrors_onAllocator (ownErrors_onDevice (BlockDevice.OwnErrors.write _ _ _))).bind
        fun _ => ownErrors_checkFull _ _
    exact hwrite s.2 e (congrArg Prod.fst h)

end BlockStorage

end Storages

end TieredMemory
