import TieredMemory.Proofs.Handles.Calls
import TieredMemory.Proofs.Hierarchy

namespace TieredMemory

def Location.obstacle? : Location → Option Obstacle
  | .unreachable why => some why
  | _ => none

namespace PageFile

variable {place place' : Location} {maximumSize : Nat} {syncOnFlush : Bool}

theorem obstacle?_of_create {file : PageFile}
    (hf : create place maximumSize syncOnFlush = .ok file) : place.obstacle? = none := by
  obtain ⟨-, hplace, -⟩ := create_eq_ok_iff.mp hf
  cases place with
  | unreachable why => exact absurd rfl (hplace why)
  | _ => rfl

theorem create_congr (hp : place.obstacle? = place'.obstacle?) {file : PageFile}
    (hf : create place maximumSize syncOnFlush = .ok file) :
    create place' maximumSize syncOnFlush = .ok file := by
  have hnone : place'.obstacle? = none := hp.symm.trans (obstacle?_of_create hf)
  obtain ⟨hsize, -, hfile⟩ := create_eq_ok_iff.mp hf
  refine create_eq_ok_iff.mpr ⟨hsize, ?_, hfile⟩
  rintro why rfl
  cases hnone

theorem obstacle?_refusal {e : Error} {left : Location}
    (hf : create place maximumSize syncOnFlush = .error (e, left)) :
    left.obstacle? = place.obstacle? := by
  rcases create_eq_error hf with ⟨-, rfl⟩ | ⟨-, ⟨why, -, rfl⟩ | ⟨hplace, rfl⟩⟩
  · rfl
  · rfl
  · cases place with
    | unreachable why => exact absurd rfl (hplace why)
    | _ => rfl

end PageFile

namespace PageCache

variable {S H B α : Type} [Backend B] {c : PageCache S H B} {f : B → α × B}

def withBelow (below : B) (c : PageCache S H B) : PageCache S H B :=
  { c with pager := { c.pager with below } }

theorem editBelow_eq {a : α} {below : B} (hf : f c.below = (a, below))
    (h : Backend.events below = Backend.events c.below) :
    editBelow f c = (a, c.withBelow below) := by
  simp only [editBelow, Pager.editBelow, Pager.followBelow, show f c.pager.below = _ from hf]
  rw [h]
  exact congrArg (fun events => (a, { c with pager := { c.pager with below, events } }))
    (BankLog.follow_size _ _)

end PageCache

namespace Hierarchy

variable {D α β : Type} [BlockDevice D] {h : Hierarchy D}

def withFile (file : PageFile) (h : Hierarchy D) : Hierarchy D :=
  { h with ram := h.ram.withBelow (h.psram.withBelow (h.himem.withBelow file)) }

theorem editFile_eq (f : PageFile → α × PageFile) (h : Hierarchy D) :
    h.editFile f = ((f h.file).1, h.withFile (f h.file).2) := by
  have hhimem : PageCache.editBelow f h.himem =
      ((f h.file).1, h.himem.withBelow (f h.file).2) :=
    PageCache.editBelow_eq rfl rfl
  have hpsram : PageCache.editBelow (PageCache.editBelow f) h.psram =
      ((f h.file).1, h.psram.withBelow (h.himem.withBelow (f h.file).2)) :=
    PageCache.editBelow_eq hhimem rfl
  have hram : PageCache.editBelow (PageCache.editBelow (PageCache.editBelow f)) h.ram =
      ((f h.file).1,
        h.ram.withBelow (h.psram.withBelow (h.himem.withBelow (f h.file).2))) :=
    PageCache.editBelow_eq hpsram rfl
  simp only [editFile, editHimem, hram]
  rfl

theorem holding_eq (bytes : SparseBytes) (h : Hierarchy D) :
    h.holding bytes = h.withFile { h.file with bytes } := by
  rw [holding, editFile_eq]
  rfl

theorem disturb_eq (onRead onWrite onSync : Faults) (h : Hierarchy D) :
    h.disturb onRead onWrite onSync = h.withFile { h.file with onRead, onWrite, onSync } := by
  rw [disturb, editFile_eq]

theorem holding_holding (bytes bytes' : SparseBytes) (h : Hierarchy D) :
    (h.holding bytes).holding bytes' = h.holding bytes' := by
  simp only [holding_eq]
  rfl

theorem holding_self (h : Hierarchy D) : h.holding h.file.bytes = h := by
  rw [holding_eq]
  rfl

theorem disturb_holding (onRead onWrite onSync : Faults) (bytes : SparseBytes) (h : Hierarchy D) :
    (h.holding bytes).disturb onRead onWrite onSync =
      (h.disturb onRead onWrite onSync).holding bytes := by
  simp only [holding_eq, disturb_eq]
  rfl

theorem config_holding (bytes : SparseBytes) (h : Hierarchy D) :
    (h.holding bytes).config = h.config := by
  rw [holding_eq]
  rfl

omit [BlockDevice D] in
theorem config_bind {op : Op (Hierarchy D) α} {rest : α → Op (Hierarchy D) β}
    (ho : (op h).2.config = h.config) (hr : ∀ a t, (rest a t).2.config = t.config) :
    ((op >>= rest) h).2.config = h.config := by
  rcases he : op h with ⟨e | a, t⟩
  · rw [he] at ho
    rw [Op.bind_apply_error he]
    exact ho
  · rw [he] at ho
    rw [Op.bind_apply_ok he]
    exact (hr a t).trans ho

theorem config_read (address length : Nat) : (read address length h).2.config = h.config := by
  unfold read
  split
  · rfl
  · exact config_bind rfl fun _ _ => rfl

theorem config_write (address : Nat) (data : ByteArray) :
    (write address data h).2.config = h.config := by
  unfold write
  split
  · rfl
  · exact config_bind rfl fun _ _ => rfl

theorem config_shutdown : (shutdown h).2.config = h.config := by
  unfold shutdown
  split
  · rfl
  · exact config_bind (h := { h with closed := true }) rfl fun _ _ => rfl

theorem config_destroy : (destroy h).2.config = h.config := config_shutdown

section Creation

variable {P : Type} [BlockProvider P D] {config : Config} {provider : P} {place place' : Location}

theorem obstacle?_stack {file : PageFile} {refusal : Refusal P D}
    (hs : stack config provider file = .error refusal) : refusal.place.obstacle? = none := by
  unfold stack at hs
  split at hs
  · cases hs
    rfl
  · split at hs
    · cases hs
      rfl
    · split at hs
      · cases hs
        rfl
      · cases hs

theorem config_stack {file : PageFile} (hs : stack config provider file = .ok h) :
    h.config = config := by
  unfold stack at hs
  split at hs
  · cases hs
  · split at hs
    · cases hs
    · split at hs
      · cases hs
      · cases hs
        rfl

theorem created (hc : create config provider place = .ok h) :
    place.obstacle? = none ∧ h.config = config := by
  obtain ⟨file, hf, hs⟩ := create_eq_ok hc
  exact ⟨PageFile.obstacle?_of_create hf, config_stack hs⟩

theorem create_congr (hp : place.obstacle? = place'.obstacle?)
    (hc : create config provider place = .ok h) : create config provider place' = .ok h := by
  unfold create at hc ⊢
  split at hc
  · cases hc
  · dsimp only at hc ⊢
    split at hc
    · cases hc
    · rename_i ha
      rw [if_neg ha]
      split at hc
      · cases hc
      · rename_i file hf
        rw [PageFile.create_congr hp hf]
        exact hc

theorem obstacle?_refusal {refusal : Refusal P D}
    (hc : create config provider place = .error refusal) :
    refusal.place.obstacle? = place.obstacle? := by
  unfold create at hc
  split at hc
  · cases hc
    rfl
  · dsimp only at hc
    split at hc
    · cases hc
      rfl
    · split at hc
      · rename_i hf
        cases hc
        exact PageFile.obstacle?_refusal hf
      · rename_i file hf
        rw [obstacle?_stack hc, PageFile.obstacle?_of_create hf]

end Creation

end Hierarchy

end TieredMemory
