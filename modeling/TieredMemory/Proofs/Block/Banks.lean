import TieredMemory.Block.Monitored
import TieredMemory.Proofs.Backend.Contents

namespace TieredMemory

class BankContents (D : Type) where
  size : D → Nat
  mapped : D → Option Nat
  byteAt : D → Nat → UInt8

class LawfulBankSwitch (D : Type) [BankSwitch D] [BankContents D] where
  Ready : (sure : Prop) → D → Prop
  Valid : (sure : Prop) → D → Prop
  valid_of_alloc {sure : Prop} {d t : D} {bytes : Nat} : Ready sure d →
    BankSwitch.alloc bytes d = (.ok (), t) → BankContents.mapped t = none →
    Valid sure t ∧ BankContents.size t = bytes
  mapped_of_map {d t : D} {offset : Nat} :
    BankSwitch.map offset d = (.ok (), t) → BankContents.mapped d = none
  size_window {sure : Prop} {d : D} {offset : Nat} : Valid sure d →
    BankContents.mapped d = some offset → (BankSwitch.window d).size = superblockSize
  byteAt_window {sure : Prop} {d : D} {offset i : Nat} : Valid sure d →
    BankContents.mapped d = some offset → i < superblockSize →
    Bytes.byteAt (BankSwitch.window d) i = BankContents.byteAt d (offset + i)
  editWindow {sure : Prop} {d : D} {offset : Nat} {f : ByteArray → ByteArray} : Valid sure d →
    BankContents.mapped d = some offset → (f (BankSwitch.window d)).size = superblockSize →
    Valid sure (BankSwitch.editWindow f d) ∧
      BankContents.mapped (BankSwitch.editWindow f d) = some offset ∧
      BankContents.size (BankSwitch.editWindow f d) = BankContents.size d ∧
      BankContents.byteAt (BankSwitch.editWindow f d) =
        Bytes.overlay offset (f (BankSwitch.window d)) (BankContents.byteAt d)
  ends_map {sure : Prop} {d : D} {offset : Nat} : Valid sure d → BankContents.mapped d = none →
    offset + superblockSize ≤ BankContents.size d →
    (BankSwitch.map offset : Op D Unit).Ends d
      (fun _ t => Valid sure t ∧ BankContents.mapped t = some offset ∧
        BankContents.size t = BankContents.size d ∧ BankContents.byteAt t = BankContents.byteAt d)
      (fun _ t => Valid sure t ∧ BankContents.mapped t = none ∧
        BankContents.size t = BankContents.size d ∧ BankContents.byteAt t = BankContents.byteAt d ∧
        ¬ sure)
  ends_unmap {sure : Prop} {d : D} {offset : Nat} : Valid sure d →
    BankContents.mapped d = some offset →
    (BankSwitch.unmap : Op D Unit).Ends d
      (fun _ t => Valid sure t ∧ BankContents.mapped t = none ∧
        BankContents.size t = BankContents.size d ∧ BankContents.byteAt t = BankContents.byteAt d)
      (fun _ t => Valid sure t ∧ BankContents.mapped t = some offset ∧
        BankContents.size t = BankContents.size d ∧ BankContents.byteAt t = BankContents.byteAt d ∧
        ¬ sure)
  ends_free {sure : Prop} {d : D} : Valid sure d → BankContents.mapped d = none →
    (BankSwitch.free : Op D Unit).Ends d (fun _ _ => True) (fun _ _ => ¬ sure)

namespace SimulatedBanks

instance : BankContents SimulatedBanks where
  size b := b.physical.size
  mapped b := b.mappedAt
  byteAt b := match b.mappedAt with
    | some offset => Bytes.overlay offset b.window (Bytes.byteAt b.physical)
    | none => Bytes.byteAt b.physical

theorem byteAt_of_mapped {b : SimulatedBanks} {offset : Nat} (h : b.mappedAt = some offset) :
    BankContents.byteAt b = Bytes.overlay offset b.window (Bytes.byteAt b.physical) := by
  simp only [BankContents.byteAt, h]

theorem byteAt_of_unmapped {b : SimulatedBanks} (h : b.mappedAt = none) :
    BankContents.byteAt b = Bytes.byteAt b.physical := by
  simp only [BankContents.byteAt, h]

protected def Valid (b : SimulatedBanks) : Prop :=
  ∀ offset, b.mappedAt = some offset →
    offset + superblockSize ≤ b.physical.size ∧ b.window.size = superblockSize

theorem valid_of_unmapped {b : SimulatedBanks} (h : b.mappedAt = none) : b.Valid := by
  intro offset ho
  rw [h] at ho
  cases ho

theorem map_of_unmapped {b : SimulatedBanks} {offset : Nat} (hm : b.mappedAt = none)
    (hs : offset + superblockSize ≤ b.physical.size) :
    map offset b = (.ok (), { b with
      window := Bytes.slice b.physical offset superblockSize, mappedAt := some offset }) := by
  simp only [map, hm, Option.isSome_none, Bool.false_eq_true, if_false, if_neg (Nat.not_lt.mpr hs)]

theorem overlay_overlay {offset : Nat} {a b : ByteArray} (h : a.size = b.size) (m : Nat → UInt8) :
    Bytes.overlay offset a (Bytes.overlay offset b m) = Bytes.overlay offset a m := by
  funext i
  simp only [Bytes.overlay, h]
  split <;> rfl

theorem overlay_slice {b : ByteArray} {offset length : Nat} (h : offset + length ≤ b.size) :
    Bytes.overlay offset (Bytes.slice b offset length) (Bytes.byteAt b) = Bytes.byteAt b := by
  funext i
  rw [Bytes.overlay, Bytes.size_slice h]
  split
  · rw [Bytes.byteAt_slice (by omega)]
    congr 1
    omega
  · rfl

variable {b t : SimulatedBanks} {offset : Nat}

theorem valid_of_alloc {bytes : Nat} (ha : alloc bytes b = (.ok (), t)) (hm : t.mappedAt = none) :
    t.Valid ∧ t.physical.size = bytes := by
  refine ⟨valid_of_unmapped hm, ?_⟩
  unfold alloc at ha
  split at ha
  · cases ha
  · split at ha
    · cases ha
    · cases ha
      exact Bytes.size_filled poison bytes

theorem mapped_of_map (hm : map offset b = (.ok (), t)) : b.mappedAt = none := by
  simp only [map] at hm
  split at hm
  · cases hm
  · exact Option.not_isSome_iff_eq_none.mp ‹_›

theorem byteAt_window (hv : b.Valid) (hm : b.mappedAt = some offset) {i : Nat}
    (hi : i < superblockSize) : Bytes.byteAt b.window i = BankContents.byteAt b (offset + i) := by
  rw [byteAt_of_mapped hm, Bytes.overlay, (hv offset hm).2, if_pos (by omega)]
  exact congrArg (Bytes.byteAt b.window) (by omega)

theorem byteAt_editWindow {f : ByteArray → ByteArray} (hv : b.Valid)
    (hm : b.mappedAt = some offset) (hf : (f b.window).size = superblockSize) :
    BankContents.byteAt { b with window := f b.window } =
      Bytes.overlay offset (f b.window) (BankContents.byteAt b) := by
  rw [byteAt_of_mapped hm, overlay_overlay (hf.trans (hv offset hm).2.symm)]
  exact byteAt_of_mapped (b := { b with window := f b.window }) hm

theorem ends_map (hm : b.mappedAt = none) (hs : offset + superblockSize ≤ b.physical.size) :
    (map offset).Ends b
      (fun _ t => t.Valid ∧ t.mappedAt = some offset ∧ t.physical.size = b.physical.size ∧
        BankContents.byteAt t = BankContents.byteAt b)
      (fun _ _ => False) := by
  refine .of_ok (map_of_unmapped hm hs) ⟨fun o ho => ?_, rfl, rfl, ?_⟩
  · cases ho
    exact ⟨hs, Bytes.size_slice hs⟩
  · rw [byteAt_of_unmapped hm]
    exact (byteAt_of_mapped rfl).trans (overlay_slice hs)

theorem ends_unmap (hv : b.Valid) (hm : b.mappedAt = some offset) :
    unmap.Ends b
      (fun _ t => t.Valid ∧ t.mappedAt = none ∧ t.physical.size = b.physical.size ∧
        BankContents.byteAt t = BankContents.byteAt b)
      (fun _ _ => False) := by
  obtain ⟨hs, hw⟩ := hv offset hm
  have hpatch : offset ≤ b.physical.size := by omega
  refine .of_ok (a := ()) (t := { b with
    physical := Bytes.patch b.physical offset b.window, mappedAt := none }) ?_
    ⟨valid_of_unmapped rfl, rfl, ?_, ?_⟩
  · simp only [unmap, hm]
  · rw [Bytes.size_patch hpatch, hw]
    omega
  · rw [byteAt_of_mapped hm, byteAt_of_unmapped rfl]
    funext i
    exact Bytes.byteAt_patch hpatch i

theorem ends_free (hm : b.mappedAt = none) :
    free.Ends b (fun _ _ => True) (fun _ _ => False) := by
  refine .of_ok (a := ()) (t := { b with physical := ByteArray.empty }) ?_ trivial
  simp only [free, hm, Option.isSome_none, Bool.false_eq_true, if_false]

instance : LawfulBankSwitch SimulatedBanks where
  Ready _ _ := True
  Valid _ b := b.Valid
  valid_of_alloc _ ha hm := valid_of_alloc ha hm
  mapped_of_map hm := mapped_of_map hm
  size_window hv hm := (hv _ hm).2
  byteAt_window hv hm hi := byteAt_window hv hm hi
  editWindow hv hm hf :=
    ⟨fun o ho => ⟨(hv o ho).1, hf⟩, hm, rfl, byteAt_editWindow hv hm hf⟩
  ends_map _ hm hs := (ends_map hm hs).mono (fun _ _ ht => ht) fun _ _ hf => hf.elim
  ends_unmap hv hm := (ends_unmap hv hm).mono (fun _ _ ht => ht) fun _ _ hf => hf.elim
  ends_free _ hm := (ends_free hm).mono (fun _ _ ht => ht) fun _ _ hf => hf.elim

end SimulatedBanks

namespace Faults

def Spares (n : Nat) (f : Faults) : Prop := ∀ k < n, f.due (f.calls + k) = false

instance (n : Nat) (f : Faults) : Decidable (f.Spares n) :=
  inferInstanceAs (Decidable (∀ k < n, f.due (f.calls + k) = false))

theorem Spares.not_due {n : Nat} {f : Faults} (h : f.Spares (n + 1)) : f.next.1 = false :=
  h 0 (Nat.zero_lt_succ n)

theorem Spares.next {n : Nat} {f : Faults} (h : f.Spares (n + 1)) : f.next.2.Spares n := by
  intro k hk
  have := h (k + 1) (by omega)
  rwa [Nat.add_comm k 1, ← Nat.add_assoc] at this

theorem Spares.of_succ {n : Nat} {f : Faults} (h : f.Spares (n + 1)) : f.Spares n :=
  fun k hk => h k (by omega)

end Faults

namespace Monitored

variable {D : Type} [BankContents D]

instance : BankContents (Monitored D) where
  size m := BankContents.size m.driver
  mapped m := BankContents.mapped m.driver
  byteAt m := BankContents.byteAt m.driver

def Quiet (m : Monitored D) : Prop :=
  m.onAlloc.Never ∧ m.onFree.Never ∧ m.onMap.Never ∧ m.onUnmap.Never

omit [BankContents D] in
theorem ends_perform [BankSwitch D] {call : BankCall} {name : String} {fails : Bool}
    {op : Op D Unit}
    {m : Monitored D} {ok : Unit → Monitored D → Prop} {bad : Error → Monitored D → Prop}
    (hfail : fails = true →
      bad (.bankSwitch s!"injected {name}") { m with events := m.events.push ⟨call, false⟩ })
    (hok : ∀ driver, op m.driver = (.ok (), driver) →
      ok () { m with driver, events := m.events.push ⟨call, true⟩ })
    (hbad : ∀ e driver, op m.driver = (.error e, driver) →
      bad e { m with driver, events := m.events.push ⟨call, false⟩ }) :
    (perform call name fails op).Ends m ok bad := by
  cases fails with
  | true => exact .of_error (by simp only [perform, if_true]) (hfail rfl)
  | false =>
    rcases ho : op m.driver with ⟨e | _, driver⟩
    · refine .of_error ?_ (hbad e driver ho)
      simp only [perform, Bool.false_eq_true, if_false, ho]
      rfl
    · refine .of_ok ?_ (hok driver ho)
      simp only [perform, Bool.false_eq_true, if_false, ho]
      rfl

variable [BankSwitch D] [LawfulBankSwitch D]

protected structure Valid (sure : Prop) (m : Monitored D) : Prop where
  driver : LawfulBankSwitch.Valid sure m.driver
  quiet : sure → m.Quiet

variable {sure : Prop} {m : Monitored D}

theorem ends_map {offset : Nat} (hv : m.Valid sure) (hm : BankContents.mapped m = none)
    (hs : offset + superblockSize ≤ BankContents.size m) :
    (Monitored.map offset).Ends m
      (fun _ t => t.Valid sure ∧ BankContents.mapped t = some offset ∧
        BankContents.size t = BankContents.size m ∧ BankContents.byteAt t = BankContents.byteAt m)
      (fun _ t => t.Valid sure ∧ BankContents.mapped t = none ∧
        BankContents.size t = BankContents.size m ∧ BankContents.byteAt t = BankContents.byteAt m ∧
        ¬ sure) := by
  have hq : sure → m.onAlloc.Never ∧ m.onFree.Never ∧ m.onMap.next.2.Never ∧ m.onUnmap.Never :=
    fun hs => ⟨(hv.quiet hs).1, (hv.quiet hs).2.1, (hv.quiet hs).2.2.1.next, (hv.quiet hs).2.2.2⟩
  have h := LawfulBankSwitch.ends_map hv.driver hm hs
  have hop : Monitored.map offset m = perform (.map offset) "map" m.onMap.next.1
    (BankSwitch.map offset) { m with onMap := m.onMap.next.2 } := rfl
  rw [Op.Ends, hop]
  refine ends_perform (fun hf => ?_) (fun driver ho => ?_) (fun e driver ho => ?_)
  · exact ⟨⟨hv.driver, hq⟩, hm, rfl, rfl, fun hs => (hv.quiet hs).2.2.1.not_due hf⟩
  · exact ⟨⟨(h.ok_of_eq ho).1, hq⟩, (h.ok_of_eq ho).2⟩
  · exact ⟨⟨(h.error_of_eq ho).1, hq⟩, (h.error_of_eq ho).2⟩

theorem ends_unmap {offset : Nat} (hv : m.Valid sure) (hm : BankContents.mapped m = some offset) :
    Monitored.unmap.Ends m
      (fun _ t => t.Valid sure ∧ BankContents.mapped t = none ∧
        BankContents.size t = BankContents.size m ∧ BankContents.byteAt t = BankContents.byteAt m)
      (fun _ t => t.Valid sure ∧ BankContents.mapped t = some offset ∧
        BankContents.size t = BankContents.size m ∧ BankContents.byteAt t = BankContents.byteAt m ∧
        ¬ sure) := by
  have hq : sure → m.onAlloc.Never ∧ m.onFree.Never ∧ m.onMap.Never ∧ m.onUnmap.next.2.Never :=
    fun hs => ⟨(hv.quiet hs).1, (hv.quiet hs).2.1, (hv.quiet hs).2.2.1, (hv.quiet hs).2.2.2.next⟩
  have h := LawfulBankSwitch.ends_unmap hv.driver hm
  have hop : Monitored.unmap m = perform .unmap "unmap" m.onUnmap.next.1
    BankSwitch.unmap { m with onUnmap := m.onUnmap.next.2 } := rfl
  rw [Op.Ends, hop]
  refine ends_perform (fun hf => ?_) (fun driver ho => ?_) (fun e driver ho => ?_)
  · exact ⟨⟨hv.driver, hq⟩, hm, rfl, rfl, fun hs => (hv.quiet hs).2.2.2.not_due hf⟩
  · exact ⟨⟨(h.ok_of_eq ho).1, hq⟩, (h.ok_of_eq ho).2⟩
  · exact ⟨⟨(h.error_of_eq ho).1, hq⟩, (h.error_of_eq ho).2⟩

theorem ends_free (hv : m.Valid sure) (hm : BankContents.mapped m = none) :
    Monitored.free.Ends m (fun _ _ => True) (fun _ _ => ¬ sure) := by
  have h := LawfulBankSwitch.ends_free hv.driver hm
  have hop : Monitored.free m = perform .free "free" m.onFree.next.1
    BankSwitch.free { m with onFree := m.onFree.next.2 } := rfl
  rw [Op.Ends, hop]
  refine ends_perform (fun hf => ?_) (fun _ _ => trivial) (fun e driver ho => ?_)
  · exact fun hs => (hv.quiet hs).2.1.not_due hf
  · exact h.error_of_eq ho

theorem valid_of_alloc {t : Monitored D} {bytes : Nat}
    (hr : LawfulBankSwitch.Ready sure m.driver ∧ (sure → m.Quiet))
    (ha : Monitored.alloc bytes m = (.ok (), t)) (hm : BankContents.mapped t = none) :
    t.Valid sure ∧ BankContents.size t = bytes := by
  have hop : Monitored.alloc bytes m = perform (.alloc bytes) "alloc" m.onAlloc.next.1
    (BankSwitch.alloc bytes) { m with onAlloc := m.onAlloc.next.2 } := rfl
  have h : (Monitored.alloc bytes).Ends m
      (fun _ t => BankContents.mapped t = none → t.Valid sure ∧ BankContents.size t = bytes)
      (fun _ _ => True) := by
    rw [Op.Ends, hop]
    refine ends_perform (fun _ => trivial) (fun driver ho hm => ?_) (fun _ _ _ => trivial)
    obtain ⟨hv, hs⟩ := LawfulBankSwitch.valid_of_alloc hr.1 ho hm
    exact ⟨⟨hv, fun hs => ⟨(hr.2 hs).1.next, (hr.2 hs).2⟩⟩, hs⟩
  exact h.ok_of_eq ha hm

theorem mapped_of_map {t : Monitored D} {offset : Nat} (h : Monitored.map offset m = (.ok (), t)) :
    BankContents.mapped m = none := by
  have hop : Monitored.map offset m = perform (.map offset) "map" m.onMap.next.1
    (BankSwitch.map offset) { m with onMap := m.onMap.next.2 } := rfl
  have hm : (Monitored.map offset).Ends m (fun _ _ => BankContents.mapped m = none)
      (fun _ _ => True) := by
    rw [Op.Ends, hop]
    refine ends_perform (fun _ => trivial) (fun _ ho => ?_) (fun _ _ _ => trivial)
    exact LawfulBankSwitch.mapped_of_map (d := m.driver) ho
  exact hm.ok_of_eq h

instance : LawfulBankSwitch (Monitored D) where
  Ready sure m := LawfulBankSwitch.Ready sure m.driver ∧ (sure → m.Quiet)
  Valid sure m := m.Valid sure
  valid_of_alloc := valid_of_alloc
  mapped_of_map := mapped_of_map
  size_window {_ m _} hv hm :=
    LawfulBankSwitch.size_window (d := m.driver) (Monitored.Valid.driver hv) hm
  byteAt_window {_ m _ _} hv hm hi :=
    LawfulBankSwitch.byteAt_window (d := m.driver) (Monitored.Valid.driver hv) hm hi
  editWindow {sure m _ _} hv hm hf :=
    have h := LawfulBankSwitch.editWindow (d := m.driver) (Monitored.Valid.driver hv) hm hf
    ⟨⟨h.1, (Monitored.Valid.quiet hv : sure → m.Quiet)⟩, h.2⟩
  ends_map := ends_map
  ends_unmap := ends_unmap
  ends_free := ends_free

section Injected

variable {m : Monitored SimulatedBanks} {offset : Nat}

def Spares (n : Nat) (m : Monitored SimulatedBanks) : Prop :=
  m.onMap.Spares n ∧ m.onUnmap.Spares n

def Injected (m : Monitored SimulatedBanks) (e : Error) : Prop :=
  e = .bankSwitch "injected map" ∧ m.onMap.next.1 = true ∨
    e = .bankSwitch "injected unmap" ∧ m.onUnmap.next.1 = true

theorem Spares.not_injected {n : Nat} {e : Error} (h : m.Spares (n + 1)) : ¬ m.Injected e := by
  rintro (⟨-, hf⟩ | ⟨-, hf⟩)
  · rw [h.1.not_due] at hf
    cases hf
  · rw [h.2.not_due] at hf
    cases hf

theorem ends_map_injected (hm : BankContents.mapped m = none)
    (hs : offset + superblockSize ≤ BankContents.size m) :
    (Monitored.map offset).Ends m
      (fun _ t => t.onMap = m.onMap.next.2 ∧ t.onUnmap = m.onUnmap)
      (fun e _ => e = .bankSwitch "injected map" ∧ m.onMap.next.1 = true) := by
  have h := SimulatedBanks.ends_map (b := m.driver) hm hs
  have hop : Monitored.map offset m = perform (.map offset) "map" m.onMap.next.1
    (SimulatedBanks.map offset) { m with onMap := m.onMap.next.2 } := rfl
  rw [Op.Ends, hop]
  refine ends_perform (fun hf => ?_) (fun _ _ => ⟨rfl, rfl⟩) (fun e driver ho => ?_)
  · exact ⟨rfl, hf⟩
  · exact (h.error_of_eq ho).elim

theorem ends_unmap_injected (hv : m.Valid False) (hm : BankContents.mapped m = some offset) :
    Monitored.unmap.Ends m (fun _ t => t.onMap = m.onMap ∧ t.onUnmap = m.onUnmap.next.2)
      (fun e _ => e = .bankSwitch "injected unmap" ∧ m.onUnmap.next.1 = true) := by
  have h := SimulatedBanks.ends_unmap (b := m.driver) hv.driver hm
  have hop : Monitored.unmap m = perform .unmap "unmap" m.onUnmap.next.1
    SimulatedBanks.unmap { m with onUnmap := m.onUnmap.next.2 } := rfl
  rw [Op.Ends, hop]
  refine ends_perform (fun hf => ?_) (fun _ _ => ⟨rfl, rfl⟩) (fun e driver ho => ?_)
  · exact ⟨rfl, hf⟩
  · exact (h.error_of_eq ho).elim

end Injected

end Monitored

end TieredMemory
