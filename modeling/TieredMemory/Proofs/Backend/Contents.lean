import TieredMemory.Backend.FlatMemory
import TieredMemory.Backend.Gate
import TieredMemory.Backend.PageFile
import TieredMemory.Bytes
import TieredMemory.Proofs.Outcome

namespace TieredMemory

namespace Bytes

def overlay (address : Nat) (data : ByteArray) (m : Nat → UInt8) (i : Nat) : UInt8 :=
  if address ≤ i ∧ i < address + data.size then byteAt data (i - address) else m i

def Shows (m : Nat → UInt8) (address length : Nat) (data : ByteArray) : Prop :=
  data.size = length ∧ ∀ i < length, byteAt data i = m (address + i)

theorem overlay_of_size_eq_zero {data : ByteArray} (h : data.size = 0) (address : Nat)
    (m : Nat → UInt8) : overlay address data m = m := by
  funext i
  rw [overlay, if_neg (by omega)]

theorem overlay_slice_zero (address : Nat) (data : ByteArray) (m : Nat → UInt8) :
    overlay address (slice data 0 0) m = m :=
  overlay_of_size_eq_zero (size_slice (Nat.zero_le _)) address m

theorem slice_zero_size (data : ByteArray) : slice data 0 data.size = data := by
  apply ext_byteAt
  · exact size_slice (by omega)
  · intro i
    by_cases hi : i < data.size
    · rw [byteAt_slice hi, Nat.zero_add]
    · have hs : (slice data 0 data.size).size = data.size := size_slice (by omega)
      rw [byteAt_of_size_le (by omega), byteAt_of_size_le (by omega)]

theorem Shows.eq {m : Nat → UInt8} {address length : Nat} {a b : ByteArray}
    (ha : Shows m address length a) (hb : Shows m address length b) : a = b := by
  apply ext_byteAt (ha.1.trans hb.1.symm)
  intro i
  by_cases hi : i < length
  · rw [ha.2 i hi, hb.2 i hi]
  · rw [byteAt_of_size_le (by rw [ha.1]; omega), byteAt_of_size_le (by rw [hb.1]; omega)]

end Bytes

class Contents (β : Type) where
  size : β → Nat
  byteAt : β → Nat → UInt8
  -- Nothing waits above the lowest store to be written back.
  Clean : β → Prop
  -- How many writes the lowest store was asked for.
  writes : β → Nat

structure Keeps {β : Type} [Contents β] (b t : β) : Prop where
  size : Contents.size t = Contents.size b
  bytes : Contents.byteAt t = Contents.byteAt b
  quiet : Contents.Clean b → Contents.Clean t ∧ Contents.writes t = Contents.writes b

structure Writes {β : Type} [Contents β] (address : Nat) (data : ByteArray) (k : Nat) (b t : β) :
    Prop where
  size : Contents.size t = Contents.size b
  bytes : Contents.byteAt t = Bytes.overlay address (Bytes.slice data 0 k) (Contents.byteAt b)

section Steps

variable {β : Type} [Contents β] {b t u : β}

theorem Keeps.refl (b : β) : Keeps b b := ⟨rfl, rfl, fun h => ⟨h, rfl⟩⟩

theorem Keeps.trans (h : Keeps b t) (h' : Keeps t u) : Keeps b u where
  size := h'.size.trans h.size
  bytes := h'.bytes.trans h.bytes
  quiet hb := ⟨(h'.quiet (h.quiet hb).1).1, (h'.quiet (h.quiet hb).1).2.trans (h.quiet hb).2⟩

theorem Keeps.writes (h : Keeps b t) (address : Nat) (data : ByteArray) :
    Writes address data 0 b t :=
  ⟨h.size, h.bytes.trans (Bytes.overlay_slice_zero address data _).symm⟩

theorem Writes.byteAt_of_outside {address k i : Nat} {data : ByteArray}
    (h : Writes address data k b t)
    (hk : k ≤ data.size) (hi : ¬ (address ≤ i ∧ i < address + data.size)) :
    Contents.byteAt t i = Contents.byteAt b i := by
  have hs : (Bytes.slice data 0 k).size = k := Bytes.size_slice (by omega)
  rw [h.bytes, Bytes.overlay, if_neg (by omega)]

end Steps

/-- A state may be `Valid` for sure, and then a call fails only if its range ends beyond the size;
otherwise a call may fail at any time. -/
class LawfulBackend (β : Type) [Backend β] [Contents β] where
  Valid : (sure : Prop) → β → Prop
  capacity_eq {sure : Prop} {b : β} : Valid sure b → Backend.capacity b = some (Contents.size b)
  byteAt_of_size_le {sure : Prop} {b : β} {i : Nat} :
    Valid sure b → Contents.size b ≤ i → Contents.byteAt b i = 0
  ends_read {sure : Prop} {b : β} (address length : Nat) : Valid sure b →
    (Backend.read address length).Ends b
      (fun data t => Valid sure t ∧ Keeps b t ∧ address + length ≤ Contents.size b ∧
        Bytes.Shows (Contents.byteAt b) address length data)
      (fun e t => Valid sure t ∧ Keeps b t ∧ (sure → Contents.size b < address + length ∧
        e = .addressOutOfRange address length (Contents.size b)))
  ends_write {sure : Prop} {b : β} (address : Nat) (data : ByteArray) : Valid sure b →
    (Backend.write address data).Ends b
      (fun _ t => Valid sure t ∧ address + data.size ≤ Contents.size b ∧
        Writes address data data.size b t)
      (fun e t => Valid sure t ∧ (∃ k ≤ data.size, Writes address data k b t) ∧
        (sure → Contents.size b < address + data.size ∧ Keeps b t ∧
          e = .addressOutOfRange address data.size (Contents.size b)))
  ends_flush {sure : Prop} {b : β} : Valid sure b →
    (Backend.flush : Op β Unit).Ends b
      (fun _ t => Valid sure t ∧ Keeps b t ∧ Contents.Clean t)
      (fun _ t => Valid sure t ∧ Keeps b t ∧ ¬ sure)
  ends_shutdown {sure : Prop} {b : β} : Valid sure b →
    (Backend.shutdown : Op β Unit).Ends b
      (fun _ t => Valid sure t ∧ Keeps b t ∧ Contents.Clean t)
      (fun _ t => Valid sure t ∧ Keeps b t ∧ ¬ sure)

theorem checkRange_of_le {address length limit : Nat} (h : address + length ≤ limit) :
    checkRange address length (some limit) = .ok () :=
  checkRange_eq_ok_iff.mpr h

theorem checkRange_of_lt {address length limit : Nat} (h : limit < address + length) :
    checkRange address length (some limit) = .error (.addressOutOfRange address length limit) :=
  if_neg (Nat.not_le.mpr h)

namespace FlatMemory

instance : Contents FlatMemory where
  size m := m.bytes.size
  byteAt m := m.bytes.byteAt
  Clean _ := True
  writes m := m.writes.size

theorem shows_slice (b : SparseBytes) (address length : Nat) :
    Bytes.Shows b.byteAt address length (b.slice address length) :=
  ⟨b.size_slice address length, fun _ hi => SparseBytes.byteAt_slice hi⟩

theorem byteAt_patch (b : SparseBytes) (address : Nat) (data : ByteArray) :
    (b.patch address data).byteAt =
      Bytes.overlay address (Bytes.slice data 0 data.size) b.byteAt := by
  rw [Bytes.slice_zero_size]
  funext i
  exact SparseBytes.byteAt_patch b address data i

instance : LawfulBackend FlatMemory where
  Valid _ _ := True
  capacity_eq _ := rfl
  byteAt_of_size_le _ h := SparseBytes.byteAt_of_size_le h
  ends_read {sure m} address length _ := by
    by_cases h : address + length ≤ m.bytes.size
    · refine .of_ok (a := m.bytes.slice address length)
        (t := { m with reads := m.reads.push (address, length) }) ?_
        ⟨trivial, ⟨rfl, rfl, fun _ => ⟨trivial, rfl⟩⟩, h, shows_slice _ _ _⟩
      change FlatMemory.read address length m = _
      simp only [FlatMemory.read, checkRange_of_le h]
    · refine .of_error (e := .addressOutOfRange address length m.bytes.size) (t := m) ?_
        ⟨trivial, .refl m, fun _ => ⟨by simpa [Contents.size] using h, rfl⟩⟩
      change FlatMemory.read address length m = _
      simp only [FlatMemory.read, checkRange_of_lt (Nat.not_le.mp h)]
  ends_write {sure m} address data _ := by
    by_cases h : address + data.size ≤ m.bytes.size
    · refine .of_ok (a := ()) (t := { m with
        bytes := m.bytes.patch address data, writes := m.writes.push (address, data.size) }) ?_
        ⟨trivial, h, ?_, byteAt_patch m.bytes address data⟩
      · change FlatMemory.write address data m = _
        simp only [FlatMemory.write, checkRange_of_le h]
      · exact Nat.max_eq_left h
    · refine .of_error (e := .addressOutOfRange address data.size m.bytes.size) (t := m) ?_
        ⟨trivial, ⟨0, Nat.zero_le _, (Keeps.refl m).writes _ _⟩,
          fun _ => ⟨Nat.not_le.mp h, .refl m, rfl⟩⟩
      change FlatMemory.write address data m = _
      simp only [FlatMemory.write, checkRange_of_lt (Nat.not_le.mp h)]
  ends_flush {sure m} _ := ⟨trivial, ⟨rfl, rfl, fun _ => ⟨trivial, rfl⟩⟩, trivial⟩
  ends_shutdown {sure m} _ := ⟨trivial, .refl m, trivial⟩

end FlatMemory

namespace Faults

def Never (f : Faults) : Prop := ∀ n, f.due n = false

theorem Never.not_due {f : Faults} (h : f.Never) : ¬ f.next.1 = true := by
  simp [Faults.next, h f.calls]

theorem Never.next {f : Faults} (h : f.Never) : f.next.2.Never := h

end Faults

namespace Gate

variable {β α : Type} [Contents β]

instance : Contents (Gate β) where
  size g := Contents.size g.inner
  byteAt g := Contents.byteAt g.inner
  Clean g := Contents.Clean g.inner
  writes g := Contents.writes g.inner

def Quiet (g : Gate β) : Prop :=
  g.onRead.Never ∧ g.onWrite.Never ∧ g.onFlush.Never ∧ g.onShutdown.Never

theorem keeps_of_inner {g t : Gate β} (h : Keeps g.inner t.inner) : Keeps g t :=
  ⟨h.size, h.bytes, h.quiet⟩

theorem writes_of_inner {g t : Gate β} {address : Nat} {data : ByteArray} {k : Nat}
    (h : Writes address data k g.inner t.inner) : Writes address data k g t :=
  ⟨h.size, h.bytes⟩

omit [Contents β] in
theorem ends_gated {gated : Op (Gate β) α} {op : Op β α} {g : Gate β} {fails : Bool}
    {ok : α → Gate β → Prop} {bad : Error → Gate β → Prop}
    (name : String) (t : Gate β)
    (hop : gated g = if fails then (.error (refusal name), t) else pass op t)
    (hfail : fails = true → bad (refusal name) t)
    (hpass : op.Ends t.inner (fun a inner => ok a { t with inner })
      (fun e inner => bad e { t with inner })) : gated.Ends g ok bad := by
  cases fails with
  | true => exact .of_error hop (hfail rfl)
  | false =>
    rw [if_neg (by simp)] at hop
    rcases hpass.cases with ⟨a, u, he, ha⟩ | ⟨e, u, he, hb⟩
    · exact .of_ok (a := a) (t := { t with inner := u }) (by simp only [hop, pass, he]) ha
    · exact .of_error (e := e) (t := { t with inner := u }) (by simp only [hop, pass, he]) hb

variable [Backend β] [LawfulBackend β]

protected structure Valid (sure : Prop) (g : Gate β) : Prop where
  inner : LawfulBackend.Valid sure g.inner
  bounded : g.unbounded = false
  quiet : sure → g.Quiet

variable {sure : Prop} {g : Gate β}

theorem ends_read (address length : Nat) (h : g.Valid sure) :
    (Gate.read address length).Ends g
      (fun data t => t.Valid sure ∧ Keeps g t ∧ address + length ≤ Contents.size g ∧
        Bytes.Shows (Contents.byteAt g) address length data)
      (fun e t => t.Valid sure ∧ Keeps g t ∧ (sure → Contents.size g < address + length ∧
        e = .addressOutOfRange address length (Contents.size g))) := by
  have hq : sure → { g with onRead := g.onRead.next.2 }.Quiet := fun hs =>
    ⟨(h.quiet hs).1.next, (h.quiet hs).2⟩
  refine ends_gated "read" { g with onRead := g.onRead.next.2 } rfl
    (fun hf => ?_) ((LawfulBackend.ends_read address length h.inner).mono ?_ ?_)
  · refine ⟨⟨h.inner, h.bounded, hq⟩, keeps_of_inner (.refl g.inner), fun hs => ?_⟩
    exact absurd hf (h.quiet hs).1.not_due
  · rintro data t ⟨ht, hk, hr⟩
    exact ⟨⟨ht, h.bounded, hq⟩, keeps_of_inner hk, hr⟩
  · rintro e t ⟨ht, hk, hr⟩
    exact ⟨⟨ht, h.bounded, hq⟩, keeps_of_inner hk, hr⟩

theorem ends_write (address : Nat) (data : ByteArray) (h : g.Valid sure) :
    (Gate.write address data).Ends g
      (fun _ t => t.Valid sure ∧ address + data.size ≤ Contents.size g ∧
        Writes address data data.size g t)
      (fun e t => t.Valid sure ∧ (∃ k ≤ data.size, Writes address data k g t) ∧
        (sure → Contents.size g < address + data.size ∧ Keeps g t ∧
          e = .addressOutOfRange address data.size (Contents.size g))) := by
  have hq : sure → { g with onWrite := g.onWrite.next.2 }.Quiet := fun hs =>
    ⟨(h.quiet hs).1, (h.quiet hs).2.1.next, (h.quiet hs).2.2⟩
  refine ends_gated "write" { g with onWrite := g.onWrite.next.2 } rfl
    (fun hf => ?_) ((LawfulBackend.ends_write address data h.inner).mono ?_ ?_)
  · refine ⟨⟨h.inner, h.bounded, hq⟩, ⟨0, Nat.zero_le _, ?_⟩, fun hs => ?_⟩
    · exact writes_of_inner ((Keeps.refl g.inner).writes address data)
    · exact absurd hf (h.quiet hs).2.1.not_due
  · rintro _ t ⟨ht, hr, hw⟩
    exact ⟨⟨ht, h.bounded, hq⟩, hr, writes_of_inner hw⟩
  · rintro e t ⟨ht, ⟨k, hk, hw⟩, hr⟩
    refine ⟨⟨ht, h.bounded, hq⟩, ⟨k, hk, writes_of_inner hw⟩, fun hs => ?_⟩
    exact ⟨(hr hs).1, keeps_of_inner (hr hs).2.1, (hr hs).2.2⟩

theorem ends_flush (h : g.Valid sure) :
    (Gate.flush : Op (Gate β) Unit).Ends g
      (fun _ t => t.Valid sure ∧ Keeps g t ∧ Contents.Clean t)
      (fun _ t => t.Valid sure ∧ Keeps g t ∧ ¬ sure) := by
  have hq : sure → { g with onFlush := g.onFlush.next.2 }.Quiet := fun hs =>
    ⟨(h.quiet hs).1, (h.quiet hs).2.1, (h.quiet hs).2.2.1.next, (h.quiet hs).2.2.2⟩
  refine ends_gated "flush" { g with onFlush := g.onFlush.next.2 } rfl
    (fun hf => ?_) ((LawfulBackend.ends_flush h.inner).mono ?_ ?_)
  · refine ⟨⟨h.inner, h.bounded, hq⟩, keeps_of_inner (.refl g.inner), fun hs => ?_⟩
    exact absurd hf (h.quiet hs).2.2.1.not_due
  · rintro _ t ⟨ht, hk, hc⟩
    exact ⟨⟨ht, h.bounded, hq⟩, keeps_of_inner hk, hc⟩
  · rintro e t ⟨ht, hk, hn⟩
    exact ⟨⟨ht, h.bounded, hq⟩, keeps_of_inner hk, hn⟩

theorem ends_shutdown (h : g.Valid sure) :
    (Gate.shutdown : Op (Gate β) Unit).Ends g
      (fun _ t => t.Valid sure ∧ Keeps g t ∧ Contents.Clean t)
      (fun _ t => t.Valid sure ∧ Keeps g t ∧ ¬ sure) := by
  have hq : sure → { g with onShutdown := g.onShutdown.next.2 }.Quiet := fun hs =>
    ⟨(h.quiet hs).1, (h.quiet hs).2.1, (h.quiet hs).2.2.1, (h.quiet hs).2.2.2.next⟩
  refine ends_gated "shutdown" { g with onShutdown := g.onShutdown.next.2 } rfl
    (fun hf => ?_) ((LawfulBackend.ends_shutdown h.inner).mono ?_ ?_)
  · refine ⟨⟨h.inner, h.bounded, hq⟩, keeps_of_inner (.refl g.inner), fun hs => ?_⟩
    exact absurd hf (h.quiet hs).2.2.2.not_due
  · rintro _ t ⟨ht, hk, hc⟩
    exact ⟨⟨ht, h.bounded, hq⟩, keeps_of_inner hk, hc⟩
  · rintro e t ⟨ht, hk, hn⟩
    exact ⟨⟨ht, h.bounded, hq⟩, keeps_of_inner hk, hn⟩

instance : LawfulBackend (Gate β) where
  Valid sure g := g.Valid sure
  capacity_eq {sure g} h := by
    change (if g.unbounded then none else Backend.capacity g.inner) = _
    rw [h.bounded, LawfulBackend.capacity_eq h.inner]
    rfl
  byteAt_of_size_le {sure g i} h hi :=
    LawfulBackend.byteAt_of_size_le (b := g.inner) (Gate.Valid.inner h) hi
  ends_read := ends_read
  ends_write := ends_write
  ends_flush := ends_flush
  ends_shutdown := ends_shutdown

end Gate

namespace PageFile

instance : Contents PageFile where
  size f := f.maximumSize
  byteAt f := f.bytes.byteAt
  Clean _ := True
  writes f := f.onWrite.calls

protected structure Valid (sure : Prop) (f : PageFile) : Prop where
  size : f.bytes.size = f.maximumSize
  quiet : sure → f.onRead.Never ∧ f.onWrite.Never ∧ f.onSync.Never

variable {sure : Prop} {f : PageFile}

theorem ends_read (address length : Nat) (h : f.Valid sure) :
    (PageFile.read address length).Ends f
      (fun data t => t.Valid sure ∧ Keeps f t ∧ address + length ≤ Contents.size f ∧
        Bytes.Shows (Contents.byteAt f) address length data)
      (fun e t => t.Valid sure ∧ Keeps f t ∧ (sure → Contents.size f < address + length ∧
        e = .addressOutOfRange address length (Contents.size f))) := by
  by_cases hr : address + length ≤ f.maximumSize
  · have hq : sure → f.onRead.next.2.Never ∧ f.onWrite.Never ∧ f.onSync.Never := fun hs =>
      ⟨(h.quiet hs).1.next, (h.quiet hs).2⟩
    have hk : Keeps f { f with onRead := f.onRead.next.2 } := ⟨rfl, rfl, fun _ => ⟨trivial, rfl⟩⟩
    cases hf : f.onRead.next.1 with
    | true =>
      refine .of_error (e := .io "read failed") (t := { f with onRead := f.onRead.next.2 }) ?_
        ⟨⟨h.size, hq⟩, hk, fun hs => ?_⟩
      · simp only [PageFile.read, checkRange_of_le hr, hf, if_true]
      · exact absurd hf (h.quiet hs).1.not_due
    | false =>
      have hin : ¬ (0 < length ∧ f.bytes.size < address + length) := by
        rw [h.size]
        omega
      refine .of_ok (a := f.bytes.slice address length)
        (t := { f with onRead := f.onRead.next.2, stats := f.stats.recordRead length }) ?_
        ⟨⟨h.size, hq⟩, ⟨rfl, rfl, fun _ => ⟨trivial, rfl⟩⟩, hr, FlatMemory.shows_slice _ _ _⟩
      simp only [PageFile.read, checkRange_of_le hr, hf, Bool.false_eq_true, if_false, if_neg hin]
  · refine .of_error (e := .addressOutOfRange address length f.maximumSize) (t := f) ?_
      ⟨h, .refl f, fun _ => ⟨Nat.not_le.mp hr, rfl⟩⟩
    simp only [PageFile.read, checkRange_of_lt (Nat.not_le.mp hr)]

theorem ends_write (address : Nat) (data : ByteArray) (h : f.Valid sure) :
    (PageFile.write address data).Ends f
      (fun _ t => t.Valid sure ∧ address + data.size ≤ Contents.size f ∧
        Writes address data data.size f t)
      (fun e t => t.Valid sure ∧ (∃ k ≤ data.size, Writes address data k f t) ∧
        (sure → Contents.size f < address + data.size ∧ Keeps f t ∧
          e = .addressOutOfRange address data.size (Contents.size f))) := by
  by_cases hr : address + data.size ≤ f.maximumSize
  · have hq : sure → f.onRead.Never ∧ f.onWrite.next.2.Never ∧ f.onSync.Never := fun hs =>
      ⟨(h.quiet hs).1, (h.quiet hs).2.1.next, (h.quiet hs).2.2⟩
    cases hf : f.onWrite.next.1 with
    | true =>
      refine .of_error (e := .io "write failed") (t := { f with onWrite := f.onWrite.next.2 }) ?_
        ⟨⟨h.size, hq⟩, ⟨0, Nat.zero_le _, rfl, (Bytes.overlay_slice_zero _ _ _).symm⟩, fun hs => ?_⟩
      · simp only [PageFile.write, checkRange_of_le hr, hf, if_true]
      · exact absurd hf (h.quiet hs).2.1.not_due
    | false =>
      by_cases hd : data.size = 0
      · refine .of_ok (a := ())
          (t := { f with onWrite := f.onWrite.next.2, stats := f.stats.recordWrite 0 }) ?_
          ⟨⟨h.size, hq⟩, hr, rfl, ?_⟩
        · simp only [PageFile.write, checkRange_of_le hr, hf, Bool.false_eq_true,
            if_false, if_pos hd]
        · rw [Bytes.slice_zero_size, Bytes.overlay_of_size_eq_zero hd]
          rfl
      · refine .of_ok (a := ()) (t := { f with
            onWrite := f.onWrite.next.2, bytes := f.bytes.patch address data,
            stats := f.stats.recordWrite data.size }) ?_
          ⟨⟨?_, hq⟩, hr, rfl, FlatMemory.byteAt_patch f.bytes address data⟩
        · simp only [PageFile.write, checkRange_of_le hr, hf, Bool.false_eq_true,
            if_false, if_neg hd]
        · exact (Nat.max_eq_left (h.size ▸ hr)).trans h.size
  · refine .of_error (e := .addressOutOfRange address data.size f.maximumSize) (t := f) ?_
      ⟨h, ⟨0, Nat.zero_le _, (Keeps.refl f).writes _ _⟩, fun _ => ⟨Nat.not_le.mp hr, .refl f, rfl⟩⟩
    simp only [PageFile.write, checkRange_of_lt (Nat.not_le.mp hr)]

theorem ends_flush (h : f.Valid sure) :
    PageFile.flush.Ends f
      (fun _ t => t.Valid sure ∧ Keeps f t ∧ Contents.Clean t)
      (fun _ t => t.Valid sure ∧ Keeps f t ∧ ¬ sure) := by
  cases hs : f.syncOnFlush with
  | false =>
    refine .of_ok (a := ()) (t := f) ?_ ⟨h, .refl f, trivial⟩
    simp only [PageFile.flush, hs, Bool.false_eq_true, if_false]
  | true =>
    have hq : sure → f.onRead.Never ∧ f.onWrite.Never ∧ f.onSync.next.2.Never := fun hs =>
      ⟨(h.quiet hs).1, (h.quiet hs).2.1, (h.quiet hs).2.2.next⟩
    have hk : Keeps f { f with onSync := f.onSync.next.2 } := ⟨rfl, rfl, fun _ => ⟨trivial, rfl⟩⟩
    cases hf : f.onSync.next.1 with
    | true =>
      refine .of_error (e := .io "synchronisation failed")
        (t := { f with onSync := f.onSync.next.2 }) ?_ ⟨⟨h.size, hq⟩, hk, fun hs => ?_⟩
      · simp only [PageFile.flush, hs, hf, if_true]
      · exact absurd hf (h.quiet hs).2.2.not_due
    | false =>
      refine .of_ok (a := ()) (t := { f with onSync := f.onSync.next.2 }) ?_
        ⟨⟨h.size, hq⟩, hk, trivial⟩
      simp only [PageFile.flush, hs, hf, Bool.false_eq_true, if_true, if_false]

instance : LawfulBackend PageFile where
  Valid sure f := f.Valid sure
  capacity_eq _ := rfl
  byteAt_of_size_le h hi :=
    SparseBytes.byteAt_of_size_le (Nat.le_trans (Nat.le_of_eq (PageFile.Valid.size h)) hi)
  ends_read := ends_read
  ends_write := ends_write
  ends_flush := ends_flush
  ends_shutdown := ends_flush

section Creation

variable {place left : Location} {maximumSize : Nat} {syncOnFlush : Bool}
  {file : PageFile} {e : Error}

theorem create_eq_ok_iff :
    create place maximumSize syncOnFlush = .ok file ↔
      (0 < maximumSize ∧ maximumSize < sizeLimit) ∧ (∀ why, place ≠ .unreachable why) ∧
        file = { bytes := .zeros maximumSize, maximumSize, syncOnFlush } := by
  unfold create
  split
  · exact ⟨nofun, fun h => by omega⟩
  · split
    · exact ⟨nofun, fun h => absurd rfl (h.2.1 _)⟩
    · rename_i hplace
      split
      · exact ⟨nofun, fun h => by omega⟩
      · constructor
        · rintro ⟨⟩
          exact ⟨by omega, hplace, rfl⟩
        · rintro ⟨-, -, rfl⟩
          rfl

theorem create_eq_error (h : create place maximumSize syncOnFlush = .error (e, left)) :
    (maximumSize = 0 ∧ left = place) ∨
    (∃ message, e = .io message) ∧
      ((∃ why, place = .unreachable why ∧ left = place) ∨
        (∀ why, place ≠ .unreachable why) ∧ left = .file (.zeros 0)) := by
  unfold create at h
  split at h
  · cases h
    exact .inl ⟨‹_›, rfl⟩
  · split at h
    · cases h
      exact .inr ⟨⟨_, rfl⟩, .inl ⟨_, rfl, rfl⟩⟩
    · split at h
      · cases h
        exact .inr ⟨⟨_, rfl⟩, .inr ⟨‹_›, rfl⟩⟩
      · cases h

end Creation

end PageFile

end TieredMemory
