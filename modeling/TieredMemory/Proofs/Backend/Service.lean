import TieredMemory.Backend.PageFile
import TieredMemory.Proofs.Outcome

namespace TieredMemory

def Error.OutOfRange (e : Error) : Prop :=
  ∃ address length limit, e = .addressOutOfRange address length limit

structure Backend.Serves {B : Type} [Backend B] (limit : Nat) (bad : Error → Prop)
    (I : B → Prop) : Prop where
  capacity (b : B) : I b → Backend.capacity b = some limit
  read (b : B) (address length : Nat) : I b → address + length ≤ limit →
    (Backend.read address length).Ends b (fun _ t => I t) (fun e t => I t ∧ bad e)
  write (b : B) (address : Nat) (data : ByteArray) : I b → address + data.size ≤ limit →
    (Backend.write address data).Ends b (fun _ t => I t) (fun e t => I t ∧ bad e)
  flush (b : B) : I b → Op.Ends Backend.flush b (fun _ t => I t) (fun e t => I t ∧ bad e)
  shutdown (b : B) : I b → Op.Ends Backend.shutdown b (fun _ t => I t) (fun e t => I t ∧ bad e)

namespace PageFile

variable {f : PageFile}

structure Counted (f : PageFile) (stats : Transfers) (t : PageFile) : Prop where
  size : t.maximumSize = f.maximumSize
  stats : t.stats = stats

def Failed (f : PageFile) (e : Error) (t : PageFile) : Prop :=
  Counted f f.stats t ∧ ¬ e.OutOfRange

theorem not_outOfRange_io (reason : String) : ¬ (Error.io reason).OutOfRange := by
  rintro ⟨_, _, _, h⟩
  cases h

theorem ends_read_counted {address length : Nat} (hr : address + length ≤ f.maximumSize) :
    (PageFile.read address length).Ends f
      (fun data t => data.size = length ∧ Counted f (f.stats.recordRead length) t)
      (fun e t => Failed f e t) := by
  have hc := checkRange_eq_ok_iff.mpr hr
  cases hn : f.onRead.next.1 with
  | true =>
    apply Op.Ends.of_error (e := .io "read failed") (t := { f with onRead := f.onRead.next.2 })
    · simp only [PageFile.read, hc, hn, if_true]
    · exact ⟨⟨rfl, rfl⟩, not_outOfRange_io _⟩
  | false =>
    by_cases hshort : 0 < length ∧ f.bytes.size < address + length
    · apply Op.Ends.of_error (e := .io "failed to fill whole buffer")
        (t := { f with onRead := f.onRead.next.2 })
      · simp only [PageFile.read, hc, hn, Bool.false_eq_true, if_false, if_pos hshort]
      · exact ⟨⟨rfl, rfl⟩, not_outOfRange_io _⟩
    · apply Op.Ends.of_ok (a := f.bytes.slice address length)
        (t := { f with onRead := f.onRead.next.2, stats := f.stats.recordRead length })
      · simp only [PageFile.read, hc, hn, Bool.false_eq_true, if_false, if_neg hshort]
      · exact ⟨SparseBytes.size_slice _ _ _, rfl, rfl⟩

theorem ends_write_counted {address : Nat} {data : ByteArray}
    (hr : address + data.size ≤ f.maximumSize) :
    (PageFile.write address data).Ends f
      (fun _ t => Counted f (f.stats.recordWrite data.size) t) (fun e t => Failed f e t) := by
  have hc := checkRange_eq_ok_iff.mpr hr
  cases hn : f.onWrite.next.1 with
  | true =>
    apply Op.Ends.of_error (e := .io "write failed") (t := { f with onWrite := f.onWrite.next.2 })
    · simp only [PageFile.write, hc, hn, if_true]
    · exact ⟨⟨rfl, rfl⟩, not_outOfRange_io _⟩
  | false =>
    by_cases hempty : data.size = 0
    · apply Op.Ends.of_ok (a := ())
        (t := { f with onWrite := f.onWrite.next.2, stats := f.stats.recordWrite 0 })
      · simp only [PageFile.write, hc, hn, Bool.false_eq_true, if_false, if_pos hempty]
      · exact hempty ▸ ⟨rfl, rfl⟩
    · apply Op.Ends.of_ok (a := ())
        (t := { f with
          onWrite := f.onWrite.next.2
          bytes := f.bytes.patch address data
          stats := f.stats.recordWrite data.size })
      · simp only [PageFile.write, hc, hn, Bool.false_eq_true, if_false, if_neg hempty]
      · exact ⟨rfl, rfl⟩

theorem ends_flush_counted (f : PageFile) :
    PageFile.flush.Ends f (fun _ t => Counted f f.stats t) (fun e t => Failed f e t) := by
  cases hs : f.syncOnFlush with
  | false =>
    apply Op.Ends.of_ok (a := ()) (t := f)
    · simp only [PageFile.flush, hs, Bool.false_eq_true, if_false]
    · exact ⟨rfl, rfl⟩
  | true =>
    cases hn : f.onSync.next.1 with
    | true =>
      apply Op.Ends.of_error (e := .io "synchronisation failed")
        (t := { f with onSync := f.onSync.next.2 })
      · simp only [PageFile.flush, hs, hn, if_true]
      · exact ⟨⟨rfl, rfl⟩, not_outOfRange_io _⟩
    | false =>
      apply Op.Ends.of_ok (a := ()) (t := { f with onSync := f.onSync.next.2 })
      · simp only [PageFile.flush, hs, hn, Bool.false_eq_true, if_true, if_false]
      · exact ⟨rfl, rfl⟩

theorem serves (limit : Nat) :
    Backend.Serves limit (fun e => ¬ e.OutOfRange) fun f : PageFile => f.maximumSize = limit where
  capacity _ hf := congrArg some hf
  read _ _ _ hf hr := (ends_read_counted (hf ▸ hr)).mono (fun _ _ ht => ht.2.size.trans hf)
    fun _ _ ht => ⟨ht.1.size.trans hf, ht.2⟩
  write _ _ _ hf hr := (ends_write_counted (hf ▸ hr)).mono (fun _ _ ht => ht.size.trans hf)
    fun _ _ ht => ⟨ht.1.size.trans hf, ht.2⟩
  flush f hf := (ends_flush_counted f).mono (fun _ _ ht => ht.size.trans hf)
    fun _ _ ht => ⟨ht.1.size.trans hf, ht.2⟩
  shutdown f hf := (ends_flush_counted f).mono (fun _ _ ht => ht.size.trans hf)
    fun _ _ ht => ⟨ht.1.size.trans hf, ht.2⟩

end PageFile

end TieredMemory
