import TieredMemory.Proofs.Backend.Contents
import TieredMemory.Proofs.Backend.Service
import TieredMemory.Proofs.History

namespace TieredMemory

namespace SparseBytes

theorem slice_toByteArray {b : SparseBytes} {address length : Nat}
    (h : 0 < length → address + length ≤ b.size) :
    Bytes.slice b.toByteArray address length = b.slice address length := by
  have hs : (Bytes.slice b.toByteArray address length).size = length := by
    simp only [Bytes.slice, ByteArray.size_extract, size_toByteArray]
    omega
  apply Bytes.ext_byteAt (hs.trans (b.size_slice address length).symm)
  intro i
  by_cases hi : i < length
  · rw [Bytes.byteAt_slice hi, byteAt_slice hi, byteAt_toByteArray]
  · rw [Bytes.byteAt_of_size_le (by omega), Bytes.byteAt_of_size_le (by rw [size_slice]; omega)]

theorem slice_congr {b b' : SparseBytes} (h : b.byteAt = b'.byteAt) (address length : Nat) :
    b.slice address length = b'.slice address length := by
  apply Bytes.ext_byteAt
  · rw [size_slice, size_slice]
  · intro i
    by_cases hi : i < length
    · rw [byteAt_slice hi, byteAt_slice hi, h]
    · rw [Bytes.byteAt_of_size_le (by rw [size_slice]; omega),
        Bytes.byteAt_of_size_le (by rw [size_slice]; omega)]

end SparseBytes

namespace PageFile

inductive Event where
  | read (own : Bool) (address length : Nat)
  | write (own : Bool) (address : Nat) (data : ByteArray)
  | flush (own : Bool)
  | shutdown
  | resize (size : Nat)

namespace Event

def perform : Event → Op PageFile ByteArray
  | read true address length => PageFile.read address length
  | read false address length => Backend.read address length
  | write true address data => do
    PageFile.write address data
    return ByteArray.empty
  | write false address data => do
    Backend.write address data
    return ByteArray.empty
  | flush true => do
    PageFile.flush
    return ByteArray.empty
  | flush false => do
    Backend.flush
    return ByteArray.empty
  | shutdown => do
    Backend.shutdown
    return ByteArray.empty
  | resize size => fun f => (.ok ByteArray.empty, f.truncate size)

def onMemory : Event → Op FlatMemory ByteArray
  | read _ address length => Backend.read address length
  | write _ address data => do
    Backend.write address data
    return ByteArray.empty
  | flush _ => do
    Backend.flush
    return ByteArray.empty
  | shutdown => do
    Backend.shutdown
    return ByteArray.empty
  | resize _ => pure ByteArray.empty

def Exceeds (limit : Nat) : Event → Prop
  | read _ address length => limit < address + length
  | write _ address data => limit < address + data.size
  | _ => False

def Overruns (limit size : Nat) : Event → Prop
  | read _ address length => address + length ≤ limit ∧ 0 < length ∧ size < address + length
  | _ => False

def Resizes : Event → Prop
  | resize _ => True
  | _ => False

end Event

def image (f : PageFile) : ByteArray := f.bytes.toByteArray

def count (t : Transfers) (s : Step Event ByteArray PageFile) : Transfers :=
  match s.call, s.answer with
  | .read _ _ length, .ok _ => { t with reads := t.reads + 1, bytesRead := t.bytesRead + length }
  | .write _ _ data, .ok _ =>
    { t with writes := t.writes + 1, bytesWritten := t.bytesWritten + data.size }
  | _, _ => t

def tally (past : List (Step Event ByteArray PageFile)) : Transfers := past.foldl count {}

structure Overwrites (address : Nat) (data m m' : ByteArray) : Prop where
  size : m'.size = if data.size = 0 then m.size else max m.size (address + data.size)
  inside : ∀ i < data.size, Bytes.byteAt m' (address + i) = Bytes.byteAt data i
  outside : ∀ i < m.size, i < address ∨ address + data.size ≤ i →
    Bytes.byteAt m' i = Bytes.byteAt m i
  gap : ∀ i, m.size ≤ i → i < address → Bytes.byteAt m' i = 0

structure Resized (length : Nat) (m m' : ByteArray) : Prop where
  size : m'.size = length
  kept : ∀ i < m.size, i < length → Bytes.byteAt m' i = Bytes.byteAt m i
  gap : ∀ i, m.size ≤ i → Bytes.byteAt m' i = 0

inductive Outcome (limit : Nat) : Event → (before : ByteArray) → Except Error ByteArray →
    (after : ByteArray) → Prop
  | readRefused {own : Bool} {address length : Nat} {m : ByteArray} (h : limit < address + length) :
    Outcome limit (.read own address length) m (.error (.addressOutOfRange address length limit)) m
  | readShort {own : Bool} {address length : Nat} {m : ByteArray} (h : address + length ≤ limit)
    (hl : 0 < length) (hs : m.size < address + length) :
    Outcome limit (.read own address length) m (.error (.io "failed to fill whole buffer")) m
  | read {own : Bool} {address length : Nat} {m : ByteArray} (h : address + length ≤ limit)
    (hs : 0 < length → address + length ≤ m.size) :
    Outcome limit (.read own address length) m (.ok (Bytes.slice m address length)) m
  | writeRefused {own : Bool} {address : Nat} {data m : ByteArray}
    (h : limit < address + data.size) :
    Outcome limit (.write own address data) m
      (.error (.addressOutOfRange address data.size limit)) m
  | write {own : Bool} {address : Nat} {data m m' : ByteArray} (h : address + data.size ≤ limit)
    (hw : Overwrites address data m m') :
    Outcome limit (.write own address data) m (.ok ByteArray.empty) m'
  | flush {own : Bool} {m : ByteArray} : Outcome limit (.flush own) m (.ok ByteArray.empty) m
  | shutdown {m : ByteArray} : Outcome limit .shutdown m (.ok ByteArray.empty) m
  | resize {size : Nat} {m m' : ByteArray} (h : Resized size m m') :
    Outcome limit (.resize size) m (.ok ByteArray.empty) m'

structure Healthy (limit : Nat) (f : PageFile) : Prop where
  size : f.maximumSize = limit
  onRead : f.onRead.Never
  onWrite : f.onWrite.Never
  onSync : f.onSync.Never

section Calls

variable {limit address length : Nat} {data : ByteArray} {f : PageFile}

theorem read_of_lt (h : f.Healthy limit) (hr : limit < address + length) :
    PageFile.read address length f = (.error (.addressOutOfRange address length limit), f) := by
  simp only [PageFile.read, h.size, checkRange_of_lt hr]

theorem read_of_short (h : f.Healthy limit) (hr : address + length ≤ limit) (hl : 0 < length)
    (hs : f.bytes.size < address + length) :
    ∃ t, PageFile.read address length f = (.error (.io "failed to fill whole buffer"), t) ∧
      t.Healthy limit ∧ t.bytes = f.bytes ∧ t.stats = f.stats := by
  refine ⟨{ f with onRead := f.onRead.next.2 }, ?_, ⟨h.size, h.onRead.next, h.onWrite, h.onSync⟩,
    rfl, rfl⟩
  simp only [PageFile.read, h.size, checkRange_of_le hr, if_neg h.onRead.not_due, hl, hs, and_self,
    if_true]

theorem read_of_le (h : f.Healthy limit) (hr : address + length ≤ limit)
    (hs : ¬ (0 < length ∧ f.bytes.size < address + length)) :
    ∃ t, PageFile.read address length f = (.ok (f.bytes.slice address length), t) ∧
      t.Healthy limit ∧ t.bytes = f.bytes ∧ t.stats = f.stats.recordRead length := by
  refine ⟨{ f with onRead := f.onRead.next.2, stats := f.stats.recordRead length }, ?_,
    ⟨h.size, h.onRead.next, h.onWrite, h.onSync⟩, rfl, rfl⟩
  simp only [PageFile.read, h.size, checkRange_of_le hr, if_neg h.onRead.not_due, if_neg hs]

theorem write_of_lt (h : f.Healthy limit) (hr : limit < address + data.size) :
    PageFile.write address data f = (.error (.addressOutOfRange address data.size limit), f) := by
  simp only [PageFile.write, h.size, checkRange_of_lt hr]

theorem write_of_le (h : f.Healthy limit) (hr : address + data.size ≤ limit) :
    ∃ t, PageFile.write address data f = (.ok (), t) ∧ t.Healthy limit ∧
      t.bytes = (if data.size = 0 then f.bytes else f.bytes.patch address data) ∧
      t.stats = f.stats.recordWrite data.size := by
  by_cases hz : data.size = 0
  · refine ⟨{ f with onWrite := f.onWrite.next.2, stats := f.stats.recordWrite 0 }, ?_,
      ⟨h.size, h.onRead, h.onWrite.next, h.onSync⟩, (if_pos hz).symm, by rw [hz]⟩
    simp only [PageFile.write, h.size, checkRange_of_le hr, if_neg h.onWrite.not_due, if_pos hz]
  · refine ⟨{ f with
      onWrite := f.onWrite.next.2, bytes := f.bytes.patch address data,
      stats := f.stats.recordWrite data.size }, ?_,
      ⟨h.size, h.onRead, h.onWrite.next, h.onSync⟩, (if_neg hz).symm, rfl⟩
    simp only [PageFile.write, h.size, checkRange_of_le hr, if_neg h.onWrite.not_due, if_neg hz]

theorem flush_of_healthy (h : f.Healthy limit) :
    ∃ t, PageFile.flush f = (.ok (), t) ∧ t.Healthy limit ∧ t.bytes = f.bytes ∧
      t.stats = f.stats := by
  cases hs : f.syncOnFlush with
  | false =>
    refine ⟨f, ?_, h, rfl, rfl⟩
    simp only [PageFile.flush, hs, Bool.false_eq_true, if_false]
  | true =>
    refine ⟨{ f with onSync := f.onSync.next.2 }, ?_,
      ⟨h.size, h.onRead, h.onWrite, h.onSync.next⟩, rfl, rfl⟩
    simp only [PageFile.flush, hs, if_true, if_neg h.onSync.not_due]

end Calls

section Events

variable {limit : Nat} {event : Event} {f : PageFile} {m m' : ByteArray}
variable {answer : Except Error ByteArray}

theorem Outcome.outOfRange_iff (h : Outcome limit event m answer m') :
    (∃ e, answer = .error e ∧ e.OutOfRange) ↔ event.Exceeds limit := by
  cases h with
  | readRefused h => exact iff_of_true ⟨_, rfl, _, _, _, rfl⟩ h
  | readShort h =>
    apply iff_of_false _ (Nat.not_lt.mpr h)
    rintro ⟨_, ⟨⟩, hr⟩
    exact not_outOfRange_io _ hr
  | read h => exact iff_of_false (fun ⟨_, he, _⟩ => nomatch he) (Nat.not_lt.mpr h)
  | writeRefused h => exact iff_of_true ⟨_, rfl, _, _, _, rfl⟩ h
  | write h => exact iff_of_false (fun ⟨_, he, _⟩ => nomatch he) (Nat.not_lt.mpr h)
  | flush => exact iff_of_false (fun ⟨_, he, _⟩ => nomatch he) id
  | shutdown => exact iff_of_false (fun ⟨_, he, _⟩ => nomatch he) id
  | resize => exact iff_of_false (fun ⟨_, he, _⟩ => nomatch he) id

theorem Outcome.io_iff (h : Outcome limit event m answer m') :
    (∃ reason, answer = .error (.io reason)) ↔ event.Overruns limit m.size := by
  cases h with
  | readRefused h => exact iff_of_false (fun ⟨_, he⟩ => nomatch he) fun hr => by have := hr.1; omega
  | readShort h hl hs => exact iff_of_true ⟨_, rfl⟩ ⟨h, hl, hs⟩
  | read h hs =>
    exact iff_of_false (fun ⟨_, he⟩ => nomatch he) fun hr => Nat.not_lt.mpr (hs hr.2.1) hr.2.2
  | writeRefused => exact iff_of_false (fun ⟨_, he⟩ => nomatch he) id
  | write => exact iff_of_false (fun ⟨_, he⟩ => nomatch he) id
  | flush => exact iff_of_false (fun ⟨_, he⟩ => nomatch he) id
  | shutdown => exact iff_of_false (fun ⟨_, he⟩ => nomatch he) id
  | resize => exact iff_of_false (fun ⟨_, he⟩ => nomatch he) id

theorem overwrites_patch (b : SparseBytes) (address : Nat) (data : ByteArray) :
    Overwrites address data b.toByteArray
      (if data.size = 0 then b else b.patch address data).toByteArray := by
  by_cases hz : data.size = 0
  · rw [if_pos hz]
    constructor
    · rw [if_pos hz]
    · intro i hi
      omega
    · exact fun _ _ _ => rfl
    · exact fun i hi _ => Bytes.byteAt_of_size_le hi
  · rw [if_neg hz]
    constructor
    · rw [if_neg hz, SparseBytes.size_toByteArray, SparseBytes.size_toByteArray,
        SparseBytes.size_patch]
    · intro i hi
      rw [SparseBytes.byteAt_toByteArray, SparseBytes.byteAt_patch, if_pos (by omega),
        Nat.add_sub_cancel_left]
    · intro i _ hout
      rw [SparseBytes.byteAt_toByteArray, SparseBytes.byteAt_patch, if_neg (by omega),
        SparseBytes.byteAt_toByteArray]
    · intro i hi hlt
      rw [SparseBytes.size_toByteArray] at hi
      rw [SparseBytes.byteAt_toByteArray, SparseBytes.byteAt_patch, if_neg (by omega),
        SparseBytes.byteAt_of_size_le hi]

theorem resized_resize (b : SparseBytes) (size : Nat) :
    Resized size b.toByteArray (b.resize size).toByteArray := by
  constructor
  · rw [SparseBytes.size_toByteArray, SparseBytes.size_resize]
  · intro i _ hi
    rw [SparseBytes.byteAt_toByteArray, SparseBytes.byteAt_resize, if_pos hi,
      SparseBytes.byteAt_toByteArray]
  · intro i hi
    rw [SparseBytes.size_toByteArray] at hi
    rw [SparseBytes.byteAt_toByteArray, SparseBytes.byteAt_resize]
    split
    · exact SparseBytes.byteAt_of_size_le hi
    · rfl

theorem perform_read (own : Bool) (address length : Nat) :
    (Event.read own address length).perform = PageFile.read address length := by
  cases own <;> rfl

theorem perform_write (own : Bool) (address : Nat) (data : ByteArray) :
    (Event.write own address data).perform = do
      PageFile.write address data
      return ByteArray.empty := by
  cases own <;> rfl

theorem perform_flush (own : Bool) :
    (Event.flush own).perform = do
      PageFile.flush
      return ByteArray.empty := by
  cases own <;> rfl

theorem perform_healthy (h : f.Healthy limit) (event : Event) :
    ∃ answer t, event.perform f = (answer, t) ∧ t.Healthy limit ∧
      Outcome limit event f.image answer t.image ∧
        t.stats = count f.stats ⟨event, answer, f, t⟩ := by
  cases event with
  | read own address length =>
    rw [perform_read]
    by_cases hr : address + length ≤ limit
    · by_cases hs : 0 < length ∧ f.bytes.size < address + length
      · obtain ⟨t, he, ht, hb, hstats⟩ := read_of_short h hr hs.1 hs.2
        refine ⟨_, t, he, ht, ?_, hstats⟩
        rw [image, image, hb]
        apply Outcome.readShort hr hs.1
        rw [SparseBytes.size_toByteArray]
        exact hs.2
      · obtain ⟨t, he, ht, hb, hstats⟩ := read_of_le h hr hs
        refine ⟨_, t, he, ht, ?_, hstats⟩
        have hin : 0 < length → address + length ≤ f.bytes.size := fun hl => by omega
        rw [← SparseBytes.slice_toByteArray hin, image, image, hb]
        apply Outcome.read hr
        rw [SparseBytes.size_toByteArray]
        exact hin
    · have hlt := Nat.not_le.mp hr
      exact ⟨_, f, read_of_lt h hlt, h, .readRefused hlt, rfl⟩
  | write own address data =>
    rw [perform_write]
    by_cases hr : address + data.size ≤ limit
    · obtain ⟨t, he, ht, hb, hstats⟩ := write_of_le h hr
      refine ⟨_, t, Op.bind_apply_ok he, ht, ?_, hstats⟩
      rw [image, image, hb]
      exact .write hr (overwrites_patch f.bytes address data)
    · have hlt := Nat.not_le.mp hr
      exact ⟨_, f, Op.bind_apply_error (write_of_lt h hlt), h, .writeRefused hlt, rfl⟩
  | flush own =>
    obtain ⟨t, he, ht, hb, hstats⟩ := flush_of_healthy h
    rw [perform_flush]
    refine ⟨_, t, Op.bind_apply_ok he, ht, ?_, hstats⟩
    rw [image, image, hb]
    exact .flush
  | shutdown =>
    obtain ⟨t, he, ht, hb, hstats⟩ := flush_of_healthy h
    refine ⟨_, t, Op.bind_apply_ok he, ht, ?_, hstats⟩
    rw [image, image, hb]
    exact .shutdown
  | resize size =>
    refine ⟨_, f.truncate size, rfl, ⟨h.size, h.onRead, h.onWrite, h.onSync⟩, ?_, rfl⟩
    exact .resize (resized_resize f.bytes size)

end Events

section Memory

variable {limit : Nat} {f : PageFile} {m : FlatMemory}

structure Twins (limit : Nat) (f : PageFile) (m : FlatMemory) : Prop where
  healthy : f.Healthy limit
  size : f.bytes.size = limit
  memory : m.bytes.size = limit
  bytes : f.bytes.byteAt = m.bytes.byteAt

theorem Twins.image_eq (h : Twins limit f m) : f.image = m.bytes.toByteArray := by
  have hsize : f.bytes.size = m.bytes.size := h.size.trans h.memory.symm
  rw [image, SparseBytes.toByteArray, SparseBytes.toByteArray, hsize]
  exact SparseBytes.slice_congr h.bytes 0 _

theorem Twins.withBytes {t : PageFile} (h : Twins limit f m) (ht : t.Healthy limit)
    (hb : t.bytes = f.bytes) : Twins limit t m :=
  ⟨ht, hb ▸ h.size, h.memory, hb ▸ h.bytes⟩

theorem Twins.read (h : Twins limit f m) (address length : Nat) :
    ∃ answer t m', PageFile.read address length f = (answer, t) ∧
      FlatMemory.read address length m = (answer, m') ∧ Twins limit t m' := by
  by_cases hr : address + length ≤ limit
  · have hs : ¬ (0 < length ∧ f.bytes.size < address + length) := by
      rw [h.size]
      omega
    obtain ⟨t, he, ht, hb, -⟩ := read_of_le h.healthy hr hs
    have ht := h.withBytes ht hb
    refine ⟨_, t, { m with reads := m.reads.push (address, length) }, he, ?_, ht.healthy, ht.size,
      ht.memory, ht.bytes⟩
    rw [SparseBytes.slice_congr h.bytes]
    simp only [FlatMemory.read, h.memory, checkRange_of_le hr]
  · have hlt := Nat.not_le.mp hr
    refine ⟨_, f, m, read_of_lt h.healthy hlt, ?_, h⟩
    simp only [FlatMemory.read, h.memory, checkRange_of_lt hlt]

theorem Twins.write (h : Twins limit f m) (address : Nat) (data : ByteArray) :
    ∃ answer t m', PageFile.write address data f = (answer, t) ∧
      FlatMemory.write address data m = (answer, m') ∧ Twins limit t m' := by
  by_cases hr : address + data.size ≤ limit
  · obtain ⟨t, he, ht, hb, -⟩ := write_of_le h.healthy hr
    refine ⟨_, t, { m with
      bytes := m.bytes.patch address data, writes := m.writes.push (address, data.size) }, he, ?_,
      ht, ?_, ?_, ?_⟩
    · simp only [FlatMemory.write, h.memory, checkRange_of_le hr]
    · rw [hb]
      split
      · exact h.size
      · rw [SparseBytes.size_patch, h.size, Nat.max_eq_left hr]
    · change (m.bytes.patch address data).size = limit
      rw [SparseBytes.size_patch, h.memory, Nat.max_eq_left hr]
    · funext i
      change _ = (m.bytes.patch address data).byteAt i
      rw [hb, SparseBytes.byteAt_patch, ← h.bytes]
      split
      · rw [if_neg (by omega)]
      · rw [SparseBytes.byteAt_patch]
  · have hlt := Nat.not_le.mp hr
    refine ⟨_, f, m, write_of_lt h.healthy hlt, ?_, h⟩
    simp only [FlatMemory.write, h.memory, checkRange_of_lt hlt]

theorem Twins.perform (h : Twins limit f m) {event : Event} (hn : ¬ event.Resizes) :
    ∃ answer t m', event.perform f = (answer, t) ∧ event.onMemory m = (answer, m') ∧
      Twins limit t m' := by
  cases event with
  | read own address length =>
    rw [perform_read]
    exact h.read address length
  | write own address data =>
    rw [perform_write]
    obtain ⟨answer, t, m', he, hm, ht⟩ := h.write address data
    cases answer with
    | error e => exact ⟨_, t, m', Op.bind_apply_error he, Op.bind_apply_error hm, ht⟩
    | ok _ => exact ⟨_, t, m', Op.bind_apply_ok he, Op.bind_apply_ok hm, ht⟩
  | flush own =>
    rw [perform_flush]
    obtain ⟨t, he, ht, hb, -⟩ := flush_of_healthy h.healthy
    have ht := h.withBytes ht hb
    exact ⟨_, t, { m with flushes := m.flushes + 1 }, Op.bind_apply_ok he, rfl, ht.healthy, ht.size,
      ht.memory, ht.bytes⟩
  | shutdown =>
    obtain ⟨t, he, ht, hb, -⟩ := flush_of_healthy h.healthy
    exact ⟨_, t, m, Op.bind_apply_ok he, rfl, h.withBytes ht hb⟩
  | resize size => exact absurd trivial hn

theorem Twins.history {events : List Event} (h : Twins limit f m)
    (hn : ∀ event ∈ events, ¬ event.Resizes) :
    (Op.history Event.perform events f).map (fun s => (s.answer, s.after.image)) =
        (Op.history Event.onMemory events m).map (fun s => (s.answer, s.after.bytes.toByteArray)) ∧
      ∀ s ∈ Op.history Event.perform events f, s.after.image.size = limit := by
  induction events generalizing f m with
  | nil => exact ⟨rfl, fun _ hm => absurd hm List.not_mem_nil⟩
  | cons event events ih =>
    obtain ⟨hevent, hevents⟩ := List.forall_mem_cons.mp hn
    obtain ⟨answer, t, m', he, hm, ht⟩ := h.perform hevent
    obtain ⟨hrest, hsizes⟩ := ih ht hevents
    have hsize : t.image.size = limit := by rw [image, SparseBytes.size_toByteArray, ht.size]
    simp only [Op.history, he, hm, List.map_cons, hrest, ht.image_eq, List.forall_mem_cons]
    exact ⟨trivial, ht.image_eq ▸ hsize, hsizes⟩

end Memory

structure Obeys (limit : Nat) (past : List (Step Event ByteArray PageFile))
    (s : Step Event ByteArray PageFile) : Prop where
  outcome : Outcome limit s.call s.before.image s.answer s.after.image
  outOfRange : (∃ e, s.answer = .error e ∧ e.OutOfRange) ↔ s.call.Exceeds limit
  io : (∃ reason, s.answer = .error (.io reason)) ↔ s.call.Overruns limit s.before.image.size
  before : s.before.stats = tally past
  after : s.after.stats = tally (past ++ [s])

section Creation

variable {place : Location} {maximumSize : Nat} {syncOnFlush : Bool} {f : PageFile}

theorem obeys_of_split (h : f.Healthy maximumSize) (hs : f.stats = {}) {events : List Event}
    {pre post : List (Step Event ByteArray PageFile)} {s : Step Event ByteArray PageFile}
    (hsplit : Op.history Event.perform events f = pre ++ s :: post) : Obeys maximumSize pre s := by
  have hstep : ∀ past event f answer t, True → Event.perform event f = (answer, t) →
      f.Healthy maximumSize ∧ f.stats = tally past →
      t.Healthy maximumSize ∧ t.stats = tally (past ++ [⟨event, answer, f, t⟩]) := by
    rintro past event f answer t _ he ⟨hf, hstats⟩
    obtain ⟨answer', t', he', ht, -, hcount⟩ := perform_healthy hf event
    cases he.symm.trans he'
    refine ⟨ht, ?_⟩
    rw [tally, List.foldl_append, ← tally, ← hstats]
    exact hcount
  obtain ⟨-, he, hf, hstats⟩ := (Op.runs_history Event.perform events f).split
    (Q := fun _ => True) (fun _ _ => trivial) ⟨h, hs⟩ hstep hsplit
  obtain ⟨answer, t, he', -, houtcome, -⟩ := perform_healthy hf s.call
  have hafter := (hstep pre _ _ _ _ trivial he ⟨hf, hstats⟩).2
  obtain ⟨event, answer', b, t'⟩ := s
  cases he.symm.trans he'
  exact ⟨houtcome, houtcome.outOfRange_iff, houtcome.io_iff, hstats, hafter⟩

theorem toByteArray_zeros (size : Nat) :
    (SparseBytes.zeros size).toByteArray = Bytes.zeros size := by
  apply Bytes.ext_byteAt
  · rw [SparseBytes.size_toByteArray, SparseBytes.size_zeros, Bytes.size_zeros]
  · intro i
    rw [SparseBytes.byteAt_toByteArray, SparseBytes.byteAt_zeros, Bytes.byteAt_zeros]

theorem toByteArray_patch_last {size : Nat} (h : 0 < size) :
    ((SparseBytes.zeros 0).patch (size - 1) ⟨#[0]⟩).toByteArray = Bytes.zeros size := by
  have hone : (⟨#[0]⟩ : ByteArray).size = 1 := rfl
  apply Bytes.ext_byteAt
  · rw [SparseBytes.size_toByteArray, SparseBytes.size_patch, SparseBytes.size_zeros, hone,
      Bytes.size_zeros]
    omega
  · intro i
    rw [SparseBytes.byteAt_toByteArray, SparseBytes.byteAt_patch, hone, SparseBytes.byteAt_zeros,
      Bytes.byteAt_zeros]
    split
    · have hi : i - (size - 1) = 0 := by omega
      rw [hi]
      rfl
    · rfl

/-- A page file is created with zeros whatever was there before, as one zero at the end of an empty
file makes them. From then on it does what a growable byte sequence does: a transfer is out of range
if and only if it ends beyond the size of the creation, however long the file is, and a read fails
otherwise if and only if the file is too short for it. The counters are the transfers that
succeeded. A file whose length nobody else changes answers as a flat memory of its size. -/
theorem file_is_byte_sequence (h : create place maximumSize syncOnFlush = .ok f) :
    (f.image = Bytes.zeros maximumSize ∧
      f.image = ((SparseBytes.zeros 0).patch (maximumSize - 1) ⟨#[0]⟩).toByteArray) ∧
    (∀ events pre s post, Op.history Event.perform events f = pre ++ s :: post →
      Obeys maximumSize pre s) ∧
    ∀ events, (∀ event ∈ events, ¬ event.Resizes) →
      (∀ s ∈ Op.history Event.perform events f, s.after.image.size = maximumSize) ∧
      (Op.history Event.perform events f).map (fun s => (s.answer, s.after.image)) =
        (Op.history Event.onMemory events (.ofSize maximumSize)).map
          (fun s => (s.answer, s.after.bytes.toByteArray)) := by
  obtain ⟨⟨hpos, -⟩, -, rfl⟩ := create_eq_ok_iff.mp h
  have hnever : Faults.Never {} := fun _ => rfl
  have hhealthy : Healthy maximumSize
      { bytes := .zeros maximumSize, maximumSize, syncOnFlush } := ⟨rfl, hnever, hnever, hnever⟩
  refine ⟨⟨toByteArray_zeros _, ?_⟩, ?_, ?_⟩
  · exact (toByteArray_zeros _).trans (toByteArray_patch_last hpos).symm
  · exact fun events pre s post hsplit => obeys_of_split hhealthy rfl hsplit
  · intro events hn
    have htwins : Twins maximumSize { bytes := .zeros maximumSize, maximumSize, syncOnFlush }
        (.ofSize maximumSize) := ⟨hhealthy, rfl, rfl, rfl⟩
    obtain ⟨hsame, hsizes⟩ := htwins.history hn
    exact ⟨hsizes, hsame⟩

theorem file_is_byte_sequence_resized :
    ∃ f, create (.file (.ofByteArray ⟨#[7, 7]⟩)) 8 true = .ok f ∧
      (Op.history Event.perform [.write false 2 ⟨#[1, 2, 3]⟩, .resize 3, .read true 0 4,
        .write true 5 ⟨#[9]⟩, .read false 1 5, .read true 7 2, .resize 12, .read false 5 3] f).map
          (fun s => (s.answer.toOption.map (·.toList), s.after.image.size, s.after.stats)) =
        [(some [], 8, ⟨0, 1, 0, 3⟩), (some [], 3, ⟨0, 1, 0, 3⟩), (none, 3, ⟨0, 1, 0, 3⟩),
          (some [], 6, ⟨0, 2, 0, 4⟩), (some [0, 1, 0, 0, 9], 6, ⟨1, 2, 5, 4⟩),
          (none, 6, ⟨1, 2, 5, 4⟩), (some [], 12, ⟨1, 2, 5, 4⟩),
          (some [9, 0, 0], 12, ⟨2, 2, 8, 4⟩)] ∧
      ∀ events pre s post, Op.history Event.perform events f = pre ++ s :: post →
        Obeys 8 pre s := by
  have hc : create (.file (.ofByteArray ⟨#[7, 7]⟩)) 8 true = .ok _ := rfl
  exact ⟨_, hc, by decide +kernel, (file_is_byte_sequence hc).2.1⟩

end Creation

end PageFile

end TieredMemory
