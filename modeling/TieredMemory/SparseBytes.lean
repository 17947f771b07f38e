import Std.Data.TreeMap
import TieredMemory.Bytes

/-!
Long byte sequences of which only what was written takes room. The bytes lie in numbered chunks of
one size, and a byte that no chunk holds is zero. `byteAt` is the view here too: the lemmas say what
each operation does to the size and to the view.
-/

namespace TieredMemory

abbrev Chunks := Std.TreeMap Nat ByteArray

namespace Chunks

def span : Nat := 4096

def chunk (m : Chunks) (k : Nat) : ByteArray := m.getD k ByteArray.empty

def byteAt (m : Chunks) (i : Nat) : UInt8 := Bytes.byteAt (m.chunk (i / span)) (i % span)

def count (start length : Nat) : Nat := (start + length + (span - 1)) / span - start / span

def overlay (start : Nat) (data : ByteArray) (k : Nat) (chunk : ByteArray) : ByteArray :=
  let first := max start (k * span)
  let stop := min (start + data.size) ((k + 1) * span)
  let offset := first - k * span
  Bytes.patch (Bytes.padTo chunk offset) offset (Bytes.slice data (first - start) (stop - first))

def write (start : Nat) (data : ByteArray) : (n k : Nat) → Chunks → Chunks
  | 0, _, m => m
  | n + 1, k, m =>
    write start data n (k + 1)
      (m.alter k fun chunk => some (overlay start data k (chunk.getD ByteArray.empty)))

def part (m : Chunks) (start stop k : Nat) : ByteArray :=
  let first := max start (k * span)
  let length := min stop ((k + 1) * span) - first
  Bytes.padTo (Bytes.slice (m.chunk k) (first - k * span) length) length

def collect (m : Chunks) (start stop : Nat) : (n k : Nat) → ByteArray → ByteArray
  | 0, _, bytes => bytes
  | n + 1, k, bytes => collect m start stop n (k + 1) (bytes ++ m.part start stop k)

def cut (size k : Nat) (chunk : ByteArray) : Option ByteArray :=
  if size ≤ k * span then none
  else if k * span + chunk.size ≤ size then some chunk
  else some (Bytes.slice chunk 0 (size - k * span))

theorem byteAt_empty (i : Nat) : byteAt ∅ i = 0 := by
  simp [byteAt, chunk, Bytes.byteAt]

theorem byteAt_overlay {start k i : Nat} {data chunk : ByteArray} (hi : i < span) :
    Bytes.byteAt (overlay start data k chunk) i =
      if start ≤ k * span + i ∧ k * span + i < start + data.size then
        Bytes.byteAt data (k * span + i - start)
      else Bytes.byteAt chunk i := by
  have hs : ∀ a n, (Bytes.slice data a n).size = min (a + n) data.size - a := by
    simp [Bytes.slice, ByteArray.size_extract]
  simp only [overlay]
  rw [Bytes.byteAt_patch (by rw [Bytes.size_padTo]; omega), Bytes.byteAt_padTo, hs]
  by_cases h : start ≤ k * span + i ∧ k * span + i < start + data.size
  · rw [if_pos h, if_pos (by simp only [span] at *; omega),
      Bytes.byteAt_slice (by simp only [span] at *; omega)]
    congr 1
    omega
  · rw [if_neg h, if_neg (by simp only [span] at *; omega)]

theorem chunk_write (start : Nat) (data : ByteArray) (n k : Nat) (m : Chunks) (j : Nat) :
    (write start data n k m).chunk j =
      if k ≤ j ∧ j < k + n then overlay start data j (m.chunk j) else m.chunk j := by
  induction n generalizing k m with
  | zero => rw [write, if_neg (by omega)]
  | succ n ih =>
    rw [write, ih]
    have ha : ∀ f : Option ByteArray → Option ByteArray,
        chunk (m.alter k f) j = if k = j then (f m[k]?).getD ByteArray.empty else m.chunk j := by
      intro f
      simp [chunk, Std.TreeMap.getD_alter]
    rw [ha]
    by_cases hj : k = j
    · subst hj
      rw [if_neg (by omega), if_pos rfl, if_pos (by omega), chunk,
        Std.TreeMap.getD_eq_getD_getElem?, Option.getD_some]
    · rw [if_neg hj]
      by_cases h : k + 1 ≤ j ∧ j < k + 1 + n
      · rw [if_pos h, if_pos (by omega)]
      · rw [if_neg h, if_neg (by omega)]

theorem byteAt_write (m : Chunks) (start : Nat) (data : ByteArray) (i : Nat) :
    (write start data (count start data.size) (start / span) m).byteAt i =
      if start ≤ i ∧ i < start + data.size then Bytes.byteAt data (i - start) else m.byteAt i := by
  have hi : i / span * span + i % span = i := by
    simp only [span]
    omega
  rw [byteAt, chunk_write]
  by_cases h : start / span ≤ i / span ∧ i / span < start / span + count start data.size
  · rw [if_pos h, byteAt_overlay (Nat.mod_lt i (by decide)), hi]
    rfl
  · rw [if_neg h, if_neg]
    · rfl
    · simp only [count, span] at h
      omega

theorem size_part (m : Chunks) (start stop k : Nat) :
    (m.part start stop k).size = min stop ((k + 1) * span) - max start (k * span) := by
  rw [part, Bytes.size_padTo]
  simp only [Bytes.slice, ByteArray.size_extract]
  omega

theorem byteAt_part {m : Chunks} {start stop k i : Nat}
    (hi : i < min stop ((k + 1) * span) - max start (k * span)) :
    Bytes.byteAt (m.part start stop k) i = m.byteAt (max start (k * span) + i) := by
  have hk : (max start (k * span) + i) / span = k := by
    simp only [span] at *
    omega
  rw [part, Bytes.byteAt_padTo, Bytes.byteAt_slice hi, byteAt, hk]
  congr 1
  simp only [span] at *
  omega

theorem size_collect {m : Chunks} {start stop : Nat} (hs : start ≤ stop) (n k : Nat)
    {bytes : ByteArray} (hb : bytes.size = min stop (max start (k * span)) - start) :
    (m.collect start stop n k bytes).size = min stop (max start ((k + n) * span)) - start := by
  induction n generalizing k bytes with
  | zero => exact hb
  | succ n ih =>
    have hn : k + 1 + n = k + (n + 1) := by omega
    rw [collect, ih (k + 1), hn]
    rw [Bytes.size_append, size_part, hb]
    simp only [span]
    omega

theorem byteAt_collect {m : Chunks} {start stop : Nat} (hs : start ≤ stop) (n k : Nat)
    {bytes : ByteArray} (hb : bytes.size = min stop (max start (k * span)) - start) {i : Nat}
    (hi : i < min stop (max start ((k + n) * span)) - start) :
    Bytes.byteAt (m.collect start stop n k bytes) i =
      if i < bytes.size then Bytes.byteAt bytes i else m.byteAt (start + i) := by
  induction n generalizing k bytes with
  | zero =>
    rw [if_pos (by rw [hb]; exact hi)]
    rfl
  | succ n ih =>
    have hn : k + 1 + n = k + (n + 1) := by omega
    rw [collect, ih (k + 1) (by
      rw [Bytes.size_append, size_part, hb]
      simp only [span]
      omega) (by rw [hn]; exact hi), Bytes.size_append, size_part, Bytes.byteAt_append]
    by_cases h₁ : i < bytes.size
    · rw [if_pos (by omega), if_pos h₁, if_pos h₁]
    · rw [if_neg h₁, if_neg h₁]
      split
      · rw [byteAt_part (by omega)]
        congr 1
        simp only [span] at *
        omega
      · rfl

theorem byteAt_filterMap_cut (m : Chunks) (size i : Nat) :
    byteAt (m.filterMap (cut size)) i = if i < size then m.byteAt i else 0 := by
  have he : ∀ j, Bytes.byteAt ByteArray.empty j = 0 := fun j => by simp [Bytes.byteAt]
  simp only [byteAt, chunk, Std.TreeMap.getD_eq_getD_getElem?, Std.TreeMap.getElem?_filterMap']
  cases m[i / span]? with
  | none => simp [he]
  | some c =>
    simp only [Option.bind_some, Option.getD_some, cut]
    by_cases h₁ : size ≤ i / span * span
    · rw [if_pos h₁, if_neg (by simp only [span] at *; omega)]
      exact he _
    · rw [if_neg h₁]
      split
      · by_cases hi : i < size
        · rw [if_pos hi, Option.getD_some]
        · rw [if_neg hi, Option.getD_some,
            Bytes.byteAt_of_size_le (by simp only [span] at *; omega)]
      · by_cases hi : i < size
        · rw [if_pos hi, Option.getD_some,
            Bytes.byteAt_slice (by simp only [span] at *; omega), Nat.zero_add]
        · rw [if_neg hi, Option.getD_some, Bytes.byteAt_of_size_le]
          simp only [Bytes.slice, ByteArray.size_extract, span] at *
          omega

end Chunks

structure SparseBytes where
  size : Nat
  chunks : Chunks := ∅
  byteAt_eq_zero : ∀ i, size ≤ i → chunks.byteAt i = 0

namespace SparseBytes

def byteAt (b : SparseBytes) (i : Nat) : UInt8 := b.chunks.byteAt i

def zeros (size : Nat) : SparseBytes where
  size := size
  byteAt_eq_zero i _ := Chunks.byteAt_empty i

def slice (b : SparseBytes) (start length : Nat) : ByteArray :=
  b.chunks.collect start (start + length) (Chunks.count start length) (start / Chunks.span)
    ByteArray.empty

def patch (b : SparseBytes) (start : Nat) (data : ByteArray) : SparseBytes where
  size := max b.size (start + data.size)
  chunks := b.chunks.write start data (Chunks.count start data.size) (start / Chunks.span)
  byteAt_eq_zero i hi := by
    rw [Chunks.byteAt_write, if_neg (by omega)]
    exact b.byteAt_eq_zero i (by omega)

def resize (b : SparseBytes) (size : Nat) : SparseBytes :=
  if h : b.size ≤ size then
    { b with size, byteAt_eq_zero := fun i hi => b.byteAt_eq_zero i (Nat.le_trans h hi) }
  else
    { size
      chunks := b.chunks.filterMap (Chunks.cut size)
      byteAt_eq_zero := fun i hi => by
        rw [Chunks.byteAt_filterMap_cut, if_neg (Nat.not_lt.mpr hi)] }

def toByteArray (b : SparseBytes) : ByteArray := b.slice 0 b.size

def ofByteArray (bytes : ByteArray) : SparseBytes := (zeros 0).patch 0 bytes

theorem byteAt_of_size_le {b : SparseBytes} {i : Nat} (h : b.size ≤ i) : b.byteAt i = 0 :=
  b.byteAt_eq_zero i h

theorem size_zeros (n : Nat) : (zeros n).size = n := rfl

theorem byteAt_zeros (n i : Nat) : (zeros n).byteAt i = 0 := Chunks.byteAt_empty i

theorem size_patch (b : SparseBytes) (start : Nat) (data : ByteArray) :
    (b.patch start data).size = max b.size (start + data.size) := rfl

theorem byteAt_patch (b : SparseBytes) (start : Nat) (data : ByteArray) (i : Nat) :
    (b.patch start data).byteAt i =
      if start ≤ i ∧ i < start + data.size then Bytes.byteAt data (i - start) else b.byteAt i :=
  Chunks.byteAt_write b.chunks start data i

theorem size_resize (b : SparseBytes) (n : Nat) : (b.resize n).size = n := by
  unfold resize
  split <;> rfl

theorem byteAt_resize (b : SparseBytes) (n i : Nat) :
    (b.resize n).byteAt i = if i < n then b.byteAt i else 0 := by
  unfold resize
  split
  · by_cases hi : i < n
    · rw [if_pos hi]
      rfl
    · rw [if_neg hi]
      exact b.byteAt_eq_zero i (by omega)
  · exact Chunks.byteAt_filterMap_cut b.chunks n i

theorem size_slice (b : SparseBytes) (start length : Nat) :
    (b.slice start length).size = length := by
  rw [slice, Chunks.size_collect (by omega) _ _
    (by simp only [Chunks.span, ByteArray.size_empty]; omega)]
  simp only [Chunks.count, Chunks.span]
  omega

theorem byteAt_slice {b : SparseBytes} {start length i : Nat} (hi : i < length) :
    Bytes.byteAt (b.slice start length) i = b.byteAt (start + i) := by
  rw [slice, Chunks.byteAt_collect (by omega) _ _
    (by simp only [Chunks.span, ByteArray.size_empty]; omega)
    (by simp only [Chunks.count, Chunks.span]; omega), if_neg (by simp)]
  rfl

theorem size_toByteArray (b : SparseBytes) : b.toByteArray.size = b.size := size_slice b 0 b.size

theorem byteAt_toByteArray (b : SparseBytes) (i : Nat) :
    Bytes.byteAt b.toByteArray i = b.byteAt i := by
  by_cases hi : i < b.size
  · rw [toByteArray, byteAt_slice hi, Nat.zero_add]
  · rw [Bytes.byteAt_of_size_le (by rw [size_toByteArray]; omega), byteAt_of_size_le (by omega)]

end SparseBytes

end TieredMemory
