/-!
Byte sequences: reading a range, overwriting a range, and growing with zeros. `byteAt` is the view
that the lemmas speak of; `ext_byteAt` says that size and view determine a sequence.
-/

namespace TieredMemory.Bytes

def appendCopies (block : ByteArray) : (n : Nat) → ByteArray → ByteArray
  | 0, b => b
  | n + 1, b => appendCopies block n (b ++ block)

def filled (value : UInt8) (n : Nat) : ByteArray :=
  if n < 4096 then ⟨Array.replicate n value⟩
  else appendCopies ⟨Array.replicate 4096 value⟩ (n / 4096) ⟨Array.replicate (n % 4096) value⟩

def zeros (n : Nat) : ByteArray := filled 0 n

def slice (b : ByteArray) (start length : Nat) : ByteArray := b.extract start (start + length)

def patch (b : ByteArray) (start : Nat) (data : ByteArray) : ByteArray :=
  data.copySlice 0 b start data.size

def padTo (b : ByteArray) (size : Nat) : ByteArray :=
  if b.size < size then b ++ zeros (size - b.size) else b

def byteAt (b : ByteArray) (i : Nat) : UInt8 := b.data.getD i 0

theorem byteAt_of_size_le {b : ByteArray} {i : Nat} (h : b.size ≤ i) : byteAt b i = 0 := by
  have h : b.data.size ≤ i := h
  simp [byteAt, Array.getElem?_eq_none h]

theorem ext_byteAt {a b : ByteArray} (hs : a.size = b.size) (h : ∀ i, byteAt a i = byteAt b i) :
    a = b := by
  have hd : a.data.size = b.data.size := hs
  apply ByteArray.ext
  apply Array.ext hd
  intro i hi hj
  have := h i
  rw [byteAt, byteAt, Array.getD_eq_getD_getElem?, Array.getD_eq_getD_getElem?,
    Array.getElem?_eq_getElem hi, Array.getElem?_eq_getElem hj] at this
  exact this

theorem size_slice {b : ByteArray} {start length : Nat} (h : start + length ≤ b.size) :
    (slice b start length).size = length := by
  simp only [slice, ByteArray.size_extract]
  omega

theorem byteAt_slice {b : ByteArray} {start length i : Nat} (hi : i < length) :
    byteAt (slice b start length) i = byteAt b (start + i) := by
  simp only [byteAt, slice, ByteArray.data_extract, Array.getD_eq_getD_getElem?,
    Array.getElem?_extract]
  split
  · rfl
  · rw [Array.getElem?_eq_none (by omega)]

theorem size_append (a b : ByteArray) : (a ++ b).size = a.size + b.size := ByteArray.size_append

theorem byteAt_append (a b : ByteArray) (i : Nat) :
    byteAt (a ++ b) i = if i < a.size then byteAt a i else byteAt b (i - a.size) := by
  simp only [byteAt, ByteArray.data_append, Array.getD_eq_getD_getElem?, Array.getElem?_append]
  have ha : a.data.size = a.size := rfl
  rw [ha]
  split <;> rfl

theorem size_appendCopies (block : ByteArray) (n : Nat) (b : ByteArray) :
    (appendCopies block n b).size = b.size + n * block.size := by
  induction n generalizing b with
  | zero => simp [appendCopies]
  | succ n ih =>
    rw [appendCopies, ih, size_append, Nat.add_mul]
    omega

theorem byteAt_appendCopies {block : ByteArray} {value : UInt8}
    (hv : ∀ i, byteAt block i = if i < block.size then value else 0) (n : Nat) {b : ByteArray}
    (hb : ∀ i, byteAt b i = if i < b.size then value else 0) (i : Nat) :
    byteAt (appendCopies block n b) i =
      if i < (appendCopies block n b).size then value else 0 := by
  induction n generalizing b with
  | zero => exact hb i
  | succ n ih =>
    refine ih fun j => ?_
    rw [byteAt_append, hb, hv, size_append]
    by_cases h : j < b.size
    · rw [if_pos h, if_pos h, if_pos (by omega)]
    · rw [if_neg h]
      by_cases h' : j < b.size + block.size
      · rw [if_pos (by omega), if_pos h']
      · rw [if_neg (by omega), if_neg h']

theorem size_filled (value : UInt8) (n : Nat) : (filled value n).size = n := by
  have hr : ∀ k, (⟨Array.replicate k value⟩ : ByteArray).size = k := by simp [ByteArray.size]
  unfold filled
  split
  · exact hr n
  · rw [size_appendCopies, hr, hr]
    omega

theorem byteAt_filled (value : UInt8) (n i : Nat) :
    byteAt (filled value n) i = if i < n then value else 0 := by
  have hr : ∀ k j, byteAt (⟨Array.replicate k value⟩ : ByteArray) j =
      if j < (⟨Array.replicate k value⟩ : ByteArray).size then value else 0 := by
    intro k j
    by_cases h : j < k <;> simp [byteAt, ByteArray.size, h]
  have hs := size_filled value n
  unfold filled at hs ⊢
  split
  · rw [if_pos ‹_›] at hs
    rw [hr, hs]
  · rw [if_neg ‹_›] at hs
    rw [byteAt_appendCopies (hr 4096) (n / 4096) (hr (n % 4096)), hs]

theorem size_zeros (n : Nat) : (zeros n).size = n := size_filled 0 n

theorem byteAt_zeros (n i : Nat) : byteAt (zeros n) i = 0 := by
  simp [zeros, byteAt_filled]

theorem size_patch {b data : ByteArray} {start : Nat} (h : start ≤ b.size) :
    (patch b start data).size = max b.size (start + data.size) := by
  have hb : b.data.size = b.size := rfl
  have hd : data.data.size = data.size := rfl
  show (b.data.extract 0 start ++ data.data.extract 0 (0 + data.size) ++
    b.data.extract (start + min data.size (data.data.size - 0))).size = _
  simp only [Array.size_append, Array.size_extract]
  omega

theorem byteAt_patch {b data : ByteArray} {start : Nat} (h : start ≤ b.size) (i : Nat) :
    byteAt (patch b start data) i =
      if start ≤ i ∧ i < start + data.size then byteAt data (i - start) else byteAt b i := by
  have hb : b.data.size = b.size := rfl
  have hd : data.data.size = data.size := rfl
  show (b.data.extract 0 start ++ data.data.extract 0 (0 + data.size) ++
    b.data.extract (start + min data.size (data.data.size - 0))).getD i 0 = _
  simp only [byteAt, Array.getD_eq_getD_getElem?, Array.getElem?_append, Array.size_append,
    Array.size_extract, Array.getElem?_extract, Nat.zero_add]
  by_cases h₁ : i < start
  · have h₂ : ¬(start ≤ i ∧ i < start + data.size) := by omega
    simp only [h₂, if_false]
    rw [if_pos (by omega), if_pos (by omega), if_pos (by omega)]
  · by_cases h₂ : i < start + data.size
    · rw [if_pos (by omega), if_neg (by omega), if_pos (by omega), if_pos (by omega)]
      congr 2
      omega
    · have h₃ : ¬(start ≤ i ∧ i < start + data.size) := by omega
      simp only [h₃, if_false]
      rw [if_neg (by omega)]
      by_cases h₄ : i < b.size
      · rw [if_pos (by omega)]
        congr 2
        omega
      · rw [if_neg (by omega), Array.getElem?_eq_none (by omega)]

theorem size_padTo (b : ByteArray) (n : Nat) : (padTo b n).size = max b.size n := by
  unfold padTo
  split
  · rw [size_append, size_zeros]
    omega
  · omega

theorem byteAt_padTo (b : ByteArray) (n i : Nat) : byteAt (padTo b n) i = byteAt b i := by
  unfold padTo
  split
  · rw [byteAt_append, byteAt_zeros]
    split
    · rfl
    · rw [byteAt_of_size_le (by omega)]
  · rfl

end TieredMemory.Bytes
