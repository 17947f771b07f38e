import Mathlib.Data.Nat.Basic
import Mathlib.Tactic.IntervalCases
import TieredMemory.Proofs.Backend.Contents
import TieredMemory.Soak

namespace TieredMemory.Soak

section Texts

def text (address : Nat) : ByteArray := (hexadecimal address).toUTF8

variable {a k d : Nat}

theorem text_append (ha : 0 < a) (hd : d < 16) : text (16 * a + d) = text a ++ text d := by
  simp only [text, hexadecimal, String.toUTF8_eq_toByteArray, String.toByteArray_ofList,
    ← Nat.toDigits_append_toDigits (by decide : 1 < 16) ha hd, List.utf8Encode_append]

theorem text_of_le (ha : 16 ≤ a) : text a = text (a / 16) ++ text (a % 16) := by
  rw [← text_append (by omega) (Nat.mod_lt a (by decide)), Nat.div_add_mod]

theorem size_text_of_lt (hd : d < 16) : (text d).size = 1 := by
  interval_cases d <;> rfl

theorem size_text (a : Nat) : (text a).size = (Nat.toDigits 16 a).length := by
  induction a using Nat.strongRecOn with
  | ind a ih =>
    rw [Nat.toDigits_eq_if (by decide)]
    split
    · exact size_text_of_lt ‹_›
    · rw [text_of_le (by omega), ByteArray.size_append, ih (a / 16) (by omega),
        size_text_of_lt (Nat.mod_lt a (by decide)), List.length_append]
      rfl

theorem size_text_le_iff (hk : 0 < k) : (text a).size ≤ k ↔ a < 16 ^ k := by
  rw [size_text, Nat.length_toDigits_le_iff (by decide) hk]

theorem size_text_pos (a : Nat) : 0 < (text a).size := by
  rw [size_text]
  exact Nat.length_toDigits_pos

theorem size_text_eq (hle : 16 ^ k ≤ a) (hlt : a < 16 ^ (k + 1)) : (text a).size = k + 1 := by
  apply Nat.le_antisymm ((size_text_le_iff (Nat.succ_pos k)).mpr hlt)
  rcases Nat.eq_zero_or_pos k with rfl | hk
  · exact size_text_pos a
  · exact Nat.not_le.mp fun hle' => Nat.not_lt.mpr hle ((size_text_le_iff hk).mp hle')

def one : UInt8 := 0x31

theorem byteAt_text_eq_one_iff (hd : d < 16) : Bytes.byteAt (text d) 0 = one ↔ d = 1 := by
  interval_cases d <;> decide

theorem first_text (hle : 16 ^ k ≤ a) (hlt : a < 2 * 16 ^ k) : Bytes.byteAt (text a) 0 = one := by
  induction k generalizing a with
  | zero =>
    obtain rfl : a = 1 := by omega
    exact (byteAt_text_eq_one_iff (by decide)).mpr rfl
  | succ k ih =>
    rw [Nat.pow_succ] at hle hlt
    have hpow : 0 < 16 ^ k := Nat.pow_pos (by decide)
    rw [text_of_le (by omega), Bytes.byteAt_append, if_pos (size_text_pos _)]
    exact ih (by omega) (by omega)

end Texts

section Sheets

variable {limit step shift n address a i : Nat} {f : Nat → UInt8}

def Fits (limit shift address : Nat) : Prop := address + shift + (text address).size ≤ limit

instance : Decidable (Fits limit shift address) :=
  inferInstanceAs (Decidable (address + shift + (text address).size ≤ limit))

def Covers (shift address i : Nat) : Prop :=
  address + shift ≤ i ∧ i < address + shift + (text address).size

def inked (limit step shift : Nat) : (n address : Nat) → (Nat → UInt8) → Nat → UInt8
  | 0, _, f => f
  | n + 1, address, f =>
    inked limit step shift n (address + step)
      (if Fits limit shift address then Bytes.overlay (address + shift) (text address) f else f)

theorem next_mark (address step k : Nat) :
    address + step + k * step = address + (k + 1) * step := by
  rw [Nat.succ_mul]
  omega

theorem forall_mark_lt_succ {P : Nat → Prop} :
    (∀ k < n + 1, P (address + k * step)) ↔
      P address ∧ ∀ k < n, P (address + step + k * step) := by
  simp only [Nat.forall_lt_succ_left, Nat.zero_mul, Nat.add_zero, next_mark]

theorem inked_of_uncovered
    (h : ∀ k < n, Fits limit shift (address + k * step) → ¬ Covers shift (address + k * step) i) :
    inked limit step shift n address f i = f i := by
  induction n generalizing address f with
  | zero => rfl
  | succ n ih =>
    obtain ⟨hfirst, hrest⟩ :=
      (forall_mark_lt_succ (P := fun a => Fits limit shift a → ¬ Covers shift a i)).mp h
    rw [inked, ih hrest]
    split
    · exact if_neg (hfirst ‹_›)
    · rfl

theorem inked_of_last {k : Nat} (hk : k < n) (ha : a = address + k * step)
    (hfits : Fits limit shift a) (hcovers : Covers shift a i)
    (hlast : ∀ k' < n, k < k' → Fits limit shift (address + k' * step) →
      ¬ Covers shift (address + k' * step) i) :
    inked limit step shift n address f i = Bytes.byteAt (text a) (i - (a + shift)) := by
  induction n generalizing address k f with
  | zero => omega
  | succ n ih =>
    rw [inked]
    cases k with
    | zero =>
      obtain rfl : a = address := by omega
      rw [inked_of_uncovered, if_pos hfits]
      · exact if_pos hcovers
      · intro k' hk'
        rw [next_mark]
        exact hlast (k' + 1) (Nat.succ_lt_succ hk') (Nat.succ_pos k')
    | succ k =>
      refine ih (Nat.lt_of_succ_lt_succ hk) (ha.trans (next_mark _ _ k).symm) fun k' hk' hlt => ?_
      rw [next_mark]
      exact hlast (k' + 1) (Nat.succ_lt_succ hk') (Nat.succ_lt_succ hlt)

def sheet (limit step shift : Nat) (f : Nat → UInt8) : Nat → UInt8 :=
  inked limit step shift (markCount limit step) 0 f

theorem lt_markCount_iff {k : Nat} (hstep : 0 < step) :
    k < markCount limit step ↔ k * step < limit := by
  rw [markCount, Nat.lt_div_iff_mul_lt hstep]
  omega

theorem Fits.lt_limit (h : Fits limit shift a) : a < limit := by
  have := size_text_pos a
  rw [Fits] at h
  omega

theorem sheet_of_last (hstep : 0 < step) (hd : step ∣ a) (hfits : Fits limit shift a)
    (hcovers : Covers shift a i)
    (hlast : ∀ b, step ∣ b → a < b → Fits limit shift b → ¬ Covers shift b i) :
    sheet limit step shift f i = Bytes.byteAt (text a) (i - (a + shift)) := by
  obtain ⟨k, rfl⟩ := hd
  rw [Nat.mul_comm] at hfits hcovers hlast ⊢
  apply inked_of_last (k := k) _ (Nat.zero_add _).symm hfits hcovers
  · intro k' _ hlt
    rw [Nat.zero_add]
    exact hlast _ (Nat.dvd_mul_left step k') (Nat.mul_lt_mul_of_pos_right hlt hstep)
  · exact (lt_markCount_iff hstep).mpr hfits.lt_limit

theorem shows_text (hstep : 0 < step) (hd : step ∣ a) (hfits : Fits limit shift a)
    (hlast : ∀ b, step ∣ b → a < b → Fits limit shift b → a + (text a).size ≤ b) :
    Bytes.Shows (sheet limit step shift f) (a + shift) (text a).size (text a) := by
  refine ⟨rfl, fun i hi => ?_⟩
  rw [sheet_of_last hstep hd hfits ⟨Nat.le_add_right _ _, by omega⟩, Nat.add_sub_cancel_left]
  intro b hb hlt hfits' hcovers
  have := hlast b hb hlt hfits'
  have := hcovers.1
  omega

end Sheets

section Overlaps

variable {limit step shift a b : Nat} {f : Nat → UInt8}

def firstLong (step : Nat) : Nat := (16 ^ step + (step - 1)) / step * step

theorem dvd_firstLong (step : Nat) : step ∣ firstLong step := Nat.dvd_mul_left _ _

theorem firstLong_bounds (hstep : 0 < step) :
    16 ^ step ≤ firstLong step ∧ firstLong step < 16 ^ step + step := by
  have hdiv := Nat.div_add_mod (16 ^ step + (step - 1)) step
  have hmod := Nat.mod_lt (16 ^ step + (step - 1)) hstep
  rw [Nat.mul_comm] at hdiv
  rw [firstLong]
  omega

theorem add_le_of_dvd (ha : step ∣ a) (hb : step ∣ b) (hlt : a < b) : a + step ≤ b := by
  have hd := Nat.le_of_dvd (Nat.sub_pos_of_lt hlt) (Nat.dvd_sub hb ha)
  omega

theorem firstLong_le (hstep : 0 < step) (ha : step ∣ a) (hle : 16 ^ step ≤ a) :
    firstLong step ≤ a := by
  refine Nat.not_lt.mp fun hlt => ?_
  have := add_le_of_dvd ha (dvd_firstLong step) hlt
  have := firstLong_bounds hstep
  omega

theorem two_mul_le_pow (hstep : 0 < step) : 2 * step ≤ 16 ^ step := by
  induction step with
  | zero => omega
  | succ n ih =>
    have hpow : 0 < 16 ^ n := Nat.pow_pos (by decide)
    rcases Nat.eq_zero_or_pos n with rfl | hn
    · decide
    · have := ih hn
      rw [Nat.pow_succ]
      omega

theorem size_text_long (hle : 16 ^ step ≤ a) (hlt : a < 2 * 16 ^ step) :
    (text a).size = step + 1 := by
  apply size_text_eq hle
  rw [Nat.pow_succ]
  omega

theorem size_firstLong (hstep : 0 < step) : (text (firstLong step)).size = step + 1 := by
  have := firstLong_bounds hstep
  have := two_mul_le_pow hstep
  exact size_text_long (by omega) (by omega)

theorem shows_of_short (hstep : 0 < step) (ha : step ∣ a) (hlt : a < firstLong step)
    (hfits : Fits limit shift a) :
    Bytes.Shows (sheet limit step shift f) (a + shift) (text a).size (text a) := by
  have hshort : a < 16 ^ step :=
    Nat.not_le.mp fun hle => Nat.not_lt.mpr (firstLong_le hstep ha hle) hlt
  have hsize := (size_text_le_iff hstep).mpr hshort
  refine shows_text hstep ha hfits fun b hb hab _ => ?_
  have := add_le_of_dvd ha hb hab
  omega

theorem shows_of_lt (hstep : 0 < step) (hlt : limit < firstLong step + 2 * step + 1 + shift)
    (ha : step ∣ a) (hfits : Fits limit shift a) :
    Bytes.Shows (sheet limit step shift f) (a + shift) (text a).size (text a) := by
  rcases Nat.lt_or_ge a (firstLong step) with hshort | hlong
  · exact shows_of_short hstep ha hshort hfits
  · refine shows_text hstep ha hfits fun b hb hab hfits' => ?_
    -- then `b` is a second long one
    have hnext := add_le_of_dvd ha hb hab
    have hlow := (firstLong_bounds hstep).1
    have hsize : ¬ (text b).size ≤ step :=
      fun hle => absurd ((size_text_le_iff hstep).mp hle) (by omega)
    rw [Fits] at hfits'
    omega

theorem firstLong_eq (hstep : 0 < step) (hlt : step < 16) :
    ∃ d < 16, d ≠ 1 ∧ firstLong step = 16 ^ step + d := by
  obtain ⟨hlow, hhigh⟩ := firstLong_bounds hstep
  obtain ⟨d, hd⟩ := Nat.exists_eq_add_of_le hlow
  refine ⟨d, by omega, ?_, hd⟩
  rintro rfl
  have hne : firstLong step ≠ 16 ^ step + 1 := by interval_cases step <;> decide
  exact hne hd

theorem byteAt_text_pow_add {n d : Nat} (hd : d < 16) (i : Nat) :
    Bytes.byteAt (text (16 ^ (n + 1) + d)) i =
      if i < n + 1 then Bytes.byteAt (text (16 ^ n)) i
      else Bytes.byteAt (text d) (i - (n + 1)) := by
  have hsize : (text (16 ^ n)).size = n + 1 :=
    size_text_eq (Nat.le_refl _) (Nat.pow_lt_pow_succ (by decide))
  rw [Nat.pow_succ, Nat.mul_comm, text_append (Nat.pow_pos (by decide)) hd,
    Bytes.byteAt_append, hsize]

theorem sheet_firstLong (hstep : 0 < step) (hle : firstLong step + 2 * step + 1 + shift ≤ limit)
    {i : Nat} (hi : i ≤ step) :
    sheet limit step shift f (firstLong step + shift + i) =
      if i < step then Bytes.byteAt (text (firstLong step)) i else one := by
  obtain ⟨hlow, hhigh⟩ := firstLong_bounds hstep
  have hpow := two_mul_le_pow hstep
  have hsize := size_firstLong hstep
  have hsize' : (text (firstLong step + step)).size = step + 1 :=
    size_text_long (by omega) (by omega)
  have hnext : step ∣ firstLong step + step := Nat.dvd_add (dvd_firstLong step) (Nat.dvd_refl step)
  -- marks that come later start behind the byte
  have hlater {a : Nat} (ha : step ∣ a) (hbehind : firstLong step + i < a + step) :
      ∀ b, step ∣ b → a < b → Fits limit shift b →
        ¬ Covers shift b (firstLong step + shift + i) := by
    intro b hb hab _ hcovers
    have := add_le_of_dvd ha hb hab
    have := hcovers.1
    omega
  split
  · rw [sheet_of_last hstep (dvd_firstLong step) (by rw [Fits]; omega) ⟨by omega, by omega⟩
      (hlater (dvd_firstLong step) (by omega)), Nat.add_sub_cancel_left]
  · obtain rfl : i = step := by omega
    rw [sheet_of_last hstep hnext (by rw [Fits]; omega) ⟨by omega, by omega⟩
      (hlater hnext (by omega)),
      show firstLong i + shift + i - (firstLong i + i + shift) = 0 by omega]
    exact first_text (k := i) (by omega) (by omega)

theorem shows_of_le (hstep : 0 < step) (hlt : step < 16)
    (hle : firstLong step + 2 * step + 1 + shift ≤ limit) :
    Bytes.Shows (sheet limit step shift f) (firstLong step + shift) (text (firstLong step)).size
      (text (16 ^ step + 1)) ∧ text (16 ^ step + 1) ≠ text (firstLong step) := by
  obtain ⟨d, hd, hne, hlong⟩ := firstLong_eq hstep hlt
  have hpow := two_mul_le_pow hstep
  have hbound := (firstLong_bounds hstep).2
  have hsheet := fun i => sheet_firstLong (f := f) hstep hle (i := i)
  obtain ⟨n, rfl⟩ := Nat.exists_eq_add_one_of_ne_zero (Nat.ne_of_gt hstep)
  have hsize := size_firstLong hstep
  refine ⟨⟨?_, fun i hi => ?_⟩, fun heq => hne ?_⟩
  · rw [hsize]
    exact size_text_long (by omega) (by omega)
  · rw [hsize] at hi
    rw [hsheet i (by omega), byteAt_text_pow_add (by decide), hlong, byteAt_text_pow_add hd]
    split
    · rfl
    · obtain rfl : i = n + 1 := by omega
      rw [Nat.sub_self]
      exact (byteAt_text_eq_one_iff (by decide)).mpr rfl
  · have hlast := congrArg (Bytes.byteAt · (n + 1)) heq
    simp only [hlong, byteAt_text_pow_add hd, byteAt_text_pow_add (by decide : 1 < 16),
      Nat.lt_irrefl, if_false, Nat.sub_self] at hlast
    exact (byteAt_text_eq_one_iff hd).mp
      (hlast.symm.trans ((byteAt_text_eq_one_iff (by decide)).mpr rfl))

end Overlaps

end TieredMemory.Soak
