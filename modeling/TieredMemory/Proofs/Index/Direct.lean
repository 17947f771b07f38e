import TieredMemory.Index.Direct

namespace TieredMemory.DirectTable

variable {α : Type}

@[simp] theorem size_putLine (t : DirectTable α) (key : Nat) (l : Option (Line α)) :
    (t.putLine key l).lines.size = t.lines.size := by
  simp [putLine]

theorem slot_putLine (t : DirectTable α) (key : Nat) (l : Option (Line α)) (k : Nat) :
    (t.putLine key l).slot k = t.slot k := by
  simp [slot]

theorem line?_putLine (t : DirectTable α) (key : Nat) (l : Option (Line α)) (k : Nat) :
    (t.putLine key l).line? k = if t.slot k = t.slot key then l else t.line? k := by
  simp only [line?, slot_putLine]
  simp only [putLine, Array.getElem_set]
  split
  · rw [if_pos (Eq.symm ‹_›)]
  · rw [if_neg (Ne.symm ‹_›)]

theorem get?_eq_some_iff {t : DirectTable α} {key : Nat} {value : α} :
    t.get? key = some value ↔ t.line? key = some ⟨key, value⟩ := by
  rw [get?]
  split
  case h_1 l hl =>
    obtain ⟨k, v⟩ := l
    rw [hl]
    by_cases hk : k = key <;> simp [hk]
  case h_2 hl => simp [hl]

theorem get?_insert (t : DirectTable α) (key : Nat) (value : α) (k : Nat) :
    (t.insert key value).get? k =
      if k = key then some value else if t.slot k = t.slot key then none else t.get? k := by
  rw [get?, insert, line?_putLine]
  by_cases hk : k = key
  · subst hk
    simp
  · by_cases hs : t.slot k = t.slot key
    · simp [hk, hs, Ne.symm hk]
    · simp [hk, hs, get?]

theorem get?_erase (t : DirectTable α) (key k : Nat) :
    (t.erase key).get? k = if k = key then none else t.get? k := by
  rw [erase]
  split
  case h_1 value hv =>
    rw [get?, line?_putLine]
    by_cases hs : t.slot k = t.slot key
    · have hl : t.line? k = some ⟨key, value⟩ := by
        have := get?_eq_some_iff.mp hv
        simpa only [line?, hs] using this
      by_cases hk : k = key
      · simp [hk]
      · simp [hs, hk, get?, hl, Ne.symm hk]
    · have hk : k ≠ key := fun he => hs (he ▸ rfl)
      simp [hs, hk, get?]
  case h_2 hn =>
    split
    · rw [‹k = key›, hn]
    · rfl

theorem size_empty (capacity : Nat) (h : 0 < capacity) :
    (empty capacity h : DirectTable α).lines.size = capacity :=
  Array.size_replicate

theorem get?_empty (capacity : Nat) (h : 0 < capacity) (key : Nat) :
    (empty capacity h : DirectTable α).get? key = none := by
  simp [get?, line?, empty]

theorem get?_clear (t : DirectTable α) (key : Nat) : t.clear.get? key = none :=
  get?_empty t.lines.size t.capacity_pos key

theorem size_erase (t : DirectTable α) (key : Nat) : (t.erase key).lines.size = t.lines.size := by
  rw [erase]
  split
  · exact size_putLine t key none
  · rfl

theorem erase_of_get?_eq_none {t : DirectTable α} {key : Nat} (h : t.get? key = none) :
    t.erase key = t := by
  simp only [erase, h]

end TieredMemory.DirectTable
