import TieredMemory.Text.Blank
import TieredMemory.Text.Word

namespace TieredMemory.Text

section Blanks

def Around (body : List Char) (s : String) : Prop :=
  ∃ before after, (∀ c ∈ before, isBlank c = true) ∧ (∀ c ∈ after, isBlank c = true) ∧
    s.toList = before ++ (body ++ after)

def Bare (body : List Char) : Prop :=
  (∃ c, body.head? = some c ∧ isBlank c = false) ∧ ∃ c, body.getLast? = some c ∧ isBlank c = false

variable {s : String} {body cs : List Char}

theorem dropBlank_append {before : List Char} (h : ∀ c ∈ before, isBlank c = true)
    (cs : List Char) : dropBlank (before ++ cs) = dropBlank cs :=
  List.dropWhile_append_of_pos h

theorem dropBlank_of_head {c : Char} (h : cs.head? = some c) (hc : isBlank c = false) :
    dropBlank cs = cs := by
  obtain ⟨rest, rfl⟩ := List.head?_eq_some_iff.mp h
  rw [dropBlank, List.dropWhile_cons_of_neg (by rw [hc]; exact Bool.false_ne_true)]

theorem exists_dropBlank (cs : List Char) :
    ∃ before, (∀ c ∈ before, isBlank c = true) ∧ cs = before ++ dropBlank cs :=
  ⟨cs.takeWhile isBlank, fun _ hc => List.all_eq_true.mp List.all_takeWhile _ hc,
    (List.takeWhile_append_dropWhile).symm⟩

theorem toList_trim_of_around (hb : Bare body) (h : Around body s) : (trim s).toList = body := by
  obtain ⟨⟨first, hfirst, hf⟩, last, hlast, hl⟩ := hb
  obtain ⟨before, after, hbefore, hafter, hs⟩ := h
  have hhead : (body ++ after).head? = some first := by
    rw [List.head?_append, hfirst]
    rfl
  have htail : body.reverse.head? = some last := by
    rw [List.head?_reverse, hlast]
  rw [trim, String.toList_ofList, hs, dropBlank_append hbefore, dropBlank_of_head hhead hf,
    List.reverse_append, dropBlank_append fun c hc => hafter c (List.mem_reverse.mp hc),
    dropBlank_of_head htail hl, List.reverse_reverse]

theorem around_trim (s : String) : Around (trim s).toList s := by
  obtain ⟨before, hbefore, hs⟩ := exists_dropBlank s.toList
  obtain ⟨after, hafter, ht⟩ := exists_dropBlank (dropBlank s.toList).reverse
  refine ⟨before, after.reverse, hbefore, fun c hc => hafter c (List.mem_reverse.mp hc), ?_⟩
  have ht := congrArg List.reverse ht
  rw [List.reverse_reverse, List.reverse_append] at ht
  rw [trim, String.toList_ofList, ← ht]
  exact hs

theorem trim_iff_around {P : List Char → Prop} (hbare : ∀ body, P body → Bare body) :
    P (trim s).toList ↔ ∃ body, Around body s ∧ P body := by
  constructor
  · exact fun h => ⟨_, around_trim s, h⟩
  · rintro ⟨body, ha, hp⟩
    rwa [toList_trim_of_around (hbare body hp) ha]

end Blanks

section Words

def decimal (n : Nat) (digits : List Char) : Nat :=
  digits.foldl (fun n c => n * 10 + (c.toNat - '0'.toNat)) n

def Numeral (body : List Char) (n : Nat) : Prop :=
  ∃ digits, digits ≠ [] ∧ (∀ c ∈ digits, c.isDigit = true) ∧
    (body = digits ∨ body = '+' :: digits) ∧ decimal 0 digits = n ∧ n < wordLimit

variable {cs body : List Char} {n m : Nat}

theorem le_decimal (n : Nat) (digits : List Char) : n ≤ decimal n digits := by
  induction digits generalizing n with
  | nil => exact Nat.le_refl n
  | cons c digits ih => exact Nat.le_trans (by omega) (ih (n * 10 + (c.toNat - '0'.toNat)))

theorem readDigits_eq_ok_iff (hn : n < wordLimit) :
    readDigits cs n = .ok m ↔ (∀ c ∈ cs, c.isDigit = true) ∧ decimal n cs = m ∧ m < wordLimit := by
  induction cs generalizing n with
  | nil =>
    simp only [readDigits, decimal, List.foldl_nil, Except.ok.injEq, List.not_mem_nil,
      false_implies, implies_true, true_and]
    exact ⟨fun h => ⟨h, h ▸ hn⟩, fun h => h.1⟩
  | cons c cs ih =>
    rw [List.forall_mem_cons]
    simp only [readDigits]
    by_cases hd : c.isDigit = true
    · by_cases hlt : n * 10 + (c.toNat - '0'.toNat) < wordLimit
      · rw [if_pos hd, if_pos hlt, ih hlt, and_iff_right hd]
        rfl
      · rw [if_pos hd, if_neg hlt]
        refine ⟨nofun, ?_⟩
        rintro ⟨-, rfl, hm⟩
        exact absurd (Nat.lt_of_le_of_lt (le_decimal _ cs) hm) hlt
    · rw [if_neg hd]
      exact ⟨nofun, fun h => absurd h.1.1 hd⟩

theorem not_isDigit_plus : ¬ ('+'.isDigit = true) := by decide

theorem numeral_plus_iff :
    Numeral ('+' :: cs) n ↔
      cs ≠ [] ∧ (∀ c ∈ cs, c.isDigit = true) ∧ decimal 0 cs = n ∧ n < wordLimit := by
  constructor
  · rintro ⟨digits, hne, hd, rfl | hb, hn⟩
    · exact absurd (hd '+' List.mem_cons_self) not_isDigit_plus
    · obtain rfl := (List.cons.inj hb).2
      exact ⟨hne, hd, hn⟩
  · rintro ⟨hne, hd, hn⟩
    exact ⟨cs, hne, hd, .inr rfl, hn⟩

theorem numeral_iff (h : ∀ rest, body ≠ '+' :: rest) :
    Numeral body n ↔
      body ≠ [] ∧ (∀ c ∈ body, c.isDigit = true) ∧ decimal 0 body = n ∧ n < wordLimit := by
  constructor
  · rintro ⟨digits, hne, hd, rfl | hb, hn⟩
    · exact ⟨hne, hd, hn⟩
    · exact absurd hb (h digits)
  · rintro ⟨hne, hd, hn⟩
    exact ⟨body, hne, hd, .inl rfl, hn⟩

theorem readWord_eq_ok_iff {s : String} : readWord s = .ok n ↔ Numeral s.toList n := by
  have hzero : 0 < wordLimit := by decide
  unfold readWord
  split
  · rename_i heq
    rw [heq, numeral_iff fun rest h => List.cons_ne_nil _ _ h.symm]
    exact ⟨nofun, fun h => absurd rfl h.1⟩
  · rename_i heq
    rw [heq, numeral_plus_iff]
    exact ⟨nofun, fun h => absurd rfl h.1⟩
  · rename_i cs hne heq
    rw [heq, numeral_plus_iff, readDigits_eq_ok_iff hzero]
    exact (and_iff_right hne).symm
  · rename_i hnil _ hplus
    rw [numeral_iff fun rest => hplus rest, readDigits_eq_ok_iff hzero]
    exact (and_iff_right hnil).symm

theorem not_blank_of_digit {c : Char} (h : c.isDigit = true) : isBlank c = false := by
  have hd : 48 ≤ c.toNat ∧ c.toNat ≤ 57 := by
    simp only [Char.isDigit, Bool.and_eq_true, decide_eq_true_eq, ge_iff_le,
      UInt32.le_iff_toNat_le] at h
    exact h
  simp only [isBlank, blankRanges, List.any_cons, List.any_nil, Bool.or_false, Bool.or_eq_false_iff,
    decide_eq_false_iff_not]
  omega

theorem Numeral.bare (h : Numeral body n) : Bare body := by
  obtain ⟨digits, hne, hd, hb, -⟩ := h
  have hfirst : ∃ c, body.head? = some c ∧ isBlank c = false := by
    rcases hb with rfl | rfl
    · exact ⟨_, List.head?_eq_some_head hne, not_blank_of_digit (hd _ (List.head_mem hne))⟩
    · exact ⟨'+', rfl, by decide⟩
  have hlast : body.getLast? = digits.getLast? := by
    rcases hb with rfl | rfl
    · rfl
    · rw [List.getLast?_cons, List.getLast?_eq_some_getLast hne]
      rfl
  refine ⟨hfirst, _, hlast.trans (List.getLast?_eq_some_getLast hne), ?_⟩
  exact not_blank_of_digit (hd _ (List.getLast_mem hne))

end Words

end TieredMemory.Text
