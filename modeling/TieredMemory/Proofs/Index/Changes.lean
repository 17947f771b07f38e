import Mathlib.Data.List.Induction
import Mathlib.Data.Nat.ModEq
import TieredMemory.Proofs.Index.Direct

namespace TieredMemory.DirectTable

inductive Change (α : Type) where
  | insert (key : Nat) (value : α)
  | erase (key : Nat)
  | clear
  deriving DecidableEq, Repr

variable {α : Type}

namespace Change

def Concerns (n key : Nat) : Change α → Prop
  | insert k _ => k ≡ key [MOD n]
  | erase k => k = key
  | clear => True

instance decidableConcerns (n key : Nat) : (c : Change α) → Decidable (c.Concerns n key)
  | insert k _ => inferInstanceAs (Decidable (k ≡ key [MOD n]))
  | erase k => inferInstanceAs (Decidable (k = key))
  | clear => isTrue trivial

def leaves (key : Nat) : Change α → Option α
  | insert k value => if k = key then some value else none
  | erase _ => none
  | clear => none

theorem leaves_eq_some_iff {c : Change α} {key : Nat} {value : α} :
    c.leaves key = some value ↔ c = insert key value := by
  cases c with
  | insert k v => by_cases hk : k = key <;> simp [leaves, hk]
  | erase k => simp [leaves]
  | clear => simp [leaves]

theorem concerns_insert (n key : Nat) (value : α) : (insert key value).Concerns n key :=
  Nat.ModEq.refl key

end Change

def apply (t : DirectTable α) : Change α → DirectTable α
  | .insert key value => t.insert key value
  | .erase key => t.erase key
  | .clear => t.clear

def after (t : DirectTable α) (changes : List (Change α)) : DirectTable α := changes.foldl apply t

@[simp] theorem capacity_apply (t : DirectTable α) (c : Change α) :
    (t.apply c).capacity = t.capacity := by
  cases c with
  | insert key value => exact size_putLine t key _
  | erase key => exact size_erase t key
  | clear => exact size_empty t.lines.size t.capacity_pos

theorem after_concat (t : DirectTable α) (changes : List (Change α)) (c : Change α) :
    t.after (changes ++ [c]) = (t.after changes).apply c := by
  simp only [after, List.foldl_append, List.foldl_cons, List.foldl_nil]

@[simp] theorem capacity_after (t : DirectTable α) (changes : List (Change α)) :
    (t.after changes).capacity = t.capacity := by
  induction changes using List.reverseRecOn with
  | nil => rfl
  | append_singleton changes c ih => rw [after_concat, capacity_apply, ih]

theorem get?_apply (t : DirectTable α) (c : Change α) (key : Nat) :
    (t.apply c).get? key =
      if c.Concerns t.capacity key then c.leaves key else t.get? key := by
  cases c with
  | insert k value =>
    have hline : t.slot key = t.slot k ↔ (Change.insert k value).Concerns t.capacity key := eq_comm
    rw [apply, get?_insert, Change.leaves]
    by_cases hk : key = k
    · subst hk
      rw [if_pos rfl, if_pos (Change.concerns_insert t.capacity key value), if_pos rfl]
    · rw [if_neg hk, if_neg (Ne.symm hk)]
      exact if_congr hline rfl rfl
  | erase k =>
    rw [apply, get?_erase]
    exact if_congr eq_comm rfl rfl
  | clear => exact get?_clear t key

theorem get?_after (t : DirectTable α) (changes : List (Change α)) (key : Nat) :
    (t.after changes).get? key =
      (changes.filter (·.Concerns t.capacity key)).getLast?.elim (t.get? key)
        (·.leaves key) := by
  -- From the end: the newest change decides, or it leaves the answer to those before it.
  induction changes using List.reverseRecOn with
  | nil => rfl
  | append_singleton changes c ih =>
    rw [after_concat, get?_apply, capacity_after, List.filter_append]
    by_cases hc : c.Concerns t.capacity key
    · rw [if_pos hc, List.filter_cons_of_pos (by simpa using hc), List.filter_nil,
        List.getLast?_concat, Option.elim_some]
    · rw [if_neg hc, List.filter_cons_of_neg (by simpa using hc), List.filter_nil,
        List.append_nil, ih]

theorem get?_after_eq_some_iff {t : DirectTable α} {key : Nat} (h : t.get? key = none)
    (changes : List (Change α)) (value : α) :
    (t.after changes).get? key = some value ↔
      (changes.filter (·.Concerns t.capacity key)).getLast? = some (.insert key value) := by
  rw [get?_after, h]
  cases (changes.filter (·.Concerns t.capacity key)).getLast? with
  | none => exact iff_of_false nofun nofun
  | some c => rw [Option.elim_some, Change.leaves_eq_some_iff, Option.some_inj]

theorem getLast?_filter_eq_some_iff {n key : Nat} {changes : List (Change α)} {c : Change α}
    (hc : c.Concerns n key) :
    (changes.filter (·.Concerns n key)).getLast? = some c ↔
      ∃ earlier later, changes = earlier ++ c :: later ∧ ∀ d ∈ later, ¬ d.Concerns n key := by
  rw [List.getLast?_filter, List.find?_eq_some_iff_append]
  constructor
  · rintro ⟨-, later, earlier, hsplit, hnone⟩
    refine ⟨earlier.reverse, later.reverse, ?_, fun d hd => ?_⟩
    · rw [← List.reverse_inj, hsplit]
      simp
    · simpa using hnone d (List.mem_reverse.mp hd)
  · rintro ⟨earlier, later, rfl, hnone⟩
    refine ⟨decide_eq_true hc, later.reverse, earlier.reverse, by simp, fun d hd => ?_⟩
    simpa using hnone d (List.mem_reverse.mp hd)

/-- In a table of `n` lines a value is found under a key if and only if, of the changes that concern
the key, the last one inserted that value under it: no change after this insertion cleared the
table, erased the key or used its line. To erase a key that is not found changes nothing. -/
theorem get?_iff_last_insert {n : Nat} (hn : 0 < n) :
    ∃ fresh : DirectTable α, ofCapacity n = .ok fresh ∧ ∀ changes : List (Change α),
      (∀ key value, (fresh.after changes).get? key = some value ↔
        (changes.filter (·.Concerns n key)).getLast? = some (.insert key value)) ∧
      (∀ key value, (fresh.after changes).get? key = some value ↔
        ∃ earlier later, changes = earlier ++ .insert key value :: later ∧
          ∀ c ∈ later, ¬ c.Concerns n key) ∧
      ∀ key, (fresh.after changes).get? key = none →
        (fresh.after changes).erase key = fresh.after changes := by
  have hcapacity : (empty n hn : DirectTable α).capacity = n := size_empty n hn
  have hlast : ∀ changes key value,
      ((empty n hn : DirectTable α).after changes).get? key = some value ↔
        (changes.filter (·.Concerns n key)).getLast? = some (.insert key value) := by
    intro changes key value
    rw [get?_after_eq_some_iff (get?_empty n hn key), hcapacity]
  refine ⟨empty n hn, dif_pos hn, fun changes => ?_⟩
  refine ⟨hlast changes, fun key value => ?_, fun key hkey => ?_⟩
  · rw [hlast, getLast?_filter_eq_some_iff (Change.concerns_insert n key value)]
  · exact erase_of_get?_eq_none hkey

def collision : List (Change Nat) :=
  [.insert 0 10, .insert 1 11, .insert (2 ^ 64 - 1) 12, .erase 0]

theorem get?_iff_last_insert_collision :
    0 < 3 ∧ ∃ fresh : DirectTable Nat, ofCapacity 3 = .ok fresh ∧
      (fresh.after collision).get? (2 ^ 64 - 1) = some 12 ∧
      (fresh.after collision).get? 1 = some 11 ∧
      (fresh.after collision).get? 0 = none ∧
      (fresh.after collision).erase 0 = fresh.after collision := by
  refine ⟨by decide, ?_⟩
  obtain ⟨fresh, hfresh, h⟩ : ∃ fresh : DirectTable Nat, _ :=
    get?_iff_last_insert (by decide : 0 < 3)
  obtain ⟨hlast, hsplit, herase⟩ := h collision
  have hzero : (fresh.after collision).get? 0 = none := by
    apply Option.eq_none_iff_forall_ne_some.mpr
    intro value hvalue
    have herased : (collision.filter (·.Concerns 3 0)).getLast? = some (.erase 0) := by decide
    cases herased.symm.trans ((hlast 0 value).mp hvalue)
  refine ⟨fresh, hfresh, (hlast _ _).mpr (by decide), ?_, hzero, herase 0 hzero⟩
  exact (hsplit 1 11).mpr ⟨[.insert 0 10], _, rfl, by decide⟩

end TieredMemory.DirectTable
