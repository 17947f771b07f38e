import Mathlib.Order.Monotone.Basic

/-!
Copies of a changing memory. A copy is behind the memory it is made from, and it is in good order
if it never goes back: each of its bytes takes values that the memory had, in the order in which
the memory had them.
-/

namespace TieredMemory

variable {α : Type}

/-- The first list is read off the second from left to right: a step may stay or skip, and none
goes back. -/
inductive Follows : List α → List α → Prop
  | nil (ys : List α) : Follows [] ys
  | stay {xs ys : List α} {y : α} (h : Follows xs (y :: ys)) : Follows (y :: xs) (y :: ys)
  | skip {xs ys : List α} {y : α} (h : Follows xs ys) : Follows xs (y :: ys)

namespace Follows

variable {xs xs' ys ys' zs : List α} {v : α}

theorem refl (xs : List α) : Follows xs xs := by
  induction xs with
  | nil => exact .nil []
  | cons x xs ih => exact ih.skip.stay

theorem append_right (h : Follows xs ys) (zs : List α) : Follows xs (ys ++ zs) := by
  induction h with
  | nil ys => exact .nil _
  | stay _ ih => exact ih.stay
  | skip _ ih => exact ih.skip

theorem append_left (h : Follows xs ys) (zs : List α) : Follows xs (zs ++ ys) := by
  induction zs with
  | nil => exact h
  | cons z zs ih => exact ih.skip

theorem append (h : Follows xs ys) (h' : Follows xs' ys') : Follows (xs ++ xs') (ys ++ ys') := by
  induction h with
  | nil ys => exact h'.append_left ys
  | stay _ ih => exact ih.stay
  | skip _ ih => exact ih.skip

theorem trans (h : Follows xs ys) (h' : Follows ys zs) : Follows xs zs := by
  induction h' generalizing xs with
  | nil zs =>
    cases h
    exact .nil zs
  | @stay ys zs z h' ih =>
    generalize hc : z :: ys = cs at h
    induction h with
    | nil => exact .nil _
    | stay _ ihh =>
      cases hc
      exact (ihh rfl).stay
    | skip h _ =>
      cases hc
      exact ih h
  | skip _ ih => exact (ih h).skip

theorem concat (h : Follows xs (ys ++ [v])) : Follows (xs ++ [v]) (ys ++ [v]) := by
  have htwice : Follows [v, v] [v] := (refl [v]).stay
  have := h.append (refl [v])
  rw [List.append_assoc] at this
  exact this.trans ((refl ys).append htwice)

theorem of_concat_twice (h : Follows xs (ys ++ [v] ++ [v])) : Follows xs (ys ++ [v]) := by
  have htwice : Follows [v, v] [v] := (refl [v]).stay
  rw [List.append_assoc] at h
  exact h.trans ((refl ys).append htwice)

theorem of_forall_eq (h : ∀ x ∈ xs, x = v) : Follows xs [v] := by
  induction xs with
  | nil => exact .nil [v]
  | cons x xs ih =>
    obtain ⟨rfl, hxs⟩ := List.forall_mem_cons.mp h
    exact (ih hxs).stay

theorem exists_head (h : Follows (v :: xs) ys) :
    ∃ k, ys[k]? = some v ∧ Follows (v :: xs) (ys.drop k) := by
  generalize hc : v :: xs = cs at h
  induction h with
  | nil => cases hc
  | stay h _ =>
    cases hc
    exact ⟨0, rfl, h.stay⟩
  | skip _ ih =>
    obtain ⟨k, hk, hf⟩ := ih hc
    exact ⟨k + 1, hk, hf⟩

end Follows

structure Moment where
  memory : Nat → UInt8
  copy : Nat → UInt8
  synced : Bool

/-- At moment `t`, byte `i` of the copy is the one that the memory had at moment `u`, which is not
later, nor earlier than a moment at which the copy had been brought up to date. -/
structure Reads (i : Nat) (moments : List Moment) (t : Nat) (m : Moment) (u : Nat) : Prop where
  le : u ≤ t
  value : ∃ source, moments[u]? = some source ∧ m.copy i = source.memory i
  fresh : ∀ s source, s ≤ t → moments[s]? = some source → source.synced = true → s ≤ u

/-- Every byte of the copy, at every moment, is a byte that the memory had, and it never goes back
from a version to an older one. -/
def Faithful (moments : List Moment) : Prop :=
  ∀ i, ∃ version : Nat → Nat, Monotone version ∧
    ∀ t m, moments[t]? = some m → Reads i moments t m (version t)

inductive Dated (i : Nat) : List Moment → (v : Nat) → Prop
  | start : Dated i [] 0
  | next {moments : List Moment} {v w : Nat} {m : Moment} (h : Dated i moments v) (hv : v ≤ w)
    (hw : w ≤ moments.length)
    (hm : ((moments ++ [m]).map (·.memory i))[w]? = some (m.copy i))
    (hs : m.synced = true → w = moments.length) : Dated i (moments ++ [m]) w

namespace Dated

variable {i v : Nat} {moments : List Moment}

theorem le_length (h : Dated i moments v) : v ≤ moments.length := by
  cases h with
  | start => exact Nat.le_refl 0
  | next _ _ hw _ _ =>
    rw [List.length_append]
    exact Nat.le_succ_of_le hw

theorem reads_append {t u : Nat} {m last : Moment} (h : Reads i moments t m u)
    (ht : t < moments.length) : Reads i (moments ++ [last]) t m u := by
  have hget : ∀ k ≤ t, (moments ++ [last])[k]? = moments[k]? :=
    fun k hk => List.getElem?_append_left (Nat.lt_of_le_of_lt hk ht)
  refine ⟨h.le, ?_, ?_⟩
  · rw [hget u h.le]
    exact h.value
  · intro s source hs
    rw [hget s hs]
    exact h.fresh s source hs

theorem reads_concat {w : Nat} {m : Moment} (hw : w ≤ moments.length)
    (hm : ((moments ++ [m]).map (·.memory i))[w]? = some (m.copy i))
    (hs : m.synced = true → w = moments.length)
    (hold : ∀ s source, moments[s]? = some source → source.synced = true → s ≤ w) :
    Reads i (moments ++ [m]) moments.length m w := by
  refine ⟨hw, ?_, ?_⟩
  · rw [List.getElem?_map] at hm
    obtain ⟨source, hsource, hv⟩ := Option.map_eq_some_iff.mp hm
    exact ⟨source, hsource, hv.symm⟩
  · intro s source hle hsource hsync
    by_cases hlt : s < moments.length
    · rw [List.getElem?_append_left hlt] at hsource
      exact hold s source hsource hsync
    · obtain rfl : s = moments.length := by omega
      rw [List.getElem?_concat_length] at hsource
      cases hsource
      exact Nat.le_of_eq (hs hsync).symm

theorem exists_version (h : Dated i moments v) :
    ∃ version : Nat → Nat, Monotone version ∧ (∀ t, version t ≤ v) ∧
      ∀ t m, moments[t]? = some m → Reads i moments t m (version t) := by
  induction h with
  | start => exact ⟨fun _ => 0, monotone_const, fun _ => Nat.le_refl 0, by simp⟩
  | @next moments v w m h hv hw hm hs ih =>
    obtain ⟨version, hmono, hle, hall⟩ := ih
    have hbound : ∀ t, version t ≤ w := fun t => Nat.le_trans (hle t) hv
    -- earlier moments keep their versions, and from the new one on it is `w`
    refine ⟨fun t => if t < moments.length then version t else w, ?_, ?_, ?_⟩
    · intro s t hst
      dsimp only
      split
      · split
        · exact hmono hst
        · exact hbound s
      · rw [if_neg (by omega)]
    · intro t
      dsimp only
      split
      · exact hbound t
      · exact Nat.le_refl w
    · intro t m' ht
      dsimp only
      by_cases hlt : t < moments.length
      · rw [if_pos hlt]
        rw [List.getElem?_append_left hlt] at ht
        exact reads_append (hall t m' ht) hlt
      · have hlen := (List.getElem?_eq_some_iff.mp ht).1
        rw [List.length_append, List.length_singleton] at hlen
        obtain rfl : t = moments.length := by omega
        rw [List.getElem?_concat_length] at ht
        cases ht
        rw [if_neg hlt]
        apply reads_concat hw hm hs
        intro s source hsource hsync
        exact Nat.le_trans ((hall s source hsource).fresh s source (Nat.le_refl s) hsource hsync)
          (hbound s)

theorem faithful (h : ∀ i, ∃ v, Dated i moments v) : Faithful moments := by
  intro i
  obtain ⟨v, hv⟩ := h i
  obtain ⟨version, hmono, -, hall⟩ := hv.exists_version
  exact ⟨version, hmono, hall⟩

end Dated

section Trail

variable {i : Nat} {moments : List Moment}

def Trails (i : Nat) (moments : List Moment) (values : List UInt8) : Prop :=
  ∃ v, Dated i moments v ∧ Follows values ((moments.map (·.memory i)).drop v)

theorem Trails.mono {xs ys : List UInt8} (h : Trails i moments ys) (hf : Follows xs ys) :
    Trails i moments xs := by
  obtain ⟨v, hv, hy⟩ := h
  exact ⟨v, hv, hf.trans hy⟩

theorem drop_map_concat {v : Nat} (m : Moment) (hv : v ≤ moments.length) :
    ((moments ++ [m]).map (·.memory i)).drop v =
      (moments.map (·.memory i)).drop v ++ [m.memory i] := by
  rw [List.map_append, List.drop_append_of_le_length]
  · rfl
  · rwa [List.length_map]

theorem Trails.next {values : List UInt8} {m : Moment}
    (h : Trails i moments (m.copy i :: values)) (hs : m.synced = false) :
    Trails i (moments ++ [m]) (m.copy i :: values ++ [m.memory i]) := by
  obtain ⟨v, hv, hf⟩ := h
  obtain ⟨k, hk, hread⟩ := hf.exists_head
  rw [List.getElem?_drop] at hk
  rw [List.drop_drop] at hread
  have hlt := (List.getElem?_eq_some_iff.mp hk).1
  have hle : v + k ≤ moments.length := by
    rw [List.length_map] at hlt
    exact Nat.le_of_lt hlt
  refine ⟨v + k, hv.next (Nat.le_add_right v k) hle ?_ ?_, ?_⟩
  · rw [List.map_append, List.getElem?_append_left hlt, hk]
  · intro hsync
    rw [hs] at hsync
    cases hsync
  · rw [drop_map_concat m hle]
    exact hread.append (.refl _)

theorem Trails.sync {values : List UInt8} {m : Moment} (h : Trails i moments values)
    (hm : m.copy i = m.memory i) : Trails i (moments ++ [m]) [m.memory i] := by
  obtain ⟨v, hv, -⟩ := h
  refine ⟨moments.length, hv.next hv.le_length (Nat.le_refl _) ?_ fun _ => rfl, ?_⟩
  · rw [hm, List.map_append, List.getElem?_append_right (by rw [List.length_map]), List.length_map,
      Nat.sub_self]
    rfl
  · rw [drop_map_concat m (Nat.le_refl _), List.drop_eq_nil_of_le (by rw [List.length_map])]
    exact .refl _

theorem Trails.copies {memory : Nat → UInt8} {values : List UInt8} {states : List (Nat → UInt8)}
    (h : Trails i moments (states.map (· i) ++ values)) :
    Trails i (moments ++ states.map fun copy => ⟨memory, copy, false⟩) values := by
  induction states generalizing moments with
  | nil =>
    rw [List.map_nil, List.append_nil]
    exact h
  | cons copy states ih =>
    rw [List.map_cons, List.append_cons]
    apply ih
    have hnext := Trails.next (m := ⟨memory, copy, false⟩) h rfl
    exact hnext.mono ((Follows.refl _).append_right _).skip

end Trail

end TieredMemory
