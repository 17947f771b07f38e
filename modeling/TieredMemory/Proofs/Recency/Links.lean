import Mathlib.Data.List.Perm.Subperm
import Mathlib.Data.List.Nodup
import TieredMemory.Recency.Arena

namespace TieredMemory.Recency.Arena

variable {α : Type}

def item? (a : Arena α) (slot : Nat) : Option (Nat × α) :=
  (a.node? slot).map fun n => (n.key, n.value)

/-- The nodes in `slots` point to one another in this order; the first one points back to `before`
and the last one on to `after`. -/
def Chain (a : Arena α) : (before : Option Nat) → List Nat → (after : Option Nat) → Prop
  | _, [], _ => True
  | before, s :: rest, after =>
    (∃ n, a.node? s = some n ∧ n.newer = before ∧ n.older = rest.head?.or after) ∧
      a.Chain (some s) rest after

structure Linked (a : Arena α) (slots : List Nat) : Prop where
  chain : a.Chain none slots none
  newest : a.newest = slots.head?
  oldest : a.oldest = slots.getLast?
  nodup : slots.Nodup

structure Holds (a : Arena α) (slots : List Nat) : Prop extends Linked a slots where
  mem_of_node : ∀ s n, a.node? s = some n → s ∈ slots
  mem_vacant : ∀ s, s ∈ a.vacant ↔ s < a.nodes.size ∧ s ∉ slots
  vacant_nodup : a.vacant.Nodup

section Update

theorem node?_update (a : Arena α) (s : Nat) (f : Node α → Node α) (t : Nat) :
    (a.update s f).node? t = if s = t then (a.node? t).map f else a.node? t := by
  simp only [node?, update, Array.getElem?_modify]
  by_cases h : s = t
  · rw [if_pos h, if_pos h]
    cases a.nodes[t]? <;> simp
  · rw [if_neg h, if_neg h]

theorem node?_update_ne (a : Arena α) {s t : Nat} (h : s ≠ t) (f : Node α → Node α) :
    (a.update s f).node? t = a.node? t := by
  rw [node?_update, if_neg h]

@[simp] theorem size_update (a : Arena α) (s : Nat) (f : Node α → Node α) :
    (a.update s f).nodes.size = a.nodes.size := by
  simp [update]

theorem item?_of_node? {a : Arena α} {s : Nat} {n : Node α} (h : a.node? s = some n) :
    a.item? s = some (n.key, n.value) := by
  rw [item?, h]
  rfl

theorem item?_update (a : Arena α) (s : Nat) (f : Node α → Node α)
    (hf : ∀ n, (f n).key = n.key ∧ (f n).value = n.value) (t : Nat) :
    (a.update s f).item? t = a.item? t := by
  rw [item?, node?_update, item?]
  split
  · cases a.node? t <;> simp [hf]
  · rfl

theorem lt_size_of_node? {a : Arena α} {s : Nat} {n : Node α} (h : a.node? s = some n) :
    s < a.nodes.size := by
  by_contra hs
  rw [node?, Array.getElem?_eq_none (by omega)] at h
  cases h

theorem isSome_node?_iff {a b : Arena α} {s : Nat} (h : a.item? s = b.item? s) :
    (a.node? s).isSome ↔ (b.node? s).isSome := by
  have := congrArg Option.isSome h
  simpa [item?] using this

end Update

section Chain

theorem chain_congr {a b : Arena α} {slots : List Nat} (h : ∀ s ∈ slots, a.node? s = b.node? s)
    (before after : Option Nat) : a.Chain before slots after ↔ b.Chain before slots after := by
  induction slots generalizing before with
  | nil => exact Iff.rfl
  | cons s rest ih =>
    rw [Chain, Chain, h s List.mem_cons_self, ih fun t ht => h t (List.mem_cons_of_mem s ht)]

theorem chain_append (a : Arena α) (before after : Option Nat) (xs ys : List Nat) :
    a.Chain before (xs ++ ys) after ↔
      a.Chain before xs (ys.head?.or after) ∧ a.Chain (xs.getLast?.or before) ys after := by
  induction xs generalizing before with
  | nil => simp [Chain]
  | cons s rest ih =>
    have hl : (s :: rest).getLast?.or before = rest.getLast?.or (some s) := by
      cases h : rest.getLast? <;> simp [List.getLast?_cons, h]
    have hh : (rest ++ ys).head?.or after = rest.head?.or (ys.head?.or after) := by
      cases rest <;> simp
    rw [List.cons_append, Chain, Chain, ih, hl, hh, and_assoc]

theorem Chain.exists_node {a : Arena α} {slots : List Nat} {before after : Option Nat}
    (h : a.Chain before slots after) {s : Nat} (hs : s ∈ slots) : ∃ n, a.node? s = some n := by
  induction slots generalizing before with
  | nil => cases hs
  | cons t rest ih =>
    rcases List.mem_cons.mp hs with rfl | hs
    · obtain ⟨⟨n, hn, -⟩, -⟩ := h
      exact ⟨n, hn⟩
    · exact ih h.2 hs

def pointOlder (a : Arena α) (newer older : Option Nat) : Arena α :=
  match newer with
  | some s => a.update s fun n => { n with older }
  | none => { a with newest := older }

def pointNewer (a : Arena α) (older newer : Option Nat) : Arena α :=
  match older with
  | some s => a.update s fun n => { n with newer }
  | none => { a with oldest := newer }

theorem unlink_eq {a : Arena α} {slot : Nat} {n : Node α} (h : a.node? slot = some n) :
    a.unlink slot = ((a.pointOlder n.newer n.older).pointNewer n.older n.newer).update slot
      fun n => { n with newer := none, older := none } := by
  rw [unlink, h]
  rfl

theorem node?_pointOlder (a : Arena α) (newer older : Option Nat) (t : Nat) :
    (a.pointOlder newer older).node? t =
      if newer = some t then (a.node? t).map fun n => { n with older } else a.node? t := by
  cases newer with
  | none => rfl
  | some s => simp [pointOlder, node?_update]

theorem node?_pointNewer (a : Arena α) (older newer : Option Nat) (t : Nat) :
    (a.pointNewer older newer).node? t =
      if older = some t then (a.node? t).map fun n => { n with newer } else a.node? t := by
  cases older with
  | none => rfl
  | some s => simp [pointNewer, node?_update]

theorem Chain.pointOlder {a : Arena α} {slots : List Nat} {before after : Option Nat}
    (h : a.Chain before slots after) (hn : slots.Nodup) (older : Option Nat) :
    (a.pointOlder slots.getLast? older).Chain before slots older := by
  induction slots generalizing before with
  | nil => trivial
  | cons s rest ih =>
    obtain ⟨⟨n, hs, hb, ho⟩, hr⟩ := h
    obtain ⟨hs', hrn⟩ := List.nodup_cons.mp hn
    cases rest with
    | nil =>
      refine ⟨⟨{ n with older }, ?_, hb, rfl⟩, trivial⟩
      simp [node?_pointOlder, hs]
    | cons t rest =>
      rw [List.getLast?_cons_cons]
      refine ⟨⟨n, ?_, hb, ho⟩, ih hr hrn⟩
      rw [node?_pointOlder, if_neg, hs]
      intro hl
      exact hs' (List.mem_of_getLast? hl)

theorem Chain.pointNewer {a : Arena α} {slots : List Nat} {before after : Option Nat}
    (h : a.Chain before slots after) (hn : slots.Nodup) (newer : Option Nat) :
    (a.pointNewer slots.head? newer).Chain newer slots after := by
  cases slots with
  | nil => trivial
  | cons s rest =>
    obtain ⟨⟨n, hs, -, ho⟩, hr⟩ := h
    obtain ⟨hs', -⟩ := List.nodup_cons.mp hn
    refine ⟨⟨{ n with newer }, ?_, rfl, ho⟩, ?_⟩
    · simp [node?_pointNewer, hs]
    · refine (chain_congr (fun t ht => ?_) _ _).mp hr
      rw [node?_pointNewer, if_neg]
      simp only [List.head?_cons, Option.some.injEq]
      rintro rfl
      exact hs' ht

end Chain

section Operations

theorem newest_pointOlder (a : Arena α) (newer older : Option Nat) :
    (a.pointOlder newer older).newest = if newer.isSome then a.newest else older := by
  cases newer <;> rfl

theorem newest_pointNewer (a : Arena α) (older newer : Option Nat) :
    (a.pointNewer older newer).newest = a.newest := by
  cases older <;> rfl

theorem oldest_pointOlder (a : Arena α) (newer older : Option Nat) :
    (a.pointOlder newer older).oldest = a.oldest := by
  cases newer <;> rfl

theorem oldest_pointNewer (a : Arena α) (older newer : Option Nat) :
    (a.pointNewer older newer).oldest = if older.isSome then a.oldest else newer := by
  cases older <;> rfl

@[simp] theorem size_pointOlder (a : Arena α) (newer older : Option Nat) :
    (a.pointOlder newer older).nodes.size = a.nodes.size := by
  cases newer <;> simp [pointOlder]

@[simp] theorem size_pointNewer (a : Arena α) (older newer : Option Nat) :
    (a.pointNewer older newer).nodes.size = a.nodes.size := by
  cases older <;> simp [pointNewer]

theorem item?_pointOlder (a : Arena α) (newer older : Option Nat) (t : Nat) :
    (a.pointOlder newer older).item? t = a.item? t := by
  cases newer with
  | none => rfl
  | some s =>
    refine item?_update a s _ ?_ t
    exact fun _ => ⟨rfl, rfl⟩

theorem item?_pointNewer (a : Arena α) (older newer : Option Nat) (t : Nat) :
    (a.pointNewer older newer).item? t = a.item? t := by
  cases older with
  | none => rfl
  | some s =>
    refine item?_update a s _ ?_ t
    exact fun _ => ⟨rfl, rfl⟩

structure SameEntries (a b : Arena α) : Prop where
  item? : ∀ s, b.item? s = a.item? s
  size : b.nodes.size = a.nodes.size
  vacant : b.vacant = a.vacant

theorem sameEntries_link (a : Arena α) (slot : Nat) : SameEntries a (a.link slot) := by
  unfold link
  cases a.newest with
  | none =>
    refine ⟨fun s => ?_, by simp, rfl⟩
    refine item?_update a slot _ ?_ s
    exact fun _ => ⟨rfl, rfl⟩
  | some first =>
    refine ⟨fun s => ?_, by simp, rfl⟩
    refine (item?_update _ first _ ?_ s).trans (item?_update a slot _ ?_ s) <;>
      exact fun _ => ⟨rfl, rfl⟩

theorem sameEntries_unlink (a : Arena α) (slot : Nat) : SameEntries a (a.unlink slot) := by
  cases h : a.node? slot with
  | none => simp [unlink, h, SameEntries.mk]
  | some n =>
    rw [unlink_eq h]
    refine ⟨fun s => ?_, by simp, ?_⟩
    · rw [item?_update, item?_pointNewer, item?_pointOlder]
      exact fun _ => ⟨rfl, rfl⟩
    · cases n.newer <;> cases n.older <;> rfl

theorem Linked.link {a : Arena α} {slots : List Nat} (h : a.Linked slots) {slot : Nat}
    (hs : slot ∉ slots) (hn : (a.node? slot).isSome) : (a.link slot).Linked (slot :: slots) := by
  obtain ⟨n, hn⟩ := Option.isSome_iff_exists.mp hn
  unfold Arena.link
  cases slots with
  | nil =>
    have hh : a.newest = none := h.newest
    rw [hh]
    refine ⟨⟨⟨{ n with newer := none, older := none }, ?_, rfl, rfl⟩, trivial⟩, rfl, rfl, by simp⟩
    refine (node?_update a slot _ slot).trans ?_
    rw [if_pos rfl, hn]
    rfl
  | cons first rest =>
    have hh : a.newest = some first := h.newest
    have hne : first ≠ slot := fun he => hs (he ▸ List.mem_cons_self)
    obtain ⟨⟨m, hm, -, ho⟩, hr⟩ := h.chain
    rw [hh]
    refine ⟨⟨⟨{ n with newer := none, older := some first }, ?_, rfl, rfl⟩,
      ⟨⟨{ m with newer := some slot }, ?_, rfl, ho⟩, ?_⟩⟩, rfl, ?_,
      List.nodup_cons.mpr ⟨hs, h.nodup⟩⟩
    · refine (node?_update_ne _ hne _).trans ?_
      rw [node?_update, if_pos rfl, hn]
      rfl
    · refine (node?_update _ first _ first).trans ?_
      rw [if_pos rfl, node?_update_ne _ hne.symm, hm]
      rfl
    · refine (chain_congr (fun t ht => ?_) _ _).mp hr
      have h₁ : slot ≠ t := fun he => hs (List.mem_cons_of_mem _ (he ▸ ht))
      have h₂ : first ≠ t := fun he => (List.nodup_cons.mp h.nodup).1 (he ▸ ht)
      exact ((node?_update_ne _ h₂ _).trans (node?_update_ne a h₁ _)).symm
    · exact h.oldest.trans (List.getLast?_cons_cons).symm

theorem Linked.node?_eq {a : Arena α} {xs ys : List Nat} {slot : Nat}
    (h : a.Linked (xs ++ slot :: ys)) :
    ∃ n, a.node? slot = some n ∧ n.newer = xs.getLast? ∧ n.older = ys.head? := by
  obtain ⟨-, ⟨n, hn, hb, ho⟩, -⟩ := (chain_append a none none xs (slot :: ys)).mp h.chain
  exact ⟨n, hn, by simpa using hb, by simpa using ho⟩

theorem Linked.unlink {a : Arena α} {xs ys : List Nat} {slot : Nat}
    (h : a.Linked (xs ++ slot :: ys)) : (a.unlink slot).Linked (xs ++ ys) := by
  obtain ⟨n, hn, hb, ho⟩ := h.node?_eq
  obtain ⟨hx, -, hy⟩ := (chain_append a none none xs (slot :: ys)).mp h.chain
  obtain ⟨hxn, hyn, hd⟩ := List.nodup_append.mp h.nodup
  obtain ⟨hsy, hyn⟩ := List.nodup_cons.mp hyn
  have hsx : slot ∉ xs := fun hm => hd slot hm slot List.mem_cons_self rfl
  have hxy : ∀ s ∈ xs, s ∉ ys := fun s hm hm' => hd s hm s (List.mem_cons_of_mem _ hm') rfl
  rw [unlink_eq hn, hb, ho]
  refine ⟨(chain_append _ none none xs ys).mpr ⟨?_, ?_⟩, ?_, ?_, ?_⟩
  · refine (chain_congr (fun s hs => ?_) _ _).mp (hx.pointOlder hxn (ys.head?.or none))
    have hne : slot ≠ s := fun he => hsx (he ▸ hs)
    rw [node?_update_ne _ hne, node?_pointNewer, if_neg]
    · simp
    · exact fun he => hxy s hs (List.mem_of_head? he)
  · have hy' : (a.pointOlder xs.getLast? ys.head?).Chain (some slot) ys none := by
      refine (chain_congr (fun s hs => ?_) _ _).mp hy
      rw [node?_pointOlder, if_neg]
      exact fun he => hxy s (List.mem_of_getLast? he) hs
    refine (chain_congr (fun s hs => ?_) _ _).mp (hy'.pointNewer hyn (xs.getLast?.or none))
    have hne : slot ≠ s := fun he => hsy (he ▸ hs)
    rw [node?_update_ne _ hne]
    simp
  · refine (newest_pointNewer _ _ _).trans ((newest_pointOlder _ _ _).trans ?_)
    cases xs with
    | nil => rfl
    | cons first xs => simpa using h.newest
  · refine (oldest_pointNewer _ _ _).trans ?_
    cases ys with
    | nil => simp
    | cons next ys =>
      simpa [oldest_pointOlder, List.getLast?_append, List.getLast?_cons] using h.oldest
  · exact List.nodup_append.mpr ⟨hxn, hyn, fun s hs t ht he => hxy s hs (he ▸ ht)⟩

end Operations

section Slots

theorem Linked.congr {a b : Arena α} {slots : List Nat} (h : a.Linked slots)
    (hn : ∀ s ∈ slots, a.node? s = b.node? s) (hf : b.newest = a.newest)
    (hl : b.oldest = a.oldest) : b.Linked slots :=
  ⟨(chain_congr hn none none).mp h.chain, hf.trans h.newest, hl.trans h.oldest, h.nodup⟩

theorem Holds.exists_node {a : Arena α} {slots : List Nat} (h : a.Holds slots) {s : Nat}
    (hs : s ∈ slots) : ∃ n, a.node? s = some n :=
  h.chain.exists_node hs

theorem Holds.lt_size {a : Arena α} {slots : List Nat} (h : a.Holds slots) {s : Nat}
    (hs : s ∈ slots) : s < a.nodes.size := by
  obtain ⟨n, hn⟩ := h.exists_node hs
  exact lt_size_of_node? hn

theorem Holds.length_le {a : Arena α} {slots : List Nat} (h : a.Holds slots) :
    slots.length ≤ a.nodes.size := by
  have hs : slots ⊆ List.range a.nodes.size := fun s hs => List.mem_range.mpr (h.lt_size hs)
  simpa using (h.nodup.subperm hs).length_le

theorem Holds.of_sameEntries {a b : Arena α} {slots slots' : List Nat} (h : a.Holds slots)
    (hb : SameEntries a b) (hl : b.Linked slots') (hm : ∀ s, s ∈ slots' ↔ s ∈ slots) :
    b.Holds slots' := by
  refine ⟨hl, fun s n hn => ?_, fun s => ?_, hb.vacant ▸ h.vacant_nodup⟩
  · have hs : (a.node? s).isSome := (isSome_node?_iff (hb.item? s)).mp (by rw [hn]; rfl)
    obtain ⟨m, hs⟩ := Option.isSome_iff_exists.mp hs
    exact (hm s).mpr (h.mem_of_node s m hs)
  · rw [hb.vacant, h.mem_vacant, hb.size, hm]

theorem Holds.moveToFront {a : Arena α} {xs ys : List Nat} {slot : Nat}
    (h : a.Holds (xs ++ slot :: ys)) :
    (a.moveToFront slot).Holds (slot :: (xs ++ ys)) ∧ SameEntries a (a.moveToFront slot) := by
  have hm : ∀ s, s ∈ slot :: (xs ++ ys) ↔ s ∈ xs ++ slot :: ys := by
    intro s
    simp only [List.mem_cons, List.mem_append]
    tauto
  have hnm : slot ∉ xs ++ ys := (List.nodup_middle.mp h.nodup).notMem
  rw [Arena.moveToFront]
  split
  · have hx : xs = [] := by
      cases xs with
      | nil => rfl
      | cons x xs =>
        have hh : some x = some slot := h.newest.symm.trans ‹_›
        cases hh
        exact absurd List.mem_cons_self hnm
    subst hx
    exact ⟨h, ⟨fun _ => rfl, rfl, rfl⟩⟩
  · have hu := sameEntries_unlink a slot
    have hl := sameEntries_link (a.unlink slot) slot
    have hs : SameEntries a ((a.unlink slot).link slot) :=
      ⟨fun s => (hl.item? s).trans (hu.item? s), hl.size.trans hu.size, hl.vacant.trans hu.vacant⟩
    have hn : ((a.unlink slot).node? slot).isSome := by
      obtain ⟨n, hn⟩ := h.exists_node (List.mem_append_right xs List.mem_cons_self)
      exact (isSome_node?_iff (hu.item? slot)).mpr (by rw [hn]; rfl)
    exact ⟨h.of_sameEntries hs (h.toLinked.unlink.link hnm hn) hm, hs⟩

theorem node?_set (a : Arena α) (s : Nat) (n : Option (Node α)) (t : Nat) :
    node? { a with nodes := a.nodes.setIfInBounds s n } t =
      if s = t then if s < a.nodes.size then n else none else a.node? t := by
  simp only [node?, Array.getElem?_setIfInBounds]
  by_cases h : s = t
  · rw [if_pos h, if_pos h]
    split <;> rfl
  · rw [if_neg h, if_neg h]

theorem node?_push (a : Arena α) (n : Node α) (t : Nat) :
    node? { a with nodes := a.nodes.push (some n) } t =
      if t = a.nodes.size then some n else a.node? t := by
  simp only [node?, Array.getElem?_push]
  split <;> rfl

structure Placed (a b : Arena α) (slots : List Nat) (slot : Nat) (n : Node α) : Prop where
  fresh : slot ∉ slots
  node : b.node? slot = some n
  others : ∀ s, s ≠ slot → b.node? s = a.node? s
  newest : b.newest = a.newest
  oldest : b.oldest = a.oldest
  mem_vacant : ∀ s, s ∈ b.vacant ↔ s < b.nodes.size ∧ s ∉ slot :: slots
  vacant_nodup : b.vacant.Nodup

theorem Holds.place {a : Arena α} {slots : List Nat} (h : a.Holds slots) (n : Node α) :
    Placed a (a.place n).2 slots (a.place n).1 n := by
  unfold Arena.place
  split
  case h_1 slot rest hv =>
    have hm := (h.mem_vacant slot).mp (hv ▸ List.mem_cons_self)
    obtain ⟨hr, hrn⟩ := List.nodup_cons.mp (hv ▸ h.vacant_nodup)
    refine ⟨hm.2, ?_, fun s hs => ?_, rfl, rfl, fun s => ?_, hrn⟩
    · exact (node?_set a slot _ slot).trans (by rw [if_pos rfl, if_pos hm.1])
    · exact (node?_set a slot _ s).trans (if_neg hs.symm)
    · have := h.mem_vacant s
      rw [hv, List.mem_cons] at this
      simp only [Array.size_setIfInBounds, List.mem_cons]
      by_cases hs : s = slot
      · subst hs
        simp [hr]
      · simpa [hs] using this
  case h_2 hv =>
    have hf : a.nodes.size ∉ slots := fun hm => Nat.lt_irrefl _ (h.lt_size hm)
    refine ⟨hf, ?_, fun s hs => ?_, rfl, rfl, fun s => ?_, hv ▸ List.nodup_nil⟩
    · exact (node?_push a n _).trans (if_pos rfl)
    · exact (node?_push a n s).trans (if_neg hs)
    · have := h.mem_vacant s
      rw [hv] at this
      simp only [List.not_mem_nil, false_iff, not_and, not_not] at this
      simp only [hv, List.not_mem_nil, Array.size_push, List.mem_cons, false_iff, not_and, not_not]
      intro hs
      by_cases he : s = a.nodes.size
      · exact .inl he
      · exact .inr (this (by omega))

theorem Holds.insert {a : Arena α} {slots : List Nat} (h : a.Holds slots) (key : Nat) (value : α) :
    (a.insert key value).1 ∉ slots ∧
      (a.insert key value).2.Holds ((a.insert key value).1 :: slots) ∧
      (a.insert key value).2.item? (a.insert key value).1 = some (key, value) ∧
      ∀ s ∈ slots, (a.insert key value).2.item? s = a.item? s := by
  let slot := (a.place { key, value }).1
  let b := (a.place { key, value }).2
  have hp : Placed a b slots slot { key, value } := h.place { key, value }
  have hs := sameEntries_link b slot
  have hne : ∀ s ∈ slots, s ≠ slot := fun s hm he => hp.fresh (he ▸ hm)
  have hb : b.Linked slots :=
    h.toLinked.congr (fun s hm => (hp.others s (hne s hm)).symm) hp.newest hp.oldest
  have hl : (b.link slot).Linked (slot :: slots) := hb.link hp.fresh (by rw [hp.node]; rfl)
  change slot ∉ slots ∧ (b.link slot).Holds (slot :: slots) ∧
    (b.link slot).item? slot = some (key, value) ∧ ∀ s ∈ slots, (b.link slot).item? s = a.item? s
  refine ⟨hp.fresh, ⟨hl, fun s n hn => ?_, fun s => ?_, hs.vacant ▸ hp.vacant_nodup⟩, ?_, ?_⟩
  · by_cases he : s = slot
    · exact he ▸ List.mem_cons_self
    · have : (b.node? s).isSome := (isSome_node?_iff (hs.item? s)).mp (by rw [hn]; rfl)
      rw [hp.others s he] at this
      obtain ⟨m, hm⟩ := Option.isSome_iff_exists.mp this
      exact List.mem_cons_of_mem _ (h.mem_of_node s m hm)
  · rw [hs.vacant, hs.size, hp.mem_vacant]
  · rw [hs.item?, item?, hp.node]
    rfl
  · intro s hm
    rw [hs.item?, item?, hp.others s (hne s hm)]
    rfl

theorem Holds.remove {a : Arena α} {xs ys : List Nat} {slot : Nat}
    (h : a.Holds (xs ++ slot :: ys)) :
    (a.remove slot).Holds (xs ++ ys) ∧
      ∀ s ∈ xs ++ ys, (a.remove slot).item? s = a.item? s := by
  have hu := sameEntries_unlink a slot
  have hl := h.toLinked.unlink
  have hnm : slot ∉ xs ++ ys := (List.nodup_middle.mp h.nodup).notMem
  have hne : ∀ s ∈ xs ++ ys, slot ≠ s := fun s hs he => hnm (he ▸ hs)
  have hlt : slot < a.nodes.size := h.lt_size (List.mem_append_right xs List.mem_cons_self)
  have hnode :
      ∀ s, (a.remove slot).node? s = if slot = s then none else (a.unlink slot).node? s := by
    intro s
    refine (node?_set (a.unlink slot) slot none s).trans ?_
    simp
  have hentry : ∀ s ∈ xs ++ ys, (a.remove slot).item? s = a.item? s := by
    intro s hs
    rw [← hu.item? s, item?, hnode, if_neg (hne s hs), item?]
  have hvac : (a.remove slot).vacant = slot :: a.vacant := congrArg (slot :: ·) hu.vacant
  have hsize : (a.remove slot).nodes.size = a.nodes.size :=
    (Array.size_setIfInBounds ..).trans hu.size
  have hmid : ∀ s, s ∈ xs ++ slot :: ys ↔ s = slot ∨ s ∈ xs ++ ys := by
    intro s
    simp only [List.mem_cons, List.mem_append]
    tauto
  refine ⟨⟨hl.congr (fun s hs => ?_) rfl rfl, fun s n hn => ?_, fun s => ?_, ?_⟩, hentry⟩
  · rw [hnode, if_neg (hne s hs)]
  · rw [hnode] at hn
    split at hn
    · cases hn
    · have : (a.node? s).isSome := (isSome_node?_iff (hu.item? s)).mp (by rw [hn]; rfl)
      obtain ⟨m, hm⟩ := Option.isSome_iff_exists.mp this
      exact ((hmid s).mp (h.mem_of_node s m hm)).resolve_left (Ne.symm ‹_›)
  · rw [hvac, hsize, List.mem_cons, h.mem_vacant, hmid]
    by_cases he : s = slot
    · subst he
      simp [hlt, hnm]
    · simp [he]
  · rw [hvac, List.nodup_cons]
    refine ⟨fun hm => ?_, h.vacant_nodup⟩
    exact ((h.mem_vacant slot).mp hm).2 (List.mem_append_right xs List.mem_cons_self)

theorem node?_setValue (a : Arena α) (s : Nat) (value : α) (t : Nat) :
    (a.setValue s value).node? t =
      if s = t then (a.node? t).map fun n => { n with value } else a.node? t :=
  node?_update a s _ t

theorem item?_setValue (a : Arena α) (s : Nat) (value : α) (t : Nat) :
    (a.setValue s value).item? t =
      if s = t then (a.item? t).map fun e => (e.1, value) else a.item? t := by
  rw [item?, node?_setValue]
  split
  · rw [item?, Option.map_map, Option.map_map]
    rfl
  · rfl

theorem item?_setValue_self {a : Arena α} {s key : Nat} {v : α} (h : a.item? s = some (key, v))
    (value : α) : (a.setValue s value).item? s = some (key, value) := by
  rw [item?_setValue, if_pos rfl, h]
  rfl

theorem filterMap_setValue (a : Arena α) {s : Nat} {slots : List Nat} (h : s ∉ slots) (value : α) :
    slots.filterMap (a.setValue s value).item? = slots.filterMap a.item? := by
  apply List.filterMap_congr
  intro t ht
  rw [item?_setValue, if_neg (ne_of_mem_of_not_mem ht h).symm]

theorem Chain.setValue {a : Arena α} {slots : List Nat} {before after : Option Nat}
    (h : a.Chain before slots after) (s : Nat) (value : α) :
    (a.setValue s value).Chain before slots after := by
  induction slots generalizing before with
  | nil => trivial
  | cons t rest ih =>
    obtain ⟨⟨n, hn, hb, ho⟩, hr⟩ := h
    refine ⟨?_, ih hr⟩
    rw [node?_setValue, hn]
    split
    · exact ⟨_, rfl, hb, ho⟩
    · exact ⟨_, rfl, hb, ho⟩

theorem Holds.setValue {a : Arena α} {slots : List Nat} (h : a.Holds slots) (s : Nat) (value : α) :
    (a.setValue s value).Holds slots := by
  refine ⟨⟨h.chain.setValue s value, h.newest, h.oldest, h.nodup⟩, fun t n hn => ?_, fun t => ?_,
    h.vacant_nodup⟩
  · rw [node?_setValue] at hn
    split at hn
    · obtain ⟨m, hm, -⟩ := Option.map_eq_some_iff.mp hn
      exact h.mem_of_node t m hm
    · exact h.mem_of_node t n hn
  · exact (h.mem_vacant t).trans (by rw [Arena.setValue, size_update])

theorem Chain.walk {a : Arena α} {slots : List Nat} {before : Option Nat}
    (h : a.Chain before slots none) {n : Nat} (hn : slots.length ≤ n) :
    a.walk n slots.head? = slots.filterMap a.node? := by
  induction slots generalizing before n with
  | nil => cases n <;> rfl
  | cons s rest ih =>
    obtain ⟨⟨node, hs, -, ho⟩, hr⟩ := h
    cases n with
    | zero => simp at hn
    | succ n =>
      simp only [List.head?_cons, Arena.walk, hs]
      rw [List.filterMap_cons_some hs, ho, Option.or_none, ih hr (by simpa using hn)]

theorem Holds.toList_eq {a : Arena α} {slots : List Nat} (h : a.Holds slots) :
    a.toList = slots.filterMap a.node? := by
  rw [toList, h.newest]
  exact h.chain.walk h.length_le

end Slots

end TieredMemory.Recency.Arena
