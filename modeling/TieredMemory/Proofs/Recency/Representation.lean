import Mathlib.Data.List.Induction
import TieredMemory.Proofs.Recency.Custody
import TieredMemory.Proofs.Recency.Guarded

namespace TieredMemory

namespace DirectTable

variable {α : Type} {t : DirectTable α}

def Placed (t : DirectTable α) : Prop := ∀ i l, t.lines[i]? = some (some l) → t.slot l.key = i

theorem placed_empty (capacity : Nat) (h : 0 < capacity) :
    (empty capacity h : DirectTable α).Placed := by
  intro i l hl
  simp only [empty, Array.getElem?_replicate] at hl
  split at hl <;> cases hl

theorem Placed.putLine (h : t.Placed) (key : Nat) {line : Option (Line α)}
    (hkey : ∀ l, line = some l → l.key = key) : (t.putLine key line).Placed := by
  intro i l hl
  rw [slot_putLine]
  simp only [DirectTable.putLine, Array.getElem?_set] at hl
  split at hl
  · rw [hkey l (Option.some.inj hl)]
    assumption
  · exact h i l hl

theorem Placed.insert (h : t.Placed) (key : Nat) (value : α) : (t.insert key value).Placed :=
  h.putLine key fun l hl => by cases hl; rfl

theorem Placed.erase (h : t.Placed) (key : Nat) : (t.erase key).Placed := by
  unfold DirectTable.erase
  split
  · exact h.putLine key nofun
  · exact h

theorem Placed.get?_eq (h : t.Placed) {i : Nat} {l : Line α} (hl : t.lines[i]? = some (some l)) :
    t.get? l.key = some l.value := by
  rw [get?_eq_some_iff, line?]
  obtain ⟨hi, hl'⟩ := Array.getElem?_eq_some_iff.mp hl
  have hslot := h i l hl
  simp only [hslot, hl']

end DirectTable

namespace Recency

variable {σ α : Type}

namespace Arena

variable {a : Arena α} {slots : List Nat}

def Follows (a : Arena α) (next : Node α → Option Nat) : (cursor : Option Nat) → List Nat → Prop
  | cursor, [] => cursor = none
  | cursor, s :: rest => cursor = some s ∧ ∃ n, a.node? s = some n ∧ a.Follows next (next n) rest

theorem Chain.follows_older {before : Option Nat} (h : a.Chain before slots none) :
    a.Follows Node.older slots.head? slots := by
  induction slots generalizing before with
  | nil => rfl
  | cons s rest ih =>
    obtain ⟨⟨n, hn, -, ho⟩, hr⟩ := h
    rw [Option.or_none] at ho
    exact ⟨rfl, n, hn, ho ▸ ih hr⟩

theorem Chain.follows_newer {after : Option Nat} (h : a.Chain none slots after) :
    a.Follows Node.newer slots.getLast? slots.reverse := by
  induction slots using List.reverseRecOn generalizing after with
  | nil => rfl
  | append_singleton xs s ih =>
    obtain ⟨hxs, ⟨n, hn, hb, -⟩, -⟩ := (chain_append a none after xs [s]).mp h
    rw [Option.or_none] at hb
    rw [List.getLast?_concat, List.reverse_concat]
    exact ⟨rfl, n, hn, hb ▸ ih hxs⟩

theorem Holds.length_add_vacant (h : a.Holds slots) :
    slots.length + a.vacant.length = a.nodes.size := by
  have hd : slots.Disjoint a.vacant := fun s hs hv => ((h.mem_vacant s).mp hv).2 hs
  have hp : (slots ++ a.vacant).Perm (List.range a.nodes.size) := by
    rw [List.perm_ext_iff_of_nodup (h.nodup.append h.vacant_nodup hd) List.nodup_range]
    intro s
    rw [List.mem_append, List.mem_range, h.mem_vacant]
    constructor
    · rintro (hs | hs)
      · exact h.lt_size hs
      · exact hs.1
    · intro hs
      by_cases hm : s ∈ slots
      · exact .inl hm
      · exact .inr ⟨hs, hm⟩
  simpa using hp.length_eq

@[simp] theorem size_link (a : Arena α) (slot : Nat) : (a.link slot).nodes.size = a.nodes.size :=
  (sameEntries_link a slot).size

@[simp] theorem size_unlink (a : Arena α) (slot : Nat) :
    (a.unlink slot).nodes.size = a.nodes.size :=
  (sameEntries_unlink a slot).size

theorem size_moveToFront (a : Arena α) (slot : Nat) :
    (a.moveToFront slot).nodes.size = a.nodes.size := by
  unfold moveToFront
  split
  · rfl
  · rw [size_link, size_unlink]

theorem size_remove (a : Arena α) (slot : Nat) : (a.remove slot).nodes.size = a.nodes.size :=
  (Array.size_setIfInBounds ..).trans (size_unlink a slot)

theorem size_setValue (a : Arena α) (slot : Nat) (value : α) :
    (a.setValue slot value).nodes.size = a.nodes.size :=
  size_update a slot _

theorem Holds.size_insert (h : a.Holds slots) (key : Nat) (value : α) :
    (a.insert key value).2.nodes.size = max a.nodes.size (slots.length + 1) := by
  have hlen := h.length_add_vacant
  have hplace : (a.place { key, value }).2.nodes.size = max a.nodes.size (slots.length + 1) := by
    unfold Arena.place
    split
    · rename_i hv
      rw [hv, List.length_cons] at hlen
      rw [Array.size_setIfInBounds]
      omega
    · rename_i hv
      rw [hv, List.length_nil] at hlen
      rw [Array.size_push]
      omega
  exact (size_link _ _).trans hplace

end Arena

namespace Cache

inductive Lives : Cache α → (most : Nat) → Prop
  | empty (lines : Nat) (h : 0 < lines) : Lives (empty lines h) 0
  | step {σ : Type} {c : Cache α} {most : Nat} (hc : Lives c most) (h : Handler σ α) (s : σ)
    (request : Request α) :
    Lives (perform h request (c, s)).2.1 (max most (perform h request (c, s)).2.1.count)

section Sizes

structure Shrinks (c t : Cache α) : Prop where
  size : t.arena.nodes.size = c.arena.nodes.size
  count : t.count ≤ c.count
  placed : c.direct.Placed → t.direct.Placed

variable {c t u : Cache α}

theorem Shrinks.refl (c : Cache α) : Shrinks c c := ⟨rfl, Nat.le_refl _, id⟩

theorem Shrinks.trans (h : Shrinks c t) (h' : Shrinks t u) : Shrinks c u :=
  ⟨h'.size.trans h.size, Nat.le_trans h'.count h.count, h'.placed ∘ h.placed⟩

theorem shrinks_setValue (c : Cache α) (slot : Nat) (value : α) :
    Shrinks c { c with arena := c.arena.setValue slot value } :=
  ⟨Arena.size_setValue c.arena slot value, Nat.le_refl _, id⟩

theorem shrinks_refresh (c : Cache α) (slot key : Nat) (value : α) :
    Shrinks c (c.refresh slot key value) :=
  ⟨(Arena.size_moveToFront _ slot).trans (Arena.size_setValue c.arena slot value), Nat.le_refl _,
    fun h => h.insert key slot⟩

theorem shrinks_detach (c : Cache α) (slot key : Nat) : Shrinks c (c.detach slot key) :=
  ⟨Arena.size_remove c.arena slot, Nat.sub_le _ _, fun h => h.erase key⟩

theorem shrinks_modify (c : Cache α) (key : Nat) (f : α → α) : Shrinks c (c.modify key f) := by
  unfold modify
  split
  · exact shrinks_setValue c _ _
  · exact .refl c

theorem shrinks_expel (h : Handler σ α) (slot : Nat) (node : Node α) (c : Cache α) (s : σ) :
    Shrinks c (expel h slot node (c, s)).2.1 := by
  rcases hf : h.flush node.key (node.value, s) with ⟨e | _, value, t⟩
  · simp only [expel, hf]
    exact shrinks_setValue c slot value
  · simp only [expel, hf]
    exact shrinks_detach c slot node.key

theorem shrinks_remove (h : Handler σ α) (key : Nat) (c : Cache α) (s : σ) :
    Shrinks c (remove h key (c, s)).2.1 := by
  cases hl : c.locate key with
  | none =>
    simp only [remove, hl]
    exact .refl c
  | some p =>
    simp only [remove, hl, Op.state_answer]
    exact shrinks_expel h p.1 p.2 c s

theorem shrinks_flushFrom (h : Handler σ α) (n : Nat) (cursor : Option Nat) (c : Cache α) (s : σ) :
    Shrinks c (flushFrom h n cursor (c, s)).2.1 := by
  induction n generalizing cursor c s with
  | zero => exact .refl c
  | succ n ih =>
    cases cursor with
    | none => exact .refl c
    | some slot =>
      cases hn : c.arena.node? slot with
      | none =>
        simp only [flushFrom, hn]
        exact .refl c
      | some node =>
        rcases hf : h.flush node.key (node.value, s) with ⟨e | _, value, t⟩
        · simp only [flushFrom, hn, flushNode, hf]
          exact shrinks_setValue c slot value
        · simp only [flushFrom, hn, flushNode, hf]
          exact (shrinks_setValue c slot value).trans (ih node.older _ t)

theorem shrinks_evictLoop (h : Handler σ α) (n done : Nat) (c : Cache α) (s : σ) :
    Shrinks c (evictLoop h n done (c, s)).2.1 := by
  induction n generalizing done c s with
  | zero => exact .refl c
  | succ n ih =>
    cases hl : c.leastRecentNode? with
    | none =>
      simp only [evictLoop, hl]
      exact .refl c
    | some p =>
      obtain ⟨slot, node⟩ := p
      have hx := shrinks_expel h slot node c s
      rcases he : expel h slot node (c, s) with ⟨e | _, t, u⟩
      · simp only [evictLoop, hl, he]
        rwa [he] at hx
      · simp only [evictLoop, hl, he]
        rw [he] at hx
        have hx : Shrinks c t := hx
        have hrecord : Shrinks t t.recordEviction := ⟨rfl, Nat.le_refl _, id⟩
        exact hx.trans (hrecord.trans (ih (done + 1) t.recordEviction u))

structure Grows (c t : Cache α) : Prop where
  size : t.arena.nodes.size = max c.arena.nodes.size t.count
  placed : c.direct.Placed → t.direct.Placed

variable {slots : List Nat}

theorem Shrinks.grows (h : Shrinks c t) (hc : c.Valid slots) : Grows c t := by
  have hle := hc.arena.length_le
  rw [← hc.count] at hle
  exact ⟨h.size.trans (Nat.max_eq_left (Nat.le_trans h.count hle)).symm, h.placed⟩

theorem Valid.grows_insertFront (hc : c.Valid slots) (key : Nat) (value : α) :
    Grows c (c.insertFront key value) := by
  refine ⟨(hc.arena.size_insert key value).trans ?_, fun h => h.insert key _⟩
  rw [← hc.count]
  rfl

theorem Valid.grows_access (hc : c.Valid slots) {β : Type} (h : Handler σ α) (key : Nat)
    (use : Op (α × σ) β) (s : σ) : Grows c (access h key use (c, s)).2.1 := by
  cases hl : c.locate key with
  | some p =>
    simp only [access, hl]
    have hr : Shrinks c (c.recordHit.refresh p.1 key (use (p.2.value, s)).2.1) :=
      let hs := shrinks_refresh c.recordHit p.1 key (use (p.2.value, s)).2.1
      ⟨hs.size, hs.count, hs.placed⟩
    exact hr.grows hc
  | none =>
    rcases hf : h.fault key s with ⟨e | value, t⟩
    · simp only [access, hl, hf]
      have hr : Shrinks c c.recordMiss := ⟨rfl, Nat.le_refl _, id⟩
      exact hr.grows hc
    · simp only [access, hl, hf]
      have hi := (hc.withLookups c.recordMiss.lookups).grows_insertFront key (use (value, t)).2.1
      exact ⟨hi.size, hi.placed⟩

theorem Valid.grows_add (hc : c.Valid slots) (key : Nat) (value : α) :
    Grows c (c.add key value).2 := by
  unfold add
  split
  · exact (shrinks_refresh c _ key value).grows hc
  · exact hc.grows_insertFront key value

theorem Valid.grows_perform (hc : c.Valid slots) (h : Handler σ α) (request : Request α) (s : σ) :
    Grows c (perform h request (c, s)).2.1 := by
  cases request with
  | get key change =>
    simp only [perform, Op.state_answer]
    exact hc.grows_access h key (lend change) s
  | add key value => exact hc.grows_add key value
  | remove key =>
    simp only [perform, Op.state_answer]
    exact (shrinks_remove h key c s).grows hc
  | peek key => exact (Shrinks.refl c).grows hc
  | modify key change => exact (shrinks_modify c key change).grows hc
  | contains key => exact (Shrinks.refl c).grows hc
  | flushAll =>
    simp only [perform, Op.state_answer]
    exact (shrinks_flushFrom h _ _ c s).grows hc
  | evict n =>
    simp only [perform, Op.state_answer]
    exact (shrinks_evictLoop h n 0 c s).grows hc
  | clear =>
    simp only [perform, Op.state_answer]
    exact (shrinks_evictLoop h c.count 0 c s).grows hc

end Sizes

section Representation

structure Represents (c : Cache α) (slots : List Nat) (most : Nat) : Prop where
  nodup : slots.Nodup
  occupied : ∀ slot, slot ∈ slots ↔ (c.arena.node? slot).isSome
  forward : c.arena.Follows Node.older c.arena.newest slots
  last : c.arena.oldest = slots.getLast?
  backward : c.arena.Follows Node.newer c.arena.oldest slots.reverse
  index : ∀ key slot, c.index[key]? = some slot ↔ ∃ n, c.arena.node? slot = some n ∧ n.key = key
  distinct : ∀ s t m n, c.arena.node? s = some m → c.arena.node? t = some n → m.key = n.key → s = t
  line : ∀ (i : Nat) (l : Line Nat), c.direct.lines[i]? = some (some l) →
    c.index[l.key]? = some l.value
  vacant : ∀ slot, slot ∈ c.arena.vacant ↔ slot < c.arena.nodes.size ∧ c.arena.node? slot = none
  vacant_nodup : c.arena.vacant.Nodup
  count : c.count = slots.length
  size : c.arena.nodes.size = most

variable {c : Cache α} {slots : List Nat} {most : Nat}

theorem Valid.mem_iff (hc : c.Valid slots) (slot : Nat) :
    slot ∈ slots ↔ (c.arena.node? slot).isSome := by
  refine ⟨hc.arena.isSome, fun h => ?_⟩
  obtain ⟨n, hn⟩ := Option.isSome_iff_exists.mp h
  exact hc.arena.mem_of_node slot n hn

theorem Valid.index_iff (hc : c.Valid slots) (key slot : Nat) :
    c.index[key]? = some slot ↔ ∃ n, c.arena.node? slot = some n ∧ n.key = key := by
  rw [hc.index]
  constructor
  · rintro ⟨-, v, hv⟩
    obtain ⟨n, hn, he⟩ := Option.map_eq_some_iff.mp hv
    exact ⟨n, hn, congrArg Prod.fst he⟩
  · rintro ⟨n, hn, rfl⟩
    exact ⟨hc.arena.mem_of_node slot n hn, n.value, Arena.item?_of_node? hn⟩

theorem Valid.represents (hc : c.Valid slots) (hp : c.direct.Placed) :
    c.Represents slots c.arena.nodes.size where
  nodup := hc.arena.nodup
  occupied := hc.mem_iff
  forward := hc.arena.newest ▸ hc.arena.chain.follows_older
  last := hc.arena.oldest
  backward := hc.arena.oldest ▸ hc.arena.chain.follows_newer
  index := hc.index_iff
  distinct s t m n hm hn hk :=
    Option.some.inj (((hc.index_iff m.key s).mpr ⟨m, hm, rfl⟩).symm.trans
      ((hc.index_iff m.key t).mpr ⟨n, hn, hk.symm⟩))
  line i l hl := hc.direct l.key l.value (hp.get?_eq hl)
  vacant slot := by
    rw [hc.arena.mem_vacant, hc.mem_iff, Option.not_isSome_iff_eq_none]
  vacant_nodup := hc.arena.vacant_nodup
  count := hc.count
  size := rfl

theorem Lives.invariant (hc : Lives c most) :
    c.IsValid ∧ c.direct.Placed ∧ c.arena.nodes.size = most := by
  induction hc with
  | empty lines h => exact ⟨⟨[], valid_empty lines h⟩, DirectTable.placed_empty lines h, rfl⟩
  | step hc h s request ih =>
    obtain ⟨⟨slots, hv⟩, hp, rfl⟩ := ih
    have hg := hv.grows_perform h request s
    exact ⟨(tracks_perform h request _ s ⟨slots, hv⟩).1, hg.placed hp, hg.size⟩

/-- Every request finds the cache in order and leaves it so, whichever callbacks fail, and touches
occupied slots only. -/
theorem lives_represents (hc : Lives c most) :
    (∃ slots, c.Represents slots most) ∧
      c.keysByRecency? = some c.keysByRecency ∧
      c.leastRecentGuarded = some c.leastRecent? ∧
      ∀ {σ : Type} (h : Handler σ α) (request : Request α) (s : σ),
        perform? h request (c, s) = some (perform h request (c, s)) := by
  obtain ⟨⟨slots, hv⟩, hp, rfl⟩ := hc.invariant
  exact ⟨⟨slots, hv.represents hp⟩, hv.keysByRecency?_eq, hv.leastRecentGuarded_eq,
    fun h request s => hv.perform?_eq h request s⟩

theorem Lives.history (hc : Lives c most) (h : Handler σ α) (requests : List (Request α)) (s : σ) :
    Lives (requests.foldl (fun t request => (perform h request t).2) (c, s)).1
      ((Op.history (perform h) requests (c, s)).foldl (fun most x => max most x.after.1.count)
        most) := by
  induction requests generalizing c s most with
  | nil => exact hc
  | cons request requests ih => exact ih (hc.step h s request) _

theorem lives_represents_moody :
    let c := (colliding.foldl (fun t request => (perform moody request t).2)
      (empty 2 (by decide), 0)).1
    Lives c 2 ∧ (∃ slots, c.Represents slots 2) ∧
      ∀ (request : Request Nat) (n : Nat),
        perform? moody request (c, n) = some (perform moody request (c, n)) := by
  have hmost : (Op.history (perform moody) colliding (empty 2 (by decide), 0)).foldl
      (fun most x => max most x.after.1.count) 0 = 2 := by
    decide +kernel
  have hc := (Lives.empty 2 (by decide)).history moody colliding 0
  rw [hmost] at hc
  obtain ⟨hr, -, -, hp⟩ := lives_represents hc
  exact ⟨hc, hr, hp moody⟩

end Representation

end Cache

end Recency

end TieredMemory
