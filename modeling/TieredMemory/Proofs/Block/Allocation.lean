import Mathlib.Data.Finset.Card
import Mathlib.Data.List.Perm.Subperm
import TieredMemory.Proofs.History
import TieredMemory.Proofs.Page.Storage

namespace TieredMemory.Allocator

open BlockStorage

inductive Request where
  | allocate
  | free (block : Nat)
  deriving DecidableEq, Repr

variable {D σ : Type}

structure Holdings where
  held : List Nat := []
  returned : List Nat := []
  issued : List Nat := []
  deriving DecidableEq, Repr

namespace Holdings

def note (h : Holdings) (s : Step Request (Option Nat) σ) : Holdings :=
  match s.call, s.answer with
  | .allocate, .ok (some block) =>
    ⟨block :: h.held, h.returned.erase block, block :: h.issued⟩
  | .free block, .ok _ => ⟨h.held.erase block, block :: h.returned, h.issued⟩
  | _, _ => h

def after (past : List (Step Request (Option Nat) σ)) : Holdings := past.foldl note {}

def Next (h : Holdings) (block : Nat) : Prop :=
  match h.returned with
  | last :: _ => block = last
  | [] => block ∉ h.issued ∧ ∀ n < block, n ∈ h.issued

def Spares (h : Holdings) : Request → Prop
  | .allocate => True
  | .free block => block ∉ h.returned

instance (h : Holdings) (call : Request) : Decidable (h.Spares call) := by
  cases call <;> unfold Spares <;> infer_instance

def SparesAll (h : Holdings) : List (Step Request (Option Nat) σ) → Prop
  | [] => True
  | s :: steps => h.Spares s.call ∧ (h.note s).SparesAll steps

instance decidableSparesAll : (h : Holdings) → (steps : List (Step Request (Option Nat) σ)) →
    Decidable (h.SparesAll steps)
  | _, [] => isTrue trivial
  | h, s :: steps => @instDecidableAnd _ _ inferInstance (decidableSparesAll (h.note s) steps)

theorem sparesAll_append {h : Holdings} {steps steps' : List (Step Request (Option Nat) σ)} :
    h.SparesAll (steps ++ steps') ↔ h.SparesAll steps ∧ (steps.foldl note h).SparesAll steps' := by
  induction steps generalizing h with
  | nil => exact (iff_of_eq (true_and _)).symm
  | cons s steps ih =>
    rw [List.cons_append, SparesAll, SparesAll, ih, and_assoc]
    rfl

end Holdings

variable [BlockDevice D]

def perform : Request → Op (Allocator D) (Option Nat)
  | .allocate => do
    let block ← allocate
    return some block
  | .free block => do
    free block
    return none

variable {d : D} {a : Allocator D} {h : Holdings}

structure Tallies (d : D) (h : Holdings) (a : Allocator D) : Prop where
  issued : Issued a h.held
  device : a.device = d
  freeList : a.freeList = h.returned
  mem_issued : ∀ n, n ∈ h.issued ↔ n < a.nextUnused

structure Accounts (d : D) (h : Holdings) (a : Allocator D) : Prop where
  device : a.device = d
  nodup_held : h.held.Nodup
  held_lt : ∀ block ∈ h.held, block < a.maxBlocks
  nodup_freeList : a.freeList.Nodup
  disjoint : ∀ block ∈ a.freeList, block ∉ h.held
  held_le : h.held.length ≤ a.maxBlocks
  nextUnused_le : a.nextUnused ≤ a.maxBlocks
  nextUnused_lt : a.maxBlocks ≤ BlockDevice.blockLimit → a.nextUnused < 65536
  freeBlocks_eq : a.freeBlocks = a.maxBlocks - h.held.length

structure Answers (h : Holdings) (s : Step Request (Option Nat) (Allocator D)) : Prop where
  full : s.call = .allocate →
    (s.answer = .error .noSpace ↔ h.held.length = s.before.maxBlocks)
  next : s.call = .allocate → h.held.length ≠ s.before.maxBlocks →
    ∃ block, s.answer = .ok (some block) ∧ h.Next block
  free : ∀ block, s.call = .free block →
    s.answer = if block ∈ h.issued then .ok none
      else .error (.blockOutOfRange block s.before.maxBlocks)
  kept : ∀ e, s.answer = .error e → s.after = s.before

theorem Tallies.accounts (t : Tallies d h a) : Accounts d h a := by
  obtain ⟨hfree, hheld, hdisjoint⟩ := List.nodup_append.mp t.issued.nodup
  have hcount := t.issued.count
  have hle := t.issued.le
  constructor
  · exact t.device
  · exact hheld
  · intro block hm
    exact Nat.lt_of_lt_of_le (t.issued.lt block (List.mem_append_right _ hm)) hle
  · exact hfree
  · intro block hm hheld
    exact hdisjoint block hm block hheld rfl
  · omega
  · exact hle
  · intro hlimit
    rw [BlockDevice.blockLimit] at hlimit
    omega
  · rw [freeBlocks]
    omega

theorem mem_of_lt {blocks : List Nat} {block : Nat} (hi : Issued a blocks)
    (hlt : block < a.nextUnused) : block ∈ a.freeList ++ blocks := by
  have hsub : a.freeList ++ blocks ⊆ List.range a.nextUnused :=
    fun b hb => List.mem_range.mpr (hi.lt b hb)
  have hlen : (List.range a.nextUnused).length ≤ (a.freeList ++ blocks).length := by
    rw [List.length_range, List.length_append, hi.count]
  have hperm := (hi.nodup.subperm hsub).perm_of_length_le hlen
  exact hperm.mem_iff.mpr (List.mem_range.mpr hlt)

theorem Tallies.length_le (t : Tallies d h a) :
    h.returned.length + h.held.length = a.nextUnused ∧ a.nextUnused ≤ a.maxBlocks :=
  ⟨t.freeList ▸ t.issued.count, t.issued.le⟩

theorem Tallies.reissue {block : Nat} {rest : List Nat} (t : Tallies d h a)
    (hf : a.freeList = block :: rest) :
    Tallies d (h.note ⟨.allocate, .ok (some block), a, { a with freeList := rest }⟩)
      { a with freeList := rest } := by
  have hop : allocate a = (.ok block, { a with freeList := rest }) := by
    simp only [allocate, hf]
  have hreturned : h.returned = block :: rest := t.freeList ▸ hf
  have hlt : block < a.nextUnused :=
    t.issued.lt block (List.mem_append_left _ (hf ▸ List.mem_cons_self))
  constructor
  · exact (t.issued.allocate.ok_of_eq hop).2
  · exact t.device
  · change rest = h.returned.erase block
    rw [hreturned, List.erase_cons_head]
  · intro n
    change n ∈ block :: h.issued ↔ n < a.nextUnused
    rw [List.mem_cons, t.mem_issued]
    constructor
    · rintro (rfl | hn)
      · exact hlt
      · exact hn
    · exact .inr

theorem Tallies.issue (t : Tallies d h a) (hf : a.freeList = []) (hu : a.nextUnused < a.maxBlocks) :
    Tallies d (h.note ⟨.allocate, .ok (some a.nextUnused), a,
      { a with nextUnused := a.nextUnused + 1 }⟩) { a with nextUnused := a.nextUnused + 1 } := by
  have hop : allocate a = (.ok a.nextUnused, { a with nextUnused := a.nextUnused + 1 }) := by
    simp only [allocate, hf, if_pos hu]
  have hreturned : h.returned = [] := t.freeList ▸ hf
  constructor
  · exact (t.issued.allocate.ok_of_eq hop).2
  · exact t.device
  · change a.freeList = h.returned.erase a.nextUnused
    rw [hf, hreturned, List.erase_nil]
  · intro n
    change n ∈ a.nextUnused :: h.issued ↔ n < a.nextUnused + 1
    rw [List.mem_cons, t.mem_issued]
    omega

theorem Tallies.allocate (t : Tallies d h a) :
    ∃ answer u, perform .allocate a = (answer, u) ∧
      Tallies d (h.note ⟨.allocate, answer, a, u⟩) u ∧ Answers h ⟨.allocate, answer, a, u⟩ := by
  obtain ⟨hcount, hle⟩ := t.length_le
  cases hf : a.freeList with
  | cons block rest =>
    have hreturned : h.returned = block :: rest := t.freeList ▸ hf
    have hop : Allocator.allocate a = (.ok block, { a with freeList := rest }) := by
      simp only [Allocator.allocate, hf]
    rw [hreturned, List.length_cons] at hcount
    refine ⟨.ok (some block), _, Op.bind_apply_ok hop, t.reissue hf, ?_⟩
    constructor
    · refine fun _ => ⟨by rintro ⟨⟩, fun hfull => ?_⟩
      change h.held.length = a.maxBlocks at hfull
      omega
    · refine fun _ _ => ⟨block, rfl, ?_⟩
      rw [Holdings.Next, hreturned]
    · rintro _ ⟨⟩
    · rintro e ⟨⟩
  | nil =>
    have hreturned : h.returned = [] := t.freeList ▸ hf
    rw [hreturned, List.length_nil] at hcount
    by_cases hu : a.nextUnused < a.maxBlocks
    · have hop : Allocator.allocate a =
          (.ok a.nextUnused, { a with nextUnused := a.nextUnused + 1 }) := by
        simp only [Allocator.allocate, hf, if_pos hu]
      refine ⟨.ok (some a.nextUnused), _, Op.bind_apply_ok hop, t.issue hf hu, ?_⟩
      constructor
      · refine fun _ => ⟨by rintro ⟨⟩, fun hfull => ?_⟩
        change h.held.length = a.maxBlocks at hfull
        omega
      · refine fun _ _ => ⟨a.nextUnused, rfl, ?_⟩
        rw [Holdings.Next, hreturned]
        refine ⟨fun hm => ?_, fun n hn => (t.mem_issued n).mpr hn⟩
        exact Nat.lt_irrefl _ ((t.mem_issued _).mp hm)
      · rintro _ ⟨⟩
      · rintro e ⟨⟩
    · have hop : Allocator.allocate a = (.error .noSpace, a) := by
        simp only [Allocator.allocate, hf, if_neg hu]
      have hfull : h.held.length = a.maxBlocks := by omega
      refine ⟨.error .noSpace, a, Op.bind_apply_error hop, t, ?_⟩
      constructor
      · exact fun _ => iff_of_true rfl hfull
      · exact fun _ hn => absurd hfull hn
      · rintro _ ⟨⟩
      · exact fun _ _ => rfl

theorem Tallies.free {block : Nat} (t : Tallies d h a) (hs : block ∉ h.returned) :
    ∃ answer u, perform (.free block) a = (answer, u) ∧
      Tallies d (h.note ⟨.free block, answer, a, u⟩) u ∧ Answers h ⟨.free block, answer, a, u⟩ := by
  by_cases hlt : block < a.nextUnused
  · have hop : Allocator.free block a = (.ok (), { a with freeList := block :: a.freeList }) := by
      simp only [Allocator.free, if_neg (Nat.not_le.mpr hlt)]
    have hheld : block ∈ h.held := by
      rcases List.mem_append.mp (mem_of_lt t.issued hlt) with hm | hm
      · exact absurd (t.freeList ▸ hm) hs
      · exact hm
    have hissued := (t.issued.perm (List.perm_cons_erase hheld)).free.ok_of_eq hop
    refine ⟨.ok none, _, Op.bind_apply_ok hop, ⟨hissued.2, t.device, ?_, t.mem_issued⟩, ?_⟩
    · exact congrArg (block :: ·) t.freeList
    · constructor
      · rintro ⟨⟩
      · rintro ⟨⟩
      · rintro _ ⟨rfl⟩
        exact (if_pos ((t.mem_issued block).mpr hlt)).symm
      · rintro e ⟨⟩
  · have hop : Allocator.free block a = (.error (.blockOutOfRange block a.maxBlocks), a) := by
      simp only [Allocator.free, if_pos (Nat.not_lt.mp hlt)]
    refine ⟨.error (.blockOutOfRange block a.maxBlocks), a, Op.bind_apply_error hop, t, ?_⟩
    constructor
    · rintro ⟨⟩
    · rintro ⟨⟩
    · rintro _ ⟨rfl⟩
      exact (if_neg fun hm => hlt ((t.mem_issued block).mp hm)).symm
    · exact fun _ _ => rfl

theorem Tallies.perform {call : Request} (t : Tallies d h a) (hs : h.Spares call) :
    ∃ answer u, perform call a = (answer, u) ∧ Tallies d (h.note ⟨call, answer, a, u⟩) u ∧
      Answers h ⟨call, answer, a, u⟩ := by
  cases call with
  | allocate => exact t.allocate
  | free block => exact t.free hs

theorem tallies_start (d : D) : Tallies d {} { device := d } where
  issued := ⟨List.nodup_nil, fun _ hm => absurd hm List.not_mem_nil, rfl, Nat.zero_le _⟩
  device := rfl
  freeList := rfl
  mem_issued _ := iff_of_false List.not_mem_nil (Nat.not_lt_zero _)

/-- The blocks that an allocator has handed out are distinct, and its free list has none of them. It
is full if and only if as many are handed out as its device has; otherwise it hands out the block
that was given back last, or the least one that was never issued. It refuses to take back the blocks
that it never issued, and no others, and a call that fails changes nothing. -/
theorem allocation_accounts (d : D) (calls : List Request)
    (hs : Holdings.SparesAll {} (Op.history perform calls { device := d })) :
    ∀ pre s post, Op.history perform calls { device := d } = pre ++ s :: post →
      Accounts d (.after pre) s.before ∧ Answers (.after pre) s ∧
      Accounts d (.after (pre ++ [s])) s.after := by
  intro pre s post hsplit
  have hpast : ∀ past call a answer u, True → perform call a = (answer, u) →
      (Holdings.SparesAll {} past → Tallies d (.after past) a) →
      Holdings.SparesAll {} (past ++ [⟨call, answer, a, u⟩]) →
      Tallies d (.after (past ++ [⟨call, answer, a, u⟩])) u := by
    intro past call a answer u _ he ht hall
    obtain ⟨hall, hcall, -⟩ := Holdings.sparesAll_append.mp hall
    obtain ⟨answer', u', he', hu, -⟩ := (ht hall).perform hcall
    cases he.symm.trans he'
    rw [Holdings.after, List.foldl_append]
    exact hu
  obtain ⟨-, he, ht⟩ := (Op.runs_history perform calls { device := d }).split
    (Q := fun _ => True) (P := fun past a => Holdings.SparesAll {} past → Tallies d (.after past) a)
    (fun _ _ => trivial) (fun _ => tallies_start d) hpast hsplit
  rw [hsplit] at hs
  obtain ⟨hpre, hcall, -⟩ := Holdings.sparesAll_append.mp hs
  obtain ⟨answer, u, he', hu, hanswers⟩ := (ht hpre).perform hcall
  obtain ⟨call, answer', a, t⟩ := s
  cases he.symm.trans he'
  refine ⟨(ht hpre).accounts, hanswers, ?_⟩
  rw [Holdings.after, List.foldl_append]
  exact hu.accounts

theorem allocation_accounts_exhausted :
    (Op.history perform [.allocate, .allocate, .free 2, .allocate, .allocate, .free 0, .free 1,
      .allocate] { device := (⟨.zeros 12, 4, 3⟩ : EmulatedMemory) }).map (·.answer) =
        [.ok (some 0), .ok (some 1), .error (.blockOutOfRange 2 3), .ok (some 2), .error .noSpace,
          .ok none, .ok none, .ok (some 1)] ∧
    ∀ pre s post, Op.history perform [.allocate, .allocate, .free 2, .allocate, .allocate, .free 0,
      .free 1, .allocate] { device := (⟨.zeros 12, 4, 3⟩ : EmulatedMemory) } = pre ++ s :: post →
        Accounts ⟨.zeros 12, 4, 3⟩ (.after pre) s.before ∧ Answers (.after pre) s ∧
        Accounts ⟨.zeros 12, 4, 3⟩ (.after (pre ++ [s])) s.after :=
  ⟨by decide +kernel, allocation_accounts _ _ (by decide +kernel)⟩

end TieredMemory.Allocator
