import TieredMemory.Backend.Gate
import TieredMemory.Proofs.Block.Tenure
import TieredMemory.Proofs.Page.Ownership

namespace TieredMemory

variable {D B : Type}

namespace PageCache

section Refusals

variable {S H P : Type} {name : String} {pageSize capacity : Nat} {below b : B} {e : Error}

theorem create_eq_error [PageStorage S H] [Backend B] {storage s : S}
    (h : create name pageSize capacity storage below = .error (e, s, b)) :
    s = PageStorage.abandon storage := by
  rw [create] at h
  split at h
  · split at h
    · cases h
    · cases h
      rfl
  · cases h
    rfl

theorem overBlocks_eq_error [BlockProvider P D] [BlockDevice D] [Backend B] {provider : P}
    {blockSize blocks roomFor : Nat} {remains : P ⊕ BlockStorage D}
    (h : overBlocks name pageSize capacity blockSize blocks roomFor provider below =
      .error (e, remains, b)) :
    (∃ p, BlockProvider.init provider blockSize blocks = .error (e, p) ∧ remains = .inl p) ∨
    ∃ device, BlockProvider.init provider blockSize blocks = .ok device ∧
      remains = .inr ⟨{ device := BlockDevice.abandon device }⟩ := by
  rw [overBlocks] at h
  split at h
  · rename_i e p ha
    cases h
    left
    refine ⟨p, ?_, rfl⟩
    rw [Allocator.init] at ha
    cases hd : BlockProvider.init provider blockSize blocks with
    | error refusal =>
      rw [hd] at ha
      cases ha
      rfl
    | ok device =>
      rw [hd] at ha
      cases ha
  · rename_i allocator ha
    obtain ⟨device, hd, rfl⟩ := allocator_init_eq_ok ha
    right
    refine ⟨device, hd, ?_⟩
    split at h
    · cases h
      rfl
    · rename_i storage hs
      split at h
      · rename_i s b hc
        cases h
        rw [create_eq_error hc, ofAllocator_eq_ok hs]
        rfl
      · cases h

end Refusals

section Leases

open PagedMemory (Leased GivenBack)
open Monitored (InTurn)

variable [BankSwitch D] [BankContents D] [FaithfulBanks D] {blockSize blocks : Nat}

abbrev Held (blockSize blocks : Nat) (out : List Nat)
    (s : BlockStorage (PagedMemory (Monitored D))) : Prop :=
  BlockStorage.Issued s.allocator out ∧ Leased blockSize blocks s.allocator.device

theorem maintains_held (capacity : Nat) :
    PageStorage.Maintains (fun _ => True) (capacity ≤ blocks) capacity
      (Held (D := D) blockSize blocks) := by
  apply BlockStorage.maintains (Leased blockSize blocks) (fun _ h => h.maxBlocks_eq)
  · intro block offset length m h
    apply (Op.ends_of_state (P := Leased blockSize blocks) (h.read block offset length)).mono
    · exact fun _ _ ht => ht
    · exact fun _ _ ht => ⟨trivial, ht.2⟩
  · intro block offset data m h
    apply (Op.ends_of_state (P := Leased blockSize blocks) (h.write block offset data)).mono
    · exact fun _ _ ht => ht
    · exact fun _ _ ht => ⟨trivial, ht.2⟩
  · exact fun _ _ => trivial
  · exact fun _ => trivial

variable [Backend B] {p : PagedProvider (Monitored D)} {pageSize capacity : Nat}
variable {c t : PageCache (BlockStorage (PagedMemory (Monitored D))) Nat B}
variable {w : PageCache (Watched (BlockStorage (PagedMemory (Monitored D))) Nat) Nat B}

theorem held_of_overBlocks {name : String} {roomFor : Nat} {below : B}
    (hp : PagedMemory.Unused p.driver)
    (h : overBlocks name pageSize capacity blockSize blocks roomFor p below = .ok c) :
    Beside c.pageSize c.capacity (Watches (c.capacity ≤ blocks) (Held blockSize blocks))
      c.watch c := by
  obtain ⟨m, hm, hcreate⟩ := overBlocks_eq_ok h
  obtain ⟨hvalid, hnil, -, -, hstorage, -, -⟩ := create_eq_ok hcreate
  apply beside_watch hvalid hnil
  rw [hstorage]
  exact ⟨⟨List.nodup_nil, fun b hb => absurd hb List.not_mem_nil, rfl, Nat.zero_le _⟩,
    PagedMemory.leased_of_init hp hm⟩

omit [FaithfulBanks D] [Backend B] in
theorem Beside.leased
    (h : Beside pageSize capacity (Watches (capacity ≤ blocks) (Held blockSize blocks)) w c) :
    Leased blockSize blocks c.storage.allocator.device := by
  obtain ⟨gs, -, -, hw⟩ := h.watches
  exact hw.holds.2

omit [Backend B] in
theorem givenBack_abandon
    (h : Beside pageSize capacity (Watches (capacity ≤ blocks) (Held blockSize blocks)) w c) :
    GivenBack c.storage.allocator.device.driver c.abandon.storage.allocator.device.driver :=
  h.leased.release

theorem givenBack_dismantle
    (h : Beside pageSize capacity (Watches (capacity ≤ blocks) (Held blockSize blocks)) w c) :
    Leased blockSize blocks (clear c).2.storage.allocator.device ∧
      GivenBack (clear c).2.storage.allocator.device.driver
        c.dismantle.2.storage.allocator.device.driver := by
  rcases (alike_clear (watches_alike (maintains_held capacity))
    (Backend.answers_true B) h).cases with
    ⟨_, w', _, c', -, hc, -, hr⟩ | ⟨e, w', c', -, hc, -, hr⟩
  · rw [dismantle, hc]
    exact ⟨hr.leased, hr.leased.release⟩
  · rw [dismantle, hc]
    exact ⟨hr.leased, hr.leased.release⟩

theorem beside_of_runs {steps : List (Step (Call Upkeep) ByteArray _)}
    (h : Op.Runs call c steps t)
    (hc : Beside pageSize capacity (Watches (capacity ≤ blocks) (Held blockSize blocks)) w c) :
    ∃ w', Beside pageSize capacity (Watches (capacity ≤ blocks) (Held blockSize blocks)) w' t := by
  apply h.always (Q := fun _ => True) (P := fun t => ∃ w',
    Beside pageSize capacity (Watches (capacity ≤ blocks) (Held blockSize blocks)) w' t)
    (fun _ _ => trivial) _ ⟨w, hc⟩
  rintro request s - ⟨w', hs⟩
  exact ⟨_, (call_watched (maintains_held capacity) (Backend.answers_true B) request hs).2.2⟩

end Leases

end PageCache

namespace PagedMemory

open PageCache

variable [BankSwitch D] [BankContents D] [FaithfulBanks D] [Backend B]

def Remains (p : PagedProvider (Monitored D)) (blockSize blocks : Nat) (e : Error) :
    PagedProvider (Monitored D) ⊕ BlockStorage (PagedMemory (Monitored D)) → Prop
  | .inl q => Refused p blockSize blocks e q
  | .inr s => ∃ m, p.init blockSize blocks = .ok m ∧ Leased blockSize blocks m ∧
    GivenBack m.driver s.allocator.device.driver

/-- Every life of paged memory: refused, or in use and then closed or dropped, by its owner or by
the page cache over it. -/
theorem driver_asked_in_turn {p : PagedProvider (Monitored D)} (hp : Unused p.driver)
    (blockSize blocks : Nat) :
    (∀ e q, p.init blockSize blocks = .error (e, q) → Refused p blockSize blocks e q) ∧
    (∀ m, p.init blockSize blocks = .ok m → ∀ steps t, Op.Runs BlockCall.perform m steps t →
      Leased blockSize blocks t ∧
      GivenBack t.driver (BlockDevice.close t).2.driver ∧
      GivenBack t.driver (BlockDevice.abandon t).driver ∧
      BlockDevice.abandon (BlockDevice.close t).2 = (BlockDevice.close t).2) ∧
    ∀ name pageSize capacity roomFor (below : B),
      (∀ e remains b, overBlocks name pageSize capacity blockSize blocks roomFor p below =
        .error (e, remains, b) → Remains p blockSize blocks e remains) ∧
      ∀ c, overBlocks name pageSize capacity blockSize blocks roomFor p below = .ok c →
        ∀ steps t, Op.Runs call c steps t →
          Leased blockSize blocks t.storage.allocator.device ∧
          Leased blockSize blocks (clear t).2.storage.allocator.device ∧
          GivenBack (clear t).2.storage.allocator.device.driver
            t.dismantle.2.storage.allocator.device.driver ∧
          GivenBack t.storage.allocator.device.driver
            t.abandon.storage.allocator.device.driver := by
  refine ⟨fun e q h => refused_of_init hp h, ?_, ?_⟩
  · intro m hm steps t hruns
    have ht : Leased blockSize blocks t := by
      apply hruns.always (Q := fun _ => True) (P := Leased blockSize blocks) (fun _ _ => trivial) _
        (leased_of_init hp hm)
      exact fun request s _ hs => hs.perform request
    have hagain := congrArg Prod.snd (release_again t)
    exact ⟨ht, ht.release, ht.release, hagain⟩
  · intro name pageSize capacity roomFor below
    constructor
    · intro e remains b h
      rcases overBlocks_eq_error h with ⟨q, hq, rfl⟩ | ⟨m, hm, rfl⟩
      · exact refused_of_init hp hq
      · have hl := leased_of_init hp hm
        exact ⟨m, hm, hl, hl.release⟩
    · intro c hc steps t hruns
      obtain ⟨w, hw⟩ := beside_of_runs hruns (held_of_overBlocks hp hc)
      obtain ⟨hcleared, hback⟩ := givenBack_dismantle hw
      exact ⟨hw.leased, hcleared, hback, givenBack_abandon hw⟩

def stubbornBanks : PagedProvider (Monitored SimulatedBanks) :=
  ⟨{ driver := { physicalSize := 65536, reservedSize := 65536 }, onMap := .burst 0 1 }⟩

theorem driver_asked_in_turn_flaky :
    (∃ e q, stubbornBanks.init 4096 16 = .error (e, q) ∧ Refused stubbornBanks 4096 16 e q) ∧
    (∃ m, flakyBanks.init 4096 16 = .ok m ∧ ∀ steps t, Op.Runs BlockCall.perform m steps t →
      Leased 4096 16 t ∧ GivenBack t.driver (BlockDevice.close t).2.driver) ∧
    ∃ c : PageCache (BlockStorage (PagedMemory (Monitored SimulatedBanks))) Nat (Gate FlatMemory),
      overBlocks "tier" 4096 3 4096 16 4096 flakyBanks flakyGate = .ok c ∧
      ∀ steps t, Op.Runs call c steps t → Leased 4096 16 t.storage.allocator.device ∧
        GivenBack (clear t).2.storage.allocator.device.driver
          t.dismantle.2.storage.allocator.device.driver := by
  have hflaky := driver_asked_in_turn (B := Gate FlatMemory) (p := flakyBanks) ⟨rfl, rfl⟩ 4096 16
  have hstubborn := driver_asked_in_turn (B := Gate FlatMemory) (p := stubbornBanks) ⟨rfl, rfl⟩
    4096 16
  obtain ⟨m, hm⟩ := init_flakyBanks
  have hsize : m.blockSize = 4096 := (leased_of_init ⟨rfl, rfl⟩ hm).blockSize_eq
  obtain ⟨c, hc⟩ := exists_overBlocks "tier" 4096 3 4096 flakyGate
    (show BlockProvider.init flakyBanks 4096 16 = .ok m from hm) (Nat.le_of_eq hsize.symm)
    (by decide) (by decide)
  refine ⟨⟨_, _, rfl, hstubborn.1 _ _ rfl⟩, ⟨m, hm, ?_⟩, c, hc, ?_⟩
  · intro steps t hruns
    obtain ⟨hl, hclosed, -⟩ := hflaky.2.1 m hm steps t hruns
    exact ⟨hl, hclosed⟩
  · intro steps t hruns
    obtain ⟨hl, -, hclosed, -⟩ := (hflaky.2.2 "tier" 4096 3 4096 flakyGate).2 c hc steps t hruns
    exact ⟨hl, hclosed⟩

end PagedMemory

end TieredMemory
