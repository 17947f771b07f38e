import TieredMemory.Page.Tower
import TieredMemory.Proofs.Backend.Flat
import TieredMemory.Proofs.Block.Paged
import TieredMemory.Proofs.Page.Cache

namespace TieredMemory

namespace StorageKind

instance contents : (k : StorageKind) → PageContents k.Store k.Handle
  | heap => inferInstanceAs (PageContents HeapStorage ByteArray)
  | emulated => inferInstanceAs (PageContents (BlockStorage EmulatedMemory) Nat)
  | clipped => inferInstanceAs (PageContents (BlockStorage (Clipped EmulatedMemory)) Nat)
  | paged =>
    inferInstanceAs (PageContents (BlockStorage (PagedMemory (Monitored SimulatedBanks))) Nat)

instance lawful : (k : StorageKind) → LawfulStorage k.Store k.Handle
  | heap => inferInstanceAs (LawfulStorage HeapStorage ByteArray)
  | emulated => inferInstanceAs (LawfulStorage (BlockStorage EmulatedMemory) Nat)
  | clipped => inferInstanceAs (LawfulStorage (BlockStorage (Clipped EmulatedMemory)) Nat)
  | paged =>
    inferInstanceAs (LawfulStorage (BlockStorage (PagedMemory (Monitored SimulatedBanks))) Nat)

end StorageKind

namespace Tower

variable {B : Type}

instance contents [Contents B] : (ks : List StorageKind) → Contents (Tower B ks)
  | [] => inferInstanceAs (Contents B)
  | k :: ks =>
    letI := contents ks
    inferInstanceAs (Contents (PageCache k.Store k.Handle (Tower B ks)))

variable [Backend B] [Contents B] [LawfulBackend B]

instance lawful : (ks : List StorageKind) → LawfulBackend (Tower B ks)
  | [] => inferInstanceAs (LawfulBackend B)
  | k :: ks =>
    letI := lawful ks
    inferInstanceAs (LawfulBackend (PageCache k.Store k.Handle (Tower B ks)))

end Tower

inductive StoragePlan where
  | heap (pageSize : Nat)
  | emulated (provider : EmulatedProvider) (blockSize blocks roomFor : Nat)
  | paged (provider : PagedProvider (Monitored SimulatedBanks)) (blockSize blocks roomFor : Nat)

structure TierPlan where
  name : String
  pageSize : Nat
  capacity : Nat
  storage : StoragePlan

namespace TierPlan

def kind (p : TierPlan) : StorageKind :=
  match p.storage with
  | .heap _ => .heap
  | .emulated .. => .emulated
  | .paged .. => .paged

def raise {β : Type} [Backend β] (p : TierPlan) (below : β) :
    Except Error (PageCache p.kind.Store p.kind.Handle β) :=
  match p with
  | ⟨name, pageSize, capacity, .heap size⟩ =>
    (PageCache.create name pageSize capacity (⟨size⟩ : HeapStorage) below).mapError (·.1)
  | ⟨name, pageSize, capacity, .emulated provider blockSize blocks roomFor⟩ =>
    (PageCache.overBlocks name pageSize capacity blockSize blocks roomFor provider below).mapError
      (·.1)
  | ⟨name, pageSize, capacity, .paged provider blockSize blocks roomFor⟩ =>
    (PageCache.overBlocks name pageSize capacity blockSize blocks roomFor provider below).mapError
      (·.1)

def Sound (p : TierPlan) : Prop :=
  match p.storage with
  | .heap size => p.pageSize ≤ size
  | .emulated _ blockSize blocks _ => p.pageSize ≤ blockSize ∧ p.capacity ≤ blocks
  | .paged provider blockSize blocks _ =>
    p.pageSize ≤ blockSize ∧ p.capacity ≤ blocks ∧ provider.driver.Quiet

theorem of_mapError {ε ε' α : Type} {f : ε → ε'} {x : Except ε α} {a : α}
    (h : x.mapError f = .ok a) : x = .ok a := by
  cases x with
  | error e => cases h
  | ok b =>
    cases h
    rfl

theorem fresh_raise {β : Type} [Backend β] [Contents β] [LawfulBackend β] {sure : Prop}
    {p : TierPlan} {below : β} {c : PageCache p.kind.Store p.kind.Handle β}
    (hb : LawfulBackend.Valid sure below) (hs : sure → p.Sound) (h : p.raise below = .ok c) :
    PageCache.Fresh sure p.pageSize below c := by
  match p with
  | ⟨name, pageSize, capacity, .heap size⟩ => exact PageCache.fresh_heap hb hs (of_mapError h)
  | ⟨name, pageSize, capacity, .emulated provider blockSize blocks roomFor⟩ =>
    exact PageCache.fresh_overBlocks hb trivial hs (of_mapError h)
  | ⟨name, pageSize, capacity, .paged provider blockSize blocks roomFor⟩ =>
    have hready : True ∧ (sure → provider.driver.Quiet) := ⟨trivial, fun hx => (hs hx).2.2⟩
    exact PageCache.fresh_overBlocks hb hready (fun hx => ⟨(hs hx).1, (hs hx).2.1⟩) (of_mapError h)

end TierPlan

inductive Sync where
  | tier
  | flush
  | shutdown
  deriving DecidableEq, Repr

namespace Backend

variable {β : Type} [Backend β]

def call (tier : Op β Unit) : Call Sync → Op β ByteArray
  | .read address length => Backend.read address length
  | .write address data => do
    Backend.write address data
    return ByteArray.empty
  | .sync .tier => do
    tier
    return ByteArray.empty
  | .sync .flush => do
    Backend.flush
    return ByteArray.empty
  | .sync .shutdown => do
    Backend.shutdown
    return ByteArray.empty

theorem ends_sync [Contents β] {P : β → Prop} {sure : Prop} {tier : Op β Unit} {b : β} (kind : Sync)
    (htier : tier.Ends b (fun _ t => P t ∧ Keeps b t) (fun _ t => P t ∧ Keeps b t ∧ ¬ sure))
    (hflush : (Backend.flush : Op β Unit).Ends b
      (fun _ t => P t ∧ Keeps b t ∧ Contents.Clean t)
      (fun _ t => P t ∧ Keeps b t ∧ ¬ sure))
    (hshutdown : (Backend.shutdown : Op β Unit).Ends b
      (fun _ t => P t ∧ Keeps b t ∧ Contents.Clean t)
      (fun _ t => P t ∧ Keeps b t ∧ ¬ sure)) :
    (call tier (.sync kind)).Ends b
      (fun answer t => answer = ByteArray.empty ∧ P t ∧ Keeps b t)
      (fun _ t => P t ∧ Keeps b t ∧ ¬ sure) := by
  cases kind with
  | tier => exact htier.answer ByteArray.empty
  | flush =>
    apply (hflush.answer ByteArray.empty).mono
    · exact fun answer t ht => ⟨ht.1, ht.2.1, ht.2.2.1⟩
    · exact fun e t ht => ht
  | shutdown =>
    apply (hshutdown.answer ByteArray.empty).mono
    · exact fun answer t ht => ⟨ht.1, ht.2.1, ht.2.2.1⟩
    · exact fun e t ht => ht

end Backend

namespace Tower

variable {B : Type} [Backend B]

def build : (plans : List TierPlan) → B → Except Error (Tower B (plans.map TierPlan.kind))
  | [], b => .ok b
  | p :: plans, b => do
    let below ← build plans b
    p.raise below

def flushTier : (ks : List StorageKind) → Op (Tower B ks) Unit
  | [] => pure ()
  | _ :: _ => PageCache.flush

def call (ks : List StorageKind) : Call Sync → Op (Tower B ks) ByteArray :=
  Backend.call (flushTier ks)

def dismantle : (ks : List StorageKind) → Tower B ks → Except Error B
  | [], b => .ok b
  | k :: ks, c =>
    match PageCache.dismantle (show PageCache k.Store k.Handle (Tower B ks) from c) with
    | (.error e, _) => .error e
    | (.ok (), p) => dismantle ks p.below

variable [Contents B] [LawfulBackend B] {sure : Prop}

omit [Contents B] [LawfulBackend B] in
theorem build_cons {p : TierPlan} {plans : List TierPlan} {b : B}
    {t : Tower B ((p :: plans).map TierPlan.kind)} (h : build (p :: plans) b = .ok t) :
    ∃ below, build plans b = .ok below ∧ p.raise below = .ok t := by
  cases hbelow : build plans b with
  | error e =>
    rw [build, hbelow] at h
    cases h
  | ok below =>
    rw [build, hbelow] at h
    exact ⟨below, rfl, h⟩

theorem lawful_build {plans : List TierPlan} {b : B} {t : Tower B (plans.map TierPlan.kind)}
    (hb : LawfulBackend.Valid sure b) (hs : sure → ∀ p ∈ plans, p.Sound)
    (h : build plans b = .ok t) :
    LawfulBackend.Valid sure t ∧ Contents.size t = Contents.size b ∧
      Contents.byteAt t = Contents.byteAt b := by
  induction plans with
  | nil =>
    cases h
    exact ⟨hb, rfl, rfl⟩
  | cons p plans ih =>
    obtain ⟨below, hbelow, hp⟩ := build_cons h
    obtain ⟨hv, hsize, hbytes⟩ := ih (fun hx => (List.forall_mem_cons.mp (hs hx)).2) hbelow
    have hfresh := p.fresh_raise hv (fun hx => (List.forall_mem_cons.mp (hs hx)).1) hp
    exact ⟨hfresh.valid.self, hfresh.size.trans hsize, hfresh.bytes.trans hbytes⟩

theorem ends_flushTier (ks : List StorageKind) {t : Tower B ks} (h : LawfulBackend.Valid sure t) :
    (flushTier ks : Op (Tower B ks) Unit).Ends t
      (fun _ u => LawfulBackend.Valid sure u ∧ Keeps t u)
      (fun _ u => LawfulBackend.Valid sure u ∧ Keeps t u ∧ ¬ sure) := by
  cases ks with
  | nil => exact ⟨h, .refl t⟩
  | cons k ks =>
    apply (PageCache.ends_flush h).mono
    · rintro _ u ⟨hv, hk, -⟩
      exact ⟨hv.self, hk⟩
    · rintro e u ⟨hv, hk, hn⟩
      exact ⟨hv.self, hk, hn⟩

theorem simulates_flat (ks : List StorageKind) :
    Simulates (call (B := B) ks) flat fun t m => LawfulBackend.Valid True t ∧ Mirrors t m := by
  rintro c t m ⟨hv, hm⟩
  cases c with
  | read address length => exact hm.read (LawfulBackend.ends_read address length hv)
  | write address data =>
    apply hm.write
    apply ((LawfulBackend.ends_write address data hv).answer ByteArray.empty).mono
    · exact fun answer u hu => ⟨hu.2.1, hu.1, hu.2.2⟩
    · exact fun e u hu => ⟨hu.1, hu.2.2⟩
  | sync kind =>
    apply hm.sync
    apply (Backend.ends_sync kind (ends_flushTier ks hv) (LawfulBackend.ends_flush hv)
      (LawfulBackend.ends_shutdown hv)).mono
    · exact fun answer u hu => ⟨hu.2.1, hu.1, hu.2.2⟩
    · exact fun e u hu => hu.2.2 trivial

theorem dismantle_eq_ok (ks : List StorageKind) {t : Tower B ks} (h : LawfulBackend.Valid sure t)
    (hs : sure) : ∃ b, dismantle ks t = .ok b ∧ LawfulBackend.Valid sure b ∧
      Contents.size b = Contents.size t ∧ Contents.byteAt b = Contents.byteAt t := by
  induction ks with
  | nil => exact ⟨t, rfl, h, rfl, rfl⟩
  | cons k ks ih =>
    obtain ⟨p, he, hv, hsize, hbytes⟩ := PageCache.dismantle_eq_ok h hs
    obtain ⟨b, hb, hvb, hsizeb, hbytesb⟩ := ih hv
    refine ⟨b, ?_, hvb, hsizeb.trans hsize, hbytesb.trans hbytes⟩
    simp only [dismantle, he, hb]

section Flatness

variable {plans : List TierPlan} {m : FlatMemory} {t : Tower FlatMemory (plans.map TierPlan.kind)}
variable {calls : List (Call Sync)}

/-- A stack of any height answers every call as the memory below it would, and taken apart it hands
back the bytes that the memory would have. -/
theorem stack_matches_memory (hs : ∀ p ∈ plans, p.Sound) (ht : build plans m = .ok t)
    (hr : ∀ c ∈ calls, c.InRange m.bytes.size) :
    (run (call _) calls t).1 = (run (call []) calls m).1 ∧
    (∀ answer ∈ (run (call _) calls t).1, ∃ data, answer = .ok data) ∧
    ∃ below, dismantle _ (run (call _) calls t).2 = .ok below ∧
      below.bytes.toByteArray = (run (call []) calls m).2.bytes.toByteArray := by
  have hmemory : LawfulBackend.Valid True m := trivial
  obtain ⟨hv, hsize, hbytes⟩ := lawful_build hmemory (fun _ => hs) ht
  have hm : Mirrors m m.bytes.toByteArray := by
    refine ⟨(SparseBytes.size_toByteArray _).symm, ?_⟩
    funext i
    exact (SparseBytes.byteAt_toByteArray _ i).symm
  have hmt : Mirrors t m.bytes.toByteArray := ⟨hsize.trans hm.size, hbytes.trans hm.bytes⟩
  obtain ⟨hbare, -, hmirror⟩ := (simulates_flat []).run calls ⟨trivial, hm⟩
  obtain ⟨hanswers, hvalid, hstack⟩ := (simulates_flat _).run calls ⟨hv, hmt⟩
  obtain ⟨below, hbelow, -, hsizeb, hbytesb⟩ := dismantle_eq_ok _ hvalid trivial
  refine ⟨hanswers.trans hbare.symm, ?_, below, hbelow, ?_⟩
  · rw [hanswers]
    apply run_flat_all_ok
    rwa [SparseBytes.size_toByteArray]
  · exact (hstack.toByteArray_eq hsizeb hbytesb).trans (hmirror.toByteArray_eq rfl rfl).symm

def twoTiers : List TierPlan :=
  [⟨"upper", 4, 1, .heap 4⟩, ⟨"lower", 3, 2, .emulated {} 5 2 2⟩]

theorem sound_twoTiers : ∀ p ∈ twoTiers, p.Sound := by
  simp [twoTiers, TierPlan.Sound]

theorem stack_matches_memory_two_tiers :
    ∃ t, build twoTiers (FlatMemory.ofSize 11) = .ok t ∧
      (run (call _) [.write 2 ⟨#[1, 2, 3]⟩, .sync .shutdown, .read 0 11] t).1 =
        (run (call []) [.write 2 ⟨#[1, 2, 3]⟩, .sync .shutdown, .read 0 11]
          (FlatMemory.ofSize 11)).1 := by
  refine ⟨_, rfl, (stack_matches_memory sound_twoTiers rfl ?_).1⟩
  simp only [List.forall_mem_cons, Call.InRange]
  exact ⟨by decide, trivial, by decide, by simp⟩

end Flatness

end Tower

end TieredMemory
