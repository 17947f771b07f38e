import TieredMemory.Proofs.Backend.Transcript
import TieredMemory.Proofs.Page.Errors
import TieredMemory.Proofs.Service
import TieredMemory.Proofs.Versions

namespace TieredMemory

namespace PageCache

variable {S H B C : Type}

def overhear (f : B → C) : PageCache S H B → PageCache S H (Transcript C) :=
  mapBelow (Transcript.start ∘ f)

def forget (f : C → B) : PageCache S H (Transcript C) → PageCache S H B :=
  mapBelow (f ∘ Transcript.inner)

variable [PageStorage S H] [Backend B] [Backend C]

theorem hom_forget {f : C → B} (hf : Backend.Hom f) :
    Backend.Hom (forget f : PageCache S H (Transcript C) → PageCache S H B) :=
  hom_mapBelow (Transcript.hom_comp_inner hf)

section Heard

variable [PageContents S H] [LawfulStorage S H]
variable {pageSize limit : Nat} {I : B → Prop} {c : PageCache S H (Transcript B)}

def Heard (pageSize limit : Nat) (I : B → Prop) : PageCache S H (Transcript B) → Prop :=
  Tended False pageSize (some limit) fun b => Transcript.InOrder limit I b.below

omit [Backend B] in
theorem Heard.below (h : c.Heard pageSize limit I) : c.below.InOrder limit I := Tended.books h

omit [PageStorage S H] [PageContents S H] [LawfulStorage S H] in
theorem steady_heard (h : Backend.Serves limit (fun e => ¬ e.OutOfRange) I) (pageSize : Nat) :
    Steady False pageSize (some limit) (fun e => ¬ e.OutOfRange) fun b : Books (Transcript B) =>
      Transcript.InOrder limit I b.below :=
  (Transcript.serves h).steady False pageSize

theorem serves_heard (h : Backend.Serves limit (fun e => ¬ e.OutOfRange) I)
    (hstorage : PageStorage.Blames S fun e => ¬ e.OutOfRange) :
    Backend.Serves limit (fun e => ¬ e.OutOfRange)
      (Heard pageSize limit I : PageCache S H (Transcript B) → Prop) :=
  serves (steady_heard h pageSize) hstorage

omit [Backend B] [Backend C] in
theorem Blank.heard {c : PageCache S H C} {f : C → B} (hb : c.Blank False pageSize)
    (hI : I (f c.below)) : (c.overhear f).Heard pageSize limit I :=
  (hb.mapBelow _).tended ⟨hI, fun _ h => absurd h List.not_mem_nil⟩

end Heard

end PageCache

namespace Hierarchy

open PageCache (Action)

variable {P D α : Type}

abbrev Overheard (D : Type) :=
  PageCache HeapStorage ByteArray (Transcript (PageCache HeapStorage ByteArray
    (Transcript (PageCache (BlockStorage D) Nat (Transcript PageFile)))))

namespace Overheard

def start : RamTier D → Overheard D :=
  PageCache.overhear (PageCache.overhear (PageCache.overhear id))

def tiers : Overheard D → RamTier D := PageCache.forget (PageCache.forget (PageCache.forget id))

def log (c : Overheard D) : List StoreCall :=
  c.below.calls ++ c.below.inner.below.calls ++ c.below.inner.below.inner.below.calls

variable [BlockDevice D]

theorem hom_tiers : Backend.Hom (tiers : Overheard D → RamTier D) :=
  PageCache.hom_forget (PageCache.hom_forget (PageCache.hom_forget .id))

theorem tiers_run (requests : List (Call PageCache.Upkeep)) (c : RamTier D) :
    tiers (run PageCache.call requests (start c)).2 = (run PageCache.call requests c).2 :=
  PageCache.run_mapBelow (Transcript.hom_comp_inner
    (PageCache.hom_forget (PageCache.hom_forget .id))) requests (start c)

theorem tiers_closing (c : Overheard D) :
    tiers (Op.inOrder Action.perform closing c).2 =
      (Op.inOrder Action.perform closing (tiers c)).2 := by
  rw [inOrder_closing, inOrder_closing]
  have hclosing := hom_tiers.flush.bind fun _ => hom_tiers (D := D).shutdown
  exact (congrArg Prod.snd (hclosing c)).symm

section Order

variable [BlockContents D] [LawfulDevice D] {config : Config} {limit : Nat} {c : Overheard D}

def InOrder (config : Config) (limit : Nat) : Overheard D → Prop :=
  PageCache.Heard config.ram.pageSize limit <| PageCache.Heard config.psram.pageSize limit <|
    PageCache.Heard config.himem.pageSize limit fun file : PageFile => file.maximumSize = limit

theorem InOrder.log (h : InOrder config limit c) : ∀ call ∈ log c, call.Admitted limit := by
  have hram := PageCache.Heard.below h
  have hpsram := PageCache.Heard.below hram.inner
  have hhimem := PageCache.Heard.below hpsram.inner
  rw [Overheard.log, List.forall_mem_append, List.forall_mem_append]
  exact ⟨⟨hram.calls, hpsram.calls⟩, hhimem.calls⟩

variable [BlockDevice.OwnErrors D]

theorem serves_psram : Backend.Serves limit (fun e => ¬ e.OutOfRange)
    (PageCache.Heard config.psram.pageSize limit <| PageCache.Heard config.himem.pageSize limit
      fun file : PageFile => file.maximumSize = limit :
      PageCache HeapStorage ByteArray (Transcript (PageCache (BlockStorage D) Nat
        (Transcript PageFile))) → Prop) :=
  PageCache.serves_heard (PageCache.serves_heard (PageFile.serves limit) BlockStorage.blames)
    HeapStorage.blames

theorem InOrder.run (h : InOrder config limit c) (requests : List (Call PageCache.Upkeep)) :
    InOrder config limit (TieredMemory.run PageCache.call requests c).2 :=
  PageCache.tended_run (PageCache.steady_heard serves_psram _) HeapStorage.blames h requests

theorem InOrder.closing (h : InOrder config limit c) :
    InOrder config limit (Op.inOrder Action.perform closing c).2 := by
  have hserves : Backend.Serves limit (fun e => ¬ e.OutOfRange)
      (InOrder config limit : Overheard D → Prop) :=
    PageCache.serves_heard serves_psram HeapStorage.blames
  rw [inOrder_closing]
  apply Op.Ends.always
  apply (hserves.flush c h).bind
  · exact fun _ t ht => (hserves.shutdown t ht).mono (fun _ _ hu => hu) fun _ _ hu => hu.1
  · exact fun _ _ ht => ht.1

end Order

end Overheard

section Entrance

variable {limit address length : Nat} {op : Op (Hierarchy D) α} {t : Hierarchy D}

structure Guarded (limit address length : Nat) (op : Op (Hierarchy D) α) (t : Hierarchy D) :
    Prop where
  outOfRange : (∃ e, (op t).1 = .error e ∧ e.OutOfRange) ↔ limit < address + length
  unchanged : limit < address + length →
    op t = (.error (.addressOutOfRange address length limit), t)

theorem Guarded.of_ends
    (hin : address + length ≤ limit → op.Ends t (fun _ _ => True) fun e _ => ¬ e.OutOfRange)
    (hout : limit < address + length →
      op t = (.error (.addressOutOfRange address length limit), t)) :
    Guarded limit address length op t := by
  refine ⟨⟨?_, fun hr => ⟨_, congrArg Prod.fst (hout hr), _, _, _, rfl⟩⟩, hout⟩
  rintro ⟨e, he, hrange⟩
  by_contra hr
  have hends := hin (Nat.not_lt.mp hr)
  exact hends.error_of_eq (Prod.ext he rfl) hrange

variable [BlockDevice D] {I : RamTier D → Prop}

theorem Serving.guarded_read (hI : Backend.Serves limit (fun e => ¬ e.OutOfRange) I)
    (ht : Serving limit I t) (address length : Nat) :
    Guarded limit address length (read address length) t := by
  have hsize := ht.size
  apply Guarded.of_ends
  · exact fun hr => (ends_read_serving hI hr ht).mono (fun _ _ _ => trivial) fun _ _ hu => hu.2
  · exact fun hr => hsize ▸ read_of_lt (hsize ▸ hr)

theorem Serving.guarded_write (hI : Backend.Serves limit (fun e => ¬ e.OutOfRange) I)
    (ht : Serving limit I t) (address : Nat) (data : ByteArray) :
    Guarded limit address data.size (write address data) t := by
  have hsize := ht.size
  apply Guarded.of_ends
  · exact fun hr => (ends_write_serving hI hr ht).mono (fun _ _ _ => trivial) fun _ _ hu => hu.2
  · exact fun hr => hsize ▸ write_of_lt (hsize ▸ hr)

end Entrance

section Range

variable [BlockDevice D] {h : Hierarchy D}

def overheard (calls : List (Call Unit)) (h : Hierarchy D) : Overheard D :=
  (run PageCache.call (calls.map request) (Overheard.start h.ram)).2

def overheardEnd (calls : List (Call Unit)) (h : Hierarchy D) : Overheard D :=
  (Op.inOrder Action.perform closing (overheard calls h)).2

/-- A range is checked where a client comes in, and what the tiers ask each other from then on, to
the end of the hierarchy, needs no more than that. -/
structure Checked (limit : Nat) (calls : List (Call Unit)) (h : Hierarchy D) : Prop where
  read (address length : Nat) :
    Guarded limit address length (read address length) (run call calls h).2
  write (address : Nat) (data : ByteArray) :
    Guarded limit address data.size (write address data) (run call calls h).2
  tiers : (overheard calls h).tiers = (run call calls h).2.ram
  admitted : ∀ c ∈ (overheard calls h).log, c.Admitted limit
  tiersEnd : (destroy (run call calls h).2).2 =
    release { (shutdown (run call calls h).2).2 with ram := (overheardEnd calls h).tiers }
  admittedEnd : ∀ c ∈ (overheardEnd calls h).log, c.Admitted limit

variable [BlockContents D] [LawfulDevice D] {config : Config}

theorem Blank.inOrder {file : PageFile} (hb : Blank False config file h) :
    (Overheard.start h.ram).InOrder config file.maximumSize :=
  hb.ram.heard (hb.psram.heard (hb.himem.heard (congrArg PageFile.maximumSize hb.file_eq)))

variable [BlockDevice.OwnErrors D]

/-- A hierarchy over a device and a file that may fail at any time rejects ranges of addresses at
its entrance only. -/
theorem rejects_at_entrance [BlockProvider P D] [LawfulProvider P D] {provider : P}
    {place : Location} {file : PageFile} {onRead onWrite onSync : Faults}
    (hp : LawfulProvider.Ready False provider)
    (hf : PageFile.create place config.maximumSize config.syncOnFlush = .ok file)
    (hs : stack config provider { file with onRead, onWrite, onSync } = .ok h)
    (calls : List (Call Unit)) : Checked config.maximumSize calls h := by
  obtain ⟨-, hm⟩ := file_create hf
  have hsize : file.maximumSize = config.maximumSize := hm.size.trans (Bytes.size_zeros _)
  have hblank : Blank False config { file with onRead, onWrite, onSync } h := blank_stack hp hs
  obtain ⟨huse, hram⟩ := (fresh_created hp hf hs).2.run calls
  -- the logs only listen
  have htiers : (overheard calls h).tiers = (run call calls h).2.ram :=
    (Overheard.tiers_run _ h.ram).trans hram.symm
  have horder : (overheard calls h).InOrder config config.maximumSize :=
    Overheard.InOrder.run (hsize ▸ hblank.inOrder) _
  -- what the topmost tier answers inside the limit, the hierarchy answers
  have hupheld : Upheld False config config.maximumSize
      (fun b => b.below.maximumSize = config.maximumSize) h.ram := hblank.upheld hsize
  have hserves : Backend.Serves config.maximumSize _ (Upheld False config config.maximumSize _) :=
    serves_upheld (D := D) ((PageFile.serves config.maximumSize).steady False _)
      HeapStorage.blames BlockStorage.blames
  have hstart : Serving config.maximumSize _ h :=
    ⟨hupheld, congrArg Config.maximumSize hblank.config_eq⟩
  have hserving := serving_run hserves hstart calls
  constructor
  · exact hserving.guarded_read hserves
  · exact hserving.guarded_write hserves
  · exact htiers
  · exact horder.log
  · rw [overheardEnd, Overheard.tiers_closing, htiers, ← huse.ram_shutdown]
    rfl
  · exact horder.closing.log

theorem rejects_at_entrance_flaky :
    (∃ (file : PageFile) (h : Hierarchy (PagedMemory (Monitored SimulatedBanks))),
      PageFile.create .vacant bankedTiers.maximumSize bankedTiers.syncOnFlush = .ok file ∧
      stack bankedTiers PagedMemory.flakyBanks
        { file with onRead := .burst 1 1, onWrite := .burst 0 2, onSync := .burst 0 1 } = .ok h ∧
      ∀ calls, Checked bankedTiers.maximumSize calls h) ∧
    ∃ h : Hierarchy EmulatedMemory,
      stack threeTiers ({} : EmulatedProvider)
        { bytes := .zeros 11, maximumSize := 11, syncOnFlush := false,
          onRead := .burst 1 1 } = .ok h ∧
      ((overheard [.read 10 1] h).log.map fun
        | .read address length _ => (address, length)
        | _ => (0, 0)) = [(8, 3), (6, 3), (9, 2), (5, 5), (10, 1)] ∧
      ∀ calls, Checked 11 calls h := by
  constructor
  · have hfile : PageFile.create .vacant bankedTiers.maximumSize bankedTiers.syncOnFlush = .ok _ :=
      rfl
    obtain ⟨h, hs⟩ := exists_bankedTiers _
    exact ⟨_, h, hfile, hs, rejects_at_entrance ready_flakyBanks hfile hs⟩
  · have hfile : PageFile.create .vacant threeTiers.maximumSize threeTiers.syncOnFlush = .ok _ :=
      rfl
    have hs : stack threeTiers ({} : EmulatedProvider)
        { bytes := .zeros 11, maximumSize := 11, syncOnFlush := false,
          onRead := .burst 1 1 } = .ok _ := rfl
    exact ⟨_, hs, by decide +kernel, rejects_at_entrance trivial hfile hs⟩

end Range

end Hierarchy

end TieredMemory
