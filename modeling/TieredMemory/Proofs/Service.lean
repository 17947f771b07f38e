import TieredMemory.Proofs.Hierarchy
import TieredMemory.Proofs.Page.Bookkeeping

namespace TieredMemory.Hierarchy

variable {P D : Type} [BlockDevice D]

section Serving

variable {limit : Nat} {bad : Error → Prop} {I : RamTier D → Prop} {h : Hierarchy D}

structure Serving (limit : Nat) (I : RamTier D → Prop) (h : Hierarchy D) : Prop where
  ram : I h.ram
  size : h.maximumSize = limit

theorem ends_read_serving (hI : Backend.Serves limit bad I) {address length : Nat}
    (hr : address + length ≤ limit) (hs : Serving limit I h) :
    (read address length).Ends h (fun _ t => Serving limit I t)
      (fun e t => Serving limit I t ∧ bad e) := by
  apply ends_read_of_le (hs.size ▸ hr)
  apply (hI.read h.ram address length hs.ram hr).mono
  · exact fun _ ram hram => ⟨hram, hs.size⟩
  · exact fun e ram hram => ⟨⟨hram.1, hs.size⟩, hram.2⟩

theorem ends_write_serving (hI : Backend.Serves limit bad I) {address : Nat} {data : ByteArray}
    (hr : address + data.size ≤ limit) (hs : Serving limit I h) :
    (write address data).Ends h (fun _ t => Serving limit I t)
      (fun e t => Serving limit I t ∧ bad e) := by
  apply ends_write_of_le (hs.size ▸ hr)
  apply (hI.write h.ram address data hs.ram hr).mono
  · exact fun _ ram hram => ⟨hram, hs.size⟩
  · exact fun e ram hram => ⟨⟨hram.1, hs.size⟩, hram.2⟩

theorem ends_flush_serving (hI : Backend.Serves limit bad I) (hs : Serving limit I h) :
    (flush : Op (Hierarchy D) Unit).Ends h (fun _ t => Serving limit I t)
      (fun e t => Serving limit I t ∧ bad e) := by
  apply (ends_onRam (hI.flush h.ram hs.ram)).mono
  · rintro _ _ ⟨ram, rfl, hram⟩
    exact ⟨hram, hs.size⟩
  · rintro e _ ⟨ram, rfl, hram, hb⟩
    exact ⟨⟨hram, hs.size⟩, hb⟩

theorem serving_call (hI : Backend.Serves limit bad I) (hs : Serving limit I h) (c : Call Unit) :
    Serving limit I (call c h).2 := by
  cases c with
  | read address length =>
    by_cases hr : address + length ≤ limit
    · exact Op.Ends.always ((ends_read_serving hI hr hs).mono (fun _ _ ht => ht) fun _ _ ht => ht.1)
    · rw [call, read_of_lt (hs.size ▸ Nat.not_le.mp hr)]
      exact hs
  | write address data =>
    rw [call, Op.state_answer]
    by_cases hr : address + data.size ≤ limit
    · exact Op.Ends.always
        ((ends_write_serving hI hr hs).mono (fun _ _ ht => ht) fun _ _ ht => ht.1)
    · rw [write_of_lt (hs.size ▸ Nat.not_le.mp hr)]
      exact hs
  | sync kind =>
    rw [call, Op.state_answer]
    exact Op.Ends.always ((ends_flush_serving hI hs).mono (fun _ _ ht => ht) fun _ _ ht => ht.1)

theorem serving_run (hI : Backend.Serves limit bad I) (hs : Serving limit I h)
    (calls : List (Call Unit)) : Serving limit I (run call calls h).2 :=
  run_invariant (P := Serving limit I) (fun c _ ht => serving_call hI ht c) calls hs

end Serving

section Building

variable [BlockContents D] [LawfulDevice D] [BlockProvider P D] [LawfulProvider P D]
variable {sure : Prop} {config : Config} {provider : P} {file : PageFile} {h : Hierarchy D}

structure Blank (sure : Prop) (config : Config) (file : PageFile) (h : Hierarchy D) : Prop where
  ram : h.ram.Blank False config.ram.pageSize
  psram : h.psram.Blank False config.psram.pageSize
  himem : h.himem.Blank sure config.himem.pageSize
  file_eq : h.file = file
  config_eq : h.config = config
  client : h.client = {}

omit [BlockDevice D] [BlockContents D] [LawfulDevice D] [BlockProvider P D]
  [LawfulProvider P D] in
theorem blank_heap {B : Type} [Backend B] {name : String} {pageSize pages : Nat} {below : B}
    {c : PageCache HeapStorage ByteArray B}
    (hc : PageCache.heap name pageSize pages below = .ok c) :
    c.Blank False pageSize ∧ c.below = below := by
  obtain ⟨-, -, -, -, -, hbelow, -⟩ := PageCache.create_eq_ok hc
  exact ⟨PageCache.blank_create ⟨fun _ hp => absurd hp List.not_mem_nil, False.elim⟩ hc, hbelow⟩

theorem blank_stack (hp : LawfulProvider.Ready sure provider)
    (hs : stack config provider file = .ok h) : Blank sure config file h := by
  unfold stack at hs
  split at hs
  · cases hs
  · rename_i himem hh
    obtain ⟨storage, hv, hc⟩ :=
      PageCache.valid_overBlocks hp (fun _ => ⟨Nat.le_refl _, Nat.le_refl _⟩) hh
    obtain ⟨-, -, -, -, -, hfile, -⟩ := PageCache.create_eq_ok hc
    have hhimem := PageCache.blank_create hv hc
    split at hs
    · cases hs
    · rename_i psram hps
      obtain ⟨hpsram, hbelow⟩ := blank_heap hps
      split at hs
      · cases hs
      · rename_i ram hr
        obtain ⟨hram, hbelow'⟩ := blank_heap hr
        cases hs
        subst hbelow' hbelow hfile
        exact ⟨hram, hpsram, hhimem, rfl, rfl, rfl⟩

end Building

section Tiers

variable {sure : Prop} {config : Config} {limit : Nat} {bad : Error → Prop}
variable {K : Books PageFile → Prop} {h : Hierarchy D} [BlockContents D] [LawfulDevice D]

def Upheld (sure : Prop) (config : Config) (limit : Nat) (K : Books PageFile → Prop) :
    RamTier D → Prop :=
  PageCache.Tended False config.ram.pageSize (some limit) fun upper =>
    PageCache.Tended False config.psram.pageSize (some limit)
      (fun middle =>
        PageCache.Tended sure config.himem.pageSize (some limit) K middle.below) upper.below

theorem serves_upheld (h : Steady sure config.himem.pageSize (some limit) bad K)
    (hheap : PageStorage.Blames HeapStorage bad)
    (hblocks : PageStorage.Blames (BlockStorage D) bad) :
    Backend.Serves limit bad (Upheld sure config limit K : RamTier D → Prop) := by
  have hhimem := PageCache.serves h hblocks
  have hpsram := PageCache.serves (hhimem.steady False config.psram.pageSize) hheap
  exact PageCache.serves (hpsram.steady False config.ram.pageSize) hheap

theorem Blank.upheld {file : PageFile} (hb : Blank sure config file h)
    (hk : K ⟨0, {}, {}, file⟩) : Upheld sure config limit K h.ram := by
  apply hb.ram.tended
  apply hb.psram.tended
  apply hb.himem.tended
  rw [hb.himem.books_eq, show h.himem.below = file from hb.file_eq]
  exact hk

theorem Upheld.books (hu : Upheld sure config limit K h.ram) : K h.himem.books :=
  (PageCache.Tended.books (PageCache.Tended.books (PageCache.Tended.books hu)))

end Tiers

end TieredMemory.Hierarchy
