import TieredMemory.Hierarchy
import TieredMemory.Proofs.Backend.Flat
import TieredMemory.Proofs.Block.Paged
import TieredMemory.Proofs.Page.Cache

namespace TieredMemory

namespace PageCache

variable {S H B : Type} [PageStorage S H] [PageContents S H] [LawfulStorage S H]
variable [Backend B] [Contents B] [LawfulBackend B] {pageSize : Nat} {c : PageCache S H B}
variable {m : ByteArray}

structure Settled (m : ByteArray) (c : PageCache S H B) : Prop where
  clean : ∀ page, c.dirtyRange? page = none
  reads : ∀ address length, address + length ≤ m.size →
    (PageCache.read address length c).1 = .ok (Bytes.slice m address length)

theorem Valid.settled (h : c.Valid True pageSize) (hc : Contents.Clean c) (hm : Mirrors c m) :
    Settled m c := by
  constructor
  · intro page
    rw [dirtyRange?, h.cache.peek?_eq]
    cases hp : c.cache.toList.lookup page with
    | none => rfl
    | some p => exact hc.1 _ ((Recency.Ledger.lookup_eq_some_iff_mem h.coherent.nodup).mp hp)
  · intro address length hr
    have hread := (hm.read (σ := Unit) (ends_read address length h)).1
    rwa [flat, if_pos hr] at hread

theorem Valid.clean_below (h : c.Valid True pageSize) (hc : Contents.Clean c) (hm : Mirrors c m) :
    Contents.Clean c.below ∧ Mirrors c.below m :=
  ⟨hc.2, hm.size, (h.byteAt_below hc.1).symm.trans hm.bytes⟩

end PageCache

namespace Hierarchy

variable {P D α : Type} [BlockDevice D] {h t : Hierarchy D} {m : ByteArray}

def call : Call Unit → Op (Hierarchy D) ByteArray
  | .read address length => read address length
  | .write address data => do
    write address data
    return ByteArray.empty
  | .sync () => do
    flush
    return ByteArray.empty

variable [BlockContents D]

instance : Contents (Hierarchy D) where
  size h := Contents.size h.ram
  byteAt h := Contents.byteAt h.ram
  Clean h := Contents.Clean h.ram
  writes h := Contents.writes h.ram

variable [LawfulDevice D]

structure Live (h : Hierarchy D) : Prop where
  ram : h.ram.Valid True h.ram.pageSize
  size : Contents.size h.ram = h.maximumSize
  isOpen : h.closed = false

theorem Live.update {ram : RamTier D} (h' : h.Live) (hr : ram.Valid True ram.pageSize)
    (hs : Contents.size ram = Contents.size h.ram) (client : Transfers) :
    Live { h with ram, client } :=
  ⟨hr, hs.trans h'.size, h'.isOpen⟩

omit [BlockDevice D] [BlockContents D] [LawfulDevice D] in
theorem ends_onRam {op : Op (RamTier D) α} {ok : α → RamTier D → Prop}
    {bad : Error → RamTier D → Prop} (hop : op.Ends h.ram ok bad) :
    (onRam op).Ends h (fun a t => ∃ ram, t = { h with ram } ∧ ok a ram)
      (fun e t => ∃ ram, t = { h with ram } ∧ bad e ram) := by
  rcases hop.cases with ⟨a, ram, he, ha⟩ | ⟨e, ram, he, hb⟩
  · apply Op.Ends.of_ok (a := a) (t := { h with ram })
    · simp only [onRam, he]
    · exact ⟨ram, rfl, ha⟩
  · apply Op.Ends.of_error (e := e) (t := { h with ram })
    · simp only [onRam, he]
    · exact ⟨ram, rfl, hb⟩

section Transfers

omit [BlockContents D] [LawfulDevice D]

theorem read_of_le {address length : Nat} (hr : address + length ≤ h.maximumSize) :
    read address length h = (do
      let bytes ← onRam (PageCache.read address length)
      record (·.recordRead length)
      return bytes : Op (Hierarchy D) ByteArray) h := by
  rw [read, checkRange_of_le hr]

theorem read_of_lt {address length : Nat} (hr : h.maximumSize < address + length) :
    read address length h = (.error (.addressOutOfRange address length h.maximumSize), h) := by
  rw [read, checkRange_of_lt hr]

theorem write_of_le {address : Nat} {data : ByteArray}
    (hr : address + data.size ≤ h.maximumSize) :
    write address data h = (do
      onRam (PageCache.write address data)
      record (·.recordWrite data.size) : Op (Hierarchy D) Unit) h := by
  rw [write, checkRange_of_le hr]

theorem write_of_lt {address : Nat} {data : ByteArray}
    (hr : h.maximumSize < address + data.size) :
    write address data h = (.error (.addressOutOfRange address data.size h.maximumSize), h) := by
  rw [write, checkRange_of_lt hr]

variable {bad : Error → Hierarchy D → Prop}

theorem ends_read_of_le {address length : Nat} {ok : ByteArray → Hierarchy D → Prop}
    (hr : address + length ≤ h.maximumSize)
    (hram : (PageCache.read address length).Ends h.ram
      (fun bytes ram => ok bytes { h with ram, client := h.client.recordRead length })
      (fun e ram => bad e { h with ram })) :
    (read address length).Ends h ok bad := by
  rw [Op.Ends, read_of_le hr]
  apply (ends_onRam hram).bind
  · rintro bytes _ ⟨ram, rfl, hok⟩
    exact hok
  · rintro e _ ⟨ram, rfl, hbad⟩
    exact hbad

theorem ends_write_of_le {address : Nat} {data : ByteArray} {ok : Hierarchy D → Prop}
    (hr : address + data.size ≤ h.maximumSize)
    (hram : (PageCache.write address data).Ends h.ram
      (fun _ ram => ok { h with ram, client := h.client.recordWrite data.size })
      (fun e ram => bad e { h with ram })) :
    (write address data).Ends h (fun _ t => ok t) bad := by
  rw [Op.Ends, write_of_le hr]
  apply (ends_onRam hram).bind
  · rintro _ _ ⟨ram, rfl, hok⟩
    exact hok
  · rintro e _ ⟨ram, rfl, hbad⟩
    exact hbad

end Transfers

theorem ends_read (address length : Nat) (hl : h.Live) :
    (read address length).Ends h
      (fun data t => t.Live ∧ Keeps h t ∧ address + length ≤ Contents.size h ∧
        Bytes.Shows (Contents.byteAt h) address length data)
      (fun e t => t.Live ∧ Keeps h t ∧ (True → Contents.size h < address + length ∧
        e = .addressOutOfRange address length (Contents.size h))) := by
  have hsize : Contents.size h = h.maximumSize := hl.size
  by_cases hr : address + length ≤ Contents.size h
  · apply ends_read_of_le (hsize ▸ hr)
    apply (PageCache.ends_read address length hl.ram).mono
    · rintro data ram ⟨hv, hk, hd⟩
      exact ⟨hl.update hv.self hk.size _, ⟨hk.size, hk.bytes, hk.quiet⟩, hd⟩
    · rintro e ram ⟨hv, hk, hbad⟩
      exact ⟨hl.update hv.self hk.size _, ⟨hk.size, hk.bytes, hk.quiet⟩, hbad⟩
  · have hlt := Nat.not_le.mp hr
    apply Op.Ends.of_error (e := .addressOutOfRange address length (Contents.size h)) (t := h)
    · rw [hsize]
      exact read_of_lt (hsize ▸ hlt)
    · exact ⟨hl, .refl h, fun _ => ⟨hlt, rfl⟩⟩

theorem ends_write (address : Nat) (data : ByteArray) (hl : h.Live) :
    (write address data).Ends h
      (fun _ t => t.Live ∧ address + data.size ≤ Contents.size h ∧
        Writes address data data.size h t)
      (fun e t => t.Live ∧ (True → Contents.size h < address + data.size ∧ Keeps h t ∧
        e = .addressOutOfRange address data.size (Contents.size h))) := by
  have hsize : Contents.size h = h.maximumSize := hl.size
  by_cases hr : address + data.size ≤ Contents.size h
  · apply ends_write_of_le (hsize ▸ hr)
    apply (PageCache.ends_write address data hl.ram).mono
    · rintro _ ram ⟨hv, hfit, hw⟩
      exact ⟨hl.update hv.self hw.size _, hfit, ⟨hw.size, hw.bytes⟩⟩
    · rintro e ram ⟨hv, -, hbad⟩
      obtain ⟨hlt, hk, rfl⟩ := hbad trivial
      exact ⟨hl.update hv.self hk.size _, fun _ => ⟨hlt, ⟨hk.size, hk.bytes, hk.quiet⟩, rfl⟩⟩
  · have hlt := Nat.not_le.mp hr
    apply Op.Ends.of_error (e := .addressOutOfRange address data.size (Contents.size h)) (t := h)
    · rw [hsize]
      exact write_of_lt (hsize ▸ hlt)
    · exact ⟨hl, fun _ => ⟨hlt, .refl h, rfl⟩⟩

theorem ends_flush (hl : h.Live) :
    (flush : Op (Hierarchy D) Unit).Ends h
      (fun _ t => t.Live ∧ Keeps h t ∧ Contents.Clean t)
      (fun _ _ => False) := by
  apply (ends_onRam (PageCache.ends_flush_all hl.ram)).mono
  · rintro _ _ ⟨ram, rfl, hv, hk, hc⟩
    exact ⟨hl.update hv.self hk.size _, ⟨hk.size, hk.bytes, hk.quiet⟩, hc⟩
  · rintro e _ ⟨ram, rfl, -, -, hn⟩
    exact hn trivial

theorem simulates_flat : Simulates (call (D := D)) flat fun h m => h.Live ∧ Mirrors h m := by
  rintro c h m ⟨hl, hm⟩
  cases c with
  | read address length => exact hm.read (ends_read address length hl)
  | write address data =>
    apply hm.write
    apply ((ends_write address data hl).answer ByteArray.empty).mono
    · exact fun answer t ht => ⟨ht.2.1, ht.1, ht.2.2⟩
    · exact fun e t ht => ht
  | sync kind =>
    apply hm.sync
    apply ((ends_flush hl).answer ByteArray.empty).mono
    · exact fun answer t ht => ⟨ht.2.1, ht.1, ht.2.2.1⟩
    · exact fun e t ht => ht

theorem settled_of_clean (hv : h.ram.Valid True h.ram.pageSize) (hc : Contents.Clean h)
    (hm : Mirrors h m) :
    h.ram.Settled m ∧ h.psram.Settled m ∧ h.himem.Settled m ∧ h.file.bytes.toByteArray = m := by
  have hram : Mirrors h.ram m := ⟨hm.size, hm.bytes⟩
  have hvp : h.psram.Valid True h.psram.pageSize := hv.coherent.below
  have hvh : h.himem.Valid True h.himem.pageSize := hvp.coherent.below
  have hvf : h.file.Valid True := hvh.coherent.below
  obtain ⟨hcp, hmp⟩ := hv.clean_below hc hram
  obtain ⟨hch, hmh⟩ := hvp.clean_below hcp hmp
  obtain ⟨-, hmf⟩ := hvh.clean_below hch hmh
  exact ⟨hv.settled hc hram, hvp.settled hcp hmp, hvh.settled hch hmh,
    hmf.toByteArray_eq hvf.size rfl⟩

theorem ends_shutdown (hl : h.Live) :
    (shutdown : Op (Hierarchy D) Unit).Ends h
      (fun _ t => t.ram.Valid True t.ram.pageSize ∧ Keeps h t ∧ Contents.Clean t)
      (fun _ _ => False) := by
  have hop : shutdown h = (do
      onRam Backend.flush
      onRam Backend.shutdown : Op (Hierarchy D) Unit) { h with closed := true } := by
    rw [shutdown, hl.isOpen]
    rfl
  rw [Op.Ends, hop]
  have hram : ({ h with closed := true } : Hierarchy D).ram.Valid True h.ram.pageSize := hl.ram
  apply (ends_onRam (PageCache.ends_flush_all hram)).bind
  · rintro _ _ ⟨ram, rfl, hv, hk, -⟩
    apply (ends_onRam (PageCache.ends_shutdown hv)).mono
    · rintro _ _ ⟨ram', rfl, hv', hk', hc⟩
      have hkeep : Keeps h.ram ram' := hk.trans hk'
      exact ⟨hv'.self, ⟨hkeep.size, hkeep.bytes, hkeep.quiet⟩, hc⟩
    · rintro e _ ⟨ram', rfl, -, -, hn⟩
      exact hn trivial
  · rintro e _ ⟨ram, rfl, -, -, hn⟩
    exact hn trivial

omit [BlockContents D] [LawfulDevice D] in
theorem file_release (h : Hierarchy D) : h.release.file = h.file := rfl

theorem destroy_eq_ok (hl : h.Live) (hm : Mirrors h m) :
    ∃ t, destroy h = (.ok (), t) ∧ t.file.bytes.toByteArray = m ∧
      (Contents.Clean h → t.file.onWrite.calls = h.file.onWrite.calls) := by
  rcases (ends_shutdown hl).cases with ⟨_, t, he, hv, hk, hc⟩ | ⟨e, t, -, hf⟩
  · refine ⟨t.release, ?_, ?_, ?_⟩
    · simp only [destroy, he]
    · rw [file_release]
      exact (settled_of_clean hv hc (hm.of_keeps hk)).2.2.2
    · intro hclean
      rw [file_release]
      exact (hk.quiet hclean).2
  · exact hf.elim

theorem keeps_call {c : Call Unit} (hl : h.Live) (hc : ¬ c.IsWrite) :
    (call c h).2.Live ∧ Keeps h (call c h).2 := by
  apply Op.Ends.always (P := fun t => t.Live ∧ Keeps h t)
  cases c with
  | read address length =>
    apply (ends_read address length hl).mono
    · exact fun data t ht => ⟨ht.1, ht.2.1⟩
    · exact fun e t ht => ⟨ht.1, ht.2.1⟩
  | write address data => exact absurd trivial hc
  | sync kind =>
    apply ((ends_flush hl).answer ByteArray.empty).mono
    · exact fun answer t ht => ⟨ht.2.1, ht.2.2.1⟩
    · exact fun e t ht => ht.elim

theorem keeps_run {calls : List (Call Unit)} (hl : h.Live) (hc : ∀ c ∈ calls, ¬ c.IsWrite) :
    (run call calls h).2.Live ∧ Keeps h (run call calls h).2 := by
  induction calls generalizing h with
  | nil => exact ⟨hl, .refl h⟩
  | cons c calls ih =>
    obtain ⟨hhead, htail⟩ := List.forall_mem_cons.mp hc
    obtain ⟨hlc, hkc⟩ := keeps_call hl hhead
    obtain ⟨hlr, hkr⟩ := ih hlc htail
    exact ⟨hlr, hkc.trans hkr⟩

structure Silent (h : Hierarchy D) : Prop where
  onCalls : ∀ calls : List (Call Unit), (∀ c ∈ calls, ¬ c.IsWrite) →
    (run call calls h).2.file.onWrite.calls = h.file.onWrite.calls
  onDestroy : ∀ calls : List (Call Unit), (∀ c ∈ calls, ¬ c.IsWrite) →
    (destroy (run call calls h).2).2.file.onWrite.calls = h.file.onWrite.calls
  onDrop : ∀ calls : List (Call Unit), (∀ c ∈ calls, ¬ c.IsWrite) →
    (drop (run call calls h).2).file.onWrite.calls = h.file.onWrite.calls

theorem Live.silent (hl : h.Live) (hclean : Contents.Clean h) (hm : Mirrors h m) : Silent h := by
  have hrun : ∀ calls : List (Call Unit), (∀ c ∈ calls, ¬ c.IsWrite) →
      (run call calls h).2.file.onWrite.calls = h.file.onWrite.calls :=
    fun calls hc => ((keeps_run hl hc).2.quiet hclean).2
  have hend : ∀ calls : List (Call Unit), (∀ c ∈ calls, ¬ c.IsWrite) →
      (destroy (run call calls h).2).2.file.onWrite.calls = h.file.onWrite.calls := by
    intro calls hc
    obtain ⟨hlr, hkr⟩ := keeps_run hl hc
    obtain ⟨t, he, -, hquiet⟩ := destroy_eq_ok hlr (hm.of_keeps hkr)
    rw [he]
    exact (hquiet (hkr.quiet hclean).1).trans (hrun calls hc)
  exact ⟨hrun, hend, hend⟩

structure Durable (m : ByteArray) (h : Hierarchy D) : Prop where
  onFlush : ∃ t, flush h = (.ok (), t) ∧ t.file.bytes.toByteArray = m ∧
    t.ram.Settled m ∧ t.psram.Settled m ∧ t.himem.Settled m ∧ Silent t
  onDestroy : ∃ t, destroy h = (.ok (), t) ∧ t.file.bytes.toByteArray = m
  onDrop : (drop h).file.bytes.toByteArray = m

theorem Live.durable (hl : h.Live) (hm : Mirrors h m) : Durable m h := by
  obtain ⟨u, hu, hfile, -⟩ := destroy_eq_ok hl hm
  refine ⟨?_, ⟨u, hu, hfile⟩, ?_⟩
  · rcases (ends_flush hl).cases with ⟨_, t, he, hlt, hk, hc⟩ | ⟨e, t, -, hf⟩
    · have hmt := hm.of_keeps hk
      obtain ⟨hram, hpsram, hhimem, hfilet⟩ := settled_of_clean hlt.ram hc hmt
      exact ⟨t, he, hfilet, hram, hpsram, hhimem, hlt.silent hc hmt⟩
    · exact hf.elim
  · rw [drop, hu]
    exact hfile

section Building

variable [BlockProvider P D] [LawfulProvider P D] {config : Config} {provider : P}
  {place : Location}

omit [BlockDevice D] [BlockContents D] [LawfulDevice D] in
theorem file_create {maximumSize : Nat} {syncOnFlush : Bool} {file : PageFile}
    (hf : PageFile.create place maximumSize syncOnFlush = .ok file) :
    file.Valid True ∧ Mirrors file (Bytes.zeros maximumSize) := by
  obtain ⟨-, -, rfl⟩ := PageFile.create_eq_ok_iff.mp hf
  have hnever : ({} : Faults).Never := fun n => rfl
  exact ⟨⟨rfl, fun _ => ⟨hnever, hnever, hnever⟩⟩, .zeros rfl (SparseBytes.byteAt_zeros _)⟩

structure Fresh (sure : Prop) (config : Config) (file : PageFile) (h : Hierarchy D) : Prop where
  ram : h.ram.Valid sure h.ram.pageSize
  size : Contents.size h.ram = Contents.size file
  bytes : Contents.byteAt h.ram = Contents.byteAt file
  clean : Contents.Clean h.ram
  config_eq : h.config = config
  isOpen : h.closed = false

theorem fresh_stack {sure : Prop} {file : PageFile} (hp : LawfulProvider.Ready sure provider)
    (hf : file.Valid sure) (hs : stack config provider file = .ok h) :
    Fresh sure config file h := by
  unfold stack at hs
  split at hs
  · cases hs
  · rename_i himem hh
    have hhimem := PageCache.fresh_overBlocks hf hp (fun _ => ⟨Nat.le_refl _, Nat.le_refl _⟩) hh
    split at hs
    · cases hs
    · rename_i psram hps
      have hpsram := PageCache.fresh_heap hhimem.valid.self (fun _ => Nat.le_refl _) hps
      split at hs
      · cases hs
      · rename_i ram hr
        have hram := PageCache.fresh_heap hpsram.valid.self (fun _ => Nat.le_refl _) hr
        cases hs
        exact {
          ram := hram.valid.self
          size := hram.size.trans (hpsram.size.trans hhimem.size)
          bytes := hram.bytes.trans (hpsram.bytes.trans hhimem.bytes)
          clean := hram.clean (hpsram.clean (hhimem.clean trivial))
          config_eq := rfl
          isOpen := rfl }

theorem live_stack {file : PageFile} (hp : LawfulProvider.Ready True provider)
    (hf : file.Valid True) (hm : Mirrors file (Bytes.zeros config.maximumSize))
    (hs : stack config provider file = .ok h) :
    h.Live ∧ Mirrors h (Bytes.zeros config.maximumSize) := by
  have hfresh := fresh_stack hp hf hs
  have hsize := hfresh.size.trans hm.size
  have hmax : h.maximumSize = config.maximumSize := congrArg Config.maximumSize hfresh.config_eq
  exact ⟨⟨hfresh.ram, hsize.trans ((Bytes.size_zeros _).trans hmax.symm), hfresh.isOpen⟩, hsize,
    hfresh.bytes.trans hm.bytes⟩

omit [BlockContents D] [LawfulDevice D] [LawfulProvider P D] in
theorem create_eq_ok (hc : create config provider place = .ok h) :
    ∃ file, PageFile.create place config.maximumSize config.syncOnFlush = .ok file ∧
      stack config provider file = .ok h := by
  unfold create at hc
  split at hc
  · cases hc
  · dsimp only at hc
    split at hc
    · cases hc
    · split at hc
      · cases hc
      · exact ⟨_, ‹_›, hc⟩

theorem live_create (hp : LawfulProvider.Ready True provider)
    (hc : create config provider place = .ok h) :
    h.Live ∧ Mirrors h (Bytes.zeros config.maximumSize) := by
  obtain ⟨file, hf, hs⟩ := create_eq_ok hc
  obtain ⟨hv, hm⟩ := file_create hf
  exact live_stack hp hv hm hs

end Building

end Hierarchy

inductive BlockKind where
  | emulated
  | paged
  deriving DecidableEq, Repr

namespace BlockKind

abbrev Provider : BlockKind → Type
  | emulated => EmulatedProvider
  | paged => PagedProvider SimulatedBanks

abbrev Device : BlockKind → Type
  | emulated => EmulatedMemory
  | paged => PagedMemory SimulatedBanks

instance device : (k : BlockKind) → BlockDevice k.Device
  | emulated => inferInstanceAs (BlockDevice EmulatedMemory)
  | paged => inferInstanceAs (BlockDevice (PagedMemory SimulatedBanks))

instance provider : (k : BlockKind) → BlockProvider k.Provider k.Device
  | emulated => inferInstanceAs (BlockProvider EmulatedProvider EmulatedMemory)
  | paged =>
    inferInstanceAs (BlockProvider (PagedProvider SimulatedBanks) (PagedMemory SimulatedBanks))

instance contents : (k : BlockKind) → BlockContents k.Device
  | emulated => inferInstanceAs (BlockContents EmulatedMemory)
  | paged => inferInstanceAs (BlockContents (PagedMemory SimulatedBanks))

instance lawfulDevice : (k : BlockKind) → LawfulDevice k.Device
  | emulated => inferInstanceAs (LawfulDevice EmulatedMemory)
  | paged => inferInstanceAs (LawfulDevice (PagedMemory SimulatedBanks))

instance lawfulProvider : (k : BlockKind) → LawfulProvider k.Provider k.Device
  | emulated => inferInstanceAs (LawfulProvider EmulatedProvider EmulatedMemory)
  | paged =>
    inferInstanceAs (LawfulProvider (PagedProvider SimulatedBanks) (PagedMemory SimulatedBanks))

theorem ready (k : BlockKind) (provider : k.Provider) : LawfulProvider.Ready True provider := by
  cases k with
  | emulated => trivial
  | paged => trivial

end BlockKind

namespace Hierarchy

variable {kind : BlockKind} {config : Config} {provider : kind.Provider} {place : Location}
variable {h : Hierarchy kind.Device}

/-- Whatever its tiers look like, a hierarchy answers as an array of zeros of its size would, and
refuses no call inside that array. -/
theorem answers_as_array (hc : create config provider place = .ok h) (calls : List (Call Unit)) :
    (run call calls h).1 = (run flat calls (Bytes.zeros config.maximumSize)).1 ∧
    List.Forall₂ (fun c answer => c.InRange config.maximumSize → ∃ data, answer = .ok data) calls
      (run call calls h).1 := by
  have hrun := (simulates_flat.run calls (live_create (kind.ready provider) hc)).1
  refine ⟨hrun, ?_⟩
  have hok := run_flat_ok calls (Bytes.zeros config.maximumSize)
  rwa [Bytes.size_zeros, ← hrun] at hok

def threeTiers : Config := ⟨"pagefile.bin", 11, ⟨4, 1⟩, ⟨3, 2⟩, ⟨5, 2⟩, false⟩

def writeAndRead : List (Call Unit) := [.write 2 ⟨#[1, 2, 3]⟩, .read 0 11]

theorem answers_as_array_three_tiers :
    ∃ h : Hierarchy EmulatedMemory,
      create threeTiers ({} : EmulatedProvider) .vacant = .ok h ∧
      (run call writeAndRead h).1 = (run flat writeAndRead (Bytes.zeros 11)).1 := by
  refine ⟨_, rfl, ?_⟩
  exact (@answers_as_array .emulated threeTiers {} .vacant _ rfl writeAndRead).1

/-- Whatever was called before, the array that the accepted writes have made is what a flush, the
destruction or the dropping of a hierarchy leaves in its page file. -/
theorem durable_after_calls (hc : create config provider place = .ok h) (calls : List (Call Unit)) :
    (run flat calls (Bytes.zeros config.maximumSize)).2.size = config.maximumSize ∧
    Durable (run flat calls (Bytes.zeros config.maximumSize)).2 (run call calls h).2 := by
  obtain ⟨hl, hm⟩ := (simulates_flat.run calls (live_create (kind.ready provider) hc)).2
  refine ⟨?_, hl.durable hm⟩
  rw [size_run_flat, Bytes.size_zeros]

theorem durable_after_calls_three_tiers :
    ∃ h : Hierarchy EmulatedMemory,
      create threeTiers ({} : EmulatedProvider) .vacant = .ok h ∧
      Durable (run flat writeAndRead (Bytes.zeros 11)).2 (run call writeAndRead h).2 := by
  refine ⟨_, rfl, ?_⟩
  exact (@durable_after_calls .emulated threeTiers {} .vacant _ rfl writeAndRead).2

end Hierarchy

end TieredMemory
