import TieredMemory.Proofs.Page.Counters
import TieredMemory.Proofs.Service

namespace TieredMemory.Hierarchy

section File

structure Tallied (limit : Nat) (b : Books PageFile) : Prop where
  size : b.below.maximumSize = limit
  writes : b.below.stats.writes = b.writeBacks.flushes
  bytesWritten : b.below.stats.bytesWritten = b.writeBacks.bytes
  reads : b.below.stats.reads = b.lookups.inserts

variable {limit : Nat} {b : Books PageFile} {t : PageFile}

theorem Tallied.moved (h : Tallied limit b) (ht : PageFile.Counted b.below b.below.stats t) :
    Tallied limit (b.moved t) :=
  ⟨ht.size.trans h.size, ht.stats ▸ h.writes, ht.stats ▸ h.bytesWritten, ht.stats ▸ h.reads⟩

theorem Tallied.missed (h : Tallied limit b) (ht : PageFile.Counted b.below b.below.stats t) :
    Tallied limit (b.missed t) :=
  ⟨ht.size.trans h.size, ht.stats ▸ h.writes, ht.stats ▸ h.bytesWritten, ht.stats ▸ h.reads⟩

theorem Tallied.written {length : Nat} (h : Tallied limit b)
    (ht : PageFile.Counted b.below (b.below.stats.recordWrite length) t) :
    Tallied limit (b.written length t) := by
  refine ⟨ht.size.trans h.size, ?_, ?_, ht.stats ▸ h.reads⟩
  · exact ht.stats ▸ congrArg (· + 1) h.writes
  · exact ht.stats ▸ congrArg (· + length) h.bytesWritten

theorem Tallied.loaded {length : Nat} (h : Tallied limit b)
    (ht : PageFile.Counted b.below (b.below.stats.recordRead length) t) :
    Tallied limit (b.loaded t) := by
  refine ⟨ht.size.trans h.size, ht.stats ▸ h.writes, ht.stats ▸ h.bytesWritten, ?_⟩
  exact ht.stats ▸ congrArg (· + 1) h.reads

theorem steady_tallied (pageSize limit : Nat) :
    Steady True pageSize (some limit) (fun _ => True) (Tallied limit) where
  capacity _ _ hb hl := Option.some.inj hl ▸ congrArg some hb.size
  write _ _ _ hb hr := (PageFile.ends_write_counted (hb.size ▸ hr limit rfl)).mono
    (fun _ _ ht => hb.written ht) fun _ _ ht => ⟨hb.moved ht.1, trivial⟩
  read b address length hb hr hlength := by
    apply (PageFile.ends_read_counted (hb.size ▸ hr limit rfl)).mono
    · rintro data t ⟨hsize, ht⟩
      exact ⟨hb.loaded ht, fun hrefused => absurd ⟨trivial, hsize ▸ hlength⟩ hrefused⟩
    · exact fun _ _ ht => ⟨hb.missed ht.1, trivial⟩
  skip _ _ hl := nomatch hl
  miss _ hb := hb.missed ⟨rfl, rfl⟩
  hit _ hb := ⟨hb.size, hb.writes, hb.bytesWritten, hb.reads⟩
  evict _ hb _ := ⟨hb.size, hb.writes, hb.bytesWritten, hb.reads⟩
  flush b hb := (PageFile.ends_flush_counted b.below).mono (fun _ _ ht => hb.moved ht)
    fun _ _ ht => ⟨hb.moved ht.1, trivial⟩
  shutdown b hb := (PageFile.ends_flush_counted b.below).mono (fun _ _ ht => hb.moved ht)
    fun _ _ ht => ⟨hb.moved ht.1, trivial⟩

end File

section Client

variable {D σ : Type}

def readLengths (s : Step (Call Unit) ByteArray σ) : List Nat :=
  match s.call, s.answer with
  | .read _ length, .ok _ => [length]
  | _, _ => []

def writeLengths (s : Step (Call Unit) ByteArray σ) : List Nat :=
  match s.call, s.answer with
  | .write _ data, .ok _ => [data.size]
  | _, _ => []

def transfers (past : List (Step (Call Unit) ByteArray σ)) : Transfers where
  reads := (past.flatMap readLengths).length
  writes := (past.flatMap writeLengths).length
  bytesRead := (past.flatMap readLengths).sum
  bytesWritten := (past.flatMap writeLengths).sum

instance : Add Transfers where
  add l l' := ⟨l.reads + l'.reads, l.writes + l'.writes, l.bytesRead + l'.bytesRead,
    l.bytesWritten + l'.bytesWritten⟩

theorem add_mk (l l' : Transfers) : l + l' = ⟨l.reads + l'.reads, l.writes + l'.writes,
    l.bytesRead + l'.bytesRead, l.bytesWritten + l'.bytesWritten⟩ := rfl

theorem transfers_cons (s : Step (Call Unit) ByteArray σ)
    (past : List (Step (Call Unit) ByteArray σ)) (l : Transfers) :
    l + transfers (s :: past) = l + transfers [s] + transfers past := by
  simp only [add_mk, transfers, List.flatMap_cons, List.flatMap_nil, List.append_nil,
    List.length_append, List.sum_append, Nat.add_assoc]

variable [BlockDevice D]

theorem ends_read_client (address length : Nat) (h : Hierarchy D) :
    (read address length).Ends h (fun _ t => t.client = h.client.recordRead length)
      fun _ t => t.client = h.client := by
  rcases Nat.lt_or_ge h.maximumSize (address + length) with hr | hr
  · exact .of_error (read_of_lt hr) rfl
  · apply ends_read_of_le hr
    exact (Op.ends_true (PageCache.read address length) h.ram).mono (fun _ _ _ => rfl)
      fun _ _ _ => rfl

theorem ends_write_client (address : Nat) (data : ByteArray) (h : Hierarchy D) :
    (write address data).Ends h (fun _ t => t.client = h.client.recordWrite data.size)
      fun _ t => t.client = h.client := by
  rcases Nat.lt_or_ge h.maximumSize (address + data.size) with hr | hr
  · exact .of_error (write_of_lt hr) rfl
  · apply ends_write_of_le hr
    exact (Op.ends_true (PageCache.write address data) h.ram).mono (fun _ _ _ => rfl)
      fun _ _ _ => rfl

theorem client_call (c : Call Unit) (h : Hierarchy D) :
    (call c h).2.client = h.client + transfers [⟨c, (call c h).1, h, (call c h).2⟩] := by
  cases c with
  | read address length =>
    rcases (ends_read_client address length h).cases with ⟨a, t, he, ht⟩ | ⟨e, t, he, ht⟩
    · rw [call, he, ht]
      rfl
    · rw [call, he, ht]
      rfl
  | write address data =>
    rcases ((ends_write_client address data h).answer ByteArray.empty).cases with
      ⟨a, t, he, -, ht⟩ | ⟨e, t, he, ht⟩
    · rw [call, he, ht]
      rfl
    · rw [call, he, ht]
      rfl
  | sync kind =>
    rw [call, Op.state_answer]
    rfl

theorem client_run (calls : List (Call Unit)) (h : Hierarchy D) :
    (run call calls h).2.client = h.client + transfers (Op.history call calls h) := by
  induction calls generalizing h with
  | nil => rfl
  | cons c calls ih =>
    rw [Op.history, transfers_cons, ← client_call]
    exact ih _

end Client

section Balance

variable {D : Type}

structure Accounted (past : List (Step (Call Unit) ByteArray (Hierarchy D))) (t : Hierarchy D) :
    Prop where
  fileWrites : t.stats.file.writes = t.stats.himem.flushes
  fileBytesWritten : t.stats.file.bytesWritten = t.stats.himem.bytesFlushed
  fileReads : t.stats.file.reads = t.stats.himem.inserts
  client : t.stats.client = transfers past

theorem file_create_counted {place : Location} {maximumSize : Nat} {syncOnFlush : Bool}
    {file : PageFile} (hf : PageFile.create place maximumSize syncOnFlush = .ok file) :
    file.maximumSize = maximumSize ∧ file.stats = {} := by
  obtain ⟨-, -, rfl⟩ := PageFile.create_eq_ok_iff.mp hf
  exact ⟨rfl, rfl⟩

theorem accounted_run {config : Config} {provider : EmulatedProvider} {file : PageFile}
    {h : Hierarchy EmulatedMemory} (hsize : file.maximumSize = config.maximumSize)
    (hfresh : file.stats = {}) (hs : stack config provider file = .ok h)
    (calls : List (Call Unit)) :
    Accounted (Op.history call calls h) (run call calls h).2 := by
  have hblank : Blank True config file h := blank_stack trivial hs
  have hserves := serves_upheld (D := EmulatedMemory)
    (steady_tallied config.himem.pageSize config.maximumSize) (PageStorage.blames_true HeapStorage)
    (PageStorage.blames_true (BlockStorage EmulatedMemory))
  have hstart : Serving config.maximumSize
      (Upheld True config config.maximumSize (Tallied config.maximumSize)) h := by
    refine ⟨hblank.upheld ⟨hsize, ?_, ?_, ?_⟩, congrArg Config.maximumSize hblank.config_eq⟩
    · exact congrArg Transfers.writes hfresh
    · exact congrArg Transfers.bytesWritten hfresh
    · exact congrArg Transfers.reads hfresh
  have hend := Upheld.books (serving_run hserves hstart calls).ram
  have hclient := client_run calls h
  rw [hblank.client] at hclient
  refine ⟨hend.writes, hend.bytesWritten, hend.reads, hclient.trans ?_⟩
  simp only [add_mk, Nat.zero_add]

/-- The counters of a page cache tell what happened, whatever its store and its storage fail with,
and those of a hierarchy over emulated blocks fit together, whatever its page file fails with. -/
theorem counters_balance {S H B : Type} [PageStorage S H] [PageContents S H] [LawfulStorage S H]
    [Backend B] {name : String} {pageSize capacity : Nat} {storage : S} {below : B}
    {c : PageCache S H B} {config : Config} {provider : EmulatedProvider} {place : Location}
    {file : PageFile} {onRead onWrite onSync : Faults} {h : Hierarchy EmulatedMemory}
    (hv : LawfulStorage.Valid False pageSize capacity storage ([] : List H))
    (hc : PageCache.create name pageSize capacity storage below = .ok c)
    (hf : PageFile.create place config.maximumSize config.syncOnFlush = .ok file)
    (hs : stack config provider { file with onRead, onWrite, onSync } = .ok h) :
    (∀ requests, PageCache.Balanced requests c
      (run PageCache.call requests (c.mapBelow Recorded.start)).2
      (run PageCache.call requests c).2) ∧
    ∀ calls, Accounted (Op.history call calls h) (run call calls h).2 := by
  obtain ⟨hsize, hfresh⟩ := file_create_counted hf
  refine ⟨PageCache.balanced_run hv hc, ?_⟩
  refine accounted_run ?_ ?_ hs
  · exact hsize
  · exact hfresh

theorem counters_balance_flaky :
    ∃ (c : PageCache HeapStorage ByteArray (Gate FlatMemory)) (h : Hierarchy EmulatedMemory),
      PageCache.create "tier" 4 1 ⟨4⟩
        { inner := .ofSize 11, onRead := .burst 0 1, onWrite := .burst 0 1 } = .ok c ∧
      (run PageCache.call
        [.read 0 3, .write 1 ⟨#[1, 2, 3, 4]⟩, .write 5 ⟨#[9]⟩] c).2.books.lookups = ⟨0, 3, 1, 2⟩ ∧
      (∀ requests, PageCache.Balanced requests c
        (run PageCache.call requests (c.mapBelow Recorded.start)).2
        (run PageCache.call requests c).2) ∧
      ∀ calls, Accounted (Op.history call calls h) (run call calls h).2 := by
  have hv : HeapStorage.Valid False 4 ⟨4⟩ [] :=
    ⟨fun _ hp => absurd hp List.not_mem_nil, False.elim⟩
  have hc : PageCache.create "tier" 4 1 (⟨4⟩ : HeapStorage)
      ({ inner := .ofSize 11, onRead := .burst 0 1, onWrite := .burst 0 1 } : Gate FlatMemory) =
      .ok _ := rfl
  have hf : PageFile.create .vacant threeTiers.maximumSize threeTiers.syncOnFlush = .ok _ := rfl
  have hs : stack threeTiers ({} : EmulatedProvider)
      { bytes := .zeros 11, maximumSize := 11, syncOnFlush := false,
        onRead := .burst 1 1, onWrite := .burst 0 1 } = .ok _ := rfl
  obtain ⟨hbalanced, haccounted⟩ := counters_balance hv hc hf hs
  exact ⟨_, _, hc, by decide +kernel, hbalanced, haccounted⟩

end Balance

end TieredMemory.Hierarchy
