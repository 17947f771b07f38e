import TieredMemory.Backend.Gate
import TieredMemory.Block.Paged
import TieredMemory.Proofs.Page.Leases

namespace TieredMemory

variable {D P B : Type}

class SteadyDevice (D : Type) [BlockDevice D] : Prop where
  maxBlocks_read (block offset length : Nat) (d : D) :
    BlockDevice.maxBlocks (BlockDevice.read block offset length d).2 = BlockDevice.maxBlocks d
  maxBlocks_write (block offset : Nat) (data : ByteArray) (d : D) :
    BlockDevice.maxBlocks (BlockDevice.write block offset data d).2 = BlockDevice.maxBlocks d

structure BlockDevice.NeverFull (D : Type) [BlockDevice D] : Prop where
  read (block offset length : Nat) (d : D) :
    (BlockDevice.read block offset length d).1 ≠ .error .noSpace
  write (block offset : Nat) (data : ByteArray) (d : D) :
    (BlockDevice.write block offset data d).1 ≠ .error .noSpace

section Devices

theorem BlockDevice.checkAccess_ne_noSpace (block maxBlocks blockSize offset length : Nat) :
    checkAccess block maxBlocks blockSize offset length ≠ .error .noSpace := by
  unfold checkAccess
  split
  · nofun
  · split
    · nofun
    · split <;> nofun

instance : SteadyDevice EmulatedMemory where
  maxBlocks_read block offset length m := by
    change (EmulatedMemory.read block offset length m).2.maxBlocks = m.maxBlocks
    unfold EmulatedMemory.read
    split <;> rfl
  maxBlocks_write block offset data m := by
    change (EmulatedMemory.write block offset data m).2.maxBlocks = m.maxBlocks
    unfold EmulatedMemory.write
    split <;> rfl

theorem EmulatedMemory.neverFull : BlockDevice.NeverFull EmulatedMemory where
  read block offset length m := by
    change (EmulatedMemory.read block offset length m).1 ≠ _
    unfold EmulatedMemory.read
    split
    · rename_i e he
      rintro ⟨⟩
      exact BlockDevice.checkAccess_ne_noSpace _ _ _ _ _ he
    · nofun
  write block offset data m := by
    change (EmulatedMemory.write block offset data m).1 ≠ _
    unfold EmulatedMemory.write
    split
    · rename_i e he
      rintro ⟨⟩
      exact BlockDevice.checkAccess_ne_noSpace _ _ _ _ _ he
    · nofun

instance [BlockDevice D] [SteadyDevice D] : SteadyDevice (Clipped D) where
  maxBlocks_read block offset length c := by
    have h := SteadyDevice.maxBlocks_read block offset length c.device
    change BlockDevice.maxBlocks (Clipped.read block offset length c).2.device = _
    rcases he : BlockDevice.read block offset length c.device with ⟨e | a, d⟩
    · rw [he] at h
      simp only [Clipped.read, Clipped.pass, Op.bind_apply_error he]
      exact h
    · rw [he] at h
      simp only [Clipped.read, Clipped.pass, Op.bind_apply_ok he]
      exact h
  maxBlocks_write block offset data c := by
    have h := SteadyDevice.maxBlocks_write block offset data c.device
    change BlockDevice.maxBlocks (Clipped.write block offset data c).2.device = _
    rcases he : BlockDevice.write block offset data c.device with ⟨e | a, d⟩
    · rw [he] at h
      simp only [Clipped.write, Clipped.pass, Op.bind_apply_error he]
      exact h
    · rw [he] at h
      simp only [Clipped.write, Clipped.pass, Op.bind_apply_ok he]
      exact h

namespace PagedMemory

variable [BankSwitch D]

theorem maxBlocks_mapSuperblock (superblock : Nat) (m : PagedMemory D) :
    (mapSuperblock superblock m).2.maxBlocks = m.maxBlocks := by
  unfold mapSuperblock
  dsimp only
  split
  · split <;> rfl
  · split
    · rfl
    · split
      · rfl
      · split <;> rfl

theorem maxBlocks_locate (block : Nat) (m : PagedMemory D) :
    (locate block m).2.maxBlocks = m.maxBlocks := by
  have h := maxBlocks_mapSuperblock (block * m.blockSize / superblockSize) m
  rcases he : mapSuperblock (block * m.blockSize / superblockSize) m with ⟨e | _, t⟩
  · rw [he] at h
    simp only [locate, he]
    exact h
  · rw [he] at h
    simp only [locate, he]
    exact h

instance : SteadyDevice (PagedMemory D) where
  maxBlocks_read block offset length m := by
    have h := maxBlocks_locate block m
    change (PagedMemory.read block offset length m).2.maxBlocks = m.maxBlocks
    unfold PagedMemory.read
    split
    · rfl
    · rcases he : locate block m with ⟨e | start, t⟩
      · rwa [he] at h
      · rwa [he] at h
  maxBlocks_write block offset data m := by
    have h := maxBlocks_locate block m
    change (PagedMemory.write block offset data m).2.maxBlocks = m.maxBlocks
    unfold PagedMemory.write
    split
    · rfl
    · rcases he : locate block m with ⟨e | start, t⟩
      · rwa [he] at h
      · rwa [he] at h

end PagedMemory

end Devices

namespace BlockStorage

variable [BlockDevice D] {allowed : Error → Prop} {capacity total : Nat} {inv : D → Prop}

theorem allocate_error {a a' : Allocator D} {e : Error}
    (h : Allocator.allocate a = (.error e, a')) : e = .noSpace := by
  unfold Allocator.allocate at h
  split at h
  · cases h
  · split at h
    · cases h
    · cases h
      rfl

theorem ends_transfer {α : Type} {op : Op D α} {s : BlockStorage D} {blocks : List Nat}
    (htotal : ∀ d, inv d → BlockDevice.maxBlocks d = total)
    (hop : op.Ends s.allocator.device (fun _ d => inv d) (fun e d => allowed e ∧ inv d))
    (h : Issued s.allocator blocks ∧ inv s.allocator.device) :
    (onAllocator (Allocator.onDevice op)).Ends s
      (fun _ t => Issued t.allocator blocks ∧ inv t.allocator.device)
      (fun e t => allowed e ∧ Issued t.allocator blocks ∧ inv t.allocator.device) := by
  have hkeep : ∀ d, inv d → Issued ({ s.allocator with device := d } : Allocator D) blocks :=
    fun d hd => h.1.withDevice ((htotal d hd).trans (htotal _ h.2).symm)
  rcases hop.cases with ⟨a, d, he, hd⟩ | ⟨e, d, he, hall, hd⟩
  · exact .of_ok (onDevice_apply he) ⟨hkeep d hd, hd⟩
  · exact .of_error (onDevice_apply he) ⟨hall, hkeep d hd, hd⟩

omit [BlockDevice D] in
theorem ends_checkFull (moved length : Nat) (s : BlockStorage D) :
    (Op.ofExcept (checkFull moved length) : Op (BlockStorage D) Unit).Ends s (fun _ t => t = s)
      (fun e t => e = .shortTransfer moved length ∧ t = s) := by
  by_cases h : moved = length
  · apply Op.Ends.of_ok (a := ()) (t := s) _ rfl
    rw [Op.ofExcept, checkFull, if_pos h]
  · apply Op.Ends.of_error _ ⟨rfl, rfl⟩
    rw [Op.ofExcept, checkFull, if_neg h]

theorem maintains (inv : D → Prop) (htotal : ∀ d, inv d → BlockDevice.maxBlocks d = total)
    (hread : ∀ block offset length d, inv d → (BlockDevice.read block offset length).Ends d
      (fun _ t => inv t) (fun e t => allowed e ∧ inv t))
    (hwrite : ∀ block offset data d, inv d → (BlockDevice.write block offset data).Ends d
      (fun _ t => inv t) (fun e t => allowed e ∧ inv t))
    (hshort : ∀ moved length, allowed (.shortTransfer moved length))
    (hspace : ¬ capacity ≤ total → allowed .noSpace) :
    PageStorage.Maintains allowed (capacity ≤ total) capacity
      (fun blocks (s : BlockStorage D) => Issued s.allocator blocks ∧ inv s.allocator.device) where
  perm hp h := ⟨h.1.perm hp, h.2⟩
  acquire {blocks s} h hlen := by
    obtain ⟨hi, hinv⟩ := h
    rcases hi.allocate.cases with ⟨b, a, he, hd, hi'⟩ | ⟨e, a, he, rfl, hfull⟩
    · have hnodup : (b :: (a.freeList ++ blocks)).Nodup := List.nodup_middle.mp hi'.nodup
      apply Op.Ends.of_ok (onAllocator_apply he)
      exact ⟨fun hm => (List.nodup_cons.mp hnodup).1 (List.mem_append_right _ hm), hi', hd ▸ hinv⟩
    · have hnone : ¬ capacity ≤ total := by
        have : s.allocator.maxBlocks = total := htotal _ hinv
        omega
      apply Op.Ends.of_error (onAllocator_apply he)
      exact ⟨allocate_error he ▸ hspace hnone, hnone, hi, hinv⟩
  release {b blocks s} h := by
    obtain ⟨hi, hinv⟩ := h
    rcases hi.free.cases with ⟨_, a, he, hd, hi'⟩ | ⟨_, _, -, hf⟩
    · exact .of_ok (onAllocator_apply he) ⟨hi', hd ▸ hinv⟩
    · exact hf.elim
  read {b blocks s} offset length h := by
    apply (ends_transfer htotal (hread b offset length _ h.2) h).bind
    · rintro ⟨moved, bytes⟩ t ht
      apply (ends_checkFull moved length t).bind
      · rintro _ _ rfl
        exact Op.ends_pure ht
      · rintro _ _ ⟨rfl, rfl⟩
        exact ⟨hshort moved length, ht⟩
    · exact fun _ _ hr => hr
  write {b blocks s} offset data h := by
    have hmoved : (BlockStorage.write b offset data).Ends s
        (fun _ t => Issued t.allocator (b :: blocks) ∧ inv t.allocator.device)
        (fun e t => allowed e ∧ Issued t.allocator (b :: blocks) ∧ inv t.allocator.device) := by
      apply (ends_transfer htotal (hwrite b offset data _ h.2) h).bind
      · intro moved t ht
        apply (ends_checkFull moved data.size t).mono
        · rintro _ _ rfl
          exact ht
        · rintro _ _ ⟨rfl, rfl⟩
          exact ⟨hshort moved data.size, ht⟩
      · exact fun _ _ hr => hr
    rcases hmoved.cases with ⟨_, t, he, hr⟩ | ⟨e, t, he, hall, hr⟩
    · apply Op.Ends.of_ok (a := ()) (t := (b, t))
      · rw [write_apply, he]
      · exact ⟨rfl, hr⟩
    · apply Op.Ends.of_error (e := e) (t := (b, t))
      · rw [write_apply, he]
      · exact ⟨hall, rfl, hr⟩

theorem maintains_issued [SteadyDevice D] (allowed : Error → Prop) (capacity total : Nat)
    (hread : ∀ block offset length (d : D) e,
      (BlockDevice.read block offset length d).1 = .error e → allowed e)
    (hwrite : ∀ block offset data (d : D) e,
      (BlockDevice.write block offset data d).1 = .error e → allowed e)
    (hshort : ∀ moved length, allowed (.shortTransfer moved length))
    (hspace : ¬ capacity ≤ total → allowed .noSpace) :
    PageStorage.Maintains allowed (capacity ≤ total) capacity (fun blocks (s : BlockStorage D) =>
      Issued s.allocator blocks ∧ BlockDevice.maxBlocks s.allocator.device = total) := by
  apply maintains (BlockDevice.maxBlocks · = total) (fun _ hd => hd) _ _ hshort hspace
  · intro block offset length d hd
    apply (Op.ends_of_state (P := fun d => BlockDevice.maxBlocks d = total)
      ((SteadyDevice.maxBlocks_read block offset length d).trans hd)).mono (fun _ _ ht => ht)
    exact fun e t ht => ⟨hread block offset length d e ht.1, ht.2⟩
  · intro block offset data d hd
    apply (Op.ends_of_state (P := fun d => BlockDevice.maxBlocks d = total)
      ((SteadyDevice.maxBlocks_write block offset data d).trans hd)).mono (fun _ _ ht => ht)
    exact fun e t ht => ⟨hwrite block offset data d e ht.1, ht.2⟩

end BlockStorage

namespace PageCache

variable [BlockDevice D]

def freeBlocks (c : PageCache (BlockStorage D) Nat B) : Nat := c.storage.allocator.freeBlocks

def maxBlocks (c : PageCache (BlockStorage D) Nat B) : Nat := c.storage.allocator.maxBlocks

structure Owned (c : PageCache (BlockStorage D) Nat B) : Prop where
  distinct : c.handles.Nodup
  taken : ∀ block ∈ c.handles, block ∉ c.storage.allocator.freeList
  issued : ∀ block ∈ c.handles, block < c.storage.allocator.nextUnused
  balance : c.freeBlocks + c.residentPages = c.maxBlocks

theorem owned_of_issued {c : PageCache (BlockStorage D) Nat B} (hc : c.cache.IsValid)
    (h : BlockStorage.Issued c.storage.allocator c.handles) : Owned c := by
  obtain ⟨-, hdistinct, hapart⟩ := List.nodup_append.mp h.nodup
  refine ⟨hdistinct, fun b hb hf => hapart b hf b hb rfl,
    fun b hb => h.lt b (List.mem_append_right _ hb), ?_⟩
  have hcount : c.residentPages = c.handles.length := by
    rw [handles, List.length_map]
    exact hc.count_eq
  have := h.count
  have := h.le
  rw [freeBlocks, Allocator.freeBlocks, maxBlocks, hcount]
  omega

variable [Backend B]

/-- What becomes of the blocks of `c` in a run of calls, as the same run tells of a tier whose
storage is watched. -/
structure Accounted (c : PageCache (BlockStorage D) Nat B) (calls : List (Call Upkeep)) : Prop where
  owned : Owned (run call calls c).2
  maxBlocks_eq : (run call calls c).2.maxBlocks = c.maxBlocks
  answers : (run call calls c.watch).1 = (run call calls c).1
  storage : (run call calls c.watch).2.storage.inner = (run call calls c).2.storage
  handles : (run call calls c.watch).2.handles = (run call calls c).2.handles
  out : ∃ blocks, Lease.out (run call calls c.watch).2.storage.leases = some blocks ∧
    blocks.Perm (run call calls c).2.handles
  shutdown : ∀ data t, call (.sync .shutdown) (run call calls c).2 = (.ok data, t) →
    t.residentPages = 0 ∧ t.freeBlocks = t.maxBlocks
  granted : c.capacity ≤ c.maxBlocks →
    ∀ lease ∈ (run call calls c.watch).2.storage.leases, ¬ lease.Refused
  spacious : c.capacity ≤ c.maxBlocks → BlockDevice.NeverFull D →
    Backend.Answers B False (· ≠ .noSpace) →
    ∀ answer ∈ (run call calls c).1, answer ≠ .error .noSpace

theorem shutdown_eq_ok {c t : PageCache (BlockStorage D) Nat B} {data : ByteArray}
    (h : call (.sync .shutdown) c = (.ok data, t)) :
    ∃ s, clear c = (.ok (), s) ∧ t.cache = s.cache := by
  rcases hc : clear c with ⟨e | _, s⟩
  · have hop : call (.sync .shutdown) c = (.error e, s) :=
      Op.bind_apply_error (Op.bind_apply_error hc)
    rw [hop] at h
    cases h
  · have hshutdown : (Backend.shutdown : Op (PageCache (BlockStorage D) Nat B) Unit) c =
        onBelow Backend.shutdown s := Op.bind_apply_ok hc
    have hcache : (onBelow (Backend.shutdown : Op B Unit) s).2.cache = s.cache := rfl
    rcases hb : onBelow (Backend.shutdown : Op B Unit) s with ⟨e | _, u⟩
    · have hop : call (.sync .shutdown) c = (.error e, u) :=
        Op.bind_apply_error (hshutdown.trans hb)
      rw [hop] at h
      cases h
    · have hop : call (.sync .shutdown) c = (.ok ByteArray.empty, u) :=
        (Op.bind_apply_ok (hshutdown.trans hb)).trans rfl
      rw [hop] at h
      cases h
      rw [hb] at hcache
      exact ⟨s, rfl, hcache⟩

section Accounts

variable {total pageSize capacity : Nat} {room : Prop} {c : PageCache (BlockStorage D) Nat B}
variable {w : PageCache (Watched (BlockStorage D) Nat) Nat B}

abbrev Out (total : Nat) (blocks : List Nat) (s : BlockStorage D) : Prop :=
  BlockStorage.Issued s.allocator blocks ∧ BlockDevice.maxBlocks s.allocator.device = total

omit [Backend B] in
theorem owned_of_beside (h : Beside pageSize capacity (Watches room (Out total)) w c) :
    Owned c ∧ c.maxBlocks = total := by
  obtain ⟨gs, hgs, hhandles, hw⟩ := h.watches
  have hholds : Out total c.handles c.storage := by
    rw [← hhandles, ← hgs]
    exact hw.holds
  exact ⟨owned_of_issued h.together.right hholds.1, hholds.2⟩

theorem empty_of_shutdown {t : PageCache (BlockStorage D) Nat B} {data : ByteArray}
    (hi : PageStorage.Maintains (fun _ => True) room capacity (Out (D := D) total))
    (h : Beside pageSize capacity (Watches room (Out total)) w c)
    (he : call (.sync .shutdown) c = (.ok data, t)) :
    t.residentPages = 0 ∧ t.freeBlocks = t.maxBlocks := by
  obtain ⟨s, hclear, hcache⟩ := shutdown_eq_ok he
  have hcount : t.residentPages = 0 := by
    rcases (alike_clear (watches_alike hi) (Backend.answers_true B) h).cases with
      ⟨_, w', _, s', -, hs, hnil, hr⟩ | ⟨e, w', s', -, hs, -⟩
    · rw [hclear] at hs
      cases hs
      have hzero : w'.cache.count = 0 := hr.together.left.count_eq.trans (congrArg List.length hnil)
      exact (congrArg (·.count) hcache).trans (hr.count_eq.trans hzero)
    · rw [hclear] at hs
      cases hs
  have hnext := (call_watched hi (Backend.answers_true B) (.sync .shutdown) h).2.2
  rw [he] at hnext
  have hbalance : t.freeBlocks + t.residentPages = t.maxBlocks := (owned_of_beside hnext).1.balance
  exact ⟨hcount, by omega⟩

end Accounts

theorem blocks_accounted_for [BlockProvider P D] [SteadyDevice D] {name : String}
    {pageSize capacity blockSize blocks roomFor : Nat} {provider : P} {below : B}
    {c : PageCache (BlockStorage D) Nat B}
    (h : overBlocks name pageSize capacity blockSize blocks roomFor provider below = .ok c)
    (calls : List (Call Upkeep)) : Accounted c calls := by
  obtain ⟨device, hd, hcreate⟩ := overBlocks_eq_ok h
  obtain ⟨hvalid, hnil, rfl, rfl, hstorage, rfl, -⟩ := create_eq_ok hcreate
  have hissued : BlockStorage.Issued ({ device } : Allocator D) [] :=
    ⟨List.nodup_nil, fun b hb => absurd hb List.not_mem_nil, rfl, Nat.zero_le _⟩
  have hfresh :
      ∀ room, Beside c.pageSize c.capacity (Watches room (Out c.maxBlocks)) c.watch c := by
    intro room
    apply beside_watch hvalid hnil
    refine ⟨?_, rfl⟩
    rw [hstorage]
    exact hissued
  have hi := BlockStorage.maintains_issued (D := D) (fun _ => True) c.capacity c.maxBlocks
    (fun _ _ _ _ _ _ => trivial) (fun _ _ _ _ _ _ => trivial) (fun _ _ => trivial) fun _ => trivial
  obtain ⟨hanswers, -, hend⟩ := run_watched hi (Backend.answers_true B) calls (hfresh _)
  obtain ⟨gs, hgs, hhandles, hw⟩ := hend.watches
  obtain ⟨howned, htotal⟩ := owned_of_beside hend
  refine ⟨howned, htotal, hanswers, hw.same, hhandles, ?_, fun data t => empty_of_shutdown hi hend,
    hw.granted, ?_⟩
  · rw [← hhandles, ← hgs]
    exact hw.out
  -- the same invariant again, now for errors other than `noSpace`
  · intro hroom hfull hbelow answer ha hspace
    have hi := BlockStorage.maintains_issued (D := D) (· ≠ .noSpace) c.capacity c.maxBlocks
      (fun block offset length d e he hs => hfull.read block offset length d (hs ▸ he))
      (fun block offset data d e he hs => hfull.write block offset data d (hs ▸ he))
      (fun _ _ => nofun) (fun hn => absurd hroom hn)
    exact (run_watched hi hbelow calls (hfresh _)).2.1 answer ha .noSpace hspace rfl

def flakyGate : Gate FlatMemory :=
  { inner := .ofSize 64, onRead := .burst 1 1, onWrite := .burst 0 1 }

theorem blocks_accounted_for_scarce_and_spare :
    ∃ scarce spare : PageCache (BlockStorage EmulatedMemory) Nat (Gate FlatMemory),
      overBlocks "tier" 4 3 4 2 4 (⟨64⟩ : EmulatedProvider) flakyGate = .ok scarce ∧
      overBlocks "tier" 4 2 4 3 4 (⟨64⟩ : EmulatedProvider) flakyGate = .ok spare ∧
      (run call
        [.write 0 ⟨#[1]⟩, .read 8 1, .read 8 1, .read 16 1, .sync .shutdown, .sync .shutdown]
          scarce).1.map (·.isOk) = [true, false, true, false, false, true] ∧
      ∀ calls, Accounted scarce calls ∧ Accounted spare calls ∧
        ∀ answer ∈ (run call calls spare).1, answer ≠ .error .noSpace := by
  have hscarce : overBlocks "tier" 4 3 4 2 4 (⟨64⟩ : EmulatedProvider) flakyGate = .ok _ := rfl
  have hspare : overBlocks "tier" 4 2 4 3 4 (⟨64⟩ : EmulatedProvider) flakyGate = .ok _ := rfl
  have hbelow : Backend.Answers (Gate FlatMemory) False (· ≠ .noSpace) :=
    Gate.answers (.of_lawful (fun _ => trivial) fun _ _ _ => nofun) fun _ => nofun
  refine ⟨_, _, hscarce, hspare, by decide +kernel, fun calls => ?_⟩
  have h := blocks_accounted_for hspare calls
  refine ⟨blocks_accounted_for hscarce calls, h, ?_⟩
  exact h.spacious (by decide) EmulatedMemory.neverFull hbelow

end PageCache

end TieredMemory
