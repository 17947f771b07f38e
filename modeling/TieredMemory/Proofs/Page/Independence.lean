import TieredMemory.Backend.Gate
import TieredMemory.Proofs.Block.Paged
import TieredMemory.Proofs.Backend.Transcript
import TieredMemory.Proofs.Block.Replay
import TieredMemory.Proofs.Page.Alike

namespace TieredMemory

variable {S S' H H' B : Type}

theorem Bytes.overlay_congr {offset limit : Nat} {data : ByteArray} {f g : Nat → UInt8}
    (h : ∀ i < limit, ¬ (offset ≤ i ∧ i < offset + data.size) → g i = f i) :
    ∀ i < limit, overlay offset data g i = overlay offset data f i := by
  intro i hi
  rw [overlay, overlay]
  split
  · rfl
  · exact h i hi ‹_›

section Storages

variable [PageStorage S H] [PageContents S H] [LawfulStorage S H]
variable [PageStorage S' H'] [PageContents S' H'] [LawfulStorage S' H']
variable {pageSize capacity : Nat} {fresh gs : List (H × H')} {s : S} {t : S'}

structure SameBytes (pageSize capacity : Nat) (fresh gs : List (H × H')) (s : S) (t : S') :
    Prop where
  left : LawfulStorage.Valid True pageSize capacity s ((fresh ++ gs).map Prod.fst)
  right : LawfulStorage.Valid True pageSize capacity t ((fresh ++ gs).map Prod.snd)
  bytes : ∀ g ∈ gs, ∀ i < pageSize, PageContents.byteAt t g.2 i = PageContents.byteAt s g.1 i

theorem SameBytes.bytes_of_same {s' : S} {t' : S'} (h : SameBytes pageSize capacity fresh gs s t)
    (hs : SamePages s s' (gs.map Prod.fst)) (ht : SamePages t t' (gs.map Prod.snd)) :
    ∀ g ∈ gs, ∀ i < pageSize, PageContents.byteAt t' g.2 i = PageContents.byteAt s' g.1 i := by
  intro g hg i hi
  rw [hs _ (List.mem_map_of_mem hg), ht _ (List.mem_map_of_mem hg)]
  exact h.bytes g hg i hi

theorem sameBytes_alike :
    PageStorage.Alike True (fun _ => True) pageSize capacity
      (SameBytes pageSize capacity [] : List (H × H') → S → S' → Prop)
      (fun g => SameBytes pageSize capacity [g]) where
  perm hp h :=
    ⟨LawfulStorage.valid_perm (hp.map _) h.left, LawfulStorage.valid_perm (hp.map _) h.right,
    fun g hg => h.bytes g (hp.mem_iff.mpr hg)⟩
  acquire {gs s t} h hroom := by
    apply (Op.Alike.of_ends (LawfulStorage.ends_acquire h.left) (LawfulStorage.ends_acquire h.right)
      _ _).mono
    · rintro g g' s' t' ⟨⟨hv, hs⟩, hv', ht⟩
      exact ⟨hv, hv', h.bytes_of_same hs ht⟩
    · exact fun e s' t' hr => hr
    · rintro e s' ⟨-, -, hn⟩
      exact hn ⟨trivial, by rwa [List.nil_append, List.length_map]⟩
    · rintro e t' ⟨-, -, hn⟩
      exact hn ⟨trivial, by rwa [List.nil_append, List.length_map]⟩
  fill {g g' gs s t data} h hsize := by
    have hsize : data.size = pageSize := hsize trivial
    apply (Op.Alike.of_ends (LawfulStorage.ends_write 0 data h.left)
      (LawfulStorage.ends_write 0 data h.right) _ _).mono
    · rintro _ _ ⟨g₁, s'⟩ ⟨g₂, t'⟩ ⟨⟨hv, hs, hw⟩, hv', ht, hw'⟩
      refine ⟨hv, hv', List.forall_mem_cons.mpr ⟨?_, h.bytes_of_same hs ht⟩⟩
      simp only at hw hw' ⊢
      rw [hw, hw']
      apply Bytes.overlay_congr
      -- the write covers the whole page, so what the page was before does not matter
      intro i hi hout
      exact absurd ⟨Nat.zero_le i, by omega⟩ hout
    · exact fun e x y hr => hr
    · rintro e x ⟨-, -, -, hn⟩
      exact hn ⟨trivial, by omega⟩
    · rintro e y ⟨-, -, -, hn⟩
      exact hn ⟨trivial, by omega⟩
  giveUp {g g' gs s t} h := by
    apply (Op.Alike.of_ends (LawfulStorage.ends_release h.left) (LawfulStorage.ends_release h.right)
      (fun _ _ hf => hf) fun _ _ hf => hf).mono
    · rintro _ _ s' t' ⟨⟨hv, hs⟩, hv', ht⟩
      exact ⟨hv, hv', h.bytes_of_same hs ht⟩
    · exact fun e s' t' hr => hr
  release {g g' gs s t} h := by
    have hrest := (List.forall_mem_cons.mp h.bytes).2
    apply (Op.Alike.of_ends (LawfulStorage.ends_release h.left) (LawfulStorage.ends_release h.right)
      (fun _ _ hf => hf) fun _ _ hf => hf).mono
    · rintro _ _ s' t' ⟨⟨hv, hs⟩, hv', ht⟩
      refine ⟨hv, hv', ?_⟩
      intro g hg i hi
      rw [hs _ (List.mem_map_of_mem hg), ht _ (List.mem_map_of_mem hg)]
      exact hrest g hg i hi
    · exact fun e s' t' hr => hr
  read {g g' gs s t offset length} h hin := by
    apply (Op.Alike.of_ends (LawfulStorage.ends_read offset length h.left)
      (LawfulStorage.ends_read offset length h.right) _ _).mono
    · rintro a b s' t' ⟨⟨hv, hs, ha⟩, hv', ht, hb⟩
      refine ⟨?_, hv, hv', h.bytes_of_same hs ht⟩
      apply hb.eq
      refine ⟨ha.1, fun i hi => (ha.2 i hi).trans ?_⟩
      exact (h.bytes _ List.mem_cons_self _ (by omega)).symm
    · exact fun e s' t' hr => hr
    · rintro e s' ⟨-, -, hn⟩
      exact hn ⟨trivial, hin⟩
    · rintro e t' ⟨-, -, hn⟩
      exact hn ⟨trivial, hin⟩
  write {g g' gs s t offset data} h hin := by
    obtain ⟨hpage, hrest⟩ := List.forall_mem_cons.mp h.bytes
    apply (Op.Alike.of_ends (LawfulStorage.ends_write offset data h.left)
      (LawfulStorage.ends_write offset data h.right) _ _).mono
    · rintro _ _ ⟨g₁, s'⟩ ⟨g₂, t'⟩ ⟨⟨hv, hs, hw⟩, hv', ht, hw'⟩
      refine ⟨hv, hv', List.forall_mem_cons.mpr ⟨?_, ?_⟩⟩
      · simp only at hw hw' ⊢
        rw [hw, hw']
        exact Bytes.overlay_congr fun i hi _ => hpage i hi
      · intro g hg i hi
        rw [hs _ (List.mem_map_of_mem hg), ht _ (List.mem_map_of_mem hg)]
        exact hrest g hg i hi
    · exact fun e x y hr => hr
    · rintro e x ⟨-, -, -, hn⟩
      exact hn ⟨trivial, hin⟩
    · rintro e y ⟨-, -, -, hn⟩
      exact hn ⟨trivial, hin⟩

end Storages

namespace PageCache

structure Outline (B : Type) where
  residentPages : Nat
  isResident : Nat → Bool
  dirtyRange? : Nat → Option DirtyRange
  stats : CacheStats
  below : B

def outline (c : PageCache S H B) : Outline B where
  residentPages := c.residentPages
  isResident := c.isResident
  dirtyRange? := c.dirtyRange?
  stats := c.stats
  below := c.below

variable {pageSize capacity : Nat} {c : PageCache S H B} {d : PageCache S' H' B}

theorem Beside.outline_eq {Used : List (H × H') → S → S' → Prop}
    (h : Beside pageSize capacity Used c d) : d.outline = c.outline := by
  have hresident : d.isResident = c.isResident := funext h.contains_eq
  have hdirty : d.dirtyRange? = c.dirtyRange? := funext h.dirtyRange?_eq
  have hcount : d.residentPages = c.residentPages := h.count_eq
  have hbelow : d.below = c.below := h.level.below
  rw [outline, outline, hresident, hdirty, hcount, hbelow, h.stats_eq]

variable [PageStorage S H] [PageContents S H] [LawfulStorage S H]
variable [PageStorage S' H'] [PageContents S' H'] [LawfulStorage S' H'] [Backend B]

theorem dismantle_alike (hb : Backend.Answers B True fun _ => True)
    (h : Beside pageSize capacity (SameBytes pageSize capacity []) c d) :
    d.dismantle.1 = c.dismantle.1 ∧ d.dismantle.2.below = c.dismantle.2.below := by
  rcases (alike_clear sameBytes_alike hb h).cases with
    ⟨_, c', _, d', hc, hd, hnil, hr⟩ | ⟨e, c', d', hc, hd, -, hr⟩
  -- no page is resident any more, so the storages are closed with no handle in use
  · have hs := hr.storage_of_empty hnil
    have hclose : (PageStorage.close : Op S Unit).Alike PageStorage.close c'.storage d'.storage
        (fun _ _ _ _ => True) (fun _ _ _ => True) :=
      (Op.Alike.of_ends (LawfulStorage.ends_close hs.left) (LawfulStorage.ends_close hs.right)
        (fun _ _ hn => hn trivial) fun _ _ hn => hn trivial).mono (fun _ _ _ _ hr => hr.1)
        fun _ _ _ hr => hr
    rw [dismantle, dismantle, hc, hd]
    rcases (Pager.alike_onStorage hr.level hclose).cases with
      ⟨_, p, _, q, hp, hq, hl, -⟩ | ⟨e, p, q, hp, hq, hl, -⟩
    · simp only [hp, hq, true_and]
      exact hl.below
    · simp only [hp, hq, true_and]
      exact hl.below
  · rw [dismantle, dismantle, hc, hd]
    exact ⟨rfl, hr.level.below⟩

theorem simulates_beside (hexact : Backend.Answers B True fun _ => True) :
    Simulates (call : Call Upkeep → Op (PageCache S H (Transcript B)) ByteArray)
      (call : Call Upkeep → Op (PageCache S' H' (Transcript B)) ByteArray)
      (Beside pageSize capacity (SameBytes pageSize capacity [])) := by
  intro request c d h
  have hcall := ((alike_call sameBytes_alike (Transcript.answers hexact) request h).mono
    (fun _ _ _ _ hok => hok) fun _ _ _ hbad => hbad.2).always
  exact ⟨hcall.1.symm, hcall.2⟩

section Blocks

variable {P D : Type} [BlockProvider P D] [BlockDevice D] [BlockContents D] [LawfulDevice D]
variable [LawfulProvider P D] {name : String} {blockSize blocks roomFor : Nat} {provider : P}

theorem beside_heap {below : B} {c : PageCache (BlockStorage D) Nat B}
    (hready : LawfulProvider.Ready True provider) (hsize : pageSize ≤ blockSize)
    (hcount : capacity ≤ blocks)
    (hc : overBlocks name pageSize capacity blockSize blocks roomFor provider below = .ok c) :
    ∃ h, heap name pageSize capacity below = .ok h ∧
      Beside pageSize capacity (SameBytes pageSize capacity []) c h := by
  obtain ⟨device, hd, hcreate⟩ := overBlocks_eq_ok hc
  obtain ⟨-, -, -, rfl, -, -, hpos⟩ := create_eq_ok hcreate
  obtain ⟨hv, hblock, hblocks⟩ := LawfulProvider.valid_of_init hready
    (fun _ => Nat.lt_of_lt_of_le hpos hcount) hd
  obtain ⟨h, hh⟩ := exists_create (H := ByteArray) name (⟨c.pageSize⟩ : HeapStorage) below
    c.pager.pageSize_pos hpos
  have hstorage : SameBytes c.pageSize capacity [] [] (⟨{ device }⟩ : BlockStorage D)
      (⟨c.pageSize⟩ : HeapStorage) := by
    refine ⟨?_, ⟨fun _ hp => absurd hp List.not_mem_nil, fun _ => Nat.le_refl _⟩,
      fun _ hg => absurd hg List.not_mem_nil⟩
    apply BlockStorage.valid_fresh hv
    rw [hblock, hblocks]
    exact fun _ => ⟨hsize, hcount⟩
  exact ⟨h, hh, beside_create hstorage hcreate hh⟩

/-- A tier over blocks that hold a page each is a tier over buffers, in all that it answers, shows
and asks of the store below. The store may fail at any call. -/
theorem storage_independent {below : B} {c : PageCache (BlockStorage D) Nat (Transcript B)}
    (hexact : Backend.Answers B True fun _ => True) (hready : LawfulProvider.Ready True provider)
    (hsize : pageSize ≤ blockSize) (hcount : capacity ≤ blocks)
    (hc : overBlocks name pageSize capacity blockSize blocks roomFor provider
      (Transcript.start below) = .ok c) :
    ∃ h, heap name pageSize capacity (Transcript.start below) = .ok h ∧
      ∀ calls : List (Call Upkeep),
        (Op.history call calls c).map (Step.mapState outline) =
            (Op.history call calls h).map (Step.mapState outline) ∧
          (run call calls c).2.dismantle.1 = (run call calls h).2.dismantle.1 ∧
          (run call calls c).2.dismantle.2.below = (run call calls h).2.dismantle.2.below := by
  obtain ⟨h, hh, hr⟩ := beside_heap hready hsize hcount hc
  have hsim : Simulates (call : Call Upkeep → Op (PageCache (BlockStorage D) Nat (Transcript B)) _)
      (call : Call Upkeep → Op (PageCache HeapStorage ByteArray (Transcript B)) ByteArray)
      (Beside pageSize capacity (SameBytes pageSize capacity [])) :=
    simulates_beside hexact
  refine ⟨h, hh, fun calls => ⟨?_, ?_⟩⟩
  · apply Op.map_history_eq _ calls hr
    intro request c h hr
    obtain ⟨ha, hnext⟩ := hsim request c h hr
    refine ⟨?_, hnext⟩
    simp only [Step.mapState, ha, hr.outline_eq, hnext.outline_eq]
  · obtain ⟨ha, hb⟩ := dismantle_alike (Transcript.answers hexact) (hsim.run calls hr).2
    exact ⟨ha.symm, hb.symm⟩

def flakyStore : Gate FlatMemory :=
  { inner := .ofSize 4096, onRead := .burst 1 1, onWrite := .burst 0 1 }

def sparedBanks : PagedProvider (Monitored SimulatedBanks) :=
  ⟨{ driver := { physicalSize := 65536, reservedSize := 32768 } }⟩

theorem exists_init_sparedBanks : ∃ m, BlockProvider.init sparedBanks 1024 3 = .ok m :=
  PagedMemory.init_of_spares rfl (by decide) (by decide) rfl rfl ⟨by decide, by decide⟩

theorem storage_independent_flaky :
    ∃ (b : PageCache (BlockStorage EmulatedMemory) Nat (Transcript (Gate FlatMemory)))
      (p : PageCache (BlockStorage (PagedMemory (Monitored SimulatedBanks))) Nat _)
      (h : PageCache HeapStorage ByteArray _),
      overBlocks "tier" 1000 2 1024 3 1000 (⟨8192⟩ : EmulatedProvider) (.start flakyStore) = .ok b ∧
      overBlocks "tier" 1000 2 1024 3 1000 sparedBanks (.start flakyStore) = .ok p ∧
      heap "tier" 1000 2 (.start flakyStore) = .ok h ∧
      ∀ calls : List (Call Upkeep),
        (Op.history call calls b).map (Step.mapState outline) =
          (Op.history call calls h).map (Step.mapState outline) ∧
        (Op.history call calls p).map (Step.mapState outline) =
          (Op.history call calls h).map (Step.mapState outline) := by
  have hexact : Backend.Answers (Gate FlatMemory) True fun _ => True :=
    Gate.answers (.of_lawful (fun _ => trivial) fun _ _ _ => trivial) fun _ => trivial
  have hquiet : LawfulProvider.Ready True sparedBanks :=
    ⟨trivial, fun _ => ⟨fun _ => rfl, fun _ => rfl, fun _ => rfl, fun _ => rfl⟩⟩
  have hemulated : BlockProvider.init (⟨8192⟩ : EmulatedProvider) 1024 3 =
      .ok ⟨.zeros 3072, 1024, 3⟩ := rfl
  obtain ⟨m, hm⟩ := exists_init_sparedBanks
  have hsize : BlockDevice.blockSize m = 1024 :=
    (LawfulProvider.valid_of_init hquiet (fun _ => by decide) hm).2.1
  obtain ⟨b, hb⟩ := exists_overBlocks "tier" 1000 2 1000 (Transcript.start flakyStore) hemulated
    (by decide) (by decide) (by decide)
  obtain ⟨p, hp⟩ := exists_overBlocks "tier" 1000 2 1000 (Transcript.start flakyStore) hm (by omega)
    (by decide) (by decide)
  obtain ⟨h, hh, hheap⟩ := storage_independent hexact trivial (by decide) (by decide) hb
  obtain ⟨h', hh', hheap'⟩ := storage_independent hexact hquiet (by decide) (by decide) hp
  obtain rfl : h' = h := Except.ok.inj (hh'.symm.trans hh)
  exact ⟨b, p, h', hb, hp, hh, fun calls => ⟨(hheap calls).1, (hheap' calls).1⟩⟩

end Blocks

end PageCache

end TieredMemory
