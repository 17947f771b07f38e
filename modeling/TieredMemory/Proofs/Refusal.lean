import TieredMemory.Proofs.Block.Room
import TieredMemory.Proofs.Hierarchy

namespace TieredMemory

theorem TierShape.pos_of_validate {shape : TierShape} {tier : String}
    (h : shape.validate tier = .ok ()) : 0 < shape.pageSize ∧ 0 < shape.pages := by
  rw [validate] at h
  split at h
  · cases h
  · split at h
    · cases h
    · omega

structure Config.Sized (c : Config) : Prop where
  file : 0 < c.maximumSize
  ram : 0 < c.ram.pageSize ∧ 0 < c.ram.pages
  psram : 0 < c.psram.pageSize ∧ 0 < c.psram.pages
  himem : 0 < c.himem.pageSize ∧ 0 < c.himem.pages

theorem Config.sized_of_validate {c : Config} (h : c.validate = .ok ()) : c.Sized := by
  unfold validate at h
  simp only [bind, Except.bind, pure, Except.pure, throw, throwThe, MonadExceptOf.throw] at h
  split at h
  · cases h
  · split at h
    · cases h
    · rename_i hfile
      rcases hram : c.ram.validate "ram" with e | _
      · simp only [hram] at h
        cases h
      rcases hpsram : c.psram.validate "psram" with e | _
      · simp only [hram, hpsram] at h
        cases h
      rcases hhimem : c.himem.validate "himem" with e | _
      · simp only [hram, hpsram, hhimem] at h
        cases h
      exact ⟨Nat.pos_of_ne_zero hfile, TierShape.pos_of_validate hram,
        TierShape.pos_of_validate hpsram, TierShape.pos_of_validate hhimem⟩

namespace Hierarchy

variable {P D : Type} [BlockDevice D] [BlockProvider P D]
variable {config : Config} {provider : P} {place : Location} {file : PageFile} {r : Refusal P D}

def Unbuilt (provider : P) (shape : TierShape) (cause : Error) : Prop :=
  (∃ left, BlockProvider.init provider shape.pageSize shape.pages = .error (cause, left)) ∨
  ∃ d, BlockProvider.init provider shape.pageSize shape.pages = .ok d ∧
    BlockDevice.blockSize d < shape.pageSize ∧ ∃ reason, cause = .invalidBlockSize reason

theorem unbuilt_of_himem {B : Type} [Backend B] {name : String} {shape : TierShape} {below left : B}
    {e : Error} {remains : P ⊕ BlockStorage D} (hshape : 0 < shape.pageSize ∧ 0 < shape.pages)
    (h : PageCache.himem name shape.pageSize shape.pages provider below =
      .error (e, remains, left)) :
    Unbuilt provider shape e ∧ left = below := by
  rw [PageCache.himem, PageCache.overBlocks, Allocator.init] at h
  rcases hinit : BlockProvider.init provider shape.pageSize shape.pages with ⟨cause, handed⟩ | d
  · simp only [hinit, bind, Except.bind] at h
    cases h
    exact ⟨.inl ⟨handed, hinit⟩, rfl⟩
  · simp only [hinit, bind, Except.bind, pure, Except.pure, BlockStorage.ofAllocator] at h
    by_cases hsmall : ({ device := d } : Allocator D).blockSize < shape.pageSize
    · simp only [if_pos hsmall] at h
      cases h
      exact ⟨.inr ⟨d, hinit, hsmall, _, rfl⟩, rfl⟩
    · simp only [if_neg hsmall, PageCache.create, dif_pos hshape.1, dif_pos hshape.2] at h
      cases h

theorem unbuilt_of_stack (hsized : config.Sized) (hs : stack config provider file = .error r) :
    Unbuilt provider config.himem r.cause ∧ r.place = .file file.bytes := by
  rw [stack] at hs
  rcases hh : PageCache.himem "himem" config.himem.pageSize config.himem.pages provider file with
    ⟨e, remains, left⟩ | himem
  · obtain ⟨hunbuilt, rfl⟩ := unbuilt_of_himem hsized.himem hh
    simp only [hh] at hs
    cases hs
    exact ⟨hunbuilt, rfl⟩
  · simp only [hh, PageCache.heap, PageCache.create, dif_pos hsized.psram.1, dif_pos hsized.psram.2,
      dif_pos hsized.ram.1, dif_pos hsized.ram.2] at hs
    cases hs

/-- A refusal that does not come from the file system leaves the location as it was if the
configuration is at fault or its blocks are known to be too many. Otherwise the blocks were not set
up over a file that is there by then, all zeros. Where the set-up itself reports too little memory
the location is left open: that shortage is one to find before the file is touched, and a provider
that answers with room for no block hides it until afterwards. -/
theorem place_of_refusal (hr : create config provider place = .error r)
    (hio : ∀ why, r.cause ≠ .io why) :
    let available := BlockProvider.maximumBlocks provider config.himem.pageSize
    (r.place = place ∧ (config.validate = .error r.cause ∨
      config.validate = .ok () ∧ 0 < available ∧ available < config.himem.pages ∧
        r.cause = .insufficientMemory config.himem.pages available)) ∨
    (config.validate = .ok () ∧ (0 < available → config.himem.pages ≤ available) ∧
      Unbuilt provider config.himem r.cause ∧
      ((∀ requested available, r.cause ≠ .insufficientMemory requested available) →
        r.place = .file (.zeros config.maximumSize))) := by
  intro available
  rw [create] at hr
  rcases hvalid : config.validate with e | _
  · simp only [hvalid] at hr
    cases hr
    exact .inl ⟨rfl, .inl rfl⟩
  · have hsized := Config.sized_of_validate hvalid
    simp only [hvalid] at hr
    split at hr
    · rename_i hshort
      cases hr
      exact .inl ⟨rfl, .inr ⟨rfl, hshort.1, hshort.2, rfl⟩⟩
    · rename_i hroom
      rcases hf : PageFile.create place config.maximumSize config.syncOnFlush with ⟨e, left⟩ | file
      · simp only [hf] at hr
        cases hr
        rcases PageFile.create_eq_error hf with ⟨hzero, -⟩ | ⟨⟨why, rfl⟩, -⟩
        · exact absurd hzero (Nat.ne_of_gt hsized.file)
        · exact absurd rfl (hio why)
      · simp only [hf] at hr
        obtain ⟨hunbuilt, hplace⟩ := unbuilt_of_stack hsized hr
        obtain ⟨-, -, rfl⟩ := PageFile.create_eq_ok_iff.mp hf
        -- the file is there in the case left open too
        exact .inr ⟨rfl, fun hpos => Nat.not_lt.mp fun hlt => hroom ⟨hpos, hlt⟩, hunbuilt,
          fun _ => hplace⟩

def bankedConfig (pageSize pages : Nat) : Config :=
  ⟨"pagefile.bin", 4096, ⟨64, 2⟩, ⟨64, 2⟩, ⟨pageSize, pages⟩, false⟩

theorem place_of_refusal_banked :
    (∃ r, create (bankedConfig 1024 100) (PagedMemory.freshBanks 65536 32768) (.file (.zeros 10)) =
      .error r ∧ r.cause = .insufficientMemory 100 64 ∧ r.place = .file (.zeros 10)) ∧
    ∃ r, create (bankedConfig 1000 2) (PagedMemory.freshBanks 65536 32768) (.file (.zeros 10)) =
      .error r ∧ r.cause = .invalidBlockSize "1000 is not a non-zero multiple of 1024" ∧
      r.place = .file (.zeros 4096) := by
  constructor
  · have hmany : create (bankedConfig 1024 100) (PagedMemory.freshBanks 65536 32768)
      (.file (.zeros 10)) = .error _ := rfl
    refine ⟨_, hmany, rfl, ?_⟩
    rcases place_of_refusal hmany nofun with ⟨hplace, -⟩ | ⟨-, hroom, -⟩
    · exact hplace
    · exact absurd (hroom (by decide)) (by decide)
  · have hodd : create (bankedConfig 1000 2) (PagedMemory.freshBanks 65536 32768)
      (.file (.zeros 10)) = .error _ := rfl
    refine ⟨_, hodd, rfl, ?_⟩
    rcases place_of_refusal hodd nofun with
      ⟨-, hvalid | ⟨-, hpos, -⟩⟩ | ⟨-, -, -, hplace⟩
    · cases hvalid
    · exact absurd hpos (by decide)
    · exact hplace nofun

theorem place_moved_by_refusal :
    ∃ r, create (bankedConfig 1000 2) (PagedMemory.freshBanks 65536 32768) (.file (.zeros 10)) =
        .error r ∧
      r.cause = .invalidBlockSize "1000 is not a non-zero multiple of 1024" ∧
      r.place ≠ .file (.zeros 10) :=
  ⟨_, rfl, rfl, nofun⟩

end Hierarchy

end TieredMemory
