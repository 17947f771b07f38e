import TieredMemory.Proofs.Backend.Layers
import TieredMemory.Proofs.Page.Alike
import TieredMemory.Proofs.Page.Tower

namespace TieredMemory

variable {S H B D α : Type}

class PageRoom (S : Type) (H : outParam Type) where
  width : S → Nat
  room : S → H → Nat

class SteadyStorage (S H : Type) [PageStorage S H] [PageContents S H] [LawfulStorage S H]
    [PageRoom S H] : Prop where
  room_eq {pageSize count : Nat} {s : S} {h : H} {hs : List H} :
    LawfulStorage.Valid False pageSize count s (h :: hs) → PageRoom.room s h = PageRoom.width s
  width_acquire {pageSize count : Nat} {s : S} {hs : List H} :
    LawfulStorage.Valid False pageSize count s hs →
    PageRoom.width ((PageStorage.acquire : Op S H) s).2 = PageRoom.width s
  width_release {pageSize count : Nat} {s : S} {h : H} {hs : List H} :
    LawfulStorage.Valid False pageSize count s (h :: hs) →
    PageRoom.width ((PageStorage.release h : Op S Unit) s).2 = PageRoom.width s
  width_read {pageSize count : Nat} {s : S} {h : H} {hs : List H} (offset length : Nat) :
    LawfulStorage.Valid False pageSize count s (h :: hs) →
    PageRoom.width ((PageStorage.read h offset length : Op S ByteArray) s).2 = PageRoom.width s
  width_write {pageSize count : Nat} {s : S} {h : H} {hs : List H} (offset : Nat)
    (data : ByteArray) : LawfulStorage.Valid False pageSize count s (h :: hs) →
    PageRoom.width ((PageStorage.write offset data : Op (H × S) Unit) (h, s)).2.2 = PageRoom.width s

namespace HeapStorage

instance : PageRoom HeapStorage ByteArray where
  width s := s.pageSize
  room _ page := page.size

theorem read_state (page : ByteArray) (offset length : Nat) (s : HeapStorage) :
    (HeapStorage.read page offset length s).2 = s := by
  unfold HeapStorage.read
  split <;> rfl

theorem write_state (page : ByteArray) (offset : Nat) (data : ByteArray) (s : HeapStorage) :
    (HeapStorage.write offset data (page, s)).2.2 = s := by
  rcases checkBounds_cases s.pageSize offset data.size with ⟨hc, -⟩ | ⟨e, hc, -⟩
  · simp only [HeapStorage.write, hc]
  · simp only [HeapStorage.write, hc]

instance : SteadyStorage HeapStorage ByteArray where
  room_eq h := HeapStorage.Valid.size h _ List.mem_cons_self
  width_acquire _ := rfl
  width_release _ := rfl
  width_read offset length _ := congrArg HeapStorage.pageSize (read_state _ offset length _)
  width_write offset data _ := congrArg HeapStorage.pageSize (write_state _ offset data _)

end HeapStorage

namespace BlockStorage

variable [BlockDevice D]

instance : PageRoom (BlockStorage D) Nat where
  width s := s.allocator.blockSize
  room s _ := s.allocator.blockSize

theorem device_allocate (a : Allocator D) : (Allocator.allocate a).2.device = a.device := by
  unfold Allocator.allocate
  split
  · rfl
  · split <;> rfl

theorem device_free (block : Nat) (a : Allocator D) :
    (Allocator.free block a).2.device = a.device := by
  unfold Allocator.free
  split <;> rfl

theorem read_state (block offset length : Nat) (s : BlockStorage D) :
    (BlockStorage.read block offset length s).2.allocator.device =
      (BlockDevice.read block offset length s.allocator.device).2 := by
  rcases he : BlockDevice.read block offset length s.allocator.device with ⟨e | ⟨moved, data⟩, d⟩
  · have hop : onAllocator (Allocator.read block offset length) s =
        (.error e, ⟨{ s.allocator with device := d }⟩) := onDevice_apply he
    rw [BlockStorage.read, Op.bind_apply_error hop]
  · have hop : onAllocator (Allocator.read block offset length) s =
        (.ok (moved, data), ⟨{ s.allocator with device := d }⟩) := onDevice_apply he
    rw [BlockStorage.read, Op.bind_apply_ok hop]
    dsimp only
    rcases checkFull moved length with e | _ <;> rfl

theorem write_state (block offset : Nat) (data : ByteArray) (s : BlockStorage D) :
    (BlockStorage.write block offset data s).2.allocator.device =
      (BlockDevice.write block offset data s.allocator.device).2 := by
  rcases he : BlockDevice.write block offset data s.allocator.device with ⟨e | moved, d⟩
  · have hop : onAllocator (Allocator.write block offset data) s =
        (.error e, ⟨{ s.allocator with device := d }⟩) := onDevice_apply he
    rw [BlockStorage.write, Op.bind_apply_error hop]
  · have hop : onAllocator (Allocator.write block offset data) s =
        (.ok moved, ⟨{ s.allocator with device := d }⟩) := onDevice_apply he
    rw [BlockStorage.write, Op.bind_apply_ok hop]
    rcases checkFull moved data.size with e | _ <;> rfl

variable [BlockContents D] [LawfulDevice D] {d : D}

theorem blockSize_read (block offset length : Nat) (h : LawfulDevice.Valid False d) :
    BlockDevice.blockSize (BlockDevice.read block offset length d).2 = BlockDevice.blockSize d := by
  apply Op.Ends.always (P := fun t => BlockDevice.blockSize t = BlockDevice.blockSize d)
  apply (LawfulDevice.ends_read block offset length h).mono
  · exact fun a t ht => ht.2.1.blockSize
  · exact fun e t ht => ht.2.1.blockSize

theorem blockSize_write (block offset : Nat) (data : ByteArray) (h : LawfulDevice.Valid False d) :
    BlockDevice.blockSize (BlockDevice.write block offset data d).2 = BlockDevice.blockSize d := by
  apply Op.Ends.always (P := fun t => BlockDevice.blockSize t = BlockDevice.blockSize d)
  apply (LawfulDevice.ends_write block offset data h).mono
  · exact fun a t ht => ht.2.2.2.1
  · exact fun e t ht => ht.2.1.blockSize

instance : SteadyStorage (BlockStorage D) Nat where
  room_eq _ := rfl
  width_acquire {_ _ s _} _ := congrArg BlockDevice.blockSize (device_allocate s.allocator)
  width_release {_ _ s block _} _ := congrArg BlockDevice.blockSize (device_free block s.allocator)
  width_read {_ _ s block _} offset length h :=
    (congrArg BlockDevice.blockSize (read_state block offset length s)).trans
      (blockSize_read block offset length (BlockStorage.Valid.device h))
  width_write {_ _ s block _} offset data h :=
    (congrArg BlockDevice.blockSize (write_state block offset data s)).trans
      (blockSize_write block offset data (BlockStorage.Valid.device h))

end BlockStorage

namespace StorageKind

instance rooms : (k : StorageKind) → PageRoom k.Store k.Handle
  | heap => inferInstanceAs (PageRoom HeapStorage ByteArray)
  | emulated => inferInstanceAs (PageRoom (BlockStorage EmulatedMemory) Nat)
  | clipped => inferInstanceAs (PageRoom (BlockStorage (Clipped EmulatedMemory)) Nat)
  | paged =>
    inferInstanceAs (PageRoom (BlockStorage (PagedMemory (Monitored SimulatedBanks))) Nat)

instance steady : (k : StorageKind) → SteadyStorage k.Store k.Handle
  | heap => inferInstanceAs (SteadyStorage HeapStorage ByteArray)
  | emulated => inferInstanceAs (SteadyStorage (BlockStorage EmulatedMemory) Nat)
  | clipped => inferInstanceAs (SteadyStorage (BlockStorage (Clipped EmulatedMemory)) Nat)
  | paged =>
    inferInstanceAs (SteadyStorage (BlockStorage (PagedMemory (Monitored SimulatedBanks))) Nat)

end StorageKind

structure Access where
  room : Nat
  offset : Nat
  length : Nat
  deriving DecidableEq, Repr

structure Surveyed (S : Type) where
  inner : S
  accesses : List Access := []

namespace Surveyed

def note (accesses : List Access) (op : Op S α) : Op (Surveyed S) α := fun w =>
  let (r, inner) := op w.inner
  (r, ⟨inner, w.accesses ++ accesses⟩)

theorem note_apply {op : Op S α} {w : Surveyed S} {answer : Except Error α} {t : S}
    (accesses : List Access) (h : op w.inner = (answer, t)) :
    note accesses op w = (answer, ⟨t, w.accesses ++ accesses⟩) := by
  simp only [note, h]

variable [PageStorage S H] [PageRoom S H]

def read (handle : H) (offset length : Nat) : Op (Surveyed S) ByteArray := fun w =>
  note [⟨PageRoom.room w.inner handle, offset, length⟩] (PageStorage.read handle offset length) w

def write (offset : Nat) (data : ByteArray) : Op (H × Surveyed S) Unit := fun (handle, w) =>
  let access : Access := ⟨PageRoom.room w.inner handle, offset, data.size⟩
  let (r, handle, inner) := (PageStorage.write offset data : Op (H × S) Unit) (handle, w.inner)
  (r, handle, ⟨inner, w.accesses ++ [access]⟩)

instance : PageStorage (Surveyed S) H where
  acquire := note [] PageStorage.acquire
  release handle := note [] (PageStorage.release handle)
  read := read
  write := write
  close := note [] PageStorage.close
  abandon w := { w with inner := PageStorage.abandon w.inner }
  events w := PageStorage.events w.inner

end Surveyed

structure Access.Fits (pageSize width : Nat) (a : Access) : Prop where
  stop_le : a.offset + a.length ≤ pageSize
  room_eq : a.room = width

section Surveys

variable [PageStorage S H] [PageContents S H] [LawfulStorage S H] [PageRoom S H]

structure Surveys (pageSize capacity width : Nat) (gs : List (H × H)) (s : S) (w : Surveyed S) :
    Prop where
  inner : w.inner = s
  same : ∀ g ∈ gs, g.2 = g.1
  valid : LawfulStorage.Valid False pageSize capacity s (gs.map Prod.fst)
  width_eq : PageRoom.width s = width
  fits : ∀ a ∈ w.accesses, a.Fits pageSize width

variable {pageSize capacity width : Nat} {gs gs' : List (H × H)} {g g' : H} {s t : S}
variable {w : Surveyed S}

theorem Surveys.perm (hp : gs.Perm gs') (h : Surveys pageSize capacity width gs s w) :
    Surveys pageSize capacity width gs' s w :=
  ⟨h.inner, fun g hg => h.same g (hp.mem_iff.mpr hg), LawfulStorage.valid_perm (hp.map _) h.valid,
    h.width_eq, h.fits⟩

theorem Surveys.after {accesses : List Access} (h : Surveys pageSize capacity width gs s w)
    (hsame : ∀ g ∈ gs', g.2 = g.1)
    (hvalid : LawfulStorage.Valid False pageSize capacity t (gs'.map Prod.fst))
    (hwidth : PageRoom.width t = PageRoom.width s)
    (hfits : ∀ a ∈ accesses, a.Fits pageSize width) :
    Surveys pageSize capacity width gs' t ⟨t, w.accesses ++ accesses⟩ :=
  ⟨rfl, hsame, hvalid, hwidth.trans h.width_eq, List.forall_mem_append.mpr ⟨h.fits, hfits⟩⟩

variable [SteadyStorage S H]

theorem Surveys.acquire (h : Surveys pageSize capacity width gs s w) :
    (PageStorage.acquire : Op S H).Alike (PageStorage.acquire : Op (Surveyed S) H) s w
      (fun g g' s' w' => Surveys pageSize capacity width ((g, g') :: gs) s' w')
      (fun _ s' w' => True ∧ Surveys pageSize capacity width gs s' w') := by
  obtain rfl := h.inner
  have hwidth := SteadyStorage.width_acquire h.valid
  have hnone : ∀ a ∈ ([] : List Access), a.Fits pageSize width := nofun
  rcases (LawfulStorage.ends_acquire h.valid).cases with ⟨g, t, he, hv, -⟩ | ⟨e, t, he, hv, -⟩
  · rw [he] at hwidth
    apply Op.Alike.of_ok he (Surveyed.note_apply [] he)
    exact h.after (List.forall_mem_cons.mpr ⟨rfl, h.same⟩) hv hwidth hnone
  · rw [he] at hwidth
    apply Op.Alike.of_error he (Surveyed.note_apply [] he)
    exact ⟨trivial, h.after h.same hv hwidth hnone⟩

theorem Surveys.release (h : Surveys pageSize capacity width ((g, g') :: gs) s w) :
    (PageStorage.release g : Op S Unit).Alike (PageStorage.release g' : Op (Surveyed S) Unit) s w
      (fun _ _ s' w' => Surveys pageSize capacity width gs s' w')
      (fun _ s' w' => True ∧ Surveys pageSize capacity width gs s' w') := by
  obtain rfl := h.inner
  obtain ⟨hg, hsame⟩ := List.forall_mem_cons.mp h.same
  obtain rfl : g' = g := hg
  have hwidth := SteadyStorage.width_release h.valid
  rcases (LawfulStorage.ends_release h.valid).cases with ⟨_, t, he, hv, -⟩ | ⟨_, _, -, hf⟩
  · rw [he] at hwidth
    apply Op.Alike.of_ok he (Surveyed.note_apply [] he)
    exact h.after hsame hv hwidth nofun
  · exact hf.elim

theorem Surveys.read {offset length : Nat}
    (h : Surveys pageSize capacity width ((g, g') :: gs) s w) (hin : offset + length ≤ pageSize) :
    (PageStorage.read g offset length : Op S ByteArray).Alike
      (PageStorage.read g' offset length : Op (Surveyed S) ByteArray) s w
      (fun a b s' w' => b = a ∧ Surveys pageSize capacity width ((g, g') :: gs) s' w')
      (fun _ s' w' => True ∧ Surveys pageSize capacity width ((g, g') :: gs) s' w') := by
  obtain rfl := h.inner
  obtain rfl : g' = g := h.same _ List.mem_cons_self
  have hwidth := SteadyStorage.width_read offset length h.valid
  have hroom : PageRoom.room w.inner g' = width := (SteadyStorage.room_eq h.valid).trans h.width_eq
  have hfits : ∀ a ∈ [(⟨PageRoom.room w.inner g', offset, length⟩ : Access)],
      a.Fits pageSize width := List.forall_mem_singleton.mpr ⟨hin, hroom⟩
  rcases (LawfulStorage.ends_read offset length h.valid).cases with
    ⟨data, t, he, hv, -⟩ | ⟨e, t, he, hv, -⟩
  · rw [he] at hwidth
    apply Op.Alike.of_ok he (Surveyed.note_apply _ he)
    exact ⟨rfl, h.after h.same hv hwidth hfits⟩
  · rw [he] at hwidth
    apply Op.Alike.of_error he (Surveyed.note_apply _ he)
    exact ⟨trivial, h.after h.same hv hwidth hfits⟩

theorem Surveys.write {offset : Nat} {data : ByteArray}
    (h : Surveys pageSize capacity width ((g, g') :: gs) s w)
    (hin : offset + data.size ≤ pageSize) :
    (PageStorage.write offset data : Op (H × S) Unit).Alike
      (PageStorage.write offset data : Op (H × Surveyed S) Unit) (g, s) (g', w)
      (fun _ _ x y => Surveys pageSize capacity width ((x.1, y.1) :: gs) x.2 y.2)
      (fun _ x y => True ∧ Surveys pageSize capacity width ((x.1, y.1) :: gs) x.2 y.2) := by
  obtain rfl := h.inner
  obtain ⟨hg, hsame⟩ := List.forall_mem_cons.mp h.same
  obtain rfl : g' = g := hg
  have hwidth := SteadyStorage.width_write offset data h.valid
  have hroom : PageRoom.room w.inner g' = width := (SteadyStorage.room_eq h.valid).trans h.width_eq
  have hfits : ∀ a ∈ [(⟨PageRoom.room w.inner g', offset, data.size⟩ : Access)],
      a.Fits pageSize width := List.forall_mem_singleton.mpr ⟨hin, hroom⟩
  rcases (LawfulStorage.ends_write offset data h.valid).cases with
    ⟨_, ⟨x, t⟩, he, hv, -⟩ | ⟨e, ⟨x, t⟩, he, hv, -⟩
  · rw [he] at hwidth
    apply Op.Alike.of_ok he
    · change Surveyed.write offset data (g', w) = _
      simp only [Surveyed.write, he]
      rfl
    · exact h.after (List.forall_mem_cons.mpr ⟨rfl, hsame⟩) hv hwidth hfits
  · rw [he] at hwidth
    apply Op.Alike.of_error he
    · change Surveyed.write offset data (g', w) = _
      simp only [Surveyed.write, he]
      rfl
    · exact ⟨trivial, h.after (List.forall_mem_cons.mpr ⟨rfl, hsame⟩) hv hwidth hfits⟩

theorem alike_surveyed : PageStorage.Alike True (fun _ => True) pageSize capacity
    (Surveys (S := S) (H := H) pageSize capacity width)
    (fun p gs => Surveys pageSize capacity width (p :: gs)) where
  perm := Surveys.perm
  acquire h _ := h.acquire
  fill h hd := h.write (by rw [Nat.zero_add, hd trivial])
  giveUp h := h.release
  release h := h.release
  read h hin := h.read hin
  write h hin := h.write hin

end Surveys

structure Confined (B : Type) [Backend B] [Contents B] [LawfulBackend B] where
  inner : B
  valid : LawfulBackend.Valid False inner

namespace Confined

variable [Backend B] [Contents B] [LawfulBackend B]

def lift (op : Op B α)
    (h : ∀ b, LawfulBackend.Valid False b → LawfulBackend.Valid False (op b).2) :
    Op (Confined B) α := fun b => ((op b.inner).1, ⟨(op b.inner).2, h b.inner b.valid⟩)

instance : Backend (Confined B) where
  read address length :=
    lift (Backend.read address length) fun _ h => (LawfulBackend.kept_read address length h).1
  write address data :=
    lift (Backend.write address data) fun _ h => LawfulBackend.valid_write address data h
  flush := lift Backend.flush fun _ h => (LawfulBackend.kept_flush h).1
  shutdown := lift Backend.shutdown fun _ h => (LawfulBackend.kept_shutdown h).1
  capacity b := Backend.capacity b.inner
  events b := Backend.events b.inner

theorem hom_inner : Backend.Hom (inner : Confined B → B) where
  read _ _ _ := rfl
  write _ _ _ := rfl
  flush _ := rfl
  shutdown _ := rfl
  capacity _ := rfl
  events _ := rfl

theorem answers : Backend.Answers (Confined B) True fun _ => True where
  read address length b := by
    have hread : (Backend.read address length).Ends b.inner
        (fun data _ => True → data.size = length) (fun _ _ => True) := by
      apply (LawfulBackend.ends_read address length b.valid).mono
      · exact fun data t ht _ => ht.2.2.2.1
      · exact fun _ _ _ => trivial
    exact (hom_inner.read address length).ends hread
  write _ _ b := Op.ends_true _ b
  flush b := Op.ends_true _ b
  shutdown b := Op.ends_true _ b
  range _ _ _ := trivial

end Confined

namespace PageCache

open Recency

def survey (c : PageCache S H B) : PageCache (Surveyed S) H B :=
  let p := c.pager
  let pager : Pager (Surveyed S) B :=
    ⟨p.name, p.pageSize, p.pageSize_pos, ⟨p.storage, []⟩, p.below, p.writeBacks, p.events⟩
  ⟨c.cache, pager, c.capacity, c.capacity_pos⟩

variable [PageStorage S H] [PageContents S H] [LawfulStorage S H] [PageRoom S H]
variable [Backend B] [Contents B] [LawfulBackend B]
variable {pageSize : Nat} {c : PageCache S H B}

def confine (c : PageCache S H B) (h : LawfulBackend.Valid False c.below) :
    PageCache S H (Confined B) :=
  c.mapBelow fun _ => ⟨c.below, h⟩

theorem beside_survey (h : c.Valid False pageSize) :
    Beside pageSize c.capacity (Surveys pageSize c.capacity (PageRoom.width c.storage))
      (c.confine h.coherent.below) (c.confine h.coherent.below).survey := by
  let twice : Ledger (Page H × Page H) := c.cache.ledger.map fun v => (v, v)
  have hmap : ∀ f : Page H × Page H → Page H, (∀ v, f (v, v) = v) →
      c.cache.ledger = twice.map f := by
    intro f hf
    simp [twice, Ledger.map, Function.comp_def, hf]
  have hkeys : twice.entries.map Prod.fst = c.cache.toList.map Prod.fst :=
    Ledger.keys_map (fun v => (v, v)) c.cache.toList
  have hpages : twice.entries.map (fun e => (e.2.1.handle, e.2.2.handle)) =
      c.cache.toList.map fun e => (e.2.handle, e.2.handle) := List.map_map
  refine ⟨⟨h.cache, h.cache, twice, hmap Prod.fst fun _ => rfl, hmap Prod.snd fun _ => rfl,
    hkeys ▸ h.coherent.nodup, ?_⟩, rfl, rfl⟩
  refine ⟨⟨h.coherent.pageSize_eq, h.coherent.pageSize_eq, rfl, rfl⟩, ?_, ?_, ?_⟩
  · exact Nat.le_trans (Nat.le_of_eq (List.length_map _)) h.room
  · intro e he
    obtain ⟨⟨number, page⟩, hm, rfl⟩ := List.mem_map.mp he
    refine ⟨rfl, fun r hr => ?_⟩
    rw [← h.coherent.pageSize_eq]
    exact ((h.coherent.agrees _ hm).inside r hr).1
  · rw [hpages]
    refine ⟨rfl, ?_, ?_, rfl, List.forall_mem_nil _⟩
    · intro g hg
      obtain ⟨e, -, rfl⟩ := List.mem_map.mp hg
      rfl
    · rw [List.map_map]
      exact h.coherent.storage

variable [SteadyStorage S H]

theorem survey_call (h : c.Valid False pageSize) (request : Call Upkeep) :
    (call request c.survey).1 = (call request c).1 ∧
      (call request c.survey).2.storage.inner = (call request c).2.storage ∧
      ∀ a ∈ (call request c.survey).2.storage.accesses,
        a.Fits pageSize (PageRoom.width c.storage) := by
  have hcall := alike_call (alike_surveyed (S := S) (H := H)) Confined.answers request
    (beside_survey h)
  obtain ⟨hanswer, hbeside⟩ := (hcall.mono (fun _ _ _ _ hr => hr) fun _ _ _ hr => hr.2).always
  -- what happens over the confined store happens over the store itself
  have hplain := commutes_call Confined.hom_inner request (c.confine h.coherent.below)
  have hsurvey := commutes_call Confined.hom_inner request (c.confine h.coherent.below).survey
  change call request c = _ at hplain
  change call request c.survey = _ at hsurvey
  rw [hplain, hsurvey]
  obtain ⟨m, hm⟩ := hbeside.together.ledgers
  have hstorage := hm.holds.storage
  exact ⟨hanswer, hstorage.inner, hstorage.fits⟩

end PageCache

end TieredMemory
