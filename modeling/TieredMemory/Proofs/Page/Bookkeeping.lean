import TieredMemory.Proofs.Backend.Service
import TieredMemory.Proofs.Page.Books

namespace TieredMemory

theorem Backend.Serves.steady {B : Type} [Backend B] {limit : Nat} {bad : Error → Prop}
    {I : B → Prop} (h : Backend.Serves limit bad I) (sure : Prop) (pageSize : Nat) :
    Steady sure pageSize (some limit) bad fun b => I b.below where
  capacity b _ hb hl := Option.some.inj hl ▸ h.capacity b.below hb
  write b address data hb hr := h.write b.below address data hb (hr limit rfl)
  read b address length hb hr _ :=
    (h.read b.below address length hb (hr limit rfl)).mono (fun _ _ ht => ⟨ht, fun _ => ht⟩)
      fun _ _ ht => ht
  skip _ _ hl := nomatch hl
  miss _ hb := hb
  hit _ hb := hb
  evict _ hb _ := hb
  flush b hb := h.flush b.below hb
  shutdown b hb := h.shutdown b.below hb

namespace PageCache

open Residents Pager Recency

variable {S H B C α : Type}

def books (c : PageCache S H B) : Books B :=
  ⟨c.residentPages, c.cache.lookups, c.pager.writeBacks, c.below⟩

variable [PageStorage S H] [PageContents S H] [LawfulStorage S H]

structure Blank (sure : Prop) (pageSize : Nat) (c : PageCache S H B) : Prop where
  cache : c.cache.IsValid
  nil : c.cache.toList = []
  pageSize_eq : c.pageSize = pageSize
  storage : LawfulStorage.Valid sure pageSize c.capacity c.storage ([] : List H)
  lookups : c.cache.lookups = {}
  writeBacks : c.pager.writeBacks = {}

theorem Blank.mapBelow {sure : Prop} {pageSize : Nat} {c : PageCache S H B}
    (h : c.Blank sure pageSize) (f : B → C) : (c.mapBelow f).Blank sure pageSize :=
  ⟨h.cache, h.nil, h.pageSize_eq, h.storage, h.lookups, h.writeBacks⟩

theorem Blank.books_eq {sure : Prop} {pageSize : Nat} {c : PageCache S H B}
    (h : c.Blank sure pageSize) : c.books = ⟨0, {}, {}, c.below⟩ := by
  have hcount : c.residentPages = 0 := h.cache.count_eq.trans (congrArg List.length h.nil)
  rw [books, hcount, h.lookups, h.writeBacks]

variable [Backend B]

theorem blank_create {sure : Prop} {name : String} {pageSize capacity : Nat} {storage : S}
    {below : B} {c : PageCache S H B}
    (hs : LawfulStorage.Valid sure pageSize capacity storage ([] : List H))
    (h : create name pageSize capacity storage below = .ok c) : c.Blank sure pageSize := by
  have hzero : c.cache.lookups = {} ∧ c.pager.writeBacks = {} := by
    rw [create] at h
    split at h
    · split at h
      · cases h
        exact ⟨rfl, rfl⟩
      · cases h
    · cases h
  obtain ⟨hcache, hnil, rfl, rfl, rfl, rfl, -⟩ := create_eq_ok h
  exact ⟨hcache, hnil, rfl, hs, hzero.1, hzero.2⟩

variable {sure : Prop} {pageSize number : Nat} {limit : Option Nat} {bad : Error → Prop}
variable {K : Books B → Prop} {c : PageCache S H B}

structure Tended (sure : Prop) (pageSize : Nat) (limit : Option Nat) (K : Books B → Prop)
    (c : PageCache S H B) : Prop where
  cache : c.cache.IsValid
  ledger : Ledger.Tended sure pageSize c.capacity limit K (c.cache.ledger, c.pager)

omit [Backend B] in
theorem Tended.books (h : Tended sure pageSize limit K c) : K c.books := by
  rw [PageCache.books, residentPages, h.cache.count_eq]
  exact h.ledger.books

omit [Backend B] in
theorem Blank.tended (h : c.Blank sure pageSize) (hk : K c.books) :
    Tended sure pageSize limit K c := by
  refine ⟨h.cache, ⟨h.pageSize_eq, ?_, ?_⟩, ?_, ?_⟩
  · change (c.cache.toList.map Prod.fst).Nodup
    rw [h.nil]
    exact List.nodup_nil
  · change LawfulStorage.Valid sure pageSize c.capacity c.storage
      (Residents.handles c.cache.toList)
    rw [h.nil]
    exact h.storage
  · change ∀ e ∈ c.cache.toList, Covered limit pageSize e
    rw [h.nil]
    exact fun e he => absurd he List.not_mem_nil
  · rw [PageCache.books, residentPages, h.cache.count_eq] at hk
    exact hk

section Uses

variable {count : Nat}

omit [Backend B] in
theorem minds_readPage (hstorage : PageStorage.Blames S bad) (offset length : Nat) :
    Ledger.Minds sure pageSize count limit bad number
      (Pager.readPage offset length : Op (Page H × Pager S B) ByteArray) := by
  intro page rest p hs hc
  have hread := LawfulStorage.ends_read offset length hs.storage
  have hself := Op.ends_self (PageStorage.read page.handle offset length) p.storage
  rcases (ends_onStorage hself).cases with
    ⟨data, t, he, ha, het⟩ | ⟨e, t, he, ha, het⟩
  · apply Op.Ends.of_ok (a := data) (t := (page, t))
    · simp only [Pager.readPage, he]
    · exact ⟨hs.keep ha.pageSize (hread.ok_of_eq het).1, hc, ha⟩
  · apply Op.Ends.of_error (e := e) (t := (page, t))
    · simp only [Pager.readPage, he]
    · exact ⟨⟨hs.keep ha.pageSize (hread.error_of_eq het).1, hc, ha⟩, hstorage.read het⟩

omit [Backend B] in
theorem minds_writePage (hstorage : PageStorage.Blames S bad) {offset : Nat} {data : ByteArray}
    (hin : offset + data.size ≤ pageSize)
    (hr : Under limit (number * pageSize + (offset + data.size))) :
    Ledger.Minds sure pageSize count limit bad number
      (Pager.writePage offset data : Op (Page H × Pager S B) Unit) := by
  intro page rest p hs hc
  have hwrite := LawfulStorage.ends_write offset data hs.storage
  have hself := Op.ends_self (PageStorage.write offset data) (page.handle, p.storage)
  rcases (ends_onHandle hself).cases with
    ⟨_, ⟨handle, t⟩, he, ha, het⟩ | ⟨e, ⟨handle, t⟩, he, ha, het⟩
  · apply Op.Ends.of_ok (a := ())
      (t := ({ handle, dirty := some (.cover page.dirty offset data.size) }, t))
    · simp only [Pager.writePage, he]
      rfl
    · refine ⟨hs.renew ha.pageSize (hwrite.ok_of_eq het).1, ?_, ha⟩
      rintro _ ⟨rfl⟩
      change (DirtyRange.cover page.dirty offset data.size).stop ≤ pageSize ∧ ∀ l, limit = some l →
        number * pageSize + (DirtyRange.cover page.dirty offset data.size).stop ≤ l
      cases hd : page.dirty with
      | none => exact ⟨hin, hr⟩
      | some r =>
        -- the hull of two ranges ends where one of them does
        obtain ⟨hstop, hunder⟩ := hc r hd
        change r.stop ≤ pageSize at hstop
        rw [DirtyRange.cover, DirtyRange.stop_union]
        refine ⟨Nat.max_le.mpr ⟨hstop, hin⟩, fun l hl => ?_⟩
        have hnew := hr l hl
        have hold : number * pageSize + r.stop ≤ l := hunder l hl
        omega
  · apply Op.Ends.of_error (e := e) (t := ({ page with handle }, t))
    · simp only [Pager.writePage, he]
    · exact ⟨⟨hs.renew ha.pageSize (hwrite.error_of_eq het).1, hc, ha⟩, hstorage.write het⟩

end Uses

section Steps

theorem ends_touch_tended (h : Steady sure pageSize limit bad K)
    (hstorage : PageStorage.Blames S bad) {use : Op (Page H × Pager S B) α}
    (hn : ∀ l, limit = some l → number * pageSize < l)
    (huse : Ledger.Minds sure pageSize c.capacity limit bad number use)
    (ht : Tended sure pageSize limit K c) :
    (touch number use).Ends c (fun _ t => Tended sure pageSize limit K t)
      (fun e t => Tended sure pageSize limit K t ∧ bad e) := by
  have haccess : ∀ {l : Ledger (Page H)} {p : Pager S B},
      Ledger.Tended sure pageSize c.capacity limit K (l, p) →
      (Ledger.access Pager.handler number use).Ends (l, p)
        (fun _ t => Ledger.Tended sure pageSize c.capacity limit K t)
        (fun e t => Ledger.Tended sure pageSize c.capacity limit K t ∧ bad e) :=
    Ledger.ends_access_tended h hstorage hn huse
  apply (ends_touch_ledger (fun _ u => Ledger.Tended sure pageSize c.capacity limit K u)
    (fun e u => Ledger.Tended sure pageSize c.capacity limit K u ∧ bad e) ht.cache ?_
    fun _ => haccess ht.ledger).mono
  · rintro _ t ⟨hv, hc, hl⟩
    exact ⟨hv, hc ▸ hl⟩
  · rintro e t ⟨hv, hc, hl, hb⟩
    exact ⟨⟨hv, hc ▸ hl⟩, hb⟩
  · intro _
    apply (Ledger.ends_evictLoop_tended h hstorage 1 0 ht.ledger).bind
    · exact fun _ t hl => haccess hl
    · exact fun e t hl => hl

omit [Backend B] in
theorem ends_onCache_tended {op : Op (Recency.Cache (Page H) × Pager S B) α}
    {model : Op (Ledger (Page H) × Pager S B) α} (htracks : Recency.Cache.Tracks op model)
    (ht : Tended sure pageSize limit K c)
    (hm : model.Ends (c.cache.ledger, c.pager)
      (fun _ u => Ledger.Tended sure pageSize c.capacity limit K u)
      (fun e u => Ledger.Tended sure pageSize c.capacity limit K u ∧ bad e)) :
    (onCache op).Ends c (fun _ t => Tended sure pageSize limit K t)
      (fun e t => Tended sure pageSize limit K t ∧ bad e) := by
  apply (ends_onCache_ledger (fun _ u => Ledger.Tended sure pageSize c.capacity limit K u)
    (fun e u => Ledger.Tended sure pageSize c.capacity limit K u ∧ bad e) htracks ht.cache hm).mono
  · rintro _ t ⟨hv, hc, hl⟩
    exact ⟨hv, hc ▸ hl⟩
  · rintro e t ⟨hv, hc, hl, hb⟩
    exact ⟨⟨hv, hc ▸ hl⟩, hb⟩

theorem ends_flush_tended (h : Steady sure pageSize limit bad K)
    (hstorage : PageStorage.Blames S bad) (ht : Tended sure pageSize limit K c) :
    (flush : Op (PageCache S H B) Unit).Ends c (fun _ t => Tended sure pageSize limit K t)
      (fun e t => Tended sure pageSize limit K t ∧ bad e) :=
  ends_onCache_tended (Recency.Cache.tracks_flushAll Pager.handler) ht
    (Ledger.ends_flushAll_tended h hstorage ht.ledger)

theorem ends_clear_tended (h : Steady sure pageSize limit bad K)
    (hstorage : PageStorage.Blames S bad) (ht : Tended sure pageSize limit K c) :
    (clear : Op (PageCache S H B) Unit).Ends c (fun _ t => Tended sure pageSize limit K t)
      (fun e t => Tended sure pageSize limit K t ∧ bad e) := by
  apply (ends_onCache_tended (Recency.Cache.tracks_clear Pager.handler) ht
    (Ledger.ends_evictLoop_tended h hstorage _ 0 ht.ledger)).bind
  · exact fun _ t htt => htt
  · exact fun e t htt => htt

theorem ends_onBelow_tended {op : Op B Unit} (ht : Tended sure pageSize limit K c)
    (hop : op.Ends c.below (fun _ t => K (c.books.moved t))
      (fun e t => K (c.books.moved t) ∧ bad e)) :
    (onBelow op).Ends c (fun _ t => Tended sure pageSize limit K t)
      (fun e t => Tended sure pageSize limit K t ∧ bad e) := by
  have hafter : ∀ pager, Stays c.pager pager → K (c.books.moved pager.below) →
      Tended sure pageSize limit K { c with pager } := by
    intro pager hp hk
    have hsound := ht.ledger.sound.keep hp.pageSize (hp.storage ▸ ht.ledger.sound.storage)
    refine ⟨ht.cache, hsound, ht.ledger.covered, ?_⟩
    rw [Books.moved, PageCache.books, residentPages, ht.cache.count_eq, ← hp.writeBacks] at hk
    exact hk
  apply (ends_onBelow_pager hop).mono
  · rintro _ _ ⟨pager, rfl, hp, hk⟩
    exact hafter pager hp hk
  · rintro e _ ⟨pager, rfl, hp, hk, hb⟩
    exact ⟨hafter pager hp hk, hb⟩

theorem ends_flush_all_tended (h : Steady sure pageSize limit bad K)
    (hstorage : PageStorage.Blames S bad) (ht : Tended sure pageSize limit K c) :
    (Backend.flush : Op (PageCache S H B) Unit).Ends c
      (fun _ t => Tended sure pageSize limit K t)
      (fun e t => Tended sure pageSize limit K t ∧ bad e) := by
  apply (ends_flush_tended h hstorage ht).bind
  · exact fun _ t htt => ends_onBelow_tended htt (h.flush t.books htt.books)
  · exact fun e t htt => htt

theorem ends_shutdown_tended (h : Steady sure pageSize limit bad K)
    (hstorage : PageStorage.Blames S bad) (ht : Tended sure pageSize limit K c) :
    (Backend.shutdown : Op (PageCache S H B) Unit).Ends c
      (fun _ t => Tended sure pageSize limit K t)
      (fun e t => Tended sure pageSize limit K t ∧ bad e) := by
  apply (ends_clear_tended h hstorage ht).bind
  · exact fun _ t htt => ends_onBelow_tended htt (h.shutdown t.books htt.books)
  · exact fun e t htt => htt

end Steps

section Accesses

variable {address length : Nat}

theorem ends_readPieces_tended (h : Steady sure pageSize limit bad K)
    (hstorage : PageStorage.Blames S bad) {pieces : List Piece} (acc : ByteArray)
    (htiles : Tiles pageSize address length pieces) (hr : Under limit (address + length))
    (ht : Tended sure pageSize limit K c) :
    (readPieces pieces acc).Ends c (fun _ t => Tended sure pageSize limit K t)
      (fun e t => Tended sure pageSize limit K t ∧ bad e) := by
  induction pieces generalizing c address length acc with
  | nil => exact ht
  | cons piece rest ih =>
    obtain ⟨haddress, hin, hpos, hle, -, hrest⟩ := htiles
    have hn : ∀ l, limit = some l → piece.page * pageSize < l := by
      intro l hl
      have := hr l hl
      omega
    apply (ends_touch_tended h hstorage hn (minds_readPage hstorage _ _) ht).bind
    · intro data t htt
      refine ih _ hrest (fun l hl => ?_) htt
      have := hr l hl
      omega
    · exact fun e t htt => htt

theorem ends_writePieces_tended (h : Steady sure pageSize limit bad K)
    (hstorage : PageStorage.Blames S bad) {pieces : List Piece} {data : ByteArray} {done : Nat}
    (htiles : Tiles pageSize address length pieces) (hd : done + length ≤ data.size)
    (hr : Under limit (address + length)) (ht : Tended sure pageSize limit K c) :
    (writePieces data pieces done).Ends c (fun _ t => Tended sure pageSize limit K t)
      (fun e t => Tended sure pageSize limit K t ∧ bad e) := by
  induction pieces generalizing c address length done with
  | nil => exact ht
  | cons piece rest ih =>
    obtain ⟨haddress, hin, hpos, hle, -, hrest⟩ := htiles
    have hn : ∀ l, limit = some l → piece.page * pageSize < l := by
      intro l hl
      have := hr l hl
      omega
    have hsize : (Bytes.slice data done piece.length).size = piece.length :=
      Bytes.size_slice (by omega)
    have hpiece : Under limit (piece.page * pageSize +
        (piece.offset + (Bytes.slice data done piece.length).size)) := by
      intro l hl
      have := hr l hl
      omega
    apply (ends_touch_tended h hstorage hn
      (minds_writePage hstorage (hsize.symm ▸ hin) hpiece) ht).bind
    · intro _ t htt
      refine ih hrest (by omega) (fun l hl => ?_) htt
      have := hr l hl
      omega
    · exact fun e t htt => htt

omit [PageStorage S H] [PageContents S H] [LawfulStorage S H] in
theorem under_of_checkRange (h : Steady sure pageSize limit bad K) (hk : K c.books)
    (hc : checkRange address length (Backend.capacity c.below) = .ok ()) :
    Under limit (address + length) := by
  intro l hl
  rw [show Backend.capacity c.below = some l from h.capacity _ l hk hl] at hc
  exact checkRange_eq_ok_iff.mp hc

theorem ends_read_tended (h : Steady sure pageSize limit bad K)
    (hstorage : PageStorage.Blames S bad) (address length : Nat)
    (ht : Tended sure pageSize limit K c) :
    (PageCache.read address length).Ends c (fun _ t => Tended sure pageSize limit K t)
      (fun e t => Tended sure pageSize limit K t ∧
        (bad e ∨ checkRange address length (Backend.capacity c.below) = .error e)) := by
  have hp : c.pageSize = pageSize := ht.ledger.sound.pageSize_eq
  cases hc : checkRange address length (Backend.capacity c.below) with
  | error e =>
    apply Op.Ends.of_error (e := e) (t := c)
    · simp only [PageCache.read, hc]
    · exact ⟨ht, .inr rfl⟩
  | ok _ =>
    have hop : PageCache.read address length c =
        readPieces (pieces pageSize address length) ByteArray.empty c := by
      simp only [PageCache.read, hc, hp]
    have hpos : 0 < pageSize := hp ▸ c.pager.pageSize_pos
    rw [Op.Ends, hop]
    apply (ends_readPieces_tended h hstorage _ (tiles_pieces hpos address length)
      (under_of_checkRange h ht.books hc) ht).mono
    · exact fun _ t htt => htt
    · exact fun e t htt => ⟨htt.1, .inl htt.2⟩

theorem ends_write_tended (h : Steady sure pageSize limit bad K)
    (hstorage : PageStorage.Blames S bad) (address : Nat) (data : ByteArray)
    (ht : Tended sure pageSize limit K c) :
    (PageCache.write address data).Ends c (fun _ t => Tended sure pageSize limit K t)
      (fun e t => Tended sure pageSize limit K t ∧
        (bad e ∨ checkRange address data.size (Backend.capacity c.below) = .error e)) := by
  have hp : c.pageSize = pageSize := ht.ledger.sound.pageSize_eq
  cases hc : checkRange address data.size (Backend.capacity c.below) with
  | error e =>
    apply Op.Ends.of_error (e := e) (t := c)
    · simp only [PageCache.write, hc]
    · exact ⟨ht, .inr rfl⟩
  | ok _ =>
    have hop : PageCache.write address data c =
        writePieces data (pieces pageSize address data.size) 0 c := by
      simp only [PageCache.write, hc, hp]
    have hpos : 0 < pageSize := hp ▸ c.pager.pageSize_pos
    rw [Op.Ends, hop]
    apply (ends_writePieces_tended h hstorage (tiles_pieces hpos address data.size)
      (Nat.le_of_eq (Nat.zero_add _)) (under_of_checkRange h ht.books hc) ht).mono
    · exact fun _ t htt => htt
    · exact fun e t htt => ⟨htt.1, .inl htt.2⟩

end Accesses

theorem tended_call (h : Steady sure pageSize limit bad K) (hstorage : PageStorage.Blames S bad)
    (ht : Tended sure pageSize limit K c) (request : Call Upkeep) :
    Tended sure pageSize limit K (call request c).2 := by
  apply Op.Ends.always (P := fun t => Tended sure pageSize limit K t)
  have hanswer : ∀ {op : Op (PageCache S H B) Unit},
      op.Ends c (fun _ t => Tended sure pageSize limit K t)
        (fun e t => Tended sure pageSize limit K t ∧ bad e) →
      (do op; return ByteArray.empty : Op (PageCache S H B) ByteArray).Ends c
        (fun _ t => Tended sure pageSize limit K t) fun _ t => Tended sure pageSize limit K t := by
    intro op hop
    exact (hop.answer ByteArray.empty).mono (fun _ _ htt => htt.2) fun _ _ htt => htt.1
  cases request with
  | read address length =>
    exact (ends_read_tended h hstorage address length ht).mono (fun _ _ htt => htt)
      fun _ _ htt => htt.1
  | write address data =>
    exact ((ends_write_tended h hstorage address data ht).answer ByteArray.empty).mono
      (fun _ _ htt => htt.2) fun _ _ htt => htt.1
  | sync kind =>
    cases kind with
    | flush => exact hanswer (ends_flush_tended h hstorage ht)
    | flushAll => exact hanswer (ends_flush_all_tended h hstorage ht)
    | clear => exact hanswer (ends_clear_tended h hstorage ht)
    | shutdown => exact hanswer (ends_shutdown_tended h hstorage ht)

theorem tended_run (h : Steady sure pageSize limit bad K) (hstorage : PageStorage.Blames S bad)
    (ht : Tended sure pageSize limit K c) (requests : List (Call Upkeep)) :
    Tended sure pageSize limit K (run call requests c).2 :=
  run_invariant (P := fun c => Tended sure pageSize limit K c)
    (fun request _ hc => tended_call h hstorage hc request) requests ht

theorem serves {limit : Nat} (h : Steady sure pageSize (some limit) bad K)
    (hstorage : PageStorage.Blames S bad) :
    Backend.Serves limit bad fun c : PageCache S H B => Tended sure pageSize (some limit) K c := by
  have hcapacity : ∀ c : PageCache S H B, Tended sure pageSize (some limit) K c →
      Backend.capacity c.below = some limit := fun c hc => h.capacity _ limit hc.books rfl
  constructor
  · exact hcapacity
  · intro c address length hc hr
    apply (ends_read_tended h hstorage address length hc).mono
    · exact fun _ t ht => ht
    · rintro e t ⟨ht, hb | hrange⟩
      · exact ⟨ht, hb⟩
      · rw [hcapacity c hc, checkRange_of_le hr] at hrange
        cases hrange
  · intro c address data hc hr
    apply (ends_write_tended h hstorage address data hc).mono
    · exact fun _ t ht => ht
    · rintro e t ⟨ht, hb | hrange⟩
      · exact ⟨ht, hb⟩
      · rw [hcapacity c hc, checkRange_of_le hr] at hrange
        cases hrange
  · exact fun c hc => ends_flush_all_tended h hstorage hc
  · exact fun c hc => ends_shutdown_tended h hstorage hc

end PageCache

end TieredMemory
