import TieredMemory.Page.Cache
import TieredMemory.Proofs.Backend.Recorder

namespace TieredMemory

namespace Recency

variable {σ τ α β : Type} {g : σ → τ}

structure Handler.Commutes (g : σ → τ) (h : Handler σ α) (h' : Handler τ α) : Prop where
  fault : ∀ key, (h.fault key).Commutes g (h'.fault key)
  flush : ∀ key, (h.flush key).Commutes (Prod.map id g) (h'.flush key)
  release : ∀ key v, (h.release key v).Commutes g (h'.release key v)

namespace Cache

variable {h : Handler σ α} {h' : Handler τ α}

theorem commutes_access {use : Op (α × σ) β} {use' : Op (α × τ) β} (hh : h.Commutes g h')
    (key : Nat) (hu : use.Commutes (Prod.map id g) use') :
    (access h key use).Commutes (Prod.map id g) (access h' key use') := by
  rintro ⟨c, s⟩
  simp only [access, Prod.map_apply, id_eq]
  cases c.locate key with
  | some p =>
    have := hu (p.2.value, s)
    simp only [Prod.map_apply, id_eq] at this
    simp only [this]
    rfl
  | none =>
    rcases hf : h.fault key s with ⟨e | v, t⟩
    · simp only [(hh.fault key).apply_eq hf]
      rfl
    · have := hu (v, t)
      simp only [Prod.map_apply, id_eq] at this
      simp only [(hh.fault key).apply_eq hf, this]
      rfl

theorem commutes_expel (hh : h.Commutes g h') (slot : Nat) (node : Node α) :
    (expel h slot node).Commutes (Prod.map id g) (expel h' slot node) := by
  rintro ⟨c, s⟩
  rcases hf : h.flush node.key (node.value, s) with ⟨e | _, v, t⟩
  · have := (hh.flush node.key).apply_eq hf
    simp only [Prod.map_apply, id_eq] at this
    simp only [expel, Prod.map_apply, id_eq, hf, this]
  · have := (hh.flush node.key).apply_eq hf
    simp only [Prod.map_apply, id_eq] at this
    simp only [expel, Prod.map_apply, id_eq, hf, this, hh.release node.key v t]
    rfl

theorem commutes_evictLoop (hh : h.Commutes g h') (n done : Nat) :
    (evictLoop h n done).Commutes (Prod.map id g) (evictLoop h' n done) := by
  induction n generalizing done with
  | zero => exact .pure done
  | succ n ih =>
    rintro ⟨c, s⟩
    simp only [evictLoop, Prod.map_apply, id_eq]
    cases c.leastRecentNode? with
    | none => rfl
    | some p =>
      rcases he : expel h p.1 p.2 (c, s) with ⟨e | _, t⟩
      · have := (commutes_expel hh p.1 p.2).apply_eq he
        simp only [Prod.map_apply, id_eq] at this
        simp only [he, this]
      · have := (commutes_expel hh p.1 p.2).apply_eq he
        simp only [Prod.map_apply, id_eq] at this
        simp only [he, this]
        exact ih (done + 1) (t.1.recordEviction, t.2)

theorem commutes_flushFrom (hh : h.Commutes g h') (n : Nat) (cursor : Option Nat) :
    (flushFrom h n cursor).Commutes (Prod.map id g) (flushFrom h' n cursor) := by
  induction n generalizing cursor with
  | zero => exact .pure ()
  | succ n ih =>
    cases cursor with
    | none => exact .pure ()
    | some slot =>
      rintro ⟨c, s⟩
      simp only [flushFrom, Prod.map_apply, id_eq]
      cases c.arena.node? slot with
      | none => rfl
      | some node =>
        rcases hf : h.flush node.key (node.value, s) with ⟨e | _, v, t⟩
        · have := (hh.flush node.key).apply_eq hf
          simp only [Prod.map_apply, id_eq] at this
          simp only [flushNode, hf, this]
          rfl
        · have := (hh.flush node.key).apply_eq hf
          simp only [Prod.map_apply, id_eq] at this
          simp only [flushNode, hf, this]
          exact ih node.older ({ c with arena := c.arena.setValue slot v }, t)

end Cache

end Recency

variable {S H B C α : Type}

namespace Pager

def mapBelow (f : B → C) (p : Pager S B) : Pager S C :=
  ⟨p.name, p.pageSize, p.pageSize_pos, p.storage, f p.below, p.writeBacks, p.events⟩

variable [PageStorage S H] [Backend B] [Backend C] {f : B → C}

omit [Backend B] [Backend C] in
theorem commutes_onStorage (op : Op S α) :
    (onStorage op : Op (Pager S B) α).Commutes (mapBelow f) (onStorage op) := fun _ => rfl

omit [Backend B] [Backend C] in
theorem commutes_onHandle (op : Op (H × S) α) :
    (onHandle op : Op (H × Pager S B) α).Commutes (Prod.map id (mapBelow f)) (onHandle op) :=
  fun _ => rfl

theorem commutes_onBelow (hf : Backend.Hom f) {op : Op B α} {op' : Op C α} (h : op.Commutes f op') :
    (onBelow op : Op (Pager S B) α).Commutes (mapBelow f) (onBelow op') := by
  intro p
  simp only [onBelow, editBelow, followBelow, mapBelow, h p.below, hf.events]
  rfl

theorem commutes_fetch (hf : Backend.Hom f) (number : Nat) :
    (fetch number : Op (Pager S B) ByteArray).Commutes (mapBelow f) (fetch number) := by
  intro p
  have hr : (p.mapBelow f).readable number = p.readable number := by
    simp only [readable, mapBelow, hf.capacity, pageAddress]
  simp only [fetch, hr]
  by_cases hz : p.readable number = 0
  · simp only [if_pos hz]
    rfl
  · simp only [if_neg hz]
    have hread := commutes_onBelow (S := S) hf (hf.read (p.pageAddress number) (p.readable number))
    rcases ho : onBelow (Backend.read (p.pageAddress number) (p.readable number)) p with ⟨e | b, t⟩
    · have := hread.apply_eq ho
      simp only [pageAddress, mapBelow] at this ⊢
      simp only [this]
    · have := hread.apply_eq ho
      simp only [pageAddress, mapBelow] at this ⊢
      simp only [this]

theorem commutes_load (hf : Backend.Hom f) (number : Nat) :
    (load number : Op (H × Pager S B) Unit).Commutes (Prod.map id (mapBelow f)) (load number) := by
  rintro ⟨handle, p⟩
  simp only [load, Prod.map_apply, id_eq]
  rcases ho : fetch number p with ⟨e | b, t⟩
  · simp only [(commutes_fetch hf number).apply_eq ho]
    rfl
  · simp only [(commutes_fetch hf number).apply_eq ho]
    exact commutes_onHandle _ (handle, t)

theorem commutes_fault (hf : Backend.Hom f) (number : Nat) :
    (fault number : Op (Pager S B) (Page H)).Commutes (mapBelow f) (fault number) := by
  intro p
  simp only [fault]
  rcases ha : onStorage PageStorage.acquire p with ⟨e | handle, t⟩
  · simp only [(commutes_onStorage _).apply_eq ha]
  · simp only [(commutes_onStorage _).apply_eq ha]
    rcases hl : load number (handle, t) with ⟨e | _, handle', u⟩
    · have := (commutes_load hf number).apply_eq hl
      simp only [Prod.map_apply, id_eq] at this
      simp only [this]
      rcases hr : onStorage (PageStorage.release handle') u with ⟨_ | _, v⟩
      · simp only [(commutes_onStorage _).apply_eq hr]
      · simp only [(commutes_onStorage _).apply_eq hr]
    · have := (commutes_load hf number).apply_eq hl
      simp only [Prod.map_apply, id_eq] at this
      simp only [this]

theorem commutes_writeBack (hf : Backend.Hom f) (number : Nat) (handle : H) (r : DirtyRange) :
    (writeBack number handle r : Op (Pager S B) Unit).Commutes (mapBelow f)
      (writeBack number handle r) := by
  intro p
  apply Op.Commutes.bind (commutes_onStorage _)
  intro bytes
  apply Op.Commutes.bind (commutes_onBelow hf (hf.write _ bytes))
  exact fun _ _ => rfl

theorem commutes_flush (hf : Backend.Hom f) (number : Nat) :
    (flush number : Op (Page H × Pager S B) Unit).Commutes (Prod.map id (mapBelow f))
      (flush number) := by
  rintro ⟨page, p⟩
  simp only [flush, Prod.map_apply, id_eq]
  cases page.dirty with
  | none => rfl
  | some r =>
    rcases hw : writeBack number page.handle r p with ⟨e | _, t⟩
    · simp only [hw, (commutes_writeBack hf number page.handle r).apply_eq hw]
      rfl
    · simp only [hw, (commutes_writeBack hf number page.handle r).apply_eq hw]
      rfl

theorem commutes_handler (hf : Backend.Hom f) :
    Recency.Handler.Commutes (mapBelow f) (handler : Recency.Handler (Pager S B) (Page H))
      handler where
  fault := commutes_fault hf
  flush := commutes_flush hf
  release _ page := commutes_onStorage (PageStorage.release page.handle)

omit [Backend B] [Backend C] in
theorem commutes_readPage (offset length : Nat) :
    (readPage offset length : Op (Page H × Pager S B) ByteArray).Commutes
      (Prod.map id (mapBelow f)) (readPage offset length) := fun _ => rfl

omit [Backend B] [Backend C] in
theorem commutes_writePage (offset : Nat) (data : ByteArray) :
    (writePage offset data : Op (Page H × Pager S B) Unit).Commutes
      (Prod.map id (mapBelow f)) (writePage offset data) := by
  rintro ⟨page, p⟩
  simp only [writePage, Prod.map_apply, id_eq]
  rcases ho : onHandle (PageStorage.write offset data) (page.handle, p) with ⟨e | _, handle, t⟩
  · have := (commutes_onHandle (f := f) _).apply_eq ho
    simp only [Prod.map_apply, id_eq] at this
    simp only [this]
    rfl
  · have := (commutes_onHandle (f := f) _).apply_eq ho
    simp only [Prod.map_apply, id_eq] at this
    simp only [this]
    rfl

end Pager

namespace PageCache

def mapBelow (f : B → C) (c : PageCache S H B) : PageCache S H C :=
  ⟨c.cache, c.pager.mapBelow f, c.capacity, c.capacity_pos⟩

variable [PageStorage S H] [Backend B] [Backend C] {f : B → C}

omit [PageStorage S H] [Backend B] [Backend C] in
theorem commutes_onCache {op : Op (Recency.Cache (Page H) × Pager S B) α}
    {op' : Op (Recency.Cache (Page H) × Pager S C) α}
    (h : op.Commutes (Prod.map id (Pager.mapBelow f)) op') :
    (onCache op).Commutes (mapBelow f) (onCache op') := by
  intro c
  have := h (c.cache, c.pager)
  simp only [Prod.map_apply, id_eq] at this
  simp only [onCache, mapBelow, this]
  rfl

omit [PageStorage S H] in
theorem commutes_onBelow (hf : Backend.Hom f) {op : Op B α} {op' : Op C α} (h : op.Commutes f op') :
    (onBelow op : Op (PageCache S H B) α).Commutes (mapBelow f) (onBelow op') := by
  intro c
  have := Pager.commutes_onBelow (S := S) hf h c.pager
  simp only [Pager.onBelow] at this
  simp only [onBelow, editBelow, mapBelow, this]

theorem commutes_touch (hf : Backend.Hom f) (page : Nat) {use : Op (Page H × Pager S B) α}
    {use' : Op (Page H × Pager S C) α} (hu : use.Commutes (Prod.map id (Pager.mapBelow f)) use') :
    (touch page use).Commutes (mapBelow f) (touch page use') := by
  intro c
  have haccess :=
    Recency.Cache.commutes_access (Pager.commutes_handler (S := S) (H := H) hf) page hu
  by_cases hfull : c.cache.contains page = false ∧ c.capacity ≤ c.cache.count
  · have hevict : (Recency.Cache.evict Pager.handler 1).Commutes
        (Prod.map id (Pager.mapBelow (S := S) (B := B) f)) (Recency.Cache.evict Pager.handler 1) :=
      Recency.Cache.commutes_evictLoop (Pager.commutes_handler (H := H) hf) 1 0
    have hfull' : (c.mapBelow f).cache.contains page = false ∧
      (c.mapBelow f).capacity ≤ (c.mapBelow f).cache.count := hfull
    simp only [touch, if_pos hfull, if_pos hfull']
    exact commutes_onCache (hevict.bind fun _ => haccess) c
  · have hfull' : ¬ ((c.mapBelow f).cache.contains page = false ∧
      (c.mapBelow f).capacity ≤ (c.mapBelow f).cache.count) := hfull
    simp only [touch, if_neg hfull, if_neg hfull']
    exact commutes_onCache haccess c

theorem commutes_readPieces (hf : Backend.Hom f) (pieces : List Piece) (read : ByteArray) :
    (readPieces pieces read : Op (PageCache S H B) ByteArray).Commutes (mapBelow f)
      (readPieces pieces read) := by
  induction pieces generalizing read with
  | nil => exact .pure read
  | cons piece rest ih =>
    exact (commutes_touch hf piece.page (Pager.commutes_readPage _ _)).bind fun _ => ih _

theorem commutes_writePieces (hf : Backend.Hom f) (data : ByteArray) (pieces : List Piece)
    (done : Nat) :
    (writePieces data pieces done : Op (PageCache S H B) Unit).Commutes (mapBelow f)
      (writePieces data pieces done) := by
  induction pieces generalizing done with
  | nil => exact .pure ()
  | cons piece rest ih =>
    exact (commutes_touch hf piece.page (Pager.commutes_writePage _ _)).bind fun _ => ih _

theorem commutes_read (hf : Backend.Hom f) (address length : Nat) :
    (read address length : Op (PageCache S H B) ByteArray).Commutes (mapBelow f)
      (read address length) := by
  intro c
  have hc : Backend.capacity (c.mapBelow f).below = Backend.capacity c.below := hf.capacity c.below
  simp only [read, hc]
  cases checkRange address length (Backend.capacity c.below) with
  | error e => rfl
  | ok _ => exact commutes_readPieces hf _ _ c

theorem commutes_write (hf : Backend.Hom f) (address : Nat) (data : ByteArray) :
    (write address data : Op (PageCache S H B) Unit).Commutes (mapBelow f)
      (write address data) := by
  intro c
  have hc : Backend.capacity (c.mapBelow f).below = Backend.capacity c.below := hf.capacity c.below
  simp only [write, hc]
  cases checkRange address data.size (Backend.capacity c.below) with
  | error e => rfl
  | ok _ => exact commutes_writePieces hf data _ 0 c

theorem commutes_flush (hf : Backend.Hom f) :
    (flush : Op (PageCache S H B) Unit).Commutes (mapBelow f) flush := by
  apply commutes_onCache
  rintro ⟨c, p⟩
  exact Recency.Cache.commutes_flushFrom (Pager.commutes_handler hf) _ _ (c, p)

theorem commutes_clear (hf : Backend.Hom f) :
    (clear : Op (PageCache S H B) Unit).Commutes (mapBelow f) clear := by
  apply Op.Commutes.bind (commutes_onCache _) fun _ => .pure ()
  rintro ⟨c, p⟩
  exact Recency.Cache.commutes_evictLoop (Pager.commutes_handler hf) c.count 0 (c, p)

theorem hom_mapBelow (hf : Backend.Hom f) :
    Backend.Hom (mapBelow f : PageCache S H B → PageCache S H C) where
  read := commutes_read hf
  write := commutes_write hf
  flush := (commutes_flush hf).bind fun _ => commutes_onBelow hf hf.flush
  shutdown := (commutes_clear hf).bind fun _ => commutes_onBelow hf hf.shutdown
  capacity c := hf.capacity c.below
  events _ := rfl

end PageCache

end TieredMemory
