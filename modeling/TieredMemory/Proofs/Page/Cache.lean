import TieredMemory.Proofs.Page.Pieces
import TieredMemory.Proofs.Page.Replacement

namespace TieredMemory

namespace Bytes

theorem overlay_slice_append {data : ByteArray} {done n m : Nat} (h : done + n + m ≤ data.size)
    (address : Nat) (f : Nat → UInt8) :
    overlay (address + n) (slice data (done + n) m) (overlay address (slice data done n) f) =
      overlay address (slice data done (n + m)) f := by
  funext i
  simp only [overlay, size_slice (show done + n ≤ data.size by omega),
    size_slice (show done + n + m ≤ data.size from h),
    size_slice (show done + (n + m) ≤ data.size by omega)]
  by_cases h₁ : address + n ≤ i ∧ i < address + n + m
  · rw [if_pos h₁, if_pos (by omega), byteAt_slice (by omega), byteAt_slice (by omega)]
    congr 1
    omega
  · rw [if_neg h₁]
    by_cases h₂ : address ≤ i ∧ i < address + n
    · rw [if_pos h₂, if_pos (by omega), byteAt_slice (by omega), byteAt_slice (by omega)]
    · rw [if_neg h₂, if_neg (by omega)]

theorem Shows.append {m : Nat → UInt8} {address n k : Nat} {a b : ByteArray}
    (ha : Shows m address n a) (hb : Shows m (address + n) k b) :
    Shows m address (n + k) (a ++ b) := by
  constructor
  · rw [size_append, ha.1, hb.1]
  · intro i hi
    rw [byteAt_append, ha.1]
    by_cases hin : i < n
    · rw [if_pos hin, ha.2 i hin]
    · rw [if_neg hin, hb.2 (i - n) (by omega)]
      congr 1
      omega

end Bytes

namespace PageCache

open Residents Recency

variable {S H B α : Type}

def residents (c : PageCache S H B) : Residents S H B := (c.cache.toList, c.pager)

section Views

variable [PageContents S H] [Contents B]

instance : Contents (PageCache S H B) where
  size c := Contents.size c.residents
  byteAt c := Contents.byteAt c.residents
  Clean c := Contents.Clean c.residents
  writes c := Contents.writes c.residents

theorem keeps_of_residents {c t : PageCache S H B} (h : Keeps c.residents t.residents) :
    Keeps c t :=
  ⟨h.size, h.bytes, h.quiet⟩

theorem byteAt_of_clean {entries : List (Nat × Page H)} {p : Pager S B}
    (hn : (entries.map Prod.fst).Nodup) (h : ∀ e ∈ entries, Agrees p e.1 e.2)
    (hc : ∀ e ∈ entries, e.2.dirty = none) :
    Contents.byteAt ((entries, p) : Residents S H B) = Contents.byteAt p.below := by
  apply blockOf_injective p.pageSize_pos
  intro number i hi
  rw [blockOf_byteAt (entries, p) number hi]
  by_cases hm : number ∈ entries.map Prod.fst
  · obtain ⟨⟨_, page⟩, he, rfl⟩ := List.mem_map.mp hm
    rw [pageByte_mem hn he]
    exact (h _ he).byteAt_of_clean (hc _ he) hi
  · rw [pageByte_notMem hm]

end Views

section Tracked

theorem ends_onCache_ledger {op : Op (Recency.Cache (Page H) × Pager S B) α}
    {model : Op (Ledger (Page H) × Pager S B) α} {c : PageCache S H B}
    (ok : α → Ledger (Page H) × Pager S B → Prop) (bad : Error → Ledger (Page H) × Pager S B → Prop)
    (ht : Recency.Cache.Tracks op model) (h : c.cache.IsValid)
    (hm : model.Ends (c.cache.ledger, c.pager) ok bad) :
    (onCache op).Ends c
      (fun a t => t.cache.IsValid ∧ t.capacity = c.capacity ∧ ok a (t.cache.ledger, t.pager))
      (fun e t => t.cache.IsValid ∧ t.capacity = c.capacity ∧ bad e (t.cache.ledger, t.pager)) := by
  rcases (ht.ends h hm).cases with
      ⟨a, ⟨cache, pager⟩, he, hv, hok⟩ | ⟨e, ⟨cache, pager⟩, he, hv, hbad⟩
  · apply Op.Ends.of_ok (a := a) (t := { c with cache, pager })
    · simp only [onCache, he]
    · exact ⟨hv, rfl, hok⟩
  · apply Op.Ends.of_error (e := e) (t := { c with cache, pager })
    · simp only [onCache, he]
    · exact ⟨hv, rfl, hbad⟩

theorem ends_onCache_tracked {op : Op (Recency.Cache (Page H) × Pager S B) α}
    {model : Op (Ledger (Page H) × Pager S B) α} {c : PageCache S H B}
    (ok : α → Residents S H B → Prop) (bad : Error → Residents S H B → Prop)
    (ht : Recency.Cache.Tracks op model) (h : c.cache.IsValid)
    (hm : model.Ends (c.cache.ledger, c.pager) (fun a u => ok a (Ledger.residents u))
      (fun e u => bad e (Ledger.residents u))) :
    (onCache op).Ends c
      (fun a t => t.cache.IsValid ∧ t.capacity = c.capacity ∧ ok a t.residents)
      (fun e t => t.cache.IsValid ∧ t.capacity = c.capacity ∧ bad e t.residents) :=
  ends_onCache_ledger (fun a u => ok a (Ledger.residents u)) (fun e u => bad e (Ledger.residents u))
    ht h hm

theorem ends_touch_ledger [PageStorage S H] [Backend B] {c : PageCache S H B} {number : Nat}
    {use : Op (Page H × Pager S B) α} (ok : α → Ledger (Page H) × Pager S B → Prop)
    (bad : Error → Ledger (Page H) × Pager S B → Prop) (h : c.cache.IsValid)
    (hfull : c.cache.contains number = false ∧ c.capacity ≤ c.cache.count →
      (Ledger.evict Pager.handler 1 >>= fun _ => Ledger.access Pager.handler number use).Ends
        (c.cache.ledger, c.pager) ok bad)
    (hroom : ¬ (c.cache.contains number = false ∧ c.capacity ≤ c.cache.count) →
      (Ledger.access Pager.handler number use).Ends (c.cache.ledger, c.pager) ok bad) :
    (touch number use).Ends c
      (fun a t => t.cache.IsValid ∧ t.capacity = c.capacity ∧ ok a (t.cache.ledger, t.pager))
      (fun e t => t.cache.IsValid ∧ t.capacity = c.capacity ∧ bad e (t.cache.ledger, t.pager)) := by
  have haccess := Recency.Cache.tracks_access (Pager.handler (S := S) (B := B)) number use
  by_cases hf : c.cache.contains number = false ∧ c.capacity ≤ c.cache.count
  · have hop : touch number use c = onCache (Recency.Cache.evict Pager.handler 1 >>= fun _ =>
        Recency.Cache.access Pager.handler number use) c := by
      simp only [touch, if_pos hf]
    rw [Op.Ends, hop]
    exact ends_onCache_ledger ok bad
      ((Recency.Cache.tracks_evict Pager.handler 1).bind fun _ => haccess) h (hfull hf)
  · have hop : touch number use c = onCache (Recency.Cache.access Pager.handler number use) c := by
      simp only [touch, if_neg hf]
    rw [Op.Ends, hop]
    exact ends_onCache_ledger ok bad haccess h (hroom hf)

theorem ends_touch_tracked [PageStorage S H] [Backend B] {c : PageCache S H B} {number : Nat}
    {use : Op (Page H × Pager S B) α} (ok : α → Residents S H B → Prop)
    (bad : Error → Residents S H B → Prop) (h : c.cache.IsValid)
    (hfull : c.cache.contains number = false ∧ c.capacity ≤ c.cache.count →
      (Ledger.evict Pager.handler 1 >>= fun _ => Ledger.access Pager.handler number use).Ends
        (c.cache.ledger, c.pager) (fun a u => ok a (Ledger.residents u))
        (fun e u => bad e (Ledger.residents u)))
    (hroom : ¬ (c.cache.contains number = false ∧ c.capacity ≤ c.cache.count) →
      (Ledger.access Pager.handler number use).Ends (c.cache.ledger, c.pager)
        (fun a u => ok a (Ledger.residents u)) (fun e u => bad e (Ledger.residents u))) :
    (touch number use).Ends c
      (fun a t => t.cache.IsValid ∧ t.capacity = c.capacity ∧ ok a t.residents)
      (fun e t => t.cache.IsValid ∧ t.capacity = c.capacity ∧ bad e t.residents) :=
  ends_touch_ledger (fun a u => ok a (Ledger.residents u)) (fun e u => bad e (Ledger.residents u))
    h hfull hroom

end Tracked

variable [PageStorage S H] [PageContents S H] [LawfulStorage S H]
variable [Backend B] [Contents B] [LawfulBackend B]
variable {sure : Prop} {pageSize : Nat} {c : PageCache S H B}

protected structure Valid (sure : Prop) (pageSize : Nat) (c : PageCache S H B) : Prop where
  cache : c.cache.IsValid
  coherent : Coherent sure pageSize c.capacity c.residents
  room : c.cache.toList.length ≤ c.capacity

theorem ends_onCache {op : Op (Recency.Cache (Page H) × Pager S B) α}
    {model : Op (Ledger (Page H) × Pager S B) α} (ok : α → Residents S H B → Prop)
    (bad : Error → Residents S H B → Prop) (ht : Recency.Cache.Tracks op model)
    (h : c.Valid sure pageSize) (hm : model.Ends (c.cache.ledger, c.pager)
      (fun a u => Coherent sure pageSize c.capacity (Ledger.residents u) ∧
        u.1.entries.length ≤ c.capacity ∧ ok a (Ledger.residents u))
      (fun e u => Coherent sure pageSize c.capacity (Ledger.residents u) ∧
        u.1.entries.length ≤ c.capacity ∧ bad e (Ledger.residents u))) :
    (onCache op).Ends c
      (fun a t => t.Valid sure pageSize ∧ ok a t.residents)
      (fun e t => t.Valid sure pageSize ∧ bad e t.residents) := by
  apply (ends_onCache_tracked
    (fun a u => Coherent sure pageSize c.capacity u ∧ u.1.length ≤ c.capacity ∧ ok a u)
    (fun e u => Coherent sure pageSize c.capacity u ∧ u.1.length ≤ c.capacity ∧ bad e u)
    ht h.cache hm).mono
  · rintro a t ⟨hv, hc, hcoherent, hl, ha⟩
    exact ⟨⟨hv, hc ▸ hcoherent, hc ▸ hl⟩, ha⟩
  · rintro e t ⟨hv, hc, hcoherent, hl, hb⟩
    exact ⟨⟨hv, hc ▸ hcoherent, hc ▸ hl⟩, hb⟩

omit [PageStorage S H] [PageContents S H] [LawfulStorage S H] [Contents B] [LawfulBackend B] in
theorem ends_onBelow_pager {op : Op B α} {ok : α → B → Prop} {bad : Error → B → Prop}
    (h : op.Ends c.below ok bad) :
    (onBelow op).Ends c
      (fun a t => ∃ pager, t = { c with pager } ∧ Pager.Stays c.pager pager ∧ ok a pager.below)
      (fun e t => ∃ pager, t = { c with pager } ∧ Pager.Stays c.pager pager ∧
        bad e pager.below) := by
  rcases (Pager.ends_onBelow (p := c.pager) h).cases with
    ⟨a, pager, he, ht⟩ | ⟨e, pager, he, ht⟩
  · change Pager.editBelow op c.pager = _ at he
    apply Op.Ends.of_ok (a := a) (t := { c with pager })
    · change editBelow op c = _
      simp only [editBelow, he]
    · exact ⟨pager, rfl, ht⟩
  · change Pager.editBelow op c.pager = _ at he
    apply Op.Ends.of_error (e := e) (t := { c with pager })
    · change editBelow op c = _
      simp only [editBelow, he]
    · exact ⟨pager, rfl, ht⟩

theorem ends_onBelow {op : Op B α} {ok : α → B → Prop} {bad : Error → B → Prop}
    (h : c.Valid sure pageSize) (hop : op.Ends c.below
      (fun a b => LawfulBackend.Valid sure b ∧ Keeps c.below b ∧ ok a b)
      (fun e b => LawfulBackend.Valid sure b ∧ Keeps c.below b ∧ bad e b)) :
    (onBelow op).Ends c
      (fun a t => t.Valid sure pageSize ∧ Keeps c t ∧ t.cache = c.cache ∧ ok a t.below)
      (fun e t => t.Valid sure pageSize ∧ Keeps c t ∧ t.cache = c.cache ∧
        bad e t.below) := by
  have step : ∀ pager : Pager S B, Pager.Stays c.pager pager →
      LawfulBackend.Valid sure pager.below → Keeps c.below pager.below →
      { c with pager }.Valid sure pageSize ∧ Keeps c { c with pager } := by
    intro pager hp hv hk
    have hstorage : LawfulStorage.Valid sure pageSize c.capacity pager.storage
        (handles c.cache.toList) := hp.storage ▸ h.coherent.storage
    obtain ⟨hc, hkeep⟩ :=
      h.coherent.keep hp.pageSize hstorage hv hk (hp.storage ▸ .refl _ _)
    exact ⟨⟨h.cache, hc, h.room⟩, keeps_of_residents hkeep⟩
  apply (ends_onBelow_pager hop).mono
  · rintro a _ ⟨pager, rfl, hp, hv, hk, ha⟩
    obtain ⟨hvalid, hkeep⟩ := step pager hp hv hk
    exact ⟨hvalid, hkeep, rfl, ha⟩
  · rintro e _ ⟨pager, rfl, hp, hv, hk, hb⟩
    obtain ⟨hvalid, hkeep⟩ := step pager hp hv hk
    exact ⟨hvalid, hkeep, rfl, hb⟩

theorem ends_touch {number : Nat} {use : Op (Page H × Pager S B) α}
    (ok : α → Residents S H B → Prop) (bad : Error → Residents S H B → Prop)
    (h : c.Valid sure pageSize)
    (huse : ∀ page rest t, Coherent sure pageSize c.capacity ((number, page) :: rest, t) →
      Keeps c.residents ((number, page) :: rest, t) →
      use.Ends (page, t)
        (fun a u => Coherent sure pageSize c.capacity ((number, u.1) :: rest, u.2) ∧
          ok a ((number, u.1) :: rest, u.2))
        (fun e u => Coherent sure pageSize c.capacity ((number, u.1) :: rest, u.2) ∧
          bad e ((number, u.1) :: rest, u.2)))
    (hbad : ∀ e u, Keeps c.residents u → ¬ sure → bad e u) :
    (touch number use).Ends c
      (fun a t => t.Valid sure pageSize ∧ ok a t.residents)
      (fun e t => t.Valid sure pageSize ∧ bad e t.residents) := by
  have hcontains := h.cache.contains_eq number
  refine (ends_touch_tracked
    (fun a u => Coherent sure pageSize c.capacity u ∧ u.1.length ≤ c.capacity ∧ ok a u)
    (fun e u => Coherent sure pageSize c.capacity u ∧ u.1.length ≤ c.capacity ∧ bad e u)
    h.cache (fun hfull => ?_) (fun hfull => ?_)).mono ?_ ?_
  · have hlen : c.cache.toList.length = c.capacity := by
      have := h.room
      have := h.cache.count_eq
      omega
    -- the eviction makes the room that the access needs, or fails before the access starts
    apply (Ledger.ends_evictLoop 1 0 h.coherent).bind
    · rintro _ ⟨l, p⟩ ⟨hc, hk, hl⟩
      have hroom : l.entries.length < c.capacity := by
        have hpos := c.capacity_pos
        change l.entries.length = c.cache.toList.length - 1 at hl
        omega
      apply Ledger.ends_access hc (Nat.le_of_lt hroom) fun _ => hroom
      · intro page rest t hct hkt
        exact huse page rest t hct (hk.trans hkt)
      · intro e t hkt hn
        exact hbad e t (hk.trans hkt) hn
    · rintro e t ⟨hc, hk, hl, hn⟩
      exact ⟨hc, Nat.le_trans hl h.room, hbad e _ hk hn⟩
  · apply Ledger.ends_access h.coherent h.room
    · intro hnew
      have hnone : c.cache.toList.lookup number = none := Ledger.lookup_eq_none_iff_notMem.mpr hnew
      rw [hnone, Option.isSome_none] at hcontains
      change c.cache.toList.length < c.capacity
      rw [← h.cache.count_eq]
      exact Nat.not_le.mp fun hle => hfull ⟨hcontains, hle⟩
    · exact huse
    · exact hbad
  · rintro a t ⟨hv, hc, hcoherent, hl, ha⟩
    exact ⟨⟨hv, hc ▸ hcoherent, hc ▸ hl⟩, ha⟩
  · rintro e t ⟨hv, hc, hcoherent, hl, hb⟩
    exact ⟨⟨hv, hc ▸ hcoherent, hc ▸ hl⟩, hb⟩

theorem ends_readPiece {piece : Piece} (h : c.Valid sure pageSize)
    (hin : piece.offset + piece.length ≤ pageSize) :
    (touch piece.page (Pager.readPage piece.offset piece.length)).Ends c
      (fun data t => t.Valid sure pageSize ∧ Keeps c.residents t.residents ∧
        Bytes.Shows (Contents.byteAt c) (piece.page * pageSize + piece.offset) piece.length data)
      (fun _ t => t.Valid sure pageSize ∧ Keeps c.residents t.residents ∧ ¬ sure) := by
  apply ends_touch (fun data u => Keeps c.residents u ∧ Bytes.Shows (Contents.byteAt c)
      (piece.page * pageSize + piece.offset) piece.length data)
    (fun _ u => Keeps c.residents u ∧ ¬ sure) h
  · intro page others t hc hk
    apply (Pager.ends_readPage hc hin).mono
    · rintro data u ⟨hcu, hku, hd⟩
      rw [hk.bytes] at hd
      exact ⟨hcu, hk.trans hku, hd⟩
    · rintro e u ⟨hcu, hku, hn⟩
      exact ⟨hcu, hk.trans hku, hn⟩
  · exact fun e u hk hn => ⟨hk, hn⟩

theorem ends_readPieces {address length : Nat} {pieces : List Piece} (acc : ByteArray)
    (h : c.Valid sure pageSize) (ht : Tiles pageSize address length pieces) :
    (readPieces pieces acc).Ends c
      (fun data t => t.Valid sure pageSize ∧ Keeps c t ∧
        ∃ d, data = acc ++ d ∧ Bytes.Shows (Contents.byteAt c) address length d)
      (fun _ t => t.Valid sure pageSize ∧ Keeps c t ∧ ¬ sure) := by
  induction pieces generalizing c address length acc with
  | nil =>
    refine ⟨h, .refl c, ByteArray.empty, ?_, ?_, ?_⟩
    · simp
    · exact (show length = 0 from ht).symm
    · intro i hi
      exact absurd ((show length = 0 from ht) ▸ hi) (Nat.not_lt_zero i)
  | cons piece rest ih =>
    obtain ⟨haddress, hin, hpos, hle, -, hrest⟩ := ht
    have hread := ends_readPiece h hin
    rw [haddress] at hread
    apply hread.bind
    · rintro data t ⟨hv, hk, hd⟩
      apply (ih (acc ++ data) hv hrest).mono
      · rintro _ u ⟨hvu, hku, d, rfl, hs⟩
        refine ⟨hvu, (keeps_of_residents hk).trans hku, data ++ d, ByteArray.append_assoc, ?_⟩
        rw [(keeps_of_residents hk).bytes] at hs
        have happend := hd.append hs
        rwa [Nat.add_sub_cancel' hle] at happend
      · rintro e u ⟨hvu, hku, hn⟩
        exact ⟨hvu, (keeps_of_residents hk).trans hku, hn⟩
    · rintro e t ⟨hv, hk, hn⟩
      exact ⟨hv, keeps_of_residents hk, hn⟩

structure Puts (address : Nat) (data : ByteArray) (done k : Nat) (c t : PageCache S H B) :
    Prop where
  size : Contents.size t = Contents.size c
  bytes : Contents.byteAt t = Bytes.overlay address (Bytes.slice data done k) (Contents.byteAt c)

omit [PageStorage S H] [LawfulStorage S H] [Backend B] [LawfulBackend B] in
theorem Puts.of_keeps {address done : Nat} {data : ByteArray} {t : PageCache S H B} (h : Keeps c t)
    (hd : done ≤ data.size) : Puts address data done 0 c t := by
  refine ⟨h.size, h.bytes.trans ?_⟩
  rw [Bytes.overlay_of_size_eq_zero (Bytes.size_slice hd)]

omit [PageStorage S H] [LawfulStorage S H] [Backend B] [LawfulBackend B] in
theorem Puts.trans {address done n k : Nat} {data : ByteArray} {t u : PageCache S H B}
    (h : Puts address data done n c t) (h' : Puts (address + n) data (done + n) k t u)
    (hd : done + n + k ≤ data.size) : Puts address data done (n + k) c u := by
  refine ⟨h'.size.trans h.size, ?_⟩
  rw [h'.bytes, h.bytes, Bytes.overlay_slice_append hd]

theorem ends_writePiece {piece : Piece} {data : ByteArray} (h : c.Valid sure pageSize)
    (hs : data.size = piece.length) (hin : piece.offset + piece.length ≤ pageSize)
    (hfit : piece.page * pageSize + piece.offset + piece.length ≤ Contents.size c) :
    (touch piece.page (Pager.writePage piece.offset data)).Ends c
      (fun _ t => t.Valid sure pageSize ∧ Contents.size t = Contents.size c ∧
        Contents.byteAt t =
          Bytes.overlay (piece.page * pageSize + piece.offset) data (Contents.byteAt c))
      (fun _ t => t.Valid sure pageSize ∧ Keeps c.residents t.residents ∧ ¬ sure) := by
  apply ends_touch (fun _ u => Contents.size u = Contents.size c ∧ Contents.byteAt u =
      Bytes.overlay (piece.page * pageSize + piece.offset) data (Contents.byteAt c))
    (fun _ u => Keeps c.residents u ∧ ¬ sure) h
  · intro page others t hc hk
    have hsize : Contents.size t.below = Contents.size c := hk.size
    apply (Pager.ends_writePage hc (by omega) (by omega)).mono
    · rintro _ u ⟨hcu, hw⟩
      have hbytes := hw.bytes
      rw [Bytes.slice_zero_size, hk.bytes] at hbytes
      exact ⟨hcu, hw.size.trans hk.size, hbytes⟩
    · rintro e u ⟨hcu, hku, hn⟩
      exact ⟨hcu, hk.trans hku, hn⟩
  · exact fun e u hk hn => ⟨hk, hn⟩

theorem ends_writePieces {address length done : Nat} {data : ByteArray} {pieces : List Piece}
    (h : c.Valid sure pageSize) (ht : Tiles pageSize address length pieces)
    (hd : done + length = data.size) (hfit : address + length ≤ Contents.size c) :
    (writePieces data pieces done).Ends c
      (fun _ t => t.Valid sure pageSize ∧ Puts address data done length c t)
      (fun _ t => t.Valid sure pageSize ∧ ¬ sure ∧
        ∃ k < length, (k = 0 ∨ pageSize ∣ address + k) ∧ Puts address data done k c t) := by
  induction pieces generalizing c address length done with
  | nil =>
    refine ⟨h, ?_⟩
    rw [show length = 0 from ht]
    exact .of_keeps (.refl c) (by omega)
  | cons piece rest ih =>
    have hdvd := ht.dvd_of_lt
    obtain ⟨haddress, hin, hpos, hle, -, hrest⟩ := ht
    have hslice : (Bytes.slice data done piece.length).size = piece.length :=
      Bytes.size_slice (by omega)
    have hwrite := ends_writePiece h hslice hin (by omega)
    rw [haddress] at hwrite
    apply hwrite.bind
    · rintro _ t ⟨hv, hsize, hbytes⟩
      have hput : Puts address data done piece.length c t := ⟨hsize, hbytes⟩
      apply (ih hv hrest (by omega) (by rw [hput.size]; omega)).mono
      · rintro _ u ⟨hvu, hu⟩
        have htotal := hput.trans hu (by omega)
        rw [Nat.add_sub_cancel' hle] at htotal
        exact ⟨hvu, htotal⟩
      · rintro e u ⟨hvu, hn, k, hk, hb, hu⟩
        -- a later piece failed, so the pieces before it ended where their pages end
        refine ⟨hvu, hn, piece.length + k, by omega, .inr ?_, hput.trans hu (by omega)⟩
        rcases hb with rfl | hb
        · exact hdvd (by omega)
        · rwa [Nat.add_assoc] at hb
    · rintro e t ⟨hv, hk, hn⟩
      exact ⟨hv, hn, 0, by omega, .inl rfl, .of_keeps (keeps_of_residents hk) (by omega)⟩

theorem Valid.pageSize_eq (h : c.Valid sure pageSize) : c.pageSize = pageSize :=
  h.coherent.pageSize_eq

theorem Valid.self (h : c.Valid sure pageSize) : c.Valid sure c.pageSize :=
  h.pageSize_eq.symm ▸ h

theorem Valid.pageSize_pos (h : c.Valid sure pageSize) : 0 < pageSize :=
  h.pageSize_eq ▸ c.pager.pageSize_pos

theorem capacity_below (h : c.Valid sure pageSize) :
    Backend.capacity c.below = some (Contents.size c) :=
  LawfulBackend.capacity_eq h.coherent.below

theorem ends_read (address length : Nat) (h : c.Valid sure pageSize) :
    (PageCache.read address length).Ends c
      (fun data t => t.Valid sure pageSize ∧ Keeps c t ∧ address + length ≤ Contents.size c ∧
        Bytes.Shows (Contents.byteAt c) address length data)
      (fun e t => t.Valid sure pageSize ∧ Keeps c t ∧ (sure → Contents.size c < address + length ∧
        e = .addressOutOfRange address length (Contents.size c))) := by
  by_cases hr : address + length ≤ Contents.size c
  · have hop : PageCache.read address length c =
        readPieces (pieces pageSize address length) ByteArray.empty c := by
      simp only [PageCache.read, capacity_below h, checkRange_of_le hr, h.pageSize_eq]
    rw [Op.Ends, hop]
    apply (ends_readPieces _ h (tiles_pieces h.pageSize_pos address length)).mono
    · rintro _ t ⟨hv, hk, d, rfl, hd⟩
      rw [ByteArray.empty_append]
      exact ⟨hv, hk, hr, hd⟩
    · rintro e t ⟨hv, hk, hn⟩
      exact ⟨hv, hk, fun hs => absurd hs hn⟩
  · have hlt := Nat.not_le.mp hr
    apply Op.Ends.of_error (e := .addressOutOfRange address length (Contents.size c)) (t := c)
    · simp only [PageCache.read, capacity_below h, checkRange_of_lt hlt]
    · exact ⟨h, .refl c, fun _ => ⟨hlt, rfl⟩⟩

theorem ends_write (address : Nat) (data : ByteArray) (h : c.Valid sure pageSize) :
    (PageCache.write address data).Ends c
      (fun _ t => t.Valid sure pageSize ∧ address + data.size ≤ Contents.size c ∧
        Writes address data data.size c t)
      (fun e t => t.Valid sure pageSize ∧
        (∃ k ≤ data.size, (k = 0 ∨ pageSize ∣ address + k) ∧ Writes address data k c t) ∧
        (sure → Contents.size c < address + data.size ∧ Keeps c t ∧
          e = .addressOutOfRange address data.size (Contents.size c))) := by
  by_cases hr : address + data.size ≤ Contents.size c
  · have hop : PageCache.write address data c =
        writePieces data (pieces pageSize address data.size) 0 c := by
      simp only [PageCache.write, capacity_below h, checkRange_of_le hr, h.pageSize_eq]
    rw [Op.Ends, hop]
    have ht := tiles_pieces h.pageSize_pos address data.size
    apply (ends_writePieces h ht (Nat.zero_add _) hr).mono
    · rintro _ t ⟨hv, hp⟩
      exact ⟨hv, hr, hp.size, hp.bytes⟩
    · rintro e t ⟨hv, hn, k, hk, hb, hp⟩
      exact ⟨hv, ⟨k, Nat.le_of_lt hk, hb, hp.size, hp.bytes⟩, fun hs => absurd hs hn⟩
  · have hlt := Nat.not_le.mp hr
    apply Op.Ends.of_error (e := .addressOutOfRange address data.size (Contents.size c)) (t := c)
    · simp only [PageCache.write, capacity_below h, checkRange_of_lt hlt]
    · exact ⟨h, ⟨0, Nat.zero_le _, .inl rfl, (Keeps.refl c).writes address data⟩,
        fun _ => ⟨hlt, .refl c, rfl⟩⟩

theorem ends_flush (h : c.Valid sure pageSize) :
    (PageCache.flush : Op (PageCache S H B) Unit).Ends c
      (fun _ t => t.Valid sure pageSize ∧ Keeps c t ∧ ∀ e ∈ t.cache.toList, e.2.dirty = none)
      (fun _ t => t.Valid sure pageSize ∧ Keeps c t ∧ ¬ sure) := by
  have hroom := h.room
  refine (ends_onCache (fun _ u => Keeps c.residents u ∧ ∀ e ∈ u.1, e.2.dirty = none)
    (fun _ u => Keeps c.residents u ∧ ¬ sure) (Recency.Cache.tracks_flushAll Pager.handler) h
    ((Ledger.ends_flushAll h.coherent).mono ?_ ?_)).mono ?_ ?_
  · rintro _ t ⟨hc, hk, hl, hclean⟩
    exact ⟨hc, Nat.le_trans (Nat.le_of_eq hl) hroom, hk, hclean⟩
  · rintro e t ⟨hc, hk, hl, hn⟩
    exact ⟨hc, Nat.le_trans (Nat.le_of_eq hl) hroom, hk, hn⟩
  · rintro _ t ⟨hv, hk, hclean⟩
    exact ⟨hv, keeps_of_residents hk, hclean⟩
  · rintro e t ⟨hv, hk, hn⟩
    exact ⟨hv, keeps_of_residents hk, hn⟩

theorem ends_clear (h : c.Valid sure pageSize) :
    (PageCache.clear : Op (PageCache S H B) Unit).Ends c
      (fun _ t => t.Valid sure pageSize ∧ Keeps c t ∧ t.cache.toList = [])
      (fun _ t => t.Valid sure pageSize ∧ Keeps c t ∧ ¬ sure) := by
  have hroom := h.room
  refine (ends_onCache (fun _ u => Keeps c.residents u ∧ u.1 = [])
    (fun _ u => Keeps c.residents u ∧ ¬ sure) (Recency.Cache.tracks_clear Pager.handler) h
    ((Ledger.ends_evictLoop c.cache.toList.length 0 h.coherent).mono ?_ ?_)).bind ?_ ?_
  · rintro _ t ⟨hc, hk, hl⟩
    have hnil : t.1.entries = [] := List.eq_nil_of_length_eq_zero (hl.trans (Nat.sub_self _))
    exact ⟨hc, by rw [hnil]; exact Nat.zero_le _, hk, hnil⟩
  · rintro e t ⟨hc, hk, hl, hn⟩
    exact ⟨hc, Nat.le_trans hl hroom, hk, hn⟩
  · rintro _ t ⟨hv, hk, hnil⟩
    exact ⟨hv, keeps_of_residents hk, hnil⟩
  · rintro e t ⟨hv, hk, hn⟩
    exact ⟨hv, keeps_of_residents hk, hn⟩

theorem Valid.byteAt_below (h : c.Valid sure pageSize)
    (hc : ∀ e ∈ c.cache.toList, e.2.dirty = none) :
    Contents.byteAt c = Contents.byteAt c.below :=
  byteAt_of_clean h.coherent.nodup h.coherent.agrees hc

theorem ends_below {op : Op B Unit} (h : c.Valid sure pageSize)
    (hclean : ∀ e ∈ c.cache.toList, e.2.dirty = none)
    (hop : op.Ends c.below
      (fun _ b => LawfulBackend.Valid sure b ∧ Keeps c.below b ∧ Contents.Clean b)
      (fun _ b => LawfulBackend.Valid sure b ∧ Keeps c.below b ∧ ¬ sure)) :
    (onBelow op).Ends c
      (fun _ t => t.Valid sure pageSize ∧ Keeps c t ∧ Contents.Clean t)
      (fun _ t => t.Valid sure pageSize ∧ Keeps c t ∧ ¬ sure) := by
  apply (ends_onBelow h hop).mono
  · rintro _ t ⟨hv, hk, hcache, hcb⟩
    have hall : ∀ e ∈ t.cache.toList, e.2.dirty = none := hcache ▸ hclean
    exact ⟨hv, hk, hall, hcb⟩
  · rintro e t ⟨hv, hk, -, hn⟩
    exact ⟨hv, hk, hn⟩

theorem Valid.byteAt_of_size_le (h : c.Valid sure pageSize) {i : Nat} (hi : Contents.size c ≤ i) :
    Contents.byteAt c i = 0 := by
  have hzero : Contents.byteAt c.below i = 0 := LawfulBackend.byteAt_of_size_le h.coherent.below hi
  have hdiv := Nat.div_add_mod i c.pageSize
  have hmod : i % c.pageSize < c.pageSize := Nat.mod_lt i c.pager.pageSize_pos
  rw [Nat.mul_comm] at hdiv
  have hbelow :
      blockOf c.pageSize (Contents.byteAt c.below) (i / c.pageSize) (i % c.pageSize) = 0 := by
    rw [blockOf_of_lt hmod, hdiv, hzero]
  change pageByte c.residents (i / c.pageSize) (i % c.pageSize) = 0
  by_cases hm : i / c.pageSize ∈ c.cache.toList.map Prod.fst
  · obtain ⟨⟨number, page⟩, he, hnumber⟩ := List.mem_map.mp hm
    have hpage : Agrees c.pager number page := h.coherent.agrees _ he
    change number = i / c.pageSize at hnumber
    rw [← hnumber] at hbelow hdiv ⊢
    refine (pageByte_mem h.coherent.nodup he _).trans ((hpage.same _ hmod ?_).trans hbelow)
    -- a modified byte lies inside the store below, and `i` does not
    intro r hr hin
    have hout := (hpage.inside r hr).2
    change number * c.pageSize + r.stop ≤ Contents.size c at hout
    omega
  · exact (pageByte_notMem hm _).trans hbelow

theorem ends_flush_all (h : c.Valid sure pageSize) :
    (Backend.flush : Op (PageCache S H B) Unit).Ends c
      (fun _ t => t.Valid sure pageSize ∧ Keeps c t ∧ Contents.Clean t)
      (fun _ t => t.Valid sure pageSize ∧ Keeps c t ∧ ¬ sure) := by
  apply (ends_flush h).bind
  · rintro _ t ⟨hv, hk, hclean⟩
    apply (ends_below hv hclean (LawfulBackend.ends_flush hv.coherent.below)).mono
    · rintro _ u ⟨hvu, hku, hr⟩
      exact ⟨hvu, hk.trans hku, hr⟩
    · rintro e u ⟨hvu, hku, hn⟩
      exact ⟨hvu, hk.trans hku, hn⟩
  · exact fun e t ht => ht

theorem ends_shutdown (h : c.Valid sure pageSize) :
    (Backend.shutdown : Op (PageCache S H B) Unit).Ends c
      (fun _ t => t.Valid sure pageSize ∧ Keeps c t ∧ Contents.Clean t)
      (fun _ t => t.Valid sure pageSize ∧ Keeps c t ∧ ¬ sure) := by
  apply (ends_clear h).bind
  · rintro _ t ⟨hv, hk, hnil⟩
    have hclean : ∀ e ∈ t.cache.toList, e.2.dirty = none := by
      rw [hnil]
      exact fun e he => absurd he List.not_mem_nil
    apply (ends_below hv hclean (LawfulBackend.ends_shutdown hv.coherent.below)).mono
    · rintro _ u ⟨hvu, hku, hr⟩
      exact ⟨hvu, hk.trans hku, hr⟩
    · rintro e u ⟨hvu, hku, hn⟩
      exact ⟨hvu, hk.trans hku, hn⟩
  · exact fun e t ht => ht

instance : LawfulBackend (PageCache S H B) where
  Valid sure c := c.Valid sure c.pageSize
  capacity_eq h := capacity_below h
  byteAt_of_size_le h hi := h.byteAt_of_size_le hi
  ends_read address length h := (ends_read address length h).mono
    (fun _ _ ht => ⟨ht.1.self, ht.2⟩) fun _ _ ht => ⟨ht.1.self, ht.2⟩
  ends_write address data h := (ends_write address data h).mono
    (fun _ _ ht => ⟨ht.1.self, ht.2⟩)
    fun _ _ ⟨hv, ⟨k, hk, _, hw⟩, hsure⟩ => ⟨hv.self, ⟨k, hk, hw⟩, hsure⟩
  ends_flush h := (ends_flush_all h).mono
    (fun _ _ ht => ⟨ht.1.self, ht.2⟩) fun _ _ ht => ⟨ht.1.self, ht.2⟩
  ends_shutdown h := (ends_shutdown h).mono
    (fun _ _ ht => ⟨ht.1.self, ht.2⟩) fun _ _ ht => ⟨ht.1.self, ht.2⟩

section Building

variable {name : String} {capacity : Nat} {below : B}

structure Fresh (sure : Prop) (pageSize : Nat) (below : B) (c : PageCache S H B) : Prop where
  valid : c.Valid sure pageSize
  size : Contents.size c = Contents.size below
  bytes : Contents.byteAt c = Contents.byteAt below
  clean : Contents.Clean below → Contents.Clean c

omit [PageContents S H] [LawfulStorage S H] [Contents B] [LawfulBackend B] in
theorem create_eq_ok {storage : S} (h : create name pageSize capacity storage below = .ok c) :
    c.cache.IsValid ∧ c.cache.toList = [] ∧ c.capacity = capacity ∧ c.pageSize = pageSize ∧
      c.storage = storage ∧ c.below = below ∧ 0 < capacity := by
  rw [create] at h
  split at h
  · split at h
    · cases h
      have hempty := Recency.Cache.valid_empty (α := Page H) capacity ‹_›
      exact ⟨⟨[], hempty⟩, hempty.toList_eq, rfl, rfl, rfl, rfl, ‹_›⟩
    · cases h
  · cases h

omit [PageContents S H] [LawfulStorage S H] [Contents B] [LawfulBackend B] in
theorem exists_create (name : String) (storage : S) (below : B) (hp : 0 < pageSize)
    (hc : 0 < capacity) :
    ∃ c : PageCache S H B, create name pageSize capacity storage below = .ok c := by
  simp only [create, dif_pos hp, dif_pos hc]
  exact ⟨_, rfl⟩

theorem fresh_create {storage : S} (hb : LawfulBackend.Valid sure below)
    (hs : LawfulStorage.Valid sure pageSize capacity storage ([] : List H))
    (h : create name pageSize capacity storage below = .ok c) : Fresh sure pageSize below c := by
  obtain ⟨hcache, hnil, rfl, rfl, rfl, rfl, -⟩ := create_eq_ok h
  have hentries : ∀ e, e ∉ c.cache.toList := by
    rw [hnil]
    exact fun e => List.not_mem_nil
  have hcoherent : Coherent sure c.pageSize c.capacity c.residents := by
    refine ⟨rfl, ?_, ?_, hb, fun e he => absurd he (hentries e)⟩
    · rw [residents, hnil]
      exact List.nodup_nil
    · rw [residents, hnil]
      exact hs
  have hvalid : c.Valid sure c.pageSize := ⟨hcache, hcoherent, by rw [hnil]; exact Nat.zero_le _⟩
  have hclean : ∀ e ∈ c.cache.toList, e.2.dirty = none := fun e he => absurd he (hentries e)
  exact ⟨hvalid, rfl, hvalid.byteAt_below hclean, fun hb => ⟨hclean, hb⟩⟩

theorem fresh_heap {c : PageCache HeapStorage ByteArray B} {size : Nat}
    (hb : LawfulBackend.Valid sure below) (hs : sure → pageSize ≤ size)
    (h : create name pageSize capacity (⟨size⟩ : HeapStorage) below = .ok c) :
    Fresh sure pageSize below c :=
  fresh_create hb ⟨fun _ hp => absurd hp List.not_mem_nil, hs⟩ h

theorem allocator_init_eq_ok {P D : Type} [BlockProvider P D] [BlockDevice D] {provider : P}
    {blockSize blocks : Nat} {a : Allocator D}
    (h : Allocator.init provider blockSize blocks = .ok a) :
    ∃ device, BlockProvider.init provider blockSize blocks = .ok device ∧ a = { device } := by
  rw [Allocator.init] at h
  cases hd : BlockProvider.init provider blockSize blocks with
  | error e =>
    rw [hd] at h
    cases h
  | ok device =>
    rw [hd] at h
    cases h
    exact ⟨device, rfl, rfl⟩

theorem ofAllocator_eq_ok {D : Type} [BlockDevice D] {a : Allocator D} {roomFor : Nat}
    {storage : BlockStorage D} (h : BlockStorage.ofAllocator a roomFor = .ok storage) :
    storage = ⟨a⟩ := by
  rw [BlockStorage.ofAllocator] at h
  split at h
  · cases h
  · cases h
    rfl

omit [Contents B] [LawfulBackend B] in
theorem overBlocks_eq_ok {P D : Type} [BlockProvider P D] [BlockDevice D] {provider : P}
    {blockSize blocks roomFor : Nat} {c : PageCache (BlockStorage D) Nat B}
    (h : overBlocks name pageSize capacity blockSize blocks roomFor provider below = .ok c) :
    ∃ device, BlockProvider.init provider blockSize blocks = .ok device ∧
      create name pageSize capacity ⟨{ device }⟩ below = .ok c := by
  rw [overBlocks] at h
  split at h
  · cases h
  · rename_i allocator ha
    split at h
    · cases h
    · rename_i storage hs
      split at h
      · cases h
      · rename_i hc
        cases h
        obtain ⟨device, hd, rfl⟩ := allocator_init_eq_ok ha
        rw [ofAllocator_eq_ok hs] at hc
        exact ⟨device, hd, hc⟩

omit [Contents B] [LawfulBackend B] in
theorem exists_overBlocks {P D : Type} [BlockProvider P D] [BlockDevice D] {provider : P}
    {blockSize blocks : Nat} {device : D} (name : String)
    (pageSize capacity roomFor : Nat) (below : B)
    (hd : BlockProvider.init provider blockSize blocks = .ok device)
    (hr : roomFor ≤ BlockDevice.blockSize device) (hp : 0 < pageSize) (hc : 0 < capacity) :
    ∃ c, overBlocks name pageSize capacity blockSize blocks roomFor provider below = .ok c := by
  have hinit : Allocator.init provider blockSize blocks = .ok { device } := by
    rw [Allocator.init, hd]
    rfl
  have hstorage : BlockStorage.ofAllocator ({ device } : Allocator D) roomFor = .ok ⟨{ device }⟩ :=
    if_neg (Nat.not_lt.mpr hr)
  obtain ⟨c, he⟩ := exists_create name (⟨{ device }⟩ : BlockStorage D) below hp hc
  simp only [overBlocks, hinit, hstorage, he]
  exact ⟨c, rfl⟩

omit [Contents B] [LawfulBackend B] in
theorem valid_overBlocks {P D : Type} [BlockProvider P D] [BlockDevice D] [BlockContents D]
    [LawfulDevice D] [LawfulProvider P D] {provider : P} {blockSize blocks roomFor : Nat}
    {c : PageCache (BlockStorage D) Nat B} (hp : LawfulProvider.Ready sure provider)
    (hroom : sure → pageSize ≤ blockSize ∧ capacity ≤ blocks)
    (h : overBlocks name pageSize capacity blockSize blocks roomFor provider below = .ok c) :
    ∃ storage : BlockStorage D, LawfulStorage.Valid sure pageSize capacity storage ([] : List Nat) ∧
      create name pageSize capacity storage below = .ok c := by
  obtain ⟨device, hd, hc⟩ := overBlocks_eq_ok h
  obtain ⟨-, -, -, -, -, -, hpos⟩ := create_eq_ok hc
  obtain ⟨hv, hsize, hcount⟩ := LawfulProvider.valid_of_init hp
    (fun hx => Nat.lt_of_lt_of_le hpos (hroom hx).2) hd
  refine ⟨⟨{ device }⟩, ?_, hc⟩
  apply BlockStorage.valid_fresh hv
  rw [hsize, hcount]
  exact hroom

theorem fresh_overBlocks {P D : Type} [BlockProvider P D] [BlockDevice D] [BlockContents D]
    [LawfulDevice D] [LawfulProvider P D] {provider : P} {blockSize blocks roomFor : Nat}
    {c : PageCache (BlockStorage D) Nat B} (hb : LawfulBackend.Valid sure below)
    (hp : LawfulProvider.Ready sure provider)
    (hroom : sure → pageSize ≤ blockSize ∧ capacity ≤ blocks)
    (h : overBlocks name pageSize capacity blockSize blocks roomFor provider below = .ok c) :
    Fresh sure pageSize below c := by
  obtain ⟨storage, hs, hc⟩ := valid_overBlocks hp hroom h
  exact fresh_create hb hs hc

end Building

theorem dismantle_eq_ok (h : c.Valid sure pageSize) (hs : sure) :
    ∃ p, c.dismantle = (.ok (), p) ∧ LawfulBackend.Valid sure p.below ∧
      Contents.size p.below = Contents.size c ∧ Contents.byteAt p.below = Contents.byteAt c := by
  rcases (ends_clear h).cases with ⟨_, t, he, hv, hk, hnil⟩ | ⟨e, t, he, -, -, hn⟩
  · have hclean : ∀ e ∈ t.cache.toList, e.2.dirty = none := by
      rw [hnil]
      exact fun e he => absurd he List.not_mem_nil
    have hempty : LawfulStorage.Valid sure pageSize t.capacity t.pager.storage ([] : List H) := by
      have := hv.coherent.storage
      rwa [residents, hnil] at this
    have hclose := Pager.ends_onStorage (p := t.pager) (LawfulStorage.ends_close hempty)
    rcases hclose.cases with ⟨_, p, hep, ⟨-, hb, -⟩, -⟩ | ⟨e, p, -, -, hn⟩
    · refine ⟨p, ?_, hb ▸ hv.coherent.below, ?_, ?_⟩
      · simp only [dismantle, he, hep]
      · rw [hb]
        exact hk.size
      · rw [hb, ← hk.bytes]
        exact (hv.byteAt_below hclean).symm
    · exact absurd hs hn
  · exact absurd hs hn

end PageCache

end TieredMemory
