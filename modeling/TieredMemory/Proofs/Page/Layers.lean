import TieredMemory.Proofs.Backend.Layers
import TieredMemory.Proofs.Page.Traffic

namespace TieredMemory

namespace Traffic

variable {B : Type} [Backend B] [Contents B] [LawfulBackend B] [Layers B] [LawfulLayers B]
variable {pageSize : Nat} {bytes : Nat → Nat → UInt8} {coming : Nat → UInt8}
variable {dirty d : Nat → Option DirtyRange} {below b : B} {refused : Bool}

theorem takes_after_write {t : B} {address : Nat} {data : ByteArray} {answer : Except Error Unit}
    (hb : LawfulBackend.Valid False b) (ht : Takes coming below b)
    (hs : Bytes.Shows coming address data.size data)
    (hw : Backend.write address data b = (answer, t)) :
    LawfulBackend.Valid False t ∧ Takes coming below t := by
  have hwrite := LawfulLayers.takes_write hb hs
  have hvalid := LawfulBackend.valid_write address data hb
  rw [hw] at hwrite hvalid
  exact ⟨hvalid, ht.trans hwrite⟩

theorem takes (h : Traffic pageSize bytes dirty below d b refused)
    (hv : LawfulBackend.Valid False below)
    (hshow : ∀ page r data, dirty page = some r → Bytes.Shows (bytes page) r.start r.length data →
      Bytes.Shows coming (page * pageSize + r.start) data.size data) :
    LawfulBackend.Valid False b ∧ Takes coming below b := by
  induction h with
  | start => exact ⟨hv, .refl coming below⟩
  | read address length _ ih =>
    obtain ⟨hb, ht⟩ := ih
    exact ⟨(LawfulBackend.kept_read address length hb).1,
      ht.trans (LawfulLayers.takes_read address length coming hb)⟩
  | flush _ ih =>
    obtain ⟨hb, ht⟩ := ih
    exact ⟨(LawfulBackend.kept_flush hb).1, ht.trans (LawfulLayers.takes_flush coming hb)⟩
  | shutdown _ ih =>
    obtain ⟨hb, ht⟩ := ih
    exact ⟨(LawfulBackend.kept_shutdown hb).1, ht.trans (LawfulLayers.takes_shutdown coming hb)⟩
  | written h hd hs hw ih =>
    obtain ⟨hb, ht⟩ := ih
    exact takes_after_write hb ht (hshow _ _ _ (h.eq_of_some hd) hs) hw
  | refused h hd hs hw ih =>
    obtain ⟨hb, ht⟩ := ih
    exact takes_after_write hb ht (hshow _ _ _ (h.eq_of_some hd) hs) hw

end Traffic

namespace PageCache

open Residents

variable {S H B : Type} [PageStorage S H] [PageContents S H] [LawfulStorage S H]
variable [Backend B] [Contents B] [LawfulBackend B]
variable {pageSize : Nat} {c : PageCache S H B}

theorem Valid.traced (h : c.Valid False pageSize) : Traced pageSize c :=
  ⟨h.cache, h.coherent.pageSize_eq, h.coherent.nodup, h.coherent.storage⟩

theorem Valid.shows {page : Nat} {r : DirtyRange} {data : ByteArray} (h : c.Valid False pageSize)
    (hr : c.dirtyRange? page = some r) (hs : Bytes.Shows (c.stored page) r.start r.length data) :
    Bytes.Shows (Contents.byteAt c) (page * pageSize + r.start) data.size data := by
  obtain ⟨p, hp, hd⟩ := Option.bind_eq_some_iff.mp hr
  have hmem : (page, p) ∈ c.cache.toList := by
    rw [h.cache.peek?_eq] at hp
    exact (Recency.Ledger.lookup_eq_some_iff_mem h.coherent.nodup).mp hp
  have hstop := ((h.coherent.agrees _ hmem).inside r hd).1
  have hsize : c.residents.2.pageSize = pageSize := h.coherent.pageSize_eq
  have hl := hs.1
  change r.stop ≤ c.residents.2.pageSize at hstop
  rw [DirtyRange.stop] at hstop
  refine ⟨rfl, fun i hi => ?_⟩
  have hlt : r.start + i < c.residents.2.pageSize := by omega
  have hview := blockOf_byteAt c.residents page hlt
  rw [blockOf_of_lt hlt, hsize] at hview
  rw [hs.2 i (by omega), Nat.add_assoc]
  refine Eq.trans ?_ hview.symm
  rw [stored, hp]
  exact (pageByte_mem h.coherent.nodup hmem _).symm

namespace Action

def onBytes (pageSize : Nat) : Action → (Nat → UInt8) → Nat → UInt8
  | write page offset data, m => Bytes.overlay (page * pageSize + offset) data m
  | _, m => m

def Within (pageSize size : Nat) : Action → Prop
  | read _ offset length => offset + length ≤ pageSize
  | write page offset data =>
    offset + data.size ≤ pageSize ∧ page * pageSize + offset + data.size ≤ size
  | _ => True

end Action

omit [PageStorage S H] [LawfulStorage S H] [Backend B] [LawfulBackend B] in
theorem ends_kept {α : Type} {P : PageCache S H B → Prop} {op : Op (PageCache S H B) α}
    {ok : α → PageCache S H B → Prop} {bad : Error → PageCache S H B → Prop}
    (h : op.Ends c (fun a t => P t ∧ Keeps c t ∧ ok a t) (fun e t => P t ∧ Keeps c t ∧ bad e t)) :
    op.Ends c
      (fun _ t => P t ∧ Contents.size t = Contents.size c ∧
        Contents.byteAt t = Contents.byteAt c)
      (fun _ t => P t ∧ Contents.size t = Contents.size c ∧
        Contents.byteAt t = Contents.byteAt c) := by
  apply h.mono
  · exact fun a t ht => ⟨ht.1, ht.2.1.size, ht.2.1.bytes⟩
  · exact fun e t ht => ⟨ht.1, ht.2.1.size, ht.2.1.bytes⟩

theorem ends_perform_bytes (a : Action) (h : c.Valid False pageSize)
    (ha : a.Within pageSize (Contents.size c)) :
    a.perform.Ends c
      (fun _ t => t.Valid False pageSize ∧ Contents.size t = Contents.size c ∧
        Contents.byteAt t = a.onBytes pageSize (Contents.byteAt c))
      (fun _ t => t.Valid False pageSize ∧ Contents.size t = Contents.size c ∧
        Contents.byteAt t = Contents.byteAt c) := by
  cases a with
  | read page offset length =>
    let piece : Piece := ⟨page, offset, length⟩
    have hin : piece.offset + piece.length ≤ pageSize := ha
    apply (ends_readPiece h hin).bind
    · exact fun _ t ht => ⟨ht.1, ht.2.1.size, ht.2.1.bytes⟩
    · exact fun e t ht => ⟨ht.1, ht.2.1.size, ht.2.1.bytes⟩
  | write page offset data =>
    let piece : Piece := ⟨page, offset, data.size⟩
    have hin : piece.offset + piece.length ≤ pageSize := ha.1
    apply (ends_writePiece h rfl hin ha.2).mono
    · exact fun _ t ht => ht
    · exact fun e t ht => ⟨ht.1, ht.2.1.size, ht.2.1.bytes⟩
  | flush => exact ends_kept (ends_flush h)
  | clear => exact ends_kept (ends_clear h)
  | flushBelow => exact ends_kept (ends_onBelow h (LawfulBackend.ends_flush h.coherent.below))
  | shutdownBelow => exact ends_kept (ends_onBelow h (LawfulBackend.ends_shutdown h.coherent.below))

theorem within_actions (h : c.Valid False pageSize) (request : Call Upkeep) :
    ∀ a ∈ c.actions request, a.Within pageSize (Contents.size c) := by
  have hp : c.pageSize = pageSize := h.coherent.pageSize_eq
  cases request with
  | read address length =>
    intro a ha
    have hfits := fits_actions c _ a ha
    simp only [actions] at ha
    split at ha
    · cases ha
    · obtain ⟨piece, -, rfl⟩ := List.mem_map.mp ha
      exact hp ▸ hfits.2
  | write address data =>
    intro a ha
    obtain ⟨page, offset, k, n, rfl, -, hfit, hat, hk, hc⟩ :=
      of_mem_actions_write c address data a ha
    have hsize : (Bytes.slice data k n).size = n := Bytes.size_slice hk
    rw [capacity_below h, checkRange_eq_ok_iff] at hc
    rw [hp] at hfit hat
    simp only [Action.Within, hsize]
    exact ⟨hfit, by omega⟩
  | sync kind => cases kind <;> simp [actions, Action.Within]

theorem valid_call (h : c.Valid False pageSize) (request : Call Upkeep) :
    (call request c).2.Valid False pageSize ∧
      Contents.size (call request c).2 = Contents.size c := by
  have hrun := Op.runs_attempt Action.perform (c.actions request) c
  rw [inOrder_actions] at hrun
  apply hrun.always (P := fun t => t.Valid False pageSize ∧ Contents.size t = Contents.size c)
    (Q := fun a => a.Within pageSize (Contents.size c))
  · exact Op.forall_mem_attempt (within_actions h request) c
  · rintro a t ha ⟨hv, hs⟩
    apply Op.Ends.always
      (P := fun u : PageCache S H B =>
        u.Valid False pageSize ∧ Contents.size u = Contents.size c)
    apply (ends_perform_bytes a hv (hs ▸ ha)).mono
    · exact fun _ u hu => ⟨hu.1, hu.2.1.trans hs⟩
    · exact fun e u hu => ⟨hu.1, hu.2.1.trans hs⟩
  · exact ⟨h, rfl⟩

theorem preserves_mapBelow {C : Type} [Backend C] [Contents C] [LawfulBackend C]
    {f : B → C} (hf : Preserves f) :
    Preserves (mapBelow f : PageCache S H B → PageCache S H C) where
  size c := hf.size c.below
  bytes c := by
    funext i
    change pageByte (c.cache.toList, c.pager.mapBelow f) _ _ =
      pageByte (c.cache.toList, c.pager) _ _
    simp only [pageByte, Pager.mapBelow, hf.bytes]
    rfl
  clean c h := ⟨h.1, hf.clean c.below h.2⟩
  valid c h := by
    have hagrees : ∀ e ∈ c.cache.toList, Agrees (c.pager.mapBelow f) e.1 e.2 := by
      intro e he
      refine ⟨fun i hi hr => ?_, fun r hr => ?_⟩
      · simp only [Pager.mapBelow, hf.bytes]
        exact (h.coherent.agrees e he).same i hi hr
      · simp only [Pager.mapBelow, hf.size]
        exact (h.coherent.agrees e he).inside r hr
    exact ⟨h.cache, ⟨rfl, h.coherent.nodup, h.coherent.storage, hf.valid _ h.coherent.below,
      hagrees⟩, h.room⟩

variable [Layers B]

instance : Layers (PageCache S H B) where
  lower c i := layers c.below i
  states c := Layers.states c.below

variable [LawfulLayers B]

theorem takes_below (a : Action) (h : c.Valid False pageSize) :
    Takes (Contents.byteAt c) c.below (a.perform c).2.below := by
  have hmove : ∃ d refused,
      Traffic pageSize c.stored c.dirtyRange? c.below d (a.perform c).2.below refused := by
    apply Op.Ends.always (P := fun t : PageCache S H B => ∃ d refused,
      Traffic pageSize c.stored c.dirtyRange? c.below d t.below refused)
    apply (ends_perform a h.traced).mono
    · rintro _ t ⟨-, d, ht, -⟩
      exact ⟨d, false, ht⟩
    · rintro e t ⟨-, refused, ht⟩
      exact ⟨_, refused, ht⟩
  obtain ⟨d, refused, ht⟩ := hmove
  exact (ht.takes h.coherent.below fun page r data hr hs => h.shows hr hs).2

def Action.Brings (pageSize : Nat) (coming : Nat → UInt8) (a : Action) : Prop :=
  ∀ m i, a.onBytes pageSize m i = m i ∨ a.onBytes pageSize m i = coming i

omit [PageStorage S H] [PageContents S H] [LawfulStorage S H] [Contents B] [LawfulBackend B]
  [Layers B] [LawfulLayers B] in
theorem brings_actions {request : Call Upkeep} {coming : Nat → UInt8} (hp : c.pageSize = pageSize)
    (hr : ∀ address data, request = .write address data →
      Bytes.Shows coming address data.size data) :
    ∀ a ∈ c.actions request, a.Brings pageSize coming := by
  cases request with
  | read address length =>
    intro a ha
    simp only [actions] at ha
    split at ha
    · cases ha
    · obtain ⟨piece, -, rfl⟩ := List.mem_map.mp ha
      exact fun m i => .inl rfl
  | write address data =>
    intro a ha
    obtain ⟨page, offset, k, n, rfl, -, hfit, hat, hk, -⟩ :=
      of_mem_actions_write c address data a ha
    rw [hp] at hat
    intro m i
    simp only [Action.onBytes, hat]
    exact ((hr address data rfl).slice hk).overlay m i
  | sync kind => cases kind <;> simp [actions, Action.Brings, Action.onBytes]

structure Fed (pageSize : Nat) (coming : Nat → UInt8) (c t : PageCache S H B) : Prop where
  valid : t.Valid False pageSize
  size : Contents.size t = Contents.size c
  takes : Takes coming c t

theorem fed_perform {coming : Nat → UInt8} {t : PageCache S H B} {a : Action}
    (h : Fed pageSize coming c t) (ha : a.Within pageSize (Contents.size c))
    (hb : a.Brings pageSize coming) : Fed pageSize coming c (a.perform t).2 := by
  have hbytes : (a.perform t).2.Valid False pageSize ∧
      Contents.size (a.perform t).2 = Contents.size t ∧
      ∀ i, Contents.byteAt (a.perform t).2 i = Contents.byteAt t i ∨
        Contents.byteAt (a.perform t).2 i = coming i := by
    apply Op.Ends.always (P := fun u : PageCache S H B => u.Valid False pageSize ∧
      Contents.size u = Contents.size t ∧ ∀ i, Contents.byteAt u i = Contents.byteAt t i ∨
        Contents.byteAt u i = coming i)
    apply (ends_perform_bytes a h.valid (h.size ▸ ha)).mono
    · rintro _ u ⟨hv, hs, hu⟩
      exact ⟨hv, hs, fun i => hu ▸ hb _ i⟩
    · rintro e u ⟨hv, hs, hu⟩
      exact ⟨hv, hs, fun i => .inl (congrFun hu i)⟩
  obtain ⟨hv, hs, hbyte⟩ := hbytes
  -- first the layers below take bytes of the tier, then the tier takes what comes in
  obtain ⟨fresh, hstates, hf⟩ := takes_below a h.valid
  refine ⟨hv, hs.trans h.size, h.takes.trans ⟨fresh, hstates, fun i => ?_⟩⟩
  rw [layers, ← List.append_assoc]
  rcases hbyte i with hi | hi
  · rw [hi]
    exact (hf i).concat.append_right _
  · rw [hi]
    exact (hf i).append (.refl _)

theorem takes_call {coming : Nat → UInt8} (request : Call Upkeep) (h : c.Valid False pageSize)
    (hr : ∀ address data, request = .write address data →
      Bytes.Shows coming address data.size data) : Takes coming c (call request c).2 := by
  have hp : c.pageSize = pageSize := h.coherent.pageSize_eq
  have hrun := Op.runs_attempt Action.perform (c.actions request) c
  rw [inOrder_actions] at hrun
  have hall : ∀ a ∈ c.actions request,
      a.Within pageSize (Contents.size c) ∧ a.Brings pageSize coming :=
    fun a ha => ⟨within_actions h request a ha, brings_actions hp hr a ha⟩
  have hfed : Fed pageSize coming c (call request c).2 := by
    apply hrun.always (Q := fun a => a.Within pageSize (Contents.size c) ∧ a.Brings pageSize coming)
    · exact Op.forall_mem_attempt hall c
    · exact fun a t ha ht => fed_perform ht ha.1 ha.2
    · exact ⟨h, rfl, .refl coming c⟩
  exact hfed.takes

instance : LawfulLayers (PageCache S H B) where
  takes_read address length coming h := by
    exact takes_call (.read address length) h fun _ _ he => by cases he
  takes_write {c address data coming} h hd := by
    have := takes_call (.write address data) h fun _ _ he => by cases he; exact hd
    rwa [call, Op.state_answer] at this
  takes_flush {c} coming h := by
    have : Takes coming c (call (.sync .flushAll) c).2 := takes_call _ h fun _ _ he => by cases he
    rwa [call, Op.state_answer] at this
  takes_shutdown {c} coming h := by
    have : Takes coming c (call (.sync .shutdown) c).2 := takes_call _ h fun _ _ he => by cases he
    rwa [call, Op.state_answer] at this
  lower_of_clean {c i} h hc := by
    have hbytes : Contents.byteAt c = Contents.byteAt c.below := h.byteAt_below hc.1
    change ∀ v ∈ layers c.below i, _
    rw [layers, List.forall_mem_append, hbytes]
    exact ⟨LawfulLayers.lower_of_clean h.coherent.below hc.2, by simp⟩

end PageCache

end TieredMemory
