import Mathlib.Data.List.Forall2
import TieredMemory.Proofs.Page.Traffic
import TieredMemory.Proofs.Recency.Recent
import TieredMemory.Proofs.Recency.Requests

namespace TieredMemory

variable {S H B S' H' B' α : Type}

namespace Pager

variable [PageStorage S H]

@[simp] theorem pageSize_onStorage (op : Op S α) (p : Pager S B) :
    (onStorage op p).2.pageSize = p.pageSize := rfl

@[simp] theorem pageSize_onHandle (op : Op (H × S) α) (handle : H) (p : Pager S B) :
    (onHandle op (handle, p)).2.2.pageSize = p.pageSize := rfl

theorem pageSize_readPage (offset length : Nat) (page : Page H) (p : Pager S B) :
    (readPage offset length (page, p)).2.2.pageSize = p.pageSize := rfl

theorem pageSize_writePage (offset : Nat) (data : ByteArray) (page : Page H) (p : Pager S B) :
    (writePage offset data (page, p)).2.2.pageSize = p.pageSize := by
  have hwrite := pageSize_onHandle (PageStorage.write offset data) page.handle p
  rcases he : onHandle (PageStorage.write offset data) (page.handle, p) with ⟨e | _, handle, t⟩
  · rw [he] at hwrite
    simp only [writePage, he]
    exact hwrite
  · rw [he] at hwrite
    simp only [writePage, he]
    exact hwrite

variable [Backend B]

@[simp] theorem pageSize_onBelow (op : Op B α) (p : Pager S B) :
    (onBelow op p).2.pageSize = p.pageSize := rfl

theorem pageSize_fetch (number : Nat) (p : Pager S B) :
    (fetch number p).2.pageSize = p.pageSize := by
  rw [fetch]
  split
  · rfl
  · have hread := pageSize_onBelow (Backend.read (p.pageAddress number) (p.readable number)) p
    rcases he : onBelow (Backend.read (p.pageAddress number) (p.readable number)) p with ⟨e | _, t⟩
    · rwa [he] at hread
    · rwa [he] at hread

theorem pageSize_load (number : Nat) (handle : H) (p : Pager S B) :
    (load number (handle, p)).2.2.pageSize = p.pageSize := by
  have hfetch := pageSize_fetch number p
  rcases he : fetch number p with ⟨e | bytes, t⟩
  · rw [he] at hfetch
    simp only [load, he]
    exact hfetch
  · rw [he] at hfetch
    simp only [load, he]
    exact (pageSize_onHandle (PageStorage.write 0 bytes) handle t).trans hfetch

theorem pageSize_fault (number : Nat) (p : Pager S B) :
    (fault number p).2.pageSize = p.pageSize := by
  have hacquire := pageSize_onStorage (PageStorage.acquire : Op S H) p
  rcases he : onStorage PageStorage.acquire p with ⟨e | handle, t⟩
  · rw [he] at hacquire
    simp only [fault, he]
    exact hacquire
  · rw [he] at hacquire
    have hload := (pageSize_load number handle t).trans hacquire
    rcases hl : load number (handle, t) with ⟨e | _, handle', u⟩
    · rw [hl] at hload
      have hrelease := (pageSize_onStorage (PageStorage.release handle') u).trans hload
      simp only [fault, he, hl]
      rcases hr : onStorage (PageStorage.release handle') u with ⟨_ | _, v⟩
      · rwa [hr] at hrelease
      · rwa [hr] at hrelease
    · rw [hl] at hload
      simp only [fault, he, hl]
      exact hload

theorem pageSize_writeBack (number : Nat) (handle : H) (range : DirtyRange) (p : Pager S B) :
    (writeBack number handle range p).2.pageSize = p.pageSize := by
  have hread := pageSize_onStorage (PageStorage.read handle range.start range.length : Op S _) p
  rw [writeBack]
  rcases he : onStorage (PageStorage.read handle range.start range.length) p with ⟨e | bytes, t⟩
  · rw [he] at hread
    rw [Op.bind_apply_error he]
    exact hread
  · rw [he] at hread
    rw [Op.bind_apply_ok he]
    have hwrite := (pageSize_onBelow
      (Backend.write (p.pageAddress number + range.start) bytes) t).trans hread
    rcases hw : onBelow (Backend.write (p.pageAddress number + range.start) bytes) t with ⟨e | _, u⟩
    · rw [hw] at hwrite
      rw [Op.bind_apply_error hw]
      exact hwrite
    · rw [hw] at hwrite
      rw [Op.bind_apply_ok hw]
      exact hwrite

theorem pageSize_flush (number : Nat) (page : Page H) (p : Pager S B) :
    (flush number (page, p)).2.2.pageSize = p.pageSize := by
  cases hd : page.dirty with
  | none => simp only [flush, hd]
  | some range =>
    have hback := pageSize_writeBack number page.handle range p
    rcases he : writeBack number page.handle range p with ⟨e | _, t⟩
    · rw [he] at hback
      simp only [flush, hd, he]
      exact hback
    · rw [he] at hback
      simp only [flush, hd, he]
      exact hback

theorem keeps_pageSize (n : Nat) :
    (handler : Recency.Handler (Pager S B) (Page H)).Keeps fun p => p.pageSize = n where
  fault number p hp := (pageSize_fault number p).trans hp
  flush number page p hp := (pageSize_flush number page p).trans hp
  release _ page p hp := (pageSize_onStorage (PageStorage.release page.handle) p).trans hp

end Pager

namespace PageCache

open Recency

section Steps

variable {pageSize capacity number : Nat} {c : PageCache S H B}

structure Ordered (pageSize capacity : Nat) (c : PageCache S H B) : Prop where
  cache : c.cache.IsValid
  pageSize_eq : c.pageSize = pageSize
  capacity_eq : c.capacity = capacity
  room : c.cache.keysByRecency.length ≤ capacity

def Moved (capacity : Nat) (target : Option Nat) (c t : PageCache S H B) : Prop :=
  match target with
  | some page => t.cache.keysByRecency = bring capacity page c.cache.keysByRecency ∧
    Judged (page ∈ c.cache.keysByRecency) c.cache.lookups t.cache.lookups
  | none => t.cache.keysByRecency = c.cache.keysByRecency ∧ t.cache.lookups = c.cache.lookups

theorem keys_ledger (c : PageCache S H B) : c.cache.ledger.keys = c.cache.keysByRecency :=
  (Recency.Cache.keysByRecency_eq c.cache).symm

theorem Ordered.isResident_iff (h : Ordered pageSize capacity c) :
    c.isResident number = true ↔ number ∈ c.cache.keysByRecency := by
  rw [isResident, h.cache.contains_eq, Option.isSome_iff_ne_none, ne_eq,
    Ledger.lookup_eq_none_iff_notMem, not_not, Recency.Cache.keysByRecency_eq]

theorem Ordered.residentPages_eq (h : Ordered pageSize capacity c) :
    c.residentPages = c.cache.keysByRecency.length := by
  rw [residentPages, h.cache.count_eq, Recency.Cache.keysByRecency_eq, List.length_map]

theorem Ordered.of_full (h : Ordered pageSize capacity c)
    (hfull : c.cache.contains number = false ∧ c.capacity ≤ c.cache.count) :
    number ∉ c.cache.ledger.keys ∧ c.cache.ledger.keys.length = capacity := by
  have hcount : c.cache.count = c.cache.keysByRecency.length := h.residentPages_eq
  have hroom := h.room
  have hcapacity := h.capacity_eq
  rw [keys_ledger, ← h.isResident_iff]
  exact ⟨ne_true_of_eq_false hfull.1, by omega⟩

theorem Ordered.of_roomy (h : Ordered pageSize capacity c)
    (hroomy : ¬ (c.cache.contains number = false ∧ c.capacity ≤ c.cache.count))
    (hnew : number ∉ c.cache.ledger.keys) : c.cache.ledger.keys.length < capacity := by
  have hcount : c.cache.count = c.cache.keysByRecency.length := h.residentPages_eq
  rw [keys_ledger, ← h.isResident_iff] at hnew
  rw [keys_ledger, ← hcount, ← h.capacity_eq]
  exact Nat.not_le.mp fun hle => hroomy ⟨Bool.eq_false_iff.mpr hnew, hle⟩

variable [PageStorage S H] [Backend B]

theorem ends_access_order {use : Op (Page H × Pager S B) α} {l : Ledger (Page H)} {p : Pager S B}
    (huse : ∀ page p, (use (page, p)).2.2.pageSize = p.pageSize) (hp : p.pageSize = pageSize)
    (hl : l.keys.length ≤ capacity) (hroom : number ∉ l.keys → l.keys.length < capacity) :
    (Ledger.access Pager.handler number use).Ends (l, p)
      (fun _ t => t.1.keys = bring capacity number l.keys ∧
        Judged (number ∈ l.keys) l.lookups t.1.lookups ∧ t.2.pageSize = pageSize)
      (fun _ t => t.1.keys.length ≤ capacity ∧ t.2.pageSize = pageSize) := by
  have hkeep : ∀ page q, q.pageSize = pageSize → (use (page, q)).2.2.pageSize = pageSize :=
    fun page q hq => (huse page q).trans hq
  have haccess := Ledger.ends_access_keys (l := l) (Pager.keeps_pageSize pageSize) number hkeep hp
  rw [← bring_of_room hl hroom] at haccess
  apply haccess.mono
  · exact fun _ _ ht => ht
  · rintro e t ⟨hkeys | hkeys, hpt⟩
    · exact ⟨hkeys ▸ hl, hpt⟩
    · exact ⟨hkeys ▸ length_bring_le capacity number l.keys, hpt⟩

theorem ends_touch_order {use : Op (Page H × Pager S B) α}
    (huse : ∀ page p, (use (page, p)).2.2.pageSize = p.pageSize)
    (h : Ordered pageSize capacity c) :
    (touch number use).Ends c
      (fun _ t => Ordered pageSize capacity t ∧ Moved capacity (some number) c t)
      (fun _ t => Ordered pageSize capacity t) := by
  have hkeys := keys_ledger c
  have hroom := h.room
  have hpos := h.capacity_eq ▸ c.capacity_pos
  rw [← hkeys] at hroom
  apply (ends_touch_ledger
    (fun _ u => u.1.keys = bring capacity number c.cache.ledger.keys ∧
      Judged (number ∈ c.cache.ledger.keys) c.cache.ledger.lookups u.1.lookups ∧
      u.2.pageSize = pageSize)
    (fun _ u => u.1.keys.length ≤ capacity ∧ u.2.pageSize = pageSize) h.cache ?_ ?_).mono
  · rintro _ t ⟨hv, hc, hbring, hjudged, hp⟩
    rw [keys_ledger, hkeys] at hbring
    rw [hkeys] at hjudged
    refine ⟨⟨hv, hp, hc.trans h.capacity_eq, ?_⟩, hbring, hjudged⟩
    rw [hbring]
    exact length_bring_le _ _ _
  · rintro e t ⟨hv, hc, hl, hp⟩
    exact ⟨hv, hp, hc.trans h.capacity_eq, keys_ledger t ▸ hl⟩
  · intro hfull
    obtain ⟨hnew, hlen⟩ := h.of_full hfull
    apply (Ledger.ends_evictLoop_keys (Pager.keeps_pageSize pageSize) 1 0 h.pageSize_eq).bind
    · rintro _ ⟨l, p⟩ ⟨htake, hhits, hmisses, hp⟩
      have hl : l.keys.length < capacity := by
        rw [htake, List.length_take]
        omega
      have hn : number ∉ l.keys := fun hm => hnew (List.mem_of_mem_take (htake ▸ hm))
      apply (ends_access_order huse hp (Nat.le_of_lt hl) fun _ => hl).mono
      · rintro _ t ⟨hbring, hjudged, hpt⟩
        refine ⟨?_, ?_, hpt⟩
        · rw [hbring, bring_of_room (Nat.le_of_lt hl) fun _ => hl, filter_ne_of_notMem hn,
            bring_of_full hpos hlen hnew]
          exact congrArg (number :: ·) htake
        · obtain ⟨hhits', hmisses'⟩ := hjudged.misses hn
          exact ⟨fun hm => absurd hm hnew,
            fun _ => ⟨hhits'.trans hhits, hmisses'.trans (congrArg (· + 1) hmisses)⟩⟩
      · exact fun e t ht => ht
    · rintro e t ⟨hfront, hp⟩
      exact ⟨hfront.length_le.trans hroom, hp⟩
  · exact fun hroomy => ends_access_order huse h.pageSize_eq hroom (h.of_roomy hroomy)

omit [PageStorage S H] in
theorem ends_onBelow_order {op : Op B Unit} (h : Ordered pageSize capacity c) :
    (onBelow op).Ends c (fun _ t => Ordered pageSize capacity t ∧ Moved capacity none c t)
      (fun _ t => Ordered pageSize capacity t) := by
  apply (ends_onBelow_pager (c := c) (Op.ends_true op c.below)).mono
  · rintro _ _ ⟨pager, rfl, hp, -⟩
    exact ⟨⟨h.cache, hp.pageSize.trans h.pageSize_eq, h.capacity_eq, h.room⟩, rfl, rfl⟩
  · rintro _ _ ⟨pager, rfl, hp, -⟩
    exact ⟨h.cache, hp.pageSize.trans h.pageSize_eq, h.capacity_eq, h.room⟩

theorem ends_flush_order (h : Ordered pageSize capacity c) :
    (flush : Op (PageCache S H B) Unit).Ends c
      (fun _ t => Ordered pageSize capacity t ∧ Moved capacity none c t)
      (fun _ t => Ordered pageSize capacity t) := by
  have hflush := Ledger.ends_flushAll_keys (l := c.cache.ledger)
    (Pager.keeps_pageSize (S := S) (H := H) (B := B) pageSize) h.pageSize_eq
  apply (ends_onCache_ledger _ _ (Recency.Cache.tracks_flushAll Pager.handler) h.cache hflush).mono
  · rintro _ t ⟨hv, hc, hkeys, hlookups, hp⟩
    rw [keys_ledger, keys_ledger] at hkeys
    exact ⟨⟨hv, hp, hc.trans h.capacity_eq, hkeys ▸ h.room⟩, hkeys, hlookups⟩
  · rintro e t ⟨hv, hc, hkeys, -, hp⟩
    rw [keys_ledger, keys_ledger] at hkeys
    exact ⟨hv, hp, hc.trans h.capacity_eq, hkeys ▸ h.room⟩

theorem ordered_clear (h : Ordered pageSize capacity c) :
    (clear : Op (PageCache S H B) Unit).Ends c (fun _ t => Ordered pageSize capacity t)
      (fun _ t => Ordered pageSize capacity t) := by
  have hclear := Ledger.ends_evictLoop_keys (l := c.cache.ledger)
    (Pager.keeps_pageSize (S := S) (H := H) (B := B) pageSize) c.cache.toList.length 0 h.pageSize_eq
  apply (ends_onCache_ledger _ _ (Recency.Cache.tracks_clear Pager.handler) h.cache hclear).bind
  · rintro _ t ⟨hv, hc, hkeys, -, -, hp⟩
    refine ⟨hv, hp, hc.trans h.capacity_eq, ?_⟩
    rw [keys_ledger, keys_ledger] at hkeys
    rw [hkeys]
    exact (List.length_take_le' _ _).trans h.room
  · rintro e t ⟨hv, hc, hfront, hp⟩
    rw [keys_ledger, keys_ledger] at hfront
    exact ⟨hv, hp, hc.trans h.capacity_eq, hfront.length_le.trans h.room⟩

theorem ends_perform_order (a : Action) (h : Ordered pageSize capacity c) :
    (a.perform : Op (PageCache S H B) Unit).Ends c
      (fun _ t => Ordered pageSize capacity t ∧ (a ≠ .clear → Moved capacity a.target? c t))
      (fun _ t => Ordered pageSize capacity t) := by
  cases a with
  | read page offset length =>
    apply (ends_touch_order (Pager.pageSize_readPage offset length) h).bind
    · exact fun _ t ht => ⟨ht.1, fun _ => ht.2⟩
    · exact fun e t ht => ht
  | write page offset data =>
    apply (ends_touch_order (Pager.pageSize_writePage offset data) h).mono
    · exact fun _ t ht => ⟨ht.1, fun _ => ht.2⟩
    · exact fun e t ht => ht
  | flush => exact (ends_flush_order h).mono (fun _ _ ht => ⟨ht.1, fun _ => ht.2⟩) fun _ _ ht => ht
  | clear =>
    exact (ordered_clear h).mono (fun _ _ ht => ⟨ht, fun hn => absurd rfl hn⟩) fun _ _ ht => ht
  | flushBelow =>
    exact (ends_onBelow_order h).mono (fun _ _ ht => ⟨ht.1, fun _ => ht.2⟩) fun _ _ ht => ht
  | shutdownBelow =>
    exact (ends_onBelow_order h).mono (fun _ _ ht => ⟨ht.1, fun _ => ht.2⟩) fun _ _ ht => ht

theorem ordered_perform (a : Action) (h : Ordered pageSize capacity c) :
    Ordered pageSize capacity (a.perform c).2 :=
  ((ends_perform_order a h).mono (fun _ _ ht => ht.1) fun _ _ ht => ht).always

theorem ordered_run (requests : List (Call Upkeep)) (h : Ordered pageSize capacity c) :
    Ordered pageSize capacity (run call requests c).2 :=
  (runs_steps requests c).always (Q := fun _ => True) (fun _ _ => trivial)
    (fun a _ _ => ordered_perform a) h

theorem ordered_create {name : String} {storage : S} {below : B}
    (h : create name pageSize capacity storage below = .ok c) : Ordered pageSize capacity c := by
  obtain ⟨hv, hnil, hc, hp, -, -, -⟩ := create_eq_ok h
  refine ⟨hv, hp, hc, ?_⟩
  rw [Recency.Cache.keysByRecency_eq, hnil]
  exact Nat.zero_le _

end Steps

section Requests

variable {pageSize capacity : Nat}

def span (pageSize address length : Nat) : List Nat :=
  if length = 0 then []
  else
    List.range' (address / pageSize) ((address + length - 1) / pageSize + 1 - address / pageSize)

def visits (pageSize : Nat) : Call Upkeep → List Nat
  | .read address length => span pageSize address length
  | .write address data => span pageSize address data.size
  | .sync _ => []

def planned (pageSize : Nat) : Call Upkeep → List Action
  | .read address length => (pieces pageSize address length).map fun piece =>
    .read piece.page piece.offset piece.length
  | .write address data => writeActions data (pieces pageSize address data.size) 0
  | .sync .flush => [.flush]
  | .sync .flushAll => [.flush, .flushBelow]
  | .sync .clear => [.clear]
  | .sync .shutdown => [.clear, .shutdownBelow]

def Plain : Call Upkeep → Prop
  | .sync .clear => False
  | .sync .shutdown => False
  | _ => True

instance (request : Call Upkeep) : Decidable (Plain request) := by
  cases request with
  | sync kind => cases kind <;> unfold Plain <;> infer_instance
  | _ => unfold Plain; infer_instance

theorem map_page_pieces (pageSize address length : Nat) :
    (pieces pageSize address length).map Piece.page = span pageSize address length := by
  by_cases hz : length = 0
  · rw [pieces, span, if_pos hz, if_pos hz]
    rfl
  · rw [pieces_eq pageSize address (Nat.pos_of_ne_zero hz), span, if_neg hz, List.map_map]
    exact List.map_id _

theorem target?_writeActions (data : ByteArray) (pieces : List Piece) (done : Nat) :
    (writeActions data pieces done).filterMap Action.target? = pieces.map Piece.page := by
  induction pieces generalizing done with
  | nil => rfl
  | cons piece pieces ih =>
    rw [writeActions, List.map_cons, ← ih (done + piece.length)]
    rfl

theorem target?_planned (pageSize : Nat) (request : Call Upkeep) :
    (planned pageSize request).filterMap Action.target? = visits pageSize request := by
  cases request with
  | read address length =>
    rw [planned, visits, ← map_page_pieces, List.filterMap_map]
    exact congrFun (List.filterMap_eq_map (f := Piece.page)) _
  | write address data => rw [planned, visits, ← map_page_pieces, target?_writeActions]
  | sync kind => cases kind <;> rfl

variable [PageStorage S H] [Backend B] [PageStorage S' H'] [Backend B']

omit [PageStorage S H] in
theorem checkRange_below_eq_ok_iff {c : PageCache S H B} {address length : Nat} :
    checkRange address length (Backend.capacity c.below) = .ok () ↔
      ∀ limit, Backend.capacity c.below = some limit → address + length ≤ limit := by
  cases hlimit : Backend.capacity c.below with
  | none => simp [checkRange]
  | some limit => simp [checkRange_eq_ok_iff]

theorem inRange_of_ok {request : Call Upkeep} {bytes : ByteArray} {c t : PageCache S H B}
    (h : call request c = (.ok bytes, t)) :
    ∀ limit, Backend.capacity c.below = some limit → request.InRange limit := by
  cases request with
  | read address length =>
    simp only [call, read] at h
    cases hc : checkRange address length (Backend.capacity c.below) with
    | error e =>
      rw [hc] at h
      cases h
    | ok _ => exact checkRange_below_eq_ok_iff.mp hc
  | write address data =>
    have hw : write address data c = (.ok (), t) := Op.ok_of_answer h
    simp only [write] at hw
    cases hc : checkRange address data.size (Backend.capacity c.below) with
    | error e =>
      rw [hc] at hw
      cases hw
    | ok _ => exact checkRange_below_eq_ok_iff.mp hc
  | sync kind => exact fun _ _ => trivial

theorem inOrder_of_inRange {request : Call Upkeep} {c : PageCache S H B}
    (h : ∀ limit, Backend.capacity c.below = some limit → request.InRange limit) :
    c.actions request = planned c.pageSize request ∧
      Op.inOrder Action.perform (c.actions request) c =
        ((call request c).1.map fun _ => (), (call request c).2) := by
  cases request with
  | read address length =>
    have hc := checkRange_below_eq_ok_iff.mpr h
    simp only [actions, planned, call, read, hc]
    exact ⟨trivial, inOrder_readPieces _ .empty c⟩
  | write address data =>
    have hc := checkRange_below_eq_ok_iff.mpr h
    rw [call, ← Op.eq_map_answer]
    simp only [actions, planned, write, hc]
    exact ⟨trivial, inOrder_writePieces _ _ _ _⟩
  | sync kind =>
    cases kind with
    | flush => exact ⟨rfl, (congrFun (Op.inOrder_singleton _ _) c).trans (Op.eq_map_answer _ _ c)⟩
    | flushAll => exact ⟨rfl, (congrFun (Op.inOrder_pair _ _ _) c).trans (Op.eq_map_answer _ _ c)⟩
    | clear => exact ⟨rfl, (congrFun (Op.inOrder_singleton _ _) c).trans (Op.eq_map_answer _ _ c)⟩
    | shutdown => exact ⟨rfl, (congrFun (Op.inOrder_pair _ _ _) c).trans (Op.eq_map_answer _ _ c)⟩

theorem inOrder_of_ok {request : Call Upkeep} {bytes : ByteArray} {c t : PageCache S H B}
    (h : call request c = (.ok bytes, t)) :
    c.actions request = planned c.pageSize request ∧
      Op.inOrder Action.perform (c.actions request) c = (.ok (), t) := by
  obtain ⟨hactions, hall⟩ := inOrder_of_inRange (inRange_of_ok h)
  rw [h] at hall
  exact ⟨hactions, hall⟩

theorem steps_of_ok {requests : List (Call Upkeep)} {c : PageCache S H B}
    (h : Ordered pageSize capacity c)
    (hok : ∀ answer ∈ (run call requests c).1, answer.isOk = true) :
    (steps requests c).map (·.call) = requests.flatMap (planned pageSize) ∧
      ∀ s ∈ steps requests c, s.answer = .ok () := by
  induction requests generalizing c with
  | nil => exact ⟨rfl, fun _ hm => absurd hm List.not_mem_nil⟩
  | cons request requests ih =>
    obtain ⟨hfirst, hrest⟩ := List.forall_mem_cons.mp hok
    obtain ⟨bytes, t, hcall⟩ : ∃ bytes t, call request c = (.ok bytes, t) := by
      rcases he : call request c with ⟨_ | bytes, t⟩
      · have herror : (call request c).1.isOk = true := hfirst
        rw [he] at herror
        cases herror
      · exact ⟨bytes, t, rfl⟩
    obtain ⟨hactions, hall⟩ := inOrder_of_ok hcall
    obtain ⟨hcalls, hanswers⟩ := Op.attempt_of_ok hall
    have hnext : Ordered pageSize capacity (call request c).2 := ordered_run [request] h
    obtain ⟨hcalls', hanswers'⟩ := ih hnext hrest
    constructor
    · rw [steps, List.map_append, hcalls, hactions, hcalls', List.flatMap_cons]
      exact congrArg (planned · request ++ _) h.pageSize_eq
    · exact List.forall_mem_append.mpr ⟨hanswers, hanswers'⟩

end Requests

section Recent

variable {pageSize capacity : Nat} {c : PageCache S H B}

def touched {σ : Type} (past : List (Step Action Unit σ)) : List Nat :=
  past.filterMap (·.call.target?)

structure Holds (capacity : Nat) (past : List Nat) (c : PageCache S H B) : Prop where
  order : c.cache.keysByRecency = (recent past).take capacity
  isResident : ∀ page, c.isResident page = true ↔ Near capacity past page
  residentPages : c.residentPages = min capacity past.toFinset.card

structure Touches (capacity : Nat) (past : List Nat) (s : Step Action Unit (PageCache S H B)) :
    Prop where
  before : Holds capacity past s.before
  after : Holds capacity (past ++ s.call.target?.toList) s.after
  hit : ∀ page, s.call.target? = some page → Near capacity past page →
    s.after.stats.hits = s.before.stats.hits + 1 ∧ s.after.stats.misses = s.before.stats.misses
  miss : ∀ page, s.call.target? = some page → ¬ Near capacity past page →
    s.after.stats.hits = s.before.stats.hits ∧ s.after.stats.misses = s.before.stats.misses + 1
  idle : s.call.target? = none →
    s.after.stats.hits = s.before.stats.hits ∧ s.after.stats.misses = s.before.stats.misses

theorem holds_of_order {past : List Nat} (h : Ordered pageSize capacity c)
    (ho : c.cache.keysByRecency = (recent past).take capacity) : Holds capacity past c where
  order := ho
  isResident page := by rw [h.isResident_iff, ho, mem_take_recent_iff]
  residentPages := by rw [h.residentPages_eq, ho, List.length_take, length_recent]

variable [PageStorage S H] [Backend B]

theorem touches_of_ok {past : List Nat} {a : Action} {t : PageCache S H B}
    (h : Ordered pageSize capacity c) (ho : c.cache.keysByRecency = (recent past).take capacity)
    (hn : a ≠ .clear) (he : a.perform c = (.ok (), t)) :
    t.cache.keysByRecency = (recent (past ++ a.target?.toList)).take capacity ∧
      Touches capacity past ⟨a, .ok (), c, t⟩ := by
  obtain ⟨ht, hmoved⟩ := (ends_perform_order a h).ok_of_eq he
  have hmoved := hmoved hn
  cases htarget : a.target? with
  | none =>
    rw [htarget] at hmoved
    obtain ⟨hkeys, hlookups⟩ := hmoved
    have hafter : t.cache.keysByRecency = (recent (past ++ [])).take capacity := by
      rw [hkeys, ho, List.append_nil]
    refine ⟨hafter, ?_⟩
    constructor
    · exact holds_of_order h ho
    · exact holds_of_order ht (htarget ▸ hafter)
    · exact fun page hp => nomatch htarget.symm.trans hp
    · exact fun page hp => nomatch htarget.symm.trans hp
    · exact fun _ => ⟨congrArg Lookups.hits hlookups, congrArg Lookups.misses hlookups⟩
  | some page =>
    rw [htarget] at hmoved
    obtain ⟨hkeys, hjudged⟩ := hmoved
    have hpos : 0 < capacity := h.capacity_eq ▸ c.capacity_pos
    have hafter : t.cache.keysByRecency = (recent (past ++ [page])).take capacity := by
      rw [hkeys, ho, bring_take_recent hpos]
    rw [ho, mem_take_recent_iff] at hjudged
    refine ⟨hafter, ?_⟩
    constructor
    · exact holds_of_order h ho
    · exact holds_of_order ht (htarget ▸ hafter)
    · intro page' hp hnear
      cases htarget.symm.trans hp
      exact hjudged.hits hnear
    · intro page' hp hnear
      cases htarget.symm.trans hp
      exact hjudged.misses hnear
    · exact fun hp => nomatch htarget.symm.trans hp

theorem touched_eq {σ : Type} (past : List (Step Action Unit σ)) :
    touched past = (past.map (·.call)).filterMap Action.target? := by
  rw [List.filterMap_map]
  rfl

theorem touched_concat {σ : Type} (past : List (Step Action Unit σ)) (s : Step Action Unit σ) :
    touched (past ++ [s]) = touched past ++ s.call.target?.toList := by
  rw [touched, List.filterMap_append]
  cases h : s.call.target? <;> simp [touched, h]

theorem ne_clear_of_plain {requests : List (Call Upkeep)}
    (h : ∀ request ∈ requests, Plain request) :
    ∀ a ∈ requests.flatMap (planned pageSize), a ≠ .clear := by
  intro a ha
  obtain ⟨request, hm, ha⟩ := List.mem_flatMap.mp ha
  have hplain := h request hm
  rintro rfl
  cases request with
  | read address length => simp [planned] at ha
  | write address data =>
    have hwrite : ∀ (pieces : List Piece) (done : Nat), .clear ∉ writeActions data pieces done := by
      intro pieces
      induction pieces with
      | nil => exact fun _ => List.not_mem_nil
      | cons piece pieces ih => simp [writeActions, ih]
    exact hwrite _ 0 ha
  | sync kind => cases kind <;> simp [planned, Plain] at ha hplain

structure Lru (pageSize capacity : Nat) (requests : List (Call Upkeep)) (c : PageCache S H B) :
    Prop where
  touched_eq : touched (steps requests c) = requests.flatMap (visits pageSize)
  after : Holds capacity (requests.flatMap (visits pageSize)) (run call requests c).2
  each : ∀ pre s post, steps requests c = pre ++ s :: post → Touches capacity (touched pre) s

def Follows (pageSize capacity : Nat) (past : List (Step Action Unit (PageCache S H B)))
    (c : PageCache S H B) : Prop :=
  (∀ s ∈ past, s.answer = .ok () ∧ s.call ≠ .clear) →
    Ordered pageSize capacity c ∧ c.cache.keysByRecency = (recent (touched past)).take capacity

theorem Follows.concat {past : List (Step Action Unit (PageCache S H B))} {a : Action}
    {answer : Except Error Unit} {t : PageCache S H B} (h : Follows pageSize capacity past c)
    (he : a.perform c = (answer, t)) :
    Follows pageSize capacity (past ++ [⟨a, answer, c, t⟩]) t := by
  intro hall
  obtain ⟨hpast, hlast⟩ := List.forall_mem_append.mp hall
  obtain ⟨hanswer, hn⟩ := hlast _ List.mem_cons_self
  obtain ⟨ho, hkeys⟩ := h hpast
  have hok : a.perform c = (.ok (), t) := by rw [he, ← hanswer]
  rw [touched_concat]
  exact ⟨((ends_perform_order a ho).ok_of_eq hok).1, (touches_of_ok ho hkeys hn hok).1⟩

variable {name : String} {storage : S} {below : B} {requests : List (Call Upkeep)}

theorem follows_create (h : create name pageSize capacity storage below = .ok c) :
    Follows pageSize capacity [] c := by
  intro _
  refine ⟨ordered_create h, ?_⟩
  rw [Recency.Cache.keysByRecency_eq, (create_eq_ok h).2.1]
  exact List.take_nil.symm

theorem lru_run (hc : create name pageSize capacity storage below = .ok c)
    (hplain : ∀ request ∈ requests, Plain request)
    (hok : ∀ answer ∈ (run call requests c).1, answer.isOk = true) :
    Lru pageSize capacity requests c := by
  obtain ⟨hcalls, hanswers⟩ := steps_of_ok (ordered_create hc) hok
  have hcalm : ∀ s ∈ steps requests c, s.answer = .ok () ∧ s.call ≠ .clear := fun s hs =>
    ⟨hanswers s hs, ne_clear_of_plain hplain _ (hcalls ▸ List.mem_map_of_mem hs)⟩
  have hruns := runs_steps requests c
  have hfollow : ∀ past a (t : PageCache S H B) answer u, Action.perform a t = (answer, u) →
      Follows pageSize capacity past t →
        Follows pageSize capacity (past ++ [⟨a, answer, t, u⟩]) u := by
    intro past a t answer u he ht
    exact ht.concat he
  have htouched : touched (steps requests c) = requests.flatMap (visits pageSize) := by
    rw [touched_eq, hcalls, List.filterMap_flatMap]
    exact congrArg (requests.flatMap ·) (funext (target?_planned pageSize))
  refine ⟨htouched, ?_, ?_⟩
  · obtain ⟨ho, hkeys⟩ := hruns.past (follows_create hc) hfollow hcalm
    exact holds_of_order ho (htouched ▸ hkeys)
  · intro pre s post hs
    obtain ⟨-, he, ht⟩ := hruns.split (Q := fun _ => True) (fun _ _ => trivial) (follows_create hc)
      (fun past a t answer u _ => hfollow past a t answer u) hs
    obtain ⟨hpre, hrest⟩ := List.forall_mem_append.mp (hs ▸ hcalm)
    obtain ⟨hanswer, hn⟩ := hrest s List.mem_cons_self
    obtain ⟨ho, hkeys⟩ := ht hpre
    rw [hanswer] at he
    obtain ⟨a, answer, b, t⟩ := s
    cases hanswer
    exact (touches_of_ok ho hkeys hn he).2

end Recent

section Inclusion

variable {pageSize capacity capacity' : Nat} {c : PageCache S H B} {d : PageCache S' H' B'}

structure Exceeded (s : Step Action Unit (PageCache S H B))
    (t : Step Action Unit (PageCache S' H' B')) : Prop where
  call : s.call = t.call
  before : ∀ page, s.before.isResident page = true → t.before.isResident page = true
  after : ∀ page, s.after.isResident page = true → t.after.isResident page = true
  hit : s.after.stats.hits = s.before.stats.hits + 1 →
    t.after.stats.hits = t.before.stats.hits + 1
  miss : t.after.stats.misses = t.before.stats.misses + 1 →
    s.after.stats.misses = s.before.stats.misses + 1

theorem exceeded_of_touches {past : List Nat} {s : Step Action Unit (PageCache S H B)}
    {t : Step Action Unit (PageCache S' H' B')} (hle : capacity ≤ capacity')
    (hs : Touches capacity past s) (ht : Touches capacity' past t) (hcall : s.call = t.call) :
    Exceeded s t := by
  have hmono : ∀ {past : List Nat} {c : PageCache S H B} {d : PageCache S' H' B'},
      Holds capacity past c → Holds capacity' past d →
      ∀ page, c.isResident page = true → d.isResident page = true :=
    fun hc hd page hp => (hd.isResident page).mpr (((hc.isResident page).mp hp).mono hle)
  constructor
  · exact hcall
  · exact hmono hs.before ht.before
  · exact hmono (hcall ▸ hs.after) ht.after
  · intro hhit
    cases htarget : s.call.target? with
    | none =>
      have := (hs.idle htarget).1
      omega
    | some page =>
      by_cases hnear : Near capacity past page
      · exact (ht.hit page (hcall ▸ htarget) (hnear.mono hle)).1
      · have := (hs.miss page htarget hnear).1
        omega
  · intro hmiss
    cases htarget : t.call.target? with
    | none =>
      have := (ht.idle htarget).2
      omega
    | some page =>
      by_cases hnear : Near capacity' past page
      · have := (ht.hit page htarget hnear).2
        omega
      · exact (hs.miss page (hcall ▸ htarget) fun h => hnear (h.mono hle)).2

variable [PageStorage S H] [Backend B] [PageStorage S' H'] [Backend B']

theorem exceeded_steps {requests : List (Call Upkeep)} (hle : capacity ≤ capacity')
    (hc : Lru pageSize capacity requests c) (hd : Lru pageSize capacity' requests d)
    (hcalls : (steps requests c).map (·.call) = (steps requests d).map (·.call)) :
    List.Forall₂ Exceeded (steps requests c) (steps requests d) := by
  have hlength : (steps requests c).length = (steps requests d).length := by
    simpa using congrArg List.length hcalls
  apply List.forall₂_of_length_eq_of_get hlength
  intro i hi hi'
  have hsplit : ∀ {γ : Type} (xs : List γ) (h : i < xs.length),
      xs = xs.take i ++ xs.get ⟨i, h⟩ :: xs.drop (i + 1) := by
    intro γ xs h
    rw [List.get_eq_getElem, List.getElem_cons_drop, List.take_append_drop]
  have hpast : touched ((steps requests c).take i) = touched ((steps requests d).take i) := by
    rw [touched_eq, touched_eq, List.map_take, List.map_take, hcalls]
  have hs := hc.each _ _ _ (hsplit _ hi)
  have ht := hd.each _ _ _ (hsplit _ hi')
  rw [← hpast] at ht
  apply exceeded_of_touches hle hs ht
  have hcall := List.getElem_of_eq hcalls (i := i) (by simpa using hi)
  rwa [List.getElem_map, List.getElem_map] at hcall

/-- A tier on which nothing fails keeps exactly the pages that were touched last, as many as there
is room for, and a touch is a hit if and only if its page is one of them. A larger tier that is used
in the same way has all pages of the smaller one at every step, and hits where that one hits. A tier
never has more pages than its capacity, whatever is asked of it and whatever fails. -/
theorem residency_is_lru {name name' : String} {storage : S} {storage' : S'} {below : B}
    {below' : B'} {requests : List (Call Upkeep)}
    (hc : create name pageSize capacity storage below = .ok c)
    (hd : create name' pageSize capacity' storage' below' = .ok d) (hle : capacity ≤ capacity')
    (hplain : ∀ request ∈ requests, Plain request)
    (hok : ∀ answer ∈ (run call requests c).1, answer.isOk = true)
    (hok' : ∀ answer ∈ (run call requests d).1, answer.isOk = true) :
    Lru pageSize capacity requests c ∧
    List.Forall₂ Exceeded (steps requests c) (steps requests d) ∧
    (∀ page, (run call requests c).2.isResident page = true →
      (run call requests d).2.isResident page = true) ∧
    ∀ requests' : List (Call Upkeep),
      (run call requests' c).2.residentPages ≤ capacity ∧
      ∀ s ∈ steps requests' c,
        s.before.residentPages ≤ capacity ∧ s.after.residentPages ≤ capacity := by
  have hlru := lru_run hc hplain hok
  have hlru' := lru_run hd hplain hok'
  have hcalls := (steps_of_ok (ordered_create hc) hok).1
  have hcalls' := (steps_of_ok (ordered_create hd) hok').1
  have hroom : ∀ {t : PageCache S H B}, Ordered pageSize capacity t → t.residentPages ≤ capacity :=
    fun ht => ht.residentPages_eq ▸ ht.room
  refine ⟨hlru, exceeded_steps hle hlru hlru' (hcalls.trans hcalls'.symm), ?_, ?_⟩
  · intro page hp
    exact (hlru'.after.isResident page).mpr (((hlru.after.isResident page).mp hp).mono hle)
  · intro requests'
    refine ⟨hroom (ordered_run requests' (ordered_create hc)), fun s hs => ?_⟩
    obtain ⟨hbefore, hafter⟩ := (runs_steps requests' c).states
      (fun a _ => ordered_perform a) (ordered_create hc) s hs
    exact ⟨hroom hbefore, hroom hafter⟩

theorem residency_is_lru_scan :
    ∃ (c d : PageCache HeapStorage ByteArray FlatMemory),
      create "small" 4 1 (⟨4⟩ : HeapStorage) (.ofSize 11) = .ok c ∧
      create "large" 4 2 (⟨4⟩ : HeapStorage) (.ofSize 11) = .ok d ∧
      (steps [.write 2 ⟨#[1, 2, 3]⟩, .sync .flush, .read 4 1, .read 0 11] c).map
        (fun s => (s.call.target?, s.after.stats.hits, s.after.cache.keysByRecency)) =
        [(some 0, 0, [0]), (some 1, 0, [1]), (none, 0, [1]), (some 1, 1, [1]), (some 0, 1, [0]),
          (some 1, 1, [1]), (some 2, 1, [2])] ∧
      (steps [.write 2 ⟨#[1, 2, 3]⟩, .sync .flush, .read 4 1, .read 0 11] d).map
        (fun s => (s.call.target?, s.after.stats.hits, s.after.cache.keysByRecency)) =
        [(some 0, 0, [0]), (some 1, 0, [1, 0]), (none, 0, [1, 0]), (some 1, 1, [1, 0]),
          (some 0, 2, [0, 1]), (some 1, 3, [1, 0]), (some 2, 3, [2, 1])] ∧
      Lru 4 1 [.write 2 ⟨#[1, 2, 3]⟩, .sync .flush, .read 4 1, .read 0 11] c := by
  have hc : create "small" 4 1 (⟨4⟩ : HeapStorage) (FlatMemory.ofSize 11) = .ok _ := rfl
  have hd : create "large" 4 2 (⟨4⟩ : HeapStorage) (FlatMemory.ofSize 11) = .ok _ := rfl
  refine ⟨_, _, hc, hd, by decide +kernel, by decide +kernel, ?_⟩
  exact (residency_is_lru hc hd (by decide) (by decide) (by decide +kernel) (by decide +kernel)).1

end Inclusion

end PageCache

end TieredMemory
