import TieredMemory.Proofs.Page.Demand
import TieredMemory.Proofs.Page.Residency

namespace TieredMemory.PageCache

open Residents Pager Recency Transcript

variable {S H B α : Type}

def displaced (c : PageCache S H B) : List Demand :=
  if c.residentPages = c.capacity then
    match c.cache.keysByRecency.getLast? with
    | some victim => (c.dirtyRange? victim).toList.map fun r =>
      .write (victim * c.pageSize + r.start) r.length
    | none => []
  else []

def demands (limit : Nat) (c : PageCache S H B) (page : Nat) : List Demand :=
  if c.isResident page then []
  else c.displaced ++ [.read (page * c.pageSize)
    (min ((page + 1) * c.pageSize) limit - page * c.pageSize)]

def turn (limit : Nat) (s : Step Action Unit (PageCache S H B)) : List Demand :=
  match s.call.target? with
  | some page => demands limit s.before page
  | none => []

namespace Action

def Inside (pageSize limit : Nat) : Action → Prop
  | read page offset length => 0 < length ∧ offset + length ≤ pageSize ∧
    page * pageSize + (offset + length) ≤ limit
  | write page offset data => 0 < data.size ∧ offset + data.size ≤ pageSize ∧
    page * pageSize + (offset + data.size) ≤ limit
  | _ => False

end Action

section Planned

variable {pageSize limit : Nat}

theorem inside_readActions {address length : Nat} {pieces : List Piece}
    (ht : Tiles pageSize address length pieces) (hr : address + length ≤ limit) :
    ∀ a ∈ pieces.map fun piece => Action.read piece.page piece.offset piece.length,
      a.Inside pageSize limit := by
  induction pieces generalizing address length with
  | nil => exact fun a ha => absurd ha List.not_mem_nil
  | cons piece rest ih =>
    obtain ⟨haddress, hin, hpos, hle, -, hrest⟩ := ht
    rw [List.map_cons, List.forall_mem_cons]
    exact ⟨⟨hpos, hin, by omega⟩, ih hrest (by omega)⟩

theorem inside_writeActions {address : Nat} {data : ByteArray} {pieces : List Piece}
    (ht : Tiles pageSize address data.size pieces) (hr : address + data.size ≤ limit) :
    ∀ a ∈ writeActions data pieces 0, a.Inside pageSize limit := by
  intro a ha
  obtain ⟨page, offset, k, n, rfl, hn, hfit, hat, hk⟩ := of_mem_writeActions ht a ha
  rw [Nat.zero_add]
  have hsize : (Bytes.slice data k n).size = n := Bytes.size_slice hk
  simp only [Action.Inside, hsize]
  exact ⟨hn, hfit, by omega⟩

theorem inside_planned (hp : 0 < pageSize) {access : Call Upkeep} (hr : access.InRange limit)
    (ha : ∀ kind, access ≠ .sync kind) :
    ∀ a ∈ planned pageSize access, a.Inside pageSize limit := by
  cases access with
  | read address length => exact inside_readActions (tiles_pieces hp address length) hr
  | write address data => exact inside_writeActions (tiles_pieces hp address data.size) hr
  | sync kind => exact absurd rfl (ha kind)

theorem exists_target_of_inside {a : Action} (h : a.Inside pageSize limit) :
    ∃ page, a.target? = some page ∧ page * pageSize < limit := by
  cases a with
  | read page offset length =>
    obtain ⟨hpos, -, hr⟩ := h
    exact ⟨page, rfl, by omega⟩
  | write page offset data =>
    obtain ⟨hpos, -, hr⟩ := h
    exact ⟨page, rfl, by omega⟩
  | _ => exact h.elim

theorem lt_of_mem_visits (hp : 0 < pageSize) {access : Call Upkeep} (hr : access.InRange limit)
    (ha : ∀ kind, access ≠ .sync kind) {page : Nat} (hm : page ∈ visits pageSize access) :
    page * pageSize < limit := by
  obtain ⟨a, hm, htarget⟩ := List.mem_filterMap.mp (target?_planned pageSize access ▸ hm)
  obtain ⟨page', htarget', hlt⟩ := exists_target_of_inside (inside_planned hp hr ha a hm)
  exact Option.some.inj (htarget.symm.trans htarget') ▸ hlt

end Planned

variable [PageStorage S H] [PageContents S H] [LawfulStorage S H] [Backend B]
variable {sure : Prop} {pageSize capacity limit number : Nat} {I : B → Prop}

structure Ready (sure : Prop) (pageSize capacity limit : Nat) (I : B → Prop)
    (c : PageCache S H (Transcript B)) : Prop where
  order : Ordered pageSize capacity c
  tended : Tended sure pageSize (some limit) (fun b => I b.below.inner) c

variable {c : PageCache S H (Transcript B)}

omit [Backend B] in
theorem owed_last {C : Type} {d : PageCache S H C} {count : Nat} (hv : d.cache.IsValid)
    (hs : Sound sure pageSize count d.residents) (hfull : d.residentPages = d.capacity) :
    d.displaced = d.cache.ledger.entries.getLast?.toList.flatMap (owed pageSize) := by
  have hp : d.pageSize = pageSize := hs.pageSize_eq
  rw [displaced, if_pos hfull, Recency.Cache.keysByRecency_eq, List.getLast?_map]
  change _ = d.cache.toList.getLast?.toList.flatMap (owed pageSize)
  cases hlast : d.cache.toList.getLast? with
  | none => rfl
  | some e =>
    have hlookup : d.cache.toList.lookup e.1 = some e.2 :=
      (Ledger.lookup_eq_some_iff_mem hs.nodup).mpr (List.mem_of_getLast? hlast)
    have hdirty : d.dirtyRange? e.1 = e.2.dirty := by
      rw [dirtyRange?, hv.peek?_eq, hlookup, Option.bind_some]
    rw [Option.map_some, Option.toList_some, List.flatMap_singleton, owed, ← hdirty, hp]

theorem ends_touch_demand {use : Op (Page H × Pager S (Transcript B)) α}
    (hB : Backend.Bounded limit I) (h : Ready sure pageSize capacity limit I c)
    (hn : number * pageSize < limit) (huse : Ledger.Aside sure pageSize c.capacity number use) :
    (touch number use).Ends c (fun _ t => Grants c.below t.below (demands limit c number))
      (fun _ t => Refuses sure c.below t.below (demands limit c number)) := by
  have hledger := h.tended.ledger
  have hp : c.pageSize = pageSize := h.order.pageSize_eq
  have hlen : c.cache.ledger.keys.length = c.cache.ledger.entries.length := List.length_map _
  have hcapacity := h.order.capacity_eq
  have hcount := h.order.residentPages_eq
  rw [← keys_ledger] at hcount
  have hresident : number ∈ c.cache.ledger.keys ↔ c.isResident number = true := by
    rw [keys_ledger]
    exact h.order.isResident_iff.symm
  apply (ends_touch_ledger (fun _ u => Grants c.below u.2.below (demands limit c number))
    (fun _ u => Refuses sure c.below u.2.below (demands limit c number)) h.tended.cache ?_ ?_).mono
  · exact fun _ t ht => ht.2.2
  · exact fun e t ht => ht.2.2
  · intro hfull
    obtain ⟨hnew, hkeys⟩ := h.order.of_full hfull
    have hdemands : demands limit c number =
        c.cache.ledger.entries.getLast?.toList.flatMap (owed pageSize) ++
          [needed pageSize limit number] := by
      rw [demands, if_neg (hresident.not.mp hnew), hp,
        owed_last h.tended.cache hledger.sound (by omega)]
      rfl
    rw [hdemands]
    exact Ledger.ends_replace_demand hB hnew c.capacity_pos (by omega) hn huse hledger
  · intro hroomy
    have hroom : number ∉ c.cache.ledger.keys → c.cache.ledger.entries.length < c.capacity := by
      intro hnew
      rw [← hlen, hcapacity]
      exact h.order.of_roomy hroomy hnew
    -- either there is nothing to do, or there is room
    have hdemands : demands limit c number =
        if number ∈ c.cache.ledger.keys then [] else [needed pageSize limit number] := by
      by_cases hm : number ∈ c.cache.ledger.keys
      · rw [demands, if_pos (hresident.mp hm), if_pos hm]
      · have hlt := hroom hm
        rw [demands, if_neg (hresident.not.mp hm), if_neg hm, displaced, if_neg (by omega), hp]
        rfl
    rw [hdemands]
    exact Ledger.ends_access_demand hB hroom hn huse hledger

theorem ends_perform_demand (hB : Backend.Bounded limit I) (a : Action)
    (h : Ready sure pageSize capacity limit I c) (ha : a.Inside pageSize limit) :
    (a.perform : Op (PageCache S H (Transcript B)) Unit).Ends c
      (fun _ t => Ready sure pageSize capacity limit I t ∧
        Grants c.below t.below (turn limit ⟨a, .ok (), c, t⟩))
      (fun e t => Refuses sure c.below t.below (turn limit ⟨a, .error e, c, t⟩)) := by
  have hsteady := (serves_inner hB.toServes).steady sure pageSize
  have hblames := PageStorage.blames_true S
  have hcost : (a.perform : Op (PageCache S H (Transcript B)) Unit).Ends c
      (fun _ t => Grants c.below t.below (turn limit ⟨a, .ok (), c, t⟩) ∧
        Tended sure pageSize (some limit) (fun b => I b.below.inner) t)
      (fun e t => Refuses sure c.below t.below (turn limit ⟨a, .error e, c, t⟩)) := by
    cases a with
    | read page offset length =>
      obtain ⟨hpos, hin, hr⟩ := ha
      have hn : page * pageSize < limit := by omega
      apply ((ends_touch_demand hB h hn (Ledger.aside_readPage hin)).and
        (ends_touch_tended hsteady hblames (fun _ hl => Option.some.inj hl ▸ hn)
          (minds_readPage hblames offset length) h.tended)).bind
      · exact fun _ t ht => ht
      · exact fun e t ht => ht.1
    | write page offset data =>
      obtain ⟨hpos, hin, hr⟩ := ha
      have hn : page * pageSize < limit := by omega
      apply ((ends_touch_demand hB h hn (Ledger.aside_writePage hin)).and
        (ends_touch_tended hsteady hblames (fun _ hl => Option.some.inj hl ▸ hn)
          (minds_writePage hblames hin fun _ hl => Option.some.inj hl ▸ hr) h.tended)).mono
      · exact fun _ t ht => ht
      · exact fun e t ht => ht.1
    | _ => exact ha.elim
  apply (hcost.and (ends_perform_order a h.order)).mono
  · exact fun _ t ht => ⟨⟨ht.2.1, ht.1.2⟩, ht.1.1⟩
  · exact fun e t ht => ht.1

theorem ends_inOrder_demand (hB : Backend.Bounded limit I) (actions : List Action)
    (h : Ready sure pageSize capacity limit I c) (ha : ∀ a ∈ actions, a.Inside pageSize limit) :
    (Op.inOrder Action.perform actions).Ends c
      (fun _ t => Grants c.below t.below
        ((Op.attempt Action.perform actions c).flatMap (turn limit)))
      (fun _ t => Refuses sure c.below t.below
        ((Op.attempt Action.perform actions c).flatMap (turn limit))) := by
  induction actions generalizing c with
  | nil => exact Grants.refl c.below
  | cons a actions ih =>
    obtain ⟨hfirst, hrest⟩ := List.forall_mem_cons.mp ha
    rcases (ends_perform_demand hB a h hfirst).cases with
        ⟨_, t, he, ht, hgrants⟩ | ⟨e, t, he, hrefuses⟩
    · rw [Op.Ends, Op.inOrder, Op.bind_apply_ok he]
      simp only [Op.attempt, he, List.flatMap_cons]
      apply (ih ht hrest).mono
      · exact fun _ u hu => hgrants.trans hu
      · exact fun e u hu => hgrants.refuses hu
    · apply Op.Ends.of_error (e := e) (t := t)
      · rw [Op.inOrder, Op.bind_apply_error he]
      · simp only [Op.attempt, he, List.flatMap_singleton]
        exact hrefuses

section Resident

variable {d : PageCache S H B}

omit [PageContents S H] [LawfulStorage S H] in
theorem flatMap_turn_of_resident (actions : List Action) (h : Ordered pageSize capacity d)
    (ha : ∀ a ∈ actions, a.Inside pageSize limit)
    (hr : ∀ page ∈ actions.filterMap Action.target?, d.isResident page = true) :
    (Op.attempt Action.perform actions d).flatMap (turn limit) = [] := by
  induction actions generalizing d with
  | nil => rfl
  | cons a actions ih =>
    obtain ⟨hfirst, hrest⟩ := List.forall_mem_cons.mp ha
    obtain ⟨page, htarget, -⟩ := exists_target_of_inside hfirst
    rw [List.filterMap_cons_some htarget, List.forall_mem_cons] at hr
    obtain ⟨hresident, hothers⟩ := hr
    have hturn : ∀ answer t, turn limit ⟨a, answer, d, t⟩ = [] := by
      intro answer t
      simp only [turn, htarget, demands, hresident, if_true]
    rcases (ends_perform_order a h).cases with ⟨_, t, he, ht, hmoved⟩ | ⟨e, t, he, -⟩
    · simp only [Op.attempt, he, List.flatMap_cons, hturn, List.nil_append]
      -- the page moves to the front, and none has to go for it
      apply ih ht hrest
      intro page' hm
      have hresident' := hothers page' hm
      have hne : a ≠ .clear := by
        rintro rfl
        cases htarget
      have hkeys := hmoved hne
      rw [htarget] at hkeys
      rw [h.isResident_iff] at hresident hresident'
      rw [ht.isResident_iff, hkeys.1,
        bring_of_room h.room fun hnew => absurd hresident hnew, List.mem_cons, List.mem_filter]
      by_cases hp : page' = page
      · exact .inl hp
      · exact .inr ⟨hresident', by simpa using hp⟩
    · simp only [Op.attempt, he, List.flatMap_singleton, hturn]

end Resident

section Access

variable {access : Call Upkeep}

def turns (access : Call Upkeep) (c : PageCache S H B) :
    List (Step Action Unit (PageCache S H B)) :=
  Op.attempt Action.perform (c.actions access) c

structure AsksInTurn (sure : Prop) (limit : Nat) (access : Call Upkeep)
    (c : PageCache S H (Transcript B)) (new : List StoreCall) : Prop where
  calls : (call access c).2.below.calls = c.below.calls ++ new
  order : touched (turns access c) <+: visits c.pageSize access
  started : new.map (·.demand?) <+: ((turns access c).flatMap (turn limit)).map some
  exact_of_ok : (call access c).1.isOk = true →
    touched (turns access c) = visits c.pageSize access ∧
    new.map (·.demand?) = ((turns access c).flatMap (turn limit)).map some ∧
    ∀ call ∈ new, call.succeeded = true
  ok_of_succeeded : sure → (∀ call ∈ new, call.succeeded = true) → (call access c).1.isOk = true
  nonempty : ∀ page ∈ visits c.pageSize access,
    page * c.pageSize < min ((page + 1) * c.pageSize) limit
  idle : (∀ page ∈ visits c.pageSize access, c.isResident page = true) →
    (call access c).2.below = c.below ∧ (sure → (call access c).1.isOk = true)

theorem asksInTurn_of_ready (hB : Backend.Bounded limit I)
    (h : Ready sure pageSize capacity limit I c) (hr : access.InRange limit)
    (ha : ∀ kind, access ≠ .sync kind) : ∃ new, AsksInTurn sure limit access c new := by
  obtain rfl : c.pageSize = pageSize := h.order.pageSize_eq
  have hcapacity : Backend.capacity c.below = some limit := hB.capacity c.below.inner h.tended.books
  have hpos : 0 < c.pageSize := c.pager.pageSize_pos
  have hrange : ∀ l, Backend.capacity c.below = some l → access.InRange l := fun l hl =>
    Option.some.inj (hcapacity.symm.trans hl) ▸ hr
  obtain ⟨hactions, hcall⟩ := inOrder_of_inRange hrange
  have hinside : ∀ a ∈ c.actions access, a.Inside c.pageSize limit :=
    hactions ▸ inside_planned hpos hr ha
  have hvisits : (c.actions access).filterMap Action.target? = visits c.pageSize access :=
    hactions ▸ target?_planned c.pageSize access
  have horder : touched (turns access c) <+: visits c.pageSize access := by
    rw [touched_eq, ← hvisits]
    exact (Op.map_call_attempt _ _ c).filterMap _
  have hnonempty : ∀ page ∈ visits c.pageSize access,
      page * c.pageSize < min ((page + 1) * c.pageSize) limit := by
    intro page hm
    have := lt_of_mem_visits hpos hr ha hm
    rw [Nat.succ_mul]
    omega
  have hidle : (∀ page ∈ visits c.pageSize access, c.isResident page = true) →
      (Op.attempt Action.perform (c.actions access) c).flatMap (turn limit) = [] := fun hresident =>
    flatMap_turn_of_resident _ h.order hinside (hvisits ▸ hresident)
  have hok : (call access c).1.isOk = (Op.inOrder Action.perform (c.actions access) c).1.isOk := by
    rw [hcall]
    cases (call access c).1 <;> rfl
  have hstate := inOrder_actions access c
  rcases (ends_inOrder_demand hB (c.actions access) h hinside).cases with
    ⟨_, t, he, new, hheard, hdemands, hall⟩ | ⟨e, t, he, new, hheard, hdemands, hfail⟩
  · rw [he] at hok hstate
    obtain rfl : t = (call access c).2 := hstate
    have htouched : touched (turns access c) = visits c.pageSize access := by
      rw [touched_eq, turns, (Op.attempt_of_ok he).1, hvisits]
    refine ⟨new, hheard.calls, horder, hdemands ▸ List.prefix_rfl,
      fun _ => ⟨htouched, hdemands, hall⟩, fun _ _ => hok, hnonempty, fun hresident => ?_⟩
    rw [hidle hresident] at hdemands
    exact ⟨hheard.idle (List.map_eq_nil_iff.mp hdemands), fun _ => hok⟩
  · rw [he] at hok hstate
    obtain rfl : t = (call access c).2 := hstate
    have hnot : (call access c).1.isOk ≠ true := fun htrue =>
      absurd (hok.symm.trans htrue) Bool.false_ne_true
    refine ⟨new, hheard.calls, horder, hdemands, fun hok => absurd hok hnot, fun hsure hall => ?_,
      hnonempty, fun hresident => ?_⟩
    · obtain ⟨call, hm, hcall⟩ := hfail hsure
      rw [hall call hm] at hcall
      cases hcall
    · rw [hidle hresident] at hdemands
      have hnil : new = [] := List.map_eq_nil_iff.mp (List.prefix_nil.mp hdemands)
      refine ⟨hheard.idle hnil, fun hsure => ?_⟩
      obtain ⟨call, hm, -⟩ := hfail hsure
      rw [hnil] at hm
      cases hm

def logged (requests : List (Call Upkeep)) (c : PageCache S H B) : PageCache S H (Transcript B) :=
  (run call requests (c.mapBelow Transcript.start)).2

theorem ready_logged {name : String} {storage : S} {below : B} {c : PageCache S H B}
    (hB : Backend.Bounded limit I) (hb : I below)
    (hs : LawfulStorage.Valid sure pageSize capacity storage ([] : List H))
    (hc : create name pageSize capacity storage below = .ok c) (requests : List (Call Upkeep)) :
    Ready sure pageSize capacity limit I (logged requests c) := by
  obtain ⟨-, -, -, -, -, hbelow, -⟩ := create_eq_ok hc
  have hblank := (blank_create hs hc).mapBelow (Transcript.start (β := B))
  have horder := ordered_create hc
  have hstart : Ordered pageSize capacity (c.mapBelow Transcript.start) :=
    ⟨horder.cache, horder.pageSize_eq, horder.capacity_eq, horder.room⟩
  have hinner : I c.below := hbelow ▸ hb
  refine ⟨ordered_run requests hstart, ?_⟩
  exact tended_run ((serves_inner hB.toServes).steady sure pageSize) (PageStorage.blames_true S)
    (hblank.tended hinner) requests

/-- An access asks the store below for exactly what the turns of its pages take. If it succeeds its
pages had their turns from low to high, and all that they took was granted; otherwise it stopped on
the way, at a call that was refused unless the storage failed. What is loaded is never empty. An
access whose pages are all resident asks for nothing and changes nothing below, and storage that
does not fail lets it succeed whatever the store below would answer. -/
theorem asks_below_in_turn {name : String} {storage : S} {below : B} {c : PageCache S H B}
    (hB : Backend.Bounded limit I) (hb : I below)
    (hs : LawfulStorage.Valid sure pageSize capacity storage ([] : List H))
    (hc : create name pageSize capacity storage below = .ok c) (requests : List (Call Upkeep))
    (access : Call Upkeep) (hr : access.InRange limit) (ha : ∀ kind, access ≠ .sync kind) :
    (logged requests c).mapBelow Transcript.inner = (run call requests c).2 ∧
    call access (run call requests c).2 = ((call access (logged requests c)).1,
      (call access (logged requests c)).2.mapBelow Transcript.inner) ∧
    ∃ new, AsksInTurn sure limit access (logged requests c) new := by
  have hrun : (logged requests c).mapBelow Transcript.inner = (run call requests c).2 :=
    run_mapBelow Transcript.hom_inner requests (c.mapBelow Transcript.start)
  refine ⟨hrun, ?_, asksInTurn_of_ready hB (ready_logged hB hb hs hc requests) hr ha⟩
  rw [← hrun]
  exact commutes_call Transcript.hom_inner access (logged requests c)

theorem asks_below_in_turn_refusing :
    ∃ c : PageCache HeapStorage ByteArray (Gate FlatMemory),
      create "tier" 4 2 ⟨4⟩ { inner := .ofSize 11, onRead := .burst 3 9, onWrite := .burst 1 9 } =
        .ok c ∧
      (call (.read 0 11) (logged [.write 2 ⟨#[1, 2, 3]⟩] c)).2.below.calls.map (·.demand?) =
        [some (.read 0 4), some (.read 4 4), some (.write 2 2), some (.read 8 3)] ∧
      (∃ new, AsksInTurn True 11 (.read 0 11) (logged [.write 2 ⟨#[1, 2, 3]⟩] c) new) ∧
      (call (.write 5 ⟨#[4, 5, 6, 7]⟩)
        (logged [.write 2 ⟨#[1, 2, 3]⟩, .read 0 11] c)).1.isOk = true := by
  have hs : HeapStorage.Valid True 4 ⟨4⟩ [] :=
    ⟨fun _ hp => absurd hp List.not_mem_nil, fun _ => Nat.le_refl 4⟩
  have hb : Gate.Valid False
      ({ inner := .ofSize 11, onRead := .burst 3 9, onWrite := .burst 1 9 } : Gate FlatMemory) :=
    ⟨trivial, rfl, False.elim⟩
  have hc : create "tier" 4 2 (⟨4⟩ : HeapStorage)
      ({ inner := .ofSize 11, onRead := .burst 3 9, onWrite := .burst 1 9 } : Gate FlatMemory) =
        .ok _ := rfl
  refine ⟨_, hc, by decide +kernel, ?_, ?_⟩
  · exact (asks_below_in_turn (LawfulBackend.bounded 11) ⟨hb, rfl⟩ hs hc _ (.read 0 11)
      (show 0 + 11 ≤ 11 by decide) (by rintro _ ⟨⟩)).2.2
  · obtain ⟨-, -, new, hnew⟩ := asks_below_in_turn (LawfulBackend.bounded 11) ⟨hb, rfl⟩ hs hc
      [.write 2 ⟨#[1, 2, 3]⟩, .read 0 11] (.write 5 ⟨#[4, 5, 6, 7]⟩) (show 5 + 4 ≤ 11 by decide)
      (by rintro _ ⟨⟩)
    exact (hnew.idle (by decide +kernel)).2 trivial

end Access

end TieredMemory.PageCache
