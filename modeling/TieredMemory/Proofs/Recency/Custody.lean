import TieredMemory.Proofs.Recency.Alike
import TieredMemory.Proofs.Recency.Interruption

namespace TieredMemory.Recency

variable {σ α : Type}

namespace Reply

def map {β : Type} (f : α → β) : Reply α → Reply β
  | .value found => .value (found.map f)
  | .flag b => .flag b
  | .evicted n => .evicted n
  | .done => .done

end Reply

def Pairs.numbers (es : Pairs α (Item α)) : List (Nat × Nat) := es.map fun e => (e.1, e.2.2.number)

structure Numbered (es : Pairs α (Item α)) (x : σ × List (Callback α)) (y : σ × List (Event α)) :
    Prop where
  world : x = (y.1, callbacks y.2)
  values : ∀ e ∈ es, e.2.1 = e.2.2.value
  account : Account y.2 es.numbers

structure Persisted (key : Nat) (v : α) (item : Item α) (es : Pairs α (Item α))
    (x : σ × List (Callback α)) (y : σ × List (Event α)) : Prop extends
    Numbered ((key, v, item) :: es) x y where
  flush : ∃ first before, y.2 = first ++ [.flush key before, .flushed key item] ∧
    before.number = item.number

namespace Numbered

variable {es es' : Pairs α (Item α)} {x : σ × List (Callback α)} {y : σ × List (Event α)}
variable {key : Nat} {v : α} {item : Item α}

theorem perm (h : Numbered es x y) (hp : es.Perm es') : Numbered es' x y :=
  ⟨h.world, fun e he => h.values e (hp.mem_iff.mpr he), h.account.perm (hp.map _)⟩

theorem change (h : Numbered ((key, v, item) :: es) x y) (w : α) :
    Numbered ((key, w, { item with value := w }) :: es) x y := by
  refine ⟨h.world, List.forall_mem_cons.mpr ⟨rfl, ?_⟩, h.account⟩
  exact (List.forall_mem_cons.mp h.values).2

theorem keys_numbers (es : Pairs α (Item α)) : es.numbers.map Prod.fst = es.map Prod.fst := by
  rw [Pairs.numbers, List.map_map]
  rfl

theorem noted {s : σ} {events later : List (Event α)} {asked : List (Callback α)}
    (h : asked = callbacks later) :
    (s, callbacks events ++ asked) = (s, callbacks (events ++ later)) := by
  rw [h, callbacks_append]

theorem unasked {s : σ} {events later : List (Event α)} (h : callbacks later = []) :
    (s, callbacks events) = (s, callbacks (events ++ later)) := by
  rw [callbacks_append, h, List.append_nil]

theorem came (h : Numbered es x y) (hk : key ∉ es.map Prod.fst)
    (hi : item.number = (entered y.2).length) :
    Numbered ((key, item.value, item) :: es) x (y.1, y.2 ++ [.came key item]) := by
  rw [← keys_numbers] at hk
  exact ⟨h.world.trans (unasked rfl), List.forall_mem_cons.mpr ⟨rfl, h.values⟩,
    h.account.came hk hi⟩

theorem handedBack (h : Numbered ((key, v, item) :: es) x y) :
    Numbered es x (y.1, y.2 ++ [.handedBack key item]) :=
  ⟨h.world.trans (unasked rfl), (List.forall_mem_cons.mp h.values).2, h.account.handedBack⟩

end Numbered

open Numbered in
theorem numbered_alike (h : Handler σ α) : h.recorded.Alike Numbered Numbered Persisted
    (fun _ => True) h.numbered where
  perm hp hr := hr.perm hp
  flushed hr := hr.toNumbered
  fault {es s t key} hr hnew := by
    obtain ⟨s, events⟩ := t
    obtain ⟨rfl, hvalues, hacc⟩ := hr
    rw [← keys_numbers] at hnew
    have hasked := hacc.fault hnew
    rcases hf : h.fault key s with ⟨e | v, s'⟩
    · have hop : h.recorded.fault key (s, callbacks events) =
          (.error e, s', callbacks events ++ [.fault key]) := by
        simp only [Handler.recorded, hf]
      have hop' : h.numbered.fault key (s, events) = (.error e, s', events ++ [.fault key]) := by
        simp only [Handler.numbered, hf]
      exact .of_error hop hop' ⟨trivial, noted rfl, hvalues, hasked⟩
    · let item : Item α := ⟨(entered events).length, v⟩
      have hop : h.recorded.fault key (s, callbacks events) =
          (.ok v, s', callbacks events ++ [.fault key]) := by
        simp only [Handler.recorded, hf]
      have hop' : h.numbered.fault key (s, events) =
          (.ok item, s', events ++ [.fault key, .came key item]) := by
        simp only [Handler.numbered, hf, item]
      have hnumber : item.number = (entered (events ++ [.fault key])).length := by
        rw [entered_note events rfl]
      have hcame := hasked.came hnew hnumber
      rw [List.append_assoc] at hcame
      exact .of_ok hop hop' ⟨noted rfl, List.forall_mem_cons.mpr ⟨rfl, hvalues⟩, hcame⟩
  flush {es s t key v item} hr := by
    obtain ⟨s, events⟩ := t
    obtain ⟨rfl, hvalues, hacc⟩ := hr
    obtain ⟨hv, hrest⟩ := List.forall_mem_cons.mp hvalues
    obtain rfl : v = item.value := hv
    have hasked := hacc.flush
    rcases hf : h.flush key (item.value, s) with ⟨e | _, v, s'⟩
    · have hop : h.recorded.flush key (item.value, s, callbacks events) =
          (.error e, v, s', callbacks events ++ [.flush key item.value]) := by
        simp only [Handler.recorded, hf]
      have hop' : h.numbered.flush key (item, s, events) =
          (.error e, { item with value := v }, s', events ++ [.flush key item]) := by
        simp only [Handler.numbered, hf]
      exact .of_error hop hop'
        ⟨trivial, noted rfl, List.forall_mem_cons.mpr ⟨rfl, hrest⟩, hasked⟩
    · let after : Item α := { item with value := v }
      have hop : h.recorded.flush key (item.value, s, callbacks events) =
          (.ok (), v, s', callbacks events ++ [.flush key item.value]) := by
        simp only [Handler.recorded, hf]
      have hop' : h.numbered.flush key (item, s, events) =
          (.ok (), after, s', events ++ [.flush key item, .flushed key after]) := by
        simp only [Handler.numbered, hf, after]
      have hdone := hasked.flushed key after
      rw [List.append_assoc] at hdone
      exact .of_ok hop hop'
        ⟨⟨noted rfl, List.forall_mem_cons.mpr ⟨rfl, hrest⟩, hdone⟩, events, item, rfl, rfl⟩
  release {es s t key v item} hr := by
    obtain ⟨s, events⟩ := t
    obtain ⟨⟨rfl, hvalues, hacc⟩, first, before, he, hb⟩ := hr
    obtain ⟨hv, hrest⟩ := List.forall_mem_cons.mp hvalues
    obtain rfl : v = item.value := hv
    have hgone := hacc.release he hb
    obtain ⟨r, s', hf⟩ : ∃ r s', h.release key item.value s = (r, s') := ⟨_, _, rfl⟩
    have hop : h.recorded.release key item.value (s, callbacks events) =
        (r, s', callbacks events ++ [.release key item.value]) := by
      simp only [Handler.recorded, hf]
    have hop' : h.numbered.release key item (s, events) =
        (r, s', events ++ [.release key item]) := by
      simp only [Handler.numbered, hf]
    cases r with
    | error e => exact .of_error hop hop' ⟨trivial, noted rfl, hrest, hgone⟩
    | ok _ => exact .of_ok hop hop' ⟨noted rfl, hrest, hgone⟩

namespace Ledger

variable {m : Ledger (α × Item α)} {x : Ledger α × σ × List (Callback α)}
variable {y : Ledger (Item α) × σ × List (Event α)} {γ δ : Type}

theorem uses_lend (key : Nat) (change : α → α) :
    Uses (σ := σ × List (Callback α)) (τ := σ × List (Event α)) Numbered (fun _ => True) key
      (fun v item => v = item.value) (lend change)
      (lend fun item => { item with value := change item.value }) := by
  intro es v item s t hr
  obtain rfl : v = item.value := hr.values _ List.mem_cons_self
  show item.value = item.value ∧ _
  exact ⟨rfl, hr.change (change item.value)⟩

theorem Side.erased (hs : Side Numbered m x y) : x.1 = y.1.map Item.value := by
  rw [hs.left, hs.right]
  refine congrArg (Ledger.mk · m.lookups) ?_
  rw [map, List.map_map]
  exact List.map_congr_left fun e he => congrArg (e.1, ·) (hs.holds.values e he)

theorem Side.lookup_eq (hs : Side Numbered m x y) (key : Nat) :
    x.1.entries.lookup key = (y.1.entries.lookup key).map Item.value := by
  rw [hs.erased, map, lookup_map]

theorem Side.add (hs : Side Numbered m x y) (key : Nat) (value : α) :
    let number := (entered y.2.2).length
    let old := (y.1.add key ⟨number, value⟩).1
    (x.1.add key value).1 = old.map Item.value ∧
      Together Numbered ((x.1.add key value).2, x.2) ((y.1.add key ⟨number, value⟩).2, y.2.1,
        y.2.2 ++ (Request.add key value).moves number (.ok (.value old))) := by
  obtain ⟨l, s⟩ := x
  obtain ⟨l', t, events⟩ := y
  obtain ⟨rfl, rfl, hnodup, hr⟩ := hs
  have hleft := lookup_map Prod.fst m.entries key
  have hright := lookup_map Prod.snd m.entries key
  cases hl : m.entries.lookup key with
  | some p =>
    obtain ⟨v, item⟩ := p
    rw [hl] at hleft hright
    have hfront := perm_without hnodup hl
    have hkeys : (key :: (without key m.entries).map Prod.fst).Nodup :=
      (hfront.map Prod.fst).nodup_iff.mp hnodup
    have hv : v = item.value := (hr.perm hfront).values _ List.mem_cons_self
    let fresh : Item α := ⟨(entered events).length, value⟩
    have hnumber : fresh.number = (entered (events ++ [.handedBack key item])).length := by
      rw [entered_note events rfl]
    have hcame := (hr.perm hfront).handedBack.came (List.nodup_cons.mp hkeys).1 hnumber
    simp only [List.append_assoc] at hcame
    simp only [Ledger.add, map, hleft, hright, Option.map_some, ← hv, true_and]
    refine ⟨⟨(key, value, fresh) :: without key m.entries, m.lookups⟩, ?_, ?_, hkeys, hcame⟩
    · simp only [map, without_map, List.map_cons]
    · simp only [map, without_map, List.map_cons, fresh]
  | none =>
    rw [hl] at hleft hright
    have hnew := lookup_eq_none_iff_notMem.mp hl
    let fresh : Item α := ⟨(entered events).length, value⟩
    have hcame := hr.came hnew (show fresh.number = (entered events).length from rfl)
    simp only [Ledger.add, map, hleft, hright, Option.map_none, true_and]
    exact ⟨⟨(key, value, fresh) :: m.entries, { m.lookups with inserts := m.lookups.inserts + 1 }⟩,
      rfl, rfl, List.nodup_cons.mpr ⟨hnew, hnodup⟩, hcame⟩

theorem Side.modify (hs : Side Numbered m x y) (key : Nat) (change : α → α) :
    Together Numbered (x.1.modify key change, x.2)
      (y.1.modify key (fun item => { item with value := change item.value }), y.2) := by
  obtain ⟨l, s⟩ := x
  obtain ⟨l', t⟩ := y
  have hleft := lookup_map Prod.fst m.entries key
  have hright := lookup_map Prod.snd m.entries key
  cases hl : m.entries.lookup key with
  | some p =>
    obtain ⟨v, item⟩ := p
    rw [hl] at hleft hright
    obtain ⟨rfl, rfl, hnodup, hr⟩ := hs
    have hfront := perm_without hnodup hl
    have hv : v = item.value := (hr.perm hfront).values _ List.mem_cons_self
    let w : α × Item α := (change v, { item with value := change v })
    have hchanged := ((hr.perm hfront).change (change v)).perm (perm_replace hnodup hl w).symm
    refine ⟨⟨replace key w m.entries, m.lookups⟩, ?_, ?_, ?_, hchanged⟩
    · simp only [Ledger.modify, map, hleft, Option.map_some]
      exact congrArg (Ledger.mk · m.lookups) (replace_map Prod.fst key w m.entries)
    · simp only [Ledger.modify, map, hright, Option.map_some, ← hv]
      exact congrArg (Ledger.mk · m.lookups) (replace_map Prod.snd key w m.entries)
    · exact keys_replace key w m.entries ▸ hnodup
  | none =>
    rw [hl] at hleft hright
    have hside := hs
    obtain ⟨rfl, rfl, -, -⟩ := hs
    simp only [Ledger.modify, map, hleft, hright, Option.map_none]
    exact ⟨m, hside⟩

theorem alike_reply {op : Op (Ledger α × σ × List (Callback α)) γ}
    {op' : Op (Ledger (Item α) × σ × List (Event α)) δ} {ok : γ → δ → Prop}
    (h : op.Alike op' x y (fun a b x' y' => ok a b ∧ Together Numbered x' y')
      (fun _ x' y' => True ∧ Together Numbered x' y'))
    {f : γ → Reply α} {g : δ → Reply (Item α)} (hf : ∀ a b, ok a b → f a = (g b).map Item.value) :
    (do let a ← op; return f a : Op _ _).Alike (do let b ← op'; return g b) x y
      (fun a b x' y' => a = b.map Item.value ∧ Together Numbered x' y')
      (fun _ x' y' => Together Numbered x' y') := by
  apply h.bind
  · rintro a b x' y' ⟨hok, ht⟩
    exact Op.alike_pure ⟨hf a b hok, ht⟩
  · rintro e x' y' ⟨-, ht⟩
    exact ht

theorem alike_perform (h : Handler σ α) (request : Request α) (hs : Side Numbered m x y) :
    (perform h.recorded request).Alike (noting (perform h.numbered) request) x y
      (fun a b x' y' => a = b.map Item.value ∧ Together Numbered x' y')
      (fun _ x' y' => Together Numbered x' y') := by
  have hh := numbered_alike h
  cases request with
  | get key change =>
    apply Op.Alike.of_eq rfl (noting_eq (fun _ _ => rfl) y)
    apply alike_reply (alike_access hh hs (fun _ => hs.holds) (uses_lend key change))
    rintro _ item rfl
    rfl
  | add key value =>
    obtain ⟨hold, ht⟩ := hs.add key value
    exact ⟨congrArg Reply.value hold, ht⟩
  | remove key =>
    apply Op.Alike.of_eq rfl (noting_eq (fun _ _ => rfl) y)
    apply alike_reply (alike_remove hh hs)
    rintro _ b rfl
    rfl
  | peek key =>
    apply Op.Alike.of_eq rfl (noting_eq (fun _ _ => rfl) y)
    exact ⟨congrArg Reply.value (hs.lookup_eq key), m, hs⟩
  | modify key change =>
    apply Op.Alike.of_eq rfl (noting_eq (fun _ _ => rfl) y)
    exact ⟨congrArg Reply.value (hs.lookup_eq key), hs.modify key change⟩
  | contains key =>
    apply Op.Alike.of_eq rfl (noting_eq (fun _ _ => rfl) y)
    have hflag : (x.1.entries.lookup key).isSome = (y.1.entries.lookup key).isSome := by
      rw [hs.lookup_eq, Option.isSome_map]
    exact ⟨congrArg Reply.flag hflag, m, hs⟩
  | flushAll =>
    apply Op.Alike.of_eq rfl (noting_eq (fun _ _ => rfl) y)
    apply alike_reply (alike_flushAll hh hs)
    intros
    rfl
  | evict n =>
    apply Op.Alike.of_eq rfl (noting_eq (fun _ _ => rfl) y)
    have hevict := (alike_evictLoop hh n 0 hs).mono
      (fun a b x' y' hr => (⟨hr.1, hr.2.2⟩ : b = a ∧ Together Numbered x' y')) (fun _ _ _ hr => hr)
    apply alike_reply hevict
    rintro _ b rfl
    rfl
  | clear =>
    apply Op.Alike.of_eq rfl (noting_eq (fun _ _ => rfl) y)
    have hclear := (alike_clear hh hs).mono
      (fun a b x' y' hr => (⟨hr.1, hr.2.2⟩ : b = a ∧ Together Numbered x' y')) (fun _ _ _ hr => hr)
    apply alike_reply hclear
    rintro _ b rfl
    rfl

end Ledger

def Observation.erase (o : Observation (σ × List (Event α)) (Item α)) :
    Observation (σ × List (Callback α)) α :=
  ⟨o.count, o.keys, o.leastRecent.map fun e => (e.1, e.2.value), o.lookups, o.world.1,
    callbacks o.world.2⟩

namespace Cache

section Views

variable {c : Cache α}

structure Lacks (c : Cache α) (key : Nat) : Prop where
  direct : c.direct.get? key = none
  index : c.index[key]? = none
  order : key ∉ c.keysByRecency

theorem IsValid.lacks {key : Nat} (h : c.IsValid) (hk : key ∉ c.keysByRecency) : c.Lacks key := by
  obtain ⟨slots, h⟩ := h
  have hindex : ∀ slot, c.index[key]? ≠ some slot := by
    intro slot hs
    obtain ⟨hmem, v, hv⟩ := (h.index key slot).mp hs
    apply hk
    rw [keysByRecency_eq, h.toList_eq]
    exact List.mem_map_of_mem (List.mem_filterMap.mpr ⟨slot, hmem, hv⟩)
  refine ⟨?_, Option.eq_none_iff_forall_ne_some.mpr hindex, hk⟩
  exact Option.eq_none_iff_forall_ne_some.mpr fun slot hs => hindex slot (h.direct key slot hs)

def Shows (c : Cache (Item α)) : Event α → Prop
  | .fault key => c.Lacks key
  | .flush key item => (c.peek? key).map Item.number = some item.number
  | .release key _ => c.Lacks key
  | _ => True

structure Keeps (c : Cache (Item α)) (events : List (Event α)) : Prop where
  custody : Custody events (numbers c.toList)
  once : ((left events ++ numbers c.toList).map Prod.snd).Nodup
  found : ∀ key item, (key, item) ∈ c.toList ↔ c.peek? key = some item

end Views

section Together

variable {x : Cache α × σ × List (Callback α)} {y : Cache (Item α) × σ × List (Event α)}

theorem tracks_noting (h : Handler σ α) (request : Request α) :
    Tracks (noting (perform h.numbered) request) (noting (Ledger.perform h.numbered) request) := by
  rintro c ⟨s, events⟩ hc
  obtain ⟨hv, he⟩ := tracks_perform h.numbered (request.numbered (entered events).length) c
    (s, events) hc
  refine ⟨hv, ?_⟩
  simp only [noting, he]
  rfl

theorem Together.alike_perform (ht : Together Numbered x y) (h : Handler σ α)
    (request : Request α) :
    (perform h.recorded request).Alike (noting (perform h.numbered) request) x y
      (fun a b x' y' => a = b.map Item.value ∧ Together Numbered x' y')
      (fun _ x' y' => Together Numbered x' y') := by
  obtain ⟨m, hs⟩ := ht.ledgers
  apply ((tracks_perform h.recorded request).alike (tracks_noting h request) ht.left ht.right
    (Ledger.alike_perform h request hs)).mono
  · rintro a b x' y' ⟨⟨hl, hr⟩, ha, hm⟩
    exact ⟨ha, hl, hr, hm⟩
  · rintro e x' y' ⟨⟨hl, hr⟩, hm⟩
    exact ⟨hl, hr, hm⟩

theorem Together.observe_eq (ht : Together Numbered x y) : observe x = (observe y).erase := by
  obtain ⟨m, hs⟩ := ht.ledgers
  obtain ⟨c, s⟩ := x
  obtain ⟨c', t⟩ := y
  have hl : c.ledger = c'.ledger.map Item.value := hs.erased
  have hw : s = (t.1, callbacks t.2) := hs.holds.world
  rw [ht.left.observe_eq, ht.right.observe_eq, hl, hw]
  simp only [Ledger.observe, Observation.erase, Ledger.map, Ledger.keys_map, List.length_map,
    List.getLast?_map]

theorem Together.account (ht : Together Numbered x y) : Account y.2.2 (numbers y.1.toList) := by
  obtain ⟨m, hs⟩ := ht.ledgers
  have hnumbers : numbers y.1.toList = Pairs.numbers m.entries := by
    rw [show y.1.toList = (m.map Prod.snd).entries from congrArg Ledger.entries hs.right, numbers,
      Ledger.map, List.map_map]
    rfl
  rw [hnumbers]
  exact hs.holds.account

theorem Together.keeps (ht : Together Numbered x y) : y.1.Keeps y.2.2 := by
  have hc := ht.account.toCustody
  refine ⟨hc, hc.nodup, fun key item => ?_⟩
  obtain ⟨slots, hv⟩ := ht.right
  rw [ht.right.peek?_eq, Ledger.lookup_eq_some_iff_mem hv.nodup_keys]

theorem Together.shows (ht : Together Numbered x y) {past : List (Event α)} {event : Event α}
    (he : y.2.2 = past ++ [event]) : y.1.Shows event := by
  have hfits := ht.account.last event (by rw [he, List.getLast?_concat])
  have hkeys : (numbers y.1.toList).map Prod.fst = y.1.keysByRecency := by
    rw [numbers, List.map_map, keysByRecency_eq]
    rfl
  cases event with
  | fault key => exact ht.right.lacks (hkeys ▸ hfits)
  | flush key item =>
    obtain ⟨⟨_, found⟩, hm, hpair⟩ := List.mem_map.mp hfits
    obtain ⟨rfl, hnumber⟩ := Prod.mk.inj hpair
    rw [Shows, (ht.keeps.found _ found).mp hm]
    exact congrArg some hnumber
  | release key item => exact ht.right.lacks (hkeys ▸ hfits)
  | came key item => trivial
  | flushed key item => trivial
  | handedBack key item => trivial

theorem Together.after (ht : Together Numbered x y) (h : Handler σ α) (request : Request α) :
    (perform h.recorded request x).1 =
        (noting (perform h.numbered) request y).1.map (Reply.map Item.value) ∧
      Together Numbered (perform h.recorded request x).2
        (noting (perform h.numbered) request y).2 := by
  rcases (ht.alike_perform h request).cases with
    ⟨a, x', b, y', hop, hop', ha, hnext⟩ | ⟨e, x', y', hop, hop', hnext⟩
  · rw [hop, hop']
    exact ⟨congrArg Except.ok ha, hnext⟩
  · rw [hop, hop']
    exact ⟨rfl, hnext⟩

theorem Together.limit (ht : Together Numbered x y) (n : Nat) :
    Together Numbered (x.1, (x.2.1, n), x.2.2) (y.1, (y.2.1, n), y.2.2) := by
  obtain ⟨hl, hr, m, hs⟩ := ht
  have hw : (x.2.1, x.2.2) = (y.2.1, callbacks y.2.2) := hs.holds.world
  obtain ⟨hworld, hlog⟩ := Prod.mk.inj hw
  have hlimit : ((x.2.1, n), x.2.2) = ((y.2.1, n), callbacks y.2.2) := by rw [hworld, hlog]
  exact ⟨hl, hr, m, hs.left, hs.right, hs.nodup, hlimit, hs.holds.values, hs.holds.account⟩

end Together

section Histories

variable {x : Cache α × σ × List (Callback α)} {y : Cache (Item α) × σ × List (Event α)}

abbrev NumberedStep (σ α : Type) :=
  Step (Request α) (Reply (Item α)) (Cache (Item α) × σ × List (Event α))

/-- The events of a request, and the cache as every callback among them finds it: the request comes
to this state if its callbacks end there. -/
structure Moments (h : Handler σ α) (x : NumberedStep σ α) (made : List (Event α)) : Prop where
  events : x.after.2.2 = x.before.2.2 ++ made
  stops : ∀ past ask rest, made = past ++ ask :: rest → ask.callback?.isSome →
    let limited := (x.before.1, (x.before.2.1, (callbacks past).length), x.before.2.2)
    let stopped := (noting (perform h.limited.numbered) x.call limited).2
    stopped.2.2 = x.before.2.2 ++ past ++ [ask] ∧ stopped.1.Keeps stopped.2.2 ∧ stopped.1.Shows ask

theorem Together.moments (ht : Together Numbered x y) (h : Handler σ α) (request : Request α)
    {answer : Except Error (Reply (Item α))} {after : Cache (Item α) × σ × List (Event α)}
    (hop : noting (perform h.numbered) request y = (answer, after)) :
    ∃ made, Moments h ⟨request, answer, y, after⟩ made := by
  obtain ⟨c, s, events⟩ := y
  have hcut := Ledger.cutOff_noting h c.ledger s events request
  obtain ⟨-, hfull⟩ := tracks_noting h request c (s, events) ht.right
  rw [hop] at hfull
  have ⟨made, hmade, _⟩ := hcut
  have hevents : after.2.2 = events ++ made := by
    rw [hfull] at hmade
    exact hmade
  refine ⟨made, hevents, ?_⟩
  rintro past ask rest rfl hask
  obtain ⟨-, hcalled⟩ := tracks_noting h.limited request c ((s, (callbacks past).length), events)
    ht.right
  -- the same request over the limited handler shows the moment of `ask`
  have hstop := hcut.stops hmade hask
  rw [hcalled] at hstop
  obtain ⟨-, hnext⟩ := (ht.limit (callbacks past).length).after h.limited request
  exact ⟨hstop, hnext.keeps, hnext.shows hstop⟩

def viewErased (x : NumberedStep σ α) :
    Observation (σ × List (Callback α)) α × Except Error (Reply α) ×
    Observation (σ × List (Callback α)) α :=
  ((observe x.before).erase, x.answer.map (Reply.map Item.value), (observe x.after).erase)

theorem together_empty {lines : Nat} (hl : 0 < lines) (s : σ) :
    Together Numbered ((empty lines hl : Cache α), s, []) (empty lines hl, s, []) := by
  have hvalid : (empty lines hl : Cache α).Valid [] := valid_empty lines hl
  have hvalid' : (empty lines hl : Cache (Item α)).Valid [] := valid_empty lines hl
  refine ⟨⟨[], hvalid⟩, ⟨[], hvalid'⟩, ⟨[], {}⟩, ?_, ?_, List.nodup_nil, rfl, ?_, .nil⟩
  · rw [ledger, hvalid.toList_eq]
    rfl
  · rw [ledger, hvalid'.toList_eq]
    rfl
  · intro e he
    cases he

/-- Whatever callbacks fail, a value leaves the cache by one release, right after a flush of it that
succeeded, or handed back by a later addition of its key, and is in the cache until then. Neither
the numbers nor the events change what a client sees. -/
theorem values_leave_once {lines : Nat} (hl : 0 < lines) (h : Handler σ α) (s : σ)
    (requests : List (Request α)) :
    let plain := Op.history (perform h.recorded) requests (empty lines hl, s, [])
    let run := Op.history (noting (perform h.numbered)) requests (empty lines hl, s, [])
    plain.map view = run.map viewErased ∧
      ∀ x ∈ run, x.after.1.Keeps x.after.2.2 ∧ ∃ made, Moments h x made := by
  refine ⟨Op.map_history_eq (R := Together Numbered) ?_ requests (together_empty hl s), ?_⟩
  · intro request x y ht
    obtain ⟨hanswer, hnext⟩ := ht.after h request
    simp only [view, viewErased, ht.observe_eq, hanswer, hnext.observe_eq, true_and]
    exact hnext
  · refine Op.forall_mem_history
      (P := fun y => ∃ x : Cache α × _, Together Numbered x y) ?_ requests
      ⟨_, together_empty hl s⟩
    rintro request y ⟨x, ht⟩
    obtain ⟨-, hnext⟩ := ht.after h request
    exact ⟨⟨_, hnext⟩, hnext.keeps, ht.moments h request rfl⟩

def moody : Handler Nat Nat where
  fault key := fun n => (if n % 3 = 2 then .error .noSpace else .ok (key * 10), n + 1)
  flush _ := fun (v, n) => (if n % 3 = 2 then .error .noSpace else .ok (), v + 1, n + 1)
  release _ _ := fun n => (if n % 3 = 2 then .error .noSpace else .ok (), n + 1)

theorem values_leave_once_moody :
    let plain := Op.history (perform moody.recorded) colliding (empty 2 (by decide), 0, [])
    let run := Op.history (noting (perform moody.numbered)) colliding (empty 2 (by decide), 0, [])
    plain.map view = run.map viewErased ∧
      ∀ x ∈ run, x.after.1.Keeps x.after.2.2 ∧ ∃ made, Moments moody x made :=
  values_leave_once (by decide) moody 0 colliding

-- the first flush fails, and so does the fault that should bring key 3 back
example : (Op.history (noting (Ledger.perform moody.numbered)) colliding (⟨[], {}⟩, 0, [])).map
      (fun x => (left x.after.2.2, numbers x.after.1.entries)) =
    [([], [(1, 0)]), ([], [(3, 1), (1, 0)]), ([(1, 0)], [(1, 2), (3, 1)]),
      ([(1, 0)], [(1, 2), (3, 1)]), ([(1, 0), (3, 1)], [(1, 2)]), ([(1, 0), (3, 1)], [(1, 2)]),
      ([(1, 0), (3, 1), (1, 2)], []), ([(1, 0), (3, 1), (1, 2)], [])] := by
  decide

end Histories

end Cache

end TieredMemory.Recency
