import Mathlib.Logic.Function.Basic
import TieredMemory.Proofs.Page.Cache
import TieredMemory.Proofs.Page.Steps

/-!
What a tier asks of the store below it. Whatever that store answers, the only writes it receives
are the modified ranges of pages, each with the bytes of its page and each at most once, and a
write that it refuses is the last.
-/

namespace TieredMemory

namespace DirtyRange

def cover (range : Option DirtyRange) (start length : Nat) : DirtyRange :=
  match range with
  | some range => range.union start length
  | none => ⟨start, length⟩

end DirtyRange

/-- From the modified ranges `dirty` and the state `below` of the store, calls on that store lead to
other ranges and another state, while the pages hold `bytes`. -/
inductive Traffic {B : Type} [Backend B] (pageSize : Nat) (bytes : Nat → Nat → UInt8)
    (dirty : Nat → Option DirtyRange) (below : B) :
    (Nat → Option DirtyRange) → B → (refused : Bool) → Prop
  | start : Traffic pageSize bytes dirty below dirty below false
  | read {d : Nat → Option DirtyRange} {b : B} (address length : Nat)
    (h : Traffic pageSize bytes dirty below d b false) :
    Traffic pageSize bytes dirty below d (Backend.read address length b).2 false
  | flush {d : Nat → Option DirtyRange} {b : B} (h : Traffic pageSize bytes dirty below d b false) :
    Traffic pageSize bytes dirty below d (Backend.flush b).2 false
  | shutdown {d : Nat → Option DirtyRange} {b : B}
    (h : Traffic pageSize bytes dirty below d b false) :
    Traffic pageSize bytes dirty below d (Backend.shutdown b).2 false
  | written {d : Nat → Option DirtyRange} {b t : B} {page : Nat} {r : DirtyRange} {data : ByteArray}
    (h : Traffic pageSize bytes dirty below d b false) (hd : d page = some r)
    (hs : Bytes.Shows (bytes page) r.start r.length data)
    (hw : Backend.write (page * pageSize + r.start) data b = (.ok (), t)) :
    Traffic pageSize bytes dirty below (Function.update d page none) t false
  | refused {d : Nat → Option DirtyRange} {b t : B} {page : Nat} {r : DirtyRange} {data : ByteArray}
    {e : Error} (h : Traffic pageSize bytes dirty below d b false) (hd : d page = some r)
    (hs : Bytes.Shows (bytes page) r.start r.length data)
    (hw : Backend.write (page * pageSize + r.start) data b = (.error e, t)) :
    Traffic pageSize bytes dirty below d t true

namespace Traffic

variable {B : Type} [Backend B] {pageSize : Nat} {bytes : Nat → Nat → UInt8}
variable {dirty d d' : Nat → Option DirtyRange} {below b b' : B} {refused : Bool}

theorem trans (h : Traffic pageSize bytes dirty below d b false)
    (h' : Traffic pageSize bytes d b d' b' refused) :
    Traffic pageSize bytes dirty below d' b' refused := by
  induction h' with
  | start => exact h
  | read address length _ ih => exact ih.read address length
  | flush _ ih => exact ih.flush
  | shutdown _ ih => exact ih.shutdown
  | written _ hd hs hw ih => exact ih.written hd hs hw
  | refused _ hd hs hw ih => exact ih.refused hd hs hw

theorem eq_of_some (h : Traffic pageSize bytes dirty below d b refused) {page : Nat}
    {r : DirtyRange} (hr : d page = some r) : dirty page = some r := by
  induction h with
  | start => exact hr
  | read _ _ _ ih => exact ih hr
  | flush _ ih => exact ih hr
  | shutdown _ ih => exact ih hr
  | @written _ _ _ other _ _ _ _ _ _ ih =>
    by_cases hp : page = other
    · subst hp
      rw [Function.update_self] at hr
      cases hr
    · rw [Function.update_of_ne hp] at hr
      exact ih hr
  | refused _ _ _ _ ih => exact ih hr

theorem eq_none (h : Traffic pageSize bytes dirty below d b refused) {page : Nat}
    (hn : dirty page = none) : d page = none := by
  cases hd : d page with
  | none => rfl
  | some r => rw [h.eq_of_some hd] at hn; cases hn

end Traffic

variable {S H B α : Type}

namespace Residents

def dirty (entries : List (Nat × Page H)) (number : Nat) : Option DirtyRange :=
  (entries.lookup number).bind Page.dirty

section Dirty

variable {entries entries' rest : List (Nat × Page H)} {number : Nat} {page : Page H}

theorem dirty_cons (number : Nat) (page : Page H) (rest : List (Nat × Page H)) :
    dirty ((number, page) :: rest) = Function.update (dirty rest) number page.dirty := by
  funext m
  by_cases hm : m = number
  · subst hm
    rw [Function.update_self, dirty, List.lookup_cons_self, Option.bind_some]
  · rw [Function.update_of_ne hm, dirty, List.lookup_cons, beq_eq_false_iff_ne.mpr hm]
    rfl

theorem dirty_of_notMem (h : number ∉ entries.map Prod.fst) : dirty entries number = none := by
  rw [dirty, Recency.Ledger.lookup_eq_none_iff_notMem.mpr h, Option.bind_none]

theorem dirty_cons_clean (hn : number ∉ rest.map Prod.fst) (hd : page.dirty = none) :
    dirty ((number, page) :: rest) = dirty rest := by
  rw [dirty_cons, hd, ← dirty_of_notMem hn, Function.update_eq_self]

theorem dirty_perm (hp : entries.Perm entries') (h : (entries.map Prod.fst).Nodup) :
    dirty entries = dirty entries' := by
  funext m
  rw [dirty, dirty, Recency.Ledger.lookup_perm hp h]

end Dirty

variable [PageStorage S H] [PageContents S H] [LawfulStorage S H]

structure Sound (sure : Prop) (pageSize count : Nat) (s : Residents S H B) : Prop where
  pageSize_eq : s.2.pageSize = pageSize
  nodup : (s.1.map Prod.fst).Nodup
  storage : LawfulStorage.Valid sure pageSize count s.2.storage (handles s.1)

def Stores (bytes : Nat → Nat → UInt8) (s : Residents S H B) : Prop :=
  ∀ e ∈ s.1, PageContents.byteAt s.2.storage e.2.handle = bytes e.1

variable {sure : Prop} {pageSize count number : Nat} {bytes : Nat → Nat → UInt8} {p t : Pager S B}
variable {entries entries' rest : List (Nat × Page H)} {page : Page H}

omit [PageStorage S H] [LawfulStorage S H] in
theorem Stores.of_same (h : Stores bytes (entries, p))
    (hs : SamePages p.storage t.storage (handles entries)) : Stores bytes (entries, t) := by
  intro e he
  exact (hs _ (List.mem_map_of_mem he)).trans (h e he)

namespace Sound

theorem perm (h : Sound sure pageSize count (entries, p)) (hp : entries.Perm entries') :
    Sound sure pageSize count (entries', p) where
  pageSize_eq := h.pageSize_eq
  nodup := (hp.map _).nodup_iff.mp h.nodup
  storage := LawfulStorage.valid_perm (hp.map _) h.storage

theorem keep (h : Sound sure pageSize count (entries, p)) (hp : t.pageSize = p.pageSize)
    (hs : LawfulStorage.Valid sure pageSize count t.storage (handles entries)) :
    Sound sure pageSize count (entries, t) :=
  ⟨hp.trans h.pageSize_eq, h.nodup, hs⟩

theorem come {handle : H} (h : Sound sure pageSize count (entries, p))
    (hnew : number ∉ entries.map Prod.fst) (hp : t.pageSize = p.pageSize)
    (hs : LawfulStorage.Valid sure pageSize count t.storage (handle :: handles entries)) :
    Sound sure pageSize count ((number, { handle }) :: entries, t) :=
  ⟨hp.trans h.pageSize_eq, List.nodup_cons.mpr ⟨hnew, h.nodup⟩, hs⟩

theorem go (h : Sound sure pageSize count ((number, page) :: rest, p))
    (hp : t.pageSize = p.pageSize)
    (hs : LawfulStorage.Valid sure pageSize count t.storage (handles rest)) :
    Sound sure pageSize count (rest, t) :=
  ⟨hp.trans h.pageSize_eq, (List.nodup_cons.mp h.nodup).2, hs⟩

theorem renew {page' : Page H} (h : Sound sure pageSize count ((number, page) :: rest, p))
    (hp : t.pageSize = p.pageSize)
    (hs : LawfulStorage.Valid sure pageSize count t.storage (page'.handle :: handles rest)) :
    Sound sure pageSize count ((number, page') :: rest, t) :=
  ⟨hp.trans h.pageSize_eq, h.nodup, hs⟩

end Sound

end Residents

namespace Pager

open Residents

variable [PageStorage S H] [PageContents S H] [LawfulStorage S H] [Backend B]
variable {pageSize count number : Nat} {bytes : Nat → Nat → UInt8} {p t : Pager S B}
variable {entries rest : List (Nat × Page H)} {page : Page H}

structure Settles (pageSize count : Nat) (bytes : Nat → Nat → UInt8) (s u : Residents S H B)
    (refused : Bool) : Prop where
  sound : Sound False pageSize count u
  stores : Stores bytes u
  traffic : Traffic pageSize bytes (dirty s.1) s.2.below (dirty u.1) u.2.below refused

theorem Settles.trans {s t u : Residents S H B} {refused : Bool}
    (h : Settles pageSize count bytes s t false) (h' : Settles pageSize count bytes t u refused) :
    Settles pageSize count bytes s u refused :=
  ⟨h'.sound, h'.stores, h.traffic.trans h'.traffic⟩

theorem Settles.perm {s : Residents S H B} {entries' : List (Nat × Page H)} {refused : Bool}
    (h : Settles pageSize count bytes s (entries, p) refused) (hp : entries.Perm entries') :
    Settles pageSize count bytes s (entries', p) refused := by
  refine ⟨h.sound.perm hp, fun e he => h.stores e (hp.mem_iff.mpr he), ?_⟩
  have := h.traffic
  rwa [dirty_perm hp h.sound.nodup] at this

theorem Settles.refl {s : Residents S H B} (h : Sound False pageSize count s)
    (hb : Stores bytes s) : Settles pageSize count bytes s s false :=
  ⟨h, hb, .start⟩

section WriteBack

variable {r : DirtyRange} {data : ByteArray} {u : Pager S B}

theorem settles_written (h : Sound False pageSize count ((number, page) :: rest, p))
    (hb : Stores bytes ((number, page) :: rest, p)) (hd : page.dirty = some r)
    (hdata : Bytes.Shows (bytes number) r.start r.length data) (hp : u.pageSize = p.pageSize)
    (hv : LawfulStorage.Valid False pageSize count u.storage (handles ((number, page) :: rest)))
    (hs : SamePages p.storage u.storage (handles ((number, page) :: rest)))
    (hw : Backend.write (number * pageSize + r.start) data p.below = (.ok (), u.below)) :
    Settles pageSize count bytes ((number, page) :: rest, p)
      ((number, { page with dirty := none }) :: rest, u) false := by
  refine ⟨h.renew hp hv, ?_, ?_⟩
  · have hkept : ∀ e ∈ (number, page) :: rest,
        PageContents.byteAt u.storage e.2.handle = bytes e.1 := hb.of_same hs
    exact List.forall_mem_cons.mpr (List.forall_mem_cons.mp hkept)
  · have hd' : dirty ((number, page) :: rest) number = some r := by
      rw [dirty_cons, Function.update_self, hd]
    have hafter : dirty ((number, { page with dirty := none }) :: rest) =
        Function.update (dirty ((number, page) :: rest)) number none := by
      rw [dirty_cons, dirty_cons, Function.update_idem]
    rw [hafter]
    exact Traffic.start.written hd' hdata hw

theorem ends_writeBack_settles (h : Sound False pageSize count ((number, page) :: rest, p))
    (hb : Stores bytes ((number, page) :: rest, p)) (hd : page.dirty = some r) :
    (writeBack number page.handle r).Ends p
      (fun _ t => Settles pageSize count bytes ((number, page) :: rest, p)
        ((number, { page with dirty := none }) :: rest, t) false)
      (fun _ t => ∃ refused, Settles pageSize count bytes ((number, page) :: rest, p)
        ((number, page) :: rest, t) refused) := by
  have hd' : dirty ((number, page) :: rest) number = some r := by
    rw [dirty_cons, Function.update_self, hd]
  have haddress : p.pageAddress number + r.start = number * pageSize + r.start := by
    rw [pageAddress, h.pageSize_eq]
  apply (ends_onStorage (p := p) (LawfulStorage.ends_read r.start r.length h.storage)).bind
  · rintro data t ⟨⟨hp, hbelow, -⟩, hv, hs, hdata⟩
    rw [hb _ List.mem_cons_self] at hdata
    rw [haddress]
    apply (ends_onBelow (p := t) (Op.ends_self (Backend.write _ data) t.below)).bind
    · rintro _ u ⟨⟨hpu, hsu, -⟩, hw⟩
      rw [hbelow] at hw
      exact settles_written h hb hd hdata (hpu.trans hp) (hsu ▸ hv) (hsu ▸ hs) hw
    · rintro e u ⟨⟨hpu, hsu, -⟩, hw⟩
      rw [hbelow] at hw
      exact ⟨true, h.keep (hpu.trans hp) (hsu ▸ hv), hb.of_same (hsu ▸ hs),
        Traffic.start.refused hd' hdata hw⟩
  · rintro e t ⟨⟨hp, hbelow, -⟩, hv, hs, -⟩
    refine ⟨false, h.keep hp hv, hb.of_same hs, ?_⟩
    rw [hbelow]
    exact .start

end WriteBack

theorem ends_flush_settles (h : Sound False pageSize count ((number, page) :: rest, p))
    (hb : Stores bytes ((number, page) :: rest, p)) :
    (flush number).Ends (page, p)
      (fun _ t => Settles pageSize count bytes ((number, page) :: rest, p)
        ((number, t.1) :: rest, t.2) false ∧ t.1.dirty = none)
      (fun _ t => ∃ refused, Settles pageSize count bytes ((number, page) :: rest, p)
        ((number, t.1) :: rest, t.2) refused) := by
  cases hd : page.dirty with
  | none =>
    apply Op.Ends.of_ok (a := ()) (t := (page, p))
    · simp only [flush, hd]
    · exact ⟨.refl h hb, hd⟩
  | some r =>
    rcases (ends_writeBack_settles h hb hd).cases with ⟨_, t, he, ht⟩ | ⟨e, t, he, ht⟩
    · apply Op.Ends.of_ok (a := ()) (t := ({ page with dirty := none }, t))
      · simp only [flush, hd, he]
      · exact ⟨ht, rfl⟩
    · apply Op.Ends.of_error (e := e) (t := (page, t))
      · simp only [flush, hd, he]
      · exact ht

theorem ends_release_settles (h : Sound False pageSize count ((number, page) :: rest, p))
    (hb : Stores bytes ((number, page) :: rest, p)) (hd : page.dirty = none) :
    (onStorage (PageStorage.release page.handle) : Op (Pager S B) Unit).Ends p
      (fun _ t => Settles pageSize count bytes ((number, page) :: rest, p) (rest, t) false)
      (fun _ _ => False) := by
  have hnew := (List.nodup_cons.mp h.nodup).1
  apply (ends_onStorage (p := p) (LawfulStorage.ends_release h.storage)).mono
  · rintro _ t ⟨⟨hp, hbelow, -⟩, hv, hs⟩
    have hrest : Stores bytes (rest, p) := fun e he => hb e (List.mem_cons_of_mem _ he)
    refine ⟨h.go hp hv, hrest.of_same hs, ?_⟩
    rw [dirty_cons_clean hnew hd, hbelow]
    exact .start
  · exact fun e t ht => ht.2

section Fault

variable (pageSize : Nat) (bytes : Nat → Nat → UInt8) (d : Nat → Option DirtyRange)

omit [PageStorage S H] [PageContents S H] [LawfulStorage S H] in
theorem ends_fetch_traffic (number : Nat) :
    (fetch number : Op (Pager S B) ByteArray).Ends p
      (fun _ t => Stays p t ∧ Traffic pageSize bytes d p.below d t.below false)
      (fun _ t => Stays p t ∧ Traffic pageSize bytes d p.below d t.below false) := by
  by_cases hz : p.readable number = 0
  · apply Op.Ends.of_ok (a := Bytes.zeros p.pageSize) (t := p)
    · simp only [fetch, if_pos hz]
    · exact ⟨⟨rfl, rfl, rfl⟩, .start⟩
  · have hread : (Backend.read (p.pageAddress number) (p.readable number)).Ends p.below
        (fun _ b => Traffic pageSize bytes d p.below d b false)
        (fun _ b => Traffic pageSize bytes d p.below d b false) := by
      have htraffic : Traffic pageSize bytes d p.below d
          (Backend.read (p.pageAddress number) (p.readable number) p.below).2 false :=
        Traffic.start.read _ _
      apply (Op.ends_self _ p.below).mono
      · intro a b hab
        rwa [hab] at htraffic
      · intro e b hab
        rwa [hab] at htraffic
    rcases (ends_onBelow (p := p) hread).cases with ⟨a, t, he, ht⟩ | ⟨e, t, he, ht⟩
    · apply Op.Ends.of_ok (a := Bytes.padTo a p.pageSize) (t := t)
      · simp only [fetch, if_neg hz, he]
      · exact ht
    · apply Op.Ends.of_error (e := e) (t := t)
      · simp only [fetch, if_neg hz, he]
      · exact ht

variable {pageSize}

theorem ends_load_traffic {handle : H} (number : Nat)
    (hs : LawfulStorage.Valid False pageSize count p.storage (handle :: handles entries)) :
    (load number : Op (H × Pager S B) Unit).Ends (handle, p)
      (fun _ t => t.2.pageSize = p.pageSize ∧
        LawfulStorage.Valid False pageSize count t.2.storage (t.1 :: handles entries) ∧
        Traffic pageSize bytes d p.below d t.2.below false)
      (fun _ t => t.2.pageSize = p.pageSize ∧
        LawfulStorage.Valid False pageSize count t.2.storage (t.1 :: handles entries) ∧
        Traffic pageSize bytes d p.below d t.2.below false) := by
  rcases (ends_fetch_traffic (p := p) pageSize bytes d number).cases with
    ⟨data, t, he, ⟨hp, hst, -⟩, ht⟩ | ⟨e, t, he, ⟨hp, hst, -⟩, ht⟩
  · have hload : (load number : Op (H × Pager S B) Unit) (handle, p) =
        onHandle (PageStorage.write 0 data) (handle, t) := by
      simp only [load, he]
    rw [Op.Ends, hload]
    rw [← hst] at hs
    apply (ends_onHandle (p := t) (LawfulStorage.ends_write 0 data hs)).mono
    · rintro _ u ⟨⟨hpu, hbu, -⟩, hvu, -⟩
      exact ⟨hpu.trans hp, hvu, hbu ▸ ht⟩
    · rintro e u ⟨⟨hpu, hbu, -⟩, hvu, -⟩
      exact ⟨hpu.trans hp, hvu, hbu ▸ ht⟩
  · apply Op.Ends.of_error (e := e) (t := (handle, t))
    · simp only [load, he]
    · exact ⟨hp, hst ▸ hs, ht⟩

theorem ends_fault_traffic (h : Sound False pageSize count (entries, p))
    (hnew : number ∉ entries.map Prod.fst) :
    (fault number : Op (Pager S B) (Page H)).Ends p
      (fun page t => page.dirty = none ∧ Sound False pageSize count ((number, page) :: entries, t) ∧
        Traffic pageSize bytes d p.below d t.below false)
      (fun _ t => Sound False pageSize count (entries, t) ∧
        Traffic pageSize bytes d p.below d t.below false) := by
  have hacquire := ends_onStorage (p := p) (LawfulStorage.ends_acquire h.storage)
  rcases hacquire.cases with
    ⟨handle, t, he, ⟨hp, hb, -⟩, hv, -⟩ | ⟨e, t, he, ⟨hp, hb, -⟩, hv, -⟩
  · have hload := ends_load_traffic bytes d number hv
    rw [hb] at hload
    rcases hload.cases with ⟨_, ⟨g, u⟩, heu, hpu, hvu, ht⟩ | ⟨e, ⟨g, u⟩, heu, hpu, hvu, ht⟩
    · apply Op.Ends.of_ok (a := { handle := g }) (t := u)
      · simp only [fault, he, heu]
      · exact ⟨rfl, h.come hnew (hpu.trans hp) hvu, ht⟩
    · have hrelease := ends_onStorage (p := u) (LawfulStorage.ends_release hvu)
      rcases hrelease.cases with ⟨_, v, hev, ⟨hpv, hbv, -⟩, hvv, -⟩ | ⟨_, _, -, -, hf⟩
      · apply Op.Ends.of_error (e := e) (t := v)
        · simp only [fault, he, heu, hev]
        · exact ⟨h.keep ((hpv.trans hpu).trans hp) hvv, hbv ▸ ht⟩
      · exact hf.elim
  · apply Op.Ends.of_error (e := e) (t := t)
    · simp only [fault, he]
    · refine ⟨h.keep hp hv, ?_⟩
      rw [hb]
      exact .start

end Fault

end Pager

namespace Recency.Ledger

open Residents Pager

variable [PageStorage S H] [PageContents S H] [LawfulStorage S H] [Backend B]
variable {pageSize count number : Nat} {bytes : Nat → Nat → UInt8}
variable {l : Ledger (Page H)} {p : Pager S B}

theorem ends_evictLoop_settles (n done : Nat) (h : Sound False pageSize count (residents (l, p)))
    (hb : Stores bytes (residents (l, p))) :
    (evictLoop Pager.handler n done).Ends (l, p)
      (fun _ t => Settles pageSize count bytes (residents (l, p)) (residents t) false)
      (fun _ t => ∃ refused,
        Settles pageSize count bytes (residents (l, p)) (residents t) refused) := by
  induction n generalizing l p done with
  | zero => exact .refl h hb
  | succ n ih =>
    rcases List.eq_nil_or_concat' l.entries with hnil | ⟨rest, ⟨number, page⟩, hl⟩
    · apply Op.Ends.of_ok (a := done) (t := (l, p))
      · simp only [evictLoop, hnil, List.getLast?_nil]
      · exact .refl h hb
    · have hperm : ∀ q : Page H, (rest ++ [(number, q)]).Perm ((number, q) :: rest) :=
        fun q => List.perm_append_singleton _ _
      have hmove : l.entries.Perm ((number, page) :: rest) := hl ▸ hperm page
      have hfront :
          Settles pageSize count bytes (residents (l, p)) ((number, page) :: rest, p) false :=
        (Settles.refl h hb).perm hmove
      rcases (ends_flush_settles hfront.sound hfront.stores).cases with
        ⟨_, ⟨q, t⟩, he, ht, hd⟩ | ⟨e, ⟨q, t⟩, he, refused, ht⟩
      · rcases (ends_release_settles ht.sound ht.stores hd).cases with
          ⟨_, u, her, hu⟩ | ⟨_, _, -, hf⟩
        · have hop := evictLoop_of_flushed (h := Pager.handler) n done hl he her
          have hleft := (hfront.trans ht).trans hu
          rw [Op.Ends, hop]
          apply (ih (done + 1)
            (l := ⟨rest, { l.lookups with evictions := l.lookups.evictions + 1 }⟩)
            hu.sound hu.stores).mono
          · exact fun _ v hv => hleft.trans hv
          · rintro e v ⟨refused, hv⟩
            exact ⟨refused, hleft.trans hv⟩
        · exact hf.elim
      · apply Op.Ends.of_error (evictLoop_of_flush_error (h := Pager.handler) hl he)
        exact ⟨refused, (hfront.trans ht).perm (hperm q).symm⟩

theorem flushEach_settles {done entries : List (Nat × Page H)}
    (h : Sound False pageSize count (done ++ entries, p)) (hb : Stores bytes (done ++ entries, p)) :
    ∃ r flushed t refused, flushEach Pager.handler entries p = (r, flushed, t) ∧
      (r = .ok () → refused = false) ∧
      Settles pageSize count bytes (done ++ entries, p) (done ++ flushed, t) refused := by
  induction entries generalizing done p with
  | nil => exact ⟨.ok (), [], p, false, rfl, fun _ => rfl, .refl h hb⟩
  | cons entry entries ih =>
    obtain ⟨number, page⟩ := entry
    have hfront := (Settles.refl h hb).perm List.perm_middle
    rcases (ends_flush_settles hfront.sound hfront.stores).cases with
      ⟨_, ⟨q, t⟩, he, ht, -⟩ | ⟨e, ⟨q, t⟩, he, refused, ht⟩
    · have hmove : ((number, q) :: (done ++ entries)).Perm (done ++ [(number, q)] ++ entries) := by
        rw [List.append_assoc]
        exact List.perm_middle.symm
      have hback := (hfront.trans ht).perm hmove
      obtain ⟨r, flushed, u, refused, heu, hr, hu⟩ := ih hback.sound hback.stores
      refine ⟨r, (number, q) :: flushed, u, refused, ?_, hr, ?_⟩
      · simp only [flushEach, Pager.handler, he]
        simp only [Pager.handler] at heu
        rw [heu]
      · have := hback.trans hu
        rwa [List.append_assoc] at this
    · refine ⟨.error e, (number, q) :: entries, t, refused, ?_, ?_, ?_⟩
      · simp only [flushEach, Pager.handler, he]
      · intro hr
        cases hr
      · exact (hfront.trans ht).perm List.perm_middle.symm

theorem ends_flushAll_settles (h : Sound False pageSize count (residents (l, p)))
    (hb : Stores bytes (residents (l, p))) :
    (flushAll Pager.handler).Ends (l, p)
      (fun _ t => Settles pageSize count bytes (residents (l, p)) (residents t) false)
      (fun _ t => ∃ refused,
        Settles pageSize count bytes (residents (l, p)) (residents t) refused) := by
  obtain ⟨r, flushed, t, refused, he, hr, ht⟩ :=
    flushEach_settles (show Sound False pageSize count ([] ++ l.entries, p) from h) hb
  have hop : flushAll Pager.handler (l, p) = (r, ⟨flushed, l.lookups⟩, t) := by
    simp only [flushAll, he]
  cases r with
  | ok _ =>
    rw [hr rfl] at ht
    exact .of_ok hop ht
  | error e => exact .of_error hop ⟨refused, ht⟩

def Marks (pageSize count number : Nat) (change : Option DirtyRange → Option DirtyRange)
    (use : Op (Page H × Pager S B) α) : Prop :=
  ∀ page rest t, Sound False pageSize count ((number, page) :: rest, t) →
    use.Ends (page, t)
      (fun _ u => Sound False pageSize count ((number, u.1) :: rest, u.2) ∧ u.2.below = t.below ∧
        u.1.dirty = change page.dirty)
      (fun _ u => Sound False pageSize count ((number, u.1) :: rest, u.2) ∧ u.2.below = t.below ∧
        u.1.dirty = page.dirty)

theorem ends_access_traffic {change : Option DirtyRange → Option DirtyRange}
    {use : Op (Page H × Pager S B) α} (h : Sound False pageSize count (residents (l, p)))
    (huse : Marks pageSize count number change use) :
    (access Pager.handler number use).Ends (l, p)
      (fun _ t => Sound False pageSize count (residents t) ∧
        dirty t.1.entries =
          Function.update (dirty l.entries) number (change (dirty l.entries number)) ∧
        Traffic pageSize bytes (dirty l.entries) p.below (dirty l.entries) t.2.below false)
      (fun _ t => Sound False pageSize count (residents t) ∧ dirty t.1.entries = dirty l.entries ∧
        Traffic pageSize bytes (dirty l.entries) p.below (dirty l.entries) t.2.below false) := by
  cases hl : l.entries.lookup number with
  | some page =>
    have hperm : l.entries.Perm ((number, page) :: without number l.entries) :=
      perm_without h.nodup hl
    have hdirty : ∀ q : Page H, dirty ((number, q) :: without number l.entries) =
        Function.update (dirty l.entries) number q.dirty := by
      intro q
      rw [dirty_perm hperm h.nodup, dirty_cons, dirty_cons, Function.update_idem]
    have hpage : dirty l.entries number = page.dirty := by rw [dirty, hl, Option.bind_some]
    rcases (huse page _ p (Sound.perm h hperm)).cases with
      ⟨a, ⟨q, t⟩, he, hs, hb, hd⟩ | ⟨e, ⟨q, t⟩, he, hs, hb, hd⟩
    · apply Op.Ends.of_ok (a := a)
      · simp only [access, hl, he]
        rfl
      · refine ⟨hs, (hdirty q).trans ?_, ?_⟩
        · rw [hd, hpage]
        · rw [hb]
          exact .start
    · apply Op.Ends.of_error (e := e)
      · simp only [access, hl, he]
        rfl
      · refine ⟨hs, (hdirty q).trans ?_, ?_⟩
        · rw [hd, ← hpage, Function.update_eq_self]
        · rw [hb]
          exact .start
  | none =>
    have hnew := lookup_eq_none_iff_notMem.mp hl
    have hnone := dirty_of_notMem hnew
    rcases (ends_fault_traffic bytes (dirty l.entries) h hnew).cases with
      ⟨page, t, he, hclean, hs, ht⟩ | ⟨e, t, he, hs, ht⟩
    · rcases (huse page _ t hs).cases with
          ⟨a, ⟨q, u⟩, heu, hu, hb, hd⟩ | ⟨e, ⟨q, u⟩, heu, hu, hb, hd⟩
      · apply Op.Ends.of_ok (a := a)
        · simp only [access, hl, Pager.handler, he, heu]
          rfl
        · refine ⟨hu, ?_, ?_⟩
          · rw [hnone, ← hclean, ← hd]
            exact dirty_cons number q l.entries
          · rw [hb]
            exact ht
      · apply Op.Ends.of_error (e := e)
        · simp only [access, hl, Pager.handler, he, heu]
          rfl
        · refine ⟨hu, dirty_cons_clean hnew (hd.trans hclean), ?_⟩
          rw [hb]
          exact ht
    · apply Op.Ends.of_error (e := e)
      · simp only [access, hl, Pager.handler, he]
        rfl
      · exact ⟨hs, rfl, ht⟩

end Recency.Ledger

namespace PageCache

open Residents Pager Recency

variable [PageStorage S H] [PageContents S H] [LawfulStorage S H] [Backend B]
variable {pageSize number : Nat} {c : PageCache S H B}

def stored (c : PageCache S H B) (page i : Nat) : UInt8 :=
  match c.cache.peek? page with
  | some p => PageContents.byteAt c.storage p.handle i
  | none => 0

structure Traced (pageSize : Nat) (c : PageCache S H B) : Prop where
  cache : c.cache.IsValid
  sound : Sound False pageSize c.capacity c.residents

omit [Backend B] in
theorem Traced.dirtyRange?_eq (h : Traced pageSize c) : c.dirtyRange? = dirty c.cache.toList := by
  funext page
  rw [dirtyRange?, h.cache.peek?_eq, dirty]

omit [Backend B] in
theorem Traced.stores (h : Traced pageSize c) : Stores c.stored c.residents := by
  rintro ⟨number, page⟩ he
  have hpeek : c.cache.peek? number = some page := by
    rw [h.cache.peek?_eq]
    exact (Ledger.lookup_eq_some_iff_mem h.sound.nodup).mpr he
  funext i
  simp only [stored, hpeek]
  rfl

namespace Action

def target? : Action → Option Nat
  | read page _ _ => some page
  | write page _ _ => some page
  | _ => none

def marks (d : Nat → Option DirtyRange) : Action → Nat → Option DirtyRange
  | write page offset data => Function.update d page (some (.cover (d page) offset data.size))
  | _ => d

end Action

structure Served (pageSize : Nat) (a : Action) (c t : PageCache S H B) : Prop where
  traced : Traced pageSize t
  traffic : ∃ d, Traffic pageSize c.stored c.dirtyRange? c.below d t.below false ∧
    (∀ page, a.target? = some page → d page = c.dirtyRange? page) ∧ t.dirtyRange? = a.marks d

structure Stopped (pageSize : Nat) (c t : PageCache S H B) : Prop where
  traced : Traced pageSize t
  traffic : ∃ refused,
    Traffic pageSize c.stored c.dirtyRange? c.below t.dirtyRange? t.below refused

theorem stopped_of_settles {t : PageCache S H B} {refused : Bool} (h : Traced pageSize c)
    (hv : t.cache.IsValid) (hc : t.capacity = c.capacity)
    (hs : Settles pageSize c.capacity c.stored c.residents t.residents refused) :
    Stopped pageSize c t := by
  have ht : Traced pageSize t := ⟨hv, hc ▸ hs.sound⟩
  refine ⟨ht, refused, ?_⟩
  rw [h.dirtyRange?_eq, ht.dirtyRange?_eq]
  exact hs.traffic

theorem served_of_settles {t : PageCache S H B} {a : Action} (h : Traced pageSize c)
    (ha : ∀ d, a.marks d = d) (hn : a.target? = none)
    (hv : t.cache.IsValid) (hc : t.capacity = c.capacity)
    (hs : Settles pageSize c.capacity c.stored c.residents t.residents false) :
    Served pageSize a c t := by
  have ht : Traced pageSize t := ⟨hv, hc ▸ hs.sound⟩
  refine ⟨ht, t.dirtyRange?, ?_, ?_, (ha _).symm⟩
  · rw [h.dirtyRange?_eq, ht.dirtyRange?_eq]
    exact hs.traffic
  · intro page hp
    rw [hn] at hp
    cases hp

section Touch

variable {change : Option DirtyRange → Option DirtyRange} {use : Op (Page H × Pager S B) α}

structure Touched (pageSize number : Nat) (change : Option DirtyRange → Option DirtyRange)
    (c : PageCache S H B) (u : Residents S H B) : Prop where
  sound : Sound False pageSize c.capacity u
  traffic : ∃ d, Traffic pageSize c.stored (dirty c.cache.toList) c.below d u.2.below false ∧
    d number = dirty c.cache.toList number ∧
      dirty u.1 = Function.update d number (change (d number))

structure Halted (pageSize : Nat) (c : PageCache S H B) (u : Residents S H B) : Prop where
  sound : Sound False pageSize c.capacity u
  traffic : ∃ refused,
    Traffic pageSize c.stored (dirty c.cache.toList) c.below (dirty u.1) u.2.below refused

theorem ends_access_touched {l : Ledger (Page H)} {p : Pager S B}
    (hs : Settles pageSize c.capacity c.stored c.residents (Ledger.residents (l, p)) false)
    (hn : dirty l.entries number = dirty c.cache.toList number)
    (huse : Ledger.Marks pageSize c.capacity number change use) :
    (Ledger.access Pager.handler number use).Ends (l, p)
      (fun _ u => Touched pageSize number change c (Ledger.residents u))
      (fun _ u => Halted pageSize c (Ledger.residents u)) := by
  apply (Ledger.ends_access_traffic hs.sound huse).mono
  · rintro a u ⟨hu, hd, ht⟩
    exact ⟨hu, _, hs.traffic.trans ht, hn, hd⟩
  · rintro e u ⟨hu, hd, ht⟩
    refine ⟨hu, false, ?_⟩
    have := hs.traffic.trans ht
    rwa [← hd] at this

theorem ends_evict_touched (h : Traced pageSize c) (hn : c.cache.contains number = false)
    (huse : Ledger.Marks pageSize c.capacity number change use) :
    (Ledger.evict Pager.handler 1 >>= fun _ => Ledger.access Pager.handler number use).Ends
      (c.cache.ledger, c.pager)
      (fun _ u => Touched pageSize number change c (Ledger.residents u))
      (fun _ u => Halted pageSize c (Ledger.residents u)) := by
  have hclean : dirty c.cache.toList number = none := by
    rw [h.cache.contains_eq, Option.isSome_eq_false_iff, Option.isNone_iff_eq_none] at hn
    rw [dirty, hn, Option.bind_none]
  apply (Ledger.ends_evictLoop_settles 1 0 h.sound h.stores).bind
  · rintro _ ⟨l, p⟩ hs
    exact ends_access_touched hs ((hs.traffic.eq_none hclean).trans hclean.symm) huse
  · rintro e u ⟨refused, hs⟩
    exact ⟨hs.sound, refused, hs.traffic⟩

theorem ends_touch_traffic (h : Traced pageSize c)
    (huse : Ledger.Marks pageSize c.capacity number change use) :
    (touch number use).Ends c
      (fun _ t => Traced pageSize t ∧
        ∃ d, Traffic pageSize c.stored c.dirtyRange? c.below d t.below false ∧
          d number = c.dirtyRange? number ∧
          t.dirtyRange? = Function.update d number (change (d number)))
      (fun _ t => Stopped pageSize c t) := by
  have hops : (touch number use).Ends c
      (fun _ t => t.cache.IsValid ∧ t.capacity = c.capacity ∧
        Touched pageSize number change c t.residents)
      (fun _ t => t.cache.IsValid ∧ t.capacity = c.capacity ∧ Halted pageSize c t.residents) := by
    apply ends_touch_tracked (fun _ u => Touched pageSize number change c u)
      (fun _ u => Halted pageSize c u) h.cache
    · exact fun hfull => ends_evict_touched h hfull.1 huse
    · exact fun _ => ends_access_touched (.refl h.sound h.stores) rfl huse
  apply hops.mono
  · rintro a t ⟨hv, hc, hsound, ht⟩
    have htraced : Traced pageSize t := ⟨hv, hc ▸ hsound⟩
    rw [h.dirtyRange?_eq, htraced.dirtyRange?_eq]
    exact ⟨htraced, ht⟩
  · rintro e t ⟨hv, hc, hsound, ht⟩
    have htraced : Traced pageSize t := ⟨hv, hc ▸ hsound⟩
    refine ⟨htraced, ?_⟩
    rw [h.dirtyRange?_eq, htraced.dirtyRange?_eq]
    exact ht

end Touch

section Uses

variable {count : Nat}

omit [Backend B] in
theorem marks_readPage (offset length : Nat) :
    Ledger.Marks pageSize count number id
      (Pager.readPage offset length : Op (Page H × Pager S B) ByteArray) := by
  intro page rest p h
  have hread := ends_onStorage (p := p) (LawfulStorage.ends_read offset length h.storage)
  rcases hread.cases with ⟨data, t, he, ⟨hp, hb, -⟩, hv, -⟩ | ⟨e, t, he, ⟨hp, hb, -⟩, hv, -⟩
  · apply Op.Ends.of_ok (a := data) (t := (page, t))
    · simp only [Pager.readPage, he]
    · exact ⟨h.keep hp hv, hb, rfl⟩
  · apply Op.Ends.of_error (e := e) (t := (page, t))
    · simp only [Pager.readPage, he]
    · exact ⟨h.keep hp hv, hb, rfl⟩

omit [Backend B] in
theorem marks_writePage (offset : Nat) (data : ByteArray) :
    Ledger.Marks pageSize count number (fun r => some (.cover r offset data.size))
      (Pager.writePage offset data : Op (Page H × Pager S B) Unit) := by
  intro page rest p h
  have hwrite := ends_onHandle (p := p) (LawfulStorage.ends_write offset data h.storage)
  rcases hwrite.cases with
    ⟨_, ⟨handle, t⟩, he, ⟨hp, hb, -⟩, hv, -⟩ | ⟨e, ⟨handle, t⟩, he, ⟨hp, hb, -⟩, hv, -⟩
  · apply Op.Ends.of_ok (a := ())
      (t := ({ handle, dirty := some (.cover page.dirty offset data.size) }, t))
    · simp only [Pager.writePage, he]
      rfl
    · exact ⟨h.renew hp hv, hb, rfl⟩
  · apply Op.Ends.of_error (e := e) (t := ({ page with handle }, t))
    · simp only [Pager.writePage, he]
    · exact ⟨h.renew hp hv, hb, rfl⟩

end Uses

theorem ends_flush_traffic (h : Traced pageSize c) :
    (flush : Op (PageCache S H B) Unit).Ends c (fun _ t => Served pageSize .flush c t)
      (fun _ t => Stopped pageSize c t) := by
  apply (ends_onCache_tracked (fun _ u => Settles pageSize c.capacity c.stored c.residents u false)
    (fun _ u => ∃ refused, Settles pageSize c.capacity c.stored c.residents u refused)
    (Recency.Cache.tracks_flushAll Pager.handler) h.cache
    (Ledger.ends_flushAll_settles h.sound h.stores)).mono
  · rintro _ t ⟨hv, hc, hs⟩
    exact served_of_settles h (fun _ => rfl) rfl hv hc hs
  · rintro e t ⟨hv, hc, refused, hs⟩
    exact stopped_of_settles h hv hc hs

theorem ends_clear_traffic (h : Traced pageSize c) :
    (clear : Op (PageCache S H B) Unit).Ends c (fun _ t => Served pageSize .clear c t)
      (fun _ t => Stopped pageSize c t) := by
  apply (ends_onCache_tracked (fun _ u => Settles pageSize c.capacity c.stored c.residents u false)
    (fun _ u => ∃ refused, Settles pageSize c.capacity c.stored c.residents u refused)
    (Recency.Cache.tracks_clear Pager.handler) h.cache
    (Ledger.ends_evictLoop_settles _ 0 h.sound h.stores)).bind
  · rintro _ t ⟨hv, hc, hs⟩
    exact served_of_settles h (fun _ => rfl) rfl hv hc hs
  · rintro e t ⟨hv, hc, refused, hs⟩
    exact stopped_of_settles h hv hc hs

theorem ends_onBelow_traffic {op : Op B Unit} {a : Action} (h : Traced pageSize c)
    (ha : ∀ d, a.marks d = d) (hn : a.target? = none)
    (ht : Traffic pageSize c.stored c.dirtyRange? c.below c.dirtyRange? (op c.below).2 false) :
    (onBelow op).Ends c (fun _ t => Served pageSize a c t) (fun _ t => Stopped pageSize c t) := by
  have hsettles : ∀ pager, Pager.Stays c.pager pager → pager.below = (op c.below).2 →
      Settles pageSize c.capacity c.stored c.residents (c.cache.toList, pager) false := by
    intro pager hp hb
    refine ⟨h.sound.keep hp.pageSize (hp.storage ▸ h.sound.storage), ?_, ?_⟩
    · exact h.stores.of_same (hp.storage ▸ .refl _ _)
    · rw [h.dirtyRange?_eq, ← hb] at ht
      exact ht
  apply (ends_onBelow_pager (op.ends_self c.below)).mono
  · rintro _ _ ⟨pager, rfl, hp, hb⟩
    exact served_of_settles h ha hn h.cache rfl (hsettles pager hp (congrArg Prod.snd hb).symm)
  · rintro e _ ⟨pager, rfl, hp, hb⟩
    exact stopped_of_settles h h.cache rfl (hsettles pager hp (congrArg Prod.snd hb).symm)

theorem ends_perform (a : Action) (h : Traced pageSize c) :
    a.perform.Ends c (fun _ t => Served pageSize a c t) (fun _ t => Stopped pageSize c t) := by
  cases a with
  | read page offset length =>
    apply (ends_touch_traffic h (marks_readPage offset length)).bind
    · rintro _ t ⟨htraced, d, ht, hd, hm⟩
      refine ⟨htraced, d, ht, ?_, hm.trans (Function.update_eq_self page d)⟩
      rintro _ ⟨⟩
      exact hd
    · exact fun e t ht => ht
  | write page offset data =>
    apply (ends_touch_traffic h (marks_writePage offset data)).mono
    · rintro _ t ⟨htraced, d, ht, hd, hm⟩
      refine ⟨htraced, d, ht, ?_, hm⟩
      rintro _ ⟨⟩
      exact hd
    · exact fun e t ht => ht
  | flush => exact ends_flush_traffic h
  | clear => exact ends_clear_traffic h
  | flushBelow => exact ends_onBelow_traffic h (fun _ => rfl) rfl Traffic.start.flush
  | shutdownBelow => exact ends_onBelow_traffic h (fun _ => rfl) rfl Traffic.start.shutdown

theorem traced_perform (a : Action) (h : Traced pageSize c) :
    Traced pageSize (a.perform c).2 :=
  Op.Ends.always ((ends_perform a h).mono (fun _ _ ht => ht.traced) fun _ _ ht => ht.traced)

theorem traced_create {name : String} {capacity : Nat} {storage : S} {below : B}
    (hs : LawfulStorage.Valid False pageSize capacity storage ([] : List H))
    (h : create name pageSize capacity storage below = .ok c) : Traced pageSize c := by
  obtain ⟨hcache, hnil, rfl, rfl, rfl, rfl, -⟩ := create_eq_ok h
  refine ⟨hcache, rfl, ?_, ?_⟩
  · rw [residents, hnil]
    exact List.nodup_nil
  · rw [residents, hnil]
    exact hs

theorem traced_call (h : Traced pageSize c) (request : Call Upkeep) :
    Traced pageSize (call request c).2 := by
  rw [← inOrder_actions]
  apply (Op.runs_attempt Action.perform (c.actions request) c).always (Q := fun _ => True)
    (fun _ _ => trivial) _ h
  exact fun a t _ ht => traced_perform a ht

theorem fits_steps (h : Traced pageSize c) (requests : List (Call Upkeep)) :
    ∀ s ∈ steps requests c, s.call.Fits pageSize := by
  induction requests generalizing c with
  | nil => simp [steps]
  | cons request requests ih =>
    have hp : c.pageSize = pageSize := h.sound.pageSize_eq
    rw [steps, List.forall_mem_append]
    exact ⟨Op.forall_mem_attempt (hp ▸ fits_actions c request) c, ih (traced_call h request)⟩

end PageCache

end TieredMemory
