import TieredMemory.Proofs.Backend.Transcript
import TieredMemory.Proofs.Page.Bookkeeping
import TieredMemory.Proofs.Recency.Recent

namespace TieredMemory

inductive Demand where
  | read (address length : Nat)
  | write (address length : Nat)
  deriving DecidableEq, Repr

structure Backend.Bounded {B : Type} [Backend B] (limit : Nat) (I : B → Prop) : Prop
    extends Backend.Serves limit (fun _ => True) I where
  size_read (b : B) (address length : Nat) : I b →
    (Backend.read address length).Ends b (fun data _ => data.size = length) fun _ _ => True

theorem LawfulBackend.bounded {B : Type} [Backend B] [Contents B] [LawfulBackend B] (limit : Nat) :
    Backend.Bounded limit fun b : B => LawfulBackend.Valid False b ∧ Contents.size b = limit where
  capacity b hb := hb.2 ▸ LawfulBackend.capacity_eq hb.1
  read b address length hb _ := (LawfulBackend.ends_read address length hb.1).mono
    (fun _ t ht => ⟨ht.1, ht.2.1.size.trans hb.2⟩)
    fun _ t ht => ⟨⟨ht.1, ht.2.1.size.trans hb.2⟩, trivial⟩
  write b address data hb _ := by
    apply (LawfulBackend.ends_write address data hb.1).mono
    · exact fun _ t ht => ⟨ht.1, ht.2.2.size.trans hb.2⟩
    · rintro e t ⟨hv, ⟨k, -, hw⟩, -⟩
      exact ⟨⟨hv, hw.size.trans hb.2⟩, trivial⟩
  flush b hb := (LawfulBackend.ends_flush hb.1).mono
    (fun _ t ht => ⟨ht.1, ht.2.1.size.trans hb.2⟩)
    fun _ t ht => ⟨⟨ht.1, ht.2.1.size.trans hb.2⟩, trivial⟩
  shutdown b hb := (LawfulBackend.ends_shutdown hb.1).mono
    (fun _ t ht => ⟨ht.1, ht.2.1.size.trans hb.2⟩)
    fun _ t ht => ⟨⟨ht.1, ht.2.1.size.trans hb.2⟩, trivial⟩
  size_read b address length hb := (LawfulBackend.ends_read address length hb.1).mono
    (fun _ _ ht => ht.2.2.2.1) fun _ _ _ => trivial

namespace StoreCall

def demand? : StoreCall → Option Demand
  | read address length _ => some (.read address length)
  | write address data _ => some (.write address data.size)
  | flush _ | shutdown _ => none

def succeeded : StoreCall → Bool
  | read _ _ answer => answer.isOk
  | write _ _ answer | flush answer | shutdown answer => answer.isOk

end StoreCall

variable {S H B α : Type}

namespace Transcript

structure Heard (b u : Transcript B) (new : List StoreCall) : Prop where
  calls : u.calls = b.calls ++ new
  idle : new = [] → u = b

def Grants (b u : Transcript B) (demands : List Demand) : Prop :=
  ∃ new, Heard b u new ∧ new.map (·.demand?) = demands.map some ∧
    ∀ call ∈ new, call.succeeded = true

/-- No more than the first of the transfers `demands` were made, and for sure one of them failed. -/
def Refuses (sure : Prop) (b u : Transcript B) (demands : List Demand) : Prop :=
  ∃ new, Heard b u new ∧ new.map (·.demand?) <+: demands.map some ∧
    (sure → ∃ call ∈ new, call.succeeded = false)

variable {sure : Prop} {b t u : Transcript B} {new new' : List StoreCall}
  {demands demands' : List Demand}

theorem Heard.trans (h : Heard b t new) (h' : Heard t u new') : Heard b u (new ++ new') := by
  constructor
  · rw [h'.calls, h.calls, List.append_assoc]
  · intro hnil
    obtain ⟨hnew, hnew'⟩ := List.append_eq_nil_iff.mp hnil
    exact (h'.idle hnew').trans (h.idle hnew)

theorem Grants.refl (b : Transcript B) : Grants b b [] :=
  ⟨[], ⟨(List.append_nil _).symm, fun _ => rfl⟩, rfl, fun _ hm => absurd hm List.not_mem_nil⟩

theorem Grants.trans (h : Grants b t demands) (h' : Grants t u demands') :
    Grants b u (demands ++ demands') := by
  obtain ⟨new, hheard, hdemands, hall⟩ := h
  obtain ⟨new', hheard', hdemands', hall'⟩ := h'
  refine ⟨new ++ new', hheard.trans hheard', ?_, List.forall_mem_append.mpr ⟨hall, hall'⟩⟩
  rw [List.map_append, List.map_append, hdemands, hdemands']

theorem Refuses.of_not (b : Transcript B) (demands : List Demand) (h : ¬ sure) :
    Refuses sure b b demands :=
  ⟨[], ⟨(List.append_nil _).symm, fun _ => rfl⟩, List.nil_prefix, fun hs => absurd hs h⟩

theorem Refuses.append (h : Refuses sure b u demands) (demands' : List Demand) :
    Refuses sure b u (demands ++ demands') := by
  obtain ⟨new, hheard, hdemands, hfail⟩ := h
  refine ⟨new, hheard, hdemands.trans ?_, hfail⟩
  rw [List.map_append]
  exact List.prefix_append _ _

theorem Grants.refuses (h : Grants b t demands) (h' : Refuses sure t u demands') :
    Refuses sure b u (demands ++ demands') := by
  obtain ⟨new, hheard, hdemands, -⟩ := h
  obtain ⟨new', hheard', hdemands', hfail⟩ := h'
  refine ⟨new ++ new', hheard.trans hheard', ?_, fun hs => ?_⟩
  · rw [List.map_append, List.map_append, hdemands]
    exact (List.prefix_append_right_inj _).mpr hdemands'
  · obtain ⟨call, hm, hcall⟩ := hfail hs
    exact ⟨call, List.mem_append_right _ hm, hcall⟩

theorem Grants.refuses_of_not (h : Grants b u demands) (hn : ¬ sure) :
    Refuses sure b u demands := by
  have hrefuses := h.refuses (Refuses.of_not u [] hn)
  rwa [List.append_nil] at hrefuses

theorem ends_note_demand (sure : Prop) {entry : Except Error α → StoreCall} {demand : Demand}
    (hdemand : ∀ answer, (entry answer).demand? = some demand)
    (hsucceeded : ∀ answer, (entry answer).succeeded = answer.isOk) (op : Op B α) :
    (note entry op).Ends b (fun _ u => Grants b u [demand])
    (fun _ u => Refuses sure b u [demand]) := by
  have hheard : ∀ answer inner, Heard b ⟨inner, b.calls ++ [entry answer]⟩ [entry answer] :=
    fun _ _ => ⟨rfl, fun hnil => absurd hnil (List.cons_ne_nil _ _)⟩
  have hmap : ∀ answer, [entry answer].map (·.demand?) = [demand].map some := fun answer =>
    congrArg (fun d => [d]) (hdemand answer)
  rcases he : op b.inner with ⟨e | a, inner⟩
  · apply Op.Ends.of_error (e := e) (t := ⟨inner, b.calls ++ [entry (.error e)]⟩)
    · simp only [note, he]
    · refine ⟨_, hheard _ inner, hmap (.error e) ▸ List.prefix_rfl, fun _ => ?_⟩
      exact ⟨_, List.mem_cons_self, hsucceeded (.error e)⟩
  · apply Op.Ends.of_ok (a := a) (t := ⟨inner, b.calls ++ [entry (.ok a)]⟩)
    · simp only [note, he]
    · exact ⟨_, hheard _ inner, hmap (.ok a), List.forall_mem_singleton.mpr (hsucceeded (.ok a))⟩

theorem ends_note_inner {entry : Except Error α → StoreCall} {op : Op B α} {I : B → Prop}
    {bad : Error → Prop} (h : op.Ends b.inner (fun _ t => I t) fun e t => I t ∧ bad e) :
    (note entry op).Ends b (fun _ u => I u.inner) fun e u => I u.inner ∧ bad e := by
  rcases h.cases with ⟨a, inner, he, ht⟩ | ⟨e, inner, he, ht⟩
  · apply Op.Ends.of_ok (a := a) (t := ⟨inner, b.calls ++ [entry (.ok a)]⟩)
    · simp only [note, he]
    · exact ht
  · apply Op.Ends.of_error (e := e) (t := ⟨inner, b.calls ++ [entry (.error e)]⟩)
    · simp only [note, he]
    · exact ht

variable [Backend B] {limit : Nat} {I : B → Prop}

theorem serves_inner {bad : Error → Prop} (h : Backend.Serves limit bad I) :
    Backend.Serves limit bad fun b : Transcript B => I b.inner where
  capacity b hb := h.capacity b.inner hb
  read b address length hb hr := ends_note_inner (h.read b.inner address length hb hr)
  write b address data hb hr := ends_note_inner (h.write b.inner address data hb hr)
  flush b hb := ends_note_inner (h.flush b.inner hb)
  shutdown b hb := ends_note_inner (h.shutdown b.inner hb)

theorem ends_read_demand (sure : Prop) (h : Backend.Bounded limit I) (address length : Nat)
    (hb : I b.inner) :
    (Backend.read address length).Ends b
      (fun data u => data.size = length ∧ Grants b u [.read address length])
      (fun _ u => Refuses sure b u [.read address length]) := by
  have hsize : (Backend.read address length).Ends b (fun data _ => data.size = length)
      fun _ _ => True := ends_note (h.size_read b.inner address length hb)
  apply (hsize.and (ends_note_demand sure (fun _ => rfl) (fun _ => rfl) _)).mono
  · exact fun data u hu => hu
  · exact fun e u hu => hu.2

theorem ends_write_demand (sure : Prop) (address : Nat) (data : ByteArray) :
    (Backend.write address data).Ends b (fun _ u => Grants b u [.write address data.size])
      (fun _ u => Refuses sure b u [.write address data.size]) :=
  ends_note_demand sure (fun _ => rfl) (fun _ => rfl) _

end Transcript

namespace Pager

open Residents Transcript

def owed (pageSize : Nat) (e : Nat × Page H) : List Demand :=
  e.2.dirty.toList.map fun r => .write (e.1 * pageSize + r.start) r.length

def needed (pageSize limit number : Nat) : Demand :=
  .read (number * pageSize) (min ((number + 1) * pageSize) limit - number * pageSize)

variable [PageStorage S H] [PageContents S H] [LawfulStorage S H] [Backend B]
variable {sure : Prop} {pageSize count limit number : Nat} {page : Page H} {I : B → Prop}
variable {entries rest : List (Nat × Page H)} {p : Pager S (Transcript B)}

theorem ends_writeBack_demand {r : DirtyRange}
    (hs : Sound sure pageSize count ((number, page) :: rest, p)) (hr : r.stop ≤ pageSize) :
    (writeBack number page.handle r).Ends p
      (fun _ t => Grants p.below t.below [.write (number * pageSize + r.start) r.length])
      (fun _ t =>
        Refuses sure p.below t.below [.write (number * pageSize + r.start) r.length]) := by
  have haddress : p.pageAddress number + r.start = number * pageSize + r.start := by
    rw [pageAddress, hs.pageSize_eq]
  apply (ends_onStorage (p := p) (LawfulStorage.ends_read r.start r.length hs.storage)).bind
  · rintro data t ⟨ha, -, -, hdata⟩
    have hsize : data.size = r.length := hdata.1
    rw [haddress]
    apply (ends_onBelow (p := t) (ends_write_demand sure _ data)).bind
    · rintro _ u ⟨-, hu⟩
      rw [ha.below, hsize] at hu
      exact hu
    · rintro e u ⟨-, hu⟩
      rw [ha.below, hsize] at hu
      exact hu
  · rintro e t ⟨ha, -, -, hn⟩
    rw [ha.below]
    exact .of_not _ _ fun hx => hn ⟨hx, hr⟩

theorem ends_flush_demand (hs : Sound sure pageSize count ((number, page) :: rest, p))
    (hd : ∀ r, page.dirty = some r → r.stop ≤ pageSize) :
    (flush number).Ends (page, p)
      (fun _ t => Grants p.below t.2.below (owed pageSize (number, page)))
      (fun _ t => Refuses sure p.below t.2.below (owed pageSize (number, page))) := by
  cases hdirty : page.dirty with
  | none =>
    apply Op.Ends.of_ok (a := ()) (t := (page, p))
    · simp only [flush, hdirty]
    · rw [owed, hdirty]
      exact .refl _
  | some r =>
    have howed :
        owed pageSize (number, page) = [.write (number * pageSize + r.start) r.length] := by
      rw [owed, hdirty]
      rfl
    rw [howed]
    rcases (ends_writeBack_demand hs (hd r hdirty)).cases with ⟨_, t, he, ht⟩ | ⟨e, t, he, ht⟩
    · apply Op.Ends.of_ok (a := ()) (t := ({ page with dirty := none }, t))
      · simp only [flush, hdirty, he]
      · exact ht
    · apply Op.Ends.of_error (e := e) (t := (page, t))
      · simp only [flush, hdirty, he]
      · exact ht

omit [PageStorage S H] [PageContents S H] [LawfulStorage S H] in
theorem readable_eq (h : Backend.Bounded limit I) (hp : p.pageSize = pageSize)
    (hb : I p.below.inner)
    (hn : number * pageSize < limit) :
    p.readable number = min ((number + 1) * pageSize) limit - number * pageSize ∧
      0 < p.readable number ∧ p.readable number ≤ pageSize := by
  have hpos : 0 < pageSize := hp ▸ p.pageSize_pos
  have hcapacity : Backend.capacity p.below = some limit := h.capacity p.below.inner hb
  simp only [readable, hcapacity, pageAddress, hp, Nat.succ_mul]
  omega

omit [PageStorage S H] [PageContents S H] [LawfulStorage S H] in
theorem ends_fetch_demand (h : Backend.Bounded limit I) (hp : p.pageSize = pageSize)
    (hb : I p.below.inner) (hn : number * pageSize < limit) :
    (fetch number : Op (Pager S (Transcript B)) ByteArray).Ends p
      (fun data t => Stays p t ∧ data.size = pageSize ∧
        Grants p.below t.below [needed pageSize limit number])
      (fun _ t => Stays p t ∧ Refuses sure p.below t.below [needed pageSize limit number]) := by
  obtain ⟨hlength, hpos, hle⟩ := readable_eq h hp hb hn
  have haddress : p.pageAddress number = number * pageSize := by rw [pageAddress, hp]
  have hread := ends_read_demand sure h (p.pageAddress number) (p.readable number) hb
  rw [needed, ← hlength, ← haddress]
  rcases (ends_onBelow (p := p) hread).cases with
    ⟨data, t, he, hst, hsize, ht⟩ | ⟨e, t, he, ht⟩
  · apply Op.Ends.of_ok (a := Bytes.padTo data p.pageSize) (t := t)
    · simp only [fetch, if_neg (Nat.ne_of_gt hpos), he]
    · refine ⟨hst, ?_, ht⟩
      rw [Bytes.size_padTo, hsize, hp]
      exact Nat.max_eq_right hle
  · apply Op.Ends.of_error (e := e) (t := t)
    · simp only [fetch, if_neg (Nat.ne_of_gt hpos), he]
    · exact ht

theorem ends_load_demand {handle : H} (h : Backend.Bounded limit I) (hp : p.pageSize = pageSize)
    (hb : I p.below.inner)
    (hs : LawfulStorage.Valid sure pageSize count p.storage (handle :: handles entries))
    (hn : number * pageSize < limit) :
    (load number : Op (H × Pager S (Transcript B)) Unit).Ends (handle, p)
      (fun _ t => Grants p.below t.2.below [needed pageSize limit number])
      (fun _ t => Refuses sure p.below t.2.below [needed pageSize limit number]) := by
  rcases (ends_fetch_demand h hp hb hn).cases with ⟨data, t, he, hst, hsize, ht⟩ | ⟨e, t, he, -, ht⟩
  · have hload : (load number : Op (H × Pager S (Transcript B)) Unit) (handle, p) =
        onHandle (PageStorage.write 0 data) (handle, t) := by
      simp only [load, he]
    rw [← hst.storage] at hs
    rw [Op.Ends, hload]
    apply (ends_onHandle (p := t) (LawfulStorage.ends_write 0 data hs)).mono
    · rintro _ u ⟨ha, -⟩
      rw [ha.below]
      exact ht
    · rintro e u ⟨ha, -, -, -, hn⟩
      rw [ha.below]
      exact ht.refuses_of_not fun hx => hn ⟨hx, Nat.le_of_eq ((Nat.zero_add _).trans hsize)⟩
  · apply Op.Ends.of_error (e := e) (t := (handle, t))
    · simp only [load, he]
    · exact ht

theorem ends_fault_demand (h : Backend.Bounded limit I)
    (hs : Sound sure pageSize count (entries, p)) (hroom : entries.length < count)
    (hb : I p.below.inner) (hn : number * pageSize < limit) :
    (fault number : Op (Pager S (Transcript B)) (Page H)).Ends p
      (fun _ t => Grants p.below t.below [needed pageSize limit number])
      (fun _ t => Refuses sure p.below t.below [needed pageSize limit number]) := by
  rcases (ends_onStorage (p := p) (LawfulStorage.ends_acquire hs.storage)).cases with
    ⟨handle, t, he, ha, hv, -⟩ | ⟨e, t, he, ha, -, -, hfull⟩
  · have hload := ends_load_demand h (ha.pageSize.trans hs.pageSize_eq) (ha.below ▸ hb) hv hn
    rw [ha.below] at hload
    rcases hload.cases with ⟨_, ⟨g, u⟩, heu, hu⟩ | ⟨e, ⟨g, u⟩, heu, hu⟩
    · apply Op.Ends.of_ok (a := { handle := g }) (t := u)
      · simp only [fault, he, heu]
      · exact hu
    · -- the storage of the page is given back, which the store below does not notice
      have hrelease := ends_onStorage (Op.ends_true (PageStorage.release g) u.storage)
      rcases hrelease.cases with ⟨_, v, hev, hav, -⟩ | ⟨e', v, hev, hav, -⟩
      · apply Op.Ends.of_error (e := e) (t := v)
        · simp only [fault, he, heu, hev]
        · rw [hav.below]
          exact hu
      · apply Op.Ends.of_error (e := e') (t := v)
        · simp only [fault, he, heu, hev]
        · rw [hav.below]
          exact hu
  · apply Op.Ends.of_error (e := e) (t := t)
    · simp only [fault, he]
    · rw [ha.below]
      refine .of_not _ _ fun hx => hfull ⟨hx, ?_⟩
      rwa [handles, List.length_map]

end Pager

namespace Recency.Ledger

open Residents Transcript Pager

variable [PageStorage S H] [PageContents S H] [LawfulStorage S H] [Backend B]
variable {sure : Prop} {pageSize count limit number : Nat} {I : B → Prop}
variable {l : Ledger (Page H)} {p : Pager S (Transcript B)}

def Aside (sure : Prop) (pageSize count number : Nat) (use : Op (Page H × Pager S B) α) : Prop :=
  ∀ page rest t, Sound sure pageSize count ((number, page) :: rest, t) →
    use.Ends (page, t) (fun _ u => u.2.below = t.below) fun _ u => u.2.below = t.below ∧ ¬ sure

omit [Backend B] in
theorem aside_readPage {offset length : Nat} (hin : offset + length ≤ pageSize) :
    Aside sure pageSize count number
      (readPage offset length : Op (Page H × Pager S B) ByteArray) := by
  intro page rest p hs
  have hread := ends_onStorage (p := p) (LawfulStorage.ends_read offset length hs.storage)
  rcases hread.cases with ⟨data, t, he, ha, -⟩ | ⟨e, t, he, ha, -, -, hn⟩
  · apply Op.Ends.of_ok (a := data) (t := (page, t))
    · simp only [readPage, he]
    · exact ha.below
  · apply Op.Ends.of_error (e := e) (t := (page, t))
    · simp only [readPage, he]
    · exact ⟨ha.below, fun hx => hn ⟨hx, hin⟩⟩

omit [Backend B] in
theorem aside_writePage {offset : Nat} {data : ByteArray} (hin : offset + data.size ≤ pageSize) :
    Aside sure pageSize count number (writePage offset data : Op (Page H × Pager S B) Unit) := by
  intro page rest p hs
  have hwrite := ends_onHandle (p := p) (LawfulStorage.ends_write offset data hs.storage)
  rcases hwrite.cases with ⟨_, ⟨handle, t⟩, he, ha, -⟩ | ⟨e, ⟨handle, t⟩, he, ha, -, -, -, hn⟩
  · apply Op.Ends.of_ok (a := ())
      (t := ({ handle, dirty := some (.cover page.dirty offset data.size) }, t))
    · simp only [writePage, he]
      rfl
    · exact ha.below
  · apply Op.Ends.of_error (e := e) (t := ({ page with handle }, t))
    · simp only [writePage, he]
    · exact ⟨ha.below, fun hx => hn ⟨hx, hin⟩⟩

abbrev Serviced (sure : Prop) (pageSize count limit : Nat) (I : B → Prop)
    (s : Ledger (Page H) × Pager S (Transcript B)) : Prop :=
  Tended sure pageSize count (some limit) (fun b => I b.below.inner) s

theorem ends_evict_demand (h : Backend.Bounded limit I)
    (ht : Serviced sure pageSize count limit I (l, p)) :
    (evictLoop Pager.handler 1 0).Ends (l, p)
      (fun _ t => Grants p.below t.2.below (l.entries.getLast?.toList.flatMap (owed pageSize)))
      (fun _ t => Refuses sure p.below t.2.below
        (l.entries.getLast?.toList.flatMap (owed pageSize))) := by
  rcases List.eq_nil_or_concat' l.entries with hnil | ⟨rest, ⟨number, page⟩, hl⟩
  · apply Op.Ends.of_ok (a := 0) (t := (l, p))
    · simp only [evictLoop, hnil, List.getLast?_nil]
    · rw [hnil]
      exact .refl _
  · have hlast : l.entries.getLast? = some (number, page) := by rw [hl, List.getLast?_concat]
    have howed :
        l.entries.getLast?.toList.flatMap (owed pageSize) = owed pageSize (number, page) := by
      rw [hlast, Option.toList_some, List.flatMap_singleton]
    have hfront : Sound sure pageSize count ((number, page) :: rest, p) :=
      Sound.perm ht.sound (hl ▸ List.perm_append_singleton _ _)
    have hcovered := ht.covered (number, page) (List.mem_of_getLast? hlast)
    have hflush := (ends_flush_demand hfront fun r hr => (hcovered r hr).1).and
      (ends_flush_books ((serves_inner h.toServes).steady sure pageSize) (PageStorage.blames_true S)
        hfront hcovered ht.books)
    rw [howed]
    rcases hflush.cases with ⟨_, ⟨q, t⟩, he, hgrants, hst, -⟩ | ⟨e, ⟨q, t⟩, he, hrefuses, -⟩
    · rcases (ends_release_books hst).cases with ⟨_, u, her, -, ha⟩ | ⟨_, _, -, hf⟩
      · rw [← ha.below] at hgrants
        exact .of_ok (evictLoop_of_flushed (h := Pager.handler) 0 0 hl he her) hgrants
      · exact hf.elim
    · exact .of_error (evictLoop_of_flush_error (h := Pager.handler) hl he) hrefuses

theorem ends_access_demand {use : Op (Page H × Pager S (Transcript B)) α}
    (h : Backend.Bounded limit I) (hroom : number ∉ l.keys → l.entries.length < count)
    (hn : number * pageSize < limit) (huse : Aside sure pageSize count number use)
    (ht : Serviced sure pageSize count limit I (l, p)) :
    (access Pager.handler number use).Ends (l, p)
      (fun _ t => Grants p.below t.2.below
        (if number ∈ l.keys then [] else [needed pageSize limit number]))
      (fun _ t => Refuses sure p.below t.2.below
        (if number ∈ l.keys then [] else [needed pageSize limit number])) := by
  cases hl : l.entries.lookup number with
  | some page =>
    have hfront := Sound.perm ht.sound (perm_without ht.sound.nodup hl)
    rw [if_pos (mem_keys_of_lookup hl)]
    rcases (huse page _ p hfront).cases with ⟨a, ⟨q, t⟩, he, hb⟩ | ⟨e, ⟨q, t⟩, he, hb, hfail⟩
    · apply Op.Ends.of_ok (a := a)
      · simp only [access, hl, he]
        rfl
      · exact hb ▸ .refl _
    · apply Op.Ends.of_error (e := e)
      · simp only [access, hl, he]
        rfl
      · exact hb ▸ .of_not _ _ hfail
  | none =>
    have hnew : number ∉ l.keys := lookup_eq_none_iff_notMem.mp hl
    have hfault := (ends_fault_demand h ht.sound (hroom hnew) ht.books hn).and
      (ends_fault_books ((serves_inner h.toServes).steady sure pageSize) (PageStorage.blames_true S)
        ht.sound hnew (fun _ hlimit => Option.some.inj hlimit ▸ hn) ht.books)
    rw [if_neg hnew]
    rcases hfault.cases with ⟨page, t, he, hgrants, -, hst, -⟩ | ⟨e, t, he, hrefuses, -⟩
    · rcases (huse page _ t hst).cases with ⟨a, ⟨q, u⟩, heu, hb⟩ | ⟨e, ⟨q, u⟩, heu, hb, hfail⟩
      · apply Op.Ends.of_ok (a := a)
        · simp only [access, hl, Pager.handler, he, heu]
          rfl
        · exact hb ▸ hgrants
      · apply Op.Ends.of_error (e := e)
        · simp only [access, hl, Pager.handler, he, heu]
          rfl
        · exact hb ▸ hgrants.refuses_of_not hfail
    · apply Op.Ends.of_error (e := e)
      · simp only [access, hl, Pager.handler, he]
        rfl
      · exact hrefuses

theorem ends_replace_demand {use : Op (Page H × Pager S (Transcript B)) α}
    (h : Backend.Bounded limit I) (hnew : number ∉ l.keys) (hpos : 0 < count)
    (hfull : l.entries.length ≤ count)
    (hn : number * pageSize < limit) (huse : Aside sure pageSize count number use)
    (ht : Serviced sure pageSize count limit I (l, p)) :
    (evict Pager.handler 1 >>= fun _ => access Pager.handler number use).Ends (l, p)
      (fun _ t => Grants p.below t.2.below
        (l.entries.getLast?.toList.flatMap (owed pageSize) ++ [needed pageSize limit number]))
      (fun _ t => Refuses sure p.below t.2.below
        (l.entries.getLast?.toList.flatMap (owed pageSize) ++ [needed pageSize limit number])) := by
  have hkeep : Handler.Keeps (Pager.handler (S := S) (H := H) (B := Transcript B)) fun _ => True :=
    ⟨fun _ _ _ => trivial, fun _ _ _ _ => trivial, fun _ _ _ _ => trivial⟩
  have hevict := (ends_evict_demand h ht).and
    ((ends_evictLoop_tended ((serves_inner h.toServes).steady sure pageSize)
      (PageStorage.blames_true S) 1 0 ht).and (ends_evictLoop_keys hkeep 1 0 trivial))
  apply hevict.bind
  · rintro _ ⟨m, q⟩ ⟨hgrants, htended, hkeys, -⟩
    have hlen : l.keys.length = l.entries.length := List.length_map _
    have hout : number ∉ m.keys := fun hm => hnew (List.mem_of_mem_take (hkeys ▸ hm))
    have hroom : m.entries.length < count := by
      have hm : m.keys.length = m.entries.length := List.length_map _
      rw [← hm, hkeys, List.length_take]
      omega
    apply (ends_access_demand h (fun _ => hroom) hn huse htended).mono
    · intro _ t hnext
      rw [if_neg hout] at hnext
      exact hgrants.trans hnext
    · intro e t hnext
      rw [if_neg hout] at hnext
      exact hgrants.refuses hnext
  · exact fun e t hrefuses => hrefuses.1.append _

end Recency.Ledger

end TieredMemory
