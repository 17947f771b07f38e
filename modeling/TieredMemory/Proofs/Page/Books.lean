import TieredMemory.Proofs.Page.Traffic

/-!
The books of a tier: how many pages are resident, what its counters say, and the store below. Few
things can happen to them. What survives each of these survives every call on the tier, and holds
after the calls that fail as well.
-/

namespace TieredMemory

def Under (limit : Option Nat) (n : Nat) : Prop := ∀ l, limit = some l → n ≤ l

structure Books (B : Type) where
  resident : Nat
  lookups : Lookups
  writeBacks : WriteBacks
  below : B

namespace Books

variable {B : Type}

def moved (b : Books B) (below : B) : Books B := { b with below }

def written (b : Books B) (length : Nat) (below : B) : Books B :=
  { b with writeBacks := b.writeBacks.record length, below }

def hit (b : Books B) : Books B :=
  { b with lookups := { b.lookups with hits := b.lookups.hits + 1 } }

def missed (b : Books B) (below : B) : Books B :=
  { b with lookups := { b.lookups with misses := b.lookups.misses + 1 }, below }

def loaded (b : Books B) (below : B) : Books B :=
  { b with
    resident := b.resident + 1
    lookups := { b.lookups with
      misses := b.lookups.misses + 1
      inserts := b.lookups.inserts + 1 }
    below }

def evicted (b : Books B) : Books B :=
  { b with
    resident := b.resident - 1
    lookups := { b.lookups with evictions := b.lookups.evictions + 1 } }

end Books

structure Steady {B : Type} [Backend B] (sure : Prop) (pageSize : Nat) (limit : Option Nat)
    (bad : Error → Prop) (K : Books B → Prop) : Prop where
  capacity (b : Books B) (l : Nat) : K b → limit = some l → Backend.capacity b.below = some l
  write (b : Books B) (address : Nat) (data : ByteArray) :
    K b → Under limit (address + data.size) →
    (Backend.write address data).Ends b.below (fun _ t => K (b.written data.size t))
      (fun e t => K (b.moved t) ∧ bad e)
  read (b : Books B) (address length : Nat) : K b → Under limit (address + length) →
    length ≤ pageSize →
    (Backend.read address length).Ends b.below
      (fun data t => K (b.loaded t) ∧ (¬ (sure ∧ data.size ≤ pageSize) → K (b.missed t)))
      (fun e t => K (b.missed t) ∧ bad e)
  -- A page that is loaded from nowhere, and one that is not loaded at all.
  skip (b : Books B) : K b → limit = none → K (b.loaded b.below)
  miss (b : Books B) : K b → K (b.missed b.below)
  hit (b : Books B) : K b → K b.hit
  evict (b : Books B) : K b → 0 < b.resident → K b.evicted
  flush (b : Books B) : K b → Op.Ends Backend.flush b.below (fun _ t => K (b.moved t))
    (fun e t => K (b.moved t) ∧ bad e)
  shutdown (b : Books B) : K b → Op.Ends Backend.shutdown b.below (fun _ t => K (b.moved t))
    (fun e t => K (b.moved t) ∧ bad e)

structure PageStorage.Blames (S : Type) {H : Type} [PageStorage S H] (bad : Error → Prop) :
    Prop where
  acquire {s t : S} {e : Error} : PageStorage.acquire s = (.error e, t) → bad e
  read {h : H} {offset length : Nat} {s t : S} {e : Error} :
    PageStorage.read h offset length s = (.error e, t) → bad e
  write {offset : Nat} {data : ByteArray} {s t : H × S} {e : Error} :
    PageStorage.write offset data s = (.error e, t) → bad e

theorem PageStorage.blames_true (S : Type) {H : Type} [PageStorage S H] :
    PageStorage.Blames S fun _ => True :=
  ⟨fun _ => trivial, fun _ => trivial, fun _ => trivial⟩

variable {S H B α : Type}

namespace Pager

variable {p : Pager S B}

def books (n : Nat) (lookups : Lookups) (p : Pager S B) : Books B :=
  ⟨n, lookups, p.writeBacks, p.below⟩

theorem Abides.books_eq {t : Pager S B} (h : Abides p t) (n : Nat) (lookups : Lookups) :
    t.books n lookups = p.books n lookups := by
  rw [books, books, h.below, h.writeBacks]

section Steps

open Residents

variable [PageStorage S H] [PageContents S H] [LawfulStorage S H] [Backend B]
variable {sure : Prop} {pageSize count number n : Nat} {limit : Option Nat} {bad : Error → Prop}
variable {K : Books B → Prop} {lookups : Lookups} {entries rest : List (Nat × Page H)}
variable {page : Page H}

def Covered (limit : Option Nat) (pageSize : Nat) (e : Nat × Page H) : Prop :=
  ∀ r, e.2.dirty = some r → r.stop ≤ pageSize ∧ Under limit (e.1 * pageSize + r.stop)

theorem ends_writeBack_books (h : Steady sure pageSize limit bad K)
    (hstorage : PageStorage.Blames S bad) {r : DirtyRange}
    (hs : Sound sure pageSize count ((number, page) :: rest, p))
    (hr : Under limit (number * pageSize + r.stop)) (hk : K (p.books n lookups)) :
    (writeBack number page.handle r).Ends p
      (fun _ t => Sound sure pageSize count ((number, page) :: rest, t) ∧ K (t.books n lookups))
      (fun e t => Sound sure pageSize count ((number, page) :: rest, t) ∧
        K (t.books n lookups) ∧ bad e) := by
  have haddress : p.pageAddress number + r.start = number * pageSize + r.start := by
    rw [pageAddress, hs.pageSize_eq]
  have hread := LawfulStorage.ends_read r.start r.length hs.storage
  have hself := Op.ends_self (PageStorage.read page.handle r.start r.length) p.storage
  apply (ends_onStorage hself).bind
  · rintro data t ⟨ha, he⟩
    obtain ⟨hv, -, hdata⟩ := hread.ok_of_eq he
    have hsize : data.size = r.length := hdata.1
    have hst : Sound sure pageSize count ((number, page) :: rest, t) := hs.keep ha.pageSize hv
    rw [← ha.books_eq] at hk
    have hwrite := h.write _ (number * pageSize + r.start) data hk (by
      rw [hsize, Nat.add_assoc]
      exact hr)
    rw [haddress]
    apply (ends_onBelow hwrite).bind
    · rintro _ u ⟨hu, hku⟩
      refine ⟨hst.keep hu.pageSize (hu.storage ▸ hst.storage), ?_⟩
      rw [hsize] at hku
      change K ⟨n, lookups, u.writeBacks.record r.length, u.below⟩
      rw [hu.writeBacks]
      exact hku
    · rintro e u ⟨hu, hku, hb⟩
      refine ⟨hst.keep hu.pageSize (hu.storage ▸ hst.storage), ?_, hb⟩
      rw [books, hu.writeBacks]
      exact hku
  · rintro e t ⟨ha, he⟩
    obtain ⟨hv, -⟩ := hread.error_of_eq he
    exact ⟨hs.keep ha.pageSize hv, ha.books_eq n lookups ▸ hk, hstorage.read he⟩

theorem ends_flush_books (h : Steady sure pageSize limit bad K)
    (hstorage : PageStorage.Blames S bad)
    (hs : Sound sure pageSize count ((number, page) :: rest, p))
    (hr : Covered limit pageSize (number, page)) (hk : K (p.books n lookups)) :
    (flush number).Ends (page, p)
      (fun _ t => Sound sure pageSize count ((number, t.1) :: rest, t.2) ∧ t.1.dirty = none ∧
        K (t.2.books n lookups))
      (fun e t => Sound sure pageSize count ((number, t.1) :: rest, t.2) ∧ t.1 = page ∧
        K (t.2.books n lookups) ∧ bad e) := by
  cases hd : page.dirty with
  | none =>
    apply Op.Ends.of_ok (a := ()) (t := (page, p))
    · simp only [flush, hd]
    · exact ⟨hs, hd, hk⟩
  | some r =>
    rcases (ends_writeBack_books h hstorage hs (hr r hd).2 hk).cases with
      ⟨_, t, he, hst, hkt⟩ | ⟨e, t, he, hst, hkt, hb⟩
    · apply Op.Ends.of_ok (a := ()) (t := ({ page with dirty := none }, t))
      · simp only [flush, hd, he]
      · exact ⟨hst.renew rfl hst.storage, rfl, hkt⟩
    · apply Op.Ends.of_error (e := e) (t := (page, t))
      · simp only [flush, hd, he]
      · exact ⟨hst, rfl, hkt, hb⟩

omit [Backend B] in
theorem ends_release_books (hs : Sound sure pageSize count ((number, page) :: rest, p)) :
    (onStorage (PageStorage.release page.handle) : Op (Pager S B) Unit).Ends p
      (fun _ t => Sound sure pageSize count (rest, t) ∧ Abides p t) (fun _ _ => False) := by
  have hrelease := LawfulStorage.ends_release hs.storage
  have hself := Op.ends_self (PageStorage.release page.handle) p.storage
  apply (ends_onStorage hself).mono
  · rintro _ t ⟨ha, he⟩
    exact ⟨hs.go ha.pageSize (hrelease.ok_of_eq he).1, ha⟩
  · rintro e t ⟨-, he⟩
    exact hrelease.error_of_eq he

theorem ends_fetch_books (h : Steady sure pageSize limit bad K) (hp : p.pageSize = pageSize)
    (hn : ∀ l, limit = some l → number * pageSize < l) (hk : K (p.books n lookups)) :
    (fetch number : Op (Pager S B) ByteArray).Ends p
      (fun data t => Stays p t ∧ K ((p.books n lookups).loaded t.below) ∧
        (¬ (sure ∧ data.size ≤ pageSize) → K ((p.books n lookups).missed t.below)))
      (fun e t => Stays p t ∧ K ((p.books n lookups).missed t.below) ∧ bad e) := by
  by_cases hz : p.readable number = 0
  · -- a page that starts below the limit has a byte to be loaded
    have hnone : limit = none := by
      rw [Option.eq_none_iff_forall_ne_some]
      intro l hl
      have hlt := hn l hl
      have hpos := p.pageSize_pos
      simp only [readable, show Backend.capacity p.below = some l from h.capacity _ l hk hl,
        pageAddress, hp] at hz hpos
      omega
    apply Op.Ends.of_ok (a := Bytes.zeros p.pageSize) (t := p)
    · simp only [fetch, if_pos hz]
    · exact ⟨⟨rfl, rfl, rfl⟩, h.skip _ hk hnone, fun _ => h.miss _ hk⟩
  · have hunder : Under limit (number * pageSize + p.readable number) := by
      intro l hl
      have hlt := hn l hl
      simp only [readable, show Backend.capacity p.below = some l from h.capacity _ l hk hl,
        pageAddress, hp]
      omega
    have hlength : p.readable number ≤ pageSize := by
      unfold readable
      split
      · exact hp ▸ Nat.min_le_right _ _
      · exact Nat.le_of_eq hp
    have haddress : p.pageAddress number = number * pageSize := by rw [pageAddress, hp]
    rcases (ends_onBelow (p := p) (h.read _ _ _ hk hunder hlength)).cases with
      ⟨data, t, he, hst, hloaded, hmissed⟩ | ⟨e, t, he, ht⟩
    · apply Op.Ends.of_ok (a := Bytes.padTo data p.pageSize) (t := t)
      · simp only [fetch, if_neg hz, haddress, he]
      · refine ⟨hst, hloaded, fun hfull => hmissed fun hsize => hfull ⟨hsize.1, ?_⟩⟩
        rw [Bytes.size_padTo, hp]
        exact Nat.max_le.mpr ⟨hsize.2, Nat.le_refl _⟩
    · apply Op.Ends.of_error (e := e) (t := t)
      · simp only [fetch, if_neg hz, haddress, he]
      · exact ht

theorem ends_load_books (h : Steady sure pageSize limit bad K)
    (hstorage : PageStorage.Blames S bad) {handle : H} (hp : p.pageSize = pageSize)
    (hs : LawfulStorage.Valid sure pageSize count p.storage (handle :: handles entries))
    (hn : ∀ l, limit = some l → number * pageSize < l) (hk : K (p.books n lookups)) :
    (load number : Op (H × Pager S B) Unit).Ends (handle, p)
      (fun _ t => t.2.pageSize = p.pageSize ∧ t.2.writeBacks = p.writeBacks ∧
        LawfulStorage.Valid sure pageSize count t.2.storage (t.1 :: handles entries) ∧
        K ((p.books n lookups).loaded t.2.below))
      (fun e t => t.2.pageSize = p.pageSize ∧ t.2.writeBacks = p.writeBacks ∧
        LawfulStorage.Valid sure pageSize count t.2.storage (t.1 :: handles entries) ∧
        K ((p.books n lookups).missed t.2.below) ∧ bad e) := by
  rcases (ends_fetch_books h hp hn hk).cases with
    ⟨data, t, he, hst, hloaded, hmissed⟩ | ⟨e, t, he, hst, hk', hb⟩
  · have hload : (load number : Op (H × Pager S B) Unit) (handle, p) =
        onHandle (PageStorage.write 0 data) (handle, t) := by
      simp only [load, he]
    rw [← hst.storage] at hs
    have hwrite := LawfulStorage.ends_write 0 data hs
    rw [Op.Ends, hload]
    have hself := Op.ends_self (PageStorage.write 0 data) (handle, t.storage)
    apply (ends_onHandle hself).mono
    · rintro _ u ⟨ha, heu⟩
      refine ⟨ha.pageSize.trans hst.pageSize, ha.writeBacks.trans hst.writeBacks,
        (hwrite.ok_of_eq heu).1, ?_⟩
      rw [ha.below]
      exact hloaded
    · rintro e u ⟨ha, heu⟩
      obtain ⟨hv, -, -, hfull⟩ := hwrite.error_of_eq heu
      refine ⟨ha.pageSize.trans hst.pageSize, ha.writeBacks.trans hst.writeBacks, hv, ?_,
        hstorage.write heu⟩
      rw [ha.below]
      exact hmissed fun hroom => hfull ⟨hroom.1, (Nat.zero_add _).symm ▸ hroom.2⟩
  · apply Op.Ends.of_error (e := e) (t := (handle, t))
    · simp only [load, he]
    · exact ⟨hst.pageSize, hst.writeBacks, hst.storage ▸ hs, hk', hb⟩

theorem ends_fault_books (h : Steady sure pageSize limit bad K)
    (hstorage : PageStorage.Blames S bad) (hs : Sound sure pageSize count (entries, p))
    (hnew : number ∉ entries.map Prod.fst) (hn : ∀ l, limit = some l → number * pageSize < l)
    (hk : K (p.books n lookups)) :
    (fault number : Op (Pager S B) (Page H)).Ends p
      (fun page t => page.dirty = none ∧ Sound sure pageSize count ((number, page) :: entries, t) ∧
        t.writeBacks = p.writeBacks ∧ K ((p.books n lookups).loaded t.below))
      (fun e t => Sound sure pageSize count (entries, t) ∧ t.writeBacks = p.writeBacks ∧
        K ((p.books n lookups).missed t.below) ∧ bad e) := by
  have hacquire := LawfulStorage.ends_acquire hs.storage
  have hself := Op.ends_self PageStorage.acquire p.storage
  rcases (ends_onStorage hself).cases with
    ⟨handle, t, he, ha, heq⟩ | ⟨e, t, he, ha, heq⟩
  · have hv := (hacquire.ok_of_eq heq).1
    have hkt := ha.books_eq n lookups ▸ hk
    have hpt := ha.pageSize.trans hs.pageSize_eq
    rcases (ends_load_books h hstorage hpt hv hn hkt).cases with
      ⟨_, ⟨g, u⟩, heu, hpu, hwu, hvu, hku⟩ | ⟨e, ⟨g, u⟩, heu, hpu, hwu, hvu, hku, hb⟩
    · apply Op.Ends.of_ok (a := { handle := g }) (t := u)
      · simp only [fault, he, heu]
      · rw [ha.books_eq] at hku
        exact ⟨rfl, hs.come hnew (hpu.trans ha.pageSize) hvu, hwu.trans ha.writeBacks, hku⟩
    · -- the storage of the page is given back, which lawful storage does not refuse
      have hrelease := LawfulStorage.ends_release hvu
      have hfree := Op.ends_self (PageStorage.release g) u.storage
      rcases (ends_onStorage hfree).cases with
        ⟨_, v, hev, hav, hvv⟩ | ⟨_, v, hev, hav, hvv⟩
      · apply Op.Ends.of_error (e := e) (t := v)
        · simp only [fault, he, heu, hev]
        · refine ⟨hs.keep ((hav.pageSize.trans hpu).trans ha.pageSize)
            (hrelease.ok_of_eq hvv).1, (hav.writeBacks.trans hwu).trans ha.writeBacks, ?_, hb⟩
          rw [hav.below]
          rwa [ha.books_eq] at hku
      · exact (hrelease.error_of_eq hvv).elim
  · apply Op.Ends.of_error (e := e) (t := t)
    · simp only [fault, he]
    · refine ⟨hs.keep ha.pageSize (hacquire.error_of_eq heq).1, ha.writeBacks, ?_,
        hstorage.acquire heq⟩
      rw [ha.below]
      exact h.miss _ hk

end Steps

end Pager

namespace Recency.Ledger

open Residents Pager

variable [PageStorage S H] [PageContents S H] [LawfulStorage S H] [Backend B]
variable {sure : Prop} {pageSize count number : Nat} {limit : Option Nat} {bad : Error → Prop}
variable {K : Books B → Prop} {l : Ledger (Page H)} {p : Pager S B}

structure Tended (sure : Prop) (pageSize count : Nat) (limit : Option Nat) (K : Books B → Prop)
    (s : Ledger (Page H) × Pager S B) : Prop where
  sound : Sound sure pageSize count (residents s)
  covered : ∀ e ∈ s.1.entries, Covered limit pageSize e
  books : K (s.2.books s.1.entries.length s.1.lookups)

theorem ends_evictLoop_tended (h : Steady sure pageSize limit bad K)
    (hstorage : PageStorage.Blames S bad) (n done : Nat)
    (ht : Tended sure pageSize count limit K (l, p)) :
    (evictLoop Pager.handler n done).Ends (l, p)
      (fun _ t => Tended sure pageSize count limit K t)
      (fun e t => Tended sure pageSize count limit K t ∧ bad e) := by
  induction n generalizing l p done with
  | zero => exact ht
  | succ n ih =>
    rcases List.eq_nil_or_concat' l.entries with hnil | ⟨rest, ⟨number, page⟩, hl⟩
    · apply Op.Ends.of_ok (a := done) (t := (l, p))
      · simp only [evictLoop, hnil, List.getLast?_nil]
      · exact ht
    · have hlen : l.entries.length = rest.length + 1 := by
        rw [hl, List.length_append, List.length_singleton]
      have hperm : ∀ q : Page H, (rest ++ [(number, q)]).Perm ((number, q) :: rest) :=
        fun q => List.perm_append_singleton _ _
      have hfront : Sound sure pageSize count ((number, page) :: rest, p) :=
        Sound.perm ht.sound (hl ▸ hperm page)
      obtain ⟨hrest, hpage⟩ := List.forall_mem_append.mp (hl ▸ ht.covered)
      have hcovered := List.forall_mem_singleton.mp hpage
      rcases (ends_flush_books h hstorage hfront hcovered ht.books).cases with
        ⟨_, ⟨q, t⟩, he, hst, hclean, hk⟩ | ⟨e, ⟨q, t⟩, he, hst, rfl, hk, hb⟩
      · rcases (ends_release_books hst).cases with ⟨_, u, her, hsu, ha⟩ | ⟨_, _, -, hf⟩
        · have hop := evictLoop_of_flushed (h := Pager.handler) n done hl he her
          rw [Op.Ends, hop]
          refine ih (done + 1) ⟨hsu, hrest, ?_⟩
          rw [← ha.books_eq, hlen] at hk
          exact h.evict _ hk (Nat.succ_pos _)
        · exact hf.elim
      · apply Op.Ends.of_error (evictLoop_of_flush_error (h := Pager.handler) hl he)
        refine ⟨⟨hst.perm (hperm q).symm, hl ▸ ht.covered, ?_⟩, hb⟩
        rw [hl] at hk
        exact hk

theorem flushEach_tended (h : Steady sure pageSize limit bad K)
    (hstorage : PageStorage.Blames S bad) {n : Nat} {lookups : Lookups}
    {done entries : List (Nat × Page H)} (hs : Sound sure pageSize count (done ++ entries, p))
    (hc : ∀ e ∈ entries, Covered limit pageSize e) (hk : K (p.books n lookups)) :
    ∃ r flushed t, flushEach Pager.handler entries p = (r, flushed, t) ∧
      Sound sure pageSize count (done ++ flushed, t) ∧
      (∀ e ∈ flushed, Covered limit pageSize e) ∧ flushed.length = entries.length ∧
      K (t.books n lookups) ∧ ∀ e, r = .error e → bad e := by
  -- on the pages still to be flushed; a failure leaves them as they are
  induction entries generalizing done p with
  | nil =>
    refine ⟨.ok (), [], p, rfl, hs, hc, rfl, hk, fun e he => ?_⟩
    cases he
  | cons entry entries ih =>
    obtain ⟨number, page⟩ := entry
    obtain ⟨hpage, hrest⟩ := List.forall_mem_cons.mp hc
    have hfront := hs.perm List.perm_middle
    rcases (ends_flush_books h hstorage hfront hpage hk).cases with
      ⟨_, ⟨q, t⟩, he, hst, hclean, hkt⟩ | ⟨e, ⟨q, t⟩, he, hst, rfl, hkt, hb⟩
    · have hmove : ((number, q) :: (done ++ entries)).Perm (done ++ [(number, q)] ++ entries) := by
        rw [List.append_assoc]
        exact List.perm_middle.symm
      obtain ⟨r, flushed, u, heu, hsu, hcu, hlen, hku, hr⟩ := ih (hst.perm hmove) hrest hkt
      rw [List.append_assoc] at hsu
      refine ⟨r, (number, q) :: flushed, u, ?_, hsu, ?_, congrArg (· + 1) hlen, hku, hr⟩
      · simp only [flushEach, Pager.handler, he]
        simp only [Pager.handler] at heu
        rw [heu]
      · refine List.forall_mem_cons.mpr ⟨fun range hd => ?_, hcu⟩
        rw [hclean] at hd
        cases hd
    · refine ⟨.error e, (number, q) :: entries, t, ?_, hst.perm List.perm_middle.symm, hc, rfl, hkt,
        fun e' he' => ?_⟩
      · simp only [flushEach, Pager.handler, he]
      · cases he'
        exact hb

theorem ends_flushAll_tended (h : Steady sure pageSize limit bad K)
    (hstorage : PageStorage.Blames S bad) (ht : Tended sure pageSize count limit K (l, p)) :
    (flushAll Pager.handler).Ends (l, p)
      (fun _ t => Tended sure pageSize count limit K t)
      (fun e t => Tended sure pageSize count limit K t ∧ bad e) := by
  have hs : Sound sure pageSize count ([] ++ l.entries, p) := ht.sound
  obtain ⟨r, flushed, t, he, hst, hc, hlen, hk, hr⟩ :=
    flushEach_tended h hstorage hs ht.covered ht.books
  have hop : flushAll Pager.handler (l, p) = (r, ⟨flushed, l.lookups⟩, t) := by
    simp only [flushAll, he]
  have htended : Tended sure pageSize count limit K (⟨flushed, l.lookups⟩, t) := by
    refine ⟨hst, hc, ?_⟩
    rw [← hlen] at hk
    exact hk
  cases r with
  | ok _ => exact .of_ok hop htended
  | error e => exact .of_error hop ⟨htended, hr e rfl⟩

structure Returned (sure : Prop) (pageSize count : Nat) (limit : Option Nat) (number : Nat)
    (rest : List (Nat × Page H)) (p : Pager S B) (u : Page H × Pager S B) : Prop where
  sound : Sound sure pageSize count ((number, u.1) :: rest, u.2)
  covered : Covered limit pageSize (number, u.1)
  abides : Abides p u.2

def Minds (sure : Prop) (pageSize count : Nat) (limit : Option Nat) (bad : Error → Prop)
    (number : Nat) (use : Op (Page H × Pager S B) α) : Prop :=
  ∀ page rest t, Sound sure pageSize count ((number, page) :: rest, t) →
    Covered limit pageSize (number, page) →
    use.Ends (page, t) (fun _ u => Returned sure pageSize count limit number rest t u)
      (fun e u => Returned sure pageSize count limit number rest t u ∧ bad e)

theorem ends_access_tended (h : Steady sure pageSize limit bad K)
    (hstorage : PageStorage.Blames S bad) {use : Op (Page H × Pager S B) α}
    (hn : ∀ l, limit = some l → number * pageSize < l)
    (huse : Minds sure pageSize count limit bad number use)
    (ht : Tended sure pageSize count limit K (l, p)) :
    (access Pager.handler number use).Ends (l, p)
      (fun _ t => Tended sure pageSize count limit K t)
      (fun e t => Tended sure pageSize count limit K t ∧ bad e) := by
  cases hl : l.entries.lookup number with
  | some page =>
    have hperm : l.entries.Perm ((number, page) :: without number l.entries) :=
      perm_without ht.sound.nodup hl
    have hfront : Sound sure pageSize count ((number, page) :: without number l.entries, p) :=
      Sound.perm ht.sound hperm
    have hcovered : ∀ e ∈ (number, page) :: without number l.entries, Covered limit pageSize e :=
      fun e he => ht.covered e (hperm.mem_iff.mpr he)
    obtain ⟨hpage, hrest⟩ := List.forall_mem_cons.mp hcovered
    have hhit := h.hit _ ht.books
    have hafter : ∀ (q : Page H) (t : Pager S B),
        Returned sure pageSize count limit number (without number l.entries) p (q, t) →
        Tended sure pageSize count limit K (⟨(number, q) :: without number l.entries,
          { l.lookups with hits := l.lookups.hits + 1 }⟩, t) := by
      intro q t hu
      refine ⟨hu.sound, List.forall_mem_cons.mpr ⟨hu.covered, hrest⟩, ?_⟩
      rw [hperm.length_eq] at hhit
      rw [hu.abides.books_eq]
      exact hhit
    rcases (huse page _ p hfront hpage).cases with ⟨a, ⟨q, t⟩, he, hu⟩ | ⟨e, ⟨q, t⟩, he, hu, hb⟩
    · apply Op.Ends.of_ok (a := a)
      · simp only [access, hl, he]
        rfl
      · exact hafter q t hu
    · apply Op.Ends.of_error (e := e)
      · simp only [access, hl, he]
        rfl
      · exact ⟨hafter q t hu, hb⟩
  | none =>
    have hnew := lookup_eq_none_iff_notMem.mp hl
    rcases (ends_fault_books h hstorage ht.sound hnew hn ht.books).cases with
      ⟨page, t, he, hclean, hs, hw, hk⟩ | ⟨e, t, he, hs, hw, hk, hb⟩
    · have hpage : Covered limit pageSize (number, page) := by
        intro range hd
        rw [hclean] at hd
        cases hd
      have hafter : ∀ (q : Page H) (u : Pager S B),
          Returned sure pageSize count limit number l.entries t (q, u) →
          Tended sure pageSize count limit K (⟨(number, q) :: l.entries,
            { l.lookups with
              misses := l.lookups.misses + 1
              inserts := l.lookups.inserts + 1 }⟩, u) := by
        intro q u hu
        refine ⟨hu.sound, List.forall_mem_cons.mpr ⟨hu.covered, ht.covered⟩, ?_⟩
        rw [hu.abides.books_eq]
        change K ⟨_, _, t.writeBacks, t.below⟩
        rw [hw]
        exact hk
      rcases (huse page _ t hs hpage).cases with ⟨a, ⟨q, u⟩, heu, hu⟩ | ⟨e, ⟨q, u⟩, heu, hu, hb⟩
      · apply Op.Ends.of_ok (a := a)
        · simp only [access, hl, Pager.handler, he, heu]
          rfl
        · exact hafter q u hu
      · apply Op.Ends.of_error (e := e)
        · simp only [access, hl, Pager.handler, he, heu]
          rfl
        · exact ⟨hafter q u hu, hb⟩
    · apply Op.Ends.of_error (e := e)
      · simp only [access, hl, Pager.handler, he]
        rfl
      · refine ⟨⟨hs, ht.covered, ?_⟩, hb⟩
        change K ⟨_, _, t.writeBacks, t.below⟩
        rw [hw]
        exact hk

end Recency.Ledger

end TieredMemory
