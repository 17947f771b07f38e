import Mathlib.Data.List.Nodup
import TieredMemory.Page.Cache
import TieredMemory.Proofs.Page.Storage
import TieredMemory.Proofs.Recency.Ledger

namespace TieredMemory

theorem blockOf_of_lt {blockSize i : Nat} (h : i < blockSize) (m : Nat → UInt8) (block : Nat) :
    blockOf blockSize m block i = m (block * blockSize + i) :=
  if_pos h

theorem blockOf_injective {blockSize : Nat} (h : 0 < blockSize) {m n : Nat → UInt8}
    (hb : ∀ block, ∀ i < blockSize, blockOf blockSize m block i = blockOf blockSize n block i) :
    m = n := by
  funext i
  have hi := Nat.mod_lt i h
  have := hb (i / blockSize) (i % blockSize) hi
  rwa [blockOf_of_lt hi, blockOf_of_lt hi, Nat.mul_comm, Nat.div_add_mod] at this

namespace Pager

variable {S H B α : Type} {p : Pager S B}

structure Abides (p t : Pager S B) : Prop where
  pageSize : t.pageSize = p.pageSize
  below : t.below = p.below
  writeBacks : t.writeBacks = p.writeBacks

structure Stays (p t : Pager S B) : Prop where
  pageSize : t.pageSize = p.pageSize
  storage : t.storage = p.storage
  writeBacks : t.writeBacks = p.writeBacks

theorem ends_onStorage [PageStorage S H] {op : Op S α} {ok : α → S → Prop} {bad : Error → S → Prop}
    (h : op.Ends p.storage ok bad) :
    (onStorage op : Op (Pager S B) α).Ends p
      (fun a t => Abides p t ∧ ok a t.storage) (fun e t => Abides p t ∧ bad e t.storage) := by
  rcases h.cases with ⟨a, s, he, ha⟩ | ⟨e, s, he, hb⟩
  · apply Op.Ends.of_ok (a := a)
    · simp only [onStorage, followStorage, he]
      rfl
    · exact ⟨⟨rfl, rfl, rfl⟩, ha⟩
  · apply Op.Ends.of_error (e := e)
    · simp only [onStorage, followStorage, he]
      rfl
    · exact ⟨⟨rfl, rfl, rfl⟩, hb⟩

theorem ends_onHandle [PageStorage S H] {op : Op (H × S) α} {handle : H} {ok : α → H × S → Prop}
    {bad : Error → H × S → Prop} (h : op.Ends (handle, p.storage) ok bad) :
    (onHandle op : Op (H × Pager S B) α).Ends (handle, p)
      (fun a t => Abides p t.2 ∧ ok a (t.1, t.2.storage))
      (fun e t => Abides p t.2 ∧ bad e (t.1, t.2.storage)) := by
  rcases h.cases with ⟨a, s, he, ha⟩ | ⟨e, s, he, hb⟩
  · apply Op.Ends.of_ok (a := a)
    · simp only [onHandle, followStorage, he]
      rfl
    · exact ⟨⟨rfl, rfl, rfl⟩, ha⟩
  · apply Op.Ends.of_error (e := e)
    · simp only [onHandle, followStorage, he]
      rfl
    · exact ⟨⟨rfl, rfl, rfl⟩, hb⟩

theorem ends_onBelow [Backend B] {op : Op B α} {ok : α → B → Prop} {bad : Error → B → Prop}
    (h : op.Ends p.below ok bad) :
    (onBelow op : Op (Pager S B) α).Ends p
      (fun a t => Stays p t ∧ ok a t.below) (fun e t => Stays p t ∧ bad e t.below) := by
  rcases h.cases with ⟨a, b, he, ha⟩ | ⟨e, b, he, hb⟩
  · apply Op.Ends.of_ok (a := a)
    · simp only [onBelow, editBelow, followBelow, he]
      rfl
    · exact ⟨⟨rfl, rfl, rfl⟩, ha⟩
  · apply Op.Ends.of_error (e := e)
    · simp only [onBelow, editBelow, followBelow, he]
      rfl
    · exact ⟨⟨rfl, rfl, rfl⟩, hb⟩

end Pager

abbrev Residents (S H B : Type) := List (Nat × Page H) × Pager S B

namespace Residents

variable {S H B : Type}

def handles (entries : List (Nat × Page H)) : List H := entries.map fun e => e.2.handle

variable [PageContents S H] [Contents B]

def pageByte (s : Residents S H B) (number i : Nat) : UInt8 :=
  match s.1.lookup number with
  | some page => PageContents.byteAt s.2.storage page.handle i
  | none => blockOf s.2.pageSize (Contents.byteAt s.2.below) number i

instance : Contents (Residents S H B) where
  size s := Contents.size s.2.below
  byteAt s i := pageByte s (i / s.2.pageSize) (i % s.2.pageSize)
  Clean s := (∀ e ∈ s.1, e.2.dirty = none) ∧ Contents.Clean s.2.below
  writes s := Contents.writes s.2.below

variable {entries entries' : List (Nat × Page H)} {p t : Pager S B} {number i : Nat} {page : Page H}

theorem pageByte_cons_self (number i : Nat) :
    pageByte ((number, page) :: entries, p) number i =
      PageContents.byteAt p.storage page.handle i := by
  simp only [pageByte, List.lookup_cons_self]

theorem pageByte_cons_ne {m : Nat} (hm : m ≠ number) (i : Nat) :
    pageByte ((number, page) :: entries, p) m i = pageByte (entries, p) m i := by
  simp only [pageByte, List.lookup_cons, beq_eq_false_iff_ne.mpr hm]

theorem pageByte_notMem (h : number ∉ entries.map Prod.fst) (i : Nat) :
    pageByte (entries, p) number i = blockOf p.pageSize (Contents.byteAt p.below) number i := by
  simp only [pageByte, Recency.Ledger.lookup_eq_none_iff_notMem.mpr h]

theorem pageByte_mem (hn : (entries.map Prod.fst).Nodup) (h : (number, page) ∈ entries) (i : Nat) :
    pageByte (entries, p) number i = PageContents.byteAt p.storage page.handle i := by
  simp only [pageByte, (Recency.Ledger.lookup_eq_some_iff_mem hn).mpr h]

theorem blockOf_byteAt (s : Residents S H B) (number : Nat) {i : Nat} (hi : i < s.2.pageSize) :
    blockOf s.2.pageSize (Contents.byteAt s) number i = pageByte s number i := by
  rw [blockOf_of_lt hi]
  change pageByte s _ _ = _
  rw [Nat.mul_comm, Nat.mul_add_div s.2.pageSize_pos, Nat.div_eq_of_lt hi, Nat.add_zero,
    Nat.mul_add_mod, Nat.mod_eq_of_lt hi]

theorem byteAt_eq {s u : Residents S H B} (hp : u.2.pageSize = s.2.pageSize)
    (h : ∀ number, ∀ i < s.2.pageSize, pageByte u number i = pageByte s number i) :
    Contents.byteAt u = Contents.byteAt s := by
  apply blockOf_injective s.2.pageSize_pos
  intro number i hi
  rw [blockOf_byteAt s number hi, ← hp, blockOf_byteAt u number (hp ▸ hi)]
  exact h number i hi

theorem byteAt_overlay {s u : Residents S H B} {offset : Nat} {data : ByteArray}
    (hp : u.2.pageSize = s.2.pageSize) (hr : offset + data.size ≤ s.2.pageSize)
    (hpage : ∀ i < s.2.pageSize,
      pageByte u number i = Bytes.overlay offset data (pageByte s number) i)
    (hother : ∀ m, m ≠ number → ∀ i < s.2.pageSize, pageByte u m i = pageByte s m i) :
    Contents.byteAt u =
      Bytes.overlay (number * s.2.pageSize + offset) data (Contents.byteAt s) := by
  apply blockOf_injective s.2.pageSize_pos
  intro m i hi
  rw [← hp, blockOf_byteAt u m (hp ▸ hi), hp]
  by_cases hm : m = number
  · subst hm
    rw [hpage i hi, blockOf_overlay_self _ hr, Bytes.overlay, Bytes.overlay, blockOf_byteAt s m hi]
  · rw [hother m hm i hi, blockOf_overlay_ne _ hr hm, blockOf_byteAt s m hi]

structure Agrees (p : Pager S B) (number : Nat) (page : Page H) : Prop where
  same : ∀ i < p.pageSize, (∀ r, page.dirty = some r → ¬ (r.start ≤ i ∧ i < r.stop)) →
    PageContents.byteAt p.storage page.handle i =
      blockOf p.pageSize (Contents.byteAt p.below) number i
  inside : ∀ r, page.dirty = some r →
    r.stop ≤ p.pageSize ∧ number * p.pageSize + r.stop ≤ Contents.size p.below

theorem Agrees.congr {page' : Page H} (h : Agrees p number page) (hp : t.pageSize = p.pageSize)
    (hd : page'.dirty = page.dirty) (hk : Keeps p.below t.below)
    (hb : PageContents.byteAt t.storage page'.handle = PageContents.byteAt p.storage page.handle) :
    Agrees t number page' := by
  constructor
  · intro i hi hr
    rw [hb, hp, hk.bytes]
    exact h.same i (hp ▸ hi) (hd ▸ hr)
  · intro r hr
    rw [hp, hk.size]
    exact h.inside r (hd ▸ hr)

theorem Agrees.byteAt_of_clean (h : Agrees p number page) (hc : page.dirty = none)
    (hi : i < p.pageSize) :
    PageContents.byteAt p.storage page.handle i =
      blockOf p.pageSize (Contents.byteAt p.below) number i := by
  apply h.same i hi
  intro r hr
  rw [hc] at hr
  cases hr

section WriteBack

variable {r : DirtyRange} {data : ByteArray} {k : Nat} {rest : List (Nat × Page H)}

theorem Agrees.writeBack {m : Nat} {other : Page H}
    (h : Agrees p number page) (hd : page.dirty = some r)
    (hr : Bytes.Shows (PageContents.byteAt p.storage page.handle) r.start r.length data)
    (hk : k ≤ data.size) (hp : t.pageSize = p.pageSize) (hs : t.storage = p.storage)
    (hw : Writes (number * p.pageSize + r.start) data k p.below t.below)
    (ho : Agrees p m other) (hother : m = number → other = page) : Agrees t m other := by
  have hsize : (Bytes.slice data 0 k).size = k := Bytes.size_slice (by omega)
  have hstop := (h.inside r hd).1
  have hl := hr.1
  rw [DirtyRange.stop] at hstop
  constructor
  · intro i hi hout
    rw [hp] at hi ⊢
    rw [hs, hw.bytes, ho.same i hi hout]
    by_cases hm : m = number
    · subst hm
      have hn := hout r (hother rfl ▸ hd)
      rw [DirtyRange.stop] at hn
      rw [blockOf_overlay_self _ (by omega), Bytes.overlay, if_neg (by omega)]
    · rw [blockOf_overlay_ne _ (by omega) hm]
  · intro r' hr'
    rw [hp, hw.size]
    exact ho.inside r' hr'

theorem Agrees.written (h : Agrees p number page) (hd : page.dirty = some r)
    (hr : Bytes.Shows (PageContents.byteAt p.storage page.handle) r.start r.length data)
    (hp : t.pageSize = p.pageSize) (hs : t.storage = p.storage)
    (hw : Writes (number * p.pageSize + r.start) data data.size p.below t.below) :
    Agrees t number { page with dirty := none } := by
  have hstop := (h.inside r hd).1
  have hl := hr.1
  rw [DirtyRange.stop] at hstop
  constructor
  · intro i hi _
    rw [hp] at hi ⊢
    rw [hs, hw.bytes, Bytes.slice_zero_size, blockOf_overlay_self _ (by omega), Bytes.overlay]
    by_cases hin : r.start ≤ i ∧ i < r.start + data.size
    · rw [if_pos hin, hr.2 (i - r.start) (by omega), Nat.add_sub_cancel' hin.1]
    · rw [if_neg hin]
      apply h.same i hi
      intro r' hr'
      cases hd.symm.trans hr'
      rwa [DirtyRange.stop, ← hl]
  · intro r' hr'
    cases hr'

theorem byteAt_writeBack {page' : Page H} (h : Agrees p number page) (hd : page.dirty = some r)
    (hr : Bytes.Shows (PageContents.byteAt p.storage page.handle) r.start r.length data)
    (hk : k ≤ data.size) (hp : t.pageSize = p.pageSize) (hs : t.storage = p.storage)
    (hw : Writes (number * p.pageSize + r.start) data k p.below t.below)
    (hh : page'.handle = page.handle) :
    Contents.byteAt (((number, page') :: rest, t) : Residents S H B) =
      Contents.byteAt (((number, page) :: rest, p) : Residents S H B) := by
  have hsize : (Bytes.slice data 0 k).size = k := Bytes.size_slice (by omega)
  have hstop := (h.inside r hd).1
  have hl := hr.1
  rw [DirtyRange.stop] at hstop
  apply byteAt_eq hp
  intro m i hi
  by_cases hm : m = number
  · subst hm
    rw [pageByte_cons_self, pageByte_cons_self, hs, hh]
  · rw [pageByte_cons_ne hm, pageByte_cons_ne hm]
    simp only [pageByte, hs, hp, hw.bytes, blockOf_overlay_ne _ (by omega : r.start +
      (Bytes.slice data 0 k).size ≤ p.pageSize) hm]

end WriteBack

section Frame

theorem agrees_of_same (h : ∀ e ∈ entries, Agrees p e.1 e.2) (hp : t.pageSize = p.pageSize)
    (hk : Keeps p.below t.below) (hsame : SamePages p.storage t.storage (handles entries)) :
    ∀ e ∈ entries, Agrees t e.1 e.2 := by
  intro e he
  exact (h e he).congr hp rfl hk (hsame _ (List.mem_map_of_mem he))

theorem pageByte_of_same (hn : (entries.map Prod.fst).Nodup) (hp : t.pageSize = p.pageSize)
    (hk : Keeps p.below t.below) (hsame : SamePages p.storage t.storage (handles entries))
    (number i : Nat) : pageByte (entries, t) number i = pageByte (entries, p) number i := by
  by_cases hm : number ∈ entries.map Prod.fst
  · obtain ⟨⟨_, page⟩, he, rfl⟩ := List.mem_map.mp hm
    rw [pageByte_mem hn he, pageByte_mem hn he, hsame _ (List.mem_map_of_mem he)]
  · rw [pageByte_notMem hm, pageByte_notMem hm, hp, hk.bytes]

theorem keeps_of_same (hn : (entries.map Prod.fst).Nodup) (hp : t.pageSize = p.pageSize)
    (hk : Keeps p.below t.below) (hsame : SamePages p.storage t.storage (handles entries)) :
    Keeps ((entries, p) : Residents S H B) (entries, t) := by
  refine ⟨hk.size, ?_, ?_⟩
  · apply byteAt_eq hp
    intro number i _
    exact pageByte_of_same hn hp hk hsame number i
  · intro hc
    exact ⟨⟨hc.1, (hk.quiet hc.2).1⟩, (hk.quiet hc.2).2⟩

theorem byteAt_cons_clean (hn : number ∉ entries.map Prod.fst)
    (h : ∀ i < p.pageSize, PageContents.byteAt p.storage page.handle i =
      blockOf p.pageSize (Contents.byteAt p.below) number i) :
    Contents.byteAt (((number, page) :: entries, p) : Residents S H B) =
      Contents.byteAt ((entries, p) : Residents S H B) := by
  apply byteAt_eq (u := ((number, page) :: entries, p)) (s := (entries, p)) rfl
  intro m i hi
  by_cases hm : m = number
  · subst hm
    rw [pageByte_cons_self, pageByte_notMem hn, h i hi]
  · rw [pageByte_cons_ne hm]

end Frame

variable [PageStorage S H] [LawfulStorage S H] [Backend B] [LawfulBackend B]

structure Coherent (sure : Prop) (pageSize count : Nat) (s : Residents S H B) : Prop where
  pageSize_eq : s.2.pageSize = pageSize
  nodup : (s.1.map Prod.fst).Nodup
  storage : LawfulStorage.Valid sure pageSize count s.2.storage (handles s.1)
  below : LawfulBackend.Valid sure s.2.below
  agrees : ∀ e ∈ s.1, Agrees s.2 e.1 e.2

variable {sure : Prop} {pageSize count : Nat} {rest : List (Nat × Page H)}

theorem Coherent.perm (h : Coherent sure pageSize count (entries, p)) (hp : entries.Perm entries') :
    Coherent sure pageSize count (entries', p) ∧
      Keeps ((entries, p) : Residents S H B) (entries', p) := by
  refine ⟨⟨h.pageSize_eq, (hp.map _).nodup_iff.mp h.nodup,
    LawfulStorage.valid_perm (hp.map _) h.storage,
    h.below, fun e he => h.agrees e (hp.mem_iff.mpr he)⟩, rfl, ?_, ?_⟩
  · apply byteAt_eq (u := (entries', p)) (s := (entries, p)) rfl
    intro number i _
    simp only [pageByte, Recency.Ledger.lookup_perm hp h.nodup]
  · intro hc
    exact ⟨⟨fun e he => hc.1 e (hp.mem_iff.mpr he), hc.2⟩, rfl⟩

theorem Coherent.keep (h : Coherent sure pageSize count (entries, p)) (hp : t.pageSize = p.pageSize)
    (hs : LawfulStorage.Valid sure pageSize count t.storage (handles entries))
    (hb : LawfulBackend.Valid sure t.below) (hk : Keeps p.below t.below)
    (hsame : SamePages p.storage t.storage (handles entries)) :
    Coherent sure pageSize count (entries, t) ∧
      Keeps ((entries, p) : Residents S H B) (entries, t) :=
  ⟨⟨hp.trans h.pageSize_eq, h.nodup, hs, hb, agrees_of_same h.agrees hp hk hsame⟩,
    keeps_of_same h.nodup hp hk hsame⟩

theorem Coherent.come {handle : H} (h : Coherent sure pageSize count (entries, p))
    (hnew : number ∉ entries.map Prod.fst) (hp : t.pageSize = p.pageSize)
    (hs : LawfulStorage.Valid sure pageSize count t.storage (handle :: handles entries))
    (hb : LawfulBackend.Valid sure t.below) (hk : Keeps p.below t.below)
    (hsame : SamePages p.storage t.storage (handles entries))
    (hbytes : ∀ i < p.pageSize, PageContents.byteAt t.storage handle i =
      blockOf p.pageSize (Contents.byteAt p.below) number i) :
    Coherent sure pageSize count ((number, { handle }) :: entries, t) ∧
      Keeps ((entries, p) : Residents S H B) ((number, { handle }) :: entries, t) := by
  have hpage : ∀ i < t.pageSize, PageContents.byteAt t.storage handle i =
      blockOf t.pageSize (Contents.byteAt t.below) number i := by
    rw [hp, hk.bytes]
    exact hbytes
  have hagrees : Agrees t number { handle } := by
    constructor
    · exact fun i hi _ => hpage i hi
    · intro r hr
      cases hr
  have hclean : Keeps ((entries, t) : Residents S H B) ((number, { handle }) :: entries, t) := by
    refine ⟨rfl, byteAt_cons_clean hnew hpage, ?_⟩
    intro hc
    exact ⟨⟨List.forall_mem_cons.mpr ⟨rfl, hc.1⟩, hc.2⟩, rfl⟩
  constructor
  · constructor
    · exact hp.trans h.pageSize_eq
    · exact List.nodup_cons.mpr ⟨hnew, h.nodup⟩
    · exact hs
    · exact hb
    · exact List.forall_mem_cons.mpr ⟨hagrees, agrees_of_same h.agrees hp hk hsame⟩
  · exact (keeps_of_same h.nodup hp hk hsame).trans hclean

theorem Coherent.go (h : Coherent sure pageSize count ((number, page) :: rest, p))
    (hd : page.dirty = none) (hp : t.pageSize = p.pageSize)
    (hs : LawfulStorage.Valid sure pageSize count t.storage (handles rest))
    (hb : LawfulBackend.Valid sure t.below) (hk : Keeps p.below t.below)
    (hsame : SamePages p.storage t.storage (handles rest)) :
    Coherent sure pageSize count (rest, t) ∧
      Keeps (((number, page) :: rest, p) : Residents S H B) (rest, t) := by
  obtain ⟨hnew, hnodup⟩ := List.nodup_cons.mp h.nodup
  obtain ⟨hpage, hrest⟩ := List.forall_mem_cons.mp h.agrees
  have hclean : Keeps (((number, page) :: rest, p) : Residents S H B) (rest, p) := by
    refine ⟨rfl, (byteAt_cons_clean hnew fun i hi => hpage.byteAt_of_clean hd hi).symm, ?_⟩
    intro hc
    exact ⟨⟨fun e he => hc.1 e (List.mem_cons_of_mem _ he), hc.2⟩, rfl⟩
  exact ⟨⟨hp.trans h.pageSize_eq, hnodup, hs, hb, agrees_of_same hrest hp hk hsame⟩,
    hclean.trans (keeps_of_same hnodup hp hk hsame)⟩

theorem Coherent.renew {handle : H} (h : Coherent sure pageSize count ((number, page) :: rest, p))
    (hp : t.pageSize = p.pageSize)
    (hs : LawfulStorage.Valid sure pageSize count t.storage (handle :: handles rest))
    (hb : t.below = p.below) (hsame : SamePages p.storage t.storage (handles rest))
    (hbytes : PageContents.byteAt t.storage handle = PageContents.byteAt p.storage page.handle) :
    Coherent sure pageSize count ((number, { page with handle }) :: rest, t) ∧
      Keeps (((number, page) :: rest, p) : Residents S H B)
        ((number, { page with handle }) :: rest, t) := by
  obtain ⟨-, hnodup⟩ := List.nodup_cons.mp h.nodup
  obtain ⟨hpage, hrest⟩ := List.forall_mem_cons.mp h.agrees
  have hk : Keeps p.below t.below := hb ▸ .refl p.below
  constructor
  · constructor
    · exact hp.trans h.pageSize_eq
    · exact h.nodup
    · exact hs
    · exact hb ▸ h.below
    · exact List.forall_mem_cons.mpr
        ⟨hpage.congr hp rfl hk hbytes, agrees_of_same hrest hp hk hsame⟩
  · refine ⟨hk.size, ?_, ?_⟩
    · apply byteAt_eq (s := ((number, page) :: rest, p)) hp
      intro m i _
      by_cases hm : m = number
      · subst hm
        rw [pageByte_cons_self, pageByte_cons_self]
        exact congrFun hbytes i
      · rw [pageByte_cons_ne hm, pageByte_cons_ne hm, pageByte_of_same hnodup hp hk hsame]
    · rintro ⟨hc, hcb⟩
      obtain ⟨hd, hcr⟩ := List.forall_mem_cons.mp hc
      exact ⟨⟨List.forall_mem_cons.mpr ⟨hd, hcr⟩, (hk.quiet hcb).1⟩, (hk.quiet hcb).2⟩

end Residents

namespace Pager

open Residents

variable {S H B : Type} [PageContents S H] [Contents B]
variable {sure : Prop} {pageSize count number : Nat} {p : Pager S B} {page : Page H}
variable {entries rest : List (Nat × Page H)}

def dirtied (page : Page H) (offset length : Nat) : DirtyRange :=
  match page.dirty with
  | some range => range.union offset length
  | none => ⟨offset, length⟩

theorem agrees_written {t : Pager S B} {handle : H} {offset : Nat} {data : ByteArray}
    (h : Agrees p number page) (hp : t.pageSize = p.pageSize) (hb : t.below = p.below)
    (hl : offset + data.size ≤ p.pageSize)
    (hfit : number * p.pageSize + offset + data.size ≤ Contents.size p.below)
    (hw : PageContents.byteAt t.storage handle =
      Bytes.overlay offset data (PageContents.byteAt p.storage page.handle)) :
    Agrees t number { handle, dirty := some (dirtied page offset data.size) } := by
  constructor
  · intro i hi hout
    have hrange := hout _ rfl
    rw [hp] at hi ⊢
    rw [hw, hb, Bytes.overlay]
    cases hd : page.dirty with
    | none =>
      simp only [dirtied, hd, DirtyRange.stop] at hrange
      rw [if_neg (by omega)]
      exact h.byteAt_of_clean hd hi
    | some r =>
      simp only [dirtied, hd, DirtyRange.start_union, DirtyRange.stop_union] at hrange
      rw [if_neg (by omega)]
      apply h.same i hi
      intro r' hr'
      cases hd.symm.trans hr'
      omega
  · rintro _ ⟨⟩
    rw [hp, hb]
    cases hd : page.dirty with
    | none =>
      simp only [dirtied, hd, DirtyRange.stop]
      omega
    | some r =>
      have := h.inside r hd
      simp only [dirtied, hd, DirtyRange.stop_union]
      omega

variable [PageStorage S H] [LawfulStorage S H] [Backend B] [LawfulBackend B]

theorem ends_readStorage (offset length : Nat)
    (h : Coherent sure pageSize count ((number, page) :: rest, p)) :
    (onStorage (PageStorage.read page.handle offset length) : Op (Pager S B) ByteArray).Ends p
      (fun data t => Coherent sure pageSize count ((number, page) :: rest, t) ∧
        Keeps ((number, page) :: rest, p) ((number, page) :: rest, t) ∧ t.pageSize = p.pageSize ∧
        t.below = p.below ∧
        Bytes.Shows (PageContents.byteAt p.storage page.handle) offset length data ∧
        Bytes.Shows (PageContents.byteAt t.storage page.handle) offset length data)
      (fun _ t => Coherent sure pageSize count ((number, page) :: rest, t) ∧
        Keeps ((number, page) :: rest, p) ((number, page) :: rest, t) ∧
        ¬ (sure ∧ offset + length ≤ pageSize)) := by
  apply (ends_onStorage (p := p) (LawfulStorage.ends_read offset length h.storage)).mono
  · rintro data t ⟨⟨hp, hb, -⟩, hv, hs, hd⟩
    obtain ⟨hc, hk⟩ := h.keep hp hv (hb ▸ h.below) (hb ▸ .refl p.below) hs
    have hd' : Bytes.Shows (PageContents.byteAt t.storage page.handle) offset length data := by
      rwa [hs page.handle List.mem_cons_self]
    exact ⟨hc, hk, hp, hb, hd, hd'⟩
  · rintro e t ⟨⟨hp, hb, -⟩, hv, hs, hn⟩
    obtain ⟨hc, hk⟩ := h.keep hp hv (hb ▸ h.below) (hb ▸ .refl p.below) hs
    exact ⟨hc, hk, hn⟩

theorem ends_writeBelow {r : DirtyRange} {data : ByteArray}
    (h : Coherent sure pageSize count ((number, page) :: rest, p)) (hd : page.dirty = some r)
    (hr : Bytes.Shows (PageContents.byteAt p.storage page.handle) r.start r.length data) :
    (onBelow (Backend.write (p.pageAddress number + r.start) data) : Op (Pager S B) Unit).Ends p
      (fun _ t => Coherent sure pageSize count ((number, { page with dirty := none }) :: rest, t) ∧
        Keeps ((number, page) :: rest, p) ((number, { page with dirty := none }) :: rest, t))
      (fun _ t => Coherent sure pageSize count ((number, page) :: rest, t) ∧
        Keeps ((number, page) :: rest, p) ((number, page) :: rest, t) ∧ ¬ sure) := by
  have hpage : Agrees p number page := h.agrees _ List.mem_cons_self
  have hrest : ∀ e ∈ rest, e.1 = number → e.2 = page := by
    intro e he hn
    have hmem : e.1 ∈ rest.map Prod.fst := List.mem_map_of_mem he
    exact absurd (hn ▸ hmem) (List.nodup_cons.mp h.nodup).1
  have hdirty : ¬ Contents.Clean (((number, page) :: rest, p) : Residents S H B) := by
    intro hc
    have := hc.1 _ List.mem_cons_self
    rw [hd] at this
    cases this
  apply (ends_onBelow (p := p) (LawfulBackend.ends_write _ data h.below)).mono
  · rintro _ t ⟨⟨hp, hs, -⟩, hv, -, hw⟩
    refine ⟨⟨hp.trans h.pageSize_eq, h.nodup, hs ▸ h.storage, hv, ?_⟩, hw.size, ?_, ?_⟩
    · rw [List.forall_mem_cons]
      constructor
      · exact hpage.written hd hr hp hs hw
      · intro e he
        exact hpage.writeBack hd hr (Nat.le_refl _) hp hs hw
          (h.agrees e (List.mem_cons_of_mem _ he)) (hrest e he)
    · exact byteAt_writeBack hpage hd hr (Nat.le_refl _) hp hs hw rfl
    · exact fun hc => absurd hc hdirty
  · rintro e t ⟨⟨hp, hs, -⟩, hv, ⟨k, hk, hw⟩, hsure⟩
    refine ⟨⟨hp.trans h.pageSize_eq, h.nodup, hs ▸ h.storage, hv, ?_⟩, ⟨hw.size, ?_, ?_⟩, ?_⟩
    · rw [List.forall_mem_cons]
      constructor
      · exact hpage.writeBack hd hr hk hp hs hw hpage fun _ => rfl
      · intro e he
        exact hpage.writeBack hd hr hk hp hs hw (h.agrees e (List.mem_cons_of_mem _ he))
          (hrest e he)
    · exact byteAt_writeBack hpage hd hr hk hp hs hw rfl
    · exact fun hc => absurd hc hdirty
    · intro hx
      have hout := (hsure hx).1
      have hin := (hpage.inside r hd).2
      have hl := hr.1
      rw [DirtyRange.stop] at hin
      change Contents.size p.below < number * p.pageSize + r.start + data.size at hout
      omega

theorem ends_writeBack {r : DirtyRange}
    (h : Coherent sure pageSize count ((number, page) :: rest, p)) (hd : page.dirty = some r) :
    (writeBack number page.handle r).Ends p
      (fun _ t => Coherent sure pageSize count ((number, { page with dirty := none }) :: rest, t) ∧
        Keeps ((number, page) :: rest, p) ((number, { page with dirty := none }) :: rest, t))
      (fun _ t => Coherent sure pageSize count ((number, page) :: rest, t) ∧
        Keeps ((number, page) :: rest, p) ((number, page) :: rest, t) ∧ ¬ sure) := by
  apply (ends_readStorage _ _ h).bind
  · rintro data t ⟨hc, hk, hp, -, -, hr⟩
    have haddress : p.pageAddress number = t.pageAddress number := by
      rw [pageAddress, pageAddress, hp]
    rw [haddress]
    apply (ends_writeBelow hc hd hr).bind
    · rintro _ u ⟨hc', hk'⟩
      exact ⟨⟨hc'.pageSize_eq, hc'.nodup, hc'.storage, hc'.below, fun e he =>
        (hc'.agrees e he).congr rfl rfl (.refl u.below) rfl⟩,
          hk.trans ⟨hk'.size, hk'.bytes, hk'.quiet⟩⟩
    · rintro e u ⟨hc', hk', hn⟩
      exact ⟨hc', hk.trans hk', hn⟩
  · rintro e t ⟨hc, hk, hn⟩
    refine ⟨hc, hk, fun hx => hn ⟨hx, ?_⟩⟩
    rw [← h.pageSize_eq]
    exact ((h.agrees _ List.mem_cons_self).inside r hd).1

theorem ends_flush (h : Coherent sure pageSize count ((number, page) :: rest, p)) :
    (Pager.flush number).Ends (page, p)
      (fun _ t => Coherent sure pageSize count ((number, t.1) :: rest, t.2) ∧
        Keeps ((number, page) :: rest, p) ((number, t.1) :: rest, t.2) ∧ t.1.dirty = none)
      (fun _ t => Coherent sure pageSize count ((number, t.1) :: rest, t.2) ∧
        Keeps ((number, page) :: rest, p) ((number, t.1) :: rest, t.2) ∧ ¬ sure) := by
  cases hd : page.dirty with
  | none =>
    apply Op.Ends.of_ok (a := ()) (t := (page, p))
    · simp only [Pager.flush, hd]
    · exact ⟨h, .refl _, hd⟩
  | some r =>
    rcases (ends_writeBack h hd).cases with ⟨_, t, he, hc, hk⟩ | ⟨e, t, he, hr⟩
    · apply Op.Ends.of_ok (a := ()) (t := ({ page with dirty := none }, t))
      · simp only [Pager.flush, hd, he]
      · exact ⟨hc, hk, rfl⟩
    · apply Op.Ends.of_error (e := e) (t := (page, t))
      · simp only [Pager.flush, hd, he]
      · exact hr

theorem ends_release (h : Coherent sure pageSize count ((number, page) :: rest, p))
    (hd : page.dirty = none) :
    (onStorage (PageStorage.release page.handle) : Op (Pager S B) Unit).Ends p
      (fun _ t => Coherent sure pageSize count (rest, t) ∧
        Keeps ((number, page) :: rest, p) (rest, t))
      (fun _ _ => False) := by
  apply (ends_onStorage (p := p) (LawfulStorage.ends_release h.storage)).mono
  · rintro _ t ⟨⟨hp, hb, -⟩, hv, hs⟩
    exact h.go hd hp hv (hb ▸ h.below) (hb ▸ .refl p.below) hs
  · rintro e t ⟨-, hf⟩
    exact hf

theorem ends_fetch (number : Nat) (h : LawfulBackend.Valid sure p.below) :
    (fetch number).Ends p
      (fun bytes t => t.pageSize = p.pageSize ∧ t.storage = p.storage ∧
        LawfulBackend.Valid sure t.below ∧ Keeps p.below t.below ∧ bytes.size = p.pageSize ∧
        ∀ i < p.pageSize,
          Bytes.byteAt bytes i = blockOf p.pageSize (Contents.byteAt p.below) number i)
      (fun _ t => t.pageSize = p.pageSize ∧ t.storage = p.storage ∧
        LawfulBackend.Valid sure t.below ∧ Keeps p.below t.below ∧ ¬ sure) := by
  have hreadable : p.readable number =
      min (Contents.size p.below - number * p.pageSize) p.pageSize := by
    simp only [readable, LawfulBackend.capacity_eq h, pageAddress]
  have hpos := p.pageSize_pos
  by_cases hz : p.readable number = 0
  · apply Op.Ends.of_ok (a := Bytes.zeros p.pageSize) (t := p)
    · simp only [fetch, if_pos hz]
    · refine ⟨rfl, rfl, h, .refl p.below, Bytes.size_zeros p.pageSize, ?_⟩
      intro i hi
      rw [Bytes.byteAt_zeros, blockOf_of_lt hi, LawfulBackend.byteAt_of_size_le h (by omega)]
  · have hread := ends_onBelow (p := p)
      (LawfulBackend.ends_read (number * p.pageSize) (p.readable number) h)
    rcases hread.cases with
      ⟨bytes, t, he, ⟨hp, hs, -⟩, hv, hk, hfit, hsize, hb⟩ |
      ⟨e, t, he, ⟨hp, hs, -⟩, hv, hk, hsure⟩
    · apply Op.Ends.of_ok (a := Bytes.padTo bytes p.pageSize) (t := t)
      · simp only [fetch, if_neg hz, pageAddress, he]
      · refine ⟨hp, hs, hv, hk, ?_, ?_⟩
        · rw [Bytes.size_padTo, hsize]
          omega
        · intro i hi
          rw [Bytes.byteAt_padTo, blockOf_of_lt hi]
          by_cases hin : i < p.readable number
          · exact hb i hin
          · rw [Bytes.byteAt_of_size_le (by omega), LawfulBackend.byteAt_of_size_le h (by omega)]
    · apply Op.Ends.of_error (e := e) (t := t)
      · simp only [fetch, if_neg hz, pageAddress, he]
      · refine ⟨hp, hs, hv, hk, fun hx => ?_⟩
        have := (hsure hx).1
        omega

theorem ends_load {handle : H} (number : Nat) (hp : p.pageSize = pageSize)
    (hs : LawfulStorage.Valid sure pageSize count p.storage (handle :: handles entries))
    (hb : LawfulBackend.Valid sure p.below) :
    (load number : Op (H × Pager S B) Unit).Ends (handle, p)
      (fun _ t => t.2.pageSize = p.pageSize ∧
        LawfulStorage.Valid sure pageSize count t.2.storage (t.1 :: handles entries) ∧
        SamePages p.storage t.2.storage (handles entries) ∧
        LawfulBackend.Valid sure t.2.below ∧ Keeps p.below t.2.below ∧
        ∀ i < p.pageSize, PageContents.byteAt t.2.storage t.1 i =
          blockOf p.pageSize (Contents.byteAt p.below) number i)
      (fun _ t => t.2.pageSize = p.pageSize ∧
        LawfulStorage.Valid sure pageSize count t.2.storage (t.1 :: handles entries) ∧
        SamePages p.storage t.2.storage (handles entries) ∧
        LawfulBackend.Valid sure t.2.below ∧ Keeps p.below t.2.below ∧ ¬ sure) := by
  rcases (ends_fetch number hb).cases with
    ⟨bytes, t, he, hpt, hst, hv, hk, hsize, hbytes⟩ | ⟨e, t, he, hpt, hst, hv, hk, hn⟩
  · have hload : (load number : Op (H × Pager S B) Unit) (handle, p) =
        onHandle (PageStorage.write 0 bytes) (handle, t) := by
      simp only [load, he]
    rw [Op.Ends, hload]
    rw [← hst] at hs
    apply (ends_onHandle (p := t) (LawfulStorage.ends_write 0 bytes hs)).mono
    · rintro _ u ⟨⟨hpu, hbu, -⟩, hvu, hsame, hw⟩
      refine ⟨hpu.trans hpt, hvu, hst ▸ hsame, hbu ▸ hv, hbu ▸ hk, ?_⟩
      intro i hi
      rw [hw, Bytes.overlay, if_pos (by omega), Nat.sub_zero]
      exact hbytes i hi
    · rintro e u ⟨⟨hpu, hbu, -⟩, hvu, hsame, -, hn⟩
      refine ⟨hpu.trans hpt, hvu, hst ▸ hsame, hbu ▸ hv, hbu ▸ hk, fun hx => hn ⟨hx, ?_⟩⟩
      omega
  · apply Op.Ends.of_error (e := e) (t := (handle, t))
    · simp only [load, he]
    · exact ⟨hpt, hst ▸ hs, hst ▸ .refl p.storage _, hv, hk, hn⟩

theorem ends_fault (h : Coherent sure pageSize count (entries, p))
    (hnew : number ∉ entries.map Prod.fst) :
    (fault number : Op (Pager S B) (Page H)).Ends p
      (fun page t => page.dirty = none ∧
        Coherent sure pageSize count ((number, page) :: entries, t) ∧
        Keeps (entries, p) ((number, page) :: entries, t))
      (fun _ t => Coherent sure pageSize count (entries, t) ∧ Keeps (entries, p) (entries, t) ∧
        ¬ (sure ∧ entries.length < count)) := by
  have hacquire := ends_onStorage (p := p) (LawfulStorage.ends_acquire h.storage)
  rcases hacquire.cases with
    ⟨handle, t, he, ⟨hp, hb, -⟩, hv, hs⟩ | ⟨e, t, he, ⟨hp, hb, -⟩, hv, hs, hn⟩
  · have hload := ends_load number (hp.trans h.pageSize_eq) hv (hb ▸ h.below)
    rcases hload.cases with
      ⟨_, ⟨g, u⟩, heu, hpu, hvu, hsu, hvb, hk, hbytes⟩ |
      ⟨e, ⟨g, u⟩, heu, hpu, hvu, hsu, hvb, hk, hn⟩
    · rw [hp, hb] at hbytes
      apply Op.Ends.of_ok (a := { handle := g }) (t := u)
      · simp only [fault, he, heu]
      · exact ⟨rfl, h.come hnew (hpu.trans hp) hvu hvb (hb ▸ hk) (hs.trans hsu) hbytes⟩
    · have hrelease := ends_onStorage (p := u) (LawfulStorage.ends_release hvu)
      rcases hrelease.cases with ⟨_, v, hev, ⟨hpv, hbv, -⟩, hvv, hsv⟩ | ⟨_, _, -, -, hf⟩
      · obtain ⟨hc, hkeep⟩ := h.keep ((hpv.trans hpu).trans hp) hvv (hbv ▸ hvb) (hbv ▸ hb ▸ hk)
          ((hs.trans hsu).trans hsv)
        apply Op.Ends.of_error (e := e) (t := v)
        · simp only [fault, he, heu, hev]
        · exact ⟨hc, hkeep, fun hx => hn hx.1⟩
      · exact hf.elim
  · apply Op.Ends.of_error (e := e) (t := t)
    · simp only [fault, he]
    · obtain ⟨hc, hk⟩ := h.keep hp hv (hb ▸ h.below) (hb ▸ .refl p.below) hs
      refine ⟨hc, hk, ?_⟩
      rwa [handles, List.length_map] at hn

theorem ends_readPage {offset length : Nat}
    (h : Coherent sure pageSize count ((number, page) :: rest, p))
    (hl : offset + length ≤ pageSize) :
    (readPage offset length : Op (Page H × Pager S B) ByteArray).Ends (page, p)
      (fun data t => Coherent sure pageSize count ((number, t.1) :: rest, t.2) ∧
        Keeps ((number, page) :: rest, p) ((number, t.1) :: rest, t.2) ∧
        Bytes.Shows (Contents.byteAt (((number, page) :: rest, p) : Residents S H B))
          (number * pageSize + offset) length data)
      (fun _ t => Coherent sure pageSize count ((number, t.1) :: rest, t.2) ∧
        Keeps ((number, page) :: rest, p) ((number, t.1) :: rest, t.2) ∧ ¬ sure) := by
  rcases (ends_readStorage offset length h).cases with
    ⟨data, t, he, hc, hk, -, -, hd, -⟩ | ⟨e, t, he, hc, hk, hn⟩
  · apply Op.Ends.of_ok (a := data) (t := (page, t))
    · simp only [readPage, he]
    · refine ⟨hc, hk, hd.1, ?_⟩
      intro i hi
      have hlt : offset + i < p.pageSize := by
        rw [h.pageSize_eq]
        omega
      have hview := blockOf_byteAt (((number, page) :: rest, p) : Residents S H B) number hlt
      rw [pageByte_cons_self, blockOf_of_lt hlt] at hview
      rw [hd.2 i hi, ← hview, ← h.pageSize_eq, Nat.add_assoc]
  · apply Op.Ends.of_error (e := e) (t := (page, t))
    · simp only [readPage, he]
    · exact ⟨hc, hk, fun hx => hn ⟨hx, hl⟩⟩

theorem ends_writePage {offset : Nat} {data : ByteArray}
    (h : Coherent sure pageSize count ((number, page) :: rest, p))
    (hl : offset + data.size ≤ pageSize)
    (hfit : number * pageSize + offset + data.size ≤ Contents.size p.below) :
    (writePage offset data : Op (Page H × Pager S B) Unit).Ends (page, p)
      (fun _ t => Coherent sure pageSize count ((number, t.1) :: rest, t.2) ∧
        Writes (number * pageSize + offset) data data.size
          (((number, page) :: rest, p) : Residents S H B) ((number, t.1) :: rest, t.2))
      (fun _ t => Coherent sure pageSize count ((number, t.1) :: rest, t.2) ∧
        Keeps ((number, page) :: rest, p) ((number, t.1) :: rest, t.2) ∧ ¬ sure) := by
  have hsize := h.pageSize_eq
  subst hsize
  obtain ⟨hnew, hnodup⟩ := List.nodup_cons.mp h.nodup
  obtain ⟨hpage, hrest⟩ := List.forall_mem_cons.mp h.agrees
  have hwrite := ends_onHandle (p := p) (LawfulStorage.ends_write offset data h.storage)
  rcases hwrite.cases with
    ⟨_, ⟨handle, t⟩, he, ⟨hp, hb, -⟩, hv, hsame, hw⟩ |
    ⟨e, ⟨handle, t⟩, he, ⟨hp, hb, -⟩, hv, hsame, hw, hn⟩
  · have hkb : Keeps p.below t.below := hb ▸ .refl p.below
    apply Op.Ends.of_ok (a := ())
      (t := ({ handle, dirty := some (dirtied page offset data.size) }, t))
    · simp only [writePage, he]
      rfl
    · refine ⟨⟨hp, h.nodup, hv, hb ▸ h.below, List.forall_mem_cons.mpr
        ⟨agrees_written hpage hp hb hl hfit hw, agrees_of_same hrest hp hkb hsame⟩⟩, hkb.size, ?_⟩
      rw [Bytes.slice_zero_size]
      apply byteAt_overlay (s := ((number, page) :: rest, p)) hp hl
      · intro i hi
        rw [pageByte_cons_self]
        refine (congrFun hw i).trans ?_
        simp only [Bytes.overlay, pageByte_cons_self]
      · intro m hm i hi
        rw [pageByte_cons_ne hm, pageByte_cons_ne hm, pageByte_of_same hnodup hp hkb hsame]
  · obtain ⟨hc, hk⟩ := h.renew hp hv hb hsame hw
    apply Op.Ends.of_error (e := e) (t := ({ page with handle }, t))
    · simp only [writePage, he]
    · exact ⟨hc, hk, fun hx => hn ⟨hx, hl⟩⟩

end Pager

end TieredMemory
