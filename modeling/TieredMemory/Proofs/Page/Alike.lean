import TieredMemory.Proofs.Backend.Answers
import TieredMemory.Proofs.Page.Cache
import TieredMemory.Proofs.Page.Steps
import TieredMemory.Proofs.Recency.Alike

namespace TieredMemory

variable {S S' H H' B α β : Type}

/-- Two storages do alike what a tier of `capacity` pages of `pageSize` bytes asks of them, and fail
as `allowed`. `Used` relates them by the pairs of handles of the resident pages, `Taken` while one
more pair was acquired that no page has been loaded into. -/
structure PageStorage.Alike [PageStorage S H] [PageStorage S' H'] (exact : Prop)
    (allowed : Error → Prop) (pageSize capacity : Nat) (Used : List (H × H') → S → S' → Prop)
    (Taken : H × H' → List (H × H') → S → S' → Prop) : Prop where
  perm : ∀ {gs gs' : List (H × H')} {s : S} {t : S'}, gs.Perm gs' → Used gs s t → Used gs' s t
  acquire : ∀ {gs : List (H × H')} {s : S} {t : S'}, Used gs s t → gs.length < capacity →
    (PageStorage.acquire : Op S H).Alike (PageStorage.acquire : Op S' H') s t
      (fun g g' s' t' => Taken (g, g') gs s' t') (fun e s' t' => allowed e ∧ Used gs s' t')
  fill : ∀ {g : H} {g' : H'} {gs : List (H × H')} {s : S} {t : S'} {data : ByteArray},
    Taken (g, g') gs s t → (exact → data.size = pageSize) →
    (PageStorage.write 0 data : Op (H × S) Unit).Alike (PageStorage.write 0 data) (g, s) (g', t)
      (fun _ _ x y => Used ((x.1, y.1) :: gs) x.2 y.2)
      (fun e x y => allowed e ∧ Taken (x.1, y.1) gs x.2 y.2)
  giveUp : ∀ {g : H} {g' : H'} {gs : List (H × H')} {s : S} {t : S'}, Taken (g, g') gs s t →
    (PageStorage.release g : Op S Unit).Alike (PageStorage.release g') s t
      (fun _ _ s' t' => Used gs s' t') (fun e s' t' => allowed e ∧ Used gs s' t')
  release : ∀ {g : H} {g' : H'} {gs : List (H × H')} {s : S} {t : S'}, Used ((g, g') :: gs) s t →
    (PageStorage.release g : Op S Unit).Alike (PageStorage.release g') s t
      (fun _ _ s' t' => Used gs s' t') (fun e s' t' => allowed e ∧ Used gs s' t')
  read : ∀ {g : H} {g' : H'} {gs : List (H × H')} {s : S} {t : S'} {offset length : Nat},
    Used ((g, g') :: gs) s t → offset + length ≤ pageSize →
    (PageStorage.read g offset length : Op S ByteArray).Alike
      (PageStorage.read g' offset length) s t
      (fun a b s' t' => b = a ∧ Used ((g, g') :: gs) s' t')
      (fun e s' t' => allowed e ∧ Used ((g, g') :: gs) s' t')
  write : ∀ {g : H} {g' : H'} {gs : List (H × H')} {s : S} {t : S'} {offset : Nat}
    {data : ByteArray}, Used ((g, g') :: gs) s t → offset + data.size ≤ pageSize →
    (PageStorage.write offset data : Op (H × S) Unit).Alike (PageStorage.write offset data)
      (g, s) (g', t) (fun _ _ x y => Used ((x.1, y.1) :: gs) x.2 y.2)
      (fun e x y => allowed e ∧ Used ((x.1, y.1) :: gs) x.2 y.2)

namespace Pager

open Recency

structure Level (pageSize : Nat) (p : Pager S B) (q : Pager S' B) : Prop where
  left : p.pageSize = pageSize
  right : q.pageSize = pageSize
  below : q.below = p.below
  writeBacks : q.writeBacks = p.writeBacks

structure Beside (pageSize capacity : Nat) (Used : List (H × H') → S → S' → Prop)
    (es : Pairs (Page H) (Page H')) (p : Pager S B) (q : Pager S' B) : Prop where
  level : Level pageSize p q
  room : es.length ≤ capacity
  dirty : ∀ e ∈ es, e.2.2.dirty = e.2.1.dirty ∧ ∀ r, e.2.1.dirty = some r → r.stop ≤ pageSize
  storage : Used (es.map fun e => (e.2.1.handle, e.2.2.handle)) p.storage q.storage

variable [PageStorage S H] [PageStorage S' H'] [Backend B]
variable {exact : Prop} {allowed : Error → Prop} {pageSize capacity number : Nat}
variable {Used : List (H × H') → S → S' → Prop} {Taken : H × H' → List (H × H') → S → S' → Prop}
variable {p : Pager S B} {q : Pager S' B} {gs : List (H × H')} {g : H} {g' : H'}

section Parts

omit [PageStorage S H] [PageStorage S' H'] [Backend B] in
theorem Level.withStorage (hl : Level pageSize p q) (s : S) (t : S') (events events' : BankLog) :
    Level pageSize { p with storage := s, events } { q with storage := t, events := events' } :=
  ⟨hl.left, hl.right, hl.below, hl.writeBacks⟩

omit [PageStorage S H] [PageStorage S' H'] [Backend B] in
theorem Level.withBelow (hl : Level pageSize p q) (b : B) (events events' : BankLog) :
    Level pageSize { p with below := b, events } { q with below := b, events := events' } :=
  ⟨hl.left, hl.right, rfl, hl.writeBacks⟩

omit [Backend B] in
theorem alike_onStorage {op : Op S α} {op' : Op S' β} {ok : α → β → S → S' → Prop}
    {bad : Error → S → S' → Prop} (hl : Level pageSize p q)
    (h : op.Alike op' p.storage q.storage ok bad) :
    (onStorage op).Alike (onStorage op') p q
      (fun a b p' q' => Level pageSize p' q' ∧ ok a b p'.storage q'.storage)
      (fun e p' q' => Level pageSize p' q' ∧ bad e p'.storage q'.storage) := by
  rcases h.cases with ⟨a, s, b, t, hs, ht, hok⟩ | ⟨e, s, t, hs, ht, hbad⟩
  · apply Op.Alike.of_ok
    · simp only [onStorage, followStorage, hs]
      rfl
    · simp only [onStorage, followStorage, ht]
      rfl
    · exact ⟨hl.withStorage s t _ _, hok⟩
  · apply Op.Alike.of_error
    · simp only [onStorage, followStorage, hs]
      rfl
    · simp only [onStorage, followStorage, ht]
      rfl
    · exact ⟨hl.withStorage s t _ _, hbad⟩

omit [Backend B] in
theorem alike_onHandle {op : Op (H × S) α} {op' : Op (H' × S') β}
    {ok : α → β → H × S → H' × S' → Prop} {bad : Error → H × S → H' × S' → Prop}
    (hl : Level pageSize p q) (h : op.Alike op' (g, p.storage) (g', q.storage) ok bad) :
    (onHandle op : Op (H × Pager S B) α).Alike (onHandle op') (g, p) (g', q)
      (fun a b x y => Level pageSize x.2 y.2 ∧ ok a b (x.1, x.2.storage) (y.1, y.2.storage))
      (fun e x y => Level pageSize x.2 y.2 ∧ bad e (x.1, x.2.storage) (y.1, y.2.storage)) := by
  rcases h.cases with ⟨a, ⟨g, s⟩, b, ⟨g', t⟩, hs, ht, hok⟩ | ⟨e, ⟨g, s⟩, ⟨g', t⟩, hs, ht, hbad⟩
  · apply Op.Alike.of_ok
    · simp only [onHandle, followStorage, hs]
      rfl
    · simp only [onHandle, followStorage, ht]
      rfl
    · exact ⟨hl.withStorage s t _ _, hok⟩
  · apply Op.Alike.of_error
    · simp only [onHandle, followStorage, hs]
      rfl
    · simp only [onHandle, followStorage, ht]
      rfl
    · exact ⟨hl.withStorage s t _ _, hbad⟩

omit [PageStorage S H] [PageStorage S' H'] in
theorem alike_onBelow {op : Op B α} {ok : α → Prop} {bad : Error → Prop} (hl : Level pageSize p q)
    (h : op.Ends p.below (fun a _ => ok a) (fun e _ => bad e)) :
    (onBelow op : Op (Pager S B) α).Alike (onBelow op) p q
      (fun a b p' q' => Level pageSize p' q' ∧ b = a ∧ p'.storage = p.storage ∧
        q'.storage = q.storage ∧ ok a)
      (fun e p' q' => Level pageSize p' q' ∧ p'.storage = p.storage ∧ q'.storage = q.storage ∧
        bad e) := by
  rcases h.cases with ⟨a, b, hs, hok⟩ | ⟨e, b, hs, hbad⟩
  · apply Op.Alike.of_ok
    · simp only [onBelow, editBelow, followBelow, hs]
      rfl
    · simp only [onBelow, editBelow, followBelow, hl.below, hs]
      rfl
    · exact ⟨hl.withBelow b _ _, rfl, rfl, rfl, hok⟩
  · apply Op.Alike.of_error
    · simp only [onBelow, editBelow, followBelow, hs]
      rfl
    · simp only [onBelow, editBelow, followBelow, hl.below, hs]
      rfl
    · exact ⟨hl.withBelow b _ _, rfl, rfl, hbad⟩

omit [PageStorage S H] [PageStorage S' H'] in
theorem readable_le (p : Pager S B) (number : Nat) : p.readable number ≤ p.pageSize := by
  unfold readable
  split
  · exact Nat.min_le_right _ _
  · exact Nat.le_refl _

omit [PageStorage S H] [PageStorage S' H'] in
theorem alike_fetch (hb : Backend.Answers B exact allowed) (hl : Level pageSize p q)
    (number : Nat) :
    (fetch number : Op (Pager S B) ByteArray).Alike (fetch number) p q
      (fun a b p' q' => Level pageSize p' q' ∧ p'.storage = p.storage ∧ q'.storage = q.storage ∧
        b = a ∧ (exact → a.size = pageSize))
      (fun e p' q' => Level pageSize p' q' ∧ p'.storage = p.storage ∧ q'.storage = q.storage ∧
        allowed e) := by
  have haddress : q.pageAddress number = p.pageAddress number := by
    simp only [pageAddress, hl.left, hl.right]
  have hreadable : q.readable number = p.readable number := by
    simp only [readable, haddress, hl.below, hl.left, hl.right]
  by_cases hz : p.readable number = 0
  · apply Op.Alike.of_ok
    · simp only [fetch, if_pos hz, hl.left]
      rfl
    · simp only [fetch, hreadable, if_pos hz, hl.right]
      rfl
    · exact ⟨hl, rfl, rfl, rfl, fun _ => Bytes.size_zeros pageSize⟩
  · have hread := alike_onBelow (p := p) (q := q) hl
      (hb.read (p.pageAddress number) (p.readable number) p.below)
    rcases hread.cases with
      ⟨_, p', data, q', he, he', hl', rfl, hs, hs', hsize⟩ |
      ⟨e, p', q', he, he', hl', hs, hs', hall⟩
    · apply Op.Alike.of_ok
      · simp only [fetch, if_neg hz, he, hl.left]
        rfl
      · simp only [fetch, hreadable, haddress, if_neg hz, he', hl.right]
        rfl
      · refine ⟨hl', hs, hs', rfl, fun hx => ?_⟩
        have hle := readable_le p number
        rw [hl.left] at hle
        rw [Bytes.size_padTo, hsize hx]
        exact Nat.max_eq_right hle
    · apply Op.Alike.of_error
      · simp only [fetch, if_neg hz, he]
        rfl
      · simp only [fetch, hreadable, haddress, if_neg hz, he']
        rfl
      · exact ⟨hl', hs, hs', hall⟩

end Parts

section Callbacks

variable (hs : PageStorage.Alike exact allowed pageSize capacity Used Taken)
  (hb : Backend.Answers B exact allowed)
include hs hb

theorem alike_load (hl : Level pageSize p q)
    (ht : Taken (g, g') gs p.storage q.storage) (number : Nat) :
    (load number : Op (H × Pager S B) Unit).Alike (load number) (g, p) (g', q)
      (fun _ _ x y => Level pageSize x.2 y.2 ∧ Used ((x.1, y.1) :: gs) x.2.storage y.2.storage)
      (fun e x y => Level pageSize x.2 y.2 ∧ allowed e ∧
        Taken (x.1, y.1) gs x.2.storage y.2.storage) := by
  rcases (alike_fetch hb hl number).cases with
    ⟨_, p', data, q', he, he', hl', hp, hq, rfl, hsize⟩ | ⟨e, p', q', he, he', hl', hp, hq, hall⟩
  · have hop : (load number : Op (H × Pager S B) Unit) (g, p) =
        onHandle (PageStorage.write 0 data) (g, p') := by
      simp only [load, he]
    have hop' : (load number : Op (H' × Pager S' B) Unit) (g', q) =
        onHandle (PageStorage.write 0 data) (g', q') := by
      simp only [load, he']
    rw [← hp, ← hq] at ht
    apply Op.Alike.of_eq hop hop'
    exact alike_onHandle hl' (hs.fill ht hsize)
  · apply Op.Alike.of_error
    · simp only [load, he]
      rfl
    · simp only [load, he']
      rfl
    · rw [← hp, ← hq] at ht
      exact ⟨hl', hall, ht⟩

theorem alike_fault (hl : Level pageSize p q)
    (hu : Used gs p.storage q.storage) (hroom : gs.length < capacity) (number : Nat) :
    (fault number : Op (Pager S B) (Page H)).Alike (fault number) p q
      (fun v w p' q' => v.dirty = none ∧ w.dirty = none ∧ Level pageSize p' q' ∧
        Used ((v.handle, w.handle) :: gs) p'.storage q'.storage)
      (fun e p' q' => allowed e ∧ Level pageSize p' q' ∧ Used gs p'.storage q'.storage) := by
  rcases (alike_onStorage hl (hs.acquire hu hroom)).cases with
    ⟨g, p₁, g', q₁, he, he', hl₁, ht⟩ | ⟨e, p₁, q₁, he, he', hl₁, hall, hu⟩
  · rcases (alike_load hs hb hl₁ ht number).cases with
      ⟨_, ⟨g₁, p₂⟩, _, ⟨g₂, q₂⟩, hld, hld', hl₂, hu⟩ |
      ⟨e, ⟨g₁, p₂⟩, ⟨g₂, q₂⟩, hld, hld', hl₂, hall, ht⟩
    · apply Op.Alike.of_ok
      · simp only [fault, he, hld]
        rfl
      · simp only [fault, he', hld']
        rfl
      · exact ⟨rfl, rfl, hl₂, hu⟩
    -- the handles are given up again, and a failure to do so takes the place of the first one
    · rcases (alike_onStorage hl₂ (hs.giveUp ht)).cases with
        ⟨_, p₃, _, q₃, hrel, hrel', hl₃, hu⟩ | ⟨e', p₃, q₃, hrel, hrel', hl₃, hall', hu⟩
      · apply Op.Alike.of_error
        · simp only [fault, he, hld, hrel]
          rfl
        · simp only [fault, he', hld', hrel']
          rfl
        · exact ⟨hall, hl₃, hu⟩
      · apply Op.Alike.of_error
        · simp only [fault, he, hld, hrel]
          rfl
        · simp only [fault, he', hld', hrel']
          rfl
        · exact ⟨hall', hl₃, hu⟩
  · apply Op.Alike.of_error
    · simp only [fault, he]
      rfl
    · simp only [fault, he']
      rfl
    · exact ⟨hall, hl₁, hu⟩

theorem alike_writeBack (hl : Level pageSize p q)
    (hu : Used ((g, g') :: gs) p.storage q.storage) {r : DirtyRange} (hr : r.stop ≤ pageSize)
    (number : Nat) :
    (writeBack number g r : Op (Pager S B) Unit).Alike (writeBack number g' r) p q
      (fun _ _ p' q' => Level pageSize p' q' ∧ Used ((g, g') :: gs) p'.storage q'.storage)
      (fun e p' q' => allowed e ∧ Level pageSize p' q' ∧
        Used ((g, g') :: gs) p'.storage q'.storage) := by
  have haddress : q.pageAddress number = p.pageAddress number := by
    simp only [pageAddress, hl.left, hl.right]
  have hop : (writeBack number g' r : Op (Pager S' B) Unit) q = (do
      let bytes ← onStorage (PageStorage.read g' r.start r.length)
      onBelow (Backend.write (p.pageAddress number + r.start) bytes)
      record r.length) q := by
    rw [writeBack, haddress]
  apply Op.Alike.of_eq rfl hop
  apply (alike_onStorage hl (hs.read hu hr)).bind
  · rintro _ data p₁ q₁ ⟨hl₁, rfl, hu⟩
    apply (alike_onBelow hl₁ (hb.write _ data p₁.below)).bind
    · rintro _ _ p₂ q₂ ⟨hl₂, -, hp, hq, -⟩
      rw [← hp, ← hq] at hu
      refine ⟨⟨hl₂.left, hl₂.right, hl₂.below, ?_⟩, hu⟩
      exact congrArg (·.record r.length) hl₂.writeBacks
    · rintro e p₂ q₂ ⟨hl₂, hp, hq, hall⟩
      rw [← hp, ← hq] at hu
      exact ⟨hall, hl₂, hu⟩
  · rintro e p₁ q₁ ⟨hl₁, hall, hu⟩
    exact ⟨hall, hl₁, hu⟩

variable {es : Pairs (Page H) (Page H')} {v : Page H} {w : Page H'}

omit hs hb [PageStorage S H] [PageStorage S' H'] [Backend B] in
theorem Beside.renew {v' : Page H} {w' : Page H'} {p' : Pager S B} {q' : Pager S' B}
    (hr : Beside pageSize capacity Used ((number, v, w) :: es) p q) (hl : Level pageSize p' q')
    (hd : w'.dirty = v'.dirty ∧ ∀ r, v'.dirty = some r → r.stop ≤ pageSize)
    (hu : Used ((v'.handle, w'.handle) :: es.map fun e => (e.2.1.handle, e.2.2.handle))
      p'.storage q'.storage) :
    Beside pageSize capacity Used ((number, v', w') :: es) p' q' :=
  ⟨hl, hr.room, List.forall_mem_cons.mpr ⟨hd, (List.forall_mem_cons.mp hr.dirty).2⟩, hu⟩

theorem alike_flush (hr : Beside pageSize capacity Used ((number, v, w) :: es) p q) :
    (flush number : Op (Page H × Pager S B) Unit).Alike (flush number) (v, p) (w, q)
      (fun _ _ x y => Beside pageSize capacity Used ((number, x.1, y.1) :: es) x.2 y.2)
      (fun e x y => allowed e ∧
        Beside pageSize capacity Used ((number, x.1, y.1) :: es) x.2 y.2) := by
  have hdirty : w.dirty = v.dirty ∧ ∀ r, v.dirty = some r → r.stop ≤ pageSize :=
    hr.dirty _ List.mem_cons_self
  cases hv : v.dirty with
  | none =>
    apply Op.Alike.of_ok
    · simp only [flush, hv]
      rfl
    · simp only [flush, hdirty.1, hv]
      rfl
    · exact hr
  | some r =>
    have hclean : ∀ r : DirtyRange, (none : Option DirtyRange) = some r → r.stop ≤ pageSize := by
      rintro r ⟨⟩
    rcases (alike_writeBack hs hb hr.level hr.storage (hdirty.2 r hv) number).cases with
      ⟨_, p', _, q', he, he', hl, hu⟩ | ⟨e, p', q', he, he', hall, hl, hu⟩
    · apply Op.Alike.of_ok
      · simp only [flush, hv, he]
        rfl
      · simp only [flush, hdirty.1, hv, he']
        rfl
      · exact hr.renew hl ⟨rfl, hclean⟩ hu
    · apply Op.Alike.of_error
      · simp only [flush, hv, he]
        rfl
      · simp only [flush, hdirty.1, hv, he']
        rfl
      · exact ⟨hall, hr.renew hl hdirty hu⟩

theorem alike_handler :
    (handler : Handler (Pager S B) (Page H)).Alike (Beside pageSize capacity Used)
      (fun es p q => es.length < capacity ∧ Beside pageSize capacity Used es p q)
      (fun number v w es p q => Beside pageSize capacity Used ((number, v, w) :: es) p q) allowed
      (handler : Handler (Pager S' B) (Page H')) where
  perm hp hr := ⟨hr.level, hp.length_eq ▸ hr.room, fun e he => hr.dirty e (hp.mem_iff.mpr he),
    hs.perm (hp.map _) hr.storage⟩
  fault {es p q number} hr _ := by
    obtain ⟨hroom, hr⟩ := hr
    have hlen : (es.map fun e => (e.2.1.handle, e.2.2.handle)).length < capacity := by
      rwa [List.length_map]
    apply (alike_fault hs hb hr.level hr.storage hlen number).mono
    · rintro v w p' q' ⟨hv, hw, hl, hu⟩
      refine ⟨hl, hroom, List.forall_mem_cons.mpr ⟨⟨hw.trans hv.symm, ?_⟩, hr.dirty⟩, hu⟩
      intro r hd
      rw [hv] at hd
      cases hd
    · rintro e p' q' ⟨hall, hl, hu⟩
      exact ⟨hall, hl, hr.room, hr.dirty, hu⟩
  flush hr := alike_flush hs hb hr
  flushed hr := hr
  release {es p q number v w} hr := by
    have hrest : ∀ {p' : Pager S B} {q' : Pager S' B}, Level pageSize p' q' →
        Used (es.map fun e => (e.2.1.handle, e.2.2.handle)) p'.storage q'.storage →
        Beside pageSize capacity Used es p' q' := by
      intro p' q' hl hu
      exact ⟨hl, Nat.le_of_succ_le hr.room, (List.forall_mem_cons.mp hr.dirty).2, hu⟩
    apply (alike_onStorage hr.level (hs.release hr.storage)).mono
    · rintro _ _ p' q' ⟨hl, hu⟩
      exact hrest hl hu
    · rintro e p' q' ⟨hl, hall, hu⟩
      exact ⟨hall, hrest hl hu⟩

omit hb [Backend B] in
theorem uses_readPage {offset length : Nat} (hin : offset + length ≤ pageSize) :
    Ledger.Uses (Beside pageSize capacity Used) allowed number (fun a b => b = a)
      (readPage offset length : Op (Page H × Pager S B) ByteArray) (readPage offset length) := by
  intro es v w p q hr
  have hdirty := hr.dirty _ List.mem_cons_self
  rcases (alike_onStorage hr.level (hs.read hr.storage hin)).cases with
    ⟨a, p', b, q', he, he', hl, hab, hu⟩ | ⟨e, p', q', he, he', hl, hall, hu⟩
  · apply Op.Alike.of_ok
    · simp only [readPage, he]
      rfl
    · simp only [readPage, he']
      rfl
    · exact ⟨hab, hr.renew hl hdirty hu⟩
  · apply Op.Alike.of_error
    · simp only [readPage, he]
      rfl
    · simp only [readPage, he']
      rfl
    · exact ⟨hall, hr.renew hl hdirty hu⟩

omit hb [Backend B] in
theorem uses_writePage {offset : Nat} {data : ByteArray} (hin : offset + data.size ≤ pageSize) :
    Ledger.Uses (Beside pageSize capacity Used) allowed number (fun _ _ => True)
      (writePage offset data : Op (Page H × Pager S B) Unit) (writePage offset data) := by
  intro es v w p q hr
  have hdirty : w.dirty = v.dirty ∧ ∀ r, v.dirty = some r → r.stop ≤ pageSize :=
    hr.dirty _ List.mem_cons_self
  rcases (alike_onHandle hr.level (hs.write hr.storage hin)).cases with
    ⟨_, ⟨g, p'⟩, _, ⟨g', q'⟩, he, he', hl, hu⟩ | ⟨e, ⟨g, p'⟩, ⟨g', q'⟩, he, he', hl, hall, hu⟩
  · apply Op.Alike.of_ok
    · simp only [writePage, he]
      rfl
    · simp only [writePage, he', hdirty.1]
      rfl
    · refine ⟨trivial, hr.renew hl ⟨rfl, ?_⟩ hu⟩
      rintro _ ⟨⟩
      cases hv : v.dirty with
      | none => exact hin
      | some r =>
        have := hdirty.2 r hv
        simp only [DirtyRange.stop_union]
        omega
  · apply Op.Alike.of_error
    · simp only [writePage, he]
      rfl
    · simp only [writePage, he']
      rfl
    · exact ⟨hall, hr.renew hl hdirty hu⟩

end Callbacks

end Pager

namespace PageCache

open Recency

structure Beside (pageSize capacity : Nat) (Used : List (H × H') → S → S' → Prop)
    (c : PageCache S H B) (d : PageCache S' H' B) : Prop where
  together : Recency.Cache.Together (Pager.Beside pageSize capacity Used) (c.cache, c.pager)
    (d.cache, d.pager)
  left : c.capacity = capacity
  right : d.capacity = capacity

variable {exact : Prop} {allowed : Error → Prop} {pageSize capacity number : Nat}
variable {Used : List (H × H') → S → S' → Prop} {Taken : H × H' → List (H × H') → S → S' → Prop}
variable {c : PageCache S H B} {d : PageCache S' H' B}

section Views

theorem Beside.count_eq (h : Beside pageSize capacity Used c d) :
    d.cache.count = c.cache.count := by
  obtain ⟨m, hs⟩ := h.together.ledgers
  have hright := congrArg (·.entries.length) hs.right
  simp only [Ledger.map, List.length_map] at hright
  rw [h.together.left.count_eq, h.together.right.count_eq]
  exact hright.trans hs.length_eq.symm

theorem Beside.peek?_eq (h : Beside pageSize capacity Used c d) (page : Nat) :
    ∃ found : Option (Page H × Page H'), c.cache.peek? page = found.map Prod.fst ∧
      d.cache.peek? page = found.map Prod.snd ∧ ∀ e, found = some e → e.2.dirty = e.1.dirty := by
  obtain ⟨m, hleft, hright, hnodup, hr⟩ := h.together.ledgers
  refine ⟨m.entries.lookup page, ?_, ?_, ?_⟩
  · rw [h.together.left.peek?_eq]
    exact (congrArg (·.entries.lookup page) hleft).trans (Ledger.lookup_map _ _ page)
  · rw [h.together.right.peek?_eq]
    exact (congrArg (·.entries.lookup page) hright).trans (Ledger.lookup_map _ _ page)
  · intro e he
    exact (hr.dirty _ ((Ledger.lookup_eq_some_iff_mem hnodup).mp he)).1

theorem Beside.contains_eq (h : Beside pageSize capacity Used c d) (page : Nat) :
    d.cache.contains page = c.cache.contains page := by
  obtain ⟨found, hc, hd, -⟩ := h.peek?_eq page
  have hpeek : ∀ {γ : Type} (cache : Cache γ), cache.contains page = (cache.peek? page).isSome :=
    fun cache => by rw [Cache.contains, Cache.peek?, Option.isSome_map]
  rw [hpeek, hpeek, hc, hd, Option.isSome_map, Option.isSome_map]

theorem Beside.dirtyRange?_eq (h : Beside pageSize capacity Used c d) (page : Nat) :
    d.dirtyRange? page = c.dirtyRange? page := by
  obtain ⟨found, hc, hd, hdirty⟩ := h.peek?_eq page
  rw [dirtyRange?, dirtyRange?, hc, hd]
  cases hf : found with
  | none => rfl
  | some e => exact hdirty e hf

theorem Beside.level (h : Beside pageSize capacity Used c d) :
    Pager.Level pageSize c.pager d.pager := by
  obtain ⟨m, hs⟩ := h.together.ledgers
  exact hs.holds.level

theorem Beside.storage_of_empty (h : Beside pageSize capacity Used c d) (hc : c.cache.toList = []) :
    Used [] c.storage d.storage := by
  obtain ⟨m, hs⟩ := h.together.ledgers
  have hnil : m.entries = [] := by
    apply List.eq_nil_of_length_eq_zero
    exact hs.length_eq.symm.trans (congrArg List.length hc)
  have hu := hs.holds.storage
  rwa [hnil] at hu

theorem Beside.stats_eq (h : Beside pageSize capacity Used c d) : d.stats = c.stats := by
  obtain ⟨m, hleft, hright, -, -⟩ := h.together.ledgers
  have hlookups : d.cache.lookups = c.cache.lookups :=
    (congrArg (·.lookups) hright).trans (congrArg (·.lookups) hleft).symm
  rw [stats, stats, hlookups, h.level.writeBacks]

end Views

variable [PageStorage S H] [PageStorage S' H'] [Backend B]

section Calls

omit [PageStorage S H] [PageStorage S' H'] [Backend B] in
theorem alike_onCache {op : Op (Recency.Cache (Page H) × Pager S B) α}
    {op' : Op (Recency.Cache (Page H') × Pager S' B) β}
    {model : Op (Ledger (Page H) × Pager S B) α} {model' : Op (Ledger (Page H') × Pager S' B) β}
    (ok : α → β → Ledger (Page H) × Pager S B → Ledger (Page H') × Pager S' B → Prop)
    (h : Beside pageSize capacity Used c d) (ht : Recency.Cache.Tracks op model)
    (ht' : Recency.Cache.Tracks op' model')
    (hm : model.Alike model' (c.cache.ledger, c.pager) (d.cache.ledger, d.pager)
      (fun a b x y => ok a b x y ∧ Ledger.Together (Pager.Beside pageSize capacity Used) x y)
      (fun e x y => allowed e ∧ Ledger.Together (Pager.Beside pageSize capacity Used) x y)) :
    (onCache op).Alike (onCache op') c d
      (fun a b c' d' => ok a b (c'.cache.ledger, c'.pager) (d'.cache.ledger, d'.pager) ∧
        Beside pageSize capacity Used c' d')
      (fun e c' d' => allowed e ∧ Beside pageSize capacity Used c' d') := by
  rcases (ht.alike ht' h.together.left h.together.right hm).cases with
    ⟨a, ⟨cache, p⟩, b, ⟨cache', q⟩, he, he', ⟨hv, hv'⟩, hok, hr⟩ |
    ⟨e, ⟨cache, p⟩, ⟨cache', q⟩, he, he', ⟨hv, hv'⟩, hall, hr⟩
  · apply Op.Alike.of_ok
    · simp only [onCache, he]
      rfl
    · simp only [onCache, he']
      rfl
    · exact ⟨hok, ⟨hv, hv', hr⟩, h.left, h.right⟩
  · apply Op.Alike.of_error
    · simp only [onCache, he]
      rfl
    · simp only [onCache, he']
      rfl
    · exact ⟨hall, ⟨hv, hv', hr⟩, h.left, h.right⟩

variable (hs : PageStorage.Alike exact allowed pageSize capacity Used Taken)
  (hb : Backend.Answers B exact allowed)
include hs hb

theorem alike_touch {ok : α → β → Prop} {use : Op (Page H × Pager S B) α}
    {use' : Op (Page H' × Pager S' B) β} (h : Beside pageSize capacity Used c d)
    (huse : Ledger.Uses (Pager.Beside pageSize capacity Used) allowed number ok use use') :
    (touch number use).Alike (touch number use') c d
      (fun a b c' d' => ok a b ∧ Beside pageSize capacity Used c' d')
      (fun e c' d' => allowed e ∧ Beside pageSize capacity Used c' d') := by
  have hh := Pager.alike_handler hs hb
  have ht := Recency.Cache.tracks_access (Pager.handler (S := S) (B := B)) number use
  have ht' := Recency.Cache.tracks_access (Pager.handler (S := S') (B := B)) number use'
  have hfull' : d.cache.contains number = false ∧ d.capacity ≤ d.cache.count ↔
      c.cache.contains number = false ∧ c.capacity ≤ c.cache.count := by
    rw [h.contains_eq, h.count_eq, h.left, h.right]
  obtain ⟨m, hm⟩ := h.together.ledgers
  have hcount : c.cache.count = m.entries.length :=
    h.together.left.count_eq.trans hm.length_eq
  by_cases hfull : c.cache.contains number = false ∧ c.capacity ≤ c.cache.count
  · have hop : touch number use c = onCache (do
        let _ ← Recency.Cache.evict Pager.handler 1
        Recency.Cache.access Pager.handler number use) c := by
      simp only [touch, if_pos hfull]
    have hop' : touch number use' d = onCache (do
        let _ ← Recency.Cache.evict Pager.handler 1
        Recency.Cache.access Pager.handler number use') d := by
      simp only [touch, if_pos (hfull'.mpr hfull)]
    apply Op.Alike.of_eq hop hop'
    apply alike_onCache (fun a b _ _ => ok a b) h
      ((Recency.Cache.tracks_evict Pager.handler 1).bind fun _ => ht)
      ((Recency.Cache.tracks_evict Pager.handler 1).bind fun _ => ht')
    apply (Ledger.alike_evictLoop hh 1 0 hm).bind
    · rintro _ _ x y ⟨-, hlen, m', hm'⟩
      apply Ledger.alike_access hh hm' _ huse
      -- the eviction has made room for one page
      refine fun _ => ⟨?_, hm'.holds⟩
      have := hm.holds.room
      have := c.capacity_pos
      have := h.left
      have := hm'.length_eq
      omega
    · exact fun e x y hr => hr
  · have hop : touch number use c =
        onCache (Recency.Cache.access Pager.handler number use) c := by
      simp only [touch, if_neg hfull]
    have hop' : touch number use' d =
        onCache (Recency.Cache.access Pager.handler number use') d := by
      simp only [touch, if_neg (hfull'.not.mpr hfull)]
    apply Op.Alike.of_eq hop hop'
    apply alike_onCache (fun a b _ _ => ok a b) h ht ht'
    apply Ledger.alike_access hh hm _ huse
    intro hnew
    refine ⟨?_, hm.holds⟩
    have hcontains : c.cache.contains number = false := by
      have hnone : c.cache.toList.lookup number = none := by
        refine (congrArg (·.entries.lookup number) hm.left).trans ?_
        rw [Ledger.map, Ledger.lookup_map, Ledger.lookup_eq_none_iff_notMem.mpr hnew,
          Option.map_none]
      rw [h.together.left.contains_eq, hnone, Option.isSome_none]
    have hlt := Nat.not_le.mp fun hle => hfull ⟨hcontains, hle⟩
    have := h.left
    omega

theorem alike_readPieces {address length : Nat} {pieces : List Piece}
    (ht : Tiles pageSize address length pieces) (acc : ByteArray)
    (h : Beside pageSize capacity Used c d) :
    (readPieces pieces acc : Op (PageCache S H B) ByteArray).Alike (readPieces pieces acc) c d
      (fun a b c' d' => b = a ∧ Beside pageSize capacity Used c' d')
      (fun e c' d' => allowed e ∧ Beside pageSize capacity Used c' d') := by
  induction pieces generalizing c d address length acc with
  | nil => exact Op.alike_pure ⟨rfl, h⟩
  | cons piece rest ih =>
    obtain ⟨-, hin, -, -, -, hrest⟩ := ht
    apply (alike_touch hs hb h (Pager.uses_readPage hs hin)).bind
    · rintro a _ c' d' ⟨rfl, h'⟩
      exact ih hrest _ h'
    · exact fun e c' d' hr => hr

theorem alike_writePieces {address length done : Nat} {data : ByteArray} {pieces : List Piece}
    (ht : Tiles pageSize address length pieces) (hd : done + length ≤ data.size)
    (h : Beside pageSize capacity Used c d) :
    (writePieces data pieces done : Op (PageCache S H B) Unit).Alike
      (writePieces data pieces done) c d
      (fun _ _ c' d' => Beside pageSize capacity Used c' d')
      (fun e c' d' => allowed e ∧ Beside pageSize capacity Used c' d') := by
  induction pieces generalizing c d address length done with
  | nil => exact Op.alike_pure h
  | cons piece rest ih =>
    obtain ⟨-, hin, -, hle, -, hrest⟩ := ht
    have hsize : (Bytes.slice data done piece.length).size = piece.length :=
      Bytes.size_slice (by omega)
    apply (alike_touch hs hb h (Pager.uses_writePage hs (by omega))).bind
    · rintro _ _ c' d' ⟨-, h'⟩
      exact ih hrest (by omega) h'
    · exact fun e c' d' hr => hr

theorem alike_read (address length : Nat) (h : Beside pageSize capacity Used c d) :
    (read address length : Op (PageCache S H B) ByteArray).Alike (read address length) c d
      (fun a b c' d' => b = a ∧ Beside pageSize capacity Used c' d')
      (fun e c' d' => allowed e ∧ Beside pageSize capacity Used c' d') := by
  have hcap : Backend.capacity d.below = Backend.capacity c.below :=
    congrArg Backend.capacity h.level.below
  have hleft : c.pageSize = pageSize := h.level.left
  have hright : d.pageSize = pageSize := h.level.right
  have hpos : 0 < pageSize := hleft ▸ c.pager.pageSize_pos
  cases hc : checkRange address length (Backend.capacity c.below) with
  | error e =>
    apply Op.Alike.of_error (e := e)
    · simp only [read, hc]
      rfl
    · simp only [read, hcap, hc]
      rfl
    · exact ⟨hb.checkRange hc, h⟩
  | ok _ =>
    have hop :
        read address length c = readPieces (pieces pageSize address length) ByteArray.empty c := by
      simp only [read, hc, hleft]
    have hop' :
        read address length d = readPieces (pieces pageSize address length) ByteArray.empty d := by
      simp only [read, hcap, hc, hright]
    apply Op.Alike.of_eq hop hop'
    exact alike_readPieces hs hb (tiles_pieces hpos address length) ByteArray.empty h

theorem alike_write (address : Nat) (data : ByteArray) (h : Beside pageSize capacity Used c d) :
    (write address data : Op (PageCache S H B) Unit).Alike (write address data) c d
      (fun _ _ c' d' => Beside pageSize capacity Used c' d')
      (fun e c' d' => allowed e ∧ Beside pageSize capacity Used c' d') := by
  have hcap : Backend.capacity d.below = Backend.capacity c.below :=
    congrArg Backend.capacity h.level.below
  have hleft : c.pageSize = pageSize := h.level.left
  have hright : d.pageSize = pageSize := h.level.right
  have hpos : 0 < pageSize := hleft ▸ c.pager.pageSize_pos
  cases hc : checkRange address data.size (Backend.capacity c.below) with
  | error e =>
    apply Op.Alike.of_error (e := e)
    · simp only [write, hc]
      rfl
    · simp only [write, hcap, hc]
      rfl
    · exact ⟨hb.checkRange hc, h⟩
  | ok _ =>
    have hop : write address data c = writePieces data (pieces pageSize address data.size) 0 c := by
      simp only [write, hc, hleft]
    have hop' :
        write address data d = writePieces data (pieces pageSize address data.size) 0 d := by
      simp only [write, hcap, hc, hright]
    apply Op.Alike.of_eq hop hop'
    exact alike_writePieces hs hb (tiles_pieces hpos address data.size) (by omega) h

theorem alike_flush (h : Beside pageSize capacity Used c d) :
    (flush : Op (PageCache S H B) Unit).Alike flush c d
      (fun _ _ c' d' => Beside pageSize capacity Used c' d')
      (fun e c' d' => allowed e ∧ Beside pageSize capacity Used c' d') := by
  obtain ⟨m, hm⟩ := h.together.ledgers
  apply (alike_onCache (fun a b _ _ => b = a) h (Recency.Cache.tracks_flushAll Pager.handler)
    (Recency.Cache.tracks_flushAll Pager.handler)
    (Ledger.alike_flushAll (Pager.alike_handler hs hb) hm)).mono
  · exact fun _ _ c' d' hr => hr.2
  · exact fun e c' d' hr => hr

theorem alike_clear (h : Beside pageSize capacity Used c d) :
    (clear : Op (PageCache S H B) Unit).Alike clear c d
      (fun _ _ c' d' => c'.cache.toList = [] ∧ Beside pageSize capacity Used c' d')
      (fun e c' d' => allowed e ∧ Beside pageSize capacity Used c' d') := by
  obtain ⟨m, hm⟩ := h.together.ledgers
  have hclear : (Ledger.clear Pager.handler).Alike (Ledger.clear Pager.handler)
      (c.cache.ledger, c.pager) (d.cache.ledger, d.pager)
      (fun a b x y => (b = a ∧ x.1.entries = []) ∧
        Ledger.Together (Pager.Beside pageSize capacity Used) x y)
      (fun e x y => allowed e ∧ Ledger.Together (Pager.Beside pageSize capacity Used) x y) := by
    apply (Ledger.alike_clear (Pager.alike_handler hs hb) hm).mono
    · rintro a b x y ⟨hab, hnil, hr⟩
      exact ⟨⟨hab, hnil⟩, hr⟩
    · exact fun e x y hr => hr
  apply (alike_onCache (fun a b x _ => b = a ∧ x.1.entries = []) h
    (Recency.Cache.tracks_clear Pager.handler)
    (Recency.Cache.tracks_clear Pager.handler) hclear).bind
  · rintro _ _ c' d' ⟨⟨-, hnil⟩, hr⟩
    exact ⟨hnil, hr⟩
  · exact fun e c' d' hr => hr

omit [PageStorage S H] [PageStorage S' H'] hs hb in
theorem alike_onBelow {op : Op B α} (h : Beside pageSize capacity Used c d)
    (hop : op.Ends c.below (fun _ _ => True) (fun e _ => allowed e)) :
    (onBelow op : Op (PageCache S H B) α).Alike (onBelow op) c d
      (fun a b c' d' => b = a ∧ Beside pageSize capacity Used c' d')
      (fun e c' d' => allowed e ∧ Beside pageSize capacity Used c' d') := by
  have hkeep : ∀ (p' : Pager S B) (q' : Pager S' B), Pager.Level pageSize p' q' →
      p'.storage = c.storage → q'.storage = d.storage →
      Beside pageSize capacity Used { c with pager := p' } { d with pager := q' } := by
    intro p' q' hl hp hq
    obtain ⟨hv, hv', m, hm⟩ := h.together
    refine ⟨⟨hv, hv', m, hm.left, hm.right, hm.nodup, ?_⟩, h.left, h.right⟩
    refine ⟨hl, hm.holds.room, hm.holds.dirty, ?_⟩
    have hu : Used _ c.storage d.storage := hm.holds.storage
    rwa [← hp, ← hq] at hu
  rcases (Pager.alike_onBelow h.level hop).cases with
    ⟨a, p', b, q', he, he', hl, hab, hp, hq, -⟩ | ⟨e, p', q', he, he', hl, hp, hq, hall⟩
  · apply Op.Alike.of_ok
    · change editBelow op c = _
      change Pager.editBelow op c.pager = _ at he
      simp only [editBelow, he]
      rfl
    · change editBelow op d = _
      change Pager.editBelow op d.pager = _ at he'
      simp only [editBelow, he']
      rfl
    · exact ⟨hab, hkeep p' q' hl hp hq⟩
  · apply Op.Alike.of_error
    · change editBelow op c = _
      change Pager.editBelow op c.pager = _ at he
      simp only [editBelow, he]
      rfl
    · change editBelow op d = _
      change Pager.editBelow op d.pager = _ at he'
      simp only [editBelow, he']
      rfl
    · exact ⟨hall, hkeep p' q' hl hp hq⟩

theorem alike_call (request : Call Upkeep) (h : Beside pageSize capacity Used c d) :
    (call request : Op (PageCache S H B) ByteArray).Alike (call request) c d
      (fun a b c' d' => b = a ∧ Beside pageSize capacity Used c' d')
      (fun e c' d' => allowed e ∧ Beside pageSize capacity Used c' d') := by
  have answer : ∀ {op : Op (PageCache S H B) Unit} {op' : Op (PageCache S' H' B) Unit}
      {ok : Unit → Unit → PageCache S H B → PageCache S' H' B → Prop},
      op.Alike op' c d ok (fun e c' d' => allowed e ∧ Beside pageSize capacity Used c' d') →
      (∀ a b c' d', ok a b c' d' → Beside pageSize capacity Used c' d') →
      (do op; return ByteArray.empty : Op (PageCache S H B) ByteArray).Alike
        (do op'; return ByteArray.empty) c d
        (fun a b c' d' => b = a ∧ Beside pageSize capacity Used c' d')
        (fun e c' d' => allowed e ∧ Beside pageSize capacity Used c' d') := by
    intro op op' ok hop hok
    apply hop.bind
    · exact fun a b c' d' hr => Op.alike_pure ⟨rfl, hok a b c' d' hr⟩
    · exact fun e c' d' hr => hr
  cases request with
  | read address length => exact alike_read hs hb address length h
  | write address data => exact answer (alike_write hs hb address data h) fun _ _ _ _ hr => hr
  | sync kind =>
    cases kind with
    | flush => exact answer (alike_flush hs hb h) fun _ _ _ _ hr => hr
    | clear => exact answer (alike_clear hs hb h) fun _ _ _ _ hr => hr.2
    | flushAll =>
      have hall : (Backend.flush : Op (PageCache S H B) Unit).Alike Backend.flush c d
          (fun a b c' d' => b = a ∧ Beside pageSize capacity Used c' d')
          (fun e c' d' => allowed e ∧ Beside pageSize capacity Used c' d') := by
        apply (alike_flush hs hb h).bind
        · exact fun _ _ c' d' h' => alike_onBelow h' (hb.flush c'.below)
        · exact fun e c' d' hr => hr
      exact answer hall fun _ _ _ _ hr => hr.2
    | shutdown =>
      have hall : (Backend.shutdown : Op (PageCache S H B) Unit).Alike Backend.shutdown c d
          (fun a b c' d' => b = a ∧ Beside pageSize capacity Used c' d')
          (fun e c' d' => allowed e ∧ Beside pageSize capacity Used c' d') := by
        apply (alike_clear hs hb h).bind
        · exact fun _ _ c' d' h' => alike_onBelow h'.2 (hb.shutdown c'.below)
        · exact fun e c' d' hr => hr
      exact answer hall fun _ _ _ _ hr => hr.2

end Calls

theorem beside_create {name name' : String}
    {storage : S} {storage' : S'} {below : B} (hu : Used [] storage storage')
    (hc : create name pageSize capacity storage below = .ok c)
    (hd : create name' pageSize capacity storage' below = .ok d) :
    Beside pageSize capacity Used c d := by
  rw [create] at hc hd
  split at hc
  · split at hc
    · rw [dif_pos ‹_›, dif_pos ‹_›] at hd
      cases hc
      cases hd
      have hempty :
          ∀ (γ : Type), (Recency.Cache.empty capacity ‹_› : Recency.Cache γ).toList = [] :=
        fun γ => (Recency.Cache.valid_empty capacity ‹_›).toList_eq
      refine ⟨⟨⟨[], Recency.Cache.valid_empty capacity _⟩,
        ⟨[], Recency.Cache.valid_empty capacity _⟩,
        ⟨[], {}⟩, ?_, ?_, List.nodup_nil, ?_⟩, rfl, rfl⟩
      · exact congrArg (Ledger.mk · {}) (hempty (Page H))
      · exact congrArg (Ledger.mk · {}) (hempty (Page H'))
      · exact ⟨⟨rfl, rfl, rfl, rfl⟩, Nat.zero_le _, fun e he => absurd he List.not_mem_nil, hu⟩
    · cases hc
  · cases hc

end PageCache

end TieredMemory
