import TieredMemory.Proofs.Page.Tower

namespace TieredMemory.Tower

variable {B : Type} [Backend B]

def Reaches {ks : List StorageKind} (t u : Tower B ks) : Prop :=
  ∃ calls, (run (call ks) calls t).2 = u

theorem Reaches.refl {ks : List StorageKind} (t : Tower B ks) : Reaches t t :=
  ⟨[], rfl⟩

theorem Reaches.next {ks : List StorageKind} {t u v : Tower B ks} {c : Call Sync} {answer : Answer}
    (h : Reaches t u) (he : call ks c u = (answer, v)) : Reaches t v := by
  obtain ⟨calls, rfl⟩ := h
  refine ⟨calls ++ [c], ?_⟩
  induction calls generalizing t with
  | nil => exact congrArg Prod.snd he
  | cons first calls ih => exact ih he

def base : (ks : List StorageKind) → Tower B ks → B
  | [], b => b
  | _ :: ks, c => base ks c.pager.below

variable [Contents B] [LawfulBackend B] {sure : Prop}

omit [Backend B] [LawfulBackend B] in
theorem size_base (ks : List StorageKind) (t : Tower B ks) :
    Contents.size t = Contents.size (base ks t) := by
  induction ks with
  | nil => rfl
  | cons k ks ih => exact ih _

theorem byteAt_base (ks : List StorageKind) {t : Tower B ks} (h : LawfulBackend.Valid sure t)
    (hc : Contents.Clean t) : Contents.byteAt (base ks t) = Contents.byteAt t := by
  induction ks with
  | nil => rfl
  | cons k ks ih =>
    have hv : PageCache.Valid (S := k.Store) (H := k.Handle) (B := Tower B ks) sure _ t := h
    exact (ih hv.coherent.below hc.2).trans (hv.byteAt_below hc.1).symm

abbrev TopValid {k : StorageKind} {ks : List StorageKind} (sure : Prop) (pageSize : Nat)
    (t : Tower B (k :: ks)) : Prop :=
  PageCache.Valid (S := k.Store) (H := k.Handle) (B := Tower B ks) sure pageSize t

variable {k : StorageKind} {ks : List StorageKind} {pageSize : Nat} {t : Tower B (k :: ks)}

theorem ends_of_not_write {c : Call Sync} (hc : ¬ c.IsWrite)
    (h : TopValid sure pageSize t) :
    (call (k :: ks) c).Ends t (fun _ u => TopValid sure pageSize u ∧ Keeps t u)
      (fun _ u => TopValid sure pageSize u ∧ Keeps t u) := by
  cases c with
  | read address length =>
    apply (PageCache.ends_read address length h).mono
    · exact fun data u hu => ⟨hu.1, hu.2.1⟩
    · exact fun e u hu => ⟨hu.1, hu.2.1⟩
  | write address data => exact absurd trivial hc
  | sync kind =>
    have htier : (flushTier (k :: ks) : Op (Tower B (k :: ks)) Unit).Ends t
        (fun _ u => TopValid sure pageSize u ∧ Keeps t u)
        (fun _ u => TopValid sure pageSize u ∧ Keeps t u ∧ ¬ sure) := by
      apply (PageCache.ends_flush h).mono
      · exact fun _ u hu => ⟨hu.1, hu.2.1⟩
      · exact fun e u hu => hu
    apply (Backend.ends_sync kind htier (PageCache.ends_flush_all h)
      (PageCache.ends_shutdown h)).mono
    · exact fun answer u hu => hu.2
    · exact fun e u hu => ⟨hu.1, hu.2.1⟩

theorem ends_write_top (address : Nat) (data : ByteArray)
    (h : TopValid sure pageSize t) :
    (call (k :: ks) (.write address data)).Ends t
      (fun _ u => TopValid sure pageSize u ∧ Writes address data data.size t u)
      (fun _ u => TopValid sure pageSize u ∧
        ∃ n ≤ data.size, (n = 0 ∨ pageSize ∣ address + n) ∧ Writes address data n t u) := by
  apply ((PageCache.ends_write address data h).answer ByteArray.empty).mono
  · exact fun answer u hu => ⟨hu.2.1, hu.2.2.2⟩
  · exact fun e u hu => ⟨hu.1, hu.2.1⟩

theorem ends_flush_base
    (h : TopValid sure pageSize t) :
    (call (k :: ks) (.sync .flush)).Ends t
      (fun _ u => Contents.size (base (k :: ks) u) = Contents.size t ∧
        Contents.byteAt (base (k :: ks) u) = Contents.byteAt t)
      (fun _ _ => ¬ sure) := by
  apply ((PageCache.ends_flush_all h).answer ByteArray.empty).mono
  · rintro answer u ⟨-, hv, hk, hc⟩
    constructor
    · exact (size_base (k :: ks) u).symm.trans hk.size
    · exact (byteAt_base (k :: ks) hv.self hc).trans hk.bytes
  · exact fun e u hu => hu.2.2

structure Spares (sure : Prop) (pageSize : Nat) (c : Call Sync) (t u : Tower B (k :: ks)) :
    Prop where
  valid : TopValid sure pageSize u
  size : Contents.size u = Contents.size t
  bytes : ∀ i, ¬ c.Covers i → Contents.byteAt u i = Contents.byteAt t i

theorem spares_call (c : Call Sync)
    (h : TopValid sure pageSize t) :
    Spares sure pageSize c t (call (k :: ks) c t).2 := by
  apply Op.Ends.always (P := Spares sure pageSize c t)
  by_cases hc : c.IsWrite
  · cases c with
    | write address data =>
      apply (ends_write_top address data h).mono
      · rintro answer u ⟨hv, hw⟩
        exact ⟨hv, hw.size, fun i hi => hw.byteAt_of_outside (Nat.le_refl _) hi⟩
      · rintro e u ⟨hv, n, hn, -, hw⟩
        exact ⟨hv, hw.size, fun i hi => hw.byteAt_of_outside hn hi⟩
    | read address length => exact hc.elim
    | sync kind => exact hc.elim
  · apply (ends_of_not_write hc h).mono
    · exact fun answer u hu => ⟨hu.1, hu.2.size, fun i _ => congrFun hu.2.bytes i⟩
    · exact fun e u hu => ⟨hu.1, hu.2.size, fun i _ => congrFun hu.2.bytes i⟩

theorem valid_of_reaches {u : Tower B (k :: ks)} (hr : Reaches t u)
    (h : TopValid sure pageSize t) :
    TopValid sure pageSize u ∧
      Contents.size u = Contents.size t := by
  obtain ⟨calls, rfl⟩ := hr
  apply run_invariant (P := fun u => TopValid sure pageSize u ∧ Contents.size u = Contents.size t)
  · rintro c u ⟨hv, hs⟩
    have hc := spares_call c hv
    exact ⟨hc.valid, hc.size.trans hs⟩
  · exact ⟨h, rfl⟩

theorem byteAt_run {calls : List (Call Sync)} {i : Nat} (hc : ∀ c ∈ calls, ¬ c.Covers i)
    (h : TopValid sure pageSize t) :
    Contents.byteAt (run (call (k :: ks)) calls t).2 i = Contents.byteAt t i := by
  induction calls generalizing t with
  | nil => rfl
  | cons c calls ih =>
    obtain ⟨hhead, htail⟩ := List.forall_mem_cons.mp hc
    have hs := spares_call c h
    exact (ih htail hs.valid).trans (hs.bytes i hhead)

/-- Whatever call fails, and when: in every state that a stack can get into, only a write changes
its bytes, one that fails has put a prefix in place that is empty or ends where a page ends, and a
flush that succeeds brings all bytes down to the store at the bottom. -/
theorem failures_lose_nothing {top : TierPlan} {plans : List TierPlan} {gate : Gate B}
    {t s : Tower (Gate B) ((top :: plans).map TierPlan.kind)}
    (hb : LawfulBackend.Valid False gate.inner) (hg : gate.unbounded = false)
    (ht : build (top :: plans) gate = .ok t) (hs : Reaches t s) :
    Contents.byteAt t = Contents.byteAt gate.inner ∧
    (∀ c, ¬ c.IsWrite → Contents.byteAt (call _ c s).2 = Contents.byteAt s) ∧
    (∀ address data, (call _ (.write address data)).Ends s
      (fun _ u => Contents.byteAt u = Bytes.overlay address data (Contents.byteAt s))
      (fun _ u => ∃ n ≤ data.size, (n = 0 ∨ top.pageSize ∣ address + n) ∧
        Contents.byteAt u =
          Bytes.overlay address (Bytes.slice data 0 n) (Contents.byteAt s))) ∧
    (∀ address data answer u calls i, call _ (.write address data) s = (.ok answer, u) →
      address ≤ i → i < address + data.size → (∀ c ∈ calls, ¬ c.Covers i) →
      Contents.byteAt (run (call _) calls u).2 i = Bytes.byteAt data (i - address)) ∧
    (∀ answer u, call _ (.sync .flush) s = (.ok answer, u) →
      Contents.size (base _ u).inner = Contents.size gate.inner ∧
      Contents.byteAt (base _ u).inner = Contents.byteAt s) := by
  obtain ⟨below, hbelow, htop⟩ := build_cons ht
  -- nothing is promised to succeed, so the plans need no room and the schedules no restraint
  have hgate : LawfulBackend.Valid False gate := Gate.Valid.mk hb hg False.elim
  obtain ⟨hvb, hsizeb, hbytesb⟩ := lawful_build hgate False.elim hbelow
  have hfresh := top.fresh_raise hvb False.elim htop
  obtain ⟨hv, hsize⟩ := valid_of_reaches hs hfresh.valid
  refine ⟨hfresh.bytes.trans hbytesb, ?_, ?_, ?_, ?_⟩
  · intro c hc
    apply Op.Ends.always (P := fun u => Contents.byteAt u = Contents.byteAt s)
    apply (ends_of_not_write hc hv).mono
    · exact fun answer u hu => hu.2.bytes
    · exact fun e u hu => hu.2.bytes
  · intro address data
    apply (ends_write_top address data hv).mono
    · rintro answer u ⟨-, hw⟩
      rw [hw.bytes, Bytes.slice_zero_size]
    · rintro e u ⟨-, n, hn, hend, hw⟩
      exact ⟨n, hn, hend, hw.bytes⟩
  · intro address data answer u calls i he hl hr hc
    obtain ⟨hvu, hw⟩ := (ends_write_top address data hv).ok_of_eq he
    refine (byteAt_run hc hvu).trans ?_
    rw [hw.bytes, Bytes.slice_zero_size, Bytes.overlay, if_pos ⟨hl, hr⟩]
  · intro answer u he
    obtain ⟨hsizeu, hbytesu⟩ := (ends_flush_base hv).ok_of_eq he
    exact ⟨hsizeu.trans (hsize.trans (hfresh.size.trans hsizeb)), hbytesu⟩

/-- A write that is refused on its way into the next page and a flush that is refused, after a write
that went well and before a flush that goes well. -/
theorem failures_lose_nothing_two_tiers :
    let gate : Gate FlatMemory := { inner := .ofSize 11, onWrite := .burst 0 2 }
    let act : Call Sync → Op (Tower (Gate FlatMemory) [.heap, .emulated]) ByteArray := call _
    ∃ t s u v w, build twoTiers gate = .ok t ∧
      act (.write 0 ⟨#[7]⟩) t = (.ok .empty, s) ∧
      act (.write 2 ⟨#[1, 2, 3]⟩) s = (.error (Gate.refusal "write"), u) ∧
      act (.sync .flush) u = (.error (Gate.refusal "write"), v) ∧
      act (.sync .flush) v = (.ok .empty, w) ∧
      (∃ n ≤ 3, (n = 0 ∨ 4 ∣ 2 + n) ∧
        Contents.byteAt u = Bytes.overlay 2 (Bytes.slice ⟨#[1, 2, 3]⟩ 0 n) (Contents.byteAt s)) ∧
      Contents.byteAt v = Contents.byteAt u ∧ Contents.byteAt w 0 = 7 ∧
      Contents.byteAt (base _ w).inner = Contents.byteAt v := by
  intro gate act
  obtain ⟨t, ht, hanswers⟩ : ∃ t, build twoTiers gate = .ok t ∧
      (run act [.write 0 ⟨#[7]⟩, .write 2 ⟨#[1, 2, 3]⟩, .sync .flush, .sync .flush] t).1 =
        [.ok .empty, .error (Gate.refusal "write"), .error (Gate.refusal "write"), .ok .empty] :=
    ⟨_, rfl, by decide +kernel⟩
  rcases hs : act (.write 0 ⟨#[7]⟩) t with ⟨first, s⟩
  rcases hu : act (.write 2 ⟨#[1, 2, 3]⟩) s with ⟨second, u⟩
  rcases hv : act (.sync .flush) u with ⟨third, v⟩
  rcases hw : act (.sync .flush) v with ⟨fourth, w⟩
  simp only [run, hs, hu, hv, hw, List.cons.injEq, and_true] at hanswers
  obtain ⟨rfl, rfl, rfl, rfl⟩ := hanswers
  have hts : Reaches t s := (Reaches.refl t).next hs
  have htu : Reaches t u := hts.next hu
  have htv : Reaches t v := htu.next hv
  have hlose : ∀ r, Reaches t r → _ := fun r hr => failures_lose_nothing trivial rfl ht hr
  obtain ⟨-, -, -, hkept, -⟩ := hlose t (.refl t)
  obtain ⟨-, -, hwrite, -⟩ := hlose s hts
  obtain ⟨-, hsame, -⟩ := hlose u htu
  obtain ⟨-, -, -, -, hflush⟩ := hlose v htv
  refine ⟨t, s, u, v, w, ht, hs, hu, hv, hw, ?_, ?_, ?_, (hflush _ w hw).2⟩
  · exact (hwrite 2 ⟨#[1, 2, 3]⟩).error_of_eq hu
  · exact (congrArg (fun r => Contents.byteAt r.2) hv).symm.trans (hsame (.sync .flush) id)
  · have hrun : (run act [.write 2 ⟨#[1, 2, 3]⟩, .sync .flush, .sync .flush] s).2 = w := by
      simp only [run, hu, hv, hw]
    have hbyte := hkept 0 ⟨#[7]⟩ _ s [.write 2 ⟨#[1, 2, 3]⟩, .sync .flush, .sync .flush] 0 hs
      (by decide) (by decide) (by simp [Call.Covers])
    exact (congrArg (Contents.byteAt · 0) hrun).symm.trans hbyte

end TieredMemory.Tower
