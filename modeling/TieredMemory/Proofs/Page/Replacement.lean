import TieredMemory.Proofs.Page.Coherence

namespace TieredMemory.Recency.Ledger

open Residents

variable {S H B α : Type} [PageStorage S H] [PageContents S H] [LawfulStorage S H]
variable [Backend B] [Contents B] [LawfulBackend B]
variable {sure : Prop} {pageSize count : Nat} {l : Ledger (Page H)} {p : Pager S B}

def residents (t : Ledger (Page H) × Pager S B) : Residents S H B := (t.1.entries, t.2)

theorem ends_evictLoop (n done : Nat) (h : Coherent sure pageSize count (residents (l, p))) :
    (evictLoop Pager.handler n done).Ends (l, p)
      (fun _ t =>
        Coherent sure pageSize count (residents t) ∧ Keeps (residents (l, p)) (residents t) ∧
        t.1.entries.length = l.entries.length - n)
      (fun _ t =>
        Coherent sure pageSize count (residents t) ∧ Keeps (residents (l, p)) (residents t) ∧
        t.1.entries.length ≤ l.entries.length ∧ ¬ sure) := by
  induction n generalizing l p done with
  | zero => exact ⟨h, .refl _, rfl⟩
  | succ n ih =>
    rcases List.eq_nil_or_concat' l.entries with hnil | ⟨rest, ⟨number, page⟩, hl⟩
    · apply Op.Ends.of_ok (a := done) (t := (l, p))
      · simp only [evictLoop, hnil, List.getLast?_nil]
      · refine ⟨h, .refl _, ?_⟩
        rw [hnil, List.length_nil, Nat.zero_sub]
    · have hlen : l.entries.length = rest.length + 1 := by
        rw [hl, List.length_append, List.length_singleton]
      have hperm : ∀ q : Page H, (rest ++ [(number, q)]).Perm ((number, q) :: rest) :=
        fun q => List.perm_append_singleton _ _
      have hmove : l.entries.Perm ((number, page) :: rest) := hl ▸ hperm page
      obtain ⟨hfront, hkeep⟩ := Coherent.perm h hmove
      rcases (Pager.ends_flush hfront).cases with
        ⟨_, ⟨q, t⟩, he, hc, hk, hd⟩ | ⟨e, ⟨q, t⟩, he, hc, hk, hn⟩
      · rcases (Pager.ends_release hc hd).cases with ⟨_, u, her, hcr, hkr⟩ | ⟨_, _, -, hf⟩
        · have hop := evictLoop_of_flushed (h := Pager.handler) n done hl he her
          have hkeeps : Keeps (residents (l, p)) (rest, u) := (hkeep.trans hk).trans hkr
          rw [Op.Ends, hop]
          apply (ih (done + 1)
            (l := ⟨rest, { l.lookups with evictions := l.lookups.evictions + 1 }⟩)
            hcr).mono
          · rintro _ v ⟨hcv, hkv, hv⟩
            refine ⟨hcv, hkeeps.trans hkv, ?_⟩
            rw [hv, hlen, Nat.add_sub_add_right]
          · rintro e v ⟨hcv, hkv, hv, hn⟩
            refine ⟨hcv, hkeeps.trans hkv, ?_, hn⟩
            rw [hlen]
            exact Nat.le_succ_of_le hv
        · exact hf.elim
      · obtain ⟨hback, hkback⟩ := hc.perm (hperm q).symm
        apply Op.Ends.of_error (evictLoop_of_flush_error (h := Pager.handler) hl he)
        refine ⟨hback, (hkeep.trans hk).trans hkback, ?_, hn⟩
        apply Nat.le_of_eq
        rw [hlen, List.length_append, List.length_singleton]

theorem ends_access {number : Nat} {use : Op (Page H × Pager S B) α}
    {ok : α → Residents S H B → Prop} {bad : Error → Residents S H B → Prop}
    (h : Coherent sure pageSize count (residents (l, p))) (hlen : l.entries.length ≤ count)
    (hroom : number ∉ l.entries.map Prod.fst → l.entries.length < count)
    (huse : ∀ page rest t, Coherent sure pageSize count ((number, page) :: rest, t) →
      Keeps (residents (l, p)) ((number, page) :: rest, t) →
      use.Ends (page, t)
        (fun a u => Coherent sure pageSize count ((number, u.1) :: rest, u.2) ∧
          ok a ((number, u.1) :: rest, u.2))
        (fun e u => Coherent sure pageSize count ((number, u.1) :: rest, u.2) ∧
          bad e ((number, u.1) :: rest, u.2)))
    (hbad : ∀ e t, Keeps (residents (l, p)) t → ¬ sure → bad e t) :
    (access Pager.handler number use).Ends (l, p)
      (fun a t => Coherent sure pageSize count (residents t) ∧ t.1.entries.length ≤ count ∧
        ok a (residents t))
      (fun e t => Coherent sure pageSize count (residents t) ∧ t.1.entries.length ≤ count ∧
        bad e (residents t)) := by
  cases hl : l.entries.lookup number with
  | some page =>
    have hperm : l.entries.Perm ((number, page) :: without number l.entries) :=
      perm_without h.nodup hl
    obtain ⟨hfront, hkeep⟩ := Coherent.perm h hperm
    have hcount : (without number l.entries).length + 1 ≤ count := by
      rw [hperm.length_eq, List.length_cons] at hlen
      exact hlen
    rcases (huse page _ p hfront hkeep).cases with ⟨a, ⟨q, t⟩, he, hc, ha⟩ | ⟨e, ⟨q, t⟩, he, hc, hb⟩
    · apply Op.Ends.of_ok (a := a)
      · simp only [access, hl, he]
        rfl
      · exact ⟨hc, hcount, ha⟩
    · apply Op.Ends.of_error (e := e)
      · simp only [access, hl, he]
        rfl
      · exact ⟨hc, hcount, hb⟩
  | none =>
    have hnew := lookup_eq_none_iff_notMem.mp hl
    rcases (Pager.ends_fault h hnew).cases with ⟨page, t, he, -, hc, hk⟩ | ⟨e, t, he, hc, hk, hn⟩
    · rcases (huse page _ t hc hk).cases with ⟨a, ⟨q, u⟩, heu, hu, ha⟩ | ⟨e, ⟨q, u⟩, heu, hu, hb⟩
      · apply Op.Ends.of_ok (a := a)
        · simp only [access, hl, Pager.handler, he, heu]
          rfl
        · exact ⟨hu, hroom hnew, ha⟩
      · apply Op.Ends.of_error (e := e)
        · simp only [access, hl, Pager.handler, he, heu]
          rfl
        · exact ⟨hu, hroom hnew, hb⟩
    · apply Op.Ends.of_error (e := e)
      · simp only [access, hl, Pager.handler, he]
        rfl
      · exact ⟨hc, hlen, hbad e _ hk fun hx => hn ⟨hx, hroom hnew⟩⟩

theorem flushEach_coherent {done entries : List (Nat × Page H)}
    (h : Coherent sure pageSize count (done ++ entries, p)) :
    ∃ r flushed t, flushEach Pager.handler entries p = (r, flushed, t) ∧
      Coherent sure pageSize count (done ++ flushed, t) ∧
      Keeps ((done ++ entries, p) : Residents S H B) (done ++ flushed, t) ∧
      flushed.length = entries.length ∧ ((r = .ok () ∧ ∀ e ∈ flushed, e.2.dirty = none) ∨
        ∃ e, r = .error e ∧ ¬ sure) := by
  induction entries generalizing done p with
  | nil => exact ⟨.ok (), [], p, rfl, h, .refl _, rfl, .inl ⟨rfl, by simp⟩⟩
  | cons entry entries ih =>
    obtain ⟨number, page⟩ := entry
    obtain ⟨hfront, hkeep⟩ := h.perm List.perm_middle
    rcases (Pager.ends_flush hfront).cases with
      ⟨_, ⟨q, t⟩, he, hc, hk, hd⟩ | ⟨e, ⟨q, t⟩, he, hc, hk, hn⟩
    · have hmove : ((number, q) :: (done ++ entries)).Perm (done ++ [(number, q)] ++ entries) := by
        rw [List.append_assoc]
        exact List.perm_middle.symm
      obtain ⟨hback, hkback⟩ := hc.perm hmove
      obtain ⟨r, flushed, u, heu, hcu, hku, hlen, hr⟩ := ih hback
      have hkeeps := ((hkeep.trans hk).trans hkback).trans hku
      rw [List.append_assoc] at hcu hkeeps
      refine ⟨r, (number, q) :: flushed, u, ?_, hcu, hkeeps, congrArg (· + 1) hlen, ?_⟩
      · simp only [flushEach, Pager.handler, he]
        simp only [Pager.handler] at heu
        rw [heu]
      · rcases hr with ⟨rfl, hclean⟩ | hr
        · exact .inl ⟨rfl, List.forall_mem_cons.mpr ⟨hd, hclean⟩⟩
        · exact .inr hr
    · obtain ⟨hback, hkback⟩ := hc.perm List.perm_middle.symm
      refine ⟨.error e, (number, q) :: entries, t, ?_, hback, (hkeep.trans hk).trans hkback, rfl,
        .inr ⟨e, rfl, hn⟩⟩
      simp only [flushEach, Pager.handler, he]

theorem ends_flushAll (h : Coherent sure pageSize count (residents (l, p))) :
    (flushAll Pager.handler).Ends (l, p)
      (fun _ t =>
        Coherent sure pageSize count (residents t) ∧ Keeps (residents (l, p)) (residents t) ∧
        t.1.entries.length = l.entries.length ∧ ∀ e ∈ t.1.entries, e.2.dirty = none)
      (fun _ t =>
        Coherent sure pageSize count (residents t) ∧ Keeps (residents (l, p)) (residents t) ∧
        t.1.entries.length = l.entries.length ∧ ¬ sure) := by
  have hall : Coherent sure pageSize count ([] ++ l.entries, p) := h
  obtain ⟨r, flushed, t, he, hc, hk, hlen, hr⟩ := flushEach_coherent hall
  have hop : flushAll Pager.handler (l, p) = (r, ⟨flushed, l.lookups⟩, t) := by
    simp only [flushAll, he]
  rcases hr with ⟨rfl, hclean⟩ | ⟨e, rfl, hn⟩
  · exact .of_ok hop ⟨hc, hk, hlen, hclean⟩
  · exact .of_error hop ⟨hc, hk, hlen, hn⟩

end TieredMemory.Recency.Ledger
