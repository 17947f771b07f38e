import TieredMemory.Operation

/-!
What an operation answers and what it leaves behind, in success and in failure.
-/

namespace TieredMemory.Op

variable {σ α β : Type}

/-- From `s`, a success of `op` and its state satisfy `ok`, a failure and its state `bad`. -/
def Ends (op : Op σ α) (s : σ) (ok : α → σ → Prop) (bad : Error → σ → Prop) : Prop :=
  match op s with
  | (.ok a, t) => ok a t
  | (.error e, t) => bad e t

variable {op : Op σ α} {s : σ} {ok ok' : α → σ → Prop} {bad bad' : Error → σ → Prop}

theorem Ends.of_ok {a : α} {t : σ} (h : op s = (.ok a, t)) (ha : ok a t) : op.Ends s ok bad := by
  rw [Ends, h]
  exact ha

theorem Ends.of_error {e : Error} {t : σ} (h : op s = (.error e, t)) (he : bad e t) :
    op.Ends s ok bad := by
  rw [Ends, h]
  exact he

theorem Ends.ok_of_eq {a : α} {t : σ} (h : op.Ends s ok bad) (he : op s = (.ok a, t)) : ok a t := by
  rw [Ends, he] at h
  exact h

theorem Ends.error_of_eq {e : Error} {t : σ} (h : op.Ends s ok bad) (he : op s = (.error e, t)) :
    bad e t := by
  rw [Ends, he] at h
  exact h

theorem Ends.cases (h : op.Ends s ok bad) :
    (∃ a t, op s = (.ok a, t) ∧ ok a t) ∨ (∃ e t, op s = (.error e, t) ∧ bad e t) := by
  rcases he : op s with ⟨_ | _, t⟩
  · exact .inr ⟨_, t, rfl, h.error_of_eq he⟩
  · exact .inl ⟨_, t, rfl, h.ok_of_eq he⟩

theorem Ends.mono (h : op.Ends s ok bad) (hok : ∀ a t, ok a t → ok' a t)
    (hbad : ∀ e t, bad e t → bad' e t) : op.Ends s ok' bad' := by
  rcases h.cases with ⟨a, t, he, ha⟩ | ⟨e, t, he, hb⟩
  · exact .of_ok he (hok a t ha)
  · exact .of_error he (hbad e t hb)

theorem Ends.and (h : op.Ends s ok bad) (h' : op.Ends s ok' bad') :
    op.Ends s (fun a t => ok a t ∧ ok' a t) fun e t => bad e t ∧ bad' e t := by
  rcases h.cases with ⟨a, t, he, ha⟩ | ⟨e, t, he, hb⟩
  · exact .of_ok he ⟨ha, h'.ok_of_eq he⟩
  · exact .of_error he ⟨hb, h'.error_of_eq he⟩

theorem ends_true (op : Op σ α) (s : σ) : op.Ends s (fun _ _ => True) fun _ _ => True := by
  rcases he : op s with ⟨e | a, t⟩
  · exact .of_error he trivial
  · exact .of_ok he trivial

theorem ends_self (op : Op σ α) (s : σ) :
    op.Ends s (fun a t => op s = (.ok a, t)) (fun e t => op s = (.error e, t)) := by
  rcases he : op s with ⟨e | a, t⟩
  · exact .of_error he rfl
  · exact .of_ok he rfl

theorem Ends.always {P : σ → Prop} (h : op.Ends s (fun _ t => P t) fun _ t => P t) :
    P (op s).2 := by
  rcases h.cases with ⟨a, t, he, hp⟩ | ⟨e, t, he, hp⟩
  · rwa [he]
  · rwa [he]

theorem ends_of_state {P : σ → Prop} (h : P (op s).2) :
    op.Ends s (fun _ t => P t) fun e t => (op s).1 = .error e ∧ P t := by
  rcases he : op s with ⟨e | a, t⟩
  · rw [he] at h
    exact .of_error he ⟨rfl, h⟩
  · rw [he] at h
    exact .of_ok he h

theorem Ends.bind {f : α → Op σ β} {ok' : β → σ → Prop} (h : op.Ends s ok bad)
    (hf : ∀ a t, ok a t → (f a).Ends t ok' bad') (hbad : ∀ e t, bad e t → bad' e t) :
    (op >>= f).Ends s ok' bad' := by
  rcases h.cases with ⟨a, t, he, ha⟩ | ⟨e, t, he, hb⟩
  · rw [Ends, bind_apply_ok he]
    exact hf a t ha
  · exact .of_error (bind_apply_error he) (hbad e t hb)

theorem Ends.answer {op : Op σ Unit} {ok : σ → Prop} (h : op.Ends s (fun _ t => ok t) bad) (a : α) :
    (do op; return a : Op σ α).Ends s (fun b t => b = a ∧ ok t) bad := by
  apply h.bind
  · exact fun _ t ht => ⟨rfl, ht⟩
  · exact fun e t ht => ht

theorem state_answer (op : Op σ α) (f : α → β) (s : σ) :
    ((do let a ← op; return f a : Op σ β) s).2 = (op s).2 := by
  rcases he : op s with ⟨e | a, t⟩
  · rw [bind_apply_error he]
  · rw [bind_apply_ok he]
    rfl

theorem ends_pure {a : α} (h : ok a s) : (pure a : Op σ α).Ends s ok bad := h

end TieredMemory.Op
