import TieredMemory.Proofs.Outcome

/-!
Two operations side by side, each on a state of its own.
-/

namespace TieredMemory.Op

variable {σ τ α β γ δ : Type}

/-- From `s` and `t`, both operations succeed and `ok` holds of what they answer and leave, or both
fail for one cause and `bad` holds of what they leave. -/
def Alike (op : Op σ α) (op' : Op τ β) (s : σ) (t : τ) (ok : α → β → σ → τ → Prop)
    (bad : Error → σ → τ → Prop) : Prop :=
  match op s, op' t with
  | (.ok a, s'), (.ok b, t') => ok a b s' t'
  | (.error e, s'), (.error e', t') => e' = e ∧ bad e s' t'
  | _, _ => False

variable {op : Op σ α} {op' : Op τ β} {s s' : σ} {t t' : τ}
variable {ok ok' : α → β → σ → τ → Prop} {bad bad' : Error → σ → τ → Prop}

theorem Alike.of_ok {a : α} {b : β} (h : op s = (.ok a, s')) (h' : op' t = (.ok b, t'))
    (hok : ok a b s' t') : op.Alike op' s t ok bad := by
  rw [Alike, h, h']
  exact hok

theorem Alike.of_error {e : Error} (h : op s = (.error e, s')) (h' : op' t = (.error e, t'))
    (hbad : bad e s' t') : op.Alike op' s t ok bad := by
  rw [Alike, h, h']
  exact ⟨rfl, hbad⟩

theorem Alike.of_eq {op₁ : Op σ α} {op₁' : Op τ β} {s₁ : σ} {t₁ : τ} (h : op s = op₁ s₁)
    (h' : op' t = op₁' t₁) (h₁ : op₁.Alike op₁' s₁ t₁ ok bad) : op.Alike op' s t ok bad := by
  rw [Alike, h, h']
  exact h₁

theorem Alike.cases (h : op.Alike op' s t ok bad) :
    (∃ a s' b t', op s = (.ok a, s') ∧ op' t = (.ok b, t') ∧ ok a b s' t') ∨
    (∃ e s' t', op s = (.error e, s') ∧ op' t = (.error e, t') ∧ bad e s' t') := by
  rcases hs : op s with ⟨e | a, s'⟩ <;> rcases ht : op' t with ⟨e' | b, t'⟩ <;>
    rw [Alike, hs, ht] at h
  · obtain ⟨rfl, hbad⟩ := h
    exact .inr ⟨_, _, _, rfl, rfl, hbad⟩
  · exact h.elim
  · exact h.elim
  · exact .inl ⟨_, _, _, _, rfl, rfl, h⟩

theorem Alike.mono (h : op.Alike op' s t ok bad) (hok : ∀ a b s' t', ok a b s' t' → ok' a b s' t')
    (hbad : ∀ e s' t', bad e s' t' → bad' e s' t') : op.Alike op' s t ok' bad' := by
  rcases h.cases with ⟨a, s', b, t', hs, ht, hr⟩ | ⟨e, s', t', hs, ht, hr⟩
  · exact .of_ok hs ht (hok a b s' t' hr)
  · exact .of_error hs ht (hbad e s' t' hr)

theorem Alike.bind {f : α → Op σ γ} {f' : β → Op τ δ} {ok' : γ → δ → σ → τ → Prop}
    (h : op.Alike op' s t ok bad)
    (hf : ∀ a b s' t', ok a b s' t' → (f a).Alike (f' b) s' t' ok' bad')
    (hbad : ∀ e s' t', bad e s' t' → bad' e s' t') :
    (op >>= f).Alike (op' >>= f') s t ok' bad' := by
  rcases h.cases with ⟨a, s', b, t', hs, ht, hr⟩ | ⟨e, s', t', hs, ht, hr⟩
  · rw [Alike, bind_apply_ok hs, bind_apply_ok ht]
    exact hf a b s' t' hr
  · exact .of_error (bind_apply_error hs) (bind_apply_error ht) (hbad e s' t' hr)

theorem alike_pure {a : α} {b : β} (h : ok a b s t) :
    (pure a : Op σ α).Alike (pure b : Op τ β) s t ok bad := h

theorem Alike.of_ends {ok : α → σ → Prop} {ok' : β → τ → Prop} {no : Error → σ → Prop}
    {no' : Error → τ → Prop} (h : op.Ends s ok no) (h' : op'.Ends t ok' no')
    (hno : ∀ e s', ¬ no e s') (hno' : ∀ e t', ¬ no' e t') :
    op.Alike op' s t (fun a b s' t' => ok a s' ∧ ok' b t') bad := by
  rcases h.cases with ⟨a, s', hs, hr⟩ | ⟨e, s', -, hr⟩
  · rcases h'.cases with ⟨b, t', ht, hr'⟩ | ⟨e, t', -, hr'⟩
    · exact .of_ok hs ht ⟨hr, hr'⟩
    · exact absurd hr' (hno' e t')
  · exact absurd hr (hno e s')

theorem Alike.always {op' : Op τ α} {P : σ → τ → Prop}
    (h : op.Alike op' s t (fun a b s' t' => b = a ∧ P s' t') fun _ s' t' => P s' t') :
    (op' t).1 = (op s).1 ∧ P (op s).2 (op' t).2 := by
  rcases h.cases with ⟨a, s', b, t', hs, ht, rfl, hr⟩ | ⟨e, s', t', hs, ht, hr⟩
  · rw [hs, ht]
    exact ⟨rfl, hr⟩
  · rw [hs, ht]
    exact ⟨rfl, hr⟩

end TieredMemory.Op
