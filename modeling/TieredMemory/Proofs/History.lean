import TieredMemory.Operation

/-!
What a client sees of a run of calls: each call with its answer and the states around it.
-/

namespace TieredMemory

structure Step (γ α σ : Type) where
  call : γ
  answer : Except Error α
  before : σ
  after : σ

namespace Op

variable {γ α σ : Type} {act : γ → Op σ α}

def history (act : γ → Op σ α) : List γ → σ → List (Step γ α σ)
  | [], _ => []
  | call :: calls, s =>
    ⟨call, (act call s).1, s, (act call s).2⟩ :: history act calls (act call s).2

theorem map_call_history (act : γ → Op σ α) (calls : List γ) (s : σ) :
    (history act calls s).map (·.call) = calls := by
  induction calls generalizing s with
  | nil => rfl
  | cons call calls ih => rw [history, List.map_cons, ih]

theorem forall_mem_history {P : σ → Prop} {Q : Step γ α σ → Prop}
    (h : ∀ call s, P s → P (act call s).2 ∧ Q ⟨call, (act call s).1, s, (act call s).2⟩)
    (calls : List γ) {s : σ} (hs : P s) : ∀ step ∈ history act calls s, Q step := by
  induction calls generalizing s with
  | nil =>
    intro step hm
    cases hm
  | cons call calls ih =>
    obtain ⟨hp, hq⟩ := h call s hs
    exact List.forall_mem_cons.mpr ⟨hq, ih hp⟩

theorem map_history_eq {τ β δ : Type} {model : γ → Op τ β} {R : σ → τ → Prop}
    {view : Step γ α σ → δ} {modelView : Step γ β τ → δ}
    (h : ∀ call s t, R s t →
      view ⟨call, (act call s).1, s, (act call s).2⟩ =
        modelView ⟨call, (model call t).1, t, (model call t).2⟩ ∧
      R (act call s).2 (model call t).2)
    (calls : List γ) {s : σ} {t : τ} (hr : R s t) :
    (history act calls s).map view = (history model calls t).map modelView := by
  induction calls generalizing s t with
  | nil => rfl
  | cons call calls ih =>
    obtain ⟨hv, hnext⟩ := h call s t hr
    simp only [history, List.map_cons, hv, ih hnext]

theorem answers_of_kept {τ : Type} {model : γ → Op τ α} {R : σ → τ → Prop}
    {dropped : Step γ α σ → Bool}
    (h : ∀ call s t, R s t →
      (dropped ⟨call, (act call s).1, s, (act call s).2⟩ = true ∧ R (act call s).2 t) ∨
      (dropped ⟨call, (act call s).1, s, (act call s).2⟩ = false ∧
        (act call s).1 = (model call t).1 ∧ R (act call s).2 (model call t).2))
    (calls : List γ) {s : σ} {t : τ} (hr : R s t) :
    ((history act calls s).filter (!dropped ·)).map (·.answer) =
      (history model (((history act calls s).filter (!dropped ·)).map (·.call)) t).map
        (·.answer) := by
  induction calls generalizing s t with
  | nil => rfl
  | cons call calls ih =>
    rcases h call s t hr with ⟨hd, hnext⟩ | ⟨hd, ha, hnext⟩
    · rw [history, List.filter_cons_of_neg (by simp [hd])]
      exact ih hnext
    · rw [history, List.filter_cons_of_pos (by simp [hd])]
      simp only [List.map_cons, history, ha, ih hnext]

def inOrder (act : γ → Op σ Unit) : List γ → Op σ Unit
  | [] => pure ()
  | call :: calls => do
    act call
    inOrder act calls

def attempt (act : γ → Op σ Unit) : List γ → σ → List (Step γ Unit σ)
  | [], _ => []
  | call :: calls, s =>
    match act call s with
    | (.error e, t) => [⟨call, .error e, s, t⟩]
    | (.ok (), t) => ⟨call, .ok (), s, t⟩ :: attempt act calls t

inductive Runs (act : γ → Op σ α) : σ → List (Step γ α σ) → σ → Prop
  | nil (s : σ) : Runs act s [] s
  | cons {s t u : σ} {call : γ} {answer : Except Error α} {steps : List (Step γ α σ)}
    (he : act call s = (answer, t)) (h : Runs act t steps u) :
    Runs act s (⟨call, answer, s, t⟩ :: steps) u

theorem Runs.append {s t u : σ} {steps steps' : List (Step γ α σ)} (h : Runs act s steps t)
    (h' : Runs act t steps' u) : Runs act s (steps ++ steps') u := by
  induction h with
  | nil s => exact h'
  | cons he _ ih => exact .cons he (ih h')

theorem Runs.always {P : σ → Prop} {Q : γ → Prop} {s t : σ} {steps : List (Step γ α σ)}
    (h : Runs act s steps t) (hq : ∀ step ∈ steps, Q step.call)
    (hstep : ∀ call s, Q call → P s → P (act call s).2) (hs : P s) : P t := by
  induction h with
  | nil s => exact hs
  | cons he _ ih =>
    obtain ⟨hcall, hcalls⟩ := List.forall_mem_cons.mp hq
    have := hstep _ _ hcall hs
    rw [he] at this
    exact ih hcalls this

theorem Runs.states {P : σ → Prop} {s t : σ} {steps : List (Step γ α σ)} (h : Runs act s steps t)
    (hstep : ∀ call s, P s → P (act call s).2) (hs : P s) :
    ∀ step ∈ steps, P step.before ∧ P step.after := by
  induction h with
  | nil s => exact fun _ hm => absurd hm List.not_mem_nil
  | @cons s t _ call _ _ he _ ih =>
    have hnext := hstep call s hs
    rw [he] at hnext
    exact List.forall_mem_cons.mpr ⟨⟨hs, hnext⟩, ih hnext⟩

theorem Runs.split {P : List (Step γ α σ) → σ → Prop} {Q : γ → Prop} {s t : σ}
    {steps : List (Step γ α σ)} (h : Runs act s steps t) (hq : ∀ step ∈ steps, Q step.call)
    (hs : P [] s)
    (hstep : ∀ past call s answer t, Q call → act call s = (answer, t) → P past s →
      P (past ++ [⟨call, answer, s, t⟩]) t)
    {pre post : List (Step γ α σ)} {step : Step γ α σ} (hsplit : steps = pre ++ step :: post) :
    Q step.call ∧ act step.call step.before = (step.answer, step.after) ∧ P pre step.before := by
  induction h generalizing P pre with
  | nil s => simp at hsplit
  | cons he _ ih =>
    obtain ⟨hcall, hcalls⟩ := List.forall_mem_cons.mp hq
    cases pre with
    | nil =>
      obtain ⟨rfl, -⟩ := List.cons_eq_cons.mp hsplit
      exact ⟨hcall, he, hs⟩
    | cons first pre =>
      obtain ⟨rfl, hrest⟩ := List.cons_eq_cons.mp hsplit
      apply ih (P := fun past => P (_ :: past)) hcalls _ _ hrest
      · exact hstep [] _ _ _ _ hcall he hs
      · exact fun past => hstep (_ :: past)

theorem Runs.past {P : List (Step γ α σ) → σ → Prop} {s t : σ} {steps : List (Step γ α σ)}
    (h : Runs act s steps t) (hs : P [] s)
    (hstep : ∀ past call s answer t, act call s = (answer, t) → P past s →
      P (past ++ [⟨call, answer, s, t⟩]) t) : P steps t := by
  induction h generalizing P with
  | nil s => exact hs
  | cons he _ ih =>
    apply ih (P := fun past => P (_ :: past))
    · exact hstep [] _ _ _ _ he hs
    · exact fun past => hstep (_ :: past)

theorem runs_history (act : γ → Op σ α) (calls : List γ) (s : σ) :
    Runs act s (history act calls s) (calls.foldl (fun s call => (act call s).2) s) := by
  induction calls generalizing s with
  | nil => exact .nil s
  | cons call calls ih => exact .cons rfl (ih _)

theorem runs_attempt (act : γ → Op σ Unit) (calls : List γ) (s : σ) :
    Runs act s (attempt act calls s) (inOrder act calls s).2 := by
  induction calls generalizing s with
  | nil => exact .nil s
  | cons call calls ih =>
    rcases he : act call s with ⟨e | _, t⟩
    · simp only [attempt, inOrder, he, bind_apply_error he]
      exact .cons he (.nil t)
    · simp only [attempt, inOrder, he, bind_apply_ok he]
      exact .cons he (ih t)

theorem map_call_attempt (act : γ → Op σ Unit) (calls : List γ) (s : σ) :
    (attempt act calls s).map (·.call) <+: calls := by
  induction calls generalizing s with
  | nil => exact List.prefix_rfl
  | cons call calls ih =>
    rcases he : act call s with ⟨e | _, t⟩
    · simp only [attempt, he, List.map_cons, List.map_nil]
      exact List.prefix_append [call] calls
    · simp only [attempt, he, List.map_cons]
      exact (List.prefix_cons_inj call).mpr (ih t)

theorem attempt_of_ok {act : γ → Op σ Unit} {calls : List γ} {s t : σ}
    (h : inOrder act calls s = (.ok (), t)) :
    (attempt act calls s).map (·.call) = calls ∧
    ∀ step ∈ attempt act calls s, step.answer = .ok () := by
  induction calls generalizing s with
  | nil => exact ⟨rfl, fun _ hm => absurd hm List.not_mem_nil⟩
  | cons call calls ih =>
    rcases he : act call s with ⟨e | _, u⟩
    · rw [inOrder, bind_apply_error he] at h
      cases h
    · rw [inOrder, bind_apply_ok he] at h
      obtain ⟨hcalls, hok⟩ := ih h
      simp only [attempt, he, List.map_cons, hcalls, List.forall_mem_cons]
      exact ⟨trivial, trivial, hok⟩

theorem forall_mem_attempt {act : γ → Op σ Unit} {Q : γ → Prop} {calls : List γ}
    (h : ∀ call ∈ calls, Q call) (s : σ) : ∀ step ∈ attempt act calls s, Q step.call :=
  fun _ hm => h _ ((map_call_attempt act calls s).subset (List.mem_map_of_mem hm))

end Op

end TieredMemory
