import TieredMemory.Proofs.Backend.Flat
import TieredMemory.Proofs.History
import TieredMemory.Proofs.Page.Pieces
import TieredMemory.Proofs.Page.Transport

namespace TieredMemory

namespace Step

variable {γ α σ τ : Type}

def mapState (f : σ → τ) (s : Step γ α σ) : Step γ α τ := ⟨s.call, s.answer, f s.before, f s.after⟩

end Step

namespace Op

variable {γ σ τ : Type} {f : σ → τ} {act : γ → Op σ Unit} {act' : γ → Op τ Unit}

theorem attempt_map (h : ∀ call, (act call).Commutes f (act' call)) (calls : List γ) (s : σ) :
    attempt act' calls (f s) = (attempt act calls s).map (Step.mapState f) := by
  induction calls generalizing s with
  | nil => rfl
  | cons call calls ih =>
    rcases he : act call s with ⟨e | _, t⟩
    · simp only [attempt, he, (h call).apply_eq he]
      rfl
    · simp only [attempt, he, (h call).apply_eq he, ih t]
      rfl

theorem eq_map_answer {α : Type} (op : Op σ Unit) (a : α) (s : σ) :
    op s =
      (((do op; return a : Op σ α) s).1.map fun _ => (), ((do op; return a : Op σ α) s).2) := by
  rcases he : op s with ⟨e | _, t⟩
  · rw [bind_apply_error he]
    rfl
  · rw [bind_apply_ok he]
    rfl

theorem ok_of_answer {α : Type} {op : Op σ Unit} {a b : α} {s t : σ}
    (h : (do op; return a : Op σ α) s = (.ok b, t)) : op s = (.ok (), t) := by
  rw [eq_map_answer op a s, h]
  rfl

theorem inOrder_singleton (act : γ → Op σ Unit) (call : γ) : inOrder act [call] = act call :=
  bind_pure_unit

theorem inOrder_pair (act : γ → Op σ Unit) (first second : γ) :
    inOrder act [first, second] = (do act first; act second) := by
  simp only [inOrder, bind_pure_unit]

theorem inOrder_append (act : γ → Op σ Unit) (calls calls' : List γ) :
    inOrder act (calls ++ calls') = (do inOrder act calls; inOrder act calls') := by
  induction calls with
  | nil => rfl
  | cons call calls ih => rw [List.cons_append, inOrder, inOrder, ih, bind_assoc]

end Op

namespace PageCache

inductive Upkeep where
  | flush
  | flushAll
  | clear
  | shutdown
  deriving DecidableEq, Repr

inductive Action where
  | read (page offset length : Nat)
  | write (page offset : Nat) (data : ByteArray)
  | flush
  | clear
  | flushBelow
  | shutdownBelow

def writeActions (data : ByteArray) : List Piece → (done : Nat) → List Action
  | [], _ => []
  | piece :: rest, done =>
    .write piece.page piece.offset (Bytes.slice data done piece.length) ::
      writeActions data rest (done + piece.length)

variable {S H B C : Type} [PageStorage S H] [Backend B] [Backend C]

def call : Call Upkeep → Op (PageCache S H B) ByteArray
  | .read address length => read address length
  | .write address data => do
    write address data
    return ByteArray.empty
  | .sync .flush => do
    flush
    return ByteArray.empty
  | .sync .flushAll => do
    Backend.flush
    return ByteArray.empty
  | .sync .clear => do
    clear
    return ByteArray.empty
  | .sync .shutdown => do
    Backend.shutdown
    return ByteArray.empty

namespace Action

def perform : Action → Op (PageCache S H B) Unit
  | read page offset length => do
    let _ ← touch page (Pager.readPage offset length)
  | write page offset data => touch page (Pager.writePage offset data)
  | flush => PageCache.flush
  | clear => PageCache.clear
  | flushBelow => onBelow Backend.flush
  | shutdownBelow => onBelow Backend.shutdown

def Fits (pageSize : Nat) : Action → Prop
  | read _ offset length => 0 < length ∧ offset + length ≤ pageSize
  | write _ offset data => 0 < data.size ∧ offset + data.size ≤ pageSize
  | _ => True

end Action

omit [PageStorage S H] in
def actions (c : PageCache S H B) : Call Upkeep → List Action
  | .read address length =>
    match checkRange address length (Backend.capacity c.below) with
    | .error _ => []
    | .ok () => (pieces c.pageSize address length).map fun piece =>
      .read piece.page piece.offset piece.length
  | .write address data =>
    match checkRange address data.size (Backend.capacity c.below) with
    | .error _ => []
    | .ok () => writeActions data (pieces c.pageSize address data.size) 0
  | .sync .flush => [.flush]
  | .sync .flushAll => [.flush, .flushBelow]
  | .sync .clear => [.clear]
  | .sync .shutdown => [.clear, .shutdownBelow]

def steps : List (Call Upkeep) → PageCache S H B → List (Step Action Unit (PageCache S H B))
  | [], _ => []
  | request :: requests, c =>
    Op.attempt Action.perform (c.actions request) c ++ steps requests (call request c).2

theorem steps_concat (requests : List (Call Upkeep)) (request : Call Upkeep) (c : PageCache S H B) :
    steps (requests ++ [request]) c = steps requests c ++
      (let t := (run call requests c).2
      Op.attempt Action.perform (t.actions request) t) := by
  induction requests generalizing c with
  | nil => exact List.append_nil _
  | cons first requests ih =>
    rw [List.cons_append, steps, ih, steps, List.append_assoc]
    rfl

section Assembly

theorem inOrder_readPieces (pieces : List Piece) (acc : ByteArray) (c : PageCache S H B) :
    Op.inOrder Action.perform (pieces.map fun piece =>
      .read piece.page piece.offset piece.length) c =
        ((readPieces pieces acc c).1.map fun _ => (), (readPieces pieces acc c).2) := by
  induction pieces generalizing acc c with
  | nil => rfl
  | cons piece rest ih =>
    simp only [List.map_cons, Op.inOrder, readPieces]
    rcases he : touch piece.page (Pager.readPage piece.offset piece.length) c with ⟨e | bytes, t⟩
    · have hop : Action.perform (.read piece.page piece.offset piece.length) c = (.error e, t) :=
        Op.bind_apply_error he
      rw [Op.bind_apply_error hop, Op.bind_apply_error he]
      rfl
    · have hop : Action.perform (.read piece.page piece.offset piece.length) c = (.ok (), t) :=
        Op.bind_apply_ok he
      rw [Op.bind_apply_ok hop, Op.bind_apply_ok he]
      exact ih _ t

theorem inOrder_writePieces (data : ByteArray) (pieces : List Piece) (done : Nat)
    (c : PageCache S H B) :
    Op.inOrder Action.perform (writeActions data pieces done) c =
      writePieces data pieces done c := by
  induction pieces generalizing done c with
  | nil => rfl
  | cons piece rest ih =>
    simp only [writeActions, Op.inOrder, writePieces]
    rcases he : touch piece.page (Pager.writePage piece.offset
      (Bytes.slice data done piece.length)) c with ⟨e | _, t⟩
    · rw [Op.bind_apply_error he]
      exact Op.bind_apply_error he
    · rw [Op.bind_apply_ok he]
      exact (Op.bind_apply_ok he).trans (ih _ t)

theorem inOrder_actions (request : Call Upkeep) (c : PageCache S H B) :
    (Op.inOrder Action.perform (c.actions request) c).2 = (call request c).2 := by
  cases request with
  | read address length =>
    simp only [actions, call, read]
    cases checkRange address length (Backend.capacity c.below) with
    | error e => rfl
    | ok _ => exact congrArg Prod.snd (inOrder_readPieces _ _ c)
  | write address data =>
    refine Eq.trans ?_ (Op.state_answer _ _ c).symm
    simp only [actions, write]
    cases checkRange address data.size (Backend.capacity c.below) with
    | error e => rfl
    | ok _ => rw [inOrder_writePieces]
  | sync kind =>
    cases kind with
    | flush => exact (Op.state_answer _ _ c).trans (Op.state_answer _ _ c).symm
    | flushAll =>
      rw [actions, Op.inOrder_pair]
      exact (Op.state_answer _ _ c).symm
    | clear => exact (Op.state_answer _ _ c).trans (Op.state_answer _ _ c).symm
    | shutdown =>
      rw [actions, Op.inOrder_pair]
      exact (Op.state_answer _ _ c).symm

theorem runs_steps (requests : List (Call Upkeep)) (c : PageCache S H B) :
    Op.Runs Action.perform c (steps requests c) (run call requests c).2 := by
  induction requests generalizing c with
  | nil => exact .nil c
  | cons request requests ih =>
    have hrun := Op.runs_attempt Action.perform (c.actions request) c
    rw [inOrder_actions] at hrun
    exact hrun.append (ih _)

end Assembly

section Fits

variable {pageSize : Nat}

theorem of_mem_writeActions {address length done : Nat} {pieces : List Piece} {data : ByteArray}
    (ht : Tiles pageSize address length pieces) :
    ∀ a ∈ writeActions data pieces done, ∃ page offset k n,
      a = .write page offset (Bytes.slice data (done + k) n) ∧ 0 < n ∧ offset + n ≤ pageSize ∧
      page * pageSize + offset = address + k ∧ k + n ≤ length := by
  induction pieces generalizing address length done with
  | nil => exact fun a ha => absurd ha List.not_mem_nil
  | cons piece rest ih =>
    obtain ⟨haddress, hin, hpos, hle, -, hrest⟩ := ht
    rw [writeActions, List.forall_mem_cons]
    constructor
    · exact ⟨piece.page, piece.offset, 0, piece.length, rfl, hpos, hin, haddress, by omega⟩
    · intro a ha
      obtain ⟨page, offset, k, n, rfl, hn, hfit, hat, hk⟩ := ih hrest a ha
      refine ⟨page, offset, piece.length + k, n, ?_, hn, hfit, by omega, by omega⟩
      rw [Nat.add_assoc]

theorem fits_readActions {address length : Nat} {pieces : List Piece}
    (ht : Tiles pageSize address length pieces) :
    ∀ a ∈ pieces.map fun piece => Action.read piece.page piece.offset piece.length,
      a.Fits pageSize := by
  induction pieces generalizing address length with
  | nil => exact fun a ha => absurd ha List.not_mem_nil
  | cons piece rest ih =>
    obtain ⟨-, hin, hpos, -, -, hrest⟩ := ht
    rw [List.map_cons, List.forall_mem_cons]
    exact ⟨⟨hpos, hin⟩, ih hrest⟩

omit [PageStorage S H] in
theorem of_mem_actions_write (c : PageCache S H B) (address : Nat) (data : ByteArray) :
    ∀ a ∈ c.actions (.write address data), ∃ page offset k n,
      a = .write page offset (Bytes.slice data k n) ∧ 0 < n ∧ offset + n ≤ c.pageSize ∧
      page * c.pageSize + offset = address + k ∧ k + n ≤ data.size ∧
      checkRange address data.size (Backend.capacity c.below) = .ok () := by
  intro a ha
  simp only [actions] at ha
  cases hc : checkRange address data.size (Backend.capacity c.below) with
  | error e =>
    rw [hc] at ha
    exact absurd ha List.not_mem_nil
  | ok _ =>
    rw [hc] at ha
    obtain ⟨page, offset, k, n, rfl, hn, hfit, hat, hk⟩ :=
      of_mem_writeActions (tiles_pieces c.pager.pageSize_pos address data.size) a ha
    rw [Nat.zero_add]
    exact ⟨page, offset, k, n, rfl, hn, hfit, hat, hk, rfl⟩

omit [PageStorage S H] in
theorem fits_actions (c : PageCache S H B) (request : Call Upkeep) :
    ∀ a ∈ c.actions request, a.Fits c.pageSize := by
  cases request with
  | read address length =>
    simp only [actions]
    cases checkRange address length (Backend.capacity c.below) with
    | error e => exact fun a ha => absurd ha List.not_mem_nil
    | ok _ => exact fits_readActions (tiles_pieces c.pager.pageSize_pos address length)
  | write address data =>
    intro a ha
    obtain ⟨page, offset, k, n, rfl, hn, hfit, -, hk, -⟩ := of_mem_actions_write c address data a ha
    have hsize : (Bytes.slice data k n).size = n := Bytes.size_slice hk
    simp only [Action.Fits, hsize]
    exact ⟨hn, hfit⟩
  | sync kind => cases kind <;> simp [actions, Action.Fits]

end Fits

section Erasure

variable {f : B → C}

theorem commutes_perform (hf : Backend.Hom f) (a : Action) :
    (a.perform : Op (PageCache S H B) Unit).Commutes (mapBelow f) a.perform := by
  cases a with
  | read page offset length =>
    exact (commutes_touch hf page (Pager.commutes_readPage _ _)).bind fun _ => .pure ()
  | write page offset data => exact commutes_touch hf page (Pager.commutes_writePage _ _)
  | flush => exact commutes_flush hf
  | clear => exact commutes_clear hf
  | flushBelow => exact commutes_onBelow hf hf.flush
  | shutdownBelow => exact commutes_onBelow hf hf.shutdown

theorem commutes_call (hf : Backend.Hom f) (request : Call Upkeep) :
    (call request : Op (PageCache S H B) ByteArray).Commutes (mapBelow f) (call request) := by
  cases request with
  | read address length => exact commutes_read hf address length
  | write address data => exact (commutes_write hf address data).bind fun _ => .pure _
  | sync kind =>
    cases kind with
    | flush => exact (commutes_flush hf).bind fun _ => .pure _
    | flushAll => exact (hom_mapBelow hf).flush.bind fun _ => .pure _
    | clear => exact (commutes_clear hf).bind fun _ => .pure _
    | shutdown => exact (hom_mapBelow hf).shutdown.bind fun _ => .pure _

theorem simulates_mapBelow (hf : Backend.Hom f) :
    Simulates (call : Call Upkeep → Op (PageCache S H B) ByteArray)
      (call : Call Upkeep → Op (PageCache S H C) ByteArray) fun c t => c.mapBelow f = t := by
  rintro request c _ rfl
  have hcall := commutes_call hf request c
  exact ⟨(congrArg Prod.fst hcall).symm, (congrArg Prod.snd hcall).symm⟩

theorem run_mapBelow (hf : Backend.Hom f) (requests : List (Call Upkeep)) (c : PageCache S H B) :
    (run call requests c).2.mapBelow f = (run call requests (c.mapBelow f)).2 :=
  ((simulates_mapBelow hf).run requests rfl).2

omit [PageStorage S H] in
theorem actions_mapBelow (hf : Backend.Hom f) (c : PageCache S H B) (request : Call Upkeep) :
    (c.mapBelow f).actions request = c.actions request := by
  have hc : Backend.capacity (c.mapBelow f).below = Backend.capacity c.below := hf.capacity c.below
  cases request with
  | read address length =>
    simp only [actions, hc]
    rfl
  | write address data =>
    simp only [actions, hc]
    rfl
  | sync kind => cases kind <;> rfl

theorem steps_mapBelow (hf : Backend.Hom f) (requests : List (Call Upkeep)) (c : PageCache S H B) :
    steps requests (c.mapBelow f) = (steps requests c).map (Step.mapState (mapBelow f)) := by
  induction requests generalizing c with
  | nil => rfl
  | cons request requests ih =>
    simp only [steps, List.map_append, actions_mapBelow hf, commutes_call hf request c, ih,
      Op.attempt_map (commutes_perform hf)]

end Erasure

end PageCache

end TieredMemory
