import Mathlib.Data.List.Forall2
import TieredMemory.Proofs.Backend.Contents

namespace TieredMemory

inductive Call (σ : Type) where
  | read (address length : Nat)
  | write (address : Nat) (data : ByteArray)
  | sync (kind : σ)

namespace Call

variable {σ : Type}

def InRange (size : Nat) : Call σ → Prop
  | read address length => address + length ≤ size
  | write address data => address + data.size ≤ size
  | sync _ => True

def Covers (i : Nat) : Call σ → Prop
  | write address data => address ≤ i ∧ i < address + data.size
  | _ => False

def IsWrite : Call σ → Prop
  | write _ _ => True
  | _ => False

end Call

abbrev Answer := Except Error ByteArray

def flat {σ : Type} : Call σ → ByteArray → Answer × ByteArray
  | .read address length, m =>
    if address + length ≤ m.size then (.ok (Bytes.slice m address length), m)
    else (.error (.addressOutOfRange address length m.size), m)
  | .write address data, m =>
    if address + data.size ≤ m.size then (.ok ByteArray.empty, Bytes.patch m address data)
    else (.error (.addressOutOfRange address data.size m.size), m)
  | .sync _, m => (.ok ByteArray.empty, m)

def run {γ β : Type} (step : γ → β → Answer × β) : List γ → β → List Answer × β
  | [], b => ([], b)
  | call :: calls, b =>
    let (answer, b) := step call b
    let (answers, b) := run step calls b
    (answer :: answers, b)

section Flat

variable {σ : Type}

theorem size_flat (call : Call σ) (m : ByteArray) : (flat call m).2.size = m.size := by
  cases call with
  | read address length =>
    simp only [flat]
    split <;> rfl
  | write address data =>
    simp only [flat]
    split
    · rw [Bytes.size_patch (by omega)]
      omega
    · rfl
  | sync kind => rfl

theorem flat_ok {call : Call σ} {m : ByteArray} (h : call.InRange m.size) :
    ∃ data, (flat call m).1 = .ok data := by
  cases call with
  | read address length => exact ⟨_, congrArg Prod.fst (if_pos h)⟩
  | write address data => exact ⟨_, congrArg Prod.fst (if_pos h)⟩
  | sync kind => exact ⟨_, rfl⟩

theorem size_run_flat (calls : List (Call σ)) (m : ByteArray) :
    (run flat calls m).2.size = m.size := by
  induction calls generalizing m with
  | nil => rfl
  | cons call calls ih => exact (ih _).trans (size_flat call m)

theorem run_flat_ok (calls : List (Call σ)) (m : ByteArray) :
    List.Forall₂ (fun call answer => call.InRange m.size → ∃ data, answer = .ok data) calls
      (run flat calls m).1 := by
  induction calls generalizing m with
  | nil => exact .nil
  | cons call calls ih =>
    have htail := ih (flat call m).2
    rw [size_flat] at htail
    exact .cons flat_ok htail

theorem run_flat_all_ok {calls : List (Call σ)} {m : ByteArray}
    (h : ∀ call ∈ calls, call.InRange m.size) :
    ∀ answer ∈ (run flat calls m).1, ∃ data, answer = .ok data := by
  induction calls generalizing m with
  | nil => exact fun answer ha => absurd ha List.not_mem_nil
  | cons call calls ih =>
    obtain ⟨hcall, hcalls⟩ := List.forall_mem_cons.mp h
    rw [← size_flat call m] at hcalls
    exact List.forall_mem_cons.mpr ⟨flat_ok hcall, ih hcalls⟩

end Flat

def Simulates {γ β μ : Type} (step : γ → β → Answer × β) (model : γ → μ → Answer × μ)
    (R : β → μ → Prop) : Prop :=
  ∀ call b m, R b m → (step call b).1 = (model call m).1 ∧ R (step call b).2 (model call m).2

theorem Simulates.run {γ β μ : Type} {step : γ → β → Answer × β} {model : γ → μ → Answer × μ}
    {R : β → μ → Prop} (h : Simulates step model R) (calls : List γ) {b : β} {m : μ} (hr : R b m) :
    (run step calls b).1 = (run model calls m).1 ∧
    R (run step calls b).2 (run model calls m).2 := by
  induction calls generalizing b m with
  | nil => exact ⟨rfl, hr⟩
  | cons call calls ih =>
    obtain ⟨ha, hnext⟩ := h call b m hr
    obtain ⟨hrest, hend⟩ := ih hnext
    exact ⟨List.cons_eq_cons.mpr ⟨ha, hrest⟩, hend⟩

theorem run_invariant {γ β : Type} {step : γ → β → Answer × β} {P : β → Prop}
    (h : ∀ call b, P b → P (step call b).2) (calls : List γ) {b : β} (hb : P b) :
    P (run step calls b).2 := by
  induction calls generalizing b with
  | nil => exact hb
  | cons call calls ih => exact ih (h call b hb)

structure Mirrors {β : Type} [Contents β] (b : β) (m : ByteArray) : Prop where
  size : Contents.size b = m.size
  bytes : Contents.byteAt b = Bytes.byteAt m

section Answers

variable {β σ : Type} [Contents β] {b : β} {m : ByteArray} {P : β → Prop}

theorem Mirrors.of_keeps {t : β} (h : Mirrors b m) (hk : Keeps b t) : Mirrors t m :=
  ⟨hk.size.trans h.size, hk.bytes.trans h.bytes⟩

theorem Mirrors.zeros {n : Nat} (hs : Contents.size b = n) (hb : ∀ i, Contents.byteAt b i = 0) :
    Mirrors b (Bytes.zeros n) := by
  refine ⟨hs.trans (Bytes.size_zeros n).symm, ?_⟩
  funext i
  rw [hb, Bytes.byteAt_zeros]

theorem Mirrors.eq_of_byteAt {a : ByteArray} (h : Mirrors b m) (hs : a.size = Contents.size b)
    (ha : ∀ i, Bytes.byteAt a i = Contents.byteAt b i) : a = m := by
  apply Bytes.ext_byteAt (hs.trans h.size)
  intro i
  rw [ha, h.bytes]

theorem Mirrors.toByteArray_eq {bytes : SparseBytes} (h : Mirrors b m)
    (hs : bytes.size = Contents.size b) (hb : bytes.byteAt = Contents.byteAt b) :
    bytes.toByteArray = m := by
  apply h.eq_of_byteAt
  · rw [SparseBytes.size_toByteArray, hs]
  · intro i
    rw [SparseBytes.byteAt_toByteArray, hb]

theorem Mirrors.read {op : Op β ByteArray} {address length : Nat} (h : Mirrors b m)
    (hop : op.Ends b
      (fun data t => P t ∧ Keeps b t ∧ address + length ≤ Contents.size b ∧
        Bytes.Shows (Contents.byteAt b) address length data)
      (fun e t => P t ∧ Keeps b t ∧ (True → Contents.size b < address + length ∧
        e = .addressOutOfRange address length (Contents.size b)))) :
    (op b).1 = (flat (.read address length : Call σ) m).1 ∧ P (op b).2 ∧
      Mirrors (op b).2 (flat (.read address length : Call σ) m).2 := by
  rcases hop.cases with ⟨data, t, he, hp, hk, hr, hd⟩ | ⟨e, t, he, hp, hk, hsure⟩
  · rw [h.size] at hr
    have hslice :
        Bytes.Shows (Contents.byteAt b) address length (Bytes.slice m address length) := by
      refine ⟨Bytes.size_slice hr, fun i hi => ?_⟩
      rw [Bytes.byteAt_slice hi, h.bytes]
    simp only [he, flat, if_pos hr]
    exact ⟨congrArg Except.ok (hd.eq hslice), hp, h.of_keeps hk⟩
  · obtain ⟨hlt, rfl⟩ := hsure trivial
    rw [h.size] at hlt
    simp only [he, flat, if_neg (Nat.not_le.mpr hlt), h.size]
    exact ⟨trivial, hp, h.of_keeps hk⟩

theorem Mirrors.write {op : Op β ByteArray} {address : Nat} {data : ByteArray} (h : Mirrors b m)
    (hop : op.Ends b
      (fun answer t => P t ∧ answer = ByteArray.empty ∧ address + data.size ≤ Contents.size b ∧
        Writes address data data.size b t)
      (fun e t => P t ∧ (True → Contents.size b < address + data.size ∧ Keeps b t ∧
        e = .addressOutOfRange address data.size (Contents.size b)))) :
    (op b).1 = (flat (.write address data : Call σ) m).1 ∧ P (op b).2 ∧
      Mirrors (op b).2 (flat (.write address data : Call σ) m).2 := by
  rcases hop.cases with ⟨_, t, he, hp, rfl, hr, hw⟩ | ⟨e, t, he, hp, hsure⟩
  · rw [h.size] at hr
    simp only [he, flat, if_pos hr]
    refine ⟨trivial, hp, ?_, ?_⟩
    · rw [hw.size, h.size, Bytes.size_patch (by omega)]
      omega
    · funext i
      rw [hw.bytes, h.bytes, Bytes.slice_zero_size, Bytes.byteAt_patch (by omega), Bytes.overlay]
  · obtain ⟨hlt, hk, rfl⟩ := hsure trivial
    rw [h.size] at hlt
    simp only [he, flat, if_neg (Nat.not_le.mpr hlt), h.size]
    exact ⟨trivial, hp, h.of_keeps hk⟩

theorem Mirrors.sync {op : Op β ByteArray} {kind : σ} (h : Mirrors b m)
    (hop : op.Ends b (fun answer t => P t ∧ answer = ByteArray.empty ∧ Keeps b t)
      (fun _ _ => False)) :
    (op b).1 = (flat (.sync kind) m).1 ∧ P (op b).2 ∧ Mirrors (op b).2 (flat (.sync kind) m).2 := by
  rcases hop.cases with ⟨_, t, he, hp, rfl, hk⟩ | ⟨e, t, -, hf⟩
  · simp only [he, flat]
    exact ⟨trivial, hp, h.of_keeps hk⟩
  · exact hf.elim

end Answers

end TieredMemory
