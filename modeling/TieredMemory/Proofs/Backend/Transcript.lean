import TieredMemory.Proofs.Backend.Answers
import TieredMemory.Proofs.Backend.Recorder
import TieredMemory.Proofs.Backend.Service

namespace TieredMemory

inductive StoreCall where
  | read (address length : Nat) (answer : Except Error ByteArray)
  | write (address : Nat) (data : ByteArray) (answer : Except Error Unit)
  | flush (answer : Except Error Unit)
  | shutdown (answer : Except Error Unit)

structure Transcript (β : Type) where
  inner : β
  calls : List StoreCall := []

namespace Transcript

variable {β α : Type}

def start (b : β) : Transcript β := { inner := b }

def note (entry : Except Error α → StoreCall) (op : Op β α) : Op (Transcript β) α := fun t =>
  let (r, inner) := op t.inner
  (r, { inner, calls := t.calls ++ [entry r] })

instance [Backend β] : Backend (Transcript β) where
  read address length := note (.read address length) (Backend.read address length)
  write address data := note (.write address data) (Backend.write address data)
  flush := note .flush Backend.flush
  shutdown := note .shutdown Backend.shutdown
  capacity t := Backend.capacity t.inner
  events t := Backend.events t.inner

theorem ends_note {entry : Except Error α → StoreCall} {op : Op β α} {t : Transcript β}
    {ok : α → Prop} {bad : Error → Prop} (h : op.Ends t.inner (fun a _ => ok a) fun e _ => bad e) :
    (note entry op).Ends t (fun a _ => ok a) fun e _ => bad e := by
  rcases h.cases with ⟨a, b, he, hok⟩ | ⟨e, b, he, hbad⟩
  · apply Op.Ends.of_ok (a := a)
    · simp only [note, he]
      rfl
    · exact hok
  · apply Op.Ends.of_error (e := e)
    · simp only [note, he]
      rfl
    · exact hbad

theorem answers [Backend β] {exact : Prop} {allowed : Error → Prop}
    (h : Backend.Answers β exact allowed) : Backend.Answers (Transcript β) exact allowed where
  read address length t := ends_note (h.read address length t.inner)
  write address data t := ends_note (h.write address data t.inner)
  flush t := ends_note (h.flush t.inner)
  shutdown t := ends_note (h.shutdown t.inner)
  range := h.range

theorem hom_comp_inner {γ : Type} [Backend β] [Backend γ] {f : β → γ} (hf : Backend.Hom f) :
    Backend.Hom (f ∘ inner) where
  read address length t := hf.read address length t.inner
  write address data t := hf.write address data t.inner
  flush t := hf.flush t.inner
  shutdown t := hf.shutdown t.inner
  capacity t := hf.capacity t.inner
  events t := hf.events t.inner

theorem hom_inner [Backend β] : Backend.Hom (inner : Transcript β → β) :=
  hom_comp_inner (f := id) .id

end Transcript

namespace StoreCall

def Admitted (limit : Nat) : StoreCall → Prop
  | read address length answer =>
    address + length ≤ limit ∧ ∀ e, answer = .error e → ¬ e.OutOfRange
  | write address data answer =>
    address + data.size ≤ limit ∧ ∀ e, answer = .error e → ¬ e.OutOfRange
  | flush answer | shutdown answer => ∀ e, answer = .error e → ¬ e.OutOfRange

end StoreCall

namespace Transcript

variable {β α : Type} {limit : Nat} {I : β → Prop}

structure InOrder (limit : Nat) (I : β → Prop) (t : Transcript β) : Prop where
  inner : I t.inner
  calls : ∀ call ∈ t.calls, call.Admitted limit

theorem ends_note_inOrder {entry : Except Error α → StoreCall} {op : Op β α} {t : Transcript β}
    (ht : InOrder limit I t)
    (hop : op.Ends t.inner (fun _ b => I b) (fun e b => I b ∧ ¬ e.OutOfRange))
    (hentry : ∀ answer, (∀ e, answer = .error e → ¬ e.OutOfRange) →
      (entry answer).Admitted limit) :
    (note entry op).Ends t (fun _ u => InOrder limit I u)
      (fun e u => InOrder limit I u ∧ ¬ e.OutOfRange) := by
  rcases hop.cases with ⟨a, b, he, hb⟩ | ⟨e, b, he, hb, hbad⟩
  · have hcall := hentry (.ok a) fun _ h => nomatch h
    apply Op.Ends.of_ok (a := a) (t := ⟨b, t.calls ++ [entry (.ok a)]⟩)
    · simp only [note, he]
    · exact ⟨hb, List.forall_mem_append.mpr ⟨ht.calls, List.forall_mem_singleton.mpr hcall⟩⟩
  · have hcall := hentry (.error e) fun _ h => Except.error.inj h ▸ hbad
    apply Op.Ends.of_error (e := e) (t := ⟨b, t.calls ++ [entry (.error e)]⟩)
    · simp only [note, he]
    · exact ⟨⟨hb, List.forall_mem_append.mpr ⟨ht.calls, List.forall_mem_singleton.mpr hcall⟩⟩, hbad⟩

theorem serves [Backend β] (h : Backend.Serves limit (fun e => ¬ e.OutOfRange) I) :
    Backend.Serves limit (fun e => ¬ e.OutOfRange) (InOrder limit I) where
  capacity t ht := h.capacity t.inner ht.inner
  read t address length ht hr := ends_note_inOrder ht (h.read t.inner address length ht.inner hr)
    fun _ hanswer => ⟨hr, hanswer⟩
  write t address data ht hr := ends_note_inOrder ht (h.write t.inner address data ht.inner hr)
    fun _ hanswer => ⟨hr, hanswer⟩
  flush t ht := ends_note_inOrder ht (h.flush t.inner ht.inner) fun _ hanswer => hanswer
  shutdown t ht := ends_note_inOrder ht (h.shutdown t.inner ht.inner) fun _ hanswer => hanswer

end Transcript

end TieredMemory
