import TieredMemory.Proofs.Backend.Contents

namespace TieredMemory

variable {B : Type} [Backend B] {exact : Prop} {allowed : Error → Prop}

structure Backend.Answers (B : Type) [Backend B] (exact : Prop) (allowed : Error → Prop) :
    Prop where
  read : ∀ (address length : Nat) (b : B), (Backend.read address length).Ends b
    (fun data _ => exact → data.size = length) (fun e _ => allowed e)
  write : ∀ (address : Nat) (data : ByteArray) (b : B),
    (Backend.write address data).Ends b (fun _ _ => True) (fun e _ => allowed e)
  flush : ∀ b : B, (Backend.flush : Op B Unit).Ends b (fun _ _ => True) (fun e _ => allowed e)
  shutdown : ∀ b : B, (Backend.shutdown : Op B Unit).Ends b (fun _ _ => True) (fun e _ => allowed e)
  range : ∀ address length limit, allowed (.addressOutOfRange address length limit)

theorem Backend.Answers.checkRange (hb : Backend.Answers B exact allowed) {address length : Nat}
    {limit : Option Nat} {e : Error}
    (h : TieredMemory.checkRange address length limit = .error e) : allowed e := by
  unfold TieredMemory.checkRange at h
  split at h
  · cases h
  · split at h
    · cases h
    · cases h
      exact hb.range _ _ _

theorem Backend.answers_true (B : Type) [Backend B] : Backend.Answers B False fun _ => True where
  read _ _ b := (Op.ends_true _ b).mono (fun _ _ _ => False.elim) fun _ _ h => h
  write _ _ b := Op.ends_true _ b
  flush b := Op.ends_true _ b
  shutdown b := Op.ends_true _ b
  range _ _ _ := trivial

theorem Backend.Answers.of_lawful [Contents B] [LawfulBackend B]
    (h : ∀ b : B, LawfulBackend.Valid True b)
    (hrange : ∀ address length limit, allowed (.addressOutOfRange address length limit)) :
    Backend.Answers B exact allowed where
  read address length b := by
    apply (LawfulBackend.ends_read address length (h b)).mono
    · rintro data t ⟨-, -, -, hshows⟩ -
      exact hshows.1
    · rintro e t ⟨-, -, hr⟩
      exact (hr trivial).2 ▸ hrange _ _ _
  write address data b := by
    apply (LawfulBackend.ends_write address data (h b)).mono
    · exact fun _ _ _ => trivial
    · rintro e t ⟨-, -, hr⟩
      exact (hr trivial).2.2 ▸ hrange _ _ _
  flush b := (LawfulBackend.ends_flush (h b)).mono (fun _ _ _ => trivial)
    fun _ _ hn => absurd trivial hn.2.2
  shutdown b := (LawfulBackend.ends_shutdown (h b)).mono (fun _ _ _ => trivial)
    fun _ _ hn => absurd trivial hn.2.2
  range := hrange

theorem Gate.answers (h : Backend.Answers B exact allowed)
    (hrefusal : ∀ call, allowed (refusal call)) : Backend.Answers (Gate B) exact allowed where
  read address length g := ends_gated "read" { g with onRead := g.onRead.next.2 } rfl
    (fun _ => hrefusal _) (h.read address length g.inner)
  write address data g := ends_gated "write" { g with onWrite := g.onWrite.next.2 } rfl
    (fun _ => hrefusal _) (h.write address data g.inner)
  flush g := ends_gated "flush" { g with onFlush := g.onFlush.next.2 } rfl
    (fun _ => hrefusal _) (h.flush g.inner)
  shutdown g := ends_gated "shutdown" { g with onShutdown := g.onShutdown.next.2 } rfl
    (fun _ => hrefusal _) (h.shutdown g.inner)
  range := h.range

end TieredMemory
