import TieredMemory.Proofs.Backend.Contents
import TieredMemory.Proofs.Backend.Recorder
import TieredMemory.Proofs.Lineage

namespace TieredMemory

namespace Bytes

theorem Shows.slice {m : Nat → UInt8} {address k n : Nat} {data : ByteArray}
    (h : Shows m address data.size data) (hk : k + n ≤ data.size) :
    Shows m (address + k) n (slice data k n) := by
  refine ⟨size_slice hk, ?_⟩
  intro i hi
  rw [byteAt_slice hi, h.2 (k + i) (by omega), Nat.add_assoc]

theorem Shows.overlay {coming : Nat → UInt8} {address n : Nat} {data : ByteArray}
    (h : Shows coming address n data) (m : Nat → UInt8) (i : Nat) :
    overlay address data m i = m i ∨ overlay address data m i = coming i := by
  unfold Bytes.overlay
  by_cases hi : address ≤ i ∧ i < address + data.size
  · right
    rw [if_pos hi, h.2 (i - address) (by have := h.1; omega), Nat.add_sub_cancel' hi.1]
  · left
    rw [if_neg hi]

end Bytes

namespace LawfulBackend

variable {β : Type} [Backend β] [Contents β] [LawfulBackend β] {sure : Prop} {b : β}

theorem kept_read (address length : Nat) (h : Valid sure b) :
    Valid sure (Backend.read address length b).2 ∧ Keeps b (Backend.read address length b).2 := by
  apply Op.Ends.always (P := fun t => Valid sure t ∧ Keeps b t)
  apply (ends_read address length h).mono
  · exact fun data t ht => ⟨ht.1, ht.2.1⟩
  · exact fun e t ht => ⟨ht.1, ht.2.1⟩

theorem valid_write (address : Nat) (data : ByteArray) (h : Valid sure b) :
    Valid sure (Backend.write address data b).2 :=
  Op.Ends.always ((ends_write address data h).mono (fun _ _ ht => ht.1) fun _ _ ht => ht.1)

theorem kept_flush (h : Valid sure b) :
    Valid sure (Backend.flush b).2 ∧ Keeps b (Backend.flush b).2 := by
  apply Op.Ends.always (P := fun t => Valid sure t ∧ Keeps b t)
  apply (ends_flush h).mono
  · exact fun _ t ht => ⟨ht.1, ht.2.1⟩
  · exact fun e t ht => ⟨ht.1, ht.2.1⟩

theorem kept_shutdown (h : Valid sure b) :
    Valid sure (Backend.shutdown b).2 ∧ Keeps b (Backend.shutdown b).2 := by
  apply Op.Ends.always (P := fun t => Valid sure t ∧ Keeps b t)
  apply (ends_shutdown h).mono
  · exact fun _ t ht => ⟨ht.1, ht.2.1⟩
  · exact fun e t ht => ⟨ht.1, ht.2.1⟩

end LawfulBackend

class Layers (β : Type) where
  -- The bytes at an address in the layers below the topmost one, from the lowest up.
  lower : β → Nat → List UInt8
  -- The bytes that the writes to the lowest layer have left, one after the other.
  states : β → List (Nat → UInt8)

section Takes

variable {β : Type} [Contents β] [Layers β] {b t u : β} {coming : Nat → UInt8}

def layers (b : β) (i : Nat) : List UInt8 := Layers.lower b i ++ [Contents.byteAt b i]

/-- From `b` to `t` no layer took anything but the bytes above it, and the topmost one nothing but
bytes of `coming`. -/
def Takes (coming : Nat → UInt8) (b t : β) : Prop :=
  ∃ fresh, Layers.states t = Layers.states b ++ fresh ∧
    ∀ i, Follows (fresh.map (· i) ++ layers t i) (layers b i ++ [coming i])

theorem Takes.refl (coming : Nat → UInt8) (b : β) : Takes coming b b :=
  ⟨[], (List.append_nil _).symm, fun _ => (Follows.refl _).append_right _⟩

theorem Takes.trans (h : Takes coming b t) (h' : Takes coming t u) : Takes coming b u := by
  obtain ⟨fresh, hs, hf⟩ := h
  obtain ⟨fresh', hs', hf'⟩ := h'
  refine ⟨fresh ++ fresh', by rw [hs', hs, List.append_assoc], fun i => ?_⟩
  have hlater := (Follows.refl (fresh.map (· i))).append (hf' i)
  have hboth := (hf i).append (.refl [coming i])
  rw [List.append_assoc] at hboth
  rw [List.map_append, List.append_assoc]
  exact (hlater.trans hboth).of_concat_twice

end Takes

class LawfulLayers (β : Type) [Backend β] [Contents β] [LawfulBackend β] [Layers β] : Prop where
  takes_read {b : β} (address length : Nat) (coming : Nat → UInt8) : LawfulBackend.Valid False b →
    Takes coming b (Backend.read address length b).2
  takes_write {b : β} {address : Nat} {data : ByteArray} {coming : Nat → UInt8} :
    LawfulBackend.Valid False b → Bytes.Shows coming address data.size data →
    Takes coming b (Backend.write address data b).2
  takes_flush {b : β} (coming : Nat → UInt8) : LawfulBackend.Valid False b →
    Takes coming b (Backend.flush b).2
  takes_shutdown {b : β} (coming : Nat → UInt8) : LawfulBackend.Valid False b →
    Takes coming b (Backend.shutdown b).2
  lower_of_clean {b : β} {i : Nat} : LawfulBackend.Valid False b → Contents.Clean b →
    ∀ v ∈ Layers.lower b i, v = Contents.byteAt b i

structure Preserves {B C : Type} [Backend B] [Contents B] [LawfulBackend B] [Backend C] [Contents C]
    [LawfulBackend C] (f : B → C) : Prop where
  size : ∀ b, Contents.size (f b) = Contents.size b
  bytes : ∀ b, Contents.byteAt (f b) = Contents.byteAt b
  clean : ∀ b, Contents.Clean b → Contents.Clean (f b)
  valid : ∀ b, LawfulBackend.Valid False b → LawfulBackend.Valid False (f b)

namespace Recorded

variable {β : Type} [Contents β]

instance : Contents (Recorded β) where
  size r := Contents.size r.inner
  byteAt r := Contents.byteAt r.inner
  Clean r := Contents.Clean r.inner
  writes r := Contents.writes r.inner

theorem keeps_of_inner {r t : Recorded β} (h : Keeps r.inner t.inner) : Keeps r t :=
  ⟨h.size, h.bytes, h.quiet⟩

theorem writes_of_inner {r t : Recorded β} {address : Nat} {data : ByteArray} {k : Nat}
    (h : Writes address data k r.inner t.inner) : Writes address data k r t :=
  ⟨h.size, h.bytes⟩

instance : Layers (Recorded β) where
  lower _ _ := []
  states r := r.log.map fun w => Contents.byteAt w.left

theorem takes_of_quiet {r t : Recorded β} (coming : Nat → UInt8) (hl : t.log = r.log)
    (hb : Contents.byteAt t.inner = Contents.byteAt r.inner) : Takes coming r t := by
  have hsame : Takes coming r r := .refl coming r
  unfold Takes layers at hsame ⊢
  change ∃ fresh, t.log.map _ = _ ∧ ∀ i, Follows (_ ++ [Contents.byteAt t.inner i]) _
  rw [hl, hb]
  exact hsame

variable [Backend β] [LawfulBackend β]

instance : LawfulBackend (Recorded β) where
  Valid sure r := LawfulBackend.Valid sure r.inner
  capacity_eq {sure r} h := LawfulBackend.capacity_eq (b := r.inner) h
  byteAt_of_size_le {sure r i} h hi := LawfulBackend.byteAt_of_size_le (b := r.inner) h hi
  ends_read address length h := by
    apply ((hom_inner.read address length).ends (LawfulBackend.ends_read address length h)).mono
    · exact fun data t ht => ⟨ht.1, keeps_of_inner ht.2.1, ht.2.2⟩
    · exact fun e t ht => ⟨ht.1, keeps_of_inner ht.2.1, ht.2.2⟩
  ends_write address data h := by
    apply ((hom_inner.write address data).ends (LawfulBackend.ends_write address data h)).mono
    · exact fun _ t ht => ⟨ht.1, ht.2.1, writes_of_inner ht.2.2⟩
    · rintro e t ⟨hv, ⟨k, hk, hw⟩, hsure⟩
      refine ⟨hv, ⟨k, hk, writes_of_inner hw⟩, fun hs => ?_⟩
      exact ⟨(hsure hs).1, keeps_of_inner (hsure hs).2.1, (hsure hs).2.2⟩
  ends_flush h := by
    apply (hom_inner.flush.ends (LawfulBackend.ends_flush h)).mono
    · exact fun _ t ht => ⟨ht.1, keeps_of_inner ht.2.1, ht.2.2⟩
    · exact fun e t ht => ⟨ht.1, keeps_of_inner ht.2.1, ht.2.2⟩
  ends_shutdown h := by
    apply (hom_inner.shutdown.ends (LawfulBackend.ends_shutdown h)).mono
    · exact fun _ t ht => ⟨ht.1, keeps_of_inner ht.2.1, ht.2.2⟩
    · exact fun e t ht => ⟨ht.1, keeps_of_inner ht.2.1, ht.2.2⟩

theorem takes_write {r : Recorded β} {address : Nat} {data : ByteArray} {coming : Nat → UInt8}
    (h : LawfulBackend.Valid False r) (hd : Bytes.Shows coming address data.size data) :
    Takes coming r (Backend.write address data r).2 := by
  have hwrite : ∃ k ≤ data.size, Writes address data k r (Backend.write address data r).2 := by
    apply Op.Ends.always
      (P := fun t => ∃ k ≤ data.size, Writes address data k r t)
    apply (LawfulBackend.ends_write address data h).mono
    · exact fun _ t ht => ⟨data.size, Nat.le_refl _, ht.2.2⟩
    · exact fun e t ht => ht.2.1
  obtain ⟨k, hk, hw⟩ := hwrite
  refine ⟨[Contents.byteAt (Backend.write address data r).2], List.map_append, fun i => ?_⟩
  have hbyte := (hd.slice (k := 0) (n := k) (by omega)).overlay (Contents.byteAt r) i
  rw [Nat.add_zero, ← hw.bytes] at hbyte
  -- the state in the record is the one in which the store is now
  change Follows [Contents.byteAt (Backend.write address data r).2 i,
    Contents.byteAt (Backend.write address data r).2 i] [Contents.byteAt r i, coming i]
  rcases hbyte with hi | hi
  · rw [hi]
    exact (Follows.refl _).stay.append_right [coming i]
  · rw [hi]
    exact (Follows.refl _).stay.append_left [Contents.byteAt r i]

instance : LawfulLayers (Recorded β) where
  takes_read address length coming h :=
    takes_of_quiet coming rfl (LawfulBackend.kept_read address length h).2.bytes
  takes_write h hd := takes_write h hd
  takes_flush coming h := takes_of_quiet coming rfl (LawfulBackend.kept_flush h).2.bytes
  takes_shutdown coming h := takes_of_quiet coming rfl (LawfulBackend.kept_shutdown h).2.bytes
  lower_of_clean _ _ _ hv := absurd hv List.not_mem_nil

theorem preserves_start :
    Preserves (start : β → Recorded β) :=
  ⟨fun _ => rfl, fun _ => rfl, fun _ h => h, fun _ h => h⟩

theorem preserves_inner :
    Preserves (inner : Recorded β → β) :=
  ⟨fun _ => rfl, fun _ => rfl, fun _ h => h, fun _ h => h⟩

end Recorded

end TieredMemory
