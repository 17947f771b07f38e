import Mathlib.Data.Finset.Card
import TieredMemory.Proofs.Hierarchy
import TieredMemory.Proofs.Soak.Marks

namespace TieredMemory.Soak

section Steps

variable {M α β : Type}

theorem bind_ok {x : Step M α} {f : α → Step M β} {m t : M} {a : α} (h : x m = (.ok a, t)) :
    (x >>= f) m = f a t := by
  change ExceptT.bindCont f (x m).1 (x m).2 = f a t
  rw [h]
  rfl

theorem bind_error {x : Step M α} {f : α → Step M β} {m t : M} {e : Failure}
    (h : x m = (.error e, t)) : (x >>= f) m = (.error e, t) := by
  change ExceptT.bindCont f (x m).1 (x m).2 = (.error e, t)
  rw [h]
  rfl

end Steps

structure FlatBelow {M : Type} [Backend M] (limit : Nat) (R : M → (Nat → UInt8) → Prop) : Prop where
  read {m : M} {f : Nat → UInt8} {address length : Nat} : R m f → address + length ≤ limit →
    ∃ data t,
      Backend.read address length m = (.ok data, t) ∧ R t f ∧ Bytes.Shows f address length data
  write {m : M} {f : Nat → UInt8} {address : Nat} {data : ByteArray} : R m f →
    address + data.size ≤ limit →
    ∃ t, Backend.write address data m = (.ok (), t) ∧ R t (Bytes.overlay address data f)

section Passes

variable {M : Type} [Backend M] {R : M → (Nat → UInt8) → Prop}
variable {limit step shift n address : Nat} {m : M} {f : Nat → UInt8}

theorem mark?_of_fits (h : Fits limit shift address) :
    mark? limit shift address = some (text address) :=
  if_pos h

theorem mark?_of_not_fits (h : ¬ Fits limit shift address) : mark? limit shift address = none :=
  if_neg h

def fitting (limit step shift n address : Nat) : Nat :=
  (List.range' address n step).countP fun a => Fits limit shift a

theorem writeMarks_eq (hflat : FlatBelow limit R) (hr : R m f)
    (step shift n address written : Nat) :
    ∃ t, writeMarks limit step shift n address written m =
        (.ok (written + fitting limit step shift n address), t) ∧
      R t (inked limit step shift n address f) := by
  induction n generalizing m f address written with
  | zero => exact ⟨m, rfl, hr⟩
  | succ n ih =>
    by_cases hfits : Fits limit shift address
    · obtain ⟨t, hw, ht⟩ :=
        hflat.write hr (show address + shift + (text address).size ≤ limit from hfits)
      obtain ⟨u, hu, hru⟩ := ih ht (address + step) (written + 1)
      refine ⟨u, ?_, ?_⟩
      · simp only [writeMarks, mark?_of_fits hfits, hw, hu, fitting, List.range'_succ,
          List.countP_cons, hfits, decide_true, if_true]
        rw [Nat.add_assoc, Nat.add_comm 1]
      · rw [inked, if_pos hfits]
        exact hru
    · obtain ⟨u, hu, hru⟩ := ih hr (address + step) written
      refine ⟨u, ?_, ?_⟩
      · simp only [writeMarks, mark?_of_not_fits hfits, hu, fitting, List.range'_succ,
          List.countP_cons, hfits, decide_false, Bool.false_eq_true, if_false, Nat.add_zero]
      · rw [inked, if_neg hfits]
        exact hru

def Shown (limit shift : Nat) (f : Nat → UInt8) (a : Nat) : Prop :=
  Fits limit shift a → Bytes.Shows f (a + shift) (text a).size (text a)

def turn [DecidableEq ByteArray] (limit shift address : Nat) (next : Step M Unit) : Step M Unit :=
  fun m =>
    match mark? limit shift address with
    | none => next m
    | some text =>
      match Backend.read (address + shift) text.size m with
      | (.error e, m) => (.error (.read (address + shift) e), m)
      | (.ok found, m) =>
        if found = text then next m
        else (.error (.mismatch (address + shift) (hexadecimal address) found), m)

theorem checkMarks_succ (limit step shift n address : Nat) :
    ∃ _ : DecidableEq ByteArray, (checkMarks limit step shift (n + 1) address : Step M Unit) =
      turn limit shift address (checkMarks limit step shift n (address + step)) :=
  ⟨_, rfl⟩

theorem checkMarks_of_shown (hflat : FlatBelow limit R) (hr : R m f)
    (hshown : Shown limit shift f address) (step n : Nat) :
    ∃ t, R t f ∧
      checkMarks limit step shift (n + 1) address m =
        checkMarks limit step shift n (address + step) t := by
  obtain ⟨_, hturn⟩ := checkMarks_succ (M := M) limit step shift n address
  rw [hturn]
  by_cases hfits : Fits limit shift address
  · obtain ⟨found, t, hread, ht, hfound⟩ := hflat.read hr hfits
    refine ⟨t, ht, ?_⟩
    simp only [turn, mark?_of_fits hfits, hread, if_pos (hfound.eq (hshown hfits))]
  · exact ⟨m, hr, by simp only [turn, mark?_of_not_fits hfits]⟩

theorem checkMarks_of_lost {found : ByteArray} (hflat : FlatBelow limit R) (hr : R m f)
    (hfits : Fits limit shift address)
    (hfound : Bytes.Shows f (address + shift) (text address).size found)
    (hne : found ≠ text address) :
    ∃ t, checkMarks limit step shift (n + 1) address m =
      (.error (.mismatch (address + shift) (hexadecimal address) found), t) := by
  obtain ⟨_, hturn⟩ := checkMarks_succ (M := M) limit step shift n address
  obtain ⟨data, t, hread, -, hdata⟩ := hflat.read hr hfits
  obtain rfl := hdata.eq hfound
  refine ⟨t, ?_⟩
  rw [hturn]
  simp only [turn, mark?_of_fits hfits, hread, if_neg hne]

theorem checkMarks_eq_ok (hflat : FlatBelow limit R) (hr : R m f)
    (hshown : ∀ k < n, Shown limit shift f (address + k * step)) :
    ∃ t, checkMarks limit step shift n address m = (.ok (), t) ∧ R t f := by
  induction n generalizing m address with
  | zero => exact ⟨m, rfl, hr⟩
  | succ n ih =>
    obtain ⟨hfirst, hrest⟩ := forall_mark_lt_succ.mp hshown
    obtain ⟨t, ht, hnext⟩ := checkMarks_of_shown hflat hr hfirst step n
    rw [hnext]
    exact ih ht hrest

theorem checkMarks_eq_error {k a : Nat} {found : ByteArray} (hflat : FlatBelow limit R) (hr : R m f)
    (hk : k < n) (ha : a = address + k * step)
    (hshown : ∀ k' < k, Shown limit shift f (address + k' * step)) (hfits : Fits limit shift a)
    (hfound : Bytes.Shows f (a + shift) (text a).size found) (hne : found ≠ text a) :
    ∃ t, checkMarks limit step shift n address m =
      (.error (.mismatch (a + shift) (hexadecimal a) found), t) := by
  induction n generalizing m address k with
  | zero => exact absurd hk (Nat.not_lt_zero k)
  | succ n ih =>
    cases k with
    | zero =>
      obtain rfl : a = address := by omega
      exact checkMarks_of_lost hflat hr hfits hfound hne
    | succ k =>
      obtain ⟨hfirst, hrest⟩ := forall_mark_lt_succ.mp hshown
      obtain ⟨t, ht, hnext⟩ := checkMarks_of_shown hflat hr hfirst step n
      rw [hnext]
      exact ih ht (Nat.lt_of_succ_lt_succ hk) (ha.trans (next_mark _ _ k).symm) hrest

def marks (limit step shift : Nat) : Finset Nat :=
  (Finset.range limit).filter fun a => step ∣ a ∧ a + shift + (text a).size ≤ limit

theorem fitting_eq (hstep : 0 < step) :
    fitting limit step shift (markCount limit step) 0 = (marks limit step shift).card := by
  have hnodup : (List.range' 0 (markCount limit step) step).Nodup := List.nodup_range' step hstep
  rw [fitting, List.countP_eq_length_filter, ← List.toFinset_card_of_nodup (hnodup.filter _)]
  congr 1
  ext a
  simp only [List.mem_toFinset, List.mem_filter, List.mem_range', decide_eq_true_eq, marks,
    Finset.mem_filter, Finset.mem_range]
  constructor
  · rintro ⟨⟨k, hk, rfl⟩, hfits⟩
    exact ⟨hfits.lt_limit, ⟨k, Nat.zero_add _⟩, hfits⟩
  · rintro ⟨hlt, ⟨k, rfl⟩, hfits⟩
    refine ⟨⟨k, (lt_markCount_iff hstep).mpr ?_, (Nat.zero_add _).symm⟩, hfits⟩
    rwa [Nat.mul_comm]

theorem pass_eq_ok (shift : Nat) (hflat : FlatBelow limit R) (hr : R m f) (hstep : 0 < step)
    (hlt : limit < firstLong step + 2 * step + 1 + shift) :
    ∃ t, pass limit step shift m = (.ok (marks limit step shift).card, t) ∧
      R t (sheet limit step shift f) := by
  obtain ⟨t, hwrite, ht⟩ := writeMarks_eq hflat hr step shift (markCount limit step) 0 0
  rw [Nat.zero_add, fitting_eq hstep] at hwrite
  have hshown : ∀ k < markCount limit step,
      Shown limit shift (sheet limit step shift f) (0 + k * step) := by
    intro k _
    rw [Nat.zero_add]
    exact shows_of_lt hstep hlt (Nat.dvd_mul_left step k)
  obtain ⟨u, hcheck, hu⟩ := checkMarks_eq_ok hflat ht hshown
  refine ⟨u, ?_, hu⟩
  rw [pass, bind_ok hwrite, bind_ok hcheck]
  rfl

theorem pass_eq_mismatch (hflat : FlatBelow limit R) (hr : R m f) (hstep : 0 < step)
    (hlimit : limit < 16 ^ 16) (hle : firstLong step + 2 * step + 1 + shift ≤ limit) :
    ∃ t, pass limit step shift m = (.error (.mismatch (firstLong step + shift)
      (hexadecimal (firstLong step)) (text (16 ^ step + 1))), t) := by
  obtain ⟨t, hwrite, ht⟩ := writeMarks_eq hflat hr step shift (markCount limit step) 0 0
  have hsteps : step < 16 := by
    have hlow := (firstLong_bounds hstep).1
    exact (Nat.pow_lt_pow_iff_right (by decide : 1 < 16)).mp (by omega)
  obtain ⟨hfound, hne⟩ := shows_of_le (f := f) hstep hsteps hle
  obtain ⟨k, hk⟩ := dvd_firstLong step
  rw [Nat.mul_comm] at hk
  have hfits : Fits limit shift (firstLong step) := by
    rw [Fits, size_firstLong hstep]
    omega
  have hbefore : ∀ k' < k, Shown limit shift (sheet limit step shift f) (0 + k' * step) := by
    intro k' hk'
    rw [Nat.zero_add]
    apply shows_of_short hstep (Nat.dvd_mul_left step k')
    rw [hk]
    exact Nat.mul_lt_mul_of_pos_right hk' hstep
  obtain ⟨u, hcheck⟩ := checkMarks_eq_error hflat ht
    ((lt_markCount_iff hstep).mpr (hk ▸ hfits.lt_limit)) (hk.trans (Nat.zero_add _).symm)
    hbefore hfits hfound hne
  refine ⟨u, ?_⟩
  rw [pass, bind_ok hwrite, bind_error hcheck]

end Passes

section Hierarchies

variable {D : Type} [BlockDevice D] [BlockContents D] [LawfulDevice D] {limit step : Nat}

def Holding (limit : Nat) (h : Hierarchy D) (f : Nat → UInt8) : Prop :=
  h.Live ∧ Contents.size h = limit ∧ Contents.byteAt h = f

theorem flatBelow_hierarchy (limit : Nat) : FlatBelow limit (Holding (D := D) limit) where
  read {h f address length} hr hle := by
    obtain ⟨hl, rfl, rfl⟩ := hr
    rcases (Hierarchy.ends_read address length hl).cases with
      ⟨data, t, he, ht, hk, -, hd⟩ | ⟨_, _, -, -, -, hbad⟩
    · exact ⟨data, t, he, ⟨ht, hk.size, hk.bytes⟩, hd⟩
    · exact absurd (hbad trivial).1 (Nat.not_lt.mpr hle)
  write {h f address data} hr hle := by
    obtain ⟨hl, rfl, rfl⟩ := hr
    rcases (Hierarchy.ends_write address data hl).cases with
      ⟨_, t, he, ht, -, hw⟩ | ⟨_, _, -, -, hbad⟩
    · refine ⟨t, he, ht, hw.size, ?_⟩
      rw [hw.bytes, Bytes.slice_zero_size]
    · exact absurd (hbad trivial).1 (Nat.not_lt.mpr hle)

theorem passes_eq_ok {h : Hierarchy D} {f : Nat → UInt8} (hr : Holding limit h f) (hstep : 0 < step)
    (hlt : limit < firstLong step + 2 * step + 1) :
    ∃ t u, pass limit step 0 h = (.ok (marks limit step 0).card, t) ∧
      pass limit step 5 t = (.ok (marks limit step 5).card, u) ∧ u.Live := by
  obtain ⟨t, hfirst, ht⟩ := pass_eq_ok 0 (flatBelow_hierarchy _) hr hstep hlt
  obtain ⟨u, hsecond, hu⟩ := pass_eq_ok 5 (flatBelow_hierarchy _) ht hstep (Nat.lt_add_right 5 hlt)
  exact ⟨t, u, hfirst, hsecond, hu.1⟩

theorem first_eq_mismatch {h : Hierarchy D} {f : Nat → UInt8} (hr : Holding limit h f)
    (hstep : 0 < step) (hlimit : limit < 16 ^ 16) (hle : firstLong step + 2 * step + 1 ≤ limit) :
    ∃ t, pass limit step 0 h = (.error (.mismatch (firstLong step) (hexadecimal (firstLong step))
      (text (16 ^ step + 1))), t) :=
  pass_eq_mismatch (flatBelow_hierarchy _) hr hstep hlimit hle

end Hierarchies

section Runs

variable {kind : BlockKind} {config : Config} {provider : kind.Provider} {place : Location}
variable {h : Hierarchy kind.Device} {step : Nat}

theorem holding_create (hc : Hierarchy.create config provider place = .ok h) :
    Holding config.maximumSize h (Bytes.byteAt (Bytes.zeros config.maximumSize)) ∧
      h.maximumSize = config.maximumSize := by
  obtain ⟨hl, hm⟩ := Hierarchy.live_create (kind.ready provider) hc
  have hsize : Contents.size h = config.maximumSize := hm.size.trans (Bytes.size_zeros _)
  exact ⟨⟨hl, hsize, hm.bytes⟩, hl.size.symm.trans hsize⟩

theorem maximumSize_lt (hc : Hierarchy.create config provider place = .ok h) :
    config.maximumSize < 16 ^ 16 := by
  obtain ⟨file, hf, -⟩ := Hierarchy.create_eq_ok hc
  obtain ⟨⟨-, hlt⟩, -⟩ := PageFile.create_eq_ok_iff.mp hf
  exact Nat.lt_trans hlt (by decide)

/-- A run over a hierarchy that loses nothing reports a loss if and only if the space has room for
two texts that are longer than the step. Otherwise both passes find all the texts that fit. -/
theorem false_alarm_iff (hc : Hierarchy.create config provider place = .ok h) (hstep : 0 < step) :
    let limit := config.maximumSize
    let alarm := firstLong step + 2 * step + 1
    (limit < alarm →
      (∃ t u, pass limit step 0 h = (.ok (marks limit step 0).card, t) ∧
        pass limit step 5 t = (.ok (marks limit step 5).card, u)) ∧
      ∃ stats t, exercise step h = (.ok stats, t)) ∧
    (alarm ≤ limit → ∃ t,
      exercise step h = (.error (.mismatch (firstLong step) (hexadecimal (firstLong step))
        (text (16 ^ step + 1))), t)) := by
  obtain ⟨hr, hsize⟩ := holding_create hc
  have hlimit := maximumSize_lt hc
  rw [← hsize] at hr hlimit ⊢
  constructor
  · intro hlt
    obtain ⟨t, u, hfirst, hsecond, hu⟩ := passes_eq_ok hr hstep hlt
    refine ⟨⟨t, u, hfirst, hsecond⟩, ?_⟩
    rcases (Hierarchy.ends_flush hu).cases with ⟨_, v, hflush, -⟩ | ⟨_, _, -, hbad⟩
    · refine ⟨v.stats, v, ?_⟩
      rw [exercise, bind_ok hfirst, bind_ok hsecond, bind_ok (a := ()) (t := v)]
      · rfl
      · simp only [lift, hflush]
    · exact hbad.elim
  · intro hle
    obtain ⟨t, hfirst⟩ := first_eq_mismatch hr hstep hlimit hle
    exact ⟨t, bind_error hfirst⟩

def tinySpace (maximumSize : Nat) : Config := Profile.tiny.config.apply (.maximumSize maximumSize)

/-- With a step of one the texts of 16 and 17 overlap, and both fit into 19 bytes. -/
theorem false_alarm_iff_tiny :
    (∃ h : Hierarchy EmulatedMemory,
      Hierarchy.create (tinySpace 18) ({} : EmulatedProvider) .vacant = .ok h ∧
      ∃ t u, pass 18 1 0 h = (.ok 17, t) ∧ pass 18 1 5 t = (.ok 13, u)) ∧
    ∃ h : Hierarchy EmulatedMemory,
      Hierarchy.create (tinySpace 19) ({} : EmulatedProvider) .vacant = .ok h ∧
      ∃ t, exercise 1 h = (.error (.mismatch 16 "10" "11".toUTF8), t) := by
  refine ⟨⟨_, rfl, ?_⟩, _, rfl, ?_⟩
  · obtain ⟨hpasses, -⟩ := @false_alarm_iff .emulated (tinySpace 18) {} .vacant _ 1 rfl (by decide)
    have hfirst : (marks 18 1 0).card = 17 := by decide
    have hsecond : (marks 18 1 5).card = 13 := by decide
    rw [← hfirst, ← hsecond]
    exact (hpasses (by decide)).1
  · obtain ⟨-, halarm⟩ := @false_alarm_iff .emulated (tinySpace 19) {} .vacant _ 1 rfl (by decide)
    exact halarm (by decide)

theorem mismatch_tiny :
    ∃ h : Hierarchy EmulatedMemory,
      Hierarchy.create (tinySpace 19) ({} : EmulatedProvider) .vacant = .ok h ∧
      ∃ t, pass 19 1 0 h = (.error (.mismatch 16 "10" "11".toUTF8), t) := by
  refine ⟨_, rfl, ?_⟩
  obtain ⟨hr, -⟩ := @holding_create .emulated (tinySpace 19) {} .vacant _ rfl
  exact first_eq_mismatch hr (by decide) (by decide) (by decide)

end Runs

end TieredMemory.Soak
