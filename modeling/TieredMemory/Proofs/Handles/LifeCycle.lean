import TieredMemory.Proofs.Handles.Calls

namespace TieredMemory.Handles

def Entry.issued? (c : Entry) : Option Nat :=
  match c.event.build? c.before.disk, c.reply with
  | some _, .number n => some n
  | _, _ => none

def Alive (past : List Entry) (k : Nat) : Prop :=
  ∃ before c since, past = before ++ c :: since ∧ c.issued? = some k ∧
    ∀ d ∈ since, d.event.destroyed? ≠ some k

theorem not_alive_nil (k : Nat) : ¬ Alive [] k := by
  rintro ⟨before, c, since, h, -⟩
  simp at h

theorem alive_concat {past : List Entry} {c : Entry} {k : Nat} :
    Alive (past ++ [c]) k ↔
      c.issued? = some k ∨ (Alive past k ∧ c.event.destroyed? ≠ some k) := by
  constructor
  · rintro ⟨before, d, since, h, hd, hsince⟩
    rcases List.eq_nil_or_concat since with rfl | ⟨since, last, rfl⟩
    · obtain ⟨-, hc⟩ := List.append_inj' h rfl
      obtain rfl := List.singleton_inj.mp hc
      exact .inl hd
    · rw [List.concat_eq_append, ← List.cons_append, ← List.append_assoc] at h
      obtain ⟨rfl, hc⟩ := List.append_inj' h rfl
      obtain rfl := List.singleton_inj.mp hc
      rw [List.concat_eq_append, List.forall_mem_append] at hsince
      exact .inr ⟨⟨before, d, since, rfl, hd, hsince.1⟩, hsince.2 c (List.mem_singleton_self c)⟩
  · rintro (h | ⟨⟨before, d, since, rfl, hd, hsince⟩, h⟩)
    · exact ⟨past, c, [], rfl, h, fun d hm => nomatch hm⟩
    · refine ⟨before, d, since ++ [c], ?_, hd, ?_⟩
      · rw [List.append_assoc, List.cons_append]
      · exact List.forall_mem_append.mpr ⟨hsince, List.forall_mem_singleton.mpr h⟩

section Steps

variable {e : Event} {s : Handles} {h : HeldHierarchy} {k : Nat}

theorem issued?_of_build (hb : e.build? s.disk = some h) :
    (enter e s).issued? = some s.next ∧ (e.perform s).2.next = s.next + 1 ∧
      ∀ j, j ∈ (e.perform s).2.live ↔ s.next = j ∨ j ∈ s.live := by
  obtain ⟨config, he, hh⟩ := exists_of_build? hb
  have hp := perform_create_ok he hh
  refine ⟨?_, ?_, fun j => ?_⟩
  · simp only [Entry.issued?, enter, hb, hp]
  · rw [hp]
  · rw [hp, Std.TreeMap.mem_insert, Std.LawfulEqCmp.compare_eq_iff_eq]

theorem issued?_eq_none (hb : e.build? s.disk = none) : (enter e s).issued? = none := by
  simp only [Entry.issued?, enter, hb]

theorem refused_create (hc : e.creates = true) (hb : e.build? s.disk = none) :
    (e.perform s).1 = .number 0 ∧ (e.perform s).2.next = s.next ∧
      (e.perform s).2.live = s.live := by
  rcases perform_unbuilt hc hb with hp | ⟨config, refusal, -, -, hp⟩
  · rw [hp]
    exact ⟨rfl, rfl, rfl⟩
  · rw [hp]
    exact ⟨rfl, rfl, rfl⟩

theorem perform_handle (hk : e.handle? = some k) :
    (e.perform s).2.next = s.next ∧
      ∀ j, j ∈ (e.perform s).2.live ↔ j ∈ s.live ∧ e.destroyed? ≠ some j := by
  have hdestroyed : ∀ j, e.destroyed? = some j → k = j := by
    intro j hj
    cases e with
    | destroy handle => exact Option.some.inj (hk.symm.trans hj)
    | _ => cases hj
  cases hs : s.live[k]? with
  | none =>
    rw [perform_none hk hs]
    refine ⟨rfl, fun j => ⟨fun hj => ⟨hj, fun hd => ?_⟩, And.left⟩⟩
    rw [Std.TreeMap.mem_iff_isSome_getElem?, ← hdestroyed j hd, hs] at hj
    cases hj
  | some h =>
    have hmem : k ∈ s.live := by
      rw [Std.TreeMap.mem_iff_isSome_getElem?, hs]
      rfl
    have hinsert : ∀ u j, j ∈ s.live.insert k u ↔ j ∈ s.live := by
      intro u j
      rw [Std.TreeMap.mem_insert, Std.LawfulEqCmp.compare_eq_iff_eq]
      exact or_iff_right_of_imp fun hj => hj ▸ hmem
    rcases perform_some hk hs with ⟨hd, hp, -⟩ | ⟨onRead, onWrite, onSync, rfl, hp⟩ | hp
    · rw [hp, hd]
      exact ⟨rfl, fun j => (and_iff_left (nomatch ·)).symm⟩
    · rw [hp]
      exact ⟨rfl, fun j => (hinsert _ j).trans (and_iff_left (nomatch ·)).symm⟩
    · rw [hp]
      refine ⟨rfl, fun j => ?_⟩
      dsimp only
      split
      · rename_i hd
        rw [Std.TreeMap.mem_erase, hd, and_comm]
        exact and_congr_right fun _ =>
          not_congr (Std.LawfulEqCmp.compare_eq_iff_eq.trans Option.some_inj.symm)
      · rename_i hd
        rw [hinsert]
        exact (and_iff_left fun hj => hd (hdestroyed j hj ▸ hj)).symm

theorem answered_enter (hc : e.creates = true) :
    (enter e s).reply = .number ((enter e s).issued?.getD 0) := by
  cases hb : e.build? s.disk with
  | none =>
    rw [issued?_eq_none hb]
    exact (refused_create hc hb).1
  | some h =>
    obtain ⟨config, he, hh⟩ := exists_of_build? hb
    rw [(issued?_of_build hb).1, enter, perform_create_ok he hh]
    rfl

theorem refused_enter (hc : e.creates = true) (hs : 0 < s.next)
    (hz : (enter e s).reply = .number 0) :
    (enter e s).after.next = s.next ∧ (enter e s).after.live = s.live := by
  cases hb : e.build? s.disk with
  | none => exact (refused_create hc hb).2
  | some h =>
    rw [answered_enter hc, (issued?_of_build hb).1, Option.getD_some, Reply.number.injEq] at hz
    omega

theorem stale_enter (hk : e.handle? = some k) (hs : k ∉ s.live) :
    (enter e s).reply = .code (-1) ∧ (enter e s).after = s := by
  have hnone : s.live[k]? = none := by
    rwa [Std.TreeMap.mem_iff_isSome_getElem?, Bool.not_eq_true, Option.isSome_eq_false_iff,
      Option.isNone_iff_eq_none] at hs
  rw [enter, perform_none hk hnone]
  exact ⟨rfl, rfl⟩

end Steps

structure Booked (past : List Entry) (s : Handles) : Prop where
  next : s.next = (past.filterMap Entry.issued?).length + 1
  numbered : past.filterMap Entry.issued? =
    List.range' 1 (past.filterMap Entry.issued?).length
  live : ∀ k, k ∈ s.live ↔ Alive past k

theorem booked_start (disk : Disk) : Booked [] { disk } := by
  refine ⟨rfl, rfl, fun k => ?_⟩
  simp only [Std.TreeMap.not_mem_emptyc, not_alive_nil]

theorem Booked.step {past : List Entry} {s : Handles} (h : Booked past s) (e : Event) :
    Booked (past ++ [enter e s]) (e.perform s).2 := by
  have hunissued : (enter e s).issued? = none → (e.perform s).2.next = s.next →
      (∀ j, j ∈ (e.perform s).2.live ↔ j ∈ s.live ∧ e.destroyed? ≠ some j) →
      Booked (past ++ [enter e s]) (e.perform s).2 := by
    intro hi hn hl
    have hsame : (past ++ [enter e s]).filterMap Entry.issued? =
        past.filterMap Entry.issued? := by
      rw [List.filterMap_append, List.filterMap_cons_none hi, List.filterMap_nil,
        List.append_nil]
    refine ⟨?_, ?_, fun k => ?_⟩
    · rw [hsame, hn, h.next]
    · rw [hsame]
      exact h.numbered
    · rw [hl, h.live, alive_concat, hi]
      exact (or_iff_right (nomatch ·)).symm
  cases hb : e.build? s.disk with
  | some u =>
    obtain ⟨hi, hn, hl⟩ := issued?_of_build hb
    have hlonger : (past ++ [enter e s]).filterMap Entry.issued? =
        past.filterMap Entry.issued? ++ [s.next] := by
      rw [List.filterMap_append, List.filterMap_cons_some hi, List.filterMap_nil]
    have hcreate : ∀ j, e.destroyed? ≠ some j := by
      obtain ⟨config, he, -⟩ := exists_of_build? hb
      intro j hj
      cases e with
      | create => cases hj
      | _ => cases he
    refine ⟨?_, ?_, fun k => ?_⟩
    · rw [hlonger, List.length_append, hn, h.next, List.length_singleton]
    · rw [hlonger, List.length_append, List.length_singleton, List.range'_1_concat, ← h.numbered,
        h.next, Nat.add_comm 1]
    · rw [hl, h.live, alive_concat, hi, Option.some_inj]
      exact or_congr_right (and_iff_left (hcreate k)).symm
  | none =>
    have hi := issued?_eq_none (s := s) hb
    cases hk : e.handle? with
    | some k =>
      obtain ⟨hn, hl⟩ := perform_handle (s := s) hk
      exact hunissued hi hn hl
    | none =>
      cases e with
      | create path maximumSize himem psram ram =>
        obtain ⟨-, hn, hl⟩ := refused_create (s := s) rfl hb
        exact hunissued hi hn fun j => by rw [hl]; exact (and_iff_left (nomatch ·)).symm
      | touch path place =>
        exact hunissued hi rfl fun j => (and_iff_left (nomatch ·)).symm
      | _ => cases hk

section Runs

variable {disk : Disk} {events : List Event} {past future : List Entry} {c : Entry}

theorem booked_split (h : history events { disk } = past ++ c :: future) :
    c = enter c.event c.before ∧ Booked past c.before ∧ Booked (past ++ [c]) c.after := by
  obtain ⟨hc, hb, ha, -⟩ := history_split (Q := fun _ => True) (fun _ _ => trivial)
    (booked_start disk) (fun e _ _ _ hb => hb.step e) h
  exact ⟨hc, hb, ha⟩

theorem booked_mem (hm : c ∈ history events { disk }) :
    ∃ past, c = enter c.event c.before ∧ Booked past c.before := by
  obtain ⟨past, future, h⟩ := List.append_of_mem hm
  obtain ⟨hc, hb, -⟩ := booked_split h
  exact ⟨past, hc, hb⟩

theorem numbered_history (disk : Disk) (events : List Event) :
    (history events { disk }).filterMap Entry.issued? =
      List.range' 1 ((history events { disk }).filterMap Entry.issued?).length := by
  rcases List.eq_nil_or_concat (history events { disk }) with h | ⟨past, c, h⟩
  · rw [h]
    rfl
  · rw [List.concat_eq_append] at h
    rw [h]
    exact (booked_split h).2.2.numbered

end Runs

structure LifeCycle (entries : List Entry) : Prop where
  numbered : entries.filterMap Entry.issued? =
    List.range' 1 (entries.filterMap Entry.issued?).length
  positive : 0 ∉ entries.filterMap Entry.issued?
  distinct : (entries.filterMap Entry.issued?).Nodup
  answered : ∀ c ∈ entries, c.event.creates = true → c.reply = .number (c.issued?.getD 0)
  refused : ∀ c ∈ entries, c.event.creates = true → c.reply = .number 0 →
    c.after.next = c.before.next ∧ c.after.live = c.before.live
  live : ∀ past c future, entries = past ++ c :: future → ∀ k,
    (k ∈ c.before.live ↔ Alive past k) ∧ (k ∈ c.after.live ↔ Alive (past ++ [c]) k)
  stale : ∀ c ∈ entries, ∀ k, c.event.handle? = some k → k ∉ c.before.live →
    c.reply = .code (-1) ∧ c.after = c.before

/-- In every run, from any disk, through any failures and changes of the disk. -/
theorem lifeCycle_history (disk : Disk) (events : List Event) :
    LifeCycle (history events { disk }) := by
  have hnumbered := numbered_history disk events
  constructor
  · exact hnumbered
  · rw [hnumbered, List.mem_range'_1]
    omega
  · rw [hnumbered]
    exact List.nodup_range'
  · intro c hm hc
    obtain ⟨past, heq, -⟩ := booked_mem hm
    rw [heq]
    exact answered_enter hc
  · intro c hm hc hz
    obtain ⟨past, heq, hb⟩ := booked_mem hm
    have hnext : 0 < c.before.next := by
      rw [hb.next]
      exact Nat.succ_pos _
    rw [heq] at hz ⊢
    exact refused_enter hc hnext hz
  · intro past c future h k
    obtain ⟨-, hbefore, hafter⟩ := booked_split h
    exact ⟨hbefore.live k, hafter.live k⟩
  · intro c hm k hk hs
    obtain ⟨past, heq, -⟩ := booked_mem hm
    rw [heq]
    exact stale_enter hk hs

example : (history [.create (some "p".toUTF8) 8 ⟨2, 1⟩ ⟨2, 1⟩ ⟨2, 1⟩, .write 1 0 (some ⟨#[7]⟩),
    .disturb 1 {} (.burst 0 1) {}, .destroy 1, .destroy 1] {}).map
      (Reply.casesOn ·.reply Int.ofNat fun c _ => c) = [1, 0, 0, -1, -1] := by
  decide +kernel

end TieredMemory.Handles
