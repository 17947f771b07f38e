import TieredMemory.Proofs.Handles.Placement

namespace TieredMemory.Handles

section Relation

variable {e : Event} {s : Handles} {h : HeldHierarchy} {k : Nat}

theorem config_direct (e : Event) (h : HeldHierarchy) : (e.direct h).2.config = h.config := by
  cases e with
  | read handle address room =>
    cases room with
    | none => rfl
    | some length => exact Hierarchy.config_read address length
  | write handle address data =>
    cases data with
    | none => rfl
    | some data => exact Hierarchy.config_write address data
  | destroy handle => exact Hierarchy.config_destroy
  | disturb handle onRead onWrite onSync =>
    change (h.disturb onRead onWrite onSync).config = h.config
    rw [Hierarchy.disturb_eq]
    rfl
  | _ => rfl

structure Holds (k : Nat) (h : HeldHierarchy) (s : Handles) : Prop where
  live : s.live[k]? = some (h.holding (.zeros 0))
  place : s.disk.find h.config.pagefile = .file h.file.bytes

theorem Holds.loaded (hs : Holds k h s) :
    (h.holding (.zeros 0)).holding
      ((s.disk.find (h.holding (.zeros 0)).config.pagefile).bytes?.getD (.zeros 0)) = h := by
  rw [Hierarchy.config_holding, hs.place, Hierarchy.holding_holding]
  exact Hierarchy.holding_self h

theorem Holds.perform (hs : Holds k h s) (hk : e.handle? = some k) :
    (e.perform s).1 = (e.direct h).1 ∧
    (e.perform s).2.disk.find h.config.pagefile = .file (e.direct h).2.file.bytes ∧
    (e.destroyed? ≠ some k → Holds k (e.direct h).2 (e.perform s).2) := by
  have hsame : (h.holding (.zeros 0)).config.pagefile = h.config.pagefile :=
    congrArg Config.pagefile (Hierarchy.config_holding _ h)
  have hinsert : ∀ u, (s.live.insert k u)[k]? = some u := fun u => by
    rw [Std.TreeMap.getElem?_insert_self]
  rcases perform_some hk hs.live with ⟨hd, hp, hu⟩ | ⟨onRead, onWrite, onSync, rfl, hp⟩ | hp
  · rw [hp, hu h]
    exact ⟨rfl, hs.place, fun _ => hs⟩
  · rw [hp]
    have hfile : (h.disturb onRead onWrite onSync).file.bytes = h.file.bytes := by
      rw [Hierarchy.disturb_eq]
      rfl
    refine ⟨rfl, ?_, fun _ => ⟨?_, ?_⟩⟩
    · exact hs.place.trans (congrArg Location.file hfile.symm)
    · rw [hinsert, Hierarchy.disturb_holding]
      rfl
    · rw [config_direct]
      exact hs.place.trans (congrArg Location.file hfile.symm)
  · rw [hs.loaded, hsame] at hp
    rw [hp]
    refine ⟨rfl, Disk.find_put_self _ _ _, fun hd => ⟨?_, ?_⟩⟩
    · rw [if_neg hd, hinsert]
    · rw [config_direct]
      exact Disk.find_put_self _ _ _

theorem Holds.frame {j : Nat} (hs : Holds k h s) (hj : e.handle? = some j) (hne : j ≠ k)
    (hfile : ∀ u, s.live[j]? = some u → u.config.pagefile ≠ h.config.pagefile) :
    Holds k h (e.perform s).2 := by
  have hinsert : ∀ u, (s.live.insert j u)[k]? = s.live[k]? := fun u => by
    rw [Std.TreeMap.getElem?_insert, if_neg]
    exact fun hc => hne (Std.LawfulEqCmp.compare_eq_iff_eq.mp hc)
  have herase : (s.live.erase j)[k]? = s.live[k]? := by
    rw [Std.TreeMap.getElem?_erase, if_neg]
    exact fun hc => hne (Std.LawfulEqCmp.compare_eq_iff_eq.mp hc)
  cases hl : s.live[j]? with
  | none =>
    rw [perform_none hj hl]
    exact hs
  | some u =>
    rcases perform_some hj hl with ⟨-, hp, -⟩ | ⟨onRead, onWrite, onSync, rfl, hp⟩ | hp
    · rw [hp]
      exact hs
    · rw [hp]
      exact ⟨(hinsert _).trans hs.live, hs.place⟩
    · rw [hp]
      constructor
      · dsimp only
        split
        · exact herase.trans hs.live
        · exact (hinsert _).trans hs.live
      · rw [Disk.find_put_of_ne (hfile u hl)]
        exact hs.place

structure Confined (k : Nat) (s t : Handles) : Prop where
  next : t.next = s.next
  live : ∀ (j : Nat) (v : HeldHierarchy), t.live[j]? = some v →
    ∃ u : HeldHierarchy, s.live[j]? = some u ∧ v.config = u.config
  disk : ∀ path, t.disk.find path = s.disk.find path ∨
    ∃ (u : HeldHierarchy) (bytes : SparseBytes), s.live[k]? = some u ∧
      u.config.pagefile = path ∧ t.disk.find path = .file bytes

theorem Confined.refl (k : Nat) (s : Handles) : Confined k s s :=
  ⟨rfl, fun _ v hv => ⟨v, hv, rfl⟩, fun _ => .inl rfl⟩

theorem confined_perform (hk : e.handle? = some k) : Confined k s (e.perform s).2 := by
  cases hl : s.live[k]? with
  | none =>
    rw [perform_none hk hl]
    exact .refl k s
  | some u =>
    have hinsert : ∀ w : HeldHierarchy, w.config = u.config → ∀ (j : Nat) (v : HeldHierarchy),
        (s.live.insert k w)[j]? = some v →
          ∃ u : HeldHierarchy, s.live[j]? = some u ∧ v.config = u.config := by
      intro w hw j v hv
      rw [Std.TreeMap.getElem?_insert] at hv
      split at hv
      · rename_i hc
        obtain rfl := Std.LawfulEqCmp.compare_eq_iff_eq.mp hc
        obtain rfl := Option.some.inj hv
        exact ⟨u, hl, hw⟩
      · exact ⟨v, hv, rfl⟩
    rcases perform_some hk hl with ⟨-, hp, -⟩ | ⟨onRead, onWrite, onSync, rfl, hp⟩ | hp
    · rw [hp]
      exact .refl k s
    · rw [hp]
      exact ⟨rfl, hinsert _ (config_direct (.disturb k onRead onWrite onSync) u), fun _ => .inl rfl⟩
    · rw [hp]
      refine ⟨rfl, fun j v hv => ?_, fun path => ?_⟩
      · dsimp only at hv
        split at hv
        · rw [Std.TreeMap.getElem?_erase] at hv
          split at hv
          · cases hv
          · exact ⟨v, hv, rfl⟩
        · refine hinsert _ ?_ j v hv
          rw [Hierarchy.config_holding, config_direct, Hierarchy.config_holding]
      · dsimp only
        rw [Disk.find_put]
        split
        · rename_i hc
          exact .inr ⟨u, _, hl, hc, rfl⟩
        · exact .inl rfl

theorem config_perform {j : Nat} {v : HeldHierarchy}
    (hv : (e.perform s).2.live[j]? = some v) :
    (∃ u : HeldHierarchy, s.live[j]? = some u ∧ v.config = u.config) ∨
      (j = s.next ∧ e.config? = some v.config) := by
  cases hk : e.handle? with
  | some k => exact .inl ((confined_perform hk).live j v hv)
  | none =>
    have hkeep : (e.perform s).2.live = s.live →
        ∃ u : HeldHierarchy, s.live[j]? = some u ∧ v.config = u.config :=
      fun hl => ⟨v, hl ▸ hv, rfl⟩
    cases e with
    | create path maximumSize himem psram ram =>
      cases hb : (Event.create path maximumSize himem psram ram).build? s.disk with
      | none =>
        rcases perform_unbuilt rfl hb with hp | ⟨config, refusal, he, hr, hp⟩
        · exact .inl (hkeep (by rw [hp]))
        · exact .inl (hkeep (by rw [hp]))
      | some h =>
        obtain ⟨config, he, hh⟩ := exists_of_build? hb
        rw [perform_create_ok he hh, Std.TreeMap.getElem?_insert] at hv
        split at hv
        · rename_i hc
          obtain rfl := Option.some.inj hv
          rw [Hierarchy.config_holding, (Hierarchy.created hh).2]
          exact .inr ⟨(Std.LawfulEqCmp.compare_eq_iff_eq.mp hc).symm, he⟩
        · exact .inl ⟨v, hv, rfl⟩
    | touch path place => exact .inl (hkeep rfl)
    | _ => cases hk

end Relation

/-- Nobody else touches a page file, and no create names one that is in use. -/
structure Entry.Apart (c : Entry) : Prop where
  undisturbed : ∀ path place, c.event ≠ .touch path place
  unused : ∀ config, c.event.config? = some config → ∀ (k : Nat) (u : HeldHierarchy),
    c.before.live[k]? = some u → u.config.pagefile ≠ config.pagefile

structure Separate (disk : Disk) (s : Handles) : Prop where
  positive : 0 < s.next
  issued : ∀ (k : Nat) (u : HeldHierarchy), s.live[k]? = some u → k < s.next
  own : ∀ (j k : Nat) (u v : HeldHierarchy), s.live[j]? = some u → s.live[k]? = some v →
    u.config.pagefile = v.config.pagefile → j = k
  clear : ∀ (k : Nat) (u : HeldHierarchy), s.live[k]? = some u →
    (disk.find u.config.pagefile).obstacle? = none
  same : ∀ path, (s.disk.find path).obstacle? = (disk.find path).obstacle?

theorem separate_start (disk : Disk) : Separate disk { disk } := by
  have hnone : ∀ k : Nat, ({ disk } : Handles).live[k]? = none :=
    fun k => Std.TreeMap.getElem?_emptyc
  refine ⟨Nat.one_pos, fun k u hk => ?_, fun j k u v hj => ?_, fun k u hk => ?_, fun path => rfl⟩
  · rw [hnone] at hk
    cases hk
  · rw [hnone] at hj
    cases hj
  · rw [hnone] at hk
    cases hk

theorem apart_of_nodup {events : List Event} {s : Handles}
    (hq : ∀ e ∈ events, ∀ path place, e ≠ .touch path place)
    (hn : ((events.filterMap Event.config?).map Config.pagefile).Nodup)
    (hs : ∀ (k : Nat) (u : HeldHierarchy), s.live[k]? = some u →
      u.config.pagefile ∉ (events.filterMap Event.config?).map Config.pagefile) :
    ∀ c ∈ history events s, c.Apart := by
  induction events generalizing s with
  | nil => exact fun c hm => nomatch hm
  | cons e events ih =>
    obtain ⟨hqe, hqs⟩ := List.forall_mem_cons.mp hq
    cases he : e.config? with
    | none =>
      rw [List.filterMap_cons_none he] at hn hs
      refine List.forall_mem_cons.mpr ⟨⟨hqe, fun config hc => ?_⟩, ih hqs hn fun k v hv => ?_⟩
      · cases he.symm.trans hc
      · rcases config_perform hv with ⟨u, hu, hc⟩ | ⟨-, hc⟩
        · rw [hc]
          exact hs k u hu
        · cases he.symm.trans hc
    | some config =>
      rw [List.filterMap_cons_some he, List.map_cons] at hn hs
      obtain ⟨hnew, hnodup⟩ := List.nodup_cons.mp hn
      refine List.forall_mem_cons.mpr ⟨⟨hqe, fun config' hc k u hu hp => ?_⟩,
        ih hqs hnodup fun k v hv => ?_⟩
      · obtain rfl := Option.some.inj (he.symm.trans hc)
        exact hs k u hu (hp ▸ List.mem_cons_self)
      · rcases config_perform hv with ⟨u, hu, hc⟩ | ⟨-, hc⟩
        · rw [hc]
          exact fun hm => hs k u hu (List.mem_cons_of_mem _ hm)
        · obtain rfl := Option.some.inj (he.symm.trans hc)
          exact hnew

section Separation

variable {disk : Disk} {e : Event} {s t : Handles} {k : Nat}

theorem Separate.confined (hs : Separate disk s) (h : Confined k s t) : Separate disk t := by
  refine ⟨h.next ▸ hs.positive, fun j v hv => ?_, fun i j v w hv hw hp => ?_, fun j v hv => ?_,
    fun path => ?_⟩
  · obtain ⟨u, hu, -⟩ := h.live j v hv
    rw [h.next]
    exact hs.issued j u hu
  · obtain ⟨u, hu, hc⟩ := h.live i v hv
    obtain ⟨u', hu', hc'⟩ := h.live j w hw
    rw [hc, hc'] at hp
    exact hs.own i j u u' hu hu' hp
  · obtain ⟨u, hu, hc⟩ := h.live j v hv
    rw [hc]
    exact hs.clear j u hu
  · rcases h.disk path with hd | ⟨u, bytes, hu, rfl, hd⟩
    · rw [hd]
      exact hs.same path
    · rw [hd]
      exact (hs.clear k u hu).symm

theorem Separate.step (hs : Separate disk s) (ha : (enter e s).Apart) :
    Separate disk (e.perform s).2 := by
  cases hk : e.handle? with
  | some k => exact hs.confined (confined_perform hk)
  | none =>
    have hc : e.creates = true := by
      cases e with
      | create => rfl
      | touch path place => exact absurd rfl (ha.undisturbed path place)
      | _ => cases hk
    cases hb : e.build? s.disk with
    | none =>
      rcases perform_unbuilt hc hb with hp | ⟨config, refusal, he, hr, hp⟩
      · rw [hp]
        exact hs
      · rw [hp]
        refine ⟨hs.positive, hs.issued, hs.own, hs.clear, fun path => ?_⟩
        dsimp only
        rw [Disk.find_put]
        split
        · rename_i hpath
          rw [Hierarchy.obstacle?_refusal hr, hpath]
          exact hs.same path
        · exact hs.same path
    | some h =>
      obtain ⟨config, he, hh⟩ := exists_of_build? hb
      obtain ⟨hplace, -⟩ := Hierarchy.created hh
      have hlive : ∀ (j : Nat) (v : HeldHierarchy), (e.perform s).2.live[j]? = some v →
          (∃ u : HeldHierarchy, s.live[j]? = some u ∧ v.config = u.config) ∨
            (j = s.next ∧ v.config = config) := by
        intro j v hv
        refine (config_perform hv).imp_right fun ⟨hj, hc⟩ => ⟨hj, ?_⟩
        exact Option.some.inj (hc.symm.trans he)
      rw [perform_create_ok he hh] at hlive ⊢
      refine ⟨Nat.succ_pos _, fun j v hv => ?_, fun i j v w hv hw hp => ?_, fun j v hv => ?_,
        fun path => ?_⟩
      · rcases hlive j v hv with ⟨u, hu, -⟩ | ⟨rfl, -⟩
        · exact Nat.lt_succ_of_lt (hs.issued j u hu)
        · exact Nat.lt_succ_self _
      · rcases hlive i v hv with ⟨u, hu, hvc⟩ | ⟨rfl, hvc⟩
        · rcases hlive j w hw with ⟨u', hu', hwc⟩ | ⟨rfl, hwc⟩
          · rw [hvc, hwc] at hp
            exact hs.own i j u u' hu hu' hp
          · rw [hvc, hwc] at hp
            exact absurd hp (ha.unused config he i u hu)
        · rcases hlive j w hw with ⟨u', hu', hwc⟩ | ⟨rfl, -⟩
          · rw [hvc, hwc] at hp
            exact absurd hp.symm (ha.unused config he j u' hu')
          · rfl
      · rcases hlive j v hv with ⟨u, hu, hvc⟩ | ⟨-, hvc⟩
        · rw [hvc]
          exact hs.clear j u hu
        · rw [hvc, ← hs.same, hplace]
      · dsimp only
        rw [Disk.find_put]
        split
        · rename_i hpath
          rw [← hs.same, ← hpath, hplace]
          rfl
        · exact hs.same path

theorem Separate.keeps {h : HeldHierarchy} (hs : Separate disk s) (ha : (enter e s).Apart)
    (hh : Holds k h s) (hk : e.handle? ≠ some k) : Holds k h (e.perform s).2 := by
  have hpath : ∀ u : HeldHierarchy, u.config.pagefile = h.config.pagefile ↔
      u.config.pagefile = (h.holding (.zeros 0)).config.pagefile := by
    intro u
    rw [Hierarchy.config_holding]
  cases hj : e.handle? with
  | some j =>
    have hne : j ≠ k := fun hc => hk (hj.trans (congrArg some hc))
    exact hh.frame hj hne fun u hu hp => hne (hs.own j k _ _ hu hh.live ((hpath u).mp hp))
  | none =>
    have hc : e.creates = true := by
      cases e with
      | create => rfl
      | touch path place => exact absurd rfl (ha.undisturbed path place)
      | _ => cases hj
    have hother : ∀ config, e.config? = some config → config.pagefile ≠ h.config.pagefile := by
      intro config he hp
      apply ha.unused config he k _ hh.live
      rw [Hierarchy.config_holding, hp]
    cases hb : e.build? s.disk with
    | none =>
      rcases perform_unbuilt hc hb with hp | ⟨config, refusal, he, hr, hp⟩
      · rw [hp]
        exact hh
      · rw [hp]
        refine ⟨hh.live, ?_⟩
        rw [Disk.find_put_of_ne (hother config he)]
        exact hh.place
    | some u =>
      obtain ⟨config, he, hu⟩ := exists_of_build? hb
      have hlt : k < s.next := hs.issued k _ hh.live
      rw [perform_create_ok he hu]
      constructor
      · rw [Std.TreeMap.getElem?_insert, if_neg]
        · exact hh.live
        · exact fun heq => Nat.ne_of_gt hlt (Std.LawfulEqCmp.compare_eq_iff_eq.mp heq)
      · rw [Disk.find_put_of_ne (hother config he)]
        exact hh.place

end Separation

def tenure (k : Nat) : List Entry → List Entry
  | [] => []
  | c :: entries =>
    if c.event.handle? = some k then
      if c.event.destroyed? = some k then [c] else c :: tenure k entries
    else tenure k entries

namespace Event

def renumber (k : Nat) : Event → Event
  | read _ address room => read k address room
  | write _ address data => write k address data
  | flush _ => flush k
  | destroy _ => destroy k
  | disturb _ onRead onWrite onSync => disturb k onRead onWrite onSync
  | e => e

def directly : List Event → HeldHierarchy → List (Reply × Location)
  | [], _ => []
  | e :: events, h =>
    ((e.direct h).1, .file (e.direct h).2.file.bytes) :: directly events (e.direct h).2

end Event

def Reply.unnumbered : Reply → Reply
  | .number n => .number (min n 1)
  | reply => reply

def Entry.view (path : String) (c : Entry) : Reply × Location :=
  (c.reply.unnumbered, c.after.disk.find path)

section Tenure

variable {disk : Disk} {e : Event} {s t : Handles} {h : HeldHierarchy} {k : Nat}

theorem unnumbered_direct (e : Event) (h : HeldHierarchy) :
    (e.direct h).1.unnumbered = (e.direct h).1 := by
  cases e with
  | read handle address room => cases room <;> rfl
  | write handle address data => cases data <;> rfl
  | _ => rfl

theorem event_enter (e : Event) (s : Handles) : (enter e s).event = e := rfl

theorem view_enter (hh : Holds k h s) (hk : e.handle? = some k) :
    (enter e s).view h.config.pagefile =
      ((e.direct h).1, .file (e.direct h).2.file.bytes) := by
  obtain ⟨hr, hp, -⟩ := hh.perform hk
  simp only [Entry.view, enter, hr, hp, unnumbered_direct]

theorem view_tenure (events : List Event) (hs : Separate disk s) (hh : Holds k h s)
    (ha : ∀ c ∈ history events s, c.Apart) :
    (tenure k (history events s)).map (Entry.view h.config.pagefile) =
      Event.directly ((tenure k (history events s)).map (·.event)) h := by
  induction events generalizing s h with
  | nil => rfl
  | cons e events ih =>
    obtain ⟨hae, hrest⟩ := List.forall_mem_cons.mp ha
    have hnext := hs.step hae
    by_cases hk : (enter e s).event.handle? = some k
    · have hview := view_enter (e := e) hh hk
      by_cases hd : (enter e s).event.destroyed? = some k
      · rw [history, tenure, if_pos hk, if_pos hd]
        simp only [List.map_cons, List.map_nil, hview, Event.directly, event_enter]
      · have hlater := ih hnext ((hh.perform hk).2.2 hd) hrest
        rw [config_direct] at hlater
        rw [history, tenure, if_pos hk, if_neg hd]
        simp only [List.map_cons, hview, Event.directly, hlater, event_enter]
    · rw [history, tenure, if_neg hk]
      exact ih hnext (hs.keeps hae hh hk) hrest

theorem direct_renumber (e : Event) (j : Nat) : (e.renumber j).direct = e.direct := by
  cases e with
  | read handle address room => cases room <;> rfl
  | write handle address data => cases data <;> rfl
  | _ => rfl

theorem handle?_renumber (hk : e.handle? = some k) (j : Nat) :
    (e.renumber j).handle? = some j := by
  cases e with
  | create => cases hk
  | touch => cases hk
  | _ => rfl

theorem destroyed?_renumber {j : Nat} (hk : e.handle? = some k) (hd : e.destroyed? ≠ some k) :
    (e.renumber j).destroyed? ≠ some j := by
  cases e with
  | destroy handle => exact absurd hk hd
  | _ => exact fun h => nomatch h

theorem view_alone (entries : List Entry) {j : Nat} (hh : Holds j h t) :
    (history ((tenure k entries).map (·.event.renumber j)) t).map (Entry.view h.config.pagefile) =
      Event.directly ((tenure k entries).map (·.event)) h := by
  induction entries generalizing t h with
  | nil => rfl
  | cons c entries ih =>
    by_cases hk : c.event.handle? = some k
    · have hview := view_enter hh (handle?_renumber hk j)
      rw [direct_renumber] at hview
      by_cases hd : c.event.destroyed? = some k
      · rw [tenure, if_pos hk, if_pos hd]
        simp only [List.map_cons, List.map_nil, history, hview, Event.directly]
      · have hnext := (hh.perform (handle?_renumber hk j)).2.2 (destroyed?_renumber hk hd)
        rw [direct_renumber] at hnext
        have hlater := ih hnext
        rw [config_direct] at hlater
        rw [tenure, if_pos hk, if_neg hd]
        simp only [List.map_cons, history, hview, Event.directly, hlater]
    · rw [tenure, if_neg hk]
      exact ih hh

variable {config : Config}

theorem holds_create (he : e.config? = some config)
    (hh : Hierarchy.create config ({} : EmulatedProvider) (s.disk.find config.pagefile) = .ok h) :
    Holds s.next h (e.perform s).2 := by
  rw [perform_create_ok he hh]
  constructor
  · exact Std.TreeMap.getElem?_insert_self
  · dsimp only
    rw [(Hierarchy.created hh).2]
    exact Disk.find_put_self _ _ _

theorem view_create (he : e.config? = some config) (hs : 0 < s.next)
    (hh : Hierarchy.create config ({} : EmulatedProvider) (s.disk.find config.pagefile) = .ok h) :
    (enter e s).view config.pagefile = (.number 1, .file h.file.bytes) := by
  have hnumber : (Reply.number s.next).unnumbered = .number 1 :=
    congrArg Reply.number (Nat.min_eq_right hs)
  simp only [Entry.view, enter, perform_create_ok he hh, hnumber, Disk.find_put_self]

end Tenure

/-- The calls on one handle are answered, and leave its page file, as if they were made by
themselves, and as the calls of the hierarchy itself. -/
structure Isolated (disk : Disk) (config : Config) (c : Entry) (mine : List Entry) : Prop where
  alone : (c :: mine).map (Entry.view config.pagefile) =
    (history (c.event :: mine.map (·.event.renumber 1)) { disk }).map
      (Entry.view config.pagefile)
  direct : ∃ h, Hierarchy.create config ({} : EmulatedProvider) (disk.find config.pagefile) =
      .ok h ∧
    (c :: mine).map (Entry.view config.pagefile) =
      (.number 1, .file h.file.bytes) :: Event.directly (mine.map (·.event)) h

theorem isolated_enter {disk : Disk} {config : Config} {e : Event} {s : Handles} {k : Nat}
    {events : List Event} (hs : Separate disk s) (hs' : Separate disk (enter e s).after)
    (ha : ∀ d ∈ history events (enter e s).after, d.Apart) (he : e.config? = some config)
    (hk : (enter e s).reply = .number k) (hpos : 0 < k) :
    Isolated disk config (enter e s) (tenure k (history events (enter e s).after)) := by
  cases hh : Hierarchy.create config ({} : EmulatedProvider) (s.disk.find config.pagefile) with
  | error refusal =>
    rw [enter, perform_create_error he hh] at hk
    cases hk
    exact absurd hpos (Nat.lt_irrefl 0)
  | ok u =>
    have hnumber : s.next = k := by
      rw [enter, perform_create_ok he hh] at hk
      exact Reply.number.inj hk
    have hheld : Holds k u (enter e s).after := hnumber ▸ holds_create he hh
    have hfresh := Hierarchy.create_congr (hs.same config.pagefile) hh
    -- both runs are the calls of the new hierarchy itself
    have hmine := view_tenure events hs' hheld ha
    have hown := view_alone (k := k) (history events (enter e s).after)
      (holds_create (s := { disk }) he hfresh)
    rw [(Hierarchy.created hh).2] at hmine hown
    have hview := view_create he hs.positive hh
    refine ⟨?_, u, hfresh, ?_⟩
    · rw [List.map_cons, hmine, hview, history, List.map_cons, event_enter,
        view_create he Nat.one_pos hfresh]
      exact congrArg _ hown.symm
    · rw [List.map_cons, hmine, hview]

structure Isolation (disk : Disk) (entries : List Entry) : Prop where
  unnamed : ∀ c ∈ entries, c.event.creates = true → c.event.config? = none →
    c.reply = .number 0 ∧ c.after = c.before
  refused : ∀ c ∈ entries, ∀ config refusal, c.event.config? = some config →
    Hierarchy.create config ({} : EmulatedProvider) (c.before.disk.find config.pagefile) =
      .error refusal →
    c.reply = .number 0 ∧ c.after.disk.find config.pagefile = refusal.place
  created : ∀ c ∈ entries, ∀ config h, c.event.config? = some config →
    Hierarchy.create config ({} : EmulatedProvider) (c.before.disk.find config.pagefile) =
      .ok h →
    c.view config.pagefile = (.number 1, .file h.file.bytes)
  isolated : ∀ past c future, entries = past ++ c :: future → ∀ config k,
    c.event.config? = some config → c.reply = .number k → 0 < k →
    Isolated disk config c (tenure k future)

theorem isolation_history (disk : Disk) (events : List Event)
    (ha : ∀ c ∈ history events { disk }, c.Apart) : Isolation disk (history events { disk }) := by
  have hsplit : ∀ past c future, history events { disk } = past ++ c :: future →
      c = enter c.event c.before ∧ Separate disk c.before ∧ Separate disk c.after ∧
        ∃ events', future = history events' c.after := by
    intro past c future h
    exact history_split (P := fun _ => Separate disk) ha (separate_start disk)
      (fun e _ _ hae hs => hs.step hae) h
  have hmem : ∀ c ∈ history events { disk }, c = enter c.event c.before ∧
      Separate disk c.before := by
    intro c hm
    obtain ⟨past, future, h⟩ := List.append_of_mem hm
    obtain ⟨hc, hs, -⟩ := hsplit past c future h
    exact ⟨hc, hs⟩
  refine ⟨?_, ?_, ?_, ?_⟩
  · intro c hm hc he
    obtain ⟨heq, -⟩ := hmem c hm
    have hb : c.event.build? c.before.disk = none := by
      rw [Event.build?, he]
      rfl
    rcases perform_unbuilt hc hb with hp | ⟨config, -, hconfig, -⟩
    · rw [heq, enter, hp]
      exact ⟨rfl, rfl⟩
    · rw [he] at hconfig
      cases hconfig
  · intro c hm config refusal he hr
    obtain ⟨heq, -⟩ := hmem c hm
    rw [heq, enter, perform_create_error he hr]
    exact ⟨rfl, Disk.find_put_self _ _ _⟩
  · intro c hm config h he hh
    obtain ⟨heq, hs⟩ := hmem c hm
    rw [heq]
    exact view_create he hs.positive hh
  · intro past c future h config k he hk hpos
    obtain ⟨heq, hs, hs', events', rfl⟩ := hsplit past c future h
    obtain ⟨e, s, rfl⟩ : ∃ e s, c = enter e s := ⟨_, _, heq⟩
    have hrest : ∀ d ∈ history events' (enter e s).after, d.Apart := by
      intro d hm
      apply ha
      rw [h]
      exact List.mem_append_right past (List.mem_cons_of_mem _ hm)
    exact isolated_enter hs hs' hrest he hk hpos

def inTurn : List Event := [
  .create (some "a".toUTF8) 8 ⟨2, 1⟩ ⟨2, 1⟩ ⟨2, 1⟩,
  .create (some "b".toUTF8) 9 ⟨4, 2⟩ ⟨3, 1⟩ ⟨2, 1⟩,
  .write 1 3 (some ⟨#[1, 2, 3]⟩),
  .create (some "c".toUTF8) 8 ⟨0, 1⟩ ⟨2, 1⟩ ⟨2, 1⟩,
  .write 2 3 (some ⟨#[4, 5, 6]⟩),
  .disturb 2 {} (.burst 0 1) {},
  .destroy 2,
  .read 2 3 (some 3),
  .read 1 3 (some 3),
  .destroy 1]

theorem isolation_inTurn : (∀ c ∈ history inTurn { disk := {} }, c.Apart) ∧
    Isolation {} (history inTurn { disk := {} }) := by
  have ha : ∀ c ∈ history inTurn { disk := {} }, c.Apart := by
    apply apart_of_nodup
    · simp [inTurn]
    · have hpaths : (inTurn.filterMap Event.config?).map Config.pagefile = ["a", "b", "c"] := rfl
      rw [hpaths]
      decide
    · intro k u hu
      rw [Std.TreeMap.getElem?_emptyc] at hu
      cases hu
  exact ⟨ha, isolation_history {} inTurn ha⟩

end TieredMemory.Handles
