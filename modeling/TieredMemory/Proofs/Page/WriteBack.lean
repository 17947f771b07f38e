import TieredMemory.Proofs.Page.Traffic

namespace TieredMemory

inductive Change where
  | writtenBack (page : Nat) (succeeded : Bool)
  | faulted (page : Nat)
  | chunk (page offset length : Nat)
  deriving DecidableEq, Repr

namespace Change

def note (page : Nat) (chunks : List (Nat × Nat)) : Change → List (Nat × Nat)
  | writtenBack p succeeded => if p = page ∧ succeeded then [] else chunks
  | faulted p => if p = page then [] else chunks
  | chunk p offset length => if p = page then chunks ++ [(offset, length)] else chunks

/-- The chunks that were applied to a page since it was last faulted in or written back, each with
its offset and its length. -/
def pending (changes : List Change) (page : Nat) : List (Nat × Nat) := changes.foldl (note page) []

theorem pending_append (past changes : List Change) (page : Nat) :
    pending (past ++ changes) page = changes.foldl (note page) (pending past page) :=
  List.foldl_append

theorem pending_append_faulted {past : List Change} {pages : List Nat} {page : Nat}
    (h : page ∈ pages → pending past page = []) :
    pending (past ++ pages.map faulted) page = pending past page := by
  induction pages generalizing past with
  | nil => rw [List.map_nil, List.append_nil]
  | cons first pages ih =>
    have hfirst : pending (past ++ [faulted first]) page = pending past page := by
      rw [pending_append]
      by_cases hp : first = page
      · subst hp
        simp only [List.foldl_cons, List.foldl_nil, note, if_true, h List.mem_cons_self]
      · simp only [List.foldl_cons, List.foldl_nil, note, if_neg hp]
    rw [List.map_cons, List.append_cons, ih, hfirst]
    rw [hfirst]
    exact fun hm => h (List.mem_cons_of_mem first hm)

end Change

namespace DirtyRange

theorem start_cover_lt {range : Option DirtyRange} {start length limit : Nat} (hs : start < limit)
    (hr : ∀ r, range = some r → r.start < limit) : (cover range start length).start < limit := by
  cases range with
  | none => exact hs
  | some r => exact Nat.lt_of_le_of_lt (Nat.min_le_right _ _) hs

def hull (chunks : List (Nat × Nat)) : Option DirtyRange := do
  let start ← (chunks.map Prod.fst).min?
  let stop ← (chunks.map fun chunk => chunk.1 + chunk.2).max?
  return ⟨start, stop - start⟩

theorem hull_cons (chunk : Nat × Nat) (chunks : List (Nat × Nat)) :
    hull (chunk :: chunks) =
      let low := (chunks.map Prod.fst).foldl min chunk.1
      some ⟨low, (chunks.map fun c => c.1 + c.2).foldl max (chunk.1 + chunk.2) - low⟩ := by
  simp only [hull, List.map_cons, List.min?_cons', List.max?_cons']
  rfl

theorem hull_eq_none_iff {chunks : List (Nat × Nat)} : hull chunks = none ↔ chunks = [] := by
  cases chunks with
  | nil => simp [hull]
  | cons chunk chunks => simp [hull_cons]

theorem foldl_min_le_foldl_max {a b : Nat} (h : a ≤ b) (chunks : List (Nat × Nat)) :
    (chunks.map Prod.fst).foldl min a ≤ (chunks.map fun c => c.1 + c.2).foldl max b := by
  induction chunks generalizing a b with
  | nil => exact h
  | cons chunk chunks ih =>
    apply ih
    omega

theorem hull_concat (chunks : List (Nat × Nat)) (offset length : Nat) :
    hull (chunks ++ [(offset, length)]) = some (cover (hull chunks) offset length) := by
  cases chunks with
  | nil => simp [hull, cover]
  | cons chunk chunks =>
    have hle := foldl_min_le_foldl_max (Nat.le_add_right chunk.1 chunk.2) chunks
    simp only [List.cons_append, hull_cons, cover, union, stop, List.map_append, List.foldl_append,
      List.map_cons, List.map_nil, List.foldl_cons, List.foldl_nil, Nat.add_sub_cancel' hle]

end DirtyRange

variable {S H B : Type}

namespace Written

def page (pageSize : Nat) (w : Written B) : Nat := w.address / pageSize

def change (pageSize : Nat) (w : Written B) : Change := .writtenBack (w.page pageSize) w.succeeded

def Covers (pageSize : Nat) (bytes : Nat → Nat → UInt8) (w : Written B) (r : DirtyRange) : Prop :=
  w.address = w.page pageSize * pageSize + r.start ∧
    Bytes.Shows (bytes (w.page pageSize)) r.start r.length w.data

end Written

section Accounts

open Change DirtyRange

variable {pageSize : Nat} {bytes : Nat → Nat → UInt8} {dirty d : Nat → Option DirtyRange}
variable {past : List Change} {refused : Bool} {new : List (Written B)} {w : Written B}

structure Accounts (pageSize : Nat) (bytes : Nat → Nat → UInt8) (dirty d : Nat → Option DirtyRange)
    (past : List Change) (refused : Bool) (new : List (Written B)) : Prop where
  dirty_eq : ∀ page, d page = hull (pending (past ++ new.map (Written.change pageSize)) page)
  covers : ∀ a w b, new = a ++ w :: b → ∃ r,
    dirty (w.page pageSize) = some r ∧
    hull (pending (past ++ a.map (Written.change pageSize)) (w.page pageSize)) = some r ∧
    w.Covers pageSize bytes r
  cleared : ∀ w ∈ new, w.succeeded = true → d (w.page pageSize) = none
  kept : ∀ w ∈ new, w.succeeded = false → d (w.page pageSize) = dirty (w.page pageSize)
  calm : refused = false → ∀ w ∈ new, w.succeeded = true

theorem accounts_nil (h : ∀ page, dirty page = hull (pending past page)) :
    Accounts pageSize bytes dirty dirty past false ([] : List (Written B)) where
  dirty_eq page := by rw [List.map_nil, List.append_nil, h]
  covers := by simp
  cleared := nofun
  kept := nofun
  calm := nofun

theorem Accounts.covers_concat {r : DirtyRange} (h : Accounts pageSize bytes dirty d past false new)
    (hd : d (w.page pageSize) = some r) (hdirty : dirty (w.page pageSize) = some r)
    (hw : w.Covers pageSize bytes r) (a : List (Written B)) (v : Written B) (b : List (Written B))
    (hs : new ++ [w] = a ++ v :: b) : ∃ r, dirty (v.page pageSize) = some r ∧
      hull (pending (past ++ a.map (Written.change pageSize)) (v.page pageSize)) = some r ∧
      v.Covers pageSize bytes r := by
  rcases List.eq_nil_or_concat' b with rfl | ⟨b, last, rfl⟩
  · obtain ⟨rfl, hlast⟩ := List.append_inj' hs rfl
    obtain ⟨rfl, -⟩ := List.cons_eq_cons.mp hlast
    refine ⟨r, hdirty, ?_, hw⟩
    rw [← h.dirty_eq, hd]
  · rw [← List.cons_append, ← List.append_assoc] at hs
    obtain ⟨hs, -⟩ := List.append_inj' hs rfl
    exact h.covers a v b hs

theorem Accounts.of_written {r : DirtyRange} (h : Accounts pageSize bytes dirty d past false new)
    (hd : d (w.page pageSize) = some r) (hdirty : dirty (w.page pageSize) = some r)
    (hw : w.Covers pageSize bytes r) (hs : w.succeeded = true) :
    Accounts pageSize bytes dirty (Function.update d (w.page pageSize) none) past false
      (new ++ [w]) where
  dirty_eq page := by
    have := h.dirty_eq page
    rw [List.map_append, ← List.append_assoc, pending_append]
    simp only [List.map_cons, List.map_nil, List.foldl_cons, List.foldl_nil,
      Written.change, note, hs]
    by_cases hp : w.page pageSize = page
    · subst hp
      simp [hull]
    · rw [Function.update_of_ne (Ne.symm hp), if_neg (fun hx => hp hx.1), this]
  covers := h.covers_concat hd hdirty hw
  cleared v hv _ := by
    rcases List.mem_append.mp hv with hv | hv
    · rw [Function.update_apply]
      split
      · rfl
      · exact h.cleared v hv (h.calm rfl v hv)
    · rw [List.mem_singleton.mp hv, Function.update_self]
  kept v hv hf := by
    rcases List.mem_append.mp hv with hv | hv
    · rw [h.calm rfl v hv] at hf
      cases hf
    · rw [List.mem_singleton.mp hv, hs] at hf
      cases hf
  calm _ v hv := by
    rcases List.mem_append.mp hv with hv | hv
    · exact h.calm rfl v hv
    · rw [List.mem_singleton.mp hv, hs]

theorem Accounts.of_refused {r : DirtyRange} (h : Accounts pageSize bytes dirty d past false new)
    (hd : d (w.page pageSize) = some r) (hdirty : dirty (w.page pageSize) = some r)
    (hw : w.Covers pageSize bytes r) (hs : w.succeeded = false) :
    Accounts pageSize bytes dirty d past true (new ++ [w]) where
  dirty_eq page := by
    have := h.dirty_eq page
    rw [List.map_append, ← List.append_assoc, pending_append, this]
    simp [Written.change, note, hs]
  covers := h.covers_concat hd hdirty hw
  cleared v hv ht := by
    rcases List.mem_append.mp hv with hv | hv
    · exact h.cleared v hv ht
    · rw [List.mem_singleton.mp hv, hs] at ht
      cases ht
  kept v hv hf := by
    rcases List.mem_append.mp hv with hv | hv
    · exact h.kept v hv hf
    · rw [List.mem_singleton.mp hv, hd, hdirty]
  calm := nofun

theorem exists_logged [Backend B] {b t : Recorded B} {page : Nat} {r : DirtyRange}
    {data : ByteArray} {answer : Except Error Unit} (hr : r.start < pageSize)
    (hs : Bytes.Shows (bytes page) r.start r.length data)
    (hw : Backend.write (page * pageSize + r.start) data b = (answer, t)) :
    ∃ w, t.log = b.log ++ [w] ∧ w.page pageSize = page ∧ w.succeeded = answer.isOk ∧
      w.Covers pageSize bytes r := by
  have hpos : 0 < pageSize := Nat.lt_of_le_of_lt (Nat.zero_le _) hr
  have hpage : (page * pageSize + r.start) / pageSize = page := by
    rw [Nat.mul_comm, Nat.mul_add_div hpos, Nat.div_eq_of_lt hr, Nat.add_zero]
  refine ⟨_, Recorded.log_write hw, hpage, rfl, ?_⟩
  rw [Written.Covers, Written.page, hpage]
  exact ⟨rfl, hs⟩

theorem Traffic.accounts [Backend B] {below b : Recorded B}
    (h : Traffic pageSize bytes dirty below d b refused)
    (hstart : ∀ page r, dirty page = some r → r.start < pageSize)
    (hp : ∀ page, dirty page = hull (pending past page)) :
    ∃ new, b.log = below.log ++ new ∧ Accounts pageSize bytes dirty d past refused new := by
  induction h with
  | start => exact ⟨[], (List.append_nil _).symm, accounts_nil hp⟩
  | read address length _ ih => exact ih
  | flush _ ih => exact ih
  | shutdown _ ih => exact ih
  | written h hd hs hw ih =>
    obtain ⟨new, hlog, hnew⟩ := ih
    have hdirty := h.eq_of_some hd
    obtain ⟨w, hl, rfl, hok, hc⟩ := exists_logged (hstart _ _ hdirty) hs hw
    refine ⟨new ++ [w], ?_, hnew.of_written hd hdirty hc hok⟩
    rw [hl, hlog, List.append_assoc]
  | refused h hd hs hw ih =>
    obtain ⟨new, hlog, hnew⟩ := ih
    have hdirty := h.eq_of_some hd
    obtain ⟨w, hl, rfl, hok, hc⟩ := exists_logged (hstart _ _ hdirty) hs hw
    refine ⟨new ++ [w], ?_, hnew.of_refused hd hdirty hc hok⟩
    rw [hl, hlog, List.append_assoc]

end Accounts

namespace PageCache

open Change DirtyRange Residents

variable [PageStorage S H] [PageContents S H] [LawfulStorage S H] [Backend B]

abbrev Observed (S H B : Type) := Step Action Unit (PageCache S H (Recorded B))

namespace Observed

variable {S H B : Type}

def writes (s : Observed S H B) : List (Written B) :=
  s.after.below.log.drop s.before.below.log.length

def newcomers (s : Observed S H B) : List Nat :=
  s.after.cache.keysByRecency.filter fun page => !s.before.isResident page

def chunks (s : Observed S H B) : List Change :=
  match s.call, s.answer with
  | .write page offset data, .ok _ => [.chunk page offset data.size]
  | _, _ => []

def changes (pageSize : Nat) (s : Observed S H B) : List Change :=
  s.writes.map (Written.change pageSize) ++ s.newcomers.map .faulted ++ s.chunks

end Observed

structure Exact (pageSize : Nat) (past : List Change) (s : Observed S H B) : Prop where
  before : ∀ page, s.before.dirtyRange? page = hull (pending past page)
  after : ∀ page, s.after.dirtyRange? page = hull (pending (past ++ s.changes pageSize) page)
  covers : ∀ a w b, s.writes = a ++ w :: b → ∃ r,
    hull (pending (past ++ a.map (Written.change pageSize)) (w.page pageSize)) = some r ∧
    s.before.isResident (w.page pageSize) = true ∧ w.Covers pageSize s.before.stored r
  cleared : ∀ w ∈ s.writes, w.succeeded = true → s.after.dirtyRange? (w.page pageSize) = none
  kept : ∀ w ∈ s.writes, w.succeeded = false →
    s.after.dirtyRange? (w.page pageSize) = s.before.dirtyRange? (w.page pageSize)

omit [PageStorage S H] [PageContents S H] [LawfulStorage S H] [Backend B] in
theorem isResident_of_dirty {C : Type} {c : PageCache S H C} {page : Nat} {r : DirtyRange}
    (h : c.dirtyRange? page = some r) : c.isResident page = true := by
  obtain ⟨p, hp, -⟩ := Option.bind_eq_some_iff.mp h
  obtain ⟨node, hn, -⟩ := Option.map_eq_some_iff.mp hp
  rw [isResident, Recency.Cache.contains, hn, Option.isSome_some]

variable {pageSize : Nat} {c t : PageCache S H (Recorded B)} {past : List Change}
variable {a : Action} {answer : Except Error Unit} {d : Nat → Option DirtyRange} {refused : Bool}
variable {new : List (Written B)}

theorem marks_of_ne_target {page : Nat} (h : a.target? ≠ some page) : a.marks d page = d page := by
  cases a with
  | write target offset data =>
    apply Function.update_of_ne
    rintro rfl
    exact h rfl
  | _ => rfl

omit [PageStorage S H] [PageContents S H] [LawfulStorage S H] [Backend B] in
theorem marks_eq_hull (h : ∀ page, d page = hull (pending past page)) (page : Nat) :
    a.marks d page =
      hull (pending (past ++ Observed.chunks ⟨a, .ok (), c, t⟩) page) := by
  cases a with
  | write target offset data =>
    simp only [Action.marks, Observed.chunks, pending_append, List.foldl_cons, List.foldl_nil, note]
    by_cases hp : target = page
    · subst hp
      rw [Function.update_self, if_pos rfl, hull_concat, h]
    · rw [Function.update_of_ne (Ne.symm hp), if_neg hp, h]
  | _ =>
    simp only [Action.marks, Observed.chunks, List.append_nil]
    exact h page

omit [PageStorage S H] [PageContents S H] [LawfulStorage S H] [Backend B] in
theorem pending_newcomers (s : Observed S H B)
    (hd : ∀ page, d page = hull (pending past page))
    (hn : ∀ page, s.before.dirtyRange? page = none → d page = none) (page : Nat) :
    pending (past ++ s.newcomers.map .faulted) page = pending past page := by
  apply pending_append_faulted
  intro hm
  have hout : s.before.isResident page = false := by
    simpa using (List.mem_filter.mp hm).2
  have hclean : s.before.dirtyRange? page = none := by
    cases hdirty : s.before.dirtyRange? page with
    | none => rfl
    | some r =>
      rw [isResident_of_dirty hdirty] at hout
      cases hout
  rw [← hull_eq_none_iff, ← hd, hn page hclean]

omit [PageStorage S H] [LawfulStorage S H] [Backend B] in
theorem exact_of_accounts {s : Observed S H B}
    (hlog : s.after.below.log = s.before.below.log ++ new)
    (hp : ∀ page, s.before.dirtyRange? page = hull (pending past page))
    (hacc : Accounts pageSize s.before.stored s.before.dirtyRange? d past refused new)
    (hn : ∀ page, s.before.dirtyRange? page = none → d page = none)
    (hafter : ∀ past', (∀ page, d page = hull (pending past' page)) →
      ∀ page, s.after.dirtyRange? page = hull (pending (past' ++ s.chunks) page))
    (hsame : ∀ w ∈ new, s.after.dirtyRange? (w.page pageSize) = d (w.page pageSize)) :
    Exact pageSize past s := by
  have hwrites : s.writes = new := by rw [Observed.writes, hlog, List.drop_left]
  constructor
  · exact hp
  · rw [Observed.changes, hwrites, ← List.append_assoc, ← List.append_assoc]
    apply hafter
    intro page
    rw [pending_newcomers s hacc.dirty_eq hn]
    exact hacc.dirty_eq page
  · rw [hwrites]
    intro a w b hs
    obtain ⟨r, hd, hr, hc⟩ := hacc.covers a w b hs
    exact ⟨r, hr, isResident_of_dirty hd, hc⟩
  · rw [hwrites]
    intro w hw hs
    rw [hsame w hw, hacc.cleared w hw hs]
  · rw [hwrites]
    intro w hw hs
    rw [hsame w hw, hacc.kept w hw hs]

structure Matched (pageSize : Nat) (past : List Change) (c : PageCache S H (Recorded B)) :
    Prop where
  traced : Traced pageSize c
  start_lt : ∀ page r, c.dirtyRange? page = some r → r.start < pageSize
  dirty_eq : ∀ page, c.dirtyRange? page = hull (pending past page)

theorem Matched.exact (h : Matched pageSize past c) (he : a.perform c = (answer, t)) :
    Exact pageSize past ⟨a, answer, c, t⟩ := by
  cases answer with
  | ok _ =>
    obtain ⟨-, d, ht, htarget, hm⟩ := (ends_perform a h.traced).ok_of_eq he
    obtain ⟨new, hlog, hacc⟩ := ht.accounts h.start_lt h.dirty_eq
    apply exact_of_accounts (s := ⟨a, .ok (), c, t⟩) hlog h.dirty_eq hacc fun _ => ht.eq_none
    · intro past' hd page
      change t.dirtyRange? page = _
      rw [hm]
      exact marks_eq_hull hd page
    · intro w hw
      change t.dirtyRange? _ = _
      rw [hm]
      -- the page that the step was for has not been written back
      apply marks_of_ne_target
      intro hpage
      obtain ⟨x, y, rfl⟩ := List.append_of_mem hw
      obtain ⟨r, hr, -⟩ := hacc.covers x w y rfl
      have hnone := hacc.cleared w hw (hacc.calm rfl w hw)
      rw [htarget _ hpage, hr] at hnone
      cases hnone
  | error e =>
    obtain ⟨-, refused, ht⟩ := (ends_perform a h.traced).error_of_eq he
    obtain ⟨new, hlog, hacc⟩ := ht.accounts h.start_lt h.dirty_eq
    apply exact_of_accounts (s := ⟨a, .error e, c, t⟩) hlog h.dirty_eq hacc fun _ => ht.eq_none
    · intro past' hd page
      have hnil : Observed.chunks ⟨a, .error e, c, t⟩ = [] := by simp only [Observed.chunks]
      rw [hnil, List.append_nil]
      exact hd page
    · exact fun w _ => rfl

omit [PageStorage S H] [PageContents S H] [LawfulStorage S H] [Backend B] in
theorem start_marks_lt (ha : a.Fits pageSize) (hd : ∀ page r, d page = some r → r.start < pageSize)
    (page : Nat) (r : DirtyRange) (hr : a.marks d page = some r) : r.start < pageSize := by
  cases a with
  | write target offset data =>
    by_cases hp : page = target
    · subst hp
      obtain ⟨hpos, hfit⟩ := ha
      simp only [Action.marks, Function.update_self] at hr
      cases hr
      exact start_cover_lt (by omega) (hd page)
    · simp only [Action.marks, Function.update_of_ne hp] at hr
      exact hd page r hr
  | _ => exact hd page r hr

theorem Matched.step (h : Matched pageSize past c) (ha : a.Fits pageSize)
    (he : a.perform c = (answer, t)) :
    Matched pageSize (past ++ Observed.changes pageSize ⟨a, answer, c, t⟩) t := by
  have hafter := (h.exact he).after
  cases answer with
  | ok _ =>
    obtain ⟨htraced, d, ht, -, hm⟩ := (ends_perform a h.traced).ok_of_eq he
    refine ⟨htraced, ?_, hafter⟩
    rw [hm]
    exact start_marks_lt ha fun page r hr => h.start_lt page r (ht.eq_of_some hr)
  | error e =>
    obtain ⟨htraced, refused, ht⟩ := (ends_perform a h.traced).error_of_eq he
    exact ⟨htraced, fun page r hr => h.start_lt page r (ht.eq_of_some hr), hafter⟩

omit [Backend B] in
theorem Traced.mapBelow {C : Type} {c : PageCache S H B} (h : Traced pageSize c) (f : B → C) :
    Traced pageSize (c.mapBelow f) :=
  ⟨h.cache, h.sound.pageSize_eq, h.sound.nodup, h.sound.storage⟩

theorem exact_of_split (h : Matched pageSize [] c) (requests : List (Call Upkeep))
    {pre post : List (Observed S H B)} {s : Observed S H B}
    (hs : steps requests c = pre ++ s :: post) :
    Exact pageSize (pre.flatMap (Observed.changes pageSize)) s := by
  have hsplit := (runs_steps requests c).split
    (P := fun past t => Matched pageSize (past.flatMap (Observed.changes pageSize)) t)
    (fits_steps h.traced requests) h (fun past a c answer t ha he hc => ?_) hs
  · obtain ⟨-, he, hm⟩ := hsplit
    exact hm.exact he
  · rw [List.flatMap_append, List.flatMap_singleton]
    exact hc.step ha he

/-- Whatever the store below a page cache answers, each write that it receives covers exactly the
bytes from the first to the last that is pending of a page, with the bytes that the page has then;
a page of which nothing is pending is not written. What is pending of a page is what was applied to
it since it was last faulted in or written back, and at all times this is its modified range: a
write that succeeds clears it, and one that fails leaves it as it is. -/
theorem writes_back_exactly {c : PageCache S H B} {name : String} {capacity : Nat} {storage : S}
    {below : B} (hs : LawfulStorage.Valid False pageSize capacity storage ([] : List H))
    (hc : create name pageSize capacity storage below = .ok c) (requests : List (Call Upkeep)) :
    Op.Runs Action.perform c
      ((steps requests (c.mapBelow Recorded.start)).map (Step.mapState (mapBelow Recorded.inner)))
      (run call requests c).2 ∧
    ∀ pre s post, steps requests (c.mapBelow Recorded.start) = pre ++ s :: post →
      Exact pageSize (pre.flatMap (Observed.changes pageSize)) s := by
  have htraced := traced_create hs hc
  obtain ⟨-, hnil, -⟩ := create_eq_ok hc
  constructor
  · rw [← steps_mapBelow Recorded.hom_inner]
    exact runs_steps requests c
  · have hclean : ∀ page, (c.mapBelow Recorded.start).dirtyRange? page = none := by
      intro page
      rw [(htraced.mapBelow Recorded.start).dirtyRange?_eq]
      change dirty c.cache.toList page = none
      rw [hnil]
      rfl
    intro pre s post hsplit
    apply exact_of_split ⟨htraced.mapBelow Recorded.start, ?_, hclean⟩ requests hsplit
    intro page r hr
    rw [hclean] at hr
    cases hr

theorem writes_back_exactly_flaky :
    ∃ c : PageCache HeapStorage ByteArray (Gate FlatMemory),
      create "tier" 4 1 ⟨4⟩ { inner := .ofSize 11, onWrite := .burst 0 1 } = .ok c ∧
      (steps [.write 1 ⟨#[1, 2, 3, 4]⟩, .write 0 ⟨#[9]⟩, .sync .clear]
        (c.mapBelow Recorded.start)).map (fun s => (Observed.writes s).map fun w =>
          (w.address, w.data.size, w.succeeded)) = [[], [(1, 3, false)], [], [(0, 4, true)]] ∧
      ∀ pre s post, steps [.write 1 ⟨#[1, 2, 3, 4]⟩, .write 0 ⟨#[9]⟩, .sync .clear]
        (c.mapBelow Recorded.start) = pre ++ s :: post →
          Exact 4 (pre.flatMap (Observed.changes 4)) s := by
  have hs : HeapStorage.Valid False 4 ⟨4⟩ [] :=
    ⟨fun _ hp => absurd hp List.not_mem_nil, False.elim⟩
  have hc : create "tier" 4 1 (⟨4⟩ : HeapStorage)
      ({ inner := .ofSize 11, onWrite := .burst 0 1 } : Gate FlatMemory) = .ok _ := rfl
  exact ⟨_, hc, by decide +kernel, (writes_back_exactly hs hc _).2⟩

end PageCache

end TieredMemory
