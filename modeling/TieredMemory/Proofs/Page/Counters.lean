import Mathlib.Algebra.GroupWithZero.Nat
import TieredMemory.Proofs.Page.Bookkeeping

namespace TieredMemory

theorem Op.state_discard {σ α : Type} (op : Op σ α) (s : σ) :
    ((do let _ ← op : Op σ Unit) s).2 = (op s).2 := by
  rcases he : op s with ⟨_ | _, t⟩
  · rw [bind_apply_error he]
  · rw [bind_apply_ok he]
    rfl

theorem countP_cons_toNat {γ : Type} (p : γ → Bool) (x : γ) (xs : List γ) :
    (x :: xs).countP p = xs.countP p + (p x).toNat := by
  rw [List.countP_cons, ← Bool.cond_eq_ite]
  rfl

namespace Recency.Cache

variable {σ α β : Type} {h : Handler σ α}

theorem lookups_access (key : Nat) (use : Op (α × σ) β) (c : Cache α) (s : σ) :
    (access h key use (c, s)).2.1.lookups =
      if c.contains key then { c.lookups with hits := c.lookups.hits + 1 }
      else { c.lookups with
        misses := c.lookups.misses + 1
        inserts := c.lookups.inserts + (h.fault key s).1.isOk.toNat } := by
  rw [access, contains]
  cases c.locate key with
  | some _ => rfl
  | none => rcases h.fault key s with ⟨_ | _, _⟩ <;> rfl

theorem lookups_expel (slot : Nat) (node : Node α) (c : Cache α) (s : σ) :
    (expel h slot node (c, s)).2.1.lookups = c.lookups := by
  rw [expel]
  rcases h.flush node.key (node.value, s) with ⟨_ | _, _⟩ <;> rfl

theorem lookups_evictLoop (n done : Nat) (c : Cache α) (s : σ) :
    ∃ k, (evictLoop h n done (c, s)).2.1.lookups =
      { c.lookups with evictions := c.lookups.evictions + k } := by
  induction n generalizing done c s with
  | zero => exact ⟨0, rfl⟩
  | succ n ih =>
    cases hl : c.leastRecentNode? with
    | none => exact ⟨0, by simp only [evictLoop, hl, Nat.add_zero]⟩
    | some place =>
      have hexpel := lookups_expel (h := h) place.1 place.2 c s
      rcases he : expel h place.1 place.2 (c, s) with ⟨_ | _, d, t⟩
      · have hd : d.lookups = c.lookups := by rw [← hexpel, he]
        exact ⟨0, by simp only [evictLoop, hl, he, hd, Nat.add_zero]⟩
      · have hd : d.lookups = c.lookups := by rw [← hexpel, he]
        have hop : evictLoop h (n + 1) done (c, s) =
            evictLoop h n (done + 1) (d.recordEviction, t) := by
          simp only [evictLoop, hl, he]
        obtain ⟨k, hk⟩ := ih (done + 1) d.recordEviction t
        refine ⟨k + 1, ?_⟩
        rw [hop, hk]
        simp only [recordEviction, hd, Nat.add_assoc, Nat.add_comm 1 k]

theorem lookups_flushFrom (n : Nat) (cursor : Option Nat) (c : Cache α) (s : σ) :
    (flushFrom h n cursor (c, s)).2.1.lookups = c.lookups := by
  induction n generalizing cursor c s with
  | zero => rfl
  | succ n ih =>
    cases cursor with
    | none => rfl
    | some slot =>
      cases hn : c.arena.node? slot with
      | none => simp only [flushFrom, hn]
      | some node =>
        rcases hf : h.flush node.key (node.value, s) with ⟨_ | _, v, t⟩
        · simp only [flushFrom, hn, flushNode, hf]
        · simp only [flushFrom, hn, flushNode, hf, ih]

end Recency.Cache

variable {S H B α β : Type}

namespace PageCache

section Lookups

variable [PageStorage S H] [Backend B] {c : PageCache S H B}

def makeRoom (page : Nat) : Op (PageCache S H B) Unit := fun c =>
  if c.cache.contains page = false ∧ c.capacity ≤ c.cache.count then
    (do let _ ← onCache (Recency.Cache.evict Pager.handler 1)) c
  else (.ok (), c)

theorem touch_eq (page : Nat) (use : Op (Page H × Pager S B) α) (c : PageCache S H B) :
    touch page use c =
      (do makeRoom page; onCache (Recency.Cache.access Pager.handler page use)) c := by
  by_cases hfull : c.cache.contains page = false ∧ c.capacity ≤ c.cache.count
  · have hevict : (makeRoom page : Op (PageCache S H B) Unit) c =
        (do let _ ← onCache (Recency.Cache.evict Pager.handler 1) : Op _ Unit) c := if_pos hfull
    simp only [touch, if_pos hfull]
    rcases he : Recency.Cache.evict Pager.handler 1 (c.cache, c.pager) with ⟨e | n, cache, pager⟩
    · have hop : (onCache (Recency.Cache.evict Pager.handler 1) : Op (PageCache S H B) Nat) c =
          (.error e, { c with cache, pager }) := by simp only [onCache, he]
      rw [Op.bind_apply_error (hevict.trans (Op.bind_apply_error hop))]
      simp only [onCache, Op.bind_apply_error he]
    · have hop : (onCache (Recency.Cache.evict Pager.handler 1) : Op (PageCache S H B) Nat) c =
          (.ok n, { c with cache, pager }) := by simp only [onCache, he]
      rw [Op.bind_apply_ok (hevict.trans (Op.bind_apply_ok hop))]
      simp only [onCache, Op.bind_apply_ok he]
  · have hskip : (makeRoom page : Op (PageCache S H B) Unit) c = (.ok (), c) := if_neg hfull
    rw [Op.bind_apply_ok hskip]
    simp only [touch, if_neg hfull]

namespace Action

def looksUp (a : Action) (c : PageCache S H B) : Bool :=
  match a.target? with
  | some page => (makeRoom page c).1.isOk
  | none => false

def faultFails (a : Action) (c : PageCache S H B) : Bool :=
  match a.target? with
  | some page => (makeRoom page c).1.isOk && !(makeRoom page c).2.isResident page &&
      !(Pager.fault page (makeRoom page c).2.pager).1.isOk
  | none => false

end Action

structure Counts (looked failed : Bool) (l l' : Lookups) : Prop where
  lookups : l'.hits + l'.misses = l.hits + l.misses + looked.toNat
  faults : l'.misses + l.inserts = l.misses + l'.inserts + failed.toNat

namespace Counts

variable {l : Lookups}

theorem evictions (k : Nat) : Counts false false l { l with evictions := l.evictions + k } :=
  ⟨rfl, rfl⟩

theorem hit (k : Nat) :
    Counts true false l { l with hits := l.hits + 1, evictions := l.evictions + k } :=
  ⟨Nat.add_right_comm _ _ _, rfl⟩

theorem missed (k : Nat) (found : Bool) :
    Counts true (!found) l { l with
      misses := l.misses + 1
      evictions := l.evictions + k
      inserts := l.inserts + found.toNat } := by
  refine ⟨rfl, ?_⟩
  cases found <;> simp only [Bool.toNat_true, Bool.toNat_false, Bool.not_true, Bool.not_false] <;>
    omega

end Counts

theorem lookups_makeRoom (page : Nat) (c : PageCache S H B) :
    ∃ k, (makeRoom page c).2.cache.lookups =
      { c.cache.lookups with evictions := c.cache.lookups.evictions + k } := by
  by_cases hfull : c.cache.contains page = false ∧ c.capacity ≤ c.cache.count
  · obtain ⟨k, hk⟩ := Recency.Cache.lookups_evictLoop (h := Pager.handler) 1 0 c.cache c.pager
    refine ⟨k, ?_⟩
    simp only [makeRoom, if_pos hfull]
    rw [Op.state_discard]
    exact hk
  · exact ⟨0, by simp only [makeRoom, if_neg hfull, Nat.add_zero]⟩

theorem counts_touch {a : Action} {page : Nat} (ha : a.target? = some page)
    (use : Op (Page H × Pager S B) α) (c : PageCache S H B) :
    Counts (a.looksUp c) (a.faultFails c) c.cache.lookups (touch page use c).2.cache.lookups := by
  obtain ⟨k, hk⟩ := lookups_makeRoom page c
  simp only [Action.looksUp, Action.faultFails, ha, touch_eq]
  rcases he : makeRoom page c with ⟨e | _, t⟩
  · -- no page is looked up if the eviction fails
    rw [he] at hk
    rw [Op.bind_apply_error he, hk]
    exact .evictions k
  · rw [he] at hk
    have haccess := Recency.Cache.lookups_access (h := Pager.handler) page use t.cache t.pager
    rw [Op.bind_apply_ok he]
    change Counts _ _ _ (Recency.Cache.access Pager.handler page use (t.cache, t.pager)).2.1.lookups
    rw [haccess, hk]
    change Counts true (!t.cache.contains page && !(Pager.fault page t.pager).1.isOk) _ _
    cases t.cache.contains page with
    | true => exact .hit k
    | false => exact .missed k (Pager.fault page t.pager).1.isOk

theorem counts_perform (a : Action) (c : PageCache S H B) :
    Counts (a.looksUp c) (a.faultFails c) c.cache.lookups (a.perform c).2.cache.lookups := by
  cases a with
  | read page offset length =>
    rw [Action.perform, Op.state_discard]
    exact counts_touch rfl (Pager.readPage offset length) c
  | write page offset data => exact counts_touch rfl (Pager.writePage offset data) c
  | flush =>
    have hkeep := Recency.Cache.lookups_flushFrom (h := Pager.handler)
      c.cache.arena.nodes.size c.cache.arena.newest c.cache c.pager
    exact hkeep.symm ▸ Counts.evictions 0
  | clear =>
    obtain ⟨k, hk⟩ :=
      Recency.Cache.lookups_evictLoop (h := Pager.handler) c.cache.count 0 c.cache c.pager
    rw [Action.perform, clear, Op.state_discard]
    exact hk.symm ▸ Counts.evictions k
  | flushBelow => exact Counts.evictions 0
  | shutdownBelow => exact Counts.evictions 0

theorem counts_runs {c t : PageCache S H B} {past : List (Step Action Unit (PageCache S H B))}
    (h : Op.Runs Action.perform c past t) :
    t.cache.lookups.hits + t.cache.lookups.misses = c.cache.lookups.hits + c.cache.lookups.misses +
        past.countP (fun s => s.call.looksUp s.before) ∧
      t.cache.lookups.misses + c.cache.lookups.inserts =
        c.cache.lookups.misses + t.cache.lookups.inserts +
          past.countP (fun s => s.call.faultFails s.before) := by
  induction h with
  | nil s => exact ⟨rfl, rfl⟩
  | @cons c t u a answer past he _ ih =>
    obtain ⟨hlookups, hfaults⟩ := ih
    have hstep := counts_perform a c
    rw [he] at hstep
    have hl : t.cache.lookups.hits + t.cache.lookups.misses =
        c.cache.lookups.hits + c.cache.lookups.misses + (a.looksUp c).toNat := hstep.lookups
    have hf : t.cache.lookups.misses + c.cache.lookups.inserts =
        c.cache.lookups.misses + t.cache.lookups.inserts + (a.faultFails c).toNat := hstep.faults
    rw [countP_cons_toNat, countP_cons_toNat]
    dsimp only
    omega

end Lookups

section WriteBacks

variable [Backend B] {pageSize : Nat}

def tally (log : List (Written B)) : WriteBacks :=
  ⟨(log.filter Written.succeeded).length,
    ((log.filter Written.succeeded).map fun w => w.data.size).sum⟩

omit [Backend B] in
theorem tally_concat (log : List (Written B)) (w : Written B) :
    tally (log ++ [w]) = if w.succeeded then (tally log).record w.data.size else tally log := by
  cases h : w.succeeded <;> simp [tally, h, WriteBacks.record]

omit [Backend B] in
theorem ends_pass (op : Op B α) (r : Recorded B) :
    (Recorded.pass op).Ends r (fun _ t => t.log = r.log) fun _ t => t.log = r.log := by
  rcases he : op r.inner with ⟨e | a, b⟩
  · exact .of_error (e := e) (t := { r with inner := b }) (by simp only [Recorded.pass, he]) rfl
  · exact .of_ok (a := a) (t := { r with inner := b }) (by simp only [Recorded.pass, he]) rfl

def Even (b : Books (Recorded B)) : Prop :=
  b.lookups.inserts = b.lookups.evictions + b.resident ∧ b.writeBacks = tally b.below.log

theorem steady_even :
    Steady False pageSize none (fun _ => True) (Even : Books (Recorded B) → Prop) where
  capacity _ _ _ hl := nomatch hl
  write b address data hb _ := by
    obtain ⟨hresident, hwrites⟩ := hb
    rcases he : Backend.write address data b.below with ⟨e | _, t⟩
    · apply Op.Ends.of_error he
      refine ⟨⟨hresident, ?_⟩, trivial⟩
      rw [Books.moved, Recorded.log_write he, tally_concat]
      exact hwrites
    · apply Op.Ends.of_ok he
      refine ⟨hresident, ?_⟩
      rw [Books.written, Recorded.log_write he, tally_concat, hwrites]
      rfl
  read b address length hb _ _ := by
    apply (ends_pass (Backend.read address length) b.below).mono
    · exact fun _ t ht => ⟨⟨congrArg (· + 1) hb.1, ht ▸ hb.2⟩, fun _ => ⟨hb.1, ht ▸ hb.2⟩⟩
    · exact fun _ t ht => ⟨⟨hb.1, ht ▸ hb.2⟩, trivial⟩
  skip b hb _ := ⟨congrArg (· + 1) hb.1, hb.2⟩
  miss _ hb := hb
  hit _ hb := hb
  evict b hb hpos := by
    refine ⟨?_, hb.2⟩
    have hresident := hb.1
    change b.lookups.inserts = b.lookups.evictions + 1 + (b.resident - 1)
    omega
  flush b hb := (ends_pass Backend.flush b.below).mono (fun _ _ ht => ⟨hb.1, ht ▸ hb.2⟩)
    fun _ _ ht => ⟨⟨hb.1, ht ▸ hb.2⟩, trivial⟩
  shutdown b hb := (ends_pass Backend.shutdown b.below).mono (fun _ _ ht => ⟨hb.1, ht ▸ hb.2⟩)
    fun _ _ ht => ⟨⟨hb.1, ht ▸ hb.2⟩, trivial⟩

variable [PageStorage S H]

/-- In a run of requests the counters of a tier are what it was asked for and what it wrote to the
store below, as somebody sees it who watches that store. -/
structure Balanced (requests : List (Call Upkeep)) (c : PageCache S H B)
    (watched : PageCache S H (Recorded B)) (t : PageCache S H B) : Prop where
  same : watched.mapBelow Recorded.inner = t
  resident : t.stats.inserts = t.stats.evictions + t.residentPages
  faults : t.stats.misses =
    t.stats.inserts + (steps requests c).countP fun s => s.call.faultFails s.before
  lookups : t.stats.hits + t.stats.misses =
    (steps requests c).countP fun s => s.call.looksUp s.before
  flushes : t.stats.flushes = (watched.below.log.filter Written.succeeded).length
  bytesFlushed : t.stats.bytesFlushed =
    ((watched.below.log.filter Written.succeeded).map fun w => w.data.size).sum

variable [PageContents S H] [LawfulStorage S H]

theorem balanced_run {c : PageCache S H B} {name : String} {capacity : Nat} {storage : S}
    {below : B} (hs : LawfulStorage.Valid False pageSize capacity storage ([] : List H))
    (hc : create name pageSize capacity storage below = .ok c) (requests : List (Call Upkeep)) :
    Balanced requests c (run call requests (c.mapBelow Recorded.start)).2
      (run call requests c).2 := by
  have hblank := (blank_create hs hc).mapBelow (Recorded.start (β := B))
  have hstart : Even (c.mapBelow Recorded.start).books := by
    rw [hblank.books_eq]
    exact ⟨rfl, rfl⟩
  have hend := (tended_run steady_even (PageStorage.blames_true S) (hblank.tended hstart)
    requests).books
  have hwatched : (run call requests (c.mapBelow Recorded.start)).2.mapBelow Recorded.inner =
      (run call requests c).2 :=
    run_mapBelow Recorded.hom_inner requests (c.mapBelow Recorded.start)
  obtain ⟨hlookups, hfaults⟩ := counts_runs (runs_steps requests c)
  rw [(blank_create hs hc).lookups] at hlookups hfaults
  constructor
  · exact hwatched
  · rw [← hwatched]
    exact hend.1
  · refine (Nat.add_zero _).symm.trans (hfaults.trans ?_)
    rw [Nat.zero_add]
    rfl
  · exact hlookups.trans (Nat.zero_add _)
  · rw [← hwatched]
    exact congrArg WriteBacks.flushes hend.2
  · rw [← hwatched]
    exact congrArg WriteBacks.bytes hend.2

end WriteBacks

end PageCache

end TieredMemory
