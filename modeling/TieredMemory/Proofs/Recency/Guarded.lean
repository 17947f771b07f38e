import TieredMemory.Proofs.Recency.Requests

namespace TieredMemory.Recency

variable {σ α β : Type}

namespace Arena

section Definitions

def edit? (a : Arena α) (slot : Nat) (f : Node α → Node α) : Option (Arena α) :=
  (a.node? slot).map fun _ => a.update slot f

def link? (a : Arena α) (slot : Nat) : Option (Arena α) := do
  let head := a.newest
  let a ← a.edit? slot fun n => { n with newer := none, older := head }
  match head with
  | some first =>
    let a ← a.edit? first fun n => { n with newer := some slot }
    return { a with newest := some slot }
  | none => return { a with newest := some slot, oldest := some slot }

def pointOlder? (a : Arena α) (newer older : Option Nat) : Option (Arena α) :=
  match newer with
  | some s => a.edit? s fun n => { n with older }
  | none => some { a with newest := older }

def pointNewer? (a : Arena α) (older newer : Option Nat) : Option (Arena α) :=
  match older with
  | some s => a.edit? s fun n => { n with newer }
  | none => some { a with oldest := newer }

def unlink? (a : Arena α) (slot : Nat) : Option (Arena α) := do
  let node ← a.node? slot
  let a ← a.pointOlder? node.newer node.older
  let a ← a.pointNewer? node.older node.newer
  a.edit? slot fun n => { n with newer := none, older := none }

def moveToFront? (a : Arena α) (slot : Nat) : Option (Arena α) :=
  if a.newest = some slot then some a
  else do
    let a ← a.unlink? slot
    a.link? slot

def place? (a : Arena α) (n : Node α) : Option (Nat × Arena α) :=
  match a.vacant with
  | slot :: _ => if slot < a.nodes.size then some (a.place n) else none
  | [] => some (a.place n)

def insert? (a : Arena α) (key : Nat) (value : α) : Option (Nat × Arena α) := do
  let (slot, a) ← a.place? { key, value }
  let a ← a.link? slot
  return (slot, a)

def remove? (a : Arena α) (slot : Nat) : Option (Arena α) := do
  let a ← a.unlink? slot
  let _ ← a.node? slot
  return { a with nodes := a.nodes.setIfInBounds slot none, vacant := slot :: a.vacant }

def setValue? (a : Arena α) (slot : Nat) (value : α) : Option (Arena α) :=
  a.edit? slot fun n => { n with value }

def walk? (a : Arena α) : (n : Nat) → (cursor : Option Nat) → Option (List (Node α))
  | _, none => some []
  | 0, some _ => none
  | n + 1, some slot => do
    let node ← a.node? slot
    let rest ← a.walk? n node.older
    return node :: rest

def toList? (a : Arena α) : Option (List (Node α)) := a.walk? a.nodes.size a.newest

end Definitions

section Agreement

variable {a : Arena α} {slots xs ys : List Nat} {slot : Nat}

theorem edit?_eq (h : (a.node? slot).isSome) (f : Node α → Node α) :
    a.edit? slot f = some (a.update slot f) := by
  obtain ⟨n, hn⟩ := Option.isSome_iff_exists.mp h
  rw [edit?, hn]
  rfl

theorem isSome_node?_update (a : Arena α) (s : Nat) (f : Node α → Node α) (t : Nat) :
    ((a.update s f).node? t).isSome = (a.node? t).isSome := by
  rw [node?_update]
  split
  · rw [Option.isSome_map]
  · rfl

theorem link?_eq (hs : (a.node? slot).isSome) (hf : ∀ first, a.newest = some first →
    (a.node? first).isSome) : a.link? slot = some (a.link slot) := by
  simp only [link?, link, edit?_eq hs, Option.bind_eq_bind, Option.bind_some]
  cases hn : a.newest with
  | none => rfl
  | some first =>
    have hfirst := hf first hn
    rw [← isSome_node?_update a slot fun n => { n with newer := none, older := a.newest }] at hfirst
    rw [hn] at hfirst
    simp only [edit?_eq hfirst, Option.bind_some]
    rfl

theorem pointOlder?_eq {newer : Option Nat} (h : ∀ s, newer = some s → (a.node? s).isSome)
    (older : Option Nat) : a.pointOlder? newer older = some (a.pointOlder newer older) := by
  cases newer with
  | none => rfl
  | some s => exact edit?_eq (h s rfl) _

theorem pointNewer?_eq {older : Option Nat} (h : ∀ s, older = some s → (a.node? s).isSome)
    (newer : Option Nat) : a.pointNewer? older newer = some (a.pointNewer older newer) := by
  cases older with
  | none => rfl
  | some s => exact edit?_eq (h s rfl) _

theorem Linked.isSome (h : a.Linked slots) {s : Nat} (hs : s ∈ slots) : (a.node? s).isSome := by
  obtain ⟨n, hn⟩ := h.chain.exists_node hs
  rw [hn]
  rfl

theorem unlink?_eq (h : a.Linked (xs ++ slot :: ys)) : a.unlink? slot = some (a.unlink slot) := by
  obtain ⟨n, hn, hb, ho⟩ := h.node?_eq
  have hnewer : ∀ s, n.newer = some s → (a.node? s).isSome := fun s hs =>
    h.isSome (List.mem_append_left _ (List.mem_of_getLast? (hb ▸ hs)))
  have holder : ∀ s, n.older = some s →
      ((a.pointOlder n.newer n.older).node? s).isSome := fun s hs =>
    (isSome_node?_iff (item?_pointOlder a n.newer n.older s)).mpr
      (h.isSome
        (List.mem_append_right xs (List.mem_cons_of_mem slot (List.mem_of_head? (ho ▸ hs)))))
  have hself : (((a.pointOlder n.newer n.older).pointNewer n.older n.newer).node? slot).isSome := by
    rw [isSome_node?_iff (item?_pointNewer _ n.older n.newer slot),
      isSome_node?_iff (item?_pointOlder a n.newer n.older slot), hn]
    rfl
  rw [unlink_eq hn, unlink?, hn]
  simp only [Option.bind_eq_bind, Option.bind_some, pointOlder?_eq hnewer, pointNewer?_eq holder,
    edit?_eq hself]

theorem moveToFront?_eq (h : a.Holds (xs ++ slot :: ys)) :
    a.moveToFront? slot = some (a.moveToFront slot) := by
  rw [moveToFront?, moveToFront]
  split
  · rfl
  · have hu := sameEntries_unlink a slot
    have hl := h.toLinked.unlink
    have hsome (s : Nat) (hs : s ∈ xs ++ slot :: ys) : ((a.unlink slot).node? s).isSome :=
      (isSome_node?_iff (hu.item? s)).mpr (h.isSome hs)
    rw [unlink?_eq h.toLinked, Option.bind_eq_bind, Option.bind_some]
    refine link?_eq (hsome slot (List.mem_append_right xs List.mem_cons_self)) fun first hf => ?_
    have hmem : first ∈ xs ++ ys := List.mem_of_head? (hl.newest.symm.trans hf)
    exact hsome first (List.perm_middle.mem_iff.mpr (List.mem_cons_of_mem slot hmem))

theorem place?_eq (h : a.Holds slots) (n : Node α) : a.place? n = some (a.place n) := by
  unfold place?
  split
  · rename_i slot rest hv
    exact if_pos ((h.mem_vacant slot).mp (hv ▸ List.mem_cons_self)).1
  · rfl

theorem insert?_eq (h : a.Holds slots) (key : Nat) (value : α) :
    a.insert? key value = some (a.insert key value) := by
  have hp := h.place { key, value }
  have hlink : (a.place { key, value }).2.link? (a.place { key, value }).1 =
      some ((a.place { key, value }).2.link (a.place { key, value }).1) := by
    refine link?_eq (by rw [hp.node]; rfl) fun first hf => ?_
    have hmem : first ∈ slots := List.mem_of_head? (h.newest.symm.trans (hp.newest.symm.trans hf))
    rw [hp.others first fun he => hp.fresh (he ▸ hmem)]
    exact h.isSome hmem
  simp only [insert?, place?_eq h, Option.bind_eq_bind, Option.bind_some, hlink]
  rfl

theorem remove?_eq (h : a.Holds (xs ++ slot :: ys)) : a.remove? slot = some (a.remove slot) := by
  have hself : ((a.unlink slot).node? slot).isSome :=
    (isSome_node?_iff ((sameEntries_unlink a slot).item? slot)).mpr
      (h.isSome (List.mem_append_right xs List.mem_cons_self))
  obtain ⟨n, hn⟩ := Option.isSome_iff_exists.mp hself
  simp only [remove?, unlink?_eq h.toLinked, Option.bind_eq_bind, Option.bind_some, hn]
  rfl

theorem setValue?_eq (h : (a.node? slot).isSome) (value : α) :
    a.setValue? slot value = some (a.setValue slot value) :=
  edit?_eq h _

theorem Chain.walk?_eq {before : Option Nat} (h : a.Chain before slots none) {n : Nat}
    (hn : slots.length ≤ n) : a.walk? n slots.head? = some (a.walk n slots.head?) := by
  induction slots generalizing before n with
  | nil => cases n <;> rfl
  | cons s rest ih =>
    obtain ⟨⟨node, hs, -, ho⟩, hr⟩ := h
    cases n with
    | zero => simp at hn
    | succ n =>
      rw [Option.or_none] at ho
      have hrest := ih hr (n := n) (by simpa using hn)
      rw [← ho] at hrest
      simp only [List.head?_cons, walk?, Arena.walk, hs, Option.bind_eq_bind,
        Option.bind_some, hrest]
      rfl

theorem toList?_eq (h : a.Holds slots) : a.toList? = some a.toList := by
  rw [toList?, toList, h.newest]
  exact h.chain.walk?_eq h.length_le

end Agreement

end Arena

namespace Cache

section Definitions

def locate? (c : Cache α) (key : Nat) : Option (Option (Nat × Node α)) :=
  match c.slot? key with
  | none => some none
  | some slot => (c.arena.node? slot).map fun node => some (slot, node)

def insertFront? (c : Cache α) (key : Nat) (value : α) : Option (Cache α) := do
  let (slot, arena) ← c.arena.insert? key value
  return { c with
    arena, direct := c.direct.insert key slot, index := c.index.insert key slot,
    count := c.count + 1, lookups := { c.lookups with inserts := c.lookups.inserts + 1 } }

def refresh? (c : Cache α) (slot key : Nat) (value : α) : Option (Cache α) := do
  let arena ← c.arena.setValue? slot value
  let arena ← arena.moveToFront? slot
  return { c with arena, direct := c.direct.insert key slot }

def detach? (c : Cache α) (slot key : Nat) : Option (Cache α) := do
  let arena ← c.arena.remove? slot
  return { c with
    arena, direct := c.direct.erase key, index := c.index.erase key, count := c.count - 1 }

def setValue? (c : Cache α) (slot : Nat) (value : α) : Option (Cache α) := do
  let arena ← c.arena.setValue? slot value
  return { c with arena }

def peekGuarded (c : Cache α) (key : Nat) : Option (Option α) := do
  let found ← c.locate? key
  return found.map fun (_, node) => node.value

def contains? (c : Cache α) (key : Nat) : Option Bool := do
  let found ← c.locate? key
  return found.isSome

def modify? (c : Cache α) (key : Nat) (f : α → α) : Option (Cache α) := do
  match ← c.locate? key with
  | some (slot, node) => c.setValue? slot (f node.value)
  | none => return c

def add? (c : Cache α) (key : Nat) (value : α) : Option (Option α × Cache α) := do
  match ← c.locate? key with
  | some (slot, node) =>
    let c ← c.refresh? slot key value
    return (some node.value, c)
  | none =>
    let c ← c.insertFront? key value
    return (none, c)

def leastRecentNodeGuarded (c : Cache α) : Option (Option (Nat × Node α)) :=
  match c.arena.oldest with
  | none => some none
  | some slot => (c.arena.node? slot).map fun node => some (slot, node)

def leastRecentGuarded (c : Cache α) : Option (Option (Nat × α)) := do
  let found ← c.leastRecentNodeGuarded
  return found.map fun (_, node) => (node.key, node.value)

def keysByRecency? (c : Cache α) : Option (List Nat) := do
  let nodes ← c.arena.toList?
  return nodes.map Node.key

abbrev Guarded (σ β : Type) : Type := σ → Option (Except Error β × σ)

def Guarded.reply {σ β γ : Type} (op : Guarded σ β) (f : β → γ) : Guarded σ γ := fun t => do
  let (r, t) ← op t
  return (r.map f, t)

def access? (h : Handler σ α) (key : Nat) (use : Op (α × σ) β) : Guarded (Cache α × σ) β :=
  fun (c, s) => do
    match ← c.locate? key with
    | some (slot, node) =>
      let (r, value, s) := use (node.value, s)
      let c ← c.recordHit.refresh? slot key value
      return (r, c, s)
    | none =>
      let c := c.recordMiss
      match h.fault key s with
      | (.error e, s) => return (.error e, c, s)
      | (.ok value, s) =>
        let (r, value, s) := use (value, s)
        let c ← c.insertFront? key value
        return (r, c, s)

def flushNode? (h : Handler σ α) (slot : Nat) (node : Node α) : Guarded (Cache α × σ) Unit :=
  fun (c, s) => do
    let (r, value, s) := h.flush node.key (node.value, s)
    let c ← c.setValue? slot value
    return (r, c, s)

def expel? (h : Handler σ α) (slot : Nat) (node : Node α) : Guarded (Cache α × σ) Unit :=
  fun (c, s) =>
    match h.flush node.key (node.value, s) with
    | (.error e, value, s) => do
      let c ← c.setValue? slot value
      return (.error e, c, s)
    | (.ok (), value, s) => do
      let c ← c.detach? slot node.key
      let (r, s) := h.release node.key value s
      return (r, c, s)

def remove? (h : Handler σ α) (key : Nat) : Guarded (Cache α × σ) Bool := fun (c, s) => do
  match ← c.locate? key with
  | none => return (.ok false, c, s)
  | some (slot, node) => Guarded.reply (expel? h slot node) (fun _ => true) (c, s)

def flushFrom? (h : Handler σ α) : (n : Nat) → (cursor : Option Nat) → Guarded (Cache α × σ) Unit
  | _, none => fun t => some (.ok (), t)
  | 0, some _ => fun _ => none
  | n + 1, some slot => fun (c, s) => do
    let node ← c.arena.node? slot
    match ← flushNode? h slot node (c, s) with
    | (.error e, t) => return (.error e, t)
    | (.ok (), t) => flushFrom? h n node.older t

def flushAll? (h : Handler σ α) : Guarded (Cache α × σ) Unit := fun (c, s) =>
  flushFrom? h c.arena.nodes.size c.arena.newest (c, s)

def evictLoop? (h : Handler σ α) : (n done : Nat) → Guarded (Cache α × σ) Nat
  | 0, done => fun t => some (.ok done, t)
  | n + 1, done => fun (c, s) => do
    match ← c.leastRecentNodeGuarded with
    | none => return (.ok done, c, s)
    | some (slot, node) =>
      match ← expel? h slot node (c, s) with
      | (.error e, t) => return (.error e, t)
      | (.ok (), c, s) => evictLoop? h n (done + 1) (c.recordEviction, s)

def evict? (h : Handler σ α) (n : Nat) : Guarded (Cache α × σ) Nat := evictLoop? h n 0

def clear? (h : Handler σ α) : Guarded (Cache α × σ) Nat := fun (c, s) => evict? h c.count (c, s)

def perform? (h : Handler σ α) : Request α → Guarded (Cache α × σ) (Reply α)
  | .get key change => (access? h key (lend change)).reply fun v => .value (some v)
  | .add key value => fun (c, s) => do
    let (old, c) ← c.add? key value
    return (.ok (.value old), c, s)
  | .remove key => (remove? h key).reply .flag
  | .peek key => fun (c, s) => do
    let found ← c.peekGuarded key
    return (.ok (.value found), c, s)
  | .modify key change => fun (c, s) => do
    let found ← c.peekGuarded key
    let c ← c.modify? key change
    return (.ok (.value found), c, s)
  | .contains key => fun (c, s) => do
    let found ← c.contains? key
    return (.ok (.flag found), c, s)
  | .flushAll => (flushAll? h).reply fun _ => .done
  | .evict n => (evict? h n).reply .evicted
  | .clear => (clear? h).reply .evicted

end Definitions

section Agreement

variable {c : Cache α} {slots xs ys : List Nat} {slot key : Nat}

theorem Valid.locate?_eq (hc : c.Valid slots) (key : Nat) :
    c.locate? key = some (c.locate key) := by
  rw [locate?, locate]
  cases hs : c.slot? key with
  | none => rfl
  | some slot =>
    have hmem := ((hc.index key slot).mp ((hc.slot?_eq key).symm.trans hs)).1
    obtain ⟨n, hn⟩ := hc.arena.exists_node hmem
    simp only [hn, Option.map_some, Option.bind_eq_bind, Option.bind_some]
    rfl

theorem Valid.insertFront?_eq (hc : c.Valid slots) (key : Nat) (value : α) :
    c.insertFront? key value = some (c.insertFront key value) := by
  rw [insertFront?, Arena.insert?_eq hc.arena]
  rfl

theorem Valid.refresh?_eq (hc : c.Valid (xs ++ slot :: ys)) (key : Nat) (value : α) :
    c.refresh? slot key value = some (c.refresh slot key value) := by
  have hslot := hc.arena.isSome (List.mem_append_right xs List.mem_cons_self)
  rw [refresh?, Arena.setValue?_eq hslot, Option.bind_eq_bind, Option.bind_some,
    Arena.moveToFront?_eq (hc.arena.setValue slot value)]
  rfl

theorem Valid.detach?_eq (hc : c.Valid (xs ++ slot :: ys)) (key : Nat) :
    c.detach? slot key = some (c.detach slot key) := by
  rw [detach?, Arena.remove?_eq hc.arena]
  rfl

theorem Valid.setValue?_eq (hc : c.Valid slots) (hs : slot ∈ slots) (value : α) :
    c.setValue? slot value = some { c with arena := c.arena.setValue slot value } := by
  rw [setValue?, Arena.setValue?_eq (hc.arena.isSome hs)]
  rfl

theorem Valid.peekGuarded_eq (hc : c.Valid slots) (key : Nat) :
    c.peekGuarded key = some (c.peek? key) := by
  rw [peekGuarded, hc.locate?_eq]
  rfl

theorem Valid.contains?_eq (hc : c.Valid slots) (key : Nat) :
    c.contains? key = some (c.contains key) := by
  rw [contains?, hc.locate?_eq]
  rfl

theorem Valid.modify?_eq (hc : c.Valid slots) (key : Nat) (f : α → α) :
    c.modify? key f = some (c.modify key f) := by
  rw [modify?, modify, hc.locate?_eq]
  cases hl : c.locate key with
  | none => rfl
  | some p => exact hc.setValue?_eq (hc.locate_eq_some_iff.mp hl).1 _

theorem Valid.add?_eq (hc : c.Valid slots) (key : Nat) (value : α) :
    c.add? key value = some (c.add key value) := by
  rw [add?, add, hc.locate?_eq]
  cases hl : c.locate key with
  | none =>
    simp only [Option.bind_eq_bind, Option.bind_some, hc.insertFront?_eq]
    rfl
  | some p =>
    obtain ⟨xs, ys, hc, -⟩ := hc.middle hl
    simp only [Option.bind_eq_bind, Option.bind_some, hc.refresh?_eq]
    rfl

theorem Valid.leastRecentNodeGuarded_eq (hc : c.Valid slots) :
    c.leastRecentNodeGuarded = some c.leastRecentNode? := by
  rw [leastRecentNodeGuarded, leastRecentNode?]
  cases hl : c.arena.oldest with
  | none => rfl
  | some slot =>
    obtain ⟨n, hn⟩ := hc.arena.exists_node (List.mem_of_getLast? (hc.arena.oldest.symm.trans hl))
    simp only [hn, Option.map_some, Option.bind_eq_bind, Option.bind_some]
    rfl

theorem Valid.leastRecentGuarded_eq (hc : c.Valid slots) :
    c.leastRecentGuarded = some c.leastRecent? := by
  rw [leastRecentGuarded, hc.leastRecentNodeGuarded_eq]
  rfl

theorem Valid.keysByRecency?_eq (hc : c.Valid slots) : c.keysByRecency? = some c.keysByRecency := by
  rw [keysByRecency?, Arena.toList?_eq hc.arena]
  rfl

theorem Valid.access?_eq (hc : c.Valid slots) (h : Handler σ α) (key : Nat) (use : Op (α × σ) β)
    (s : σ) : access? h key use (c, s) = some (access h key use (c, s)) := by
  simp only [access?, access, hc.locate?_eq, Option.bind_eq_bind, Option.bind_some]
  cases hl : c.locate key with
  | none =>
    rcases h.fault key s with ⟨e | value, s⟩
    · rfl
    · rcases hu : use (value, s) with ⟨r, value, t⟩
      have hinsert :
          c.recordMiss.insertFront? key value = some (c.recordMiss.insertFront key value) :=
        (hc.withLookups _).insertFront?_eq key value
      simp only [hu, hinsert]
      rfl
  | some p =>
    obtain ⟨xs, ys, hc, -⟩ := hc.middle hl
    rcases hu : use (p.2.value, s) with ⟨r, value, t⟩
    have hrefresh : c.recordHit.refresh? p.1 key value = some (c.recordHit.refresh p.1 key value) :=
      (hc.withLookups _).refresh?_eq key value
    simp only [hu, hrefresh]
    rfl

theorem reply_eq {γ : Type} {op : Op σ β} {guarded : Guarded σ β} {t : σ} (f : β → γ)
    (h : guarded t = some (op t)) :
    Guarded.reply guarded f t = some ((do let b ← op; return f b : Op σ γ) t) := by
  rw [Guarded.reply, h]
  rcases he : op t with ⟨e | b, u⟩
  · rw [Op.bind_apply_error he]
    rfl
  · rw [Op.bind_apply_ok he]
    rfl

theorem Valid.expel?_eq {n : Node α} (hc : c.Valid (xs ++ slot :: ys)) (h : Handler σ α) (s : σ) :
    expel? h slot n (c, s) = some (expel h slot n (c, s)) := by
  rw [expel?, expel]
  rcases hf : h.flush n.key (n.value, s) with ⟨e | _, value, t⟩
  · simp only [hc.setValue?_eq (List.mem_append_right xs List.mem_cons_self)]
    rfl
  · simp only [hc.detach?_eq]
    rfl

theorem Valid.remove?_eq (hc : c.Valid slots) (h : Handler σ α) (key : Nat) (s : σ) :
    remove? h key (c, s) = some (remove h key (c, s)) := by
  simp only [remove?, remove, hc.locate?_eq, Option.bind_eq_bind, Option.bind_some]
  cases hl : c.locate key with
  | none => rfl
  | some p =>
    obtain ⟨xs, ys, hc, -⟩ := hc.middle hl
    exact reply_eq (fun _ => true) (hc.expel?_eq h s)

theorem Valid.flushFrom?_eq (hc : c.Valid (xs ++ ys)) (h : Handler σ α) {n : Nat}
    (hn : ys.length ≤ n) (s : σ) :
    flushFrom? h n ys.head? (c, s) = some (flushFrom h n ys.head? (c, s)) := by
  induction ys generalizing n c s xs with
  | nil => cases n <;> rfl
  | cons slot ys ih =>
    obtain ⟨n, rfl⟩ : ∃ m, n = m + 1 := ⟨n - 1, by simp at hn; omega⟩
    obtain ⟨m, hm, -, ho⟩ := hc.arena.toLinked.node?_eq
    have hv : c.arena.item? slot = some (m.key, m.value) := Arena.item?_of_node? hm
    have hmem : slot ∈ xs ++ slot :: ys := List.mem_append_right xs List.mem_cons_self
    rcases hf : h.flush m.key (m.value, s) with ⟨e | _, value, t⟩
    · simp only [flushFrom?, flushFrom, List.head?_cons, hm, flushNode?, flushNode, hf,
        hc.setValue?_eq hmem, Option.bind_eq_bind, Option.bind_some]
      rfl
    · have hsplit : xs ++ slot :: ys = (xs ++ [slot]) ++ ys := by simp
      have hnext := ih (hsplit ▸ (hc.setValue hv value).1) (n := n) (by simpa using hn) t
      rw [← ho] at hnext
      simp only [flushFrom?, flushFrom, List.head?_cons, hm, flushNode?, flushNode, hf,
        hc.setValue?_eq hmem, Option.bind_eq_bind, Option.bind_some]
      exact hnext

theorem Valid.flushAll?_eq (hc : c.Valid slots) (h : Handler σ α) (s : σ) :
    flushAll? h (c, s) = some (flushAll h (c, s)) := by
  simp only [flushAll?, flushAll, hc.arena.newest]
  exact Valid.flushFrom?_eq (show c.Valid ([] ++ slots) from hc) h hc.arena.length_le s

theorem Valid.evictLoop?_eq (hc : c.Valid slots) (h : Handler σ α) (n done : Nat) (s : σ) :
    evictLoop? h n done (c, s) = some (evictLoop h n done (c, s)) := by
  induction n generalizing c s slots done with
  | zero => rfl
  | succ n ih =>
    simp only [evictLoop?, evictLoop, hc.leastRecentNodeGuarded_eq, Option.bind_eq_bind,
      Option.bind_some]
    rcases List.eq_nil_or_concat' slots with rfl | ⟨xs, slot, rfl⟩
    · rw [hc.leastRecentNode?_eq_none]
      rfl
    · obtain ⟨m, hm⟩ := hc.arena.exists_node (List.mem_append_right xs List.mem_cons_self)
      have hv : c.arena.item? slot = some (m.key, m.value) := Arena.item?_of_node? hm
      simp only [hc.leastRecentNode?_eq_some hm, hc.expel?_eq, Option.bind_some]
      rcases hf : h.flush m.key (m.value, s) with ⟨e | _, value, t⟩
      · simp only [expel, hf]
        rfl
      · rcases hr : h.release m.key value t with ⟨e | _, u⟩
        · simp only [expel, hf, hr]
          rfl
        · simp only [expel, hf, hr]
          exact ih ((hc.detach hv).1.withLookups _) (done + 1) u

theorem Valid.perform?_eq (hc : c.Valid slots) (h : Handler σ α) (request : Request α) (s : σ) :
    perform? h request (c, s) = some (perform h request (c, s)) := by
  cases request with
  | get key change => exact reply_eq _ (hc.access?_eq h key (lend change) s)
  | add key value =>
    simp only [perform?, hc.add?_eq]
    rfl
  | remove key => exact reply_eq _ (hc.remove?_eq h key s)
  | peek key =>
    simp only [perform?, hc.peekGuarded_eq]
    rfl
  | modify key change =>
    simp only [perform?, hc.peekGuarded_eq, hc.modify?_eq]
    rfl
  | contains key =>
    simp only [perform?, hc.contains?_eq]
    rfl
  | flushAll => exact reply_eq _ (hc.flushAll?_eq h s)
  | evict n => exact reply_eq _ (hc.evictLoop?_eq h n 0 s)
  | clear => exact reply_eq _ (hc.evictLoop?_eq h c.count 0 s)

end Agreement

end Cache

end TieredMemory.Recency
