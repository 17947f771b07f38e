import TieredMemory.Proofs.Page.Alike

/-!
Handles of a storage as leases. A storage is watched: what it was asked for and what it answered is
replayed, to the handles that are out.
-/

namespace TieredMemory

variable {S H B : Type}

inductive Lease (H : Type) where
  | acquire (answer : Except Error H)
  | release (handle : H) (answer : Except Error Unit)

namespace Lease

def Refused : Lease H → Prop
  | acquire (.error _) => True
  | _ => False

variable [DecidableEq H]

/-- The handles that are out after one more lease. There are none if a handle is handed out while it
is out, or given back while it is not, or not taken back. -/
def next (out : List H) : Lease H → Option (List H)
  | acquire (.ok h) => if h ∈ out then none else some (h :: out)
  | acquire (.error _) => some out
  | release h (.ok ()) => if h ∈ out then some (out.erase h) else none
  | release _ (.error _) => none

def out (leases : List (Lease H)) : Option (List H) := leases.foldlM next []

theorem out_concat {leases : List (Lease H)} {lease : Lease H} {hs : List H}
    (h : out leases = some hs) : out (leases ++ [lease]) = next hs lease := by
  rw [out, List.foldlM_append]
  change (out leases >>= fun hs => [lease].foldlM next hs) = _
  rw [h]
  change [lease].foldlM next hs = _
  rw [List.foldlM_cons]
  exact bind_pure (next hs lease)

end Lease

structure Watched (S H : Type) where
  inner : S
  leases : List (Lease H) := []

namespace Watched

def start (s : S) : Watched S H := { inner := s }

def onInner {α : Type} (op : Op S α) : Op (Watched S H) α := fun w =>
  let (r, inner) := op w.inner
  (r, { w with inner })

def acquire [PageStorage S H] : Op (Watched S H) H := fun w =>
  let (r, inner) := (PageStorage.acquire : Op S H) w.inner
  (r, { inner, leases := w.leases ++ [.acquire r] })

def release [PageStorage S H] (handle : H) : Op (Watched S H) Unit := fun w =>
  let (r, inner) := (PageStorage.release handle : Op S Unit) w.inner
  (r, { inner, leases := w.leases ++ [.release handle r] })

def write [PageStorage S H] (offset : Nat) (data : ByteArray) : Op (H × Watched S H) Unit :=
  fun (handle, w) =>
    let (r, handle, inner) := (PageStorage.write offset data : Op (H × S) Unit) (handle, w.inner)
    (r, handle, { w with inner })

instance [PageStorage S H] : PageStorage (Watched S H) H where
  acquire := acquire
  release := release
  read handle offset length := onInner (PageStorage.read handle offset length)
  write := write
  close := onInner PageStorage.close
  abandon w := { w with inner := PageStorage.abandon w.inner }
  events w := PageStorage.events w.inner

end Watched

structure PageStorage.Maintains [PageStorage S H] (allowed : Error → Prop) (room : Prop)
    (capacity : Nat) (Inv : List H → S → Prop) : Prop where
  perm : ∀ {hs hs' : List H} {s : S}, hs.Perm hs' → Inv hs s → Inv hs' s
  acquire : ∀ {hs : List H} {s : S}, Inv hs s → hs.length < capacity →
    (PageStorage.acquire : Op S H).Ends s (fun h t => h ∉ hs ∧ Inv (h :: hs) t)
      (fun e t => allowed e ∧ ¬ room ∧ Inv hs t)
  release : ∀ {h : H} {hs : List H} {s : S}, Inv (h :: hs) s →
    (PageStorage.release h : Op S Unit).Ends s (fun _ t => Inv hs t) (fun _ _ => False)
  read : ∀ {h : H} {hs : List H} {s : S} (offset length : Nat), Inv (h :: hs) s →
    (PageStorage.read h offset length : Op S ByteArray).Ends s (fun _ t => Inv (h :: hs) t)
      (fun e t => allowed e ∧ Inv (h :: hs) t)
  write : ∀ {h : H} {hs : List H} {s : S} (offset : Nat) (data : ByteArray), Inv (h :: hs) s →
    (PageStorage.write offset data : Op (H × S) Unit).Ends (h, s)
      (fun _ x => x.1 = h ∧ Inv (h :: hs) x.2) (fun e x => allowed e ∧ x.1 = h ∧ Inv (h :: hs) x.2)

structure Watches [DecidableEq H] (room : Prop) (Inv : List H → S → Prop) (gs : List (H × H))
    (w : Watched S H) (s : S) : Prop where
  same : w.inner = s
  handles : ∀ g ∈ gs, g.2 = g.1
  holds : Inv (gs.map Prod.fst) s
  out : ∃ hs, Lease.out w.leases = some hs ∧ hs.Perm (gs.map Prod.fst)
  granted : room → ∀ lease ∈ w.leases, ¬ lease.Refused

section Watches

variable [PageStorage S H] [DecidableEq H] {allowed : Error → Prop} {room : Prop}
variable {pageSize capacity : Nat} {Inv : List H → S → Prop} {gs : List (H × H)} {g g' : H}
variable {w : Watched S H} {s : S}

theorem Watches.acquire (hi : PageStorage.Maintains allowed room capacity Inv)
    (h : Watches room Inv gs w s) (hroom : gs.length < capacity) :
    (PageStorage.acquire : Op (Watched S H) H).Alike (PageStorage.acquire : Op S H) w s
      (fun g g' w' s' => Watches room Inv ((g, g') :: gs) w' s')
      (fun e w' s' => allowed e ∧ Watches room Inv gs w' s') := by
  obtain ⟨rfl, hh, hinv, ⟨hs, hout, hperm⟩, hg⟩ := h
  have hlen : (gs.map Prod.fst).length < capacity := by rwa [List.length_map]
  rcases (hi.acquire hinv hlen).cases with ⟨g, s', he, hnew, hinv⟩ | ⟨e, s', he, hall, hnone, hinv⟩
  · have hop : Watched.acquire w =
        (.ok g, { inner := s', leases := w.leases ++ [.acquire (.ok g)] }) := by
      simp only [Watched.acquire, he]
    apply Op.Alike.of_ok hop he
    refine ⟨rfl, List.forall_mem_cons.mpr ⟨rfl, hh⟩, hinv, ⟨g :: hs, ?_, hperm.cons g⟩, ?_⟩
    · rw [Lease.out_concat hout, Lease.next, if_neg fun hm => hnew (hperm.mem_iff.mp hm)]
    · intro hr lease hl
      rcases List.mem_append.mp hl with hl | hl
      · exact hg hr lease hl
      · rw [List.mem_singleton.mp hl]
        exact id
  · have hop : Watched.acquire w =
        (.error e, { inner := s', leases := w.leases ++ [.acquire (.error e)] }) := by
      simp only [Watched.acquire, he]
    apply Op.Alike.of_error hop he
    refine ⟨hall, rfl, hh, hinv, ⟨hs, ?_, hperm⟩, fun hr => absurd hr hnone⟩
    rw [Lease.out_concat hout, Lease.next]

theorem Watches.release (hi : PageStorage.Maintains allowed room capacity Inv)
    (h : Watches room Inv ((g, g') :: gs) w s) :
    (PageStorage.release g : Op (Watched S H) Unit).Alike (PageStorage.release g') w s
      (fun _ _ w' s' => Watches room Inv gs w' s')
      (fun e w' s' => allowed e ∧ Watches room Inv gs w' s') := by
  obtain ⟨rfl, hh, hinv, ⟨hs, hout, hperm⟩, hg⟩ := h
  obtain rfl : g' = g := hh _ List.mem_cons_self
  rcases (hi.release hinv).cases with ⟨_, s', he, hinv⟩ | ⟨_, _, -, hf⟩
  · have hop : Watched.release g' w =
        (.ok (), { inner := s', leases := w.leases ++ [.release g' (.ok ())] }) := by
      simp only [Watched.release, he]
    apply Op.Alike.of_ok hop he
    refine ⟨rfl, (List.forall_mem_cons.mp hh).2, hinv, ⟨hs.erase g', ?_, ?_⟩, ?_⟩
    · rw [Lease.out_concat hout, Lease.next, if_pos (hperm.mem_iff.mpr List.mem_cons_self)]
    · have := hperm.erase g'
      rwa [List.map_cons, List.erase_cons_head] at this
    · intro hr lease hl
      rcases List.mem_append.mp hl with hl | hl
      · exact hg hr lease hl
      · rw [List.mem_singleton.mp hl]
        exact id
  · exact hf.elim

theorem Watches.read (hi : PageStorage.Maintains allowed room capacity Inv) {offset length : Nat}
    (h : Watches room Inv ((g, g') :: gs) w s) :
    (PageStorage.read g offset length : Op (Watched S H) ByteArray).Alike
      (PageStorage.read g' offset length) w s
      (fun a b w' s' => b = a ∧ Watches room Inv ((g, g') :: gs) w' s')
      (fun e w' s' => allowed e ∧ Watches room Inv ((g, g') :: gs) w' s') := by
  obtain ⟨rfl, hh, hinv, hout, hg⟩ := h
  obtain rfl : g' = g := hh _ List.mem_cons_self
  rcases (hi.read offset length hinv).cases with ⟨a, s', he, hinv⟩ | ⟨e, s', he, hall, hinv⟩
  · have hop : Watched.onInner (PageStorage.read g' offset length) w =
        (.ok a, { w with inner := s' }) := by
      simp only [Watched.onInner, he]
    exact Op.Alike.of_ok hop he ⟨rfl, rfl, hh, hinv, hout, hg⟩
  · have hop : Watched.onInner (PageStorage.read g' offset length) w =
        (.error e, { w with inner := s' }) := by
      simp only [Watched.onInner, he]
    exact Op.Alike.of_error hop he ⟨hall, rfl, hh, hinv, hout, hg⟩

theorem Watches.write (hi : PageStorage.Maintains allowed room capacity Inv) {offset : Nat}
    {data : ByteArray} (h : Watches room Inv ((g, g') :: gs) w s) :
    (PageStorage.write offset data : Op (H × Watched S H) Unit).Alike
      (PageStorage.write offset data) (g, w) (g', s)
      (fun _ _ x y => Watches room Inv ((x.1, y.1) :: gs) x.2 y.2)
      (fun e x y => allowed e ∧ Watches room Inv ((x.1, y.1) :: gs) x.2 y.2) := by
  obtain ⟨rfl, hh, hinv, hout, hg⟩ := h
  obtain rfl : g' = g := hh _ List.mem_cons_self
  rcases (hi.write offset data hinv).cases with
    ⟨_, ⟨k, s'⟩, he, hk, hinv⟩ | ⟨e, ⟨k, s'⟩, he, hall, hk, hinv⟩
  · obtain rfl : k = g' := hk
    have hop : Watched.write offset data (k, w) = (.ok (), k, { w with inner := s' }) := by
      simp only [Watched.write, he]
    exact Op.Alike.of_ok hop he ⟨rfl, hh, hinv, hout, hg⟩
  · obtain rfl : k = g' := hk
    have hop : Watched.write offset data (k, w) = (.error e, k, { w with inner := s' }) := by
      simp only [Watched.write, he]
    exact Op.Alike.of_error hop he ⟨hall, rfl, hh, hinv, hout, hg⟩

theorem watches_alike (hi : PageStorage.Maintains allowed room capacity Inv) :
    PageStorage.Alike False allowed pageSize capacity (Watches room Inv)
      (fun g gs => Watches room Inv (g :: gs)) where
  perm hp h := by
    obtain ⟨hs, hout, hperm⟩ := h.out
    exact ⟨h.same, fun g hg => h.handles g (hp.mem_iff.mpr hg), hi.perm (hp.map _) h.holds,
      ⟨hs, hout, hperm.trans (hp.map _)⟩, h.granted⟩
  acquire h hroom := h.acquire hi hroom
  fill h _ := h.write hi
  giveUp h := h.release hi
  release h := h.release hi
  read h _ := h.read hi
  write h _ := h.write hi

end Watches

namespace PageCache

variable {c : PageCache S H B} {w : PageCache (Watched S H) H B} {pageSize capacity : Nat}
variable {allowed : Error → Prop} {room : Prop} {Inv : List H → S → Prop}

def watch (c : PageCache S H B) : PageCache (Watched S H) H B :=
  { c with pager := { c.pager with storage := .start c.storage } }

def handles (c : PageCache S H B) : List H := c.cache.toList.map fun e => e.2.handle

section Watching

variable [DecidableEq H]

theorem beside_watch (hc : c.cache.IsValid) (hnil : c.cache.toList = []) (hinv : Inv [] c.storage) :
    Beside c.pageSize c.capacity (Watches room Inv) c.watch c := by
  refine ⟨⟨hc, hc, ⟨[], c.cache.lookups⟩, ?_, ?_, List.nodup_nil, ?_⟩, rfl, rfl⟩
  · exact congrArg (Recency.Ledger.mk · c.cache.lookups) hnil
  · exact congrArg (Recency.Ledger.mk · c.cache.lookups) hnil
  · exact ⟨⟨rfl, rfl, rfl, rfl⟩, Nat.zero_le _, fun e he => absurd he List.not_mem_nil, rfl,
      fun g hg => absurd hg List.not_mem_nil, hinv, ⟨[], rfl, .refl []⟩,
      fun _ lease hl => absurd hl List.not_mem_nil⟩

theorem Beside.watches (h : Beside pageSize capacity (Watches room Inv) w c) :
    ∃ gs : List (H × H), gs.map Prod.fst = w.handles ∧ w.handles = c.handles ∧
      Watches room Inv gs w.storage c.storage := by
  obtain ⟨m, hleft, hright, -, hr⟩ := h.together.ledgers
  have hleft : w.cache.ledger = m.map Prod.fst := hleft
  have hright : c.cache.ledger = m.map Prod.snd := hright
  have hw : w.handles = m.entries.map fun e => e.2.1.handle := by
    change w.cache.ledger.entries.map (fun e => e.2.handle) = _
    rw [hleft, Recency.Ledger.map, List.map_map]
    rfl
  have hc : c.handles = m.entries.map fun e => e.2.2.handle := by
    change c.cache.ledger.entries.map (fun e => e.2.handle) = _
    rw [hright, Recency.Ledger.map, List.map_map]
    rfl
  refine ⟨_, ?_, ?_, hr.storage⟩
  · rw [hw, List.map_map]
    rfl
  · rw [hw, hc]
    apply List.map_congr_left
    exact fun e he => (hr.storage.handles _ (List.mem_map_of_mem he)).symm

variable [PageStorage S H] [Backend B]

theorem call_watched (hi : PageStorage.Maintains allowed room capacity Inv)
    (hb : Backend.Answers B False allowed) (request : Call Upkeep)
    (h : Beside pageSize capacity (Watches room Inv) w c) :
    (call request w).1 = (call request c).1 ∧ (∀ e, (call request c).1 = .error e → allowed e) ∧
      Beside pageSize capacity (Watches room Inv) (call request w).2 (call request c).2 := by
  rcases (alike_call (watches_alike hi) hb request h).cases with
    ⟨a, w', _, c', hw, hc, rfl, hr⟩ | ⟨e, w', c', hw, hc, hall, hr⟩
  · rw [hw, hc]
    exact ⟨rfl, nofun, hr⟩
  · rw [hw, hc]
    refine ⟨rfl, ?_, hr⟩
    rintro _ ⟨⟩
    exact hall

theorem run_watched (hi : PageStorage.Maintains allowed room capacity Inv)
    (hb : Backend.Answers B False allowed) (calls : List (Call Upkeep))
    (h : Beside pageSize capacity (Watches room Inv) w c) :
    (run call calls w).1 = (run call calls c).1 ∧
      (∀ answer ∈ (run call calls c).1, ∀ e, answer = .error e → allowed e) ∧
      Beside pageSize capacity (Watches room Inv) (run call calls w).2 (run call calls c).2 := by
  induction calls generalizing w c with
  | nil => exact ⟨rfl, fun answer ha => absurd ha List.not_mem_nil, h⟩
  | cons request calls ih =>
    obtain ⟨ha, hall, hnext⟩ := call_watched hi hb request h
    obtain ⟨hrest, halls, hend⟩ := ih hnext
    exact ⟨List.cons_eq_cons.mpr ⟨ha, hrest⟩, List.forall_mem_cons.mpr ⟨hall, halls⟩, hend⟩

end Watching

end PageCache

end TieredMemory
