import Mathlib.Data.List.Forall2
import TieredMemory.Config.Environment
import TieredMemory.Proofs.Text.Value

namespace TieredMemory

namespace Profile

section Letters

variable {letter : Char}

theorem toNat_toLower (c : Char) :
    c.toLower.toNat = if 65 ≤ c.toNat ∧ c.toNat ≤ 90 then c.toNat + 32 else c.toNat := by
  by_cases h : 65 ≤ c.toNat ∧ c.toNat ≤ 90
  · have hupper : 'A'.val ≤ c.val ∧ c.val ≤ 'Z'.val := h
    have hfits : c.toNat + 32 < 2 ^ 32 := by omega
    have hshift : c.toLower.toNat = (c.toNat + 32) % 2 ^ 32 :=
      (congrArg Char.toNat (dif_pos hupper)).trans (UInt32.toNat_add _ _)
    rw [if_pos h, hshift, Nat.mod_eq_of_lt hfits]
  · have hupper : ¬ ('A'.val ≤ c.val ∧ c.val ≤ 'Z'.val) := h
    rw [if_neg h]
    exact congrArg Char.toNat (dif_neg hupper)

theorem toNat_bounds_of_isLower (h : letter.isLower = true) :
    97 ≤ letter.toNat ∧ letter.toNat ≤ 122 :=
  (Bool.and_eq_true _ _ ▸ h).imp of_decide_eq_true of_decide_eq_true

theorem toNat_toUpper (h : letter.isLower = true) : letter.toUpper.toNat = letter.toNat - 32 := by
  have hbounds := toNat_bounds_of_isLower h
  have hlower : 'a'.val ≤ letter.val ∧ letter.val ≤ 'z'.val := hbounds
  -- the distance from small to capital letters is added as a negative number, so the sum wraps
  have hshift : letter.toUpper.toNat = (letter.toNat + (2 ^ 32 - 32)) % 2 ^ 32 :=
    (congrArg Char.toNat (dif_pos hlower)).trans (UInt32.toNat_add _ _)
  omega

theorem toLower_eq_iff {c : Char} (h : letter.isLower = true) :
    c.toLower = letter ↔ c = letter ∨ c = letter.toUpper := by
  have hbounds := toNat_bounds_of_isLower h
  have hupper := toNat_toUpper h
  rw [← Char.toNat_inj, ← Char.toNat_inj, ← Char.toNat_inj, toNat_toLower]
  split <;> omega

theorem map_toLower_eq_iff {cs letters : List Char}
    (h : ∀ letter ∈ letters, letter.isLower = true) :
    cs.map Char.toLower = letters ↔
      List.Forall₂ (fun c letter => c = letter ∨ c = letter.toUpper) cs letters := by
  induction letters generalizing cs with
  | nil => rw [List.map_eq_nil_iff, List.forall₂_nil_right_iff]
  | cons letter letters ih =>
    obtain ⟨hl, hls⟩ := List.forall_mem_cons.mp h
    cases cs with
    | nil => simp
    | cons c cs =>
      rw [List.map_cons, List.cons.injEq, List.forall₂_cons, toLower_eq_iff hl, ih hls]

end Letters

def Named (s : String) (p : Profile) : Prop :=
  List.Forall₂ (fun c letter => c = letter ∨ c = letter.toUpper) s.toList p.name.toList

variable {s : String} {p : Profile}

theorem isLower_of_mem_name (p : Profile) : ∀ letter ∈ p.name.toList, letter.isLower = true := by
  cases p <;> simp [name]

theorem ofName?_eq_some_iff : ofName? s = some p ↔ s = p.name := by
  constructor
  · intro h
    unfold ofName? at h
    split at h <;> cases h <;> rfl
  · rintro rfl
    cases p <;> rfl

theorem named_iff : Named s p ↔ ofName? (String.ofList (s.toList.map Char.toLower)) = some p := by
  rw [ofName?_eq_some_iff, ← String.toList_inj, String.toList_ofList,
    map_toLower_eq_iff (isLower_of_mem_name p), Named]

theorem parse_eq_ok_iff : parse s = .ok p ↔ Named s p := by
  rw [named_iff, parse]
  cases ofName? (String.ofList (s.toList.map Char.toLower)) with
  | none => exact ⟨nofun, nofun⟩
  | some q => rw [Except.ok.injEq, Option.some.injEq]

theorem parse_of_not_named (h : ∀ p, ¬ Named s p) :
    parse s = .error (.config s!"Invalid profile: {s}") := by
  rw [parse]
  split
  · rename_i p hp
    exact absurd (named_iff.mpr hp) (h p)
  · rfl

end Profile

namespace Config

variable {env : Environment}

section Values

def Number (value : String) (n : Nat) : Prop := ∃ body, Text.Around body value ∧ Text.Numeral body n

def Flag (value : String) (b : Bool) : Prop :=
  Text.Around (if b then "true".toList else "false".toList) value

def Takes {α : Type} (means : String → α → Prop) (value : Option String) (default a : α) : Prop :=
  match value with
  | none => a = default
  | some value => means value a

theorem number?_eq_some_iff {s : String} {n : Nat} :
    number? s = some n ↔ Text.Numeral s.toList n := by
  rw [← Text.readWord_eq_ok_iff, number?]
  rcases Text.readWord s with e | m <;> simp [Except.toOption]

theorem number?_trim_iff (value : String) (n : Nat) :
    number? (Text.trim value) = some n ↔ Number value n :=
  number?_eq_some_iff.trans
    (Text.trim_iff_around (P := fun body => Text.Numeral body n) fun _ h => h.bare)

theorem flag?_eq_some_iff {s : String} {b : Bool} :
    flag? s = some b ↔ s.toList = if b then "true".toList else "false".toList := by
  have htext : (if b then "true".toList else "false".toList) =
      (if b then "true" else "false" : String).toList := by
    cases b <;> rfl
  rw [htext, String.toList_inj]
  constructor
  · intro h
    unfold flag? at h
    split at h <;> cases h <;> rfl
  · rintro rfl
    cases b <;> rfl

theorem flag?_trim_iff (value : String) (b : Bool) :
    flag? (Text.trim value) = some b ↔ Flag value b := by
  rw [flag?_eq_some_iff, Flag]
  constructor
  · intro h
    rw [← h]
    exact Text.around_trim value
  · refine Text.toList_trim_of_around ?_
    cases b
    · exact ⟨⟨'f', rfl, by decide⟩, 'e', rfl, by decide⟩
    · exact ⟨⟨'t', rfl, by decide⟩, 'e', rfl, by decide⟩

end Values

section Fields

structure Assigns (env : Environment) (base c : Config) : Prop where
  pagefile : Takes Eq (env "TIERMEM_PAGEFILE") base.pagefile c.pagefile
  maximumSize : Takes Number (env "TIERMEM_MAXIMUM_SIZE") base.maximumSize c.maximumSize
  syncOnFlush : Takes Flag (env "TIERMEM_SYNC_ON_FLUSH") base.syncOnFlush c.syncOnFlush
  ramPageSize : Takes Number (env "TIERMEM_RAM_PAGE_SIZE") base.ram.pageSize c.ram.pageSize
  ramPages : Takes Number (env "TIERMEM_RAM_PAGES") base.ram.pages c.ram.pages
  psramPageSize : Takes Number (env "TIERMEM_PSRAM_PAGE_SIZE") base.psram.pageSize c.psram.pageSize
  psramPages : Takes Number (env "TIERMEM_PSRAM_PAGES") base.psram.pages c.psram.pages
  himemPageSize : Takes Number (env "TIERMEM_HIMEM_PAGE_SIZE") base.himem.pageSize c.himem.pageSize
  himemPages : Takes Number (env "TIERMEM_HIMEM_PAGES") base.himem.pages c.himem.pages

def Chooses (env : Environment) (p : Profile) : Prop :=
  Takes Profile.Named (env "TIERMEM_PROFILE") .small p

theorem readVariable_eq_ok_iff {α : Type} {parse : String → Option α} {means : String → α → Prop}
    (h : ∀ value a, parse (Text.trim value) = some a ↔ means value a) {key : String}
    {default a : α} :
    readVariable env parse key default = .ok a ↔ Takes means (env key) default a := by
  unfold readVariable Takes
  cases env key with
  | none => exact ⟨fun he => (Except.ok.inj he).symm, fun he => he ▸ rfl⟩
  | some value =>
    simp only [← h value a]
    cases parse (Text.trim value) <;> simp

theorem bind_eq_ok_iff {α β : Type} {x : Except Error α} {f : α → Except Error β} {b : β} :
    (x >>= f) = .ok b ↔ ∃ a, x = .ok a ∧ f a = .ok b := by
  rcases x with e | a
  · simp [bind, Except.bind]
  · simp [bind, Except.bind]

theorem readShape_eq_ok_iff {tier : String} {default shape : TierShape} :
    readShape env tier default = .ok shape ↔
      Takes Number (env s!"{tier}_PAGE_SIZE") default.pageSize shape.pageSize ∧
        Takes Number (env s!"{tier}_PAGES") default.pages shape.pages := by
  simp only [readShape, bind_eq_ok_iff, readVariable_eq_ok_iff number?_trim_iff]
  constructor
  · rintro ⟨pageSize, hsize, pages, hpages, he⟩
    cases he
    exact ⟨hsize, hpages⟩
  · rintro ⟨hsize, hpages⟩
    exact ⟨_, hsize, _, hpages, rfl⟩

theorem readProfile_eq_ok_iff {p : Profile} : readProfile env = .ok p ↔ Chooses env p := by
  unfold readProfile Chooses Takes
  cases env "TIERMEM_PROFILE" with
  | none => exact ⟨fun he => (Except.ok.inj he).symm, fun he => he ▸ rfl⟩
  | some name => exact Profile.parse_eq_ok_iff

theorem takes_eq_iff {value : Option String} {default a : String} :
    Takes Eq value default a ↔ a = value.getD default := by
  cases value with
  | none => exact Iff.rfl
  | some value => exact eq_comm

theorem override_eq_ok_iff {base c : Config} :
    override env base = .ok c ↔ Assigns env base c := by
  simp only [override, bind_eq_ok_iff, readVariable_eq_ok_iff number?_trim_iff,
    readVariable_eq_ok_iff flag?_trim_iff, readShape_eq_ok_iff]
  constructor
  · rintro ⟨maximumSize, hmax, sync, hsync, ram, hram, psram, hpsram, himem, hhimem, he⟩
    cases he
    exact ⟨takes_eq_iff.mpr rfl, hmax, hsync, hram.1, hram.2, hpsram.1, hpsram.2,
      hhimem.1, hhimem.2⟩
  · intro h
    refine ⟨_, h.maximumSize, _, h.syncOnFlush, _, ⟨h.ramPageSize, h.ramPages⟩, _,
      ⟨h.psramPageSize, h.psramPages⟩, _, ⟨h.himemPageSize, h.himemPages⟩, ?_⟩
    rw [← takes_eq_iff.mp h.pagefile]
    rfl

end Fields

section Order

structure Variable where
  key : String
  Accepts : String → Prop
  complaint : String → String

namespace Variable

def named (key : String) (Accepts : String → Prop) : Variable :=
  ⟨key, Accepts, fun value => s!"Invalid {key}: {value}"⟩

def number (key : String) : Variable := named key fun value => ∃ n, Number value n

def flag (key : String) : Variable := named key fun value => ∃ b, Flag value b

def profile : Variable :=
  ⟨"TIERMEM_PROFILE", fun value => ∃ p, Profile.Named value p,
    fun value => s!"Invalid profile: {value}"⟩

def all : List Variable :=
  [profile, number "TIERMEM_MAXIMUM_SIZE", flag "TIERMEM_SYNC_ON_FLUSH",
    number "TIERMEM_RAM_PAGE_SIZE", number "TIERMEM_RAM_PAGES",
    number "TIERMEM_PSRAM_PAGE_SIZE", number "TIERMEM_PSRAM_PAGES",
    number "TIERMEM_HIMEM_PAGE_SIZE", number "TIERMEM_HIMEM_PAGES"]

def Passes (env : Environment) (v : Variable) : Prop :=
  ∀ value, env v.key = some value → v.Accepts value

end Variable

/-- Reading succeeds if all variables pass, and fails with the complaint of the first
that does not. -/
structure Reads {α : Type} (env : Environment) (vs : List Variable) (x : Except Error α) :
    Prop where
  passes : (∀ v ∈ vs, v.Passes env) → ∃ a, x = .ok a
  fails : ∀ pre v post value, vs = pre ++ v :: post → (∀ w ∈ pre, w.Passes env) →
    env v.key = some value → ¬ v.Accepts value → x = .error (.config (v.complaint value))

theorem Reads.bind {α β : Type} {vs ws : List Variable} {x : Except Error α}
    {f : α → Except Error β}
    (hx : Reads env vs x) (hf : ∀ a, Reads env ws (f a)) : Reads env (vs ++ ws) (x >>= f) where
  passes h := by
    obtain ⟨hvs, hws⟩ := List.forall_mem_append.mp h
    obtain ⟨a, rfl⟩ := hx.passes hvs
    exact (hf a).passes hws
  fails pre v post value hsplit hpre hv hn := by
    rcases List.append_eq_append_iff.mp hsplit with ⟨rest, rfl, hrest⟩ | ⟨rest, hvs, hrest⟩
    · obtain ⟨hvs, hws⟩ := List.forall_mem_append.mp hpre
      obtain ⟨a, rfl⟩ := hx.passes hvs
      exact (hf a).fails rest v post value hrest hws hv hn
    · cases rest with
      | nil =>
        rw [List.append_nil] at hvs
        subst hvs
        obtain ⟨a, rfl⟩ := hx.passes hpre
        exact (hf a).fails [] v post value hrest.symm (by simp) hv hn
      | cons w rest =>
        obtain ⟨rfl, rfl⟩ := List.cons.inj hrest
        rw [hx.fails pre v rest value hvs hpre hv hn]
        rfl

theorem Reads.pure {α : Type} (env : Environment) (a : α) :
    Reads env [] (pure a : Except Error α) where
  passes _ := ⟨a, rfl⟩
  fails pre v post value h := by simp at h

theorem Reads.single {α : Type} {v : Variable} {x : Except Error α}
    (hp : v.Passes env → ∃ a, x = .ok a)
    (hf : ∀ value, env v.key = some value → ¬ v.Accepts value →
      x = .error (.config (v.complaint value))) : Reads env [v] x where
  passes h := hp (h v (List.mem_singleton_self v))
  fails pre w post value hsplit _ hw hn := by
    rcases List.singleton_eq_append_iff.mp hsplit with ⟨-, hcons⟩ | ⟨-, hnil⟩
    · obtain ⟨rfl, -⟩ := List.cons.inj hcons
      exact hf value hw hn
    · cases hnil

theorem reads_variable {α : Type} {parse : String → Option α} {means : String → α → Prop}
    (h : ∀ value a, parse (Text.trim value) = some a ↔ means value a) (key : String) (default : α) :
    Reads env [.named key fun value => ∃ a, means value a]
      (readVariable env parse key default) := by
  refine .single (fun hp => ?_) fun value hv hn => ?_
  · cases hv : env key with
    | none => exact ⟨default, by simp only [readVariable, hv]⟩
    | some value =>
      obtain ⟨a, ha⟩ := hp value hv
      exact ⟨a, by simp only [readVariable, hv, (h value a).mpr ha]⟩
  · change env key = some value at hv
    have hnone : parse (Text.trim value) = none :=
      Option.eq_none_iff_forall_ne_some.mpr fun a ha => hn ⟨a, (h value a).mp ha⟩
    simp only [readVariable, hv, hnone]
    rfl

theorem reads_shape (tier : String) (default : TierShape) :
    Reads env [.number s!"{tier}_PAGE_SIZE", .number s!"{tier}_PAGES"]
      (readShape env tier default) :=
  (reads_variable number?_trim_iff _ default.pageSize).bind fun _ =>
    (reads_variable number?_trim_iff _ default.pages).bind fun _ => .pure env _

theorem reads_profile : Reads env [.profile] (readProfile env) := by
  refine .single (fun hp => ?_) fun value hv hn => ?_
  · cases hv : env "TIERMEM_PROFILE" with
    | none => exact ⟨.small, by simp only [readProfile, hv]⟩
    | some name =>
      obtain ⟨p, hp⟩ := hp name hv
      exact ⟨p, by simp only [readProfile, hv, Profile.parse_eq_ok_iff.mpr hp]⟩
  · change env "TIERMEM_PROFILE" = some value at hv
    simp only [readProfile, hv]
    exact Profile.parse_of_not_named fun p hp => hn ⟨p, hp⟩

theorem reads_override (base : Config) : Reads env (Variable.all.drop 1) (override env base) :=
  (reads_variable number?_trim_iff "TIERMEM_MAXIMUM_SIZE" base.maximumSize).bind fun _ =>
    (reads_variable flag?_trim_iff "TIERMEM_SYNC_ON_FLUSH" base.syncOnFlush).bind fun _ =>
      (reads_shape "TIERMEM_RAM" base.ram).bind fun _ =>
        (reads_shape "TIERMEM_PSRAM" base.psram).bind fun _ =>
          (reads_shape "TIERMEM_HIMEM" base.himem).bind fun _ => .pure env _

def load (env : Environment) : Except Error Config := do
  let profile ← readProfile env
  override env profile.config

theorem ofEnvironment_eq (env : Environment) :
    ofEnvironment env = (do let c ← load env; c.validate; return c) :=
  (bind_assoc (readProfile env) _ _).symm

theorem reads_load : Reads env Variable.all (load env) :=
  reads_profile.bind fun p => reads_override p.config

theorem load_eq_ok_iff {c : Config} :
    load env = .ok c ↔ ∃ p, Chooses env p ∧ Assigns env p.config c := by
  simp only [load, bind_eq_ok_iff, readProfile_eq_ok_iff, override_eq_ok_iff]

end Order

section Settings

def Has (c : Config) : Setting → Prop
  | .pagefile path => c.pagefile = path
  | .maximumSize bytes => c.maximumSize = bytes
  | .ram shape => c.ram = shape
  | .psram shape => c.psram = shape
  | .himem shape => c.himem = shape
  | .syncOnFlush sync => c.syncOnFlush = sync

structure Sets (settings : List Setting) (base c : Config) : Prop where
  only : ∀ s ∈ settings, c.Has s
  every : ∀ s, c.Has s → base.Has s ∨ s ∈ settings

variable {base c x : Config} {s t : Setting}

theorem has_apply (c : Config) (s : Setting) : (c.apply s).Has s := by
  cases s <;> rfl

theorem has_apply_of_has (hs : c.Has s) (ht : c.Has t) (hx : x.Has t) : (x.apply s).Has t := by
  cases s <;> cases t <;> first | exact hx | exact hs.symm.trans ht

theorem eq_of_has (h : ∀ s, c.Has s → x.Has s) : x = c := by
  obtain ⟨pagefile, maximumSize, ram, psram, himem, syncOnFlush⟩ := c
  have hpagefile : x.pagefile = pagefile := h (.pagefile pagefile) rfl
  have hmaximum : x.maximumSize = maximumSize := h (.maximumSize maximumSize) rfl
  have hram : x.ram = ram := h (.ram ram) rfl
  have hpsram : x.psram = psram := h (.psram psram) rfl
  have hhimem : x.himem = himem := h (.himem himem) rfl
  have hsync : x.syncOnFlush = syncOnFlush := h (.syncOnFlush syncOnFlush) rfl
  subst hpagefile hmaximum hram hpsram hhimem hsync
  rfl

theorem foldl_apply {settings : List Setting} (h : Sets settings base c) :
    settings.foldl apply base = c := by
  induction settings generalizing base with
  | nil => exact eq_of_has fun s hs => (h.every s hs).resolve_right List.not_mem_nil
  | cons s settings ih =>
    obtain ⟨hs, hrest⟩ := List.forall_mem_cons.mp h.only
    refine ih ⟨hrest, fun t ht => ?_⟩
    rcases h.every t ht with hbase | hmem
    · exact .inl (has_apply_of_has hs ht hbase)
    · rcases List.mem_cons.mp hmem with rfl | hmem
      · exact .inl (has_apply base t)
      · exact .inr hmem

end Settings

theorem passes_of_takes {α : Type} {means : String → α → Prop} {key : String} {default a : α}
    (h : Takes means (env key) default a) :
    (Variable.named key fun value => ∃ a, means value a).Passes env := by
  intro value hv
  change env key = some value at hv
  rw [hv] at h
  exact ⟨a, h⟩

theorem passes_of_assigns {p : Profile} {c : Config} (hp : Chooses env p)
    (h : Assigns env p.config c) : ∀ v ∈ Variable.all, v.Passes env := by
  have hprofile : Variable.profile.Passes env := fun value hv => by
    change env "TIERMEM_PROFILE" = some value at hv
    rw [Chooses, hv] at hp
    exact ⟨p, hp⟩
  simp only [Variable.all, List.forall_mem_cons]
  exact ⟨hprofile, passes_of_takes h.maximumSize, passes_of_takes h.syncOnFlush,
    passes_of_takes h.ramPageSize, passes_of_takes h.ramPages, passes_of_takes h.psramPageSize,
    passes_of_takes h.psramPages, passes_of_takes h.himemPageSize, passes_of_takes h.himemPages,
    fun _ hv => absurd hv List.not_mem_nil⟩

theorem validated_eq_ok_iff {c c' : Config} :
    (do c.validate; return c : Except Error Config) = .ok c' ↔ c.validate = .ok () ∧ c = c' := by
  rw [bind_eq_ok_iff]
  exact ⟨fun ⟨_, hv, he⟩ => ⟨hv, Except.ok.inj he⟩, fun ⟨hv, he⟩ => ⟨(), hv, congrArg _ he⟩⟩

/-- The environment and the settings of a program agree on what they accept
and on what they make. -/
theorem environment_agrees_with_settings (env : Environment) :
    ((∀ v ∈ Variable.all, v.Passes env) ↔ ∃ p c, Chooses env p ∧ Assigns env p.config c) ∧
      (∀ c, ofEnvironment env = .ok c ↔
        ∃ p, Chooses env p ∧ Assigns env p.config c ∧ c.validate = .ok ()) ∧
      (∀ pre v post value, Variable.all = pre ++ v :: post → (∀ w ∈ pre, w.Passes env) →
        env v.key = some value → ¬ v.Accepts value →
        ofEnvironment env = .error (.config (v.complaint value))) ∧
      ∀ p c, Chooses env p → Assigns env p.config c →
        ofEnvironment env = (do c.validate; return c) ∧
          ∀ settings, Sets settings p.config c → build p settings = ofEnvironment env := by
  refine ⟨⟨fun h => ?_, fun ⟨p, c, hp, hc⟩ => passes_of_assigns hp hc⟩, fun c => ?_,
    fun pre v post value hall hpre hv hn => ?_, fun p c hp hc => ?_⟩
  · obtain ⟨c, hc⟩ := reads_load.passes h
    obtain ⟨p, hp, hc⟩ := load_eq_ok_iff.mp hc
    exact ⟨p, c, hp, hc⟩
  · rw [ofEnvironment_eq, bind_eq_ok_iff]
    simp only [validated_eq_ok_iff, load_eq_ok_iff]
    constructor
    · rintro ⟨c, ⟨p, hp, hc⟩, hv, rfl⟩
      exact ⟨p, hp, hc, hv⟩
    · rintro ⟨p, hp, hc, hv⟩
      exact ⟨c, ⟨p, hp, hc⟩, hv, rfl⟩
  · rw [ofEnvironment_eq, reads_load.fails pre v post value hall hpre hv hn]
    rfl
  · have hload : load env = .ok c := load_eq_ok_iff.mpr ⟨p, hp, hc⟩
    have hof : ofEnvironment env = (do c.validate; return c) := by
      rw [ofEnvironment_eq, hload]
      rfl
    refine ⟨hof, fun settings hs => ?_⟩
    rw [hof, build, foldl_apply hs]

def customised : Environment
  | "TIERMEM_PROFILE" => some "LaRgE"
  | "TIERMEM_SYNC_ON_FLUSH" => some "false "
  | "TIERMEM_RAM_PAGES" => some "\t+0048\n"
  | _ => none

def mistaken : Environment
  | "TIERMEM_PROFILE" => some "tiny"
  | "TIERMEM_PSRAM_PAGE_SIZE" => some "-24"
  | "TIERMEM_HIMEM_PAGES" => some "18446744073709551616"
  | _ => none

theorem environment_agrees_with_settings_customised :
    ofEnvironment customised =
        .ok ⟨"pagefile.bin", 64 * 1024 * 1024, ⟨1024, 48⟩, ⟨2048, 256⟩, ⟨4096, 512⟩, false⟩ ∧
      build .large [.syncOnFlush false, .ram ⟨1024, 48⟩] = ofEnvironment customised ∧
      ofEnvironment mistaken = .error (.config "Invalid TIERMEM_PSRAM_PAGE_SIZE: -24") := by
  let c : Config := ⟨"pagefile.bin", 64 * 1024 * 1024, ⟨1024, 48⟩, ⟨2048, 256⟩, ⟨4096, 512⟩, false⟩
  have hp : Chooses customised .large := readProfile_eq_ok_iff.mp rfl
  have hc : Assigns customised Profile.large.config c := override_eq_ok_iff.mp rfl
  obtain ⟨-, hok, -, hagree⟩ := environment_agrees_with_settings customised
  refine ⟨(hok c).mpr ⟨.large, hp, hc, rfl⟩, (hagree .large c hp hc).2 _ ⟨?_, ?_⟩, ?_⟩
  · simp only [List.forall_mem_cons]
    exact ⟨rfl, rfl, fun _ hs => absurd hs List.not_mem_nil⟩
  · intro s hs
    cases s <;> cases hs <;> first | exact .inl rfl | exact .inr (by decide)
  · obtain ⟨-, -, hfirst, -⟩ := environment_agrees_with_settings mistaken
    refine hfirst (Variable.all.take 5) (.number "TIERMEM_PSRAM_PAGE_SIZE") _ "-24" rfl ?_ rfl ?_
    · have habsent (key : String) (h : mistaken key = none) :
          ∀ value, mistaken key = some value → ∃ n, Number value n :=
        fun value hv => by cases h.symm.trans hv
      have hprofile : Variable.profile.Passes mistaken := fun value hv => by
        cases hv
        exact ⟨.tiny, Profile.parse_eq_ok_iff.mp rfl⟩
      simp only [Variable.all, List.take, List.forall_mem_cons]
      exact ⟨hprofile, habsent _ rfl, nofun, habsent _ rfl, habsent _ rfl,
        fun _ hv => absurd hv List.not_mem_nil⟩
    · rintro ⟨n, hn⟩
      have := (number?_trim_iff "-24" n).mpr hn
      cases this

end Config

end TieredMemory
