import NativeKiln.Api.Session
import NativeKiln.Codec.JsNumber
import NativeKiln.Tables.UniqueIndex

/-!
# The seed

`seed.ts`, which every deployment runs again: look for a user with the address of this run, and
create an administrator with it if there is none. The look-up and the insert are two statements, and
the address is the only thing that is looked for.

Runs share the user table with each other (`seedSystem`), or a run has it for itself (`seeded`). A
row is never changed or removed by a run, and there is never more than one administrator if and only
if the runs agree on the address (`single_administrator_iff`).
-/

namespace NativeKiln

open JsString (lit)
open Tables
open Interaction (Config Event Throughout System)
open Interaction.Program (Asks asks_pure asks_throw asks_call interp_bind interp_pure interp_throw
  interp_perform interp_ofReply)

/-! ## Operations -/

/-- The variables a run reads. -/
structure SeedEnv where
  ADMIN_EMAIL : Option JsString
  ADMIN_PASSWORD : Option JsString
  deriving DecidableEq

/-- The columns a user is created with. -/
structure UserData where
  id : JsString
  email : JsString
  passwordHash : PasswordHash
  isAdmin : Bool
  displayName : JsString

/-- The row `data` makes. Nothing reads the display name. -/
def UserData.row (data : UserData) : User where
  id := data.id
  email := data.email
  passwordHash := data.passwordHash
  isAdmin := data.isAdmin
  lastLoginAt := none

/-- What a run asks of the world. `log` is `console.log`. -/
inductive SeedOp
  | userFindUnique (email : JsString)
  | randomBytes (n : ℕ)
  | argon2Hash (options : Argon2Options) (password : JsString)
  | userCreate (data : UserData)
  | log (line : JsString)

/-- The value an operation is answered with. -/
@[reducible] def SeedOp.Val : SeedOp → Type
  | userFindUnique _ => Option User
  | randomBytes _ => Bytes
  | argon2Hash .. => PasswordHash
  | _ => Unit

/-- Code of the seed. -/
abbrev Seed := Interaction.Program SeedOp SeedOp.Val Exn

namespace Seed

/-- `await` an operation. -/
abbrev call (o : SeedOp) : Seed o.Val := Interaction.Program.call o

/-! ## The script -/

/-- `process.env[..]?.trim()`, when it is not falsy. -/
def trimmed (value : Option JsString) : Option JsString :=
  (value.map JsString.trim).filter (· ≠ [])

def emailRequired : Exn :=
  .error (lit "ADMIN_EMAIL is required to seed the administrator account.") []

/-- What the banner says. -/
def banner (password : JsString) : List JsString :=
  [lit "[seed] =====================================================",
    lit "[seed] Generated admin password (shown once): " ++ password,
    lit "[seed] Store it in a password manager now. It will not be shown again.",
    lit "[seed] ====================================================="]

def generateId (idPrefix : JsString) (length : ℕ) : Seed JsString := do
  let bytes ← call (.randomBytes length)
  return idOf idPrefix bytes

/-- The password of a run is the one provided, or it is generated. -/
def password (env : SeedEnv) : Seed JsString :=
  match trimmed env.ADMIN_PASSWORD with
  | some providedPassword => return providedPassword
  | none => do
    let bytes ← call (.randomBytes 18)
    return Base64.encode .base64url bytes

/-- The script, up to what is done about an error. -/
def main (env : SeedEnv) : Seed Unit := do
  match trimmed env.ADMIN_EMAIL with
  | none => throw emailRequired
  | some email =>
    let existing ← call (.userFindUnique email)
    match existing with
    | some _ =>
      call (.log (lit "[seed] Administrator " ++ email ++
        lit " already exists — leaving it unchanged."))
    | none =>
      let password ← password env
      let passwordHash ← call (.argon2Hash ARGON2_OPTIONS password)
      let id ← generateId (lit "usr") 22
      call (.userCreate
        { id, email, passwordHash, isAdmin := true, displayName := lit "Administrator" })
      call (.log (lit "[seed] Created administrator: " ++ email))
      if (trimmed env.ADMIN_PASSWORD).isNone then
        (banner password).forM fun line ↦ call (.log line)

end Seed

/-! ## What the operations do -/

/-- What one operation does; `y` is the randomness it draws. -/
def SeedOp.exec (P : Platform) (y : Bytes) (w : World) :
    (o : SeedOp) → Option (World × Except Exn o.Val)
  | .userFindUnique email => World.exec P y w (.userFindUnique email)
  | .randomBytes n => World.exec P y w (.randomBytes n)
  | .argon2Hash options password => World.exec P y w (.argon2Hash options password)
  | .userCreate data =>
    if w.users.any fun u ↦ u.id = data.id ∨ u.email = data.email then
      some (w, .error (World.prismaError "Unique constraint failed"))
    else some ({ w with users := w.users ++ [data.row] }, .ok ())
  | .log _ => some (w, .ok ())

/-- The database and Argon2 may refuse an operation, with some `Error`. -/
def SeedOp.mayReject (o : SeedOp) (e : Exn) : Bool :=
  match o, e with
  | .randomBytes _, _ | .log _, _ => false
  | _, .error _ _ => true
  | _, _ => false

/-- Runs of the seed against one world. -/
def seedSystem (P : Platform) : System SeedOp SeedOp.Val Exn SeedEnv Unit Bytes World where
  body := Seed.main
  exec := SeedOp.exec P
  mayReject := SeedOp.mayReject
  tick := World.tick

/-! ## A run on its own -/

/-- The randomness of a run: the bytes it draws, by their number, and the salt. -/
structure SeedDraws where
  bytes : ℕ → Bytes
  length : ∀ n, (bytes n).length = n
  salt : Bytes

/-- The randomness an operation draws. -/
def SeedDraws.draw (d : SeedDraws) : SeedOp → Bytes
  | .randomBytes n => d.bytes n
  | _ => d.salt

section Run

variable (P : Platform) (d : SeedDraws)

theorem SeedOp.exec_isSome (w : World) (o : SeedOp) : (exec P (d.draw o) w o).isSome := by
  rcases o with email | n | ⟨options, password⟩ | data | line
  · rfl
  · have hlength : (d.draw (.randomBytes n)).length = n := d.length n
    rw [exec, World.exec, if_pos hlength, Option.isSome_some]
  · rfl
  · rw [exec]
    split <;> rfl
  · rfl

/-- Perform an operation. -/
def SeedOp.perform (w : World) (o : SeedOp) : World × Except Exn o.Val :=
  (exec P (d.draw o) w o).get (exec_isSome P d w o)

/-- What a run does to the world when nothing interferes. -/
def seeded (env : SeedEnv) (w : World) : World × Except Exn Unit :=
  (Seed.main env).interp (SeedOp.perform P d) w

/-- The password the administrator of a run gets. -/
def SeedDraws.password (env : SeedEnv) : JsString :=
  (Seed.trimmed env.ADMIN_PASSWORD).getD (Base64.encode .base64url (d.bytes 18))

/-- The administrator that a run creates. -/
def SeedDraws.admin (email : JsString) (hash : PasswordHash) : UserData where
  id := idOf (lit "usr") (d.bytes 22)
  email := email
  passwordHash := hash
  isAdmin := true
  displayName := lit "Administrator"

variable {P d} {w : World} {env : SeedEnv}

@[simp] theorem SeedOp.perform_userFindUnique (email : JsString) :
    perform P d w (.userFindUnique email) = (w, .ok (w.users.find? (·.email = email))) := rfl

@[simp] theorem SeedOp.perform_randomBytes (n : ℕ) :
    perform P d w (.randomBytes n) = (w, .ok (d.bytes n)) := by
  simp [perform, exec, World.exec, SeedDraws.draw, d.length]

@[simp] theorem SeedOp.perform_argon2Hash (options : Argon2Options) (password : JsString) :
    perform P d w (.argon2Hash options password) =
      (w, P.hashPassword options d.salt password) := rfl

@[simp] theorem SeedOp.perform_log (line : JsString) :
    perform P d w (.log line) = (w, .ok ()) := rfl

theorem SeedOp.perform_userCreate (data : UserData) : perform P d w (.userCreate data) =
    if w.users.any fun u ↦ u.id = data.id ∨ u.email = data.email then
      (w, .error (World.prismaError "Unique constraint failed"))
    else ({ w with users := w.users ++ [data.row] }, .ok ()) := by
  have hexec : exec P (d.draw (.userCreate data)) w (.userCreate data) = some
      (if w.users.any fun u ↦ u.id = data.id ∨ u.email = data.email then
        (w, .error (World.prismaError "Unique constraint failed"))
      else ({ w with users := w.users ++ [data.row] }, .ok ())) := by
    rw [exec]
    split <;> rfl
  simp only [perform, hexec, Option.get_some]

theorem interp_logs (lines : List JsString) :
    (lines.forM fun line ↦ Seed.call (.log line)).interp (SeedOp.perform P d) w = (w, .ok ()) := by
  induction lines with
  | nil => rfl
  | cons line lines ih => exact ih

theorem interp_password :
    (Seed.password env).interp (SeedOp.perform P d) w = (w, .ok (d.password env)) := by
  rw [Seed.password, SeedDraws.password]
  rcases Seed.trimmed env.ADMIN_PASSWORD with _ | providedPassword
  · simp only [interp_bind, interp_perform, interp_ofReply, SeedOp.perform_randomBytes,
      interp_pure, Option.getD_none]
  · rfl

/-- **A run on its own.** It creates the administrator when no user has the address. -/
theorem seeded_eq : seeded P d env w = match Seed.trimmed env.ADMIN_EMAIL with
    | none => (w, .error Seed.emailRequired)
    | some email =>
      if w.users.any (·.email = email) then (w, .ok ())
      else match P.hashPassword ARGON2_OPTIONS d.salt (d.password env) with
        | .error e => (w, .error e)
        | .ok hash =>
          if w.users.any (·.id = idOf (lit "usr") (d.bytes 22)) then
            (w, .error (World.prismaError "Unique constraint failed"))
          else ({ w with users := w.users ++ [(d.admin email hash).row] }, .ok ()) := by
  rw [seeded, Seed.main]
  rcases Seed.trimmed env.ADMIN_EMAIL with _ | email
  · rfl
  · simp only [interp_bind, interp_perform, interp_ofReply, SeedOp.perform_userFindUnique]
    rcases hfind : w.users.find? (·.email = email) with _ | user
    · have hnew : ¬w.users.any (·.email = email) := by
        simpa using List.find?_eq_none.mp hfind
      rw [if_neg hnew]
      simp only [hfind, interp_bind, interp_password, interp_perform, interp_ofReply,
        SeedOp.perform_argon2Hash]
      -- the address is new, so that only the identifier can be taken
      have hany : (w.users.any fun u ↦ u.id = idOf (lit "usr") (d.bytes 22) ∨ u.email = email) ↔
          w.users.any (·.id = idOf (lit "usr") (d.bytes 22)) := by
        simp only [List.any_eq_true, decide_eq_true_eq] at hnew ⊢
        grind
      rcases P.hashPassword ARGON2_OPTIONS d.salt (d.password env) with e | hash
      · rfl
      · simp only [Seed.generateId, interp_bind, interp_perform, interp_ofReply, interp_pure,
          SeedOp.perform_randomBytes, SeedOp.perform_userCreate]
        by_cases hid : w.users.any (·.id = idOf (lit "usr") (d.bytes 22))
        · rw [if_pos hid, if_pos (hany.mpr hid)]
        · rw [if_neg hid, if_neg (hany.not.mpr hid)]
          simp only [SeedOp.perform_log]
          split
          · exact interp_logs _
          · rfl
    · have hold : w.users.any (·.email = email) :=
        List.any_eq_true.mpr ⟨user, List.mem_of_find?_eq_some hfind, by
          simpa using List.find?_some hfind⟩
      rw [if_pos hold]
      simp only [hfind, interp_perform, interp_ofReply, SeedOp.perform_log]

/-- A run with a new address creates the administrator, if Argon2 does its work and the identifier
is new as well. -/
theorem seeded_of_new {email : JsString} {hash : PasswordHash}
    (hemail : Seed.trimmed env.ADMIN_EMAIL = some email)
    (hhash : P.hashPassword ARGON2_OPTIONS d.salt (d.password env) = .ok hash)
    (hnew : ∀ u ∈ w.users, u.email ≠ email ∧ u.id ≠ idOf (lit "usr") (d.bytes 22)) :
    seeded P d env w = ({ w with users := w.users ++ [(d.admin email hash).row] }, .ok ()) := by
  have hemails : ¬w.users.any (·.email = email) := by
    simpa using fun u hu ↦ (hnew u hu).1
  have hids : ¬w.users.any (·.id = idOf (lit "usr") (d.bytes 22)) := by
    simpa using fun u hu ↦ (hnew u hu).2
  rw [seeded_eq, hemail]
  simp only [if_neg hemails, hhash, if_neg hids]

end Run

/-! ## Runs that share the table -/

/-- There are not two administrators. -/
def World.AtMostOneAdmin (w : World) : Prop := (w.users.filter (·.isAdmin)).length ≤ 1

/-- The user is still there, with the same password hash. -/
def World.KeepsHash (w : World) (u : User) : Prop :=
  (∃ u' ∈ w.users, u'.id = u.id) ∧ ∀ u' ∈ w.users, u'.id = u.id → u'.passwordHash = u.passwordHash

/-- An operation of a run: a user is created with the address of the run only. -/
def SeedEnv.Creates (env : SeedEnv) (o : SeedOp) : Prop :=
  ∀ data, o = .userCreate data → Seed.trimmed env.ADMIN_EMAIL = some data.email

theorem asks_main (env : SeedEnv) : Asks env.Creates (fun _ ↦ False) (Seed.main env) := by
  have hlog : ∀ line, Asks env.Creates (fun _ ↦ False) (Seed.call (.log line)) := fun line ↦
    asks_call (by simp [SeedEnv.Creates])
  have hlogs : ∀ lines : List JsString,
      Asks env.Creates (fun _ ↦ False) (lines.forM fun line ↦ Seed.call (.log line)) := by
    intro lines
    induction lines with
    | nil => exact asks_pure
    | cons line lines ih => exact (hlog line).bind fun _ ↦ ih
  have hpassword : Asks env.Creates (fun _ ↦ False) (Seed.password env) := by
    rw [Seed.password]
    split
    · exact asks_pure
    · exact (asks_call (by simp [SeedEnv.Creates])).bind fun _ ↦ asks_pure
  rw [Seed.main]
  rcases hemail : Seed.trimmed env.ADMIN_EMAIL with _ | email
  · exact asks_throw
  · refine (asks_call (by simp [SeedEnv.Creates])).bind fun existing ↦ ?_
    rcases existing with _ | user
    · refine hpassword.bind fun password ↦
        (asks_call (by simp [SeedEnv.Creates])).bind fun hash ↦ ?_
      refine Asks.bind ((asks_call (by simp [SeedEnv.Creates])).bind fun _ ↦ asks_pure) fun id ↦ ?_
      refine (asks_call ?_).bind fun _ ↦ (hlog _).bind fun _ ↦ ?_
      · rintro data ⟨rfl⟩
        exact hemail
      · split
        · exact hlogs _
        · exact asks_pure
    · exact hlog _

section Shared

variable {P : Platform} {w w' : World} {A : Set SeedEnv}
  {e : Event SeedOp SeedOp.Val Exn SeedEnv Unit World}
  {c : Config SeedOp SeedOp.Val Exn SeedEnv Unit World}

/-- **What an operation can do to the user table.** It adds a row with an identifier and an address
that no row has, or leaves the table as it is. -/
theorem SeedOp.exec_users {y : Bytes} {o : SeedOp} {r : Except Exn o.Val}
    (h : exec P y w o = some (w', r)) : w'.users = w.users ∨ ∃ data, o = .userCreate data ∧
      w'.users = w.users ++ [data.row] ∧ ∀ u ∈ w.users, u.id ≠ data.id ∧ u.email ≠ data.email := by
  rcases o with email | n | ⟨options, password⟩ | data | line
  · exact Or.inl (World.exec_users (P := P) (y := y) (o := .userFindUnique email) h (by simp))
  · exact Or.inl (World.exec_users (P := P) (y := y) (o := .randomBytes n) h (by simp))
  · exact Or.inl
      (World.exec_users (P := P) (y := y) (o := .argon2Hash options password) h (by simp))
  · rw [exec] at h
    split at h
    · obtain ⟨rfl, -⟩ := Prod.mk.inj (Option.some_inj.mp h)
      exact Or.inl rfl
    · next hfresh =>
      obtain ⟨rfl, -⟩ := Prod.mk.inj (Option.some_inj.mp h)
      refine Or.inr ⟨data, rfl, rfl, fun u hu ↦ not_or.mp fun hor ↦ hfresh ?_⟩
      exact List.any_eq_true.mpr ⟨u, hu, decide_eq_true hor⟩
  · obtain ⟨rfl, -⟩ := Prod.mk.inj (Option.some_inj.mp h)
    exact Or.inl rfl

theorem seed_event (heff : (seedSystem P).Effect e) : e.after.users = e.before.users ∨
    ∃ data a, e.done = some ⟨.userCreate data, a⟩ ∧ e.after.users = e.before.users ++ [data.row] ∧
      ∀ u ∈ e.before.users, u.id ≠ data.id ∧ u.email ≠ data.email := by
  rcases hd : e.done with _ | ⟨o, a⟩
  · exact Or.inl (congrArg World.users (heff.unchanged hd))
  · obtain ⟨y, hy⟩ := heff.exec hd
    obtain h | ⟨data, rfl, h⟩ := SeedOp.exec_users hy
    · exact Or.inl h
    · exact Or.inr ⟨data, a, rfl, h⟩

theorem seed_creates (h : (seedSystem P).Reachable w c) (he : e ∈ c.trace) {o : SeedOp}
    {a : Except Exn o.Val} (hd : e.done = some ⟨o, a⟩) : e.call.Creates o := by
  obtain ⟨past, hG | hD⟩ := (h.orderly fun env ↦ asks_main env []).allowed he hd
  · exact hG
  · exact hD.elim

/-- The users are told apart by identifier and by address, and have the addresses of the runs. -/
structure Seeded (A : Set SeedEnv) (w : World) : Prop where
  ids : UniqueIn (fun u : User ↦ some u.id) w.users
  emails : UniqueIn (fun u : User ↦ some u.email) w.users
  email : ∀ u ∈ w.users, ∃ env ∈ A, Seed.trimmed env.ADMIN_EMAIL = some u.email

/-- A new row keeps the table in order. -/
theorem Seeded.create (h : Seeded A w) {env : SeedEnv} (henv : env ∈ A) {data : UserData}
    (hemail : Seed.trimmed env.ADMIN_EMAIL = some data.email)
    (hfresh : ∀ u ∈ w.users, u.id ≠ data.id ∧ u.email ≠ data.email)
    (hw : w'.users = w.users ++ [data.row]) : Seeded A w' where
  ids := by
    rw [hw, unique_concat]
    refine ⟨h.ids, ?_⟩
    rintro _ ⟨⟩ u hu hid
    exact (hfresh u hu).1 (Option.some_inj.mp hid)
  emails := by
    rw [hw, unique_concat]
    refine ⟨h.emails, ?_⟩
    rintro _ ⟨⟩ u hu hid
    exact (hfresh u hu).2 (Option.some_inj.mp hid)
  email := by
    rw [hw]
    intro u hu
    rcases List.mem_append.mp hu with hu | hu
    · exact h.email u hu
    · rw [List.mem_singleton.mp hu]
      exact ⟨env, henv, hemail⟩

/-- **The invariant of the table**, whatever runs there are. -/
theorem seeded_of_reachable (hw : w.users = []) (h : (seedSystem P).Reachable w c)
    (hA : ∀ e ∈ c.trace, e.call ∈ A) : Seeded A c.store := by
  have hD : Throughout (fun _ e ↦ e.call ∈ A ∧
      ∀ o a, e.done = some ⟨o, a⟩ → e.call.Creates o) c.trace := by
    intro pre e post htr
    have he : e ∈ c.trace := htr ▸ List.mem_append_right pre List.mem_cons_self
    exact ⟨hA e he, fun o a hd ↦ seed_creates h he hd⟩
  have hcongr : ∀ {w w' : World}, w'.users = w.users → Seeded A w → Seeded A w' :=
    fun husers h ↦ ⟨husers ▸ h.ids, husers ▸ h.emails, husers ▸ h.email⟩
  refine h.invariant (I := fun s _ ↦ Seeded A s) hD ?_
    (fun s _ d h ↦ hcongr (World.tick_users d s) h) ?_
  · exact ⟨hw ▸ unique_nil, hw ▸ unique_nil, by simp [hw]⟩
  · rintro tr e hI heff ⟨hcall, hcreates⟩
    obtain husers | ⟨data, a, hd, husers, hfresh⟩ := seed_event heff
    · exact hcongr husers hI
    · exact hI.create hcall (hcreates _ a hd data rfl) hfresh husers

theorem mem_users_of_reachable (h : (seedSystem P).Reachable w c) (he : e ∈ c.trace) {u : User}
    (hu : u ∈ e.before.users) : u ∈ c.store.users := by
  have hevent : ∀ e : Event SeedOp SeedOp.Val Exn SeedEnv Unit World,
      (seedSystem P).Effect e → e.before.users ⊆ e.after.users := by
    intro e heff
    obtain husers | ⟨data, a, -, husers, -⟩ := seed_event heff
    · exact husers ▸ List.Subset.refl _
    · exact husers ▸ List.subset_append_left ..
  obtain ⟨pre, post, htr⟩ := List.append_of_mem he
  have heff := h.effects pre e post htr
  exact (h.evolves (R := fun s s' : World ↦ s.users ⊆ s'.users) (fun _ ↦ List.Subset.refl _)
    (fun _ _ _ ↦ List.Subset.trans) (fun _ _ ↦ List.Subset.refl _) hevent).1 e he
      (hevent e heff hu)

theorem Seeded.atMostOne (h : Seeded A w) (hA : ∀ env ∈ A, ∀ env' ∈ A, ∀ email email',
    Seed.trimmed env.ADMIN_EMAIL = some email → Seed.trimmed env'.ADMIN_EMAIL = some email' →
      email = email') : w.AtMostOneAdmin := by
  have hemails := h.emails.filter (·.isAdmin)
  have hfrom : ∀ u ∈ w.users.filter (·.isAdmin), ∃ env ∈ A,
      Seed.trimmed env.ADMIN_EMAIL = some u.email :=
    fun u hu ↦ h.email u (List.mem_of_mem_filter hu)
  rw [World.AtMostOneAdmin]
  generalize w.users.filter (·.isAdmin) = admins at hemails hfrom ⊢
  rcases admins with _ | ⟨u, _ | ⟨u', admins⟩⟩
  · simp
  · simp
  · obtain ⟨env, henv, hu⟩ := hfrom u (by simp)
    obtain ⟨env', henv', hu'⟩ := hfrom u' (by simp)
    have hne := unique_iff_pairwise.mp hemails
    exact absurd (hA env' henv' env henv _ _ hu' hu)
      fun heq ↦ List.rel_of_pairwise_cons hne List.mem_cons_self u.email rfl (congrArg some heq)

theorem exists_two_admins (hargon : ∀ salt password, salt.length = 16 →
      ∃ digest, P.argon2 ARGON2_OPTIONS salt password = .ok digest)
    (hw : w.users = []) {env env' : SeedEnv} {email email' : JsString}
    (hemail : Seed.trimmed env.ADMIN_EMAIL = some email)
    (hemail' : Seed.trimmed env'.ADMIN_EMAIL = some email') (hne : email ≠ email') :
    ∃ c, (seedSystem P).Reachable w c ∧ (∀ e ∈ c.trace, e.call = env ∨ e.call = env') ∧
      ¬c.store.AtMostOneAdmin := by
  have hhash : ∀ salt password, salt.length = 16 →
      ∃ hash, P.hashPassword ARGON2_OPTIONS salt password = .ok hash := by
    intro salt password hsalt
    obtain ⟨digest, hdigest⟩ := hargon salt password hsalt
    exact ⟨⟨ARGON2_OPTIONS, salt, digest⟩, by rw [Platform.hashPassword, hdigest]; rfl⟩
  -- the two runs draw different identifiers
  let d (b : UInt8) : SeedDraws := ⟨fun n ↦ .replicate n b, fun _ ↦ List.length_replicate,
    .replicate 16 0⟩
  have hids : idOf (lit "usr") ((d 0).bytes 22) ≠ idOf (lit "usr") ((d 1).bytes 22) := by
    change idOf (lit "usr") (.replicate 22 0) ≠ idOf (lit "usr") (.replicate 22 1)
    decide
  have hexec : ∀ b s o, ∃ y, (seedSystem P).exec y s o = some (SeedOp.perform P (d b) s o) :=
    fun b s o ↦ ⟨(d b).draw o, (Option.some_get _).symm⟩
  obtain ⟨hash, hhash₀⟩ := hhash (d 0).salt ((d 0).password env) rfl
  obtain ⟨hash', hhash₁⟩ := hhash (d 1).salt ((d 1).password env') rfl
  obtain ⟨c₀, tr₀, hc₀, hstore₀, htrace₀, hcall₀, hthreads₀⟩ :=
    System.Reachable.exists_interp (S := seedSystem P) (c := .initial w) .refl (hexec 0)
      (i := 0) rfl env
  have hseeded₀ : c₀.store = (seeded P (d 0) env w).1 := hstore₀
  rw [seeded_of_new hemail hhash₀ (by simp [hw]), hw, List.nil_append] at hseeded₀
  have husers₀ : c₀.store.users = [((d 0).admin email hash).row] := by rw [hseeded₀]
  obtain ⟨c₁, tr₁, hc₁, hstore₁, htrace₁, hcall₁, -⟩ :=
    hc₀.exists_interp (hexec 1) (i := 1) (hthreads₀ 1 (by decide)) env'
  have hseeded₁ : c₁.store = (seeded P (d 1) env' c₀.store).1 := hstore₁
  have hnew : ∀ u ∈ c₀.store.users,
      u.email ≠ email' ∧ u.id ≠ idOf (lit "usr") ((d 1).bytes 22) := by
    intro u hu
    rw [husers₀, List.mem_singleton] at hu
    exact hu ▸ ⟨hne, hids⟩
  rw [seeded_of_new hemail' hhash₁ hnew, husers₀] at hseeded₁
  refine ⟨c₁, hc₁, fun e he ↦ ?_, ?_⟩
  · rw [htrace₁, htrace₀] at he
    rcases List.mem_append.mp he with he | he
    · exact Or.inl (hcall₀ e he)
    · exact Or.inr (hcall₁ e he)
  · rw [hseeded₁]
    simp [World.AtMostOneAdmin, UserData.row, SeedDraws.admin]

/-- **A single administrator.** Take any set of environments, and any interleaving of runs that
start from them, on a table without users. There is never more than one administrator, and the
password hash of an administrator stays what it is, if and only if the environments agree on the
address. -/
theorem single_administrator_iff (P : Platform) (A : Set SeedEnv)
    (hargon : ∀ salt password, salt.length = 16 →
      ∃ digest, P.argon2 ARGON2_OPTIONS salt password = .ok digest) :
    (∀ w c, w.users = [] → (seedSystem P).Reachable w c → (∀ e ∈ c.trace, e.call ∈ A) →
      c.store.AtMostOneAdmin ∧
        ∀ e ∈ c.trace, ∀ u ∈ e.before.users, u.isAdmin → c.store.KeepsHash u) ↔
      ∀ env ∈ A, ∀ env' ∈ A, ∀ email email', Seed.trimmed env.ADMIN_EMAIL = some email →
        Seed.trimmed env'.ADMIN_EMAIL = some email' → email = email' := by
  constructor
  · intro h env henv env' henv' email email' hemail hemail'
    by_contra hne
    obtain ⟨c, hc, hcall, hadmins⟩ := exists_two_admins (P := P)
      (w := ⟨0, [], [], [], fun _ ↦ none⟩) hargon rfl hemail hemail' hne
    refine hadmins (h _ c rfl hc fun e he ↦ ?_).1
    rcases hcall e he with hcall | hcall
    · exact hcall ▸ henv
    · exact hcall ▸ henv'
  · intro hA w c hw hc hcall
    have hseeded := seeded_of_reachable hw hc hcall
    refine ⟨hseeded.atMostOne hA, fun e he u hu _ ↦ ?_⟩
    have hmem := mem_users_of_reachable hc he hu
    refine ⟨⟨u, hmem, rfl⟩, fun u' hu' hid ↦ ?_⟩
    have hids : (c.store.users.map (·.id)).Nodup := by
      rw [← List.filterMap_eq_map]
      exact hseeded.ids
    rw [List.inj_on_of_nodup_map hids hu' hmem hid]

end Shared

/-- An environment that provides a password. -/
def adminEnv (email : JsString) : SeedEnv := ⟨some email, some (lit "correct horse")⟩

/-- The steps of a run from start to end. A run that finds its user is done before. -/
def seedSchedule (i : ℕ) (env : SeedEnv) (b : UInt8) : List (System.Label Exn SeedEnv Bytes) :=
  [.start i env, .next i [] .none, .next i (.replicate 16 b) .none, .next i (.replicate 22 b) .none,
    .next i [] .none, .next i [] .none, .next i [] .none]

/-- Two runs in turn, with the same address up to blanks. -/
def restarted : Config SeedOp SeedOp.Val Exn SeedEnv Unit World :=
  (seedSystem samplePlatform).run (seedSchedule 0 (adminEnv (lit "admin@example.com")) 0 ++
    seedSchedule 1 (adminEnv (lit " admin@example.com\n")) 1) ⟨0, [], [], [], fun _ ↦ none⟩

theorem single_administrator_iff_example : restarted.store.AtMostOneAdmin ∧
    ∀ e ∈ restarted.trace, ∀ u ∈ e.before.users, u.isAdmin → restarted.store.KeepsHash u := by
  refine (single_administrator_iff samplePlatform {adminEnv (lit "admin@example.com"),
    adminEnv (lit " admin@example.com\n")} fun _ _ _ ↦ ⟨_, rfl⟩).mpr ?_
      ⟨0, [], [], [], fun _ ↦ none⟩ restarted rfl (System.reachable_run ..) ?_
  · rintro env (rfl | rfl) env' (rfl | rfl) email email' hemail hemail'
    all_goals exact Option.some_inj.mp (hemail.symm.trans (Eq.trans (by decide) hemail'))
  · have hcalls : ∀ env ∈ restarted.trace.map (·.call), env = adminEnv (lit "admin@example.com") ∨
        env = adminEnv (lit " admin@example.com\n") := by decide +kernel
    exact fun e he ↦ hcalls e.call (List.mem_map_of_mem he)

/-- Two runs in turn, with another address in the second one. -/
def redeployed : Config SeedOp SeedOp.Val Exn SeedEnv Unit World :=
  (seedSystem samplePlatform).run (seedSchedule 0 (adminEnv (lit "admin@example.com")) 0 ++
    seedSchedule 1 (adminEnv (lit "ops@example.com")) 1) ⟨0, [], [], [], fun _ ↦ none⟩

/-- **Two administrators**: the address was changed between two deployments. -/
theorem two_administrators :
    redeployed.store.users.map (fun u ↦ (u.email, u.isAdmin)) =
        [(lit "admin@example.com", true), (lit "ops@example.com", true)] ∧
      ¬∀ w c, w.users = [] → (seedSystem samplePlatform).Reachable w c →
        c.store.AtMostOneAdmin := by
  refine ⟨by decide +kernel, fun h ↦ ?_⟩
  have hone := h _ redeployed rfl (System.reachable_run ..)
  rw [World.AtMostOneAdmin] at hone
  revert hone
  decide +kernel

end NativeKiln
