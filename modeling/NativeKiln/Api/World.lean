import NativeKiln.Codec.Base64
import NativeKiln.Interaction.System
import NativeKiln.Shared.Errors

/-!
# What the API stands on

The tables, the Redis counters and the clock, with the operations the API performs on them. Each
operation is one atomic step of the store; the code that performs them one after another is in the
other modules of this directory.

Hashing, Argon2 and the e-mail check of the schema library are functions of a `Platform`. Times are
in milliseconds.
-/

namespace NativeKiln

open JsString (lit)

/-! ## Tables -/

/-- The parameters of an Argon2id computation: memory in KiB, passes, lanes. -/
structure Argon2Options where
  memoryCost : ℕ
  timeCost : ℕ
  parallelism : ℕ
  deriving DecidableEq, Repr

/-- The parameters the administrator's hash is made with (`seed.ts`). -/
def ARGON2_OPTIONS : Argon2Options := ⟨19456, 2, 1⟩

/-- An encoded Argon2id hash. -/
structure PasswordHash where
  options : Argon2Options
  salt : Bytes
  digest : Bytes
  deriving DecidableEq

structure User where
  id : JsString
  email : JsString
  passwordHash : PasswordHash
  isAdmin : Bool
  lastLoginAt : Option ℕ
  deriving DecidableEq

structure Session where
  id : JsString
  userId : JsString
  tokenHash : JsString
  userAgent : Option JsString
  ipAddress : Option JsString
  expiresAt : ℕ
  createdAt : ℕ
  lastSeenAt : ℕ
  deriving DecidableEq

/-- The columns a session is created with; the others have defaults. -/
structure SessionData where
  id : JsString
  userId : JsString
  tokenHash : JsString
  userAgent : Option JsString
  ipAddress : Option JsString
  expiresAt : ℕ
  deriving DecidableEq

structure AuditEvent where
  id : JsString
  userId : JsString
  action : JsString
  targetType : JsString
  targetId : JsString
  deriving DecidableEq

/-- A Redis counter, with the time it expires at when it has one. -/
structure Counter where
  count : ℕ
  expireAt : Option ℕ
  deriving DecidableEq

/-- Everything that outlives a request. -/
structure World where
  clock : ℕ
  users : List User
  sessions : List Session
  auditEvents : List AuditEvent
  redis : JsString → Option Counter

/-- What a session cookie stands for. -/
structure SessionContext where
  sessionId : JsString
  userId : JsString
  email : JsString
  isAdmin : Bool
  deriving DecidableEq

/-! ## Routes -/

inductive Route
  | login
  | logout
  | me
  | liveness
  | readiness
  deriving DecidableEq, Repr

/-! ## Operations -/

/-- What a request asks of the world. `handle` is the router calling the handler of a route. -/
inductive Op
  | now
  | randomBytes (n : ℕ)
  | incr (key : JsString)
  | expire (key : JsString) (seconds : ℕ)
  | del (key : JsString)
  | ping
  | userFindUnique (email : JsString)
  | userUpdate (id : JsString) (lastLoginAt : ℕ)
  | auditEventCreate (data : AuditEvent)
  | sessionCreate (data : SessionData)
  | sessionFindUnique (tokenHash : JsString)
  | sessionDelete (id : JsString)
  | sessionUpdate (id : JsString) (lastSeenAt : ℕ)
  | sessionDeleteMany (tokenHash : JsString)
  | argon2Verify (hash : PasswordHash) (password : JsString)
  | argon2Hash (options : Argon2Options) (password : JsString)
  | queryRaw
  | listObjects
  | handle (route : Route) (session : Option SessionContext)
  deriving DecidableEq

/-- The value an operation is answered with. -/
@[reducible] def Op.Val : Op → Type
  | now => ℕ
  | randomBytes _ => Bytes
  | incr _ => ℕ
  | ping => JsString
  | userFindUnique _ => Option User
  | sessionFindUnique _ => Option (Session × User)
  | sessionDeleteMany _ => ℕ
  | argon2Verify .. => Bool
  | argon2Hash .. => PasswordHash
  | _ => Unit

/-- Code of the API. -/
abbrev Api := Interaction.Program Op Op.Val Exn

/-- An operation with the reply to it. -/
abbrev Answered := Interaction.Answer Op Op.Val Exn

/-- `await` an operation. -/
abbrev call (o : Op) : Api o.Val := Interaction.Program.call o

/-- Have an operation performed and do not wait for it. -/
abbrev spawn (o : Op) : Api Unit := Interaction.Program.spawn o

/-! ## The platform -/

/-- What the code calls and does not contain. -/
structure Platform where
  /-- `createHash('sha256').update(b).digest('hex')`. -/
  sha256 : Bytes → JsString
  /-- The Argon2id digest for options, salt and password. -/
  argon2 : Argon2Options → Bytes → JsString → Except Exn Bytes
  /-- `z.string().email()` accepts the string. -/
  emailOk : JsString → Bool
  /-- `Buffer.from` of a parsed JSON value, which need not be one that it accepts. -/
  bufferFrom : Json → Option Bytes
  /-- `process.env.NODE_ENV === 'production'`. -/
  isProd : Bool

/-- `argon2.hash`, with the salt it drew. -/
def Platform.hashPassword (P : Platform) (options : Argon2Options) (salt : Bytes)
    (password : JsString) : Except Exn PasswordHash :=
  return ⟨options, salt, ← P.argon2 options salt password⟩

/-- `argon2.verify`, with the parameters and the salt of the encoded hash. -/
def Platform.verifyPassword (P : Platform) (hash : PasswordHash) (password : JsString) :
    Except Exn Bool :=
  return (← P.argon2 hash.options hash.salt password) == hash.digest

/-! ## What the operations do -/

namespace World

/-- A rejection by the database. -/
def prismaError (message : String) : Exn := .error (lit message) []

/-- A counter that has reached its expiry is gone. -/
def live (clock : ℕ) (c : Counter) : Bool :=
  match c.expireAt with
  | none => true
  | some t => clock < t

/-- Time passes, and counters expire. -/
def tick (d : ℕ) (w : World) : World :=
  { w with
    clock := w.clock + d
    redis := fun key ↦ (w.redis key).filter (live (w.clock + d)) }

@[simp] theorem tick_clock (d : ℕ) (w : World) : (w.tick d).clock = w.clock + d := rfl

@[simp] theorem tick_users (d : ℕ) (w : World) : (w.tick d).users = w.users := rfl

@[simp] theorem tick_sessions (d : ℕ) (w : World) : (w.tick d).sessions = w.sessions := rfl

theorem tick_redis (d : ℕ) (w : World) (key : JsString) :
    (w.tick d).redis key = (w.redis key).filter (live (w.clock + d)) := rfl

/-- Write one counter. -/
def setCounter (w : World) (key : JsString) (c : Option Counter) : World :=
  { w with redis := Function.update w.redis key c }

@[simp] theorem setCounter_self (w : World) (key : JsString) (c : Option Counter) :
    (w.setCounter key c).redis key = c := Function.update_self ..

theorem setCounter_setCounter (w : World) (key : JsString) (c c' : Option Counter) :
    (w.setCounter key c).setCounter key c' = w.setCounter key c' := by
  rw [setCounter, setCounter, Function.update_idem, setCounter]

theorem setCounter_of_ne (w : World) {key key' : JsString} (h : key' ≠ key) (c : Option Counter) :
    (w.setCounter key c).redis key' = w.redis key' := Function.update_of_ne h ..

/-- The new value of a counter after `INCR`. -/
def incremented : Option Counter → Counter
  | none => ⟨1, none⟩
  | some c => { c with count := c.count + 1 }

/-- A counter after `EXPIRE`; a timeout that is not positive deletes it. -/
def expiring (clock seconds : ℕ) (c : Counter) : Option Counter :=
  if 0 < seconds then some { c with expireAt := some (clock + 1000 * seconds) } else none

/-- The row `data` makes at some time. -/
def sessionRow (clock : ℕ) (d : SessionData) : Session :=
  { id := d.id, userId := d.userId, tokenHash := d.tokenHash, userAgent := d.userAgent
    ipAddress := d.ipAddress, expiresAt := d.expiresAt, createdAt := clock, lastSeenAt := clock }

/-- What one operation does; `y` is the randomness it draws. -/
def exec (P : Platform) (y : Bytes) (w : World) : (o : Op) → Option (World × Except Exn o.Val)
  | .now => some (w, .ok w.clock)
  | .randomBytes n => if y.length = n then some (w, .ok y) else none
  | .incr key =>
    let c := incremented (w.redis key)
    some (w.setCounter key (some c), .ok c.count)
  | .expire key seconds =>
    some (w.setCounter key ((w.redis key).bind (expiring w.clock seconds)), .ok ())
  | .del key => some (w.setCounter key none, .ok ())
  | .ping => some (w, .ok (lit "PONG"))
  | .userFindUnique email => some (w, .ok (w.users.find? (·.email = email)))
  | .userUpdate id lastLoginAt =>
    if w.users.any (·.id = id) then
      some ({ w with users := w.users.map fun u ↦
        if u.id = id then { u with lastLoginAt := some lastLoginAt } else u }, .ok ())
    else some (w, .error (prismaError "Record to update not found."))
  | .auditEventCreate data =>
    if w.auditEvents.any (·.id = data.id) then
      some (w, .error (prismaError "Unique constraint failed on the fields: (id)"))
    else if w.users.any (·.id = data.userId) then
      some ({ w with auditEvents := w.auditEvents ++ [data] }, .ok ())
    else some (w, .error (prismaError "Foreign key constraint violated: audit_events_userId_fkey"))
  | .sessionCreate data =>
    if w.sessions.any fun s ↦ s.id = data.id ∨ s.tokenHash = data.tokenHash then
      some (w, .error (prismaError "Unique constraint failed"))
    else if w.users.any (·.id = data.userId) then
      some ({ w with sessions := w.sessions ++ [sessionRow w.clock data] }, .ok ())
    else some (w, .error (prismaError "Foreign key constraint violated: sessions_userId_fkey"))
  | .sessionFindUnique tokenHash =>
    match w.sessions.find? (·.tokenHash = tokenHash) with
    | none => some (w, .ok none)
    | some s =>
      match w.users.find? (·.id = s.userId) with
      | some u => some (w, .ok (some (s, u)))
      | none => some (w, .error (prismaError "Inconsistent query result: Field user is required"))
  | .sessionDelete id =>
    if w.sessions.any (·.id = id) then
      some ({ w with sessions := w.sessions.filter (·.id ≠ id) }, .ok ())
    else some (w, .error (prismaError "Record to delete does not exist."))
  | .sessionUpdate id lastSeenAt =>
    if w.sessions.any (·.id = id) then
      some ({ w with sessions := w.sessions.map fun s ↦
        if s.id = id then { s with lastSeenAt := lastSeenAt } else s }, .ok ())
    else some (w, .error (prismaError "Record to update not found."))
  | .sessionDeleteMany tokenHash =>
    some ({ w with sessions := w.sessions.filter (·.tokenHash ≠ tokenHash) },
      .ok (w.sessions.filter (·.tokenHash = tokenHash)).length)
  | .argon2Verify hash password => some (w, P.verifyPassword hash password)
  | .argon2Hash options password => some (w, P.hashPassword options y password)
  | .queryRaw => some (w, .ok ())
  | .listObjects => some (w, .ok ())
  | .handle _ _ => some (w, .ok ())

/-- An operation is carried out when the randomness it draws has the length it asks for. -/
theorem exec_isSome {P : Platform} {y : Bytes} {w : World} {o : Op}
    (h : ∀ n, o = .randomBytes n → y.length = n) : (exec P y w o).isSome := by
  cases o with
  | randomBytes n => rw [exec, if_pos (h n rfl), Option.isSome_some]
  | _ =>
    simp only [exec]
    repeat' split
    all_goals rfl

/-! ### What an operation leaves alone -/

variable {P : Platform} {y : Bytes} {w w' : World} {o : Op} {r : Except Exn o.Val}

theorem exec_clock (h : exec P y w o = some (w', r)) : w'.clock = w.clock := by
  cases o <;> simp only [exec, setCounter] at h <;> (repeat' split at h) <;>
    simp only [Option.some_inj, Prod.mk.injEq, reduceCtorEq] at h <;> rw [← h.1]

theorem exec_redis (h : exec P y w o = some (w', r)) (hincr : ∀ k, o ≠ .incr k)
    (hexpire : ∀ k n, o ≠ .expire k n) (hdel : ∀ k, o ≠ .del k) : w'.redis = w.redis := by
  cases o <;> first
    | exact absurd rfl (hincr _)
    | exact absurd rfl (hexpire _ _)
    | exact absurd rfl (hdel _)
    | (simp only [exec] at h; (repeat' split at h) <;>
        simp only [Option.some_inj, Prod.mk.injEq, reduceCtorEq] at h <;> rw [← h.1])

theorem exec_sessions (h : exec P y w o = some (w', r)) (hcreate : ∀ d, o ≠ .sessionCreate d)
    (hdelete : ∀ id, o ≠ .sessionDelete id) (hupdate : ∀ id t, o ≠ .sessionUpdate id t)
    (hmany : ∀ hash, o ≠ .sessionDeleteMany hash) : w'.sessions = w.sessions := by
  cases o <;> first
    | exact absurd rfl (hcreate _)
    | exact absurd rfl (hdelete _)
    | exact absurd rfl (hupdate _ _)
    | exact absurd rfl (hmany _)
    | (simp only [exec, setCounter] at h; (repeat' split at h) <;>
        simp only [Option.some_inj, Prod.mk.injEq, reduceCtorEq] at h <;> rw [← h.1])

theorem exec_users (h : exec P y w o = some (w', r)) (hupdate : ∀ id t, o ≠ .userUpdate id t) :
    w'.users = w.users := by
  cases o <;> first
    | exact absurd rfl (hupdate _ _)
    | (simp only [exec, setCounter] at h; (repeat' split at h) <;>
        simp only [Option.some_inj, Prod.mk.injEq, reduceCtorEq] at h <;> rw [← h.1])

theorem exec_auditEvents (h : exec P y w o = some (w', r))
    (hcreate : ∀ data, o ≠ .auditEventCreate data) : w'.auditEvents = w.auditEvents := by
  cases o <;> first
    | exact absurd rfl (hcreate _)
    | (simp only [exec, setCounter] at h; (repeat' split at h) <;>
        simp only [Option.some_inj, Prod.mk.injEq, reduceCtorEq] at h <;> rw [← h.1])

/-- An operation that is answered with an error of its own changes nothing. -/
theorem eq_of_exec_error {e : Exn} (h : exec P y w o = some (w', .error e)) : w' = w := by
  cases o <;> simp only [exec] at h <;> (repeat' split at h) <;>
    simp only [Option.some_inj, Prod.mk.injEq, reduceCtorEq, and_false] at h <;> exact h.1.symm

end World

/-- Reading the clock, drawing random bytes and calling a handler cannot fail; everything else may
be refused, with some `Error`. -/
def mayReject (o : Op) (e : Exn) : Bool :=
  match o, e with
  | .now, _ | .randomBytes _, _ | .handle _ _, _ => false
  | _, .error _ _ => true
  | _, _ => false

/-- Threads that run the bodies of calls against the world. -/
def system (P : Platform) {ι ρ : Type} (body : ι → Api ρ) :
    Interaction.System Op Op.Val Exn ι ρ Bytes World where
  body := body
  exec := World.exec P
  mayReject := mayReject
  tick := World.tick

@[simp] theorem system_tick (P : Platform) {ι ρ : Type} (body : ι → Api ρ) :
    (system P body).tick = World.tick := rfl

/-! ## A small world

A platform that agrees with the real functions on the inputs of the runs shown in this directory,
and a world with one user. -/

/-- The token made of one byte repeated. -/
def sampleToken (b : UInt8) : JsString := Base64.encode .base64url (.replicate 32 b)

/-- SHA-256 on two tokens; other inputs are told apart in another way. -/
def sampleSha256 (b : Bytes) : JsString :=
  if b = (sampleToken 0).utf8 then
    lit "0f007385b6f9d4b7eeb2748605afe1a984a0a3bfa3f014d09e2a784ce9e5cd1a"
  else if b = (sampleToken 1).utf8 then
    lit "56d5fa7333f6d747db42c239407e5da4c32f4c79f35d092b134fd35a402d9c5c"
  else 120 :: Base64.encode .base64 b

/-- The Argon2id digests of two passwords. -/
def sampleArgon2 (options : Argon2Options) (salt : Bytes) (password : JsString) : Bytes :=
  if options = ⟨19456, 2, 1⟩ ∧ salt = .replicate 16 7 ∧ password = lit "correct horse" then
    [113, 50, 230, 166, 2, 139, 122, 187, 148, 235, 54, 190, 183, 103, 20, 103,
      119, 205, 124, 117, 66, 98, 17, 168, 39, 200, 167, 165, 197, 13, 115, 7]
  else if options = ⟨19456, 2, 1⟩ ∧ salt = .replicate 16 7 ∧ password = lit "wrong" then
    [242, 247, 101, 210, 123, 191, 24, 19, 173, 214, 136, 48, 68, 1, 235, 55,
      132, 46, 125, 10, 213, 125, 105, 210, 244, 225, 16, 240, 170, 167, 166, 154]
  else if options = ⟨65536, 3, 4⟩ ∧ salt = .replicate 16 0 ∧ password = lit "wrong" then
    [229, 229, 36, 129, 44, 183, 195, 31, 192, 59, 213, 23, 167, 226, 179, 250,
      144, 105, 250, 232, 12, 78, 246, 196, 28, 148, 5, 62, 51, 108, 226, 236]
  else password.utf8

/-- The platform of the runs. -/
def samplePlatform : Platform where
  sha256 := sampleSha256
  argon2 options salt password := .ok (sampleArgon2 options salt password)
  emailOk s := s ∈ [lit "admin@example.com", lit "nobody@example.com"]
  bufferFrom _ := none
  isProd := false

/-- The administrator, with the password `correct horse`. -/
def sampleAdmin : User where
  id := lit "usr_admin"
  email := lit "admin@example.com"
  passwordHash := ⟨⟨19456, 2, 1⟩, .replicate 16 7,
    sampleArgon2 ⟨19456, 2, 1⟩ (.replicate 16 7) (lit "correct horse")⟩
  isAdmin := true
  lastLoginAt := none

/-- One user, no session, no counter. -/
def sampleWorld : World := ⟨0, [sampleAdmin], [], [], fun _ ↦ none⟩

theorem sampleSha256_cases (b : Bytes) :
    b = (sampleToken 0).utf8 ∧ (sampleSha256 b).head? = some 48 ∨
      b = (sampleToken 1).utf8 ∧ (sampleSha256 b).head? = some 53 ∨
      sampleSha256 b = 120 :: Base64.encode .base64 b := by
  by_cases h₀ : b = (sampleToken 0).utf8
  · exact Or.inl ⟨h₀, by rw [sampleSha256, if_pos h₀]; rfl⟩
  · by_cases h₁ : b = (sampleToken 1).utf8
    · exact Or.inr (Or.inl ⟨h₁, by rw [sampleSha256, if_neg h₀, if_pos h₁]; rfl⟩)
    · exact Or.inr (Or.inr (by rw [sampleSha256, if_neg h₀, if_neg h₁]))

theorem sampleSha256_injective : Function.Injective sampleSha256 := by
  intro b b' h
  rcases sampleSha256_cases b with ⟨rfl, hb⟩ | ⟨rfl, hb⟩ | hb <;>
    rcases sampleSha256_cases b' with ⟨rfl, hb'⟩ | ⟨rfl, hb'⟩ | hb'
  · rfl
  · simp [h, hb'] at hb
  · simp [h, hb'] at hb
  · simp [h, hb'] at hb
  · rfl
  · simp [h, hb'] at hb
  · simp [h.symm, hb] at hb'
  · simp [h.symm, hb] at hb'
  · rw [hb, hb'] at h
    exact Base64.encode_injective _ (List.cons.inj h).2

end NativeKiln
