import NativeKiln.Api.Server

/-!
# Which e-mail addresses exist

A login attempt with a wrong password does some Argon2 work whether there is a user or not, so that
the two cases take the same time. Here login attempts are sent to the API one after another, once
with one user table and once with another, and the Argon2 computations are written down by their
parameters. Answers and counters never depend on the table. The work does: without a user it is done
with the default parameters of the library, which are not those of the seeded hashes.
-/

namespace NativeKiln

open JsString (lit)

/-! ## Attempts, one after another -/

/-- A login request, with the time that has passed since the one before. -/
structure Attempt where
  wait : ℕ
  request : Request
  login : request.route? = some .login

/-- The random bytes that are drawn, by the number of the operation. -/
structure Draws where
  bytes : ℕ → Op → Bytes
  length : ∀ k n, (bytes k (.randomBytes n)).length = n

/-- The world with the number of operations it has performed and the Argon2 computations among
them. -/
structure Machine where
  world : World
  performed : ℕ
  work : List Argon2Options

/-- The parameters of an Argon2 computation. `verify` uses those of the encoded hash. -/
def argon2Work : Op → List Argon2Options
  | .argon2Verify hash _ => [hash.options]
  | .argon2Hash options _ => [options]
  | _ => []

variable (P : Platform) (d : Draws)

/-- Perform an operation. -/
def perform (m : Machine) (o : Op) : Machine × Except Exn o.Val :=
  let done := (World.exec P (d.bytes m.performed o) m.world o).get <| World.exec_isSome fun n h ↦ by
    subst h
    exact d.length m.performed n
  (⟨done.1, m.performed + 1, m.work ++ argon2Work o⟩, done.2)

/-- Answer the attempts in order. -/
def answers : List Attempt → Machine → Machine × List (Except Exn Response)
  | [], m => (m, [])
  | a :: as, m =>
    let first := (serve P a.request).interp (perform P d) { m with world := m.world.tick a.wait }
    let rest := answers as first.1
    (rest.1, first.2 :: rest.2)

/-! ## What an attempt is answered -/

/-- The credentials of a login request, or what is wrong with its body. -/
def credentials (r : Request) : Except Exn LoginDto :=
  match r.body with
  | .malformed message => .error (badRequest message)
  | .rejected message stack => .error (.error message stack)
  | .parsed value => transformLogin P value

/-- A login request passes the guards, and its credentials are passed on when they are well
formed. -/
theorem dispatch_login {P : Platform} {r : Request} (hlogin : r.route? = some .login) :
    dispatch P r = Interaction.Program.ofReply (credentials P r) >>= fun body ↦
      call (.handle .login none) >>= fun _ ↦ AuthController.login P body r := by
  have hguard : AuthGuard.canActivate P .login r = return none := if_pos rfl
  have hcsrf : CsrfGuard.canActivate P .login r = .ok () := by
    rw [CsrfGuard.canActivate]
    split <;> rfl
  rw [dispatch, credentials]
  cases r.body with
  | malformed message => rfl
  | rejected message stack => rfl
  | parsed value =>
    simp only [hlogin, handle, hguard, hcsrf, handler]
    rfl

/-- What a login request does before its handler, whatever it is run against. -/
theorem interp_dispatch_login {P : Platform} {σ : Type} {h : σ → (o : Op) → σ × Except Exn o.Val}
    {s s' : σ} {r : Request} (hlogin : r.route? = some .login)
    (hhandle : h s (.handle .login none) = (s', .ok ())) :
    (dispatch P r).interp h s = match credentials P r with
      | .ok body => (AuthController.login P body r).interp h s'
      | .error e => (s, .error e) := by
  rw [dispatch_login hlogin, Interaction.Program.interp_bind, Interaction.Program.interp_ofReply]
  cases credentials P r with
  | ok body =>
    simp only [Interaction.Program.interp_bind, Interaction.Program.interp_perform, hhandle,
      Interaction.Program.interp_ofReply]
  | error e => rfl

theorem interp_serve_login {P : Platform} {σ : Type} {h : σ → (o : Op) → σ × Except Exn o.Val}
    {s : σ} {r : Request} (hlogin : r.route? = some .login) : (serve P r).interp h s =
      match (dispatch P r).interp h s with
      | (s', .ok response) => (s', .ok response)
      | (s', .error e) => (s', .ok (DomainExceptionFilter.handle e)) := by
  have hmethod : r.method = lit "POST" := List.mem_singleton.mp (Request.method_mem hlogin)
  have hoptions : r.method ≠ lit "OPTIONS" := by rw [hmethod]; decide
  have hhead : r.method ≠ lit "HEAD" := by rw [hmethod]; decide
  rw [serve, if_neg hoptions, Interaction.Program.interp_bind, Interaction.Program.interp_tryCatch]
  rcases (dispatch P r).interp h s with ⟨s', e | response⟩
  · simp only [Interaction.Program.interp_pure, if_neg hhead]
  · simp only [Interaction.Program.interp_pure, if_neg hhead]

theorem interp_limit {σ : Type} {h : σ → (o : Op) → σ × Except Exn o.Val} {s : σ} (count : ℕ) :
    (if count > MAX_ATTEMPTS then throw RateLimitService.rateLimited else pure () :
      Api Unit).interp h s =
      (s, if count ≤ MAX_ATTEMPTS then .ok () else .error RateLimitService.rateLimited) := by
  by_cases hle : count ≤ MAX_ATTEMPTS
  · rw [if_neg (by omega), if_pos hle, Interaction.Program.interp_pure]
  · rw [if_pos (by omega), if_neg hle, Interaction.Program.interp_throw]

/-- The key an attempt is counted under. -/
def attemptKey (r : Request) (body : LoginDto) : JsString :=
  RateLimitService.loginKey (AuthController.identifier r body.email)

/-- The counter of an attempt, when it has been counted. -/
def World.hits (w : World) (key : JsString) : Counter := World.incremented (w.redis key)

/-- The world when an attempt has been counted. -/
def World.counted (w : World) (key : JsString) : World :=
  w.setCounter key <| some <|
    if (w.hits key).count = 1 then { w.hits key with expireAt := some (w.clock + WINDOW_MS) }
    else w.hits key

/-- The world when an attempt has been refused. -/
def World.refused (w : World) (r : Request) : World :=
  match credentials P r with
  | .ok body => w.counted (attemptKey r body)
  | .error _ => w

/-- The credentials that are looked up: those of an attempt that is not more than the fifth of its
window. -/
def World.admits (w : World) (r : Request) : Option LoginDto :=
  match credentials P r with
  | .ok body => if (w.hits (attemptKey r body)).count ≤ MAX_ATTEMPTS then some body else none
  | .error _ => none

/-- What an attempt with a wrong password is refused with. -/
def World.refusal (w : World) (r : Request) : Exn :=
  match credentials P r with
  | .ok body =>
    if (w.hits (attemptKey r body)).count ≤ MAX_ATTEMPTS then AuthService.invalidCredentials
    else RateLimitService.rateLimited
  | .error e => e

/-- The parameters a password is hashed with. -/
def workFor (users : List User) (body : LoginDto) : Argon2Options :=
  match users.find? (·.email = body.email) with
  | some user => user.passwordHash.options
  | none => AuthService.defaultOptions

/-- None of the passwords verifies for a user with the e-mail address they are sent with. -/
def NoneVerifies (users : List User) (r : Request) : Prop :=
  ∀ body, credentials P r = .ok body → ∀ u ∈ users, u.email = body.email →
    P.verifyPassword u.passwordHash body.password ≠ .ok true

section Attempt

variable {P d} {m : Machine}

@[simp] theorem perform_incr (key : JsString) : perform P d m (.incr key) =
    (⟨m.world.setCounter key (some (m.world.hits key)), m.performed + 1, m.work⟩,
      .ok (m.world.hits key).count) := by
  simp [perform, World.exec, argon2Work, World.hits]

@[simp] theorem perform_expire (key : JsString) (seconds : ℕ) :
    perform P d m (.expire key seconds) = (⟨m.world.setCounter key
      ((m.world.redis key).bind (World.expiring m.world.clock seconds)), m.performed + 1, m.work⟩,
      .ok ()) := by
  simp [perform, World.exec, argon2Work]

@[simp] theorem perform_userFindUnique (email : JsString) :
    perform P d m (.userFindUnique email) = (⟨m.world, m.performed + 1, m.work⟩,
      .ok (m.world.users.find? (·.email = email))) := by
  simp [perform, World.exec, argon2Work]

@[simp] theorem perform_argon2Verify (hash : PasswordHash) (password : JsString) :
    perform P d m (.argon2Verify hash password) =
      (⟨m.world, m.performed + 1, m.work ++ [hash.options]⟩, P.verifyPassword hash password) := rfl

@[simp] theorem perform_argon2Hash (options : Argon2Options) (password : JsString) :
    perform P d m (.argon2Hash options password) =
      (⟨m.world, m.performed + 1, m.work ++ [options]⟩,
        P.hashPassword options (d.bytes m.performed (.argon2Hash options password)) password) := rfl

@[simp] theorem perform_handle (route : Route) (session : Option SessionContext) :
    perform P d m (.handle route session) = (⟨m.world, m.performed + 1, m.work⟩, .ok ()) := by
  simp [perform, World.exec, argon2Work]

theorem interp_limiter (identifier : JsString) : ∃ n,
    (RateLimitService.assertLoginAllowed identifier).interp (perform P d) m =
      (⟨m.world.counted (RateLimitService.loginKey identifier), n, m.work⟩,
        if (m.world.hits (RateLimitService.loginKey identifier)).count ≤ MAX_ATTEMPTS then .ok ()
        else .error RateLimitService.rateLimited) := by
  rw [RateLimitService.assertLoginAllowed]
  generalize RateLimitService.loginKey identifier = key
  rw [Interaction.Program.interp_bind, Interaction.Program.interp_perform,
    Interaction.Program.interp_ofReply, perform_incr]
  by_cases hone : (m.world.hits key).count = 1
  · refine ⟨m.performed + 2, ?_⟩
    simp only [if_pos hone, Interaction.Program.interp_bind, Interaction.Program.interp_perform,
      Interaction.Program.interp_ofReply, perform_expire, interp_limit, World.setCounter_setCounter,
      World.setCounter_self]
    rw [World.counted, if_pos hone]
    rfl
  · refine ⟨m.performed + 1, ?_⟩
    simp only [if_neg hone, interp_limit]
    rw [World.counted, if_neg hone]

/-- A password that does not verify costs one computation, with a user or without. -/
theorem interp_passwordMatches {user : Option User} {password : JsString}
    (h : ∀ u ∈ user, P.verifyPassword u.passwordHash password ≠ .ok true) : ∃ n,
    (AuthService.passwordMatches user password).interp (perform P d) m =
      (⟨m.world, n, m.work ++ [match user with
        | some user => user.passwordHash.options
        | none => AuthService.defaultOptions]⟩, .ok false) := by
  refine ⟨m.performed + 1, ?_⟩
  cases user with
  | none =>
    simp only [AuthService.passwordMatches, Interaction.Program.interp_tryCatch,
      Interaction.Program.interp_bind, Interaction.Program.interp_perform,
      Interaction.Program.interp_ofReply, perform_argon2Hash]
    cases P.hashPassword _ _ password with
    | ok hash => rfl
    | error e => rfl
  | some user =>
    simp only [AuthService.passwordMatches, Interaction.Program.interp_tryCatch,
      Interaction.Program.interp_perform, Interaction.Program.interp_ofReply, perform_argon2Verify]
    cases hverify : P.verifyPassword user.passwordHash password with
    | ok b =>
      cases b with
      | true => exact absurd hverify (h user rfl)
      | false => rfl
    | error e => rfl

theorem interp_verifyCredentials {body : LoginDto} (h : ∀ u ∈ m.world.users, u.email = body.email →
      P.verifyPassword u.passwordHash body.password ≠ .ok true) : ∃ n,
    (AuthService.verifyCredentials body.email body.password).interp (perform P d) m =
      (⟨m.world, n, m.work ++ [workFor m.world.users body]⟩,
        .error AuthService.invalidCredentials) := by
  have hwrong : ∀ u ∈ m.world.users.find? (·.email = body.email),
      P.verifyPassword u.passwordHash body.password ≠ .ok true := fun u hu ↦
    h u (List.mem_of_find?_eq_some hu) (by simpa using List.find?_some hu)
  obtain ⟨n, hn⟩ := interp_passwordMatches (P := P) (d := d)
    (m := ⟨m.world, m.performed + 1, m.work⟩) hwrong
  refine ⟨n, ?_⟩
  rw [AuthService.verifyCredentials, Interaction.Program.interp_bind,
    Interaction.Program.interp_perform, Interaction.Program.interp_ofReply, perform_userFindUnique]
  simp only [Interaction.Program.interp_bind, hn]
  rw [workFor]
  cases m.world.users.find? (·.email = body.email) with
  | none => rfl
  | some user => rfl

theorem interp_login {body : LoginDto} (r : Request)
    (h : ∀ u ∈ m.world.users, u.email = body.email →
      P.verifyPassword u.passwordHash body.password ≠ .ok true) : ∃ n,
    (AuthController.login P body r).interp (perform P d) m =
      if (m.world.hits (attemptKey r body)).count ≤ MAX_ATTEMPTS then
        (⟨m.world.counted (attemptKey r body), n, m.work ++ [workFor m.world.users body]⟩,
          .error AuthService.invalidCredentials)
      else
        (⟨m.world.counted (attemptKey r body), n, m.work⟩,
          .error RateLimitService.rateLimited) := by
  obtain ⟨n, hn⟩ : ∃ n, (RateLimitService.assertLoginAllowed
      (AuthController.identifier r body.email)).interp (perform P d) m =
        (⟨m.world.counted (attemptKey r body), n, m.work⟩,
          if (m.world.hits (attemptKey r body)).count ≤ MAX_ATTEMPTS then .ok ()
          else .error RateLimitService.rateLimited) := interp_limiter _
  rw [AuthController.login, Interaction.Program.interp_bind, hn]
  by_cases hle : (m.world.hits (attemptKey r body)).count ≤ MAX_ATTEMPTS
  · obtain ⟨n', hn'⟩ := interp_verifyCredentials (P := P) (d := d)
      (m := ⟨m.world.counted (attemptKey r body), n, m.work⟩) h
    refine ⟨n', ?_⟩
    simp only [if_pos hle, Interaction.Program.interp_bind, hn']
    rfl
  · refine ⟨n, ?_⟩
    simp only [if_neg hle]

/-- A login request passes the guards, and its credentials are passed on when they are well
formed. -/
theorem interp_dispatch {r : Request} (hlogin : r.route? = some .login) :
    (dispatch P r).interp (perform P d) m = match credentials P r with
      | .ok body => (AuthController.login P body r).interp (perform P d)
          ⟨m.world, m.performed + 1, m.work⟩
      | .error e => (m, .error e) :=
  interp_dispatch_login hlogin (perform_handle .login none)

/-- **An attempt with a wrong password.** It is counted, unless its body is wrong; what it is
refused with depends on the counter only; and when it is admitted, one Argon2 computation is
done. -/
theorem interp_attempt {r : Request} (hlogin : r.route? = some .login)
    (h : NoneVerifies P m.world.users r) : ∃ n, (serve P r).interp (perform P d) m =
      (⟨m.world.refused P r, n,
          m.work ++ ((m.world.admits P r).toList.map (workFor m.world.users))⟩,
        .ok (DomainExceptionFilter.handle (m.world.refusal P r))) := by
  cases hcredentials : credentials P r with
  | error e =>
    refine ⟨m.performed, ?_⟩
    have hdispatch : (dispatch P r).interp (perform P d) m = (m, .error e) := by
      rw [interp_dispatch hlogin, hcredentials]
    rw [interp_serve_login hlogin, hdispatch, World.refused, World.admits, World.refusal,
      hcredentials]
    simp
  | ok body =>
    obtain ⟨n, hn⟩ := interp_login (P := P) (d := d) (m := ⟨m.world, m.performed + 1, m.work⟩) r
      (h body hcredentials)
    refine ⟨n, ?_⟩
    have hdispatch : (dispatch P r).interp (perform P d) m =
        (AuthController.login P body r).interp (perform P d)
          ⟨m.world, m.performed + 1, m.work⟩ := by
      rw [interp_dispatch hlogin, hcredentials]
    rw [World.refused, World.admits, World.refusal, hcredentials]
    by_cases hle : (m.world.hits (attemptKey r body)).count ≤ MAX_ATTEMPTS
    · rw [if_pos hle] at hn
      simp only [if_pos hle]
      rw [interp_serve_login hlogin, hdispatch.trans hn]
      rfl
    · rw [if_neg hle] at hn
      simp only [if_neg hle]
      rw [interp_serve_login hlogin, hdispatch.trans hn]
      simp

end Attempt

/-! ## What a sequence of attempts leaves behind -/

/-- The credentials that are looked up in a sequence of attempts. -/
def lookedUp : List Attempt → World → List LoginDto
  | [], _ => []
  | a :: as, w =>
    ((w.tick a.wait).admits P a.request).toList ++
      lookedUp as ((w.tick a.wait).refused P a.request)

/-- The world after a sequence of refused attempts. -/
def refusedAll : List Attempt → World → World
  | [], w => w
  | a :: as, w => refusedAll as ((w.tick a.wait).refused P a.request)

/-- What a sequence of attempts is refused with. -/
def refusals : List Attempt → World → List Exn
  | [], _ => []
  | a :: as, w =>
    (w.tick a.wait).refusal P a.request :: refusals as ((w.tick a.wait).refused P a.request)

section Sequence

variable {P d}

theorem users_refused (w : World) (r : Request) : (w.refused P r).users = w.users := by
  rw [World.refused]
  split <;> rfl

/-- **The run of refused attempts.** -/
theorem answers_eq {as : List Attempt} {m : Machine}
    (h : ∀ a ∈ as, NoneVerifies P m.world.users a.request) : ∃ n, answers P d as m =
      (⟨refusedAll P as m.world, n,
          m.work ++ (lookedUp P as m.world).map (workFor m.world.users)⟩,
        (refusals P as m.world).map fun e ↦ .ok (DomainExceptionFilter.handle e)) := by
  induction as generalizing m with
  | nil => exact ⟨m.performed, by simp [answers, refusedAll, lookedUp, refusals]⟩
  | cons a as ih =>
    obtain ⟨n, hn⟩ := interp_attempt (P := P) (d := d)
      (m := ⟨m.world.tick a.wait, m.performed, m.work⟩) a.login (h a List.mem_cons_self)
    have husers : ((m.world.tick a.wait).refused P a.request).users = m.world.users :=
      users_refused _ _
    obtain ⟨n', hn'⟩ := ih (m := ⟨(m.world.tick a.wait).refused P a.request, n, m.work ++
        ((m.world.tick a.wait).admits P a.request).toList.map (workFor m.world.users)⟩)
      fun a' ha' ↦ husers.symm ▸ h a' (List.mem_cons_of_mem a ha')
    refine ⟨n', ?_⟩
    simp only [answers, hn, World.tick_users, hn', husers, refusedAll, lookedUp, refusals,
      List.map_append, List.map_cons, List.append_assoc]

/-! ### Two user tables -/

/-- The worlds have the same counters, at the same time. -/
def SameCounters (w w' : World) : Prop := w.redis = w'.redis ∧ w.clock = w'.clock

section SameCounters

variable {w w' : World} (h : SameCounters w w')
include h

theorem SameCounters.hits (key : JsString) : w.hits key = w'.hits key := by
  rw [World.hits, World.hits, h.1]

theorem SameCounters.tick (t : ℕ) : SameCounters (w.tick t) (w'.tick t) :=
  ⟨by rw [World.tick, World.tick, h.1, h.2], by rw [World.tick_clock, World.tick_clock, h.2]⟩

theorem SameCounters.admits (r : Request) : w.admits P r = w'.admits P r := by
  rw [World.admits, World.admits]
  cases credentials P r with
  | ok body => simp only [h.hits]
  | error e => rfl

theorem SameCounters.refusal (r : Request) : w.refusal P r = w'.refusal P r := by
  rw [World.refusal, World.refusal]
  cases credentials P r with
  | ok body => simp only [h.hits]
  | error e => rfl

theorem SameCounters.refused (r : Request) : SameCounters (w.refused P r) (w'.refused P r) := by
  rw [World.refused, World.refused]
  cases credentials P r with
  | ok body =>
    refine ⟨?_, h.2⟩
    simp only [World.counted, World.setCounter, h.hits, h.1, h.2]
  | error e => exact h

end SameCounters

/-- What the limiter and the answers depend on is the same with either table. -/
theorem SameCounters.sequence {w w' : World} (h : SameCounters w w') (as : List Attempt) :
    lookedUp P as w = lookedUp P as w' ∧ refusals P as w = refusals P as w' ∧
      SameCounters (refusedAll P as w) (refusedAll P as w') := by
  induction as generalizing w w' with
  | nil => exact ⟨rfl, rfl, h⟩
  | cons a as ih =>
    have htick := h.tick a.wait
    obtain ⟨hlookedUp, hrefusals, hrefused⟩ := ih (htick.refused (P := P) a.request)
    exact ⟨by rw [lookedUp, lookedUp, htick.admits, hlookedUp],
      by rw [refusals, refusals, htick.refusal, hrefusals], hrefused⟩

/-- The tables of the database. -/
def World.tables (w : World) : List User × List Session × List AuditEvent :=
  (w.users, w.sessions, w.auditEvents)

theorem tables_refusedAll {as : List Attempt} {w : World} :
    (refusedAll P as w).tables = w.tables := by
  induction as generalizing w with
  | nil => rfl
  | cons a as ih =>
    rw [refusedAll, ih, World.refused]
    split <;> rfl

/-- With seeded hashes the work tells whether there is a user. -/
theorem workFor_seeded {users : List User}
    (hseed : ∀ u ∈ users, u.passwordHash.options = ARGON2_OPTIONS) (body : LoginDto) :
    workFor users body =
      if ∃ u ∈ users, u.email = body.email then ARGON2_OPTIONS else AuthService.defaultOptions := by
  rw [workFor]
  cases hfind : users.find? (·.email = body.email) with
  | none =>
    rw [if_neg]
    rintro ⟨u, hu, hemail⟩
    simpa [hemail] using List.find?_eq_none.mp hfind u hu
  | some user =>
    have hmem := List.mem_of_find?_eq_some hfind
    rw [if_pos ⟨user, hmem, by simpa using List.find?_some hfind⟩]
    exact hseed user hmem

end Sequence

/-! ## What the client can measure -/

/-- The attempts cannot tell the machines they start on apart: they get the same answers, leave the
same counters and the tables as they are, and cause the same Argon2 computations. -/
structure Indistinguishable (P : Platform) (d d' : Draws) (as : List Attempt) (m m' : Machine) :
    Prop where
  responses : (answers P d as m).2 = (answers P d' as m').2
  counters : (answers P d as m).1.world.redis = (answers P d' as m').1.world.redis
  tables : (answers P d as m).1.world.tables = m.world.tables ∧
    (answers P d' as m').1.world.tables = m'.world.tables
  work : (answers P d as m).1.work = (answers P d' as m').1.work

/-- The world with a user table, before the attempts. -/
def startWith (w : World) (users : List User) : Machine := ⟨{ w with users := users }, 0, []⟩

/-- **What login attempts tell of a user table.** Take two tables with seeded hashes, and any
sequence of attempts none of whose passwords verifies in either. The attempts cannot tell the tables
apart if and only if every address that is looked up, in an attempt that is not more than the fifth
of its window, is in both tables or in neither. -/
theorem enumeration_iff (P : Platform) (w : World) (users users' : List User) (d d' : Draws)
    (as : List Attempt)
    (hseed : ∀ u ∈ users ++ users', u.passwordHash.options = ARGON2_OPTIONS)
    (hwrong : ∀ a ∈ as, NoneVerifies P (users ++ users') a.request) :
    Indistinguishable P d d' as (startWith w users) (startWith w users') ↔
      ∀ body ∈ lookedUp P as w,
        (∃ u ∈ users, u.email = body.email) ↔ ∃ u ∈ users', u.email = body.email := by
  obtain ⟨n, hn⟩ := answers_eq (d := d) (m := startWith w users) fun a ha body hbody u hu ↦
    hwrong a ha body hbody u (List.mem_append_left _ hu)
  obtain ⟨n', hn'⟩ := answers_eq (d := d') (m := startWith w users') fun a ha body hbody u hu ↦
    hwrong a ha body hbody u (List.mem_append_right _ hu)
  have hstart : SameCounters (startWith w users).world (startWith w users').world := ⟨rfl, rfl⟩
  have hw : SameCounters (startWith w users).world w := ⟨rfl, rfl⟩
  obtain ⟨hlookedUp, hrefusals, hcounters⟩ := hstart.sequence (P := P) as
  obtain ⟨hbase, -, -⟩ := hw.sequence (P := P) as
  have hwork : ∀ body, workFor users body = workFor users' body ↔
      ((∃ u ∈ users, u.email = body.email) ↔ ∃ u ∈ users', u.email = body.email) := by
    intro body
    rw [workFor_seeded (fun u hu ↦ hseed u (List.mem_append_left _ hu)),
      workFor_seeded (fun u hu ↦ hseed u (List.mem_append_right _ hu))]
    have hne : ARGON2_OPTIONS ≠ AuthService.defaultOptions := by decide
    split <;> split <;> simp [*, hne.symm]
  have hsame : (answers P d as (startWith w users)).1.work =
      (answers P d' as (startWith w users')).1.work ↔ ∀ body ∈ lookedUp P as w,
        workFor users body = workFor users' body := by
    rw [hn, hn', ← hlookedUp, hbase]
    exact List.map_inj_left
  constructor
  · exact fun h body hbody ↦ (hwork body).mp (hsame.mp h.work body hbody)
  · refine fun h ↦ ⟨?_, ?_, ⟨?_, ?_⟩, hsame.mpr fun body hbody ↦ (hwork body).mpr (h body hbody)⟩
    · rw [hn, hn', hrefusals]
    · rw [hn, hn']
      exact hcounters.1
    · rw [hn]
      exact tables_refusedAll
    · rw [hn']
      exact tables_refusedAll

/-! One attempt with a wrong password, against tables that have the address and one that has not. -/

/-- Randomness that is all zero. -/
def zeroDraws : Draws where
  bytes _
    | .randomBytes n => .replicate n 0
    | _ => .replicate 16 0
  length _ _ := List.length_replicate

/-- An attempt on the administrator's account. -/
def wrongAttempt : Attempt where
  wait := 0
  request := loginRequest (lit "admin@example.com") (lit "wrong")
  login := by decide

/-- Another user with the administrator's address and hash. -/
def sampleOther : User := { sampleAdmin with id := lit "usr_other", isAdmin := false }

theorem noneVerifies_wrongAttempt {users : List User}
    (h : ∀ u ∈ users, u.passwordHash = sampleAdmin.passwordHash) :
    ∀ a ∈ [wrongAttempt], NoneVerifies samplePlatform users a.request := by
  intro a ha body hbody u hu _
  obtain rfl := List.mem_singleton.mp ha
  have hcredentials : credentials samplePlatform wrongAttempt.request =
      .ok ⟨lit "admin@example.com", lit "wrong"⟩ := by rfl
  obtain rfl := Except.ok.inj (hcredentials.symm.trans hbody)
  rw [h u hu]
  have hverify : samplePlatform.verifyPassword sampleAdmin.passwordHash (lit "wrong") =
      .ok false := by rfl
  simp [hverify]

theorem enumeration_iff_wrongAttempt : Indistinguishable samplePlatform zeroDraws zeroDraws
    [wrongAttempt] (startWith sampleWorld [sampleAdmin]) (startWith sampleWorld [sampleOther]) := by
  refine (enumeration_iff samplePlatform sampleWorld [sampleAdmin] [sampleOther] zeroDraws zeroDraws
    [wrongAttempt] (by decide) (noneVerifies_wrongAttempt (by decide))).mpr fun body _ ↦ ?_
  simp [sampleOther]

/-- **The work tells whether there is a user**: an attempt on an address that exists costs less than
one on an address that does not. -/
theorem work_differs :
    (∀ u ∈ [sampleAdmin], u.passwordHash.options = ARGON2_OPTIONS) ∧
      (∀ a ∈ [wrongAttempt], NoneVerifies samplePlatform [sampleAdmin] a.request) ∧
      (answers samplePlatform zeroDraws [wrongAttempt]
        (startWith sampleWorld [sampleAdmin])).1.work = [⟨19456, 2, 1⟩] ∧
      (answers samplePlatform zeroDraws [wrongAttempt] (startWith sampleWorld [])).1.work =
        [⟨65536, 3, 4⟩] ∧
      ¬Indistinguishable samplePlatform zeroDraws zeroDraws [wrongAttempt]
        (startWith sampleWorld [sampleAdmin]) (startWith sampleWorld []) := by
  have hwork : (answers samplePlatform zeroDraws [wrongAttempt]
      (startWith sampleWorld [sampleAdmin])).1.work = [⟨19456, 2, 1⟩] := by decide +kernel
  have hwork' : (answers samplePlatform zeroDraws [wrongAttempt]
      (startWith sampleWorld [])).1.work = [⟨65536, 3, 4⟩] := by decide +kernel
  refine ⟨by decide, noneVerifies_wrongAttempt (by decide), hwork, hwork', fun h ↦ ?_⟩
  have hsame := h.work
  rw [hwork, hwork'] at hsame
  exact absurd hsame (by decide)

end NativeKiln
