import NativeKiln.Api.Enumeration

/-!
# One login request, step by step

A login is a chain of operations on Redis and the database without a transaction around them. Each
can be refused, or be carried out without the answer arriving; the database refuses rows on its own.
Here a request is run on its own under any such circumstances.

What it leaves in the tables is said once for all of them: nothing, unless the credentials are
verified (`interp_login_refused`), and otherwise what the operations up to the failure have carried
out (`interp_login_verified`). Nothing is ever taken back.
-/

namespace NativeKiln

open JsString (lit)
open Interaction.System (Fault)
open Interaction.Program (interp_bind interp_pure interp_throw interp_perform interp_ofReply
  interp_tryCatch)

/-! ## Circumstances -/

/-- What happens around one login request: the random bytes by the number of the draw, the salt, and
what goes wrong. A login performs no operation that can go wrong twice. -/
structure Circumstances where
  draws : ℕ → ℕ → Bytes
  length : ∀ j n, (draws j n).length = n
  salt : Bytes
  fault : Op → Fault Exn
  /-- Only what may be refused is refused. -/
  allowed : ∀ o, match fault o with
    | .none => True
    | .reject e | .lose e => mayReject o e

namespace Circumstances

variable (C : Circumstances) (P : Platform)

/-- The randomness an operation draws, after `j` draws. -/
def draw (j : ℕ) : Op → Bytes
  | .randomBytes n => C.draws j n
  | _ => C.salt

/-- The number of draws. -/
def drawn : Op → ℕ
  | .randomBytes _ => 1
  | _ => 0

/-- The store carries the operation out. -/
def reaches (o : Op) : Bool :=
  match C.fault o with
  | .reject _ => false
  | _ => true

/-- The store carries the operation out, and its answer arrives. -/
def returns (o : Op) : Bool :=
  match C.fault o with
  | .none => true
  | _ => false

/-- Perform an operation. -/
def perform (s : World × ℕ) (o : Op) : (World × ℕ) × Except Exn o.Val :=
  let done := (World.exec P (C.draw s.2 o) s.1 o).get <| World.exec_isSome fun n h ↦ by
    subst h
    exact C.length s.2 n
  match C.fault o with
  | .none => ((done.1, s.2 + drawn o), done.2)
  | .reject e => (s, .error e)
  | .lose e => ((done.1, s.2 + drawn o), .error e)

variable {C P} {s : World × ℕ} {o : Op} {w' : World} {r : Except Exn o.Val}

theorem reaches_of_returns (h : C.returns o) : C.reaches o := by
  rw [returns] at h
  rw [reaches]
  split at h
  · next hfault => rw [hfault]
  · simp at h

theorem returns_of_safe (h : ∀ e, mayReject o e = false) : C.returns o := by
  have hallowed := C.allowed o
  rw [returns]
  split
  · rfl
  · next hfault =>
    rcases hf : C.fault o with _ | e | e
    · exact absurd hf hfault
    · simp [hf, h e] at hallowed
    · simp [hf, h e] at hallowed

theorem perform_of_returns (hexec : World.exec P (C.draw s.2 o) s.1 o = some (w', r))
    (h : C.returns o) : C.perform P s o = ((w', s.2 + drawn o), r) := by
  rw [returns] at h
  split at h
  · next hfault => simp only [perform, hfault, hexec, Option.get_some]
  · simp at h

theorem exists_perform_error (hexec : World.exec P (C.draw s.2 o) s.1 o = some (w', r))
    (h : ¬C.returns o) :
    ∃ e, C.perform P s o = (if C.reaches o then (w', s.2 + drawn o) else s, .error e) := by
  rw [returns] at h
  rw [reaches]
  rcases hfault : C.fault o with _ | e | e
  · exact absurd (by rw [hfault]) h
  · exact ⟨e, by simp only [perform, hfault]; rfl⟩
  · exact ⟨e, by simp only [perform, hfault, hexec, Option.get_some]; rfl⟩

@[simp] theorem perform_now : C.perform P s .now = (s, .ok s.1.clock) :=
  perform_of_returns rfl (returns_of_safe fun _ ↦ rfl)

@[simp] theorem perform_randomBytes (n : ℕ) :
    C.perform P s (.randomBytes n) = ((s.1, s.2 + 1), .ok (C.draws s.2 n)) :=
  perform_of_returns (if_pos (C.length s.2 n)) (returns_of_safe fun _ ↦ rfl)

@[simp] theorem perform_handle (route : Route) (session : Option SessionContext) :
    C.perform P s (.handle route session) = (s, .ok ()) :=
  perform_of_returns rfl (returns_of_safe fun _ ↦ rfl)

theorem perform_read (hexec : World.exec P (C.draw s.2 o) s.1 o = some (s.1, r))
    (hdrawn : drawn o = 0) :
    (C.returns o ∧ C.perform P s o = (s, r)) ∨
      (¬C.returns o ∧ ∃ e, C.perform P s o = (s, .error e)) := by
  by_cases h : C.returns o
  · refine Or.inl ⟨h, ?_⟩
    rw [perform_of_returns hexec h, hdrawn, Nat.add_zero]
  · refine Or.inr ⟨h, ?_⟩
    obtain ⟨e, he⟩ := exists_perform_error hexec h
    rw [hdrawn, Nat.add_zero, ite_self] at he
    exact ⟨e, he⟩

end Circumstances

/-! ## The steps -/

/-- `lastLoginAt` of a user is set to the current time. -/
def World.touched (w : World) (id : JsString) : List User :=
  w.users.map fun u ↦ if u.id = id then { u with lastLoginAt := some w.clock } else u

/-- What a login request tells about itself. -/
def sessionMeta (r : Request) : SessionMeta :=
  { userAgent := r.userAgent.map HeaderText.text, ipAddress := some (r.ip.getD (lit "unknown")) }

/-- The response to a login that is granted. -/
def loginResponse (P : Platform) (body : LoginDto) (session : CreatedSession)
    (csrfToken : JsString) : Response where
  status := 201
  cookies := [
    { name := SESSION_COOKIE, value := session.token, httpOnly := true, secure := P.isProd
      sameSite := some (lit "lax"), path := lit "/", expires := some session.expiresAt
      maxAge := none },
    { name := CsrfGuard.CSRF_COOKIE, value := csrfToken, httpOnly := false, secure := P.isProd
      sameSite := some (lit "lax"), path := lit "/", expires := none
      maxAge := some SESSION_TTL_MS }]
  body := some (.obj [(lit "user", .obj [(lit "email", .str body.email),
    (lit "isAdmin", .bool true)]), (lit "csrfToken", .str csrfToken)])

namespace Circumstances

variable (C : Circumstances) (P : Platform) (w : World)

/-- The limiter lets an attempt pass. -/
structure Admits (key : JsString) : Prop where
  incr : C.returns (.incr key)
  expire : (w.hits key).count = 1 → C.returns (.expire key WINDOW_SECONDS)
  count : (w.hits key).count ≤ MAX_ATTEMPTS

/-- The credentials of a request are those of a user, and are found to be. -/
structure Verified (r : Request) (body : LoginDto) (u : User) : Prop where
  credentials : credentials P r = .ok body
  admits : C.Admits w (attemptKey r body)
  lookup : C.returns (.userFindUnique body.email)
  found : w.users.find? (·.email = body.email) = some u
  verify : C.returns (.argon2Verify u.passwordHash body.password)
  verifies : P.verifyPassword u.passwordHash body.password = .ok true

/-- The first write. -/
def update (u : User) : Op := .userUpdate u.id w.clock

/-- The audit event of the request. -/
def event (u : User) : AuditEvent := AuthService.loginEvent (idOf (lit "aud") (C.draws 0 22)) u.id

/-- The identifier of the audit event is new. -/
def eventFresh (u : User) : Bool := !w.auditEvents.any (·.id = (C.event u).id)

/-- The session of the request. -/
def session (r : Request) (u : User) : SessionData :=
  rowOf P u.id (sessionMeta r) (C.draws 1 32) w.clock (C.draws 2 22)

/-- The identifier and the token of the session are new. -/
def sessionFresh (r : Request) (u : User) : Bool :=
  !w.sessions.any fun s ↦ s.id = (C.session P w r u).id ∨
    s.tokenHash = (C.session P w r u).tokenHash

/-- The writes come as far as the audit event: the update returns. -/
def audits (u : User) : Bool := C.returns (update w u)

/-- The writes come as far as the counter. -/
def clears (u : User) : Bool :=
  C.audits w u && C.returns (.auditEventCreate (C.event u)) && C.eventFresh w u

/-- The writes come as far as the session. -/
def opens (r : Request) (body : LoginDto) (u : User) : Bool :=
  C.clears w u && C.returns (.del (attemptKey r body))

/-- Every write returns. -/
def grants (r : Request) (body : LoginDto) (u : User) : Bool :=
  C.opens w r body u && C.returns (.sessionCreate (C.session P w r u)) && C.sessionFresh P w r u

end Circumstances

/-! ## What the steps do -/

section Steps

variable {C : Circumstances} {P : Platform} {s : World × ℕ}

open Circumstances

theorem Circumstances.perform_redis {o : Op} {redis : JsString → Option Counter}
    {r : Except Exn o.Val} (hexec : World.exec P (C.draw s.2 o) s.1 o =
      some ({ s.1 with redis := redis }, r)) (hdrawn : drawn o = 0) :
    (C.returns o ∧ C.perform P s o = (({ s.1 with redis := redis }, s.2), r)) ∨
      (¬C.returns o ∧ ∃ redis' e,
        C.perform P s o = (({ s.1 with redis := redis' }, s.2), .error e)) := by
  by_cases h : C.returns o
  · refine Or.inl ⟨h, ?_⟩
    rw [perform_of_returns hexec h, hdrawn, Nat.add_zero]
  · obtain ⟨e, he⟩ := exists_perform_error hexec h
    rw [hdrawn, Nat.add_zero] at he
    refine Or.inr ⟨h, ?_⟩
    by_cases hreaches : C.reaches o
    · exact ⟨redis, e, by rw [he, if_pos hreaches]⟩
    · exact ⟨s.1.redis, e, by rw [he, if_neg hreaches]⟩

/-- The limiter looks at the counter of the attempt only. -/
theorem Circumstances.interp_limiter (identifier : JsString) : ∃ redis res,
    (RateLimitService.assertLoginAllowed identifier).interp (C.perform P) s =
      (({ s.1 with redis := redis }, s.2), res) ∧
        ((C.Admits s.1 (RateLimitService.loginKey identifier) ∧ res = .ok ()) ∨
          (¬C.Admits s.1 (RateLimitService.loginKey identifier) ∧ ∃ e, res = .error e)) := by
  rw [RateLimitService.assertLoginAllowed]
  generalize RateLimitService.loginKey identifier = key
  simp only [interp_bind, interp_perform, interp_ofReply]
  have hincr : World.exec P (C.draw s.2 (.incr key)) s.1 (.incr key) =
      some (s.1.setCounter key (some (s.1.hits key)), .ok (s.1.hits key).count) := rfl
  have hverdict : C.returns (.incr key) →
      ((s.1.hits key).count = 1 → C.returns (.expire key WINDOW_SECONDS)) → ∀ res : Except Exn Unit,
        res = (if (s.1.hits key).count ≤ MAX_ATTEMPTS then .ok ()
          else .error RateLimitService.rateLimited) →
          (C.Admits s.1 key ∧ res = .ok ()) ∨ (¬C.Admits s.1 key ∧ ∃ e, res = .error e) := by
    rintro hincr hexpire res rfl
    by_cases hle : (s.1.hits key).count ≤ MAX_ATTEMPTS
    · exact Or.inl ⟨⟨hincr, hexpire, hle⟩, if_pos hle⟩
    · exact Or.inr ⟨fun h ↦ hle h.count, _, if_neg hle⟩
  obtain ⟨hreturns, he⟩ | ⟨hreturns, redis, e, he⟩ := perform_redis hincr rfl
  · rw [he]
    by_cases hone : (s.1.hits key).count = 1
    · simp only [if_pos hone, interp_bind, interp_perform, interp_ofReply]
      have hexpire : World.exec P (C.draw s.2 (.expire key WINDOW_SECONDS))
          (s.1.setCounter key (some (s.1.hits key))) (.expire key WINDOW_SECONDS) = some
            ((s.1.setCounter key (some (s.1.hits key))).setCounter key _, .ok ()) := rfl
      obtain ⟨hreturns', he'⟩ | ⟨hreturns', redis, e, he'⟩ :=
        perform_redis (s := (s.1.setCounter key (some (s.1.hits key)), s.2)) hexpire rfl
      · simp only [World.setCounter] at he'
        rw [he']
        simp only [interp_limit]
        exact ⟨_, _, rfl, hverdict hreturns (fun _ ↦ hreturns') _ rfl⟩
      · simp only [World.setCounter] at he'
        rw [he']
        exact ⟨redis, .error e, rfl, Or.inr ⟨fun h ↦ hreturns' (h.expire hone), e, rfl⟩⟩
    · simp only [if_neg hone, interp_limit]
      exact ⟨_, _, rfl, hverdict hreturns (fun h ↦ absurd h hone) _ rfl⟩
  · rw [he]
    exact ⟨redis, .error e, rfl, Or.inr ⟨fun h ↦ hreturns h.incr, e, rfl⟩⟩

theorem Circumstances.interp_passwordMatches (user : Option User) (password : JsString) : ∃ b,
    (AuthService.passwordMatches user password).interp (C.perform P) s = (s, .ok b) ∧
      (b = true ↔ ∃ u, user = some u ∧ C.returns (.argon2Verify u.passwordHash password) ∧
        P.verifyPassword u.passwordHash password = .ok true) := by
  rcases user with _ | u
  · simp only [AuthService.passwordMatches, interp_tryCatch, interp_bind, interp_perform,
      interp_ofReply]
    have hexec : World.exec P (C.draw s.2 (.argon2Hash AuthService.defaultOptions password)) s.1
        (.argon2Hash AuthService.defaultOptions password) = some (s.1, _) := rfl
    refine ⟨false, ?_, by simp⟩
    obtain ⟨-, he⟩ | ⟨-, e, he⟩ := perform_read hexec rfl
    · rw [he]
      rcases P.hashPassword _ _ password with e | hash <;> rfl
    · rw [he]
      rfl
  · simp only [AuthService.passwordMatches, interp_tryCatch, interp_perform, interp_ofReply]
    have hexec : World.exec P (C.draw s.2 (.argon2Verify u.passwordHash password)) s.1
        (.argon2Verify u.passwordHash password) =
          some (s.1, P.verifyPassword u.passwordHash password) := rfl
    obtain ⟨hreturns, he⟩ | ⟨hreturns, e, he⟩ := perform_read hexec rfl
    · rw [he]
      rcases hverify : P.verifyPassword u.passwordHash password with e | b
      · exact ⟨false, rfl, by simp [hverify]⟩
      · exact ⟨b, rfl, by simp [hverify, hreturns]⟩
    · rw [he]
      exact ⟨false, rfl, by simp [hreturns]⟩

/-- A write that the store accepts returns, or ends in an error, and then it may have been carried
out all the same. -/
theorem Circumstances.perform_write {o : Op} (accepted : Bool) {w' : World} {v : o.Val} {d : Exn}
    (hexec : World.exec P (C.draw s.2 o) s.1 o =
      some (if accepted then (w', .ok v) else (s.1, .error d))) (hdrawn : drawn o = 0) :
    ((C.returns o && accepted) ∧ C.perform P s o = ((w', s.2), .ok v)) ∨
      (¬(C.returns o && accepted) ∧ ∃ e,
        C.perform P s o = ((if C.reaches o && accepted then w' else s.1, s.2), .error e)) := by
  by_cases h : C.returns o
  · by_cases haccepted : accepted
    · rw [if_pos haccepted] at hexec
      rw [perform_of_returns hexec h, hdrawn, Nat.add_zero]
      exact Or.inl ⟨by simp [h, haccepted], rfl⟩
    · rw [if_neg haccepted] at hexec
      rw [perform_of_returns hexec h, hdrawn, Nat.add_zero]
      exact Or.inr ⟨by simp [haccepted], d, by simp [haccepted]⟩
  · obtain ⟨e, he⟩ := exists_perform_error hexec h
    refine Or.inr ⟨by simp [h], e, ?_⟩
    rw [he, hdrawn, Nat.add_zero]
    rcases C.reaches o with _ | _ <;> rcases accepted with _ | _ <;> rfl

section Exec

variable {w : World} {u : User} {y : Bytes}

theorem exec_update (hu : u ∈ w.users) : World.exec P y w (.userUpdate u.id w.clock) =
    some ({ w with users := w.touched u.id }, .ok ()) := by
  have hany : w.users.any (·.id = u.id) := List.any_eq_true.mpr ⟨u, hu, decide_eq_true rfl⟩
  rw [World.exec, if_pos hany]
  rfl

theorem exec_event {data : AuditEvent} (hu : w.users.any (·.id = data.userId)) :
    World.exec P y w (.auditEventCreate data) = some (if !w.auditEvents.any (·.id = data.id) then
        ({ w with auditEvents := w.auditEvents ++ [data] }, .ok ())
      else (w, .error (World.prismaError "Unique constraint failed on the fields: (id)"))) := by
  simp only [World.exec, hu, if_true]
  generalize w.auditEvents.any (·.id = data.id) = taken
  rcases taken with _ | _ <;> rfl

theorem exec_session {data : SessionData} (hu : w.users.any (·.id = data.userId)) :
    World.exec P y w (.sessionCreate data) =
      some (if !w.sessions.any fun s ↦ s.id = data.id ∨ s.tokenHash = data.tokenHash then
        ({ w with sessions := w.sessions ++ [World.sessionRow w.clock data] }, .ok ())
      else (w, .error (World.prismaError "Unique constraint failed"))) := by
  simp only [World.exec, hu, if_true]
  generalize (w.sessions.any fun s ↦ s.id = data.id ∨ s.tokenHash = data.tokenHash) = taken
  rcases taken with _ | _ <;> rfl

theorem any_touched (id : JsString) :
    (w.touched id).any (·.id = u.id) = w.users.any (·.id = u.id) := by
  rw [World.touched, List.any_map]
  congr 1
  funext v
  by_cases h : v.id = id <;> simp [h]

end Exec

section Verify

variable {w : World} {u : User} {email password : JsString}

theorem Circumstances.interp_verify_refused (h : ∀ u, C.returns (.userFindUnique email) →
      s.1.users.find? (·.email = email) = some u →
        C.returns (.argon2Verify u.passwordHash password) →
        P.verifyPassword u.passwordHash password ≠ .ok true) :
    ∃ e, (AuthService.verifyCredentials email password).interp (C.perform P) s =
      (s, .error e) := by
  rw [AuthService.verifyCredentials]
  simp only [interp_bind, interp_perform, interp_ofReply]
  have hexec : World.exec P (C.draw s.2 (.userFindUnique email)) s.1 (.userFindUnique email) =
      some (s.1, .ok (s.1.users.find? (·.email = email))) := rfl
  obtain ⟨hreturns, he⟩ | ⟨-, e, he⟩ := perform_read hexec rfl
  · rw [he]
    obtain ⟨b, hb, hiff⟩ := interp_passwordMatches (C := C) (P := P) (s := s)
      (s.1.users.find? (·.email = email)) password
    simp only [hb]
    rcases hfind : s.1.users.find? (·.email = email) with _ | u
    · exact ⟨_, by rw [hfind]; rfl⟩
    · rcases b with _ | _
      · exact ⟨_, by rw [hfind]; rfl⟩
      · obtain ⟨u', hu', hreturns', hverify⟩ := hiff.mp rfl
        obtain rfl := Option.some_inj.mp (hfind.symm.trans hu')
        exact absurd hverify (h _ hreturns hfind hreturns')
  · rw [he]
    exact ⟨e, rfl⟩

/-- With the right credentials the user is updated and the login recorded, one after the other. -/
theorem Circumstances.interp_verify (hlookup : C.returns (.userFindUnique email))
    (hfound : w.users.find? (·.email = email) = some u)
    (hreturns : C.returns (.argon2Verify u.passwordHash password))
    (hverify : P.verifyPassword u.passwordHash password = .ok true) : ∃ w' j res,
    (AuthService.verifyCredentials email password).interp (C.perform P) (w, 0) = ((w', j), res) ∧
      w'.clock = w.clock ∧ w'.sessions = w.sessions ∧
      w'.users = (if C.reaches (update w u) then w.touched u.id else w.users) ∧
      w'.auditEvents = (if C.audits w u && C.reaches (.auditEventCreate (C.event u)) &&
        C.eventFresh w u then w.auditEvents ++ [C.event u] else w.auditEvents) ∧
      ((C.clears w u ∧ j = 1 ∧ res = .ok u.id) ∨ (¬C.clears w u ∧ ∃ e, res = .error e)) := by
  have hu : u ∈ w.users := List.mem_of_find?_eq_some hfound
  have hfind : World.exec P (C.draw 0 (.userFindUnique email)) w (.userFindUnique email) =
      some (w, .ok (some u)) := by
    rw [World.exec, hfound]
  obtain ⟨b, hb, hiff⟩ := interp_passwordMatches (C := C) (P := P) (s := (w, 0)) (some u) password
  obtain rfl := hiff.mpr ⟨u, rfl, hreturns, hverify⟩
  rw [AuthService.verifyCredentials]
  simp only [interp_bind, interp_perform, interp_ofReply,
    perform_of_returns (s := (w, 0)) hfind hlookup, drawn, hb, perform_now]
  obtain ⟨haudits, he⟩ | ⟨haudits, e, he⟩ := perform_write (o := .userUpdate u.id w.clock)
    (s := (w, 0)) (d := AuthService.invalidCredentials) true (exec_update (P := P) hu) rfl
  · rw [Bool.and_true] at haudits
    have hupdate : C.audits w u := haudits
    have hreaches : C.reaches (update w u) := reaches_of_returns haudits
    simp only [he, generateId, interp_bind, interp_perform, interp_ofReply, perform_randomBytes,
      interp_pure]
    have hany : (w.touched u.id).any (·.id = (C.event u).userId) := by
      rw [Circumstances.event, AuthService.loginEvent, any_touched]
      exact List.any_eq_true.mpr ⟨u, hu, decide_eq_true rfl⟩
    have hperform : C.perform P ({ w with users := w.touched u.id }, 0 + 1) (.auditEventCreate
        (AuthService.loginEvent (idOf (lit "aud") (C.draws 0 22)) u.id)) =
      C.perform P ({ w with users := w.touched u.id }, 1) (.auditEventCreate (C.event u)) := rfl
    obtain ⟨hevent, he'⟩ | ⟨hevent, e, he'⟩ :=
      perform_write (C := C) (o := .auditEventCreate (C.event u)) (C.eventFresh w u)
        (s := ({ w with users := w.touched u.id }, 1)) (exec_event (P := P) hany) rfl
    · have hclears : C.clears w u := by
        rw [clears, hupdate, Bool.true_and]
        exact hevent
      have hrecorded : C.audits w u && C.reaches (.auditEventCreate (C.event u)) &&
          C.eventFresh w u := by
        obtain ⟨hreturns', hfresh⟩ := Bool.and_eq_true_iff.mp hevent
        rw [hupdate, reaches_of_returns hreturns', hfresh]
        rfl
      rw [if_pos hreaches, if_pos hrecorded]
      simp only [hperform.trans he']
      exact ⟨_, 1, _, rfl, rfl, rfl, rfl, rfl, Or.inl ⟨hclears, rfl, rfl⟩⟩
    · have hclears : ¬C.clears w u := by
        rw [clears, hupdate, Bool.true_and]
        exact hevent
      rw [if_pos hreaches, hupdate, Bool.true_and]
      simp only [hperform.trans he']
      refine ⟨_, _, _, rfl, ?_, ?_, ?_, ?_, Or.inr ⟨hclears, e, rfl⟩⟩
      all_goals split <;> rfl
  · rw [Bool.and_true] at haudits
    have hupdate : ¬C.audits w u := haudits
    have hclears : ¬C.clears w u := by simp [clears, hupdate]
    simp only [he, Bool.and_true]
    refine ⟨_, _, _, rfl, ?_, ?_, ?_, ?_, Or.inr ⟨hclears, e, rfl⟩⟩
    · split <;> rfl
    · split <;> rfl
    · change (if C.reaches (update w u) then _ else _ : World).users = _
      split <;> rfl
    · simp only [hupdate, Bool.false_and, Bool.false_eq_true, if_false]
      split <;> rfl

theorem Circumstances.interp_create (w : World) (userId : JsString) (info : SessionMeta)
    (data : SessionData) (hdata : data = rowOf P userId info (C.draws 1 32) w.clock (C.draws 2 22))
    (huser : w.users.any (·.id = userId)) {fresh : Bool} (hfresh : fresh =
      !w.sessions.any fun s ↦ s.id = data.id ∨ s.tokenHash = data.tokenHash) : ∃ w' res,
    (SessionService.create P userId info).interp (C.perform P) (w, 1) = ((w', 3), res) ∧
      w' = (if C.reaches (.sessionCreate data) && fresh then
        { w with sessions := w.sessions ++ [World.sessionRow w.clock data] } else w) ∧
      (((C.returns (.sessionCreate data) && fresh) ∧
          res = .ok ⟨tokenOf (C.draws 1 32), w.clock + SESSION_TTL_MS⟩) ∨
        (¬(C.returns (.sessionCreate data) && fresh) ∧ ∃ e, res = .error e)) := by
  subst hfresh
  have huser' : w.users.any (·.id = data.userId) := by
    rw [hdata]
    exact huser
  have hperform : C.perform P (w, 1 + 1 + 1) (.sessionCreate
      { id := idOf (lit "ses") (C.draws (1 + 1) 22), userId := userId
        tokenHash := SessionService.tokenHash P (tokenOf (C.draws 1 32))
        userAgent := info.userAgent, ipAddress := info.ipAddress
        expiresAt := w.clock + SESSION_TTL_MS }) = C.perform P (w, 3) (.sessionCreate data) := by
    rw [hdata]
    rfl
  rw [SessionService.create]
  simp only [generateSecretToken, generateId, SessionService.hash, interp_bind, interp_perform,
    interp_ofReply, interp_pure, perform_randomBytes, perform_now]
  obtain ⟨hsession, he⟩ | ⟨hsession, e, he⟩ := perform_write (C := C) (o := .sessionCreate data) _
    (s := (w, 3)) (exec_session (P := P) huser') rfl
  · have hreaches := reaches_of_returns (Bool.and_eq_true_iff.mp hsession).1
    simp only [hperform.trans he]
    refine ⟨_, _, rfl, ?_, Or.inl ⟨hsession, rfl⟩⟩
    rw [if_pos]
    rw [hreaches, Bool.true_and]
    exact (Bool.and_eq_true_iff.mp hsession).2
  · simp only [hperform.trans he]
    exact ⟨_, _, rfl, rfl, Or.inr ⟨hsession, e, rfl⟩⟩

/-- Once the counter is cleared, the row of the session is all that `create` leaves behind, and the
login is granted when it is accepted. -/
theorem Circumstances.interp_create_of_opens {r : Request} {body : LoginDto}
    (hopens : C.opens w r body u = true) (w' : World) (hclock : w'.clock = w.clock)
    (hsessions : w'.sessions = w.sessions) (huser : w'.users.any (·.id = u.id)) : ∃ w'' res,
    (SessionService.create P u.id (sessionMeta r)).interp (C.perform P) (w', 1) = ((w'', 3), res) ∧
      w''.users = w'.users ∧ w''.auditEvents = w'.auditEvents ∧
      w''.sessions = (if C.opens w r body u && C.reaches (.sessionCreate (C.session P w r u)) &&
        C.sessionFresh P w r u then
          w.sessions ++ [World.sessionRow w.clock (C.session P w r u)] else w.sessions) ∧
      ((C.grants P w r body u ∧ res = .ok ⟨tokenOf (C.draws 1 32), w.clock + SESSION_TTL_MS⟩) ∨
        (¬C.grants P w r body u ∧ ∃ e, res = .error e)) := by
  have hdata : C.session P w r u = rowOf P u.id (sessionMeta r) (C.draws 1 32) w'.clock
      (C.draws 2 22) := by
    rw [hclock]
    rfl
  have hfresh : C.sessionFresh P w r u = !w'.sessions.any fun s ↦
      s.id = (C.session P w r u).id ∨ s.tokenHash = (C.session P w r u).tokenHash := by
    rw [hsessions]
    rfl
  have hgrants : C.grants P w r body u = (C.returns (.sessionCreate (C.session P w r u)) &&
      C.sessionFresh P w r u) := by
    rw [grants, hopens, Bool.true_and]
  obtain ⟨w'', res, hcreate, rfl, hres⟩ := interp_create (C := C) w' u.id (sessionMeta r)
    (C.session P w r u) hdata huser hfresh
  refine ⟨_, res, hcreate, ?_, ?_, ?_, ?_⟩
  · split <;> rfl
  · split <;> rfl
  · rw [hopens, Bool.true_and, hclock]
    split
    · exact congrArg (· ++ _) hsessions
    · exact hsessions
  · rwa [hgrants, ← hclock]

theorem Circumstances.any_id_of_update (hu : u ∈ w.users) {w' : World}
    (husers : w'.users = if C.reaches (update w u) then w.touched u.id else w.users) :
    w'.users.any (·.id = u.id) := by
  have hany : w.users.any (·.id = u.id) := List.any_eq_true.mpr ⟨u, hu, decide_eq_true rfl⟩
  rw [husers]
  split
  · rwa [any_touched]
  · exact hany

end Verify

/-! ## The request -/

section Request

variable {w : World} {r : Request} {body : LoginDto} {u : User}

theorem Circumstances.interp_login_refused (hcredentials : credentials P r = .ok body)
    (h : ∀ u, ¬C.Verified P w r body u) : ∃ redis e,
    (AuthController.login P body r).interp (C.perform P) (w, 0) =
      (({ w with redis := redis }, 0), .error e) := by
  obtain ⟨redis, res, hlimiter, ⟨hadmits, rfl⟩ | ⟨-, e, rfl⟩⟩ :=
    interp_limiter (C := C) (P := P) (s := (w, 0)) (AuthController.identifier r body.email)
  · have hverify : ∀ v, C.returns (.userFindUnique body.email) →
        w.users.find? (·.email = body.email) = some v →
          C.returns (.argon2Verify v.passwordHash body.password) →
            P.verifyPassword v.passwordHash body.password ≠ .ok true := by
      intro v hlookup hfound hreturns hverifies
      exact h v ⟨hcredentials, hadmits, hlookup, hfound, hreturns, hverifies⟩
    obtain ⟨e, he⟩ := interp_verify_refused (s := ({ w with redis := redis }, 0)) hverify
    rw [AuthController.login]
    simp only [interp_bind, hlimiter, he]
    exact ⟨redis, e, rfl⟩
  · rw [AuthController.login]
    simp only [interp_bind, hlimiter]
    exact ⟨redis, e, rfl⟩

/-- What a login has written when it ends, once the credentials are verified. -/
theorem Circumstances.interp_login_verified (h : C.Verified P w r body u) : ∃ w' j res,
    (AuthController.login P body r).interp (C.perform P) (w, 0) = ((w', j), res) ∧
      w'.users = (if C.reaches (update w u) then w.touched u.id else w.users) ∧
      w'.auditEvents = (if C.audits w u && C.reaches (.auditEventCreate (C.event u)) &&
        C.eventFresh w u then w.auditEvents ++ [C.event u] else w.auditEvents) ∧
      w'.sessions = (if C.opens w r body u && C.reaches (.sessionCreate (C.session P w r u)) &&
        C.sessionFresh P w r u then
          w.sessions ++ [World.sessionRow w.clock (C.session P w r u)] else w.sessions) ∧
      ((C.grants P w r body u ∧ res = .ok (loginResponse P body
          ⟨tokenOf (C.draws 1 32), w.clock + SESSION_TTL_MS⟩ (tokenOf (C.draws 3 24)))) ∨
        (¬C.grants P w r body u ∧ ∃ e, res = .error e)) := by
  obtain ⟨redis, res, hlimiter, ⟨-, rfl⟩ | ⟨hadmits, -⟩⟩ :=
    interp_limiter (C := C) (P := P) (s := (w, 0)) (AuthController.identifier r body.email)
  swap
  · exact absurd h.admits hadmits
  obtain ⟨w', j, res, hverify, hclock, hsessions, husers, hevents, hres⟩ :=
    interp_verify (C := C) (P := P) (w := { w with redis := redis }) h.lookup h.found h.verify
      h.verifies
  rw [AuthController.login]
  simp only [interp_bind, hlimiter, hverify]
  obtain ⟨hclears, rfl, rfl⟩ | ⟨hclears, e, rfl⟩ := hres
  · have hdel : World.exec P (C.draw 1 (.del (attemptKey r body))) w' (.del (attemptKey r body)) =
        some (w'.setCounter (attemptKey r body) none, .ok ()) := rfl
    have hclears : C.clears w u := hclears
    have hclear : RateLimitService.clear (AuthController.identifier r body.email) =
        call (.del (attemptKey r body)) := rfl
    simp only [hclear, interp_perform, interp_ofReply]
    obtain ⟨hreturns, he⟩ | ⟨hreturns, redis', e, he⟩ := perform_redis (s := (w', 1)) hdel rfl
    · have hopens : C.opens w r body u = true := by
        rw [opens, hclears, hreturns]
        rfl
      obtain ⟨w'', res, hcreate, husers', hevents', hsessions', hres⟩ :=
        interp_create_of_opens (P := P) hopens
          { w' with redis := Function.update w'.redis (attemptKey r body) none } hclock hsessions
          (any_id_of_update (List.mem_of_find?_eq_some h.found) husers)
      simp only [he]
      rw [sessionMeta] at hcreate
      simp only [hcreate]
      obtain ⟨hall, rfl⟩ | ⟨hall, e, rfl⟩ := hres
      · simp only [generateSecretToken, interp_bind, interp_perform, interp_ofReply,
          perform_randomBytes, interp_pure]
        exact ⟨w'', 4, _, rfl, husers'.trans husers, hevents'.trans hevents, hsessions',
          Or.inl ⟨hall, rfl⟩⟩
      · exact ⟨w'', 3, .error e, rfl, husers'.trans husers, hevents'.trans hevents, hsessions',
          Or.inr ⟨hall, e, rfl⟩⟩
    · have hopens : C.opens w r body u = false := by
        rw [opens, Bool.eq_false_iff.mpr hreturns, Bool.and_false]
      simp only [he]
      refine ⟨_, 1, .error e, rfl, husers, hevents, ?_, Or.inr ⟨?_, e, rfl⟩⟩
      · rw [hopens, hsessions]
        rfl
      · rw [grants, hopens]
        simp
  · have hopens : C.opens w r body u = false := by
      have hclears : C.clears w u = false := Bool.eq_false_iff.mpr hclears
      rw [opens, hclears, Bool.false_and]
    refine ⟨w', j, .error e, rfl, husers, hevents, ?_, Or.inr ⟨?_, e, rfl⟩⟩
    · rw [hopens, hsessions]
      rfl
    · rw [grants, hopens]
      simp

theorem Circumstances.interp_dispatch (hlogin : r.route? = some .login) :
    (dispatch P r).interp (C.perform P) s = match credentials P r with
      | .ok body => (AuthController.login P body r).interp (C.perform P) s
      | .error e => (s, .error e) :=
  interp_dispatch_login hlogin (perform_handle .login none)

/-- **What a failed login leaves behind.** Nothing, unless the credentials are verified. If they
are, whatever has been carried out stays: the user is updated, the event is recorded once the update
has returned, and the row of the session is there if it has been put in and its answer was lost. -/
theorem failed_login (P : Platform) (C : Circumstances) (w w' : World) (r : Request) (j : ℕ)
    (e : Exn) (hlogin : r.route? = some .login)
    (herror : (dispatch P r).interp (C.perform P) (w, 0) = ((w', j), .error e)) :
    ((∀ body u, ¬C.Verified P w r body u) → w'.tables = w.tables) ∧
      ∀ body u, C.Verified P w r body u →
        w'.users = (if C.reaches (update w u) then w.touched u.id else w.users) ∧
        w'.auditEvents = (if C.audits w u && C.reaches (.auditEventCreate (C.event u)) &&
          C.eventFresh w u then w.auditEvents ++ [C.event u] else w.auditEvents) ∧
        w'.sessions = (if C.opens w r body u && C.reaches (.sessionCreate (C.session P w r u)) &&
          C.sessionFresh P w r u then
            w.sessions ++ [World.sessionRow w.clock (C.session P w r u)] else w.sessions) := by
  rw [Circumstances.interp_dispatch hlogin] at herror
  refine ⟨fun h ↦ ?_, fun body u hverified ↦ ?_⟩
  · rcases hcredentials : credentials P r with e | body
    · rw [hcredentials] at herror
      obtain ⟨rfl, -⟩ := Prod.mk.inj (Prod.mk.inj herror).1
      rfl
    · rw [hcredentials] at herror
      obtain ⟨redis, e', he⟩ := interp_login_refused hcredentials (h body)
      obtain ⟨rfl, -⟩ := Prod.mk.inj (Prod.mk.inj (he.symm.trans herror)).1
      rfl
  · rw [hverified.credentials] at herror
    obtain ⟨w'', j', res, hrun, husers, hevents, hsessions, -⟩ :=
      interp_login_verified hverified
    obtain ⟨rfl, -⟩ := Prod.mk.inj (Prod.mk.inj (hrun.symm.trans herror)).1
    exact ⟨husers, hevents, hsessions⟩

end Request

end Steps

/-! A login with the right password, when the audit table does not take the event. -/

/-- Circumstances in which nothing fails. -/
def calm : Circumstances where
  draws j n := zeroDraws.bytes j (.randomBytes n)
  length := zeroDraws.length
  salt := .replicate 16 0
  fault _ := .none
  allowed _ := trivial

/-- The audit insert is refused, everything else is answered. -/
def auditRefused : Circumstances where
  draws := calm.draws
  length := calm.length
  salt := calm.salt
  fault
    | .auditEventCreate _ => .reject (World.prismaError "Connection refused")
    | _ => .none
  allowed o := by cases o <;> trivial

/-- The administrator logs in. -/
def rightRequest : Request := loginRequest (lit "admin@example.com") (lit "correct horse")

/-- What becomes of it. -/
def refusedLogin : (World × ℕ) × Except Exn Response :=
  (dispatch samplePlatform rightRequest).interp (auditRefused.perform samplePlatform)
    (sampleWorld, 0)

theorem refusedLogin_eq : refusedLogin =
    (refusedLogin.1, .error (World.prismaError "Connection refused")) := rfl

theorem failed_login_example :
    refusedLogin.1.1.users = [{ sampleAdmin with lastLoginAt := some 0 }] := by
  have hverified : auditRefused.Verified samplePlatform sampleWorld rightRequest
      ⟨lit "admin@example.com", lit "correct horse"⟩ sampleAdmin :=
    ⟨rfl, ⟨rfl, fun _ ↦ rfl, by decide⟩, rfl, rfl, rfl, rfl⟩
  exact ((failed_login samplePlatform auditRefused sampleWorld refusedLogin.1.1 rightRequest
    refusedLogin.1.2 _ (by decide) refusedLogin_eq).2 _ _ hverified).1

/-- **A failed login leaves a trace**: the user has logged in according to the table, and the
request is answered with an error. -/
theorem failed_login_leaves_trace :
    refusedLogin.2.toOption.isNone ∧
      sampleWorld.users.map (·.lastLoginAt) = [none] ∧
      refusedLogin.1.1.users.map (·.lastLoginAt) = [some 0] ∧
      ¬∀ (P : Platform) (C : Circumstances) (w w' : World) (r : Request) (j : ℕ) (e : Exn),
        r.route? = some .login →
          (dispatch P r).interp (C.perform P) (w, 0) = ((w', j), .error e) →
            w'.tables = w.tables := by
  have hafter : refusedLogin.1.1.users.map (·.lastLoginAt) = [some 0] := by decide +kernel
  refine ⟨rfl, rfl, hafter, fun h ↦ ?_⟩
  have htables := h samplePlatform auditRefused sampleWorld refusedLogin.1.1 rightRequest
    refusedLogin.1.2 _ (by decide) refusedLogin_eq
  have husers : refusedLogin.1.1.users = sampleWorld.users := congrArg Prod.fst htables
  rw [husers] at hafter
  exact absurd hafter (by decide)

end NativeKiln
