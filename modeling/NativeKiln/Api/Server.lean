import NativeKiln.Api.Http
import NativeKiln.Api.Session
import NativeKiln.Credentials.Cipher

/-!
# The API

`serve` is what the application does with a request: the two guards in the order they are registered
in, the validation pipe, the handler of the route, and the exception filter around all of it
(`auth.guard.ts`, `csrf.guard.ts`, `auth.controller.ts`, `auth.service.ts`, `health.controller.ts`).

The parts of a request are gone through once, for every property that composition keeps
(`composed_login` and the like); the modules that follow instantiate this.
-/

namespace NativeKiln

open JsString (lit)
open Interaction.Program (ofReply Asks Composable asks_pure asks_call asks_composable)

/-! ## Guards -/

/-- The `session` a request presents, if it is not falsy. -/
def Request.sessionToken (r : Request) : Option Json := (r.cookie SESSION_COOKIE).filter Json.truthy

namespace AuthGuard

def authenticationRequired : Exn :=
  .domain ⟨.UNAUTHORIZED, lit "Authentication required.", none⟩

def sessionInvalid : Exn := .domain ⟨.UNAUTHORIZED, lit "Session expired or invalid.", none⟩

/-- The guard; its value is what `req.session` is set to. -/
def canActivate (P : Platform) (route : Route) (r : Request) : Api (Option SessionContext) := do
  if route.isPublic then
    return none
  else
    match r.sessionToken with
    | none => throw authenticationRequired
    | some token =>
      let session ← SessionService.validate P token
      match session with
      | none => throw sessionInvalid
      | some session => return some session

end AuthGuard

/-- `Buffer.from(value, 'utf8')`. -/
def Platform.buffer (P : Platform) : Json → Except Exn Bytes
  | .str s => .ok s.utf8
  | value =>
    match P.bufferFrom value with
    | some bytes => .ok bytes
    | none => .error (.error (lit "The first argument must be of type string or an instance of " ++
        lit "Buffer, ArrayBuffer, or Array or an Array-like Object.") [])

namespace CsrfGuard

def CSRF_COOKIE : JsString := lit "kiln_csrf"

def SAFE_METHODS : List JsString := [lit "GET", lit "HEAD", lit "OPTIONS"]

def invalidToken : Exn := .domain ⟨.FORBIDDEN, lit "Invalid or missing CSRF token.", none⟩

/-- The first value of the `x-csrf-token` header. -/
def headerValue (r : Request) : Option JsString :=
  match r.csrfHeader with
  | none => none
  | some (.one value) => some value.text
  | some (.many values) => (values.map HeaderText.text).head?

/-- `safeEquals(cookie, headerValue)`. -/
def tokensEqual (P : Platform) (cookie : Json) (header : JsString) : Except Exn Bool :=
  match P.buffer cookie with
  | .ok bufA => safeEqualsBuffers bufA header.utf8
  | .error e => .error e

/-- What the guard asks of a request that may change something. -/
def check (P : Platform) (r : Request) : Except Exn Unit :=
  match (r.cookie CSRF_COOKIE).filter Json.truthy, (headerValue r).filter (· ≠ []) with
  | some cookie, some header =>
    match tokensEqual P cookie header with
    | .ok true => .ok ()
    | .ok false => .error invalidToken
    | .error e => .error e
  | _, _ => .error invalidToken

def canActivate (P : Platform) (route : Route) (r : Request) : Except Exn Unit :=
  if r.method ∈ SAFE_METHODS then .ok ()
  else if route.isPublic then .ok ()
  else check P r

end CsrfGuard

/-! ## Handlers -/

namespace AuthService

/-- The options `argon2.hash` uses when it is given none. -/
def defaultOptions : Argon2Options := ⟨65536, 3, 4⟩

def invalidCredentials : Exn := .domain ⟨.UNAUTHORIZED, lit "Invalid email or password.", none⟩

/-- The audit event of a login. -/
def loginEvent (id userId : JsString) : AuditEvent where
  id := id
  userId := userId
  action := lit "auth.login"
  targetType := lit "user"
  targetId := userId

/-- The password of a user is verified; without a user, some other work is done. -/
def passwordMatches (user : Option User) (password : JsString) : Api Bool :=
  tryCatch
    (match user with
      | some user => call (.argon2Verify user.passwordHash password)
      | none => do
        let _ ← call (.argon2Hash defaultOptions password)
        return false)
    fun _ ↦ return false

/-- The id of the user whose credentials they are. -/
def verifyCredentials (email password : JsString) : Api JsString := do
  let user ← call (.userFindUnique email)
  let ok ← passwordMatches user password
  match user, ok with
  | some user, true =>
    call (.userUpdate user.id (← call .now))
    call (.auditEventCreate (loginEvent (← generateId (lit "aud") 22) user.id))
    return user.id
  | _, _ => throw invalidCredentials

end AuthService

namespace AuthController

/-- What an attempt is counted under. -/
def identifier (r : Request) (email : JsString) : JsString :=
  r.ip.getD (lit "unknown") ++ lit ":" ++ email

def login (P : Platform) (body : LoginDto) (r : Request) : Api Response := do
  RateLimitService.assertLoginAllowed (identifier r body.email)
  let userId ← AuthService.verifyCredentials body.email body.password
  RateLimitService.clear (identifier r body.email)
  let session ← SessionService.create P userId
    { userAgent := r.userAgent.map HeaderText.text, ipAddress := some (r.ip.getD (lit "unknown")) }
  let csrfToken ← generateSecretToken 24
  return {
    status := 201
    cookies := [
      { name := SESSION_COOKIE, value := session.token, httpOnly := true, secure := P.isProd
        sameSite := some (lit "lax"), path := lit "/", expires := some session.expiresAt
        maxAge := none },
      { name := CsrfGuard.CSRF_COOKIE, value := csrfToken, httpOnly := false, secure := P.isProd
        sameSite := some (lit "lax"), path := lit "/", expires := none
        maxAge := some SESSION_TTL_MS }]
    body := some (.obj [(lit "user", .obj [(lit "email", .str body.email),
      (lit "isAdmin", .bool true)]), (lit "csrfToken", .str csrfToken)]) }

def logout (P : Platform) (r : Request) : Api Response := do
  match r.sessionToken with
  | some token => SessionService.revoke P token
  | none => pure ()
  return {
    status := 201
    cookies := [clearCookie SESSION_COOKIE, clearCookie CsrfGuard.CSRF_COOKIE]
    body := some (.obj [(lit "ok", .bool true)]) }

def me (session : Option SessionContext) : Api Response :=
  match session with
  | some session =>
    return .json 200
      (.obj [(lit "email", .str session.email), (lit "isAdmin", .bool session.isAdmin)])
  | none => throw (.error (lit "Cannot read properties of undefined") [])

end AuthController

namespace HealthController

inductive ComponentStatus
  | up
  | down (error : JsString)
  deriving DecidableEq

def ComponentStatus.json : ComponentStatus → Json
  | up => .obj [(lit "status", .str (lit "up"))]
  | down error => .obj [(lit "status", .str (lit "down")), (lit "error", .str error)]

def check {α : Type} (fn : Api α) : Api ComponentStatus :=
  tryCatch (do
    let _ ← fn
    return .up) fun err ↦ return .down (err.message?.getD (lit "unknown"))

def liveness : Response := .json 200 (.obj [(lit "status", .str (lit "ok"))])

/-- The answer of `readiness`. -/
def report (database redis storage : ComponentStatus) : Response :=
  let allUp := [database, redis, storage].all (· = .up)
  .json 200 (.obj [(lit "status", .str (if allUp then lit "ok" else lit "degraded")),
    (lit "components", .obj [(lit "database", database.json), (lit "redis", redis.json),
      (lit "storage", storage.json)])])

/-- The three probes are started together and waited for together; none of them throws or changes
anything, so that their order does not matter. -/
def readiness : Api Response := do
  let database ← check (call .queryRaw)
  let redis ← check (call .ping)
  let storage ← check (call .listObjects)
  return report database redis storage

end HealthController

/-! ## What the parts of a request are composed of -/

/-- The operations of the session guard, but for the refresh. -/
def ValidateOp : Op → Prop
  | .sessionFindUnique _ | .now | .sessionDelete _ => True
  | _ => False

/-- The operation is a refresh. -/
def Refresh : Op → Prop
  | .sessionUpdate _ _ => True
  | _ => False

/-- The operations of a check of credentials, but for the lookup of the user. -/
def VerifyOp : Op → Prop
  | .argon2Verify _ _ | .argon2Hash _ _ | .now | .userUpdate _ _ | .randomBytes _
  | .auditEventCreate _ => True
  | _ => False

/-- The operations that create a session. -/
def CreateOp : Op → Prop
  | .randomBytes _ | .now | .sessionCreate _ => True
  | _ => False

section Composed

variable {P : Platform} {N M : Op → Prop} {Q : {α : Type} → Api α → Prop}

theorem composed_hash (hQ : Composable N M Q) (token : Json) : Q (SessionService.hash P token) := by
  cases token with
  | str s => exact hQ.pure _
  | _ => exact hQ.throw _

theorem composed_validate (hQ : Composable N M Q) (hN : ∀ o, ValidateOp o → N o)
    (hM : ∀ o, Refresh o → M o) (token : Json) : Q (SessionService.validate P token) := by
  refine hQ.bind (composed_hash hQ token) fun hash ↦
    hQ.bind (hQ.call (hN _ trivial)) fun found ↦ ?_
  rcases found with _ | ⟨session, user⟩
  · exact hQ.pure _
  · refine hQ.bind (hQ.call (hN _ trivial)) fun n ↦ ?_
    split
    · exact hQ.bind (hQ.recover (hQ.call (hN _ trivial)) (hQ.pure _)) fun _ ↦ hQ.pure _
    · exact hQ.bind (hQ.call (hN _ trivial)) fun n' ↦
        hQ.bind (hQ.spawn (hM _ trivial)) fun _ ↦ hQ.pure _

theorem composed_authGuard (hQ : Composable N M Q) (hN : ∀ o, ValidateOp o → N o)
    (hM : ∀ o, Refresh o → M o) (route : Route) (r : Request) :
    Q (AuthGuard.canActivate P route r) := by
  rw [AuthGuard.canActivate]
  split
  · exact hQ.pure _
  · split
    · exact hQ.throw _
    · refine hQ.bind (composed_validate hQ hN hM _) fun session ↦ ?_
      cases session with
      | none => exact hQ.throw _
      | some session => exact hQ.pure _

theorem composed_token (hQ : Composable N M Q) {n : ℕ} (hN : N (.randomBytes n)) :
    Q (generateSecretToken n) := hQ.bind (hQ.call hN) fun _ ↦ hQ.pure _

theorem composed_id (hQ : Composable N M Q) (idPrefix : JsString) {n : ℕ}
    (hN : N (.randomBytes n)) : Q (generateId idPrefix n) :=
  hQ.bind (hQ.call hN) fun _ ↦ hQ.pure _

theorem composed_limiter (hQ : Composable N M Q) {identifier : JsString}
    (hincr : N (.incr (RateLimitService.loginKey identifier)))
    (hexpire : N (.expire (RateLimitService.loginKey identifier) WINDOW_SECONDS)) :
    Q (RateLimitService.assertLoginAllowed identifier) := by
  refine hQ.bind (hQ.call hincr) fun count ↦ ?_
  split
  · split
    · exact hQ.bind (hQ.call hexpire) fun _ ↦ hQ.throw _
    · exact hQ.throw _
  · split
    · exact hQ.bind (hQ.call hexpire) fun _ ↦ hQ.pure _
    · exact hQ.pure _

theorem composed_passwordMatches (hQ : Composable N M Q) (hN : ∀ o, VerifyOp o → N o)
    (user : Option User) (password : JsString) :
    Q (AuthService.passwordMatches user password) := by
  refine hQ.recover ?_ (hQ.pure _)
  cases user with
  | none => exact hQ.bind (hQ.call (hN _ trivial)) fun _ ↦ hQ.pure _
  | some user => exact hQ.call (hN _ trivial)

theorem composed_verifyCredentials (hQ : Composable N M Q) (hN : ∀ o, VerifyOp o → N o)
    {email : JsString} (hfind : N (.userFindUnique email)) (password : JsString) :
    Q (AuthService.verifyCredentials email password) := by
  refine hQ.bind (hQ.call hfind) fun user ↦
    hQ.bind (composed_passwordMatches hQ hN user password) fun ok ↦ ?_
  split
  · exact hQ.bind (hQ.call (hN _ trivial)) fun n ↦ hQ.bind (hQ.call (hN _ trivial)) fun _ ↦
      hQ.bind (composed_id hQ _ (hN _ trivial)) fun id ↦
        hQ.bind (hQ.call (hN _ trivial)) fun _ ↦ hQ.pure _
  · exact hQ.throw _

theorem composed_create (hQ : Composable N M Q) (hN : ∀ o, CreateOp o → N o) (userId : JsString)
    (info : SessionMeta) : Q (SessionService.create P userId info) :=
  hQ.bind (composed_token hQ (hN _ trivial)) fun _ ↦ hQ.bind (hQ.call (hN _ trivial)) fun _ ↦
    hQ.bind (composed_id hQ _ (hN _ trivial)) fun _ ↦ hQ.bind (composed_hash hQ _) fun _ ↦
      hQ.bind (hQ.call (hN _ trivial)) fun _ ↦ hQ.pure _

theorem composed_login (hQ : Composable N M Q) (hN : ∀ o, CreateOp o → N o) {body : LoginDto}
    {r : Request}
    (hlimiter : Q (RateLimitService.assertLoginAllowed (AuthController.identifier r body.email)))
    (hverify : Q (AuthService.verifyCredentials body.email body.password))
    (hclear : Q (RateLimitService.clear (AuthController.identifier r body.email))) :
    Q (AuthController.login P body r) :=
  hQ.bind hlimiter fun _ ↦ hQ.bind hverify fun _ ↦ hQ.bind hclear fun _ ↦
    hQ.bind (composed_create hQ hN _ _) fun _ ↦
      hQ.bind (composed_token hQ (hN _ trivial)) fun _ ↦ hQ.pure _

theorem composed_logout (hQ : Composable N M Q) (hN : ∀ hash, N (.sessionDeleteMany hash))
    (r : Request) : Q (AuthController.logout P r) := by
  have hrevoke : ∀ token, Q (SessionService.revoke P token) := fun token ↦
    hQ.bind (composed_hash hQ token) fun hash ↦
      hQ.recover (hQ.bind (hQ.call (hN _)) fun _ ↦ hQ.pure _) (hQ.pure _)
  rw [AuthController.logout]
  split
  · exact hQ.bind (hrevoke _) fun _ ↦ hQ.pure _
  · exact hQ.bind (hQ.pure _) fun _ ↦ hQ.pure _

theorem composed_me (hQ : Composable N M Q) (session : Option SessionContext) :
    Q (AuthController.me session) := by
  cases session with
  | none => exact hQ.throw _
  | some session => exact hQ.pure _

end Composed

/-! ### What they ask for -/

/-- The operations that no invariant of the following modules is about: neither the counting of
attempts, nor the start of a handler, nor the creation and revocation of sessions. -/
def Ordinary : Op → Prop
  | .incr _ | .expire _ _ | .handle _ _ | .sessionCreate _ | .sessionDeleteMany _ => False
  | _ => True

section Ordinary

variable {P : Platform}

theorem ordinary_authGuard (route : Route) (r : Request) :
    Asks Ordinary Refresh (AuthGuard.canActivate P route r) := by
  refine composed_authGuard asks_composable (fun o ho ↦ ?_) (fun _ h ↦ h) route r
  cases o with
  | sessionFindUnique _ | now | sessionDelete _ => trivial
  | _ => exact ho.elim

theorem ordinary_token (n : ℕ) : Asks Ordinary Refresh (generateSecretToken n) :=
  composed_token asks_composable trivial

theorem ordinary_verifyCredentials (email password : JsString) :
    Asks Ordinary Refresh (AuthService.verifyCredentials email password) := by
  refine composed_verifyCredentials asks_composable (fun o ho ↦ ?_) trivial password
  cases o with
  | incr _ | expire _ _ | handle _ _ | sessionCreate _ | sessionDeleteMany _ => exact ho.elim
  | _ => trivial

theorem ordinary_check {α : Type} {fn : Api α} (h : Asks Ordinary Refresh fn) :
    Asks Ordinary Refresh (HealthController.check fn) :=
  (h.bind fun _ ↦ asks_pure).tryCatch fun _ ↦ asks_pure

theorem ordinary_readiness : Asks Ordinary Refresh HealthController.readiness :=
  (ordinary_check (asks_call (show Ordinary .queryRaw from trivial))).bind fun _ ↦
    (ordinary_check (asks_call (show Ordinary .ping from trivial))).bind fun _ ↦
      (ordinary_check (asks_call (show Ordinary .listObjects from trivial))).bind fun _ ↦ asks_pure

end Ordinary

/-! ## The application -/

/-- The pipe and the handler of a route. -/
def handler (P : Platform) (route : Route) (value : Option Json) (r : Request)
    (session : Option SessionContext) : Api Response :=
  match route with
  | .login => do
    let body ← ofReply (transformLogin P value)
    call (.handle .login session)
    AuthController.login P body r
  | .logout => do
    call (.handle .logout session)
    AuthController.logout P r
  | .me => do
    call (.handle .me session)
    AuthController.me session
  | .liveness => do
    call (.handle .liveness session)
    return HealthController.liveness
  | .readiness => do
    call (.handle .readiness session)
    HealthController.readiness

/-- The guards, and what is behind them. -/
def handle (P : Platform) (route : Route) (value : Option Json) (r : Request) : Api Response := do
  let session ← AuthGuard.canActivate P route r
  ofReply (CsrfGuard.canActivate P route r)
  handler P route value r session

/-- The middleware and the router. Of the errors of the body parser, the framework turns a
`SyntaxError` into an exception of its own. -/
def dispatch (P : Platform) (r : Request) : Api Response :=
  match r.body with
  | .malformed message => throw (badRequest message)
  | .rejected message stack => throw (.error message stack)
  | .parsed value =>
    match r.route? with
    | none => throw (notFound r)
    | some route => handle P route value r

/-- The answer to a request. `OPTIONS` is answered before anything else is looked at, and the answer
to `HEAD` has no body. -/
def serve (P : Platform) (r : Request) : Api Response :=
  if r.method = lit "OPTIONS" then return ⟨204, [], none⟩
  else do
    let response ← tryCatch (dispatch P r) fun e ↦ return DomainExceptionFilter.handle e
    return if r.method = lit "HEAD" then { response with body := none } else response

section Serve

variable {P : Platform} {r : Request} {G D : List Answered → Op → Prop}
  {Q : List Answered → Except Exn Response → Prop} {past : List Answered}

/-- **The rule of the router.** What it does not refuse it hands to the route. -/
theorem dispatch_obeys (hrefused : ∀ e, Q past (.error e))
    (hhandle : ∀ route value, r.route? = some route → r.body = .parsed value →
      (handle P route value r).Obeys G D Q past) : (dispatch P r).Obeys G D Q past := by
  rw [dispatch]
  split
  · exact hrefused _
  · exact hrefused _
  · next value hbody =>
    split
    · exact hrefused _
    · next route hroute => exact hhandle route value hroute hbody

/-- **The rule of the filter.** What is promised of every answer has to hold of those that the
filter makes of exceptions, and of answers without their body. -/
theorem serve_obeys_of_dispatch (hdispatch : (dispatch P r).Obeys G D Q past)
    (hoptions : Q past (.ok ⟨204, [], none⟩))
    (hfilter : ∀ past' e, Q past' (.error e) → Q past' (.ok (DomainExceptionFilter.handle e)))
    (hhead : ∀ past' response, Q past' (.ok response) →
      Q past' (.ok { response with body := none })) : (serve P r).Obeys G D Q past := by
  rw [serve]
  split
  · exact hoptions
  · have hanswer : (tryCatch (dispatch P r) fun e ↦ return DomainExceptionFilter.handle e).Obeys
        G D Q past := by
      refine Interaction.Program.obeys_tryCatch.mpr
        (hdispatch.imp (fun _ _ h ↦ h) (fun _ _ h ↦ h) ?_)
      rintro past' (e | response) h
      · exact hfilter past' e h
      · exact h
    refine hanswer.bind (fun past' response h ↦ ?_) fun _ _ h ↦ h
    split
    · exact hhead past' response h
    · exact h

end Serve

/-- Requests, in any number and order. -/
def api (P : Platform) : Interaction.System Op Op.Val Exn Request Response Bytes World :=
  system P (serve P)

/-- An event of the API. -/
abbrev ApiEvent := WorldEvent Request Response

/-- A login attempt, for the runs shown in this directory. -/
def loginRequest (email password : JsString) : Request where
  method := lit "POST"
  url := lit "/api/v1/auth/login"
  cookies := []
  csrfHeader := none
  userAgent := none
  ip := some (lit "203.0.113.7")
  body := .parsed (some (.obj [(lit "email", .str email), (lit "password", .str password)]))

end NativeKiln
