import NativeKiln.Api.Confidentiality
import NativeKiln.Api.Cookies
import NativeKiln.Api.Login
import NativeKiln.Api.SessionTable

/-!
# What an answer tells

Every answer of the API has a reason. `Refused` lists those for which a request is refused, each
with the exception it is refused with, and `Served` what a request has done that is answered by its
handler; that there are no others is a discipline of `serve` (`serve_explained`).

Read over whole runs, the reasons turn into what a status code tells a client: 401 without a live
session or with wrong credentials only, 429 after as many attempts as are allowed, 201 with a
session in the table, 500 after a failure behind the API, or for a cookie that was not delivered as
a string or a body that the body parser does not take (`answers_explained`, `unauthorized_means`,
`login_means`).
-/

namespace NativeKiln.Answers

open JsString (lit)
open Interaction (Config Throughout own)
open Authentication (Requested LoggedIn Passed info isString)
open Interaction.Program (obeys_bind obeys_pure obeys_perform obeys_ofReply obeys_tryCatch
  obeys_ite obeys_detach)

/-! ## Reasons -/

/-- The operation is a verification of a password, whose failure is no failure of the request. -/
def Op.verifies : Op → Bool
  | .argon2Verify _ _ | .argon2Hash _ _ => true
  | _ => false

/-- Why a request with this history is refused, and with which exception. -/
inductive Refused (P : Platform) (r : Request) (past : List Answered) : Exn → Prop
  /-- The body is no JSON. -/
  | malformed (message : JsString) (h : r.body = .malformed message) : Refused P r past
      (badRequest message)
  /-- The body parser does not take the body. -/
  | rejected (message stack : JsString) (h : r.body = .rejected message stack) : Refused P r past
      (.error message stack)
  | unrouted (h : r.route? = none) : Refused P r past (notFound r)
  /-- There is no session cookie. -/
  | anonymous (route : Route) (hroute : r.route? = some route) (hpublic : route.isPublic = false)
    (h : r.sessionToken = none) : Refused P r past AuthGuard.authenticationRequired
  /-- There is no row for the token. -/
  | unknown (route : Route) (hroute : r.route? = some route) (hpublic : route.isPublic = false)
    (token : JsString) (htoken : r.sessionToken = some (.str token))
    (h : (⟨.sessionFindUnique (SessionService.tokenHash P token), .ok none⟩ : Answered) ∈ past) :
      Refused P r past AuthGuard.sessionInvalid
  /-- The row for the token has expired. -/
  | expired (route : Route) (hroute : r.route? = some route) (hpublic : route.isPublic = false)
    (token : JsString) (htoken : r.sessionToken = some (.str token)) (s : Session) (u : User)
    (n : ℕ) (hfound : (⟨.sessionFindUnique (SessionService.tokenHash P token), .ok (some (s, u))⟩ :
      Answered) ∈ past)
    (hnow : (⟨.now, .ok n⟩ : Answered) ∈ past) (hle : s.expiresAt ≤ n) :
      Refused P r past AuthGuard.sessionInvalid
  /-- The session cookie was parsed into something else than a string. -/
  | unhashed (message : JsString) (token : Json) (htoken : r.sessionToken = some token)
    (h : isString token = false) : Refused P r past (.error message [])
  /-- The CSRF guard does not let the request pass. -/
  | forged (e : Exn) (route : Route) (hroute : r.route? = some route)
    (h : CsrfGuard.canActivate P route r = .error e) : Refused P r past e
  /-- The body is no login. -/
  | invalid (e : Exn) (value : Option Json) (hroute : r.route? = some .login)
    (hbody : r.body = .parsed value) (h : transformLogin P value = .error e) : Refused P r past e
  /-- There have been too many attempts. -/
  | limited (body : LoginDto) (hreq : Requested P r body) (count : ℕ)
    (h : (⟨.incr (RateLimitService.loginKey (AuthController.identifier r body.email)), .ok count⟩ :
      Answered) ∈ past)
    (hgt : MAX_ATTEMPTS < count) : Refused P r past RateLimitService.rateLimited
  /-- There is no such user, or the password did not verify. -/
  | wrong (body : LoginDto) (hreq : Requested P r body) (user : Option User)
    (hfound : (⟨.userFindUnique body.email, .ok user⟩ : Answered) ∈ past)
    (h : ∀ u, user = some u → ∃ reply, reply ≠ .ok true ∧
      (⟨.argon2Verify u.passwordHash body.password, reply⟩ : Answered) ∈ past) :
      Refused P r past AuthService.invalidCredentials
  /-- Something has failed. -/
  | failed (o : Op) (e : Exn) (ho : Op.verifies o = false) (h : (⟨o, .error e⟩ : Answered) ∈ past) :
      Refused P r past e

/-- What a request with this history has done whose handler answers. -/
inductive Served (P : Platform) (r : Request) (past : List Answered) : Response → Prop
  | login (body : LoginDto) (hreq : Requested P r body) (user : User)
    (hlogin : LoggedIn r past body user) (b : Bytes) (n : ℕ) (b' : Bytes) (x : Bytes)
    (hrow : (⟨.sessionCreate (rowOf P user.id (info r) b n b'), .ok ()⟩ : Answered) ∈ past) :
      Served P r past (loginResponse P body ⟨tokenOf b, n + SESSION_TTL_MS⟩ (tokenOf x))
  | logout (hroute : r.route? = some .logout) (session : Option SessionContext)
    (guard : List Answered) (hguard : guard <+: past) (hpassed : Passed P r guard .logout session) :
      Served P r past ⟨201, [clearCookie SESSION_COOKIE, clearCookie CsrfGuard.CSRF_COOKIE],
        some (.obj [(lit "ok", .bool true)])⟩
  | me (hroute : r.route? = some .me) (session : SessionContext) (guard : List Answered)
    (hguard : guard <+: past) (hpassed : Passed P r guard .me (some session)) :
      Served P r past (.json 200 (.obj [(lit "email", .str session.email),
        (lit "isAdmin", .bool session.isAdmin)]))
  | liveness (hroute : r.route? = some .liveness) : Served P r past HealthController.liveness
  | readiness (hroute : r.route? = some .readiness) (database : Except Exn Unit)
    (redis : Except Exn JsString) (storage : Except Exn Unit)
    (hdatabase : (⟨.queryRaw, database⟩ : Answered) ∈ past)
    (hredis : (⟨.ping, redis⟩ : Answered) ∈ past)
    (hstorage : (⟨.listObjects, storage⟩ : Answered) ∈ past) :
      Served P r past (HealthController.report (probe database) (probe redis) (probe storage))

/-- What a route comes to has its reasons. -/
def Reasoned (P : Platform) (r : Request) (past : List Answered) : Except Exn Response → Prop
  | .ok response => Served P r past response
  | .error e => Refused P r past e

/-- The answer without its body, to `HEAD`. -/
def headed (r : Request) (response : Response) : Response :=
  if r.method = lit "HEAD" then { response with body := none } else response

/-- An answer has its reasons, unless it is the answer to `OPTIONS`; nothing is thrown. -/
def Explained (P : Platform) (r : Request) (past : List Answered) : Except Exn Response → Prop
  | .ok answer => r.method = lit "OPTIONS" ∧ answer = ⟨204, [], none⟩ ∨
    (∃ response, Served P r past response ∧ answer = headed r response) ∨
    ∃ e, Refused P r past e ∧ answer = headed r (DomainExceptionFilter.handle e)
  | .error _ => False

/-! ## Every request has its reasons -/

section Reasons

variable {P : Platform} {r : Request} {past : List Answered}

/-- What is said of the history and the result of a part of a request; the part may do anything. -/
abbrev Says {α : Type} (p : Api α) (Q : List Answered → Except Exn α → Prop)
    (past : List Answered) : Prop :=
  p.Obeys (fun _ _ ↦ True) (fun _ _ ↦ True) Q past

theorem says_of_obeys {α : Type} {p : Api α} {G D : List Answered → Op → Prop}
    {Q : List Answered → Except Exn α → Prop} (h : p.Obeys G D Q past) : Says p Q past :=
  h.imp (fun _ _ _ ↦ trivial) (fun _ _ _ ↦ trivial) fun _ _ h ↦ h

/-- An exception has its reasons. -/
def Excused {α : Type} (P : Platform) (r : Request) (past : List Answered)
    (result : Except Exn α) : Prop :=
  ∀ e, result = .error e → Refused P r past e

theorem excused_ok {α : Type} {a : α} : Excused P r past (.ok a) := fun _ h ↦ by simp at h

theorem excused_error {α : Type} {e : Exn} (h : Refused P r past e) :
    Excused P r past (.error e : Except Exn α) := fun _ heq ↦ Except.error.inj heq ▸ h

theorem excused_last {α : Type} {o : Op} {e : Exn} (ho : Op.verifies o = false) :
    Excused P r (past ++ [⟨o, .error e⟩]) (.error e : Except Exn α) :=
  excused_error (.failed o e ho (by simp))

theorem says_call {o : Op} (ho : Op.verifies o = false) :
    Says (call o) (fun past' result ↦ past <+: past' ∧ Excused P r past' result ∧
      ∀ v, result = .ok v → (⟨o, .ok v⟩ : Answered) ∈ past') past := by
  refine obeys_perform.mpr ⟨trivial, fun v ↦ ?_, fun e ↦ ?_⟩
  · refine ⟨List.prefix_append _ _, excused_ok, fun v' h ↦ ?_⟩
    simp [Except.ok.inj h]
  · exact ⟨List.prefix_append _ _, excused_last ho, by simp⟩

theorem excused_authGuard {route : Route} (hroute : r.route? = some route) :
    Says (AuthGuard.canActivate P route r) (Excused P r) [] := by
  rw [AuthGuard.canActivate]
  split
  · exact excused_ok
  · next hpublic =>
    have hpublic : route.isPublic = false := Bool.eq_false_iff.mpr hpublic
    split
    · next htoken => exact excused_error (.anonymous route hroute hpublic htoken)
    · next token htoken =>
      cases token with
      | str t =>
        simp only [SessionService.validate, SessionService.hash, obeys_bind, obeys_pure,
          obeys_perform, obeys_ofReply]
        refine ⟨trivial, ?_, fun e ↦ excused_last rfl⟩
        rintro (_ | ⟨s, u⟩)
        · exact excused_error (.unknown route hroute hpublic t htoken (by simp))
        · simp only [obeys_bind, obeys_pure, obeys_perform, obeys_ofReply, obeys_tryCatch,
            obeys_ite, obeys_detach]
          refine ⟨trivial, fun n ↦ ⟨fun hle ↦ ?_, fun _ ↦ ⟨trivial, fun _ ↦ ⟨trivial, excused_ok⟩,
            fun _ ↦ excused_last rfl⟩⟩, fun _ ↦ excused_last rfl⟩
          exact ⟨trivial, fun _ ↦ excused_error (.expired route hroute hpublic t htoken s u n
            (by simp) (by simp) hle), fun _ ↦ excused_error (.expired route hroute hpublic t htoken
              s u n (by simp) (by simp) hle)⟩
      | _ => exact excused_error (.unhashed _ _ htoken rfl)

/-! ### The login -/

theorem says_limiter {body : LoginDto} (hreq : Requested P r body) :
    Says (RateLimitService.assertLoginAllowed (AuthController.identifier r body.email))
      (Excused P r) past := by
  refine RateLimitService.assertLoginAllowed_obeys trivial (fun _ ↦ excused_last rfl)
    (fun count _ ↦ ?_) trivial (fun _ ↦ excused_last rfl) excused_ok
  rw [RateLimitService.verdict]
  split
  · next hgt => exact excused_error (.limited body hreq count (by simp) hgt)
  · exact excused_ok

theorem says_verifyCredentials {body : LoginDto} (hreq : Requested P r body) :
    Says (AuthService.verifyCredentials body.email body.password) (Excused P r) past := by
  rw [AuthService.verifyCredentials]
  refine obeys_bind.mpr (obeys_perform.mpr ⟨trivial, ?_, fun _ ↦ excused_last rfl⟩)
  rintro (_ | user)
  · simp only [AuthService.passwordMatches, obeys_bind, obeys_pure, obeys_perform, obeys_ofReply,
      obeys_tryCatch]
    have hwrong : ∀ past', (⟨.userFindUnique body.email, .ok none⟩ : Answered) ∈ past' →
        Excused P r past' (.error AuthService.invalidCredentials : Except Exn JsString) :=
      fun past' h ↦ excused_error (.wrong body hreq none h (by simp))
    exact ⟨trivial, fun _ ↦ hwrong _ (by simp), fun _ ↦ hwrong _ (by simp)⟩
  · simp only [AuthService.passwordMatches, generateId, obeys_bind, obeys_pure, obeys_perform,
      obeys_ofReply, obeys_tryCatch]
    have hwrong : ∀ reply, reply ≠ .ok true → ∀ past' : List Answered,
        (⟨.userFindUnique body.email, .ok (some user)⟩ : Answered) ∈ past' →
        (⟨.argon2Verify user.passwordHash body.password, reply⟩ : Answered) ∈ past' →
        Excused P r past' (.error AuthService.invalidCredentials : Except Exn JsString) :=
      fun reply hne past' h h' ↦ excused_error (.wrong body hreq (some user) h fun u hu ↦
        ⟨reply, hne, Option.some_inj.mp hu ▸ h'⟩)
    refine ⟨trivial, ?_, fun e ↦ hwrong (.error e) (by simp) _ (by simp) (by simp)⟩
    rintro (_ | _)
    · exact hwrong (.ok false) (by simp) _ (by simp) (by simp)
    · simp only [obeys_bind, obeys_pure, obeys_perform, obeys_ofReply]
      refine ⟨trivial, fun n ↦ ⟨trivial, fun _ ↦ ⟨trivial, fun b ↦ ⟨trivial, fun _ ↦ ?_, ?_⟩, ?_⟩,
        ?_⟩, ?_⟩
      · exact excused_ok
      all_goals exact fun _ ↦ excused_last rfl

theorem says_create (userId : JsString) (info : SessionMeta) :
    Says (SessionService.create P userId info) (fun past' result ↦ past <+: past' ∧
      Excused P r past' result ∧ ∀ session, result = .ok session → ∃ b n b',
        session = ⟨tokenOf b, n + SESSION_TTL_MS⟩ ∧
          (⟨.sessionCreate (rowOf P userId info b n b'), .ok ()⟩ : Answered) ∈ past') past := by
  simp only [SessionService.create, SessionService.hash, generateSecretToken, generateId,
    obeys_bind, obeys_pure, obeys_perform, obeys_ofReply]
  refine ⟨trivial, fun b ↦ ⟨trivial, fun n ↦ ⟨trivial, fun b' ↦ ⟨trivial, fun _ ↦ ?_, ?_⟩, ?_⟩,
    ?_⟩, ?_⟩
  · refine ⟨by simp, excused_ok, fun session hsession ↦ ⟨b, n, b', ?_, ?_⟩⟩
    · exact (Except.ok.inj hsession).symm
    · simp [rowOf]
  all_goals exact fun e ↦ ⟨by simp, excused_last rfl, by simp⟩

/-- **The login has its reasons.** -/
theorem says_login {body : LoginDto} (hreq : Requested P r body) :
    Says (AuthController.login P body r) (Reasoned P r) past := by
  have hlimiter := (says_of_obeys (Authentication.limiter_obeys (P := P)
    (AuthController.identifier r body.email) r past)).and (says_limiter hreq)
  refine (says_of_obeys hlimiter).bind (fun past₁ u h₁ ↦ ?_) fun _ e h ↦ h.2 e rfl
  obtain ⟨⟨hgrown₁, hcounted⟩, -⟩ := h₁
  have hverify := (says_of_obeys (Authentication.verifyCredentials_obeys (P := P)
    body.email body.password r past₁)).and (says_verifyCredentials hreq)
  refine (says_of_obeys hverify).bind (fun past₂ userId h₂ ↦ ?_) fun _ e h ↦ h.2 e rfl
  obtain ⟨⟨hgrown₂, haccepted⟩, -⟩ := h₂
  obtain ⟨user, rfl, hfound, hverified, haudited⟩ := haccepted userId rfl
  have hlogin : LoggedIn r past₂ body user :=
    ⟨(hcounted u rfl).imp fun _ hcount ↦ ⟨hcount.1, hgrown₂.1.subset hcount.2⟩, hfound, hverified,
      haudited⟩
  refine (says_call rfl).bind (fun past₃ _ h₃ ↦ ?_) fun _ e h ↦ h.2.1 e rfl
  refine (says_create _ _).bind (fun past₄ session h₄ ↦ ?_) fun _ e h ↦ h.2.1 e rfl
  obtain ⟨b, n, b', rfl, hrow⟩ := h₄.2.2 session rfl
  have htoken : Says (generateSecretToken 24) (fun past' result ↦ past₄ <+: past' ∧
      Excused P r past' result ∧ ∀ token, result = .ok token → ∃ x, token = tokenOf x) past₄ := by
    refine (says_call rfl).bind (fun past' x h ↦ ?_)
      fun _ e h ↦ ⟨h.1, excused_error (h.2.1 e rfl), by simp⟩
    exact ⟨h.1, excused_ok, fun token htoken ↦ ⟨x, (Except.ok.inj htoken).symm⟩⟩
  refine htoken.bind (fun past₅ token h₅ ↦ ?_) fun _ e h ↦ h.2.1 e rfl
  obtain ⟨x, rfl⟩ := h₅.2.2 token rfl
  exact .login body hreq user (hlogin.of_subset (h₃.1.trans (h₄.1.trans h₅.1)).subset) b n b' x
    (h₅.1.subset hrow)

/-! ### The other handlers -/

theorem says_logout {session : Option SessionContext} {guard : List Answered}
    (hroute : r.route? = some .logout) (hguard : guard <+: past)
    (hpassed : Passed P r guard .logout session) :
    Says (AuthController.logout P r) (Reasoned P r) past := by
  obtain ⟨token, s, u, n, n', hcookie, hne, -⟩ := id hpassed
  have htoken : r.sessionToken = some (.str token) := by
    rw [Request.sessionToken, hcookie]
    simp [Json.truthy, hne]
  have hserved : ∀ past', past <+: past' → Served P r past' _ :=
    fun past' h ↦ Served.logout hroute session guard (hguard.trans h) hpassed
  rw [AuthController.logout, htoken]
  simp only [SessionService.revoke, SessionService.hash, obeys_bind, obeys_pure, obeys_perform,
    obeys_ofReply, obeys_tryCatch]
  exact ⟨trivial, fun _ ↦ hserved _ (by simp), fun _ ↦ hserved _ (by simp)⟩

theorem says_me {session : Option SessionContext} {guard : List Answered}
    (hroute : r.route? = some .me) (hguard : guard <+: past)
    (hpassed : Passed P r guard .me session) :
    Says (AuthController.me session) (Reasoned P r) past := by
  obtain ⟨token, s, u, n, n', -, -, -, -, rfl, -⟩ := id hpassed
  exact Served.me hroute _ guard hguard hpassed

theorem says_check {o : Op} : Says (HealthController.check (call o)) (fun past' result ↦
    past <+: past' ∧ ∃ reply, result = .ok (probe reply) ∧ (⟨o, reply⟩ : Answered) ∈ past')
    past := by
  simp only [HealthController.check, obeys_tryCatch, obeys_bind, obeys_pure, obeys_perform,
    obeys_ofReply]
  exact ⟨trivial, fun v ↦ ⟨by simp, .ok v, rfl, by simp⟩, fun e ↦ ⟨by simp, .error e, rfl, by simp⟩⟩

theorem says_readiness (hroute : r.route? = some .readiness) :
    Says HealthController.readiness (Reasoned P r) past := by
  refine (says_check (o := .queryRaw)).bind (fun past₁ database h₁ ↦ ?_) fun _ _ h ↦ by simp at h
  refine (says_check (o := .ping)).bind (fun past₂ redis h₂ ↦ ?_) fun _ _ h ↦ by simp at h
  refine (says_check (o := .listObjects)).bind (fun past₃ storage h₃ ↦ ?_) fun _ _ h ↦ by simp at h
  obtain ⟨-, a, ha, hmem₁⟩ := h₁
  obtain ⟨hpre₂, b, hb, hmem₂⟩ := h₂
  obtain ⟨hpre₃, d, hd, hmem₃⟩ := h₃
  rw [Except.ok.inj ha, Except.ok.inj hb, Except.ok.inj hd]
  exact .readiness hroute a b d ((hpre₂.trans hpre₃).subset hmem₁) (hpre₃.subset hmem₂) hmem₃

theorem says_handler {route : Route} {value : Option Json} {session : Option SessionContext}
    (hroute : r.route? = some route) (hbody : r.body = .parsed value)
    (hpassed : route.isPublic = false → Passed P r past route session) :
    Says (handler P route value r session) (Reasoned P r) past := by
  have hhandle : ∀ {α : Type} {f : Unit → Api α} {Q : List Answered → Except Exn α → Prop},
      (∀ past', past <+: past' → Says (f ()) Q past') → (∀ past' e, Refused P r past' e →
        Q past' (.error e)) → Says (call (.handle route session) >>= f) Q past :=
    fun hf hQ ↦ (says_call rfl).bind (fun past' _ h ↦ hf past' h.1) fun past' e h ↦
      hQ past' e (h.2.1 e rfl)
  cases route with
  | login =>
    refine obeys_bind.mpr (obeys_ofReply.mpr ?_)
    cases hvalid : transformLogin P value with
    | error e => exact Refused.invalid e value hroute hbody hvalid
    | ok body => exact hhandle (fun _ _ ↦ says_login ⟨hroute, value, hbody, hvalid⟩) fun _ _ h ↦ h
  | logout => exact hhandle (fun _ h ↦ says_logout hroute h (hpassed rfl)) fun _ _ h ↦ h
  | me => exact hhandle (fun _ h ↦ says_me hroute h (hpassed rfl)) fun _ _ h ↦ h
  | liveness => exact hhandle (fun _ _ ↦ Served.liveness hroute) fun _ _ h ↦ h
  | readiness => exact hhandle (fun _ _ ↦ says_readiness hroute) fun _ _ h ↦ h

/-! ### The application -/

theorem says_handle {route : Route} {value : Option Json} (hroute : r.route? = some route)
    (hbody : r.body = .parsed value) : Says (handle P route value r) (Reasoned P r) [] := by
  have hguard := (says_of_obeys (Authentication.authGuard_obeys (P := P) route r)).and
    (excused_authGuard hroute)
  refine (says_of_obeys hguard).bind (fun past session hsession ↦ ?_) fun _ e h ↦ h.2 e rfl
  rw [obeys_bind, obeys_ofReply]
  cases hcsrf : CsrfGuard.canActivate P route r with
  | error e => exact Refused.forged e route hroute hcsrf
  | ok u =>
    refine says_handler hroute hbody fun hpublic ↦ ?_
    have hguarded := hsession.1
    rw [Authentication.Guarded, hpublic, if_neg Bool.false_ne_true] at hguarded
    obtain ⟨token, s, u, n, n', hcookie, hne, hpast, hlt, hsession⟩ := hguarded
    exact ⟨token, s, u, n, n', hcookie, hne, hpast, hlt, hsession, hcsrf⟩

/-- **Every answer has its reasons.** -/
theorem serve_explained (r : Request) : Says (serve P r) (Explained P r) [] := by
  rw [serve]
  split
  · next hoptions => exact Or.inl ⟨hoptions, rfl⟩
  · have hdispatch : Says (dispatch P r) (Reasoned P r) [] := by
      rw [dispatch]
      split
      · next message hbody => exact Refused.malformed message hbody
      · next message stack hbody => exact Refused.rejected message stack hbody
      · next value hbody =>
        split
        · next hroute => exact Refused.unrouted hroute
        · next route hroute => exact says_handle hroute hbody
    have hfilter : Says (tryCatch (dispatch P r) fun e ↦ return DomainExceptionFilter.handle e)
        (fun past result ↦ ∃ response, result = .ok response ∧ (Served P r past response ∨
          ∃ e, Refused P r past e ∧ response = DomainExceptionFilter.handle e)) [] := by
      refine obeys_tryCatch.mpr (hdispatch.imp (fun _ _ h ↦ h) (fun _ _ h ↦ h) ?_)
      rintro past (e | response) h
      · exact ⟨_, rfl, Or.inr ⟨e, h, rfl⟩⟩
      · exact ⟨_, rfl, Or.inl h⟩
    refine hfilter.bind (fun past response h ↦ ?_) fun _ _ h ↦ by simp at h
    obtain ⟨_, hresponse, h⟩ := h
    obtain rfl := Except.ok.inj hresponse
    rcases h with h | ⟨e, h, rfl⟩
    · exact Or.inr (Or.inl ⟨response, h, rfl⟩)
    · exact Or.inr (Or.inr ⟨e, h, rfl⟩)

end Reasons

/-! ## What the status of a refusal says -/

section Status

variable {P : Platform} {r : Request} {past : List Answered} {e : Exn}

/-- The request presents no session that lasts. -/
def NoSession (P : Platform) (r : Request) (past : List Answered) : Prop :=
  r.sessionToken = none ∨ ∃ token, r.sessionToken = some (.str token) ∧
    ((⟨.sessionFindUnique (SessionService.tokenHash P token), .ok none⟩ : Answered) ∈ past ∨
      ∃ s u n, (⟨.sessionFindUnique (SessionService.tokenHash P token), .ok (some (s, u))⟩ :
        Answered) ∈ past ∧ (⟨.now, .ok n⟩ : Answered) ∈ past ∧ s.expiresAt ≤ n)

/-- The credentials are of no user, or the password did not verify. -/
def WrongCredentials (past : List Answered) (body : LoginDto) : Prop :=
  ∃ user, (⟨.userFindUnique body.email, .ok user⟩ : Answered) ∈ past ∧
    ∀ u, user = some u → ∃ reply, reply ≠ .ok true ∧
      (⟨.argon2Verify u.passwordHash body.password, reply⟩ : Answered) ∈ past

/-- What is behind the status of a refusal. -/
def Reason (P : Platform) (r : Request) (past : List Answered) : ℕ → Prop
  | 400 => (∃ message, r.body = .malformed message) ∨ r.route? = some .login ∧
      ∃ value e, r.body = .parsed value ∧ transformLogin P value = .error e
  | 401 => (∃ route, r.route? = some route ∧ route.isPublic = false ∧ NoSession P r past) ∨
      ∃ body, Requested P r body ∧ WrongCredentials past body
  | 403 => ∃ route, r.route? = some route ∧ route.isPublic = false ∧ r.Mutating ∧
      CsrfGuard.canActivate P route r = .error CsrfGuard.invalidToken
  | 404 => r.route? = none
  | 429 => ∃ body, Requested P r body ∧ ∃ count > MAX_ATTEMPTS,
      (⟨.incr (RateLimitService.loginKey (AuthController.identifier r body.email)), .ok count⟩ :
        Answered) ∈ past
  | 500 => (∃ o e, Op.verifies o = false ∧ (⟨o, .error e⟩ : Answered) ∈ past) ∨
      (∃ p ∈ r.cookies, isString p.2 = false) ∨ ∃ message stack, r.body = .rejected message stack
  | _ => False

/-- What has failed has failed with an `Error`. -/
def Plain (past : List Answered) : Prop :=
  ∀ o e, (⟨o, .error e⟩ : Answered) ∈ past → Op.verifies o = false →
    ∃ message stack, e = .error message stack

theorem mem_cookies {name : JsString} {value : Json} (h : r.cookie name = some value) :
    (name, value) ∈ r.cookies := by
  obtain ⟨before, after, hcookies, -⟩ := List.lookup_eq_some_iff.mp h
  simp [hcookies]

theorem forged_cases {route : Route} (h : CsrfGuard.canActivate P route r = .error e) :
    route.isPublic = false ∧ r.Mutating ∧ (e = CsrfGuard.invalidToken ∨
      (∃ p ∈ r.cookies, isString p.2 = false) ∧ ∃ message, e = .error message []) := by
  have hmutating : r.Mutating := by
    intro hsafe
    rw [CsrfGuard.canActivate, if_pos hsafe] at h
    simp at h
  have hpublic : route.isPublic = false := by
    by_contra hpublic
    rw [CsrfGuard.canActivate, if_neg hmutating, if_pos (Bool.not_eq_false _ ▸ hpublic)] at h
    simp at h
  refine ⟨hpublic, hmutating, (csrfGuard_error hpublic h).imp_right ?_⟩
  rintro ⟨cookie, header, hcompares, hbuffer⟩
  refine ⟨⟨_, mem_cookies hcompares.2.1, ?_⟩, buffer_error hbuffer⟩
  cases cookie with
  | str s => simp [Platform.buffer] at hbuffer
  | _ => rfl

theorem invalid_eq {value : Option Json} (h : transformLogin P value = .error e) :
    ∃ details, e = .domain (ValidationError (lit "Invalid request payload") details) := by
  rw [transformLogin] at h
  split at h
  · simp at h
  · exact ⟨_, (Except.error.inj h).symm⟩

/-- **Every refusal has a status that tells its reason.** -/
theorem Refused.reason (h : Refused P r past e) (hplain : Plain past) :
    Reason P r past (DomainExceptionFilter.handle e).status := by
  cases h with
  | malformed message h => exact Or.inl ⟨message, h⟩
  | rejected message stack h => exact Or.inr (Or.inr ⟨message, stack, h⟩)
  | unrouted h => exact h
  | anonymous route hroute hpublic h => exact Or.inl ⟨route, hroute, hpublic, Or.inl h⟩
  | unknown route hroute hpublic token htoken h =>
    exact Or.inl ⟨route, hroute, hpublic, Or.inr ⟨token, htoken, Or.inl h⟩⟩
  | expired route hroute hpublic token htoken s u n hfound hnow hle =>
    exact Or.inl ⟨route, hroute, hpublic, Or.inr ⟨token, htoken,
      Or.inr ⟨s, u, n, hfound, hnow, hle⟩⟩⟩
  | unhashed message token htoken h =>
    exact Or.inr (Or.inl ⟨_, mem_cookies (Option.filter_eq_some_iff.mp htoken).1, h⟩)
  | forged e route hroute h =>
    obtain ⟨hpublic, hmutating, rfl | ⟨hcookie, message, rfl⟩⟩ := forged_cases h
    · exact ⟨route, hroute, hpublic, hmutating, h⟩
    · exact Or.inr (Or.inl hcookie)
  | invalid e value hroute hbody h =>
    obtain ⟨details, rfl⟩ := invalid_eq h
    exact Or.inr ⟨hroute, value, _, hbody, h⟩
  | limited body hreq count h hgt => exact ⟨body, hreq, count, hgt, h⟩
  | wrong body hreq user hfound h => exact Or.inr ⟨body, hreq, user, hfound, h⟩
  | failed o e ho h =>
    obtain ⟨message, stack, rfl⟩ := hplain o e h ho
    exact Or.inl ⟨o, _, ho, h⟩

/-- The body says what went wrong, in a code and a message. -/
def Enveloped (body : Option Json) : Prop :=
  ∃ fields code message, body = some (.obj [(lit "error", .obj fields)]) ∧
    fields.lookup (lit "code") = some (.str code) ∧
      fields.lookup (lit "message") = some (.str message)

theorem enveloped_domain (e : DomainError) :
    Enveloped (DomainExceptionFilter.handle (.domain e)).body := by
  refine ⟨_, e.code.text, e.message, rfl, rfl, ?_⟩
  rw [List.cons_append, List.lookup_cons]
  rfl

theorem enveloped_error (message stack : JsString) :
    Enveloped (DomainExceptionFilter.handle (.error message stack)).body :=
  ⟨_, _, _, rfl, rfl, rfl⟩

/-- **Every refusal is told in an envelope.** -/
theorem Refused.enveloped (h : Refused P r past e) (hplain : Plain past) :
    Enveloped (DomainExceptionFilter.handle e).body := by
  cases h with
  | malformed message h => exact ⟨_, _, message, rfl, rfl, rfl⟩
  | unrouted h => exact ⟨_, _, _, rfl, rfl, rfl⟩
  | anonymous | unknown | expired | limited | wrong => exact enveloped_domain _
  | rejected message stack | unhashed message => exact enveloped_error _ _
  | forged e route hroute h =>
    obtain ⟨-, -, rfl | ⟨-, message, rfl⟩⟩ := forged_cases h
    · exact enveloped_domain _
    · exact enveloped_error _ _
  | invalid e value hroute hbody h =>
    obtain ⟨details, rfl⟩ := invalid_eq h
    exact enveloped_domain _
  | failed o e ho h =>
    obtain ⟨message, stack, rfl⟩ := hplain o e h ho
    exact enveloped_error _ _

end Status

/-! ## The answers of a run -/

section Trace

variable {P : Platform} {w₀ : World} {c : Config Op Op.Val Exn Request Response World}
  {pre post : List ApiEvent} {f : ApiEvent} {answer : Response}

theorem explained (hc : (api P).Reachable w₀ c) (htr : c.trace = pre ++ f :: post)
    (hret : f.returned = some answer) : Explained P f.call (own f.thread pre) (.ok answer) := by
  have hends := (hc.orderly serve_explained).trace pre f post htr
  rwa [Interaction.System.Disciplined, Interaction.Event.action_of_returned hret] at hends

theorem plain_of_exec {y : Bytes} {w w' : World} {o : Op} {e : Exn}
    (h : World.exec P y w o = some (w', .error e)) (ho : Op.verifies o = false) :
    ∃ message stack, e = .error message stack := by
  cases o <;> simp only [World.exec] at h <;> (repeat' split at h) <;>
    simp_all only [Option.some_inj, Prod.mk.injEq, reduceCtorEq, Except.error.injEq, and_false,
      World.prismaError, Op.verifies]
  all_goals exact ⟨_, _, h.2.symm⟩

theorem plain_of_mayReject {o : Op} {e : Exn} (h : mayReject o e) :
    ∃ message stack, e = .error message stack := by
  cases e with
  | error message stack => exact ⟨message, stack, rfl⟩
  | _ => cases o <;> simp [mayReject] at h

theorem plain_own (hc : (api P).Reachable w₀ c) (htr : c.trace = pre ++ post) (i : ℕ) :
    Plain (own i pre) := by
  intro o e h ho
  obtain ⟨g, hg, -, reply, ha, hseen⟩ := Interaction.mem_own.mp h
  obtain ⟨p, q, rfl⟩ := List.append_of_mem hg
  have heff : (api P).Effect g := hc.effects p g (q ++ post) (by simp [htr])
  rw [Interaction.System.Effect, ha] at heff
  cases reply with
  | answered a =>
    obtain ⟨y, hy⟩ := heff
    obtain rfl : a = .error e := hseen
    exact plain_of_exec hy ho
  | rejected x => exact Except.error.inj hseen ▸ plain_of_mayReject heff.1
  | lost a x => exact Except.error.inj hseen ▸ plain_of_mayReject heff.1

/-- **Every answer is explained.** In every run, whatever fails in it: an answer goes to `OPTIONS`,
or the handler has done what the answer says, or the request was refused, with a status that tells
the reason, without a cookie, and with an envelope for a body (which `HEAD` does not get). -/
theorem answers_explained (P : Platform) (w₀ : World)
    (c : Config Op Op.Val Exn Request Response World) (hc : (api P).Reachable w₀ c) :
    ∀ pre f post answer, c.trace = pre ++ f :: post → f.returned = some answer →
      f.call.method = lit "OPTIONS" ∧ answer = ⟨204, [], none⟩ ∨
      (∃ response, Served P f.call (own f.thread pre) response ∧ answer = headed f.call response) ∨
      Reason P f.call (own f.thread pre) answer.status ∧ answer.cookies = [] ∧
        (f.call.method ≠ lit "HEAD" → Enveloped answer.body) := by
  intro pre f post answer htr hret
  have hplain : Plain (own f.thread pre) := plain_own hc htr _
  refine (explained hc htr hret).imp_right (Or.imp_right ?_)
  rintro ⟨e, hrefused, rfl⟩
  have hreason := hrefused.reason hplain
  rw [headed]
  split
  · next hhead => exact ⟨hreason, Authentication.cookies_handle e, fun hne ↦ absurd hhead hne⟩
  · exact ⟨hreason, Authentication.cookies_handle e, fun _ ↦ hrefused.enveloped hplain⟩

theorem answers_explained_loginLogout : ∃ response, Served samplePlatform
    Authentication.logoutRequest (own 1 (Authentication.loginLogout.trace.take 24)) response := by
  rcases answers_explained samplePlatform sampleWorld Authentication.loginLogout
      (Interaction.System.reachable_run ..) (Authentication.loginLogout.trace.take 24) _ [] _ rfl
      rfl
    with ⟨h, -⟩ | ⟨response, h, -⟩ | ⟨h, -⟩
  · exact absurd h (by decide)
  · exact ⟨response, h⟩
  · exact h.elim

/-! ### Sessions -/

theorem Served.status {r : Request} {past : List Answered} {response : Response}
    (h : Served P r past response) : response.status = 200 ∨ response.status = 201 := by
  cases h with
  | login | logout => exact Or.inr rfl
  | _ => exact Or.inl rfl

theorem Reason.status {r : Request} {past : List Answered} {n : ℕ} (h : Reason P r past n) :
    n ∈ [400, 401, 403, 404, 429, 500] := by
  rw [Reason.eq_def] at h
  split at h <;> first | exact h.elim | decide

@[simp] theorem headed_status (r : Request) (response : Response) :
    (headed r response).status = response.status := by
  rw [headed]
  split <;> rfl

/-- What is behind an answer to a request with a route. -/
theorem served_or_reason (hc : (api P).Reachable w₀ c) (htr : c.trace = pre ++ f :: post)
    (hret : f.returned = some answer) {route : Route} (hroute : f.call.route? = some route) :
    (∃ response, Served P f.call (own f.thread pre) response ∧ answer = headed f.call response ∧
        answer.status < 400) ∨
      Reason P f.call (own f.thread pre) answer.status ∧ 400 ≤ answer.status := by
  rcases explained hc htr hret with ⟨hoptions, -⟩ | ⟨response, hserved, rfl⟩ | ⟨e, hrefused, rfl⟩
  · have hmethod := Request.method_mem hroute
    rw [hoptions] at hmethod
    exact absurd hmethod (by cases route <;> decide)
  · refine Or.inl ⟨response, hserved, rfl, ?_⟩
    rw [headed_status]
    rcases hserved.status with h | h <;> omega
  · have hreason := hrefused.reason (plain_own hc htr _)
    rw [headed_status]
    refine Or.inr ⟨hreason, ?_⟩
    have hstatus := hreason.status
    simp only [List.mem_cons, List.not_mem_nil, or_false] at hstatus
    omega

/-- The event looks the token up, and is answered. -/
def LooksUp (P : Platform) (token : JsString) (e : ApiEvent) : Prop :=
  ∃ found, e.action = .perform (.sessionFindUnique (SessionService.tokenHash P token))
    (.answered (.ok found))

theorem expired_of_noSession (hc : (api P).Reachable w₀ c) (h₀ : w₀.sessions = [])
    (hids : (c.trace.filterMap generatedId?).Nodup) (htr : c.trace = pre ++ f :: post)
    (h : NoSession P f.call (own f.thread pre)) : f.call.sessionToken = none ∨
      ∃ token, f.call.sessionToken = some (.str token) ∧ ∃ p lookup q, pre = p ++ lookup :: q ∧
        lookup.thread = f.thread ∧ LooksUp P token lookup ∧
          ∀ d, Granted d p → d.tokenHash = SessionService.tokenHash P token →
            d.expiresAt ≤ f.before.clock := by
  refine h.imp_right ?_
  rintro ⟨token, htoken, h⟩
  refine ⟨token, htoken, ?_⟩
  have hlookup : ∀ found, (⟨.sessionFindUnique (SessionService.tokenHash P token), .ok found⟩ :
      Answered) ∈ own f.thread pre → ∃ p lookup q, pre = p ++ lookup :: q ∧
        lookup.thread = f.thread ∧ lookup.action = .perform
          (.sessionFindUnique (SessionService.tokenHash P token)) (.answered (.ok found)) ∧
        c.trace = p ++ lookup :: (q ++ f :: post) := by
    intro found hmem
    obtain ⟨lookup, hmem, hthread, haction⟩ := Interaction.mem_own_ok.mp hmem
    obtain ⟨p, q, rfl⟩ := List.append_of_mem hmem
    exact ⟨p, lookup, q, rfl, hthread, haction, by simp [htr]⟩
  have hlater : ∀ {p lookup q}, pre = p ++ lookup :: q →
      c.trace = p ++ lookup :: (q ++ f :: post) → lookup.before.clock ≤ f.before.clock := by
    intro p lookup q hpre htr'
    rw [← clock_effect (hc.effects p lookup _ htr')]
    exact clock_le hc htr (hpre ▸ by simp)
  rcases h with hnone | ⟨s, u, n, hfound, hnow, hle⟩
  · obtain ⟨p, lookup, q, hpre, hthread, haction, htr'⟩ := hlookup none hnone
    refine ⟨p, lookup, q, hpre, hthread, ⟨_, haction⟩, fun d hd hhash ↦ ?_⟩
    have hrows : ∀ d ∈ lookup.before.rows, d.tokenHash ≠ _ :=
      lookup_spec (hc.effects p lookup _ htr') haction rfl
    rcases (SessionTable.kept hc h₀ hids).2 p lookup _ htr' d hd with hmem | hexpired
    · exact absurd hhash (hrows d hmem)
    · exact hexpired.trans (hlater hpre htr')
  · obtain ⟨p, lookup, q, hpre, hthread, haction, htr'⟩ := hlookup _ hfound
    refine ⟨p, lookup, q, hpre, hthread, ⟨_, haction⟩, fun d hd hhash ↦ ?_⟩
    obtain ⟨hs, hshash, -⟩ := lookup_spec (hc.effects p lookup _ htr') haction rfl
    rcases (SessionTable.kept hc h₀ hids).2 p lookup _ htr' d hd with hmem | hexpired
    · -- rows have their tokens to themselves
      have hdistinct := ((traced hc h₀).2 p lookup _ htr').distinct
      have hsame : d = s.data := by
        by_contra hne
        have hsymm : Std.Symm fun d d' : SessionData ↦ d.id ≠ d'.id ∧ d.tokenHash ≠ d'.tokenHash :=
          ⟨fun _ _ h ↦ ⟨h.1.symm, h.2.symm⟩⟩
        exact (hdistinct.forall hmem (List.mem_map_of_mem hs) hne).2 (hhash.trans hshash.symm)
      rw [hsame]
      exact hle.trans (now_le hc htr hnow)
    · exact hexpired.trans (hlater hpre htr')

theorem open_of_passed (hc : (api P).Reachable w₀ c) (h₀ : w₀.sessions = [])
    (htr : c.trace = pre ++ f :: post) {route : Route} {session : Option SessionContext}
    {guard : List Answered} (hguard : guard <+: own f.thread pre)
    (hpassed : Passed P f.call guard route session) :
    ∃ token, f.call.sessionToken = some (.str token) ∧ ∃ p lookup q, pre = p ++ lookup :: q ∧
      lookup.thread = f.thread ∧ LooksUp P token lookup ∧
        ∃ d, Granted d p ∧ d.tokenHash = SessionService.tokenHash P token ∧
          lookup.before.clock < d.expiresAt := by
  obtain ⟨token, s, u, n, n', hcookie, hne, rfl, hlt, -⟩ := hpassed
  have htoken : f.call.sessionToken = some (.str token) := by
    rw [Request.sessionToken, hcookie]
    simp [Json.truthy, hne]
  obtain ⟨lookup, hmem, hthread, haction, hle⟩ :=
    SessionTable.clock_le_of_read hc htr hguard (t := n) (by simp)
  obtain ⟨p, q, rfl⟩ := List.append_of_mem hmem
  have htr' : c.trace = p ++ lookup :: (q ++ f :: post) := by simp [htr]
  have heff := hc.effects p lookup _ htr'
  obtain ⟨hs, hhash, -⟩ := lookup_spec heff haction rfl
  refine ⟨token, htoken, p, lookup, q, rfl, hthread, ⟨_, haction⟩, s.data,
    ((traced hc h₀).2 p lookup _ htr').granted _ (List.mem_map_of_mem hs), hhash, ?_⟩
  rw [← clock_effect heff]
  exact hle.trans_lt hlt

/-- **What 401 means, where a session is needed.** In every run in which no identifier is generated
twice, whatever fails in it: a request is told 401 only if it presents no token, or one for which,
when it was looked up, no session had been opened and not revoked that lasts until the answer; and
it is served only if there was one. -/
theorem unauthorized_means (P : Platform) (w₀ : World) (h₀ : w₀.sessions = [])
    (c : Config Op Op.Val Exn Request Response World) (hc : (api P).Reachable w₀ c)
    (hids : (c.trace.filterMap generatedId?).Nodup) :
    ∀ pre f post answer route, c.trace = pre ++ f :: post → f.returned = some answer →
      f.call.route? = some route → route.isPublic = false →
      (answer.status = 401 → f.call.sessionToken = none ∨
        ∃ token, f.call.sessionToken = some (.str token) ∧ ∃ p lookup q, pre = p ++ lookup :: q ∧
          lookup.thread = f.thread ∧ LooksUp P token lookup ∧
            ∀ d, Granted d p → d.tokenHash = SessionService.tokenHash P token →
              d.expiresAt ≤ f.before.clock) ∧
      (answer.status < 400 →
        ∃ token, f.call.sessionToken = some (.str token) ∧ ∃ p lookup q, pre = p ++ lookup :: q ∧
          lookup.thread = f.thread ∧ LooksUp P token lookup ∧
            ∃ d, Granted d p ∧ d.tokenHash = SessionService.tokenHash P token ∧
              lookup.before.clock < d.expiresAt) := by
  intro pre f post answer route htr hret hroute hpublic
  have hnot : ∀ route', f.call.route? = some route' → route'.isPublic = false :=
    fun route' h ↦ Option.some_inj.mp (hroute.symm.trans h) ▸ hpublic
  rcases served_or_reason hc htr hret hroute with ⟨response, hserved, -, hlt⟩ | ⟨hreason, hle⟩
  · refine ⟨fun h ↦ by omega, fun _ ↦ ?_⟩
    cases hserved with
    | login body hreq => exact absurd (hnot _ hreq.1) (by decide)
    | logout _ session guard hguard hpassed => exact open_of_passed hc h₀ htr hguard hpassed
    | me _ session guard hguard hpassed => exact open_of_passed hc h₀ htr hguard hpassed
    | liveness h => exact absurd (hnot _ h) (by decide)
    | readiness h => exact absurd (hnot _ h) (by decide)
  · refine ⟨fun h ↦ ?_, fun _ ↦ by omega⟩
    rw [h] at hreason
    rcases hreason with ⟨-, -, -, hnone⟩ | ⟨body, hreq, -⟩
    · exact expired_of_noSession hc h₀ hids htr hnone
    · exact absurd (hnot _ hreq.1) (by decide)

theorem unauthorized_means_loginLogout : ∃ p d, Granted d p ∧
    d.tokenHash = SessionService.tokenHash samplePlatform (sampleToken 0) ∧
      p <+: Authentication.loginLogout.trace := by
  obtain ⟨token, htoken, p, lookup, q, hpre, -, -, d, hd, hhash, -⟩ :=
    (unauthorized_means samplePlatform sampleWorld rfl Authentication.loginLogout
      (Interaction.System.reachable_run ..) (by decide +kernel)
      (Authentication.loginLogout.trace.take 24) _ [] _ .logout rfl rfl rfl rfl).2 (by decide)
  obtain rfl : sampleToken 0 = token := Json.str.inj (Option.some_inj.mp htoken)
  exact ⟨p, d, hd, hhash, List.IsPrefix.trans ⟨_, hpre.symm⟩ (List.take_prefix _ _)⟩

/-! ### Logins -/

theorem opened_of_served (hc : (api P).Reachable w₀ c) (htr : c.trace = pre ++ f :: post)
    (hret : f.returned = some answer) {response : Response}
    (hserved : Served P f.call (own f.thread pre) response)
    (hanswer : answer = headed f.call response) (hroute : f.call.route? = some .login) :
    ∃ body token userId,
      Authentication.handsOut token f = true ∧ ∃ p e q, pre = p ++ e :: q ∧ e.thread = f.thread ∧
        Authentication.LoginOf P w₀ p e body token userId := by
  have hnot : ∀ route, f.call.route? = some route → route = .login :=
    fun route h ↦ Option.some_inj.mp (h.symm.trans hroute)
  cases hserved with
  | login body hreq user hlogin b n b' x hrow =>
    obtain ⟨e, he, hthread, ha⟩ := Interaction.mem_own_ok.mp hrow
    obtain ⟨p, q, rfl⟩ := List.append_of_mem he
    have hdone : e.done = some ⟨.sessionCreate (rowOf P user.id (info f.call) b n b'), .ok ()⟩ :=
      Interaction.Event.done_of_answered ha
    have hins : Inserts (rowOf P user.id (info f.call) b n b') e := by
      rw [Inserts, inserted?, hdone]
    have htr' : c.trace = p ++ e :: (q ++ f :: post) := by simp [htr]
    obtain ⟨body', b₁, n₁, hof, -⟩ := Authentication.loginOf_of_inserts hc htr' hins
    refine ⟨body', tokenOf b, _, ?_, p, e, q, rfl, hthread,
      { hof with inserted := ⟨_, hins, rfl, rfl⟩ }⟩
    rw [Authentication.handsOut, hret, hanswer]
    simp only [headed]
    split <;> simp [loginResponse]
  | logout h => exact absurd (hnot _ h) (by decide)
  | me h => exact absurd (hnot _ h) (by decide)
  | liveness h => exact absurd (hnot _ h) (by decide)
  | readiness h => exact absurd (hnot _ h) (by decide)

theorem account_of_found (hc : (api P).Reachable w₀ c) {p q : List ApiEvent} {g : ApiEvent}
    (htr : c.trace = p ++ g :: q) {email : JsString} {user : Option User}
    (ha : g.action = .perform (.userFindUnique email) (.answered (.ok user))) :
    user.map User.account = (w₀.users.find? (·.email = email)).map User.account := by
  have hdone : g.done = some ⟨.userFindUnique email, .ok user⟩ :=
    Interaction.Event.done_of_answered ha
  obtain ⟨y, hy⟩ := (hc.effects p g q htr).exec hdone
  obtain ⟨-, hfind⟩ := Prod.mk.inj (Option.some_inj.mp hy)
  have hfind : g.before.users.find? (·.email = email) = user := Except.ok.inj hfind
  have hmap : ∀ us : List User, (us.find? (·.email = email)).map User.account =
      (us.map User.account).find? (·.email = email) := fun us ↦ by
    rw [List.find?_map]
    rfl
  rw [← hfind, hmap, hmap, accounts_eq hc htr]

/-- The verification had no answer. -/
def Unanswered (hash : PasswordHash) (password : JsString) (e : ApiEvent) : Prop :=
  ∃ reply, e.action = .perform (.argon2Verify hash password) reply ∧ ∀ a, reply ≠ .answered a

theorem not_verified_of_wrong (hc : (api P).Reachable w₀ c) (htr : c.trace = pre ++ post) {i : ℕ}
    {body : LoginDto} (h : WrongCredentials (own i pre) body) {u : User}
    (hu : w₀.users.find? (·.email = body.email) = some u) :
    P.verifyPassword u.passwordHash body.password ≠ .ok true ∨
      ∃ g ∈ pre, g.thread = i ∧ Unanswered u.passwordHash body.password g := by
  obtain ⟨user, hfound, hwrong⟩ := h
  obtain ⟨g, hg, -, hga⟩ := Interaction.mem_own_ok.mp hfound
  obtain ⟨p, q, rfl⟩ := List.append_of_mem hg
  have haccount := account_of_found hc (p := p) (q := q ++ post) (by simp [htr]) hga
  rw [hu, Option.map_some, Option.map_eq_some_iff] at haccount
  obtain ⟨u', rfl, haccount⟩ := haccount
  obtain ⟨reply, hne, hmem⟩ := hwrong u' rfl
  have hhash : u'.passwordHash = u.passwordHash := by
    simpa [User.account] using congrArg User.passwordHash haccount
  rw [hhash] at hmem
  obtain ⟨g', hg', hi, reply', ha', hseen⟩ := Interaction.mem_own.mp hmem
  cases reply' with
  | answered a =>
    obtain ⟨p', q', hp'⟩ := List.append_of_mem hg'
    have hdone : g'.done = some ⟨.argon2Verify u.passwordHash body.password, a⟩ :=
      Interaction.Event.done_of_answered ha'
    obtain ⟨y, hy⟩ := (hc.effects p' g' (q' ++ post) (by rw [htr, hp']; simp)).exec hdone
    obtain ⟨-, hverify⟩ := Prod.mk.inj (Option.some_inj.mp hy)
    refine Or.inl ?_
    rw [hverify]
    exact fun h ↦ hne (hseen.symm.trans h)
  | rejected x => exact Or.inr ⟨g', hg', hi, _, ha', by simp⟩
  | lost a x => exact Or.inr ⟨g', hg', hi, _, ha', by simp⟩

theorem exists_hits (hc : (api P).Reachable w₀ c) {key : JsString} (h₀ : w₀.redis key = none) :
    Throughout (fun pre e ↦ ∃ a b, pre = a ++ b ∧ (∀ g ∈ b, g.done ≠ some ⟨.del key, .ok ()⟩) ∧
      countOf (e.before.redis key) ≤ (b.filterMap (hit? key)).length) c.trace := by
  have htrue : Throughout (fun _ _ ↦ True) c.trace := fun _ _ _ _ ↦ trivial
  refine hc.throughout (I := fun w tr ↦ ∃ a b, tr = a ++ b ∧
    (∀ g ∈ b, g.done ≠ some ⟨.del key, .ok ()⟩) ∧
      countOf (w.redis key) ≤ (b.filterMap (hit? key)).length) htrue ?_ ?_ ?_
  · exact ⟨[], [], rfl, by simp, by simp [h₀, countOf]⟩
  · rintro w tr d ⟨a, b, htr, hdel, hle⟩
    refine ⟨a, b, htr, hdel, le_trans ?_ hle⟩
    rw [show ((api P).tick d w).redis key = (w.tick d).redis key from rfl, World.tick_redis]
    cases w.redis key with
    | none => simp
    | some ctr =>
      rw [Option.filter_some]
      split
      · exact le_rfl
      · simp [countOf]
  · rintro tr e ⟨a, b, rfl, hdel, hle⟩ heff -
    by_cases hclear : e.done = some ⟨.del key, .ok ()⟩
    · obtain ⟨y, hy⟩ := heff.exec hclear
      obtain ⟨hw, -⟩ := Prod.mk.inj (Option.some_inj.mp hy)
      exact ⟨a ++ b ++ [e], [], by simp, by simp, by simp [← hw, countOf]⟩
    refine ⟨a, b ++ [e], by simp, fun g hg ↦ ?_, ?_⟩
    · rcases List.mem_append.mp hg with hg | hg
      · exact hdel g hg
      · exact List.mem_singleton.mp hg ▸ hclear
    · rw [List.filterMap_append]
      cases counterStep heff key with
      | hit n hn hd hcount h =>
        have hcountOf : countOf (e.after.redis key) = countOf (e.before.redis key) + 1 := by
          rw [h, ← countOf_incremented]
          rfl
        simp [hn, hle, hcountOf]
      | expire seconds hn hd h =>
        have hcountOf : countOf (e.after.redis key) ≤ countOf (e.before.redis key) := by
          rw [h]
          cases e.before.redis key with
          | none => simp
          | some ctr =>
            simp only [Option.bind_some, World.expiring]
            split <;> simp [countOf]
        simpa [hn] using hcountOf.trans hle
      | del hn hd h => exact absurd hd hclear
      | other hn h => simp [hn, h, hle]

theorem hits_of_own (hc : (api P).Reachable w₀ c) {key : JsString} (h₀ : w₀.redis key = none)
    (htr : c.trace = pre ++ post) {i n count : ℕ} (hlt : n < count)
    (h : (⟨.incr key, .ok count⟩ : Answered) ∈ own i pre) : ∃ a b q, pre = a ++ b ++ q ∧
      (∀ g ∈ b, g.done ≠ some ⟨.del key, .ok ()⟩) ∧ n < (b.filterMap (hit? key)).length := by
  obtain ⟨g, hg, -, ha⟩ := Interaction.mem_own_ok.mp h
  obtain ⟨p, q, rfl⟩ := List.append_of_mem hg
  have htr' : c.trace = p ++ g :: (q ++ post) := by simp [htr]
  obtain ⟨a, b, rfl, hdel, hle⟩ := exists_hits hc h₀ p g _ htr'
  have hdone : g.done = some ⟨.incr key, .ok count⟩ :=
    Interaction.Event.done_of_answered ha
  obtain ⟨y, hy⟩ := (hc.effects _ g _ htr').exec hdone
  have hcount : (World.incremented (g.before.redis key)).count = count :=
    Except.ok.inj (Prod.mk.inj (Option.some_inj.mp hy)).2
  have hhit : hit? key g = some count := by simp [hit?, hdone]
  refine ⟨a, b ++ [g], q, by simp, fun g' hg' ↦ ?_, ?_⟩
  · rcases List.mem_append.mp hg' with hg' | hg'
    · exact hdel g' hg'
    · rw [List.mem_singleton.mp hg', hdone]
      simp
  · rw [countOf_incremented] at hcount
    rw [List.filterMap_append]
    simp only [List.filterMap_cons, hhit, List.filterMap_nil, List.length_append, List.length_cons,
      List.length_nil]
    omega

/-- **What the answer to a login means.** In every run, whatever fails in it. Told 201, the client
is handed a token whose session was inserted at the end of a login: its attempt was counted, the
password of the user with that address verified, and an audit event was committed. Told 401, it has
sent an address without a user or a password that does not verify, or the verification was not
answered. Told 429, more attempts than are allowed were counted for the address and the client in a
stretch of the run in which none of them was cleared. -/
theorem login_means (P : Platform) (w₀ : World) (hredis : ∀ key, w₀.redis key = none)
    (c : Config Op Op.Val Exn Request Response World) (hc : (api P).Reachable w₀ c) :
    ∀ pre f post answer, c.trace = pre ++ f :: post → f.returned = some answer →
      f.call.route? = some .login →
      (answer.status = 201 → ∃ body token userId, Authentication.handsOut token f = true ∧
        ∃ p e q, pre = p ++ e :: q ∧ e.thread = f.thread ∧
          Authentication.LoginOf P w₀ p e body token userId) ∧
      (answer.status = 401 → ∃ body, Requested P f.call body ∧
        ∀ u, w₀.users.find? (·.email = body.email) = some u →
          P.verifyPassword u.passwordHash body.password ≠ .ok true ∨
            ∃ g ∈ pre, g.thread = f.thread ∧ Unanswered u.passwordHash body.password g) ∧
      (answer.status = 429 → ∃ body, Requested P f.call body ∧ ∃ a b q, pre = a ++ b ++ q ∧
        (∀ g ∈ b, g.done ≠ some
          ⟨.del (RateLimitService.loginKey (AuthController.identifier f.call body.email)),
            .ok ()⟩) ∧
        MAX_ATTEMPTS < (b.filterMap
          (hit? (RateLimitService.loginKey
            (AuthController.identifier f.call body.email)))).length) := by
  intro pre f post answer htr hret hroute
  rcases served_or_reason hc htr hret hroute with ⟨response, hserved, hanswer, hlt⟩ | ⟨hreason, hle⟩
  · exact ⟨fun _ ↦ opened_of_served hc htr hret hserved hanswer hroute, fun h ↦ by omega,
      fun h ↦ by omega⟩
  · refine ⟨fun h ↦ by omega, fun h ↦ ?_, fun h ↦ ?_⟩
    · rw [h] at hreason
      rcases hreason with ⟨route, hroute', hpublic, -⟩ | ⟨body, hreq, hwrong⟩
      · obtain rfl := Option.some_inj.mp (hroute'.symm.trans hroute)
        exact absurd hpublic (by decide)
      · exact ⟨body, hreq, fun u hu ↦ not_verified_of_wrong hc htr hwrong hu⟩
    · rw [h] at hreason
      obtain ⟨body, hreq, count, hgt, hcount⟩ := hreason
      exact ⟨body, hreq, hits_of_own hc (hredis _) htr hgt hcount⟩

theorem login_means_loginLogout : ∃ token, ∃ f ∈ Authentication.loginLogout.trace,
    Authentication.handsOut token f = true := by
  obtain ⟨-, token, -, h, -⟩ := (login_means samplePlatform sampleWorld (fun _ ↦ rfl)
    Authentication.loginLogout (Interaction.System.reachable_run ..)
    (Authentication.loginLogout.trace.take 16) _ (Authentication.loginLogout.trace.drop 17) _ rfl
    rfl rfl).1 rfl
  exact ⟨token, _, List.getElem_mem (n := 16) (by decide +kernel), h⟩

end Trace

end NativeKiln.Answers
