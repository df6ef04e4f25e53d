import NativeKiln.Api.Server

/-!
# No handler runs without a login

A handler of a route that is not public starts with a session in hand. This module traces that
session back through the run: the guard found its row, a login inserted the row after it had counted
the attempt, verified the password and committed an audit event, and nobody revoked it in between.
Everything a single request is responsible for is its discipline (`Allows`, `Ends`); what several
requests do to the table and to each other is read off the trace.
-/

namespace NativeKiln

open JsString (lit)
open Interaction (Config Event Throughout own)
open Interaction.Program (Asks asks_pure asks_throw asks_ofReply asks_call asks_spawn)

/-! ## Users and audit events -/

/-- What a user keeps for good. -/
def User.account (u : User) : User := { u with lastLoginAt := none }

section Tables

variable {P : Platform} {ι ρ : Type} {body : ι → Api ρ} {w₀ : World}
  {c : Config Op Op.Val Exn ι ρ World}

theorem accounts_update (us : List User) (id : JsString) (t : ℕ) :
    (us.map fun u ↦ if u.id = id then { u with lastLoginAt := some t } else u).map User.account =
      us.map User.account := by
  rw [List.map_map]
  refine List.map_congr_left fun u _ ↦ ?_
  rw [Function.comp_apply]
  split <;> rfl

theorem accounts_exec {y : Bytes} {w w' : World} {o : Op} {r : Except Exn o.Val}
    (h : World.exec P y w o = some (w', r)) :
    w'.users.map User.account = w.users.map User.account := by
  cases o with
  | userUpdate id t =>
    rw [World.exec] at h
    split at h
    · obtain ⟨hw, -⟩ := Prod.mk.inj (Option.some_inj.mp h)
      rw [← hw]
      exact accounts_update _ id t
    · obtain ⟨hw, -⟩ := Prod.mk.inj (Option.some_inj.mp h)
      rw [← hw]
  | _ => rw [World.exec_users h (by simp)]

theorem accounts_effect {e : WorldEvent ι ρ} (h : (system P body).Effect e) :
    e.after.users.map User.account = e.before.users.map User.account := by
  match hd : e.done with
  | none => rw [h.unchanged hd]
  | some ⟨o, r⟩ =>
    obtain ⟨y, hy⟩ := h.exec hd
    exact accounts_exec hy

theorem accounts_eq (hc : (system P body).Reachable w₀ c) {pre post : List (WorldEvent ι ρ)}
    {e : WorldEvent ι ρ} (htr : c.trace = pre ++ e :: post) :
    e.before.users.map User.account = w₀.users.map User.account := by
  have htrue : Throughout (fun _ _ ↦ True) c.trace := fun _ _ _ _ ↦ trivial
  refine hc.throughout (I := fun w _ ↦ w.users.map User.account = w₀.users.map User.account) htrue
    rfl ?_ ?_ pre e post htr
  · exact fun w _ d h ↦ h
  · exact fun _ _ h heff _ ↦ (accounts_effect heff).trans h

/-- The identifier of the audit event that an event put into the table, if it did. -/
def auditId? (e : WorldEvent ι ρ) : Option JsString :=
  match e.done with
  | some ⟨.auditEventCreate data, .ok _⟩ => some data.id
  | _ => none

/-- Audit events stay in their table, and they have their identifiers to themselves. -/
theorem audit_effect {e : WorldEvent ι ρ} (h : (system P body).Effect e) :
    (∀ id, auditId? e = some id → ∀ a ∈ e.before.auditEvents, a.id ≠ id) ∧
      ∀ id, (auditId? e = some id ∨ ∃ a ∈ e.before.auditEvents, a.id = id) →
        ∃ a ∈ e.after.auditEvents, a.id = id := by
  match hd : e.done with
  | none => simp [auditId?, hd, h.unchanged hd]
  | some ⟨o, r⟩ =>
    obtain ⟨y, hy⟩ := h.exec hd
    change World.exec P y e.before o = some (e.after, r) at hy
    cases o with
    | auditEventCreate data =>
      rw [World.exec] at hy
      split at hy
      · obtain ⟨hw, rfl⟩ := Prod.mk.inj (Option.some_inj.mp hy)
        simp [auditId?, hd, ← hw]
      · next hany =>
        split at hy
        · obtain ⟨hw, rfl⟩ := Prod.mk.inj (Option.some_inj.mp hy)
          have hnew : ∀ a ∈ e.before.auditEvents, a.id ≠ data.id := by
            simpa using List.any_eq_false.mp (Bool.eq_false_iff.mpr hany)
          refine ⟨?_, ?_⟩
          · rintro id hid
            obtain rfl : data.id = id := by simpa [auditId?, hd] using hid
            exact hnew
          · rintro id (hid | ⟨a, ha, rfl⟩)
            · obtain rfl : data.id = id := by simpa [auditId?, hd] using hid
              exact ⟨data, by simp [← hw], rfl⟩
            · exact ⟨a, by simp [← hw, ha], rfl⟩
        · obtain ⟨hw, rfl⟩ := Prod.mk.inj (Option.some_inj.mp hy)
          simp [auditId?, hd, ← hw]
    | _ => simp [auditId?, hd, World.exec_auditEvents hy (by simp)]

theorem auditIds_nodup (hc : (system P body).Reachable w₀ c) :
    (c.trace.filterMap auditId?).Nodup := by
  have htrue : Throughout (fun _ _ ↦ True) c.trace := fun _ _ _ _ ↦ trivial
  refine (hc.invariant (I := fun w tr ↦ (tr.filterMap auditId?).Nodup ∧
    ∀ id ∈ tr.filterMap auditId?, ∃ a ∈ w.auditEvents, a.id = id) htrue (by simp)
    (fun _ _ _ h ↦ h) ?_).1
  rintro tr e ⟨hnodup, hmem⟩ heff -
  obtain ⟨hnew, hstay⟩ := audit_effect heff
  rw [List.filterMap_append, List.filterMap_cons, List.filterMap_nil]
  cases hid : auditId? e with
  | none =>
    simp only [List.append_nil]
    exact ⟨hnodup, fun id h ↦ hstay id (Or.inr (hmem id h))⟩
  | some id =>
    simp only [List.mem_append, List.mem_singleton]
    refine ⟨List.nodup_append.mpr ⟨hnodup, List.nodup_singleton _, ?_⟩, ?_⟩
    · intro id' hid' id'' hid'' heq
      obtain ⟨a, ha, haid⟩ := hmem id' hid'
      exact hnew id hid a ha (by rw [haid, heq, List.mem_singleton.mp hid''])
    · rintro id' (hid' | rfl)
      · exact hstay id' (Or.inr (hmem id' hid'))
      · exact hstay id' (Or.inl hid)

end Tables

namespace Authentication

/-! ## What a request may do -/

/-- What a login says about itself. -/
def info (r : Request) : SessionMeta where
  userAgent := r.userAgent.map HeaderText.text
  ipAddress := some (r.ip.getD (lit "unknown"))

/-- A login for `user` has counted its attempt, verified the password and committed its audit
event. -/
structure LoggedIn (r : Request) (past : List Answered) (body : LoginDto) (user : User) : Prop where
  counted : ∃ count ≤ MAX_ATTEMPTS,
    (⟨.incr (RateLimitService.loginKey (AuthController.identifier r body.email)), .ok count⟩ :
      Answered) ∈ past
  found : (⟨.userFindUnique body.email, .ok (some user)⟩ : Answered) ∈ past
  verified : (⟨.argon2Verify user.passwordHash body.password, .ok true⟩ : Answered) ∈ past
  audited : ∃ id,
    (⟨.auditEventCreate (AuthService.loginEvent id user.id), .ok ()⟩ : Answered) ∈ past

/-- The guards have let a request through to a route that is not public. -/
def Passed (P : Platform) (r : Request) (past : List Answered) (route : Route)
    (session : Option SessionContext) : Prop :=
  ∃ token s u n n', r.cookie SESSION_COOKIE = some (.str token) ∧ token ≠ [] ∧
    past = [⟨.sessionFindUnique (SessionService.tokenHash P token), .ok (some (s, u))⟩,
      ⟨.now, .ok n⟩, ⟨.now, .ok n'⟩] ∧
    n < s.expiresAt ∧ session = some ⟨s.id, s.userId, u.email, u.isAdmin⟩ ∧
    CsrfGuard.canActivate P route r = .ok ()

/-- The request is a login with these credentials. -/
def Requested (P : Platform) (r : Request) (body : LoginDto) : Prop :=
  r.route? = some .login ∧ ∃ value, r.body = .parsed value ∧ transformLogin P value = .ok body

/-- No session has been created. -/
def Unopened (past : List Answered) : Prop := ∀ d r, (⟨.sessionCreate d, r⟩ : Answered) ∉ past

/-- What a request may do, given what it has done. -/
def Allows (P : Platform) (r : Request) (past : List Answered) : Op → Prop
  | .handle route session => route.isPublic = false → Passed P r past route session
  | .sessionCreate d =>
    Unopened past ∧ ∃ body user b n b', Requested P r body ∧ LoggedIn r past body user ∧
      (⟨.randomBytes 32, .ok b⟩ : Answered) ∈ past ∧ (⟨.now, .ok n⟩ : Answered) ∈ past ∧
      d = rowOf P user.id (info r) b n b'
  | .sessionDeleteMany hash =>
    ∃ s u, (⟨.sessionFindUnique hash, .ok (some (s, u))⟩ : Answered) ∈ past
  | _ => True

/-- Only refreshes are left behind. -/
def Detaches (_ : List Answered) (o : Op) : Prop := Refresh o

/-- A session cookie is handed out with the token that was generated. -/
def Ends (past : List Answered) : Except Exn Response → Prop
  | .ok response => ∀ cookie ∈ response.cookies, cookie.name = SESSION_COOKIE → cookie.value ≠ [] →
      ∃ b, (⟨.randomBytes 32, .ok b⟩ : Answered) ∈ past ∧ cookie.value = tokenOf b
  | .error _ => True

/-! ### The guards -/

/-- What the session guard has done when it lets a request pass. -/
def Guarded (P : Platform) (r : Request) (route : Route) (past : List Answered) :
    Except Exn (Option SessionContext) → Prop
  | .ok session =>
    if route.isPublic then past = []
    else ∃ token s u n n', r.cookie SESSION_COOKIE = some (.str token) ∧ token ≠ [] ∧
      past = [⟨.sessionFindUnique (SessionService.tokenHash P token), .ok (some (s, u))⟩,
        ⟨.now, .ok n⟩, ⟨.now, .ok n'⟩] ∧
      n < s.expiresAt ∧ session = some ⟨s.id, s.userId, u.email, u.isAdmin⟩
  | .error _ => True

variable {P : Platform}

theorem authGuard_obeys (route : Route) (r : Request) :
    (AuthGuard.canActivate P route r).Obeys (Allows P r) Detaches (Guarded P r route) [] := by
  rw [AuthGuard.canActivate]
  split
  · next hpublic => simp [Guarded, hpublic]
  · next hpublic =>
    split
    · simp [Guarded]
    · next token htoken =>
      obtain ⟨hcookie, htruthy⟩ := Option.filter_eq_some_iff.mp htoken
      cases token with
      | str t =>
        have hne : t ≠ [] := by simpa [Json.truthy] using htruthy
        simp only [SessionService.validate, SessionService.hash, Interaction.Program.obeys_bind,
          Interaction.Program.obeys_pure, Interaction.Program.obeys_perform,
          Interaction.Program.obeys_ofReply, List.nil_append]
        refine ⟨trivial, ?_, fun _ ↦ trivial⟩
        rintro (_ | ⟨s, u⟩)
        · simp [Guarded]
        · simp +contextual [Guarded, Allows, Detaches, Refresh, hpublic, hcookie, hne]
      | _ => simp [SessionService.validate, SessionService.hash, Guarded]

/-! ### The login -/

/-- The history has grown, and no session was created in what was added. -/
def Grown (past past' : List Answered) : Prop := past <+: past' ∧ (Unopened past → Unopened past')

theorem Grown.concat {past past' : List Answered} (h : Grown past past') {o : Op}
    {reply : Except Exn o.Val} (ho : ∀ d, o ≠ .sessionCreate d) :
    Grown past (past' ++ [⟨o, reply⟩]) := by
  refine ⟨h.1.trans (List.prefix_append _ _), fun hun d reply' hmem ↦ ?_⟩
  rcases List.mem_append.mp hmem with hmem | hmem
  · exact h.2 hun d reply' hmem
  · obtain ⟨rfl, -⟩ := Sigma.mk.inj (List.mem_singleton.mp hmem)
    exact ho d rfl

theorem grown_of_ordinary {α : Type} {p : Api α} (h : Asks Ordinary Refresh p) (r : Request)
    (past : List Answered) :
    p.Obeys (Allows P r) Detaches (fun past' _ ↦ Grown past past') past := by
  refine (h.obeys (I := Grown past) ⟨List.prefix_rfl, id⟩ fun past' o reply hgrown ho ↦ ?_).imp
    (fun past' o ho ↦ ?_) (fun past' o ho ↦ ho.2) fun past' _ hgrown ↦ hgrown
  · apply hgrown.concat
    rintro d rfl
    exact ho
  · cases o with
    | handle _ _ | sessionCreate _ | sessionDeleteMany _ => exact ho.2.elim
    | _ => trivial

/-- The limiter lets an attempt pass that it has counted up to an admitted value. -/
theorem limiter_obeys (identifier : JsString) (r : Request) (past : List Answered) :
    (RateLimitService.assertLoginAllowed identifier).Obeys (Allows P r) Detaches
      (fun past' result ↦ Grown past past' ∧ ∀ u, result = .ok u → ∃ count ≤ MAX_ATTEMPTS,
        (⟨.incr (RateLimitService.loginKey identifier), .ok count⟩ : Answered) ∈ past') past := by
  have hincr : ∀ reply : Except Exn ℕ, Grown past
      (past ++ [⟨.incr (RateLimitService.loginKey identifier), reply⟩]) := fun reply ↦
    Grown.concat ⟨List.prefix_rfl, id⟩ (by simp)
  refine RateLimitService.assertLoginAllowed_obeys trivial (fun e ↦ ⟨hincr _, by simp⟩)
    (fun count _ ↦ ⟨hincr _, fun _ hok ↦ ?_⟩) trivial
    (fun e ↦ ⟨(hincr _).concat (by simp), by simp⟩)
    ⟨(hincr _).concat (by simp), fun _ _ ↦ ⟨1, by decide, by simp⟩⟩
  rw [RateLimitService.verdict] at hok
  split at hok
  · simp at hok
  · next hle => exact ⟨count, not_lt.mp hle, by simp⟩

/-- Credentials that are accepted are those of a user whose password was verified and whose login
was audited. -/
def Accepted (email password : JsString) (past : List Answered) (user : User) : Prop :=
  (⟨.userFindUnique email, .ok (some user)⟩ : Answered) ∈ past ∧
    (⟨.argon2Verify user.passwordHash password, .ok true⟩ : Answered) ∈ past ∧
    ∃ id, (⟨.auditEventCreate (AuthService.loginEvent id user.id), .ok ()⟩ : Answered) ∈ past

theorem verifyCredentials_obeys (email password : JsString) (r : Request) (past : List Answered) :
    (AuthService.verifyCredentials email password).Obeys (Allows P r) Detaches
      (fun past' result ↦ Grown past past' ∧ ∀ userId, result = .ok userId →
        ∃ user, user.id = userId ∧ Accepted email password past' user) past := by
  have hfacts : (AuthService.verifyCredentials email password).Obeys (fun _ _ ↦ True)
      (fun _ _ ↦ True) (fun past' result ↦ ∀ userId, result = .ok userId →
        ∃ user, user.id = userId ∧ Accepted email password past' user) past := by
    rw [AuthService.verifyCredentials]
    refine Interaction.Program.obeys_bind.mpr (Interaction.Program.obeys_perform.mpr
      ⟨trivial, ?_, by simp⟩)
    rintro (_ | user)
    · simp [AuthService.passwordMatches]
    · simp only [AuthService.passwordMatches, generateId, Interaction.Program.obeys_bind,
          Interaction.Program.obeys_pure, Interaction.Program.obeys_perform,
          Interaction.Program.obeys_ofReply, Interaction.Program.obeys_tryCatch]
      refine ⟨trivial, ?_, by simp⟩
      rintro (_ | _)
      · simp
      · simp +contextual [Accepted]
        exact fun b ↦ ⟨user, rfl, Or.inr rfl, Or.inr rfl, _, Or.inr rfl⟩
  exact ((grown_of_ordinary (ordinary_verifyCredentials email password) r past).and hfacts).imp
    (fun _ _ h ↦ h.1) (fun _ _ h ↦ h.1) fun _ _ h ↦ h

theorem LoggedIn.of_subset {r : Request} {past past' : List Answered} {body : LoginDto}
    {user : User} (h : LoggedIn r past body user) (hsub : past ⊆ past') :
    LoggedIn r past' body user where
  counted := h.counted.imp fun _ hcount ↦ ⟨hcount.1, hsub hcount.2⟩
  found := hsub h.found
  verified := hsub h.verified
  audited := h.audited.imp fun _ hmem ↦ hsub hmem

/-- A session is opened for a user who has logged in. -/
theorem create_obeys {body : LoginDto} {user : User} {r : Request} {past : List Answered}
    (hreq : Requested P r body) (hlogin : LoggedIn r past body user) (hun : Unopened past) :
    (SessionService.create P user.id (info r)).Obeys (Allows P r) Detaches
      (fun past' result ↦ ∀ session, result = .ok session →
        ∃ b, (⟨.randomBytes 32, .ok b⟩ : Answered) ∈ past' ∧ session.token = tokenOf b) past := by
  have hallows : ∀ b n b', Allows P r
      (past ++ [⟨.randomBytes 32, .ok b⟩, ⟨.now, .ok n⟩, ⟨.randomBytes 22, .ok b'⟩])
      (.sessionCreate (rowOf P user.id (info r) b n b')) := by
    intro b n b'
    refine ⟨fun d reply hmem ↦ ?_, body, user, b, n, b', hreq,
      hlogin.of_subset (List.subset_append_left _ _), by simp, by simp, rfl⟩
    rcases List.mem_append.mp hmem with hmem | hmem
    · exact hun d reply hmem
    · simp at hmem
  simp [SessionService.create, SessionService.hash, generateSecretToken, generateId]
  exact ⟨trivial, fun b ↦ ⟨trivial, fun n ↦ ⟨trivial, fun b' ↦ hallows b n b'⟩⟩⟩

theorem login_obeys {body : LoginDto} {r : Request} {past : List Answered}
    (hreq : Requested P r body) (hun : Unopened past) :
    (AuthController.login P body r).Obeys (Allows P r) Detaches Ends past := by
  refine (limiter_obeys _ r past).bind (fun past₁ u h₁ ↦ ?_) fun _ _ _ ↦ trivial
  refine (verifyCredentials_obeys _ _ r past₁).bind (fun past₂ userId h₂ ↦ ?_) fun _ _ _ ↦ trivial
  obtain ⟨hgrown₁, hcounted⟩ := h₁
  obtain ⟨hgrown₂, haccepted⟩ := h₂
  obtain ⟨user, rfl, hfound, hverified, haudited⟩ := haccepted userId rfl
  have hlogin : LoggedIn r past₂ body user :=
    ⟨(hcounted u rfl).imp fun _ hcount ↦ ⟨hcount.1, hgrown₂.1.subset hcount.2⟩, hfound, hverified,
      haudited⟩
  have hclear : Asks Ordinary Refresh
      (RateLimitService.clear (AuthController.identifier r body.email)) := asks_call trivial
  refine (grown_of_ordinary hclear r past₂).bind (fun past₃ _ hgrown₃ ↦ ?_) fun _ _ _ ↦ trivial
  have hun₃ : Unopened past₃ := hgrown₃.2 (hgrown₂.2 (hgrown₁.2 hun))
  refine (create_obeys hreq (hlogin.of_subset hgrown₃.1.subset) hun₃).bind
    (fun past₄ session htoken ↦ ?_) fun _ _ _ ↦ trivial
  obtain ⟨b, hb, hsession⟩ := htoken session rfl
  refine (grown_of_ordinary (ordinary_token 24) r past₄).bind (fun past₅ csrfToken hgrown₅ ↦ ?_)
    fun _ _ _ ↦ trivial
  intro cookie hcookie hname _
  simp only [List.mem_cons, List.not_mem_nil, or_false] at hcookie
  rcases hcookie with rfl | rfl
  · exact ⟨b, hgrown₅.1.subset hb, hsession⟩
  · exact absurd hname (show CsrfGuard.CSRF_COOKIE ≠ SESSION_COOKIE by decide)

/-! ### The other handlers -/

theorem ends_of_plain {past : List Answered} {response : Response}
    (h : ∀ cookie ∈ response.cookies, cookie.value = []) : Ends past (.ok response) :=
  fun cookie hcookie _ hne ↦ absurd (h cookie hcookie) hne

theorem logout_obeys {r : Request} {past past' : List Answered} {session : Option SessionContext}
    (h : Passed P r past .logout session) (hpast : past <+: past') :
    (AuthController.logout P r).Obeys (Allows P r) Detaches Ends past' := by
  obtain ⟨token, s, u, n, n', hcookie, hne, rfl, -⟩ := h
  have hfound : Allows P r past' (.sessionDeleteMany (SessionService.tokenHash P token)) :=
    ⟨s, u, hpast.subset List.mem_cons_self⟩
  have hends : ∀ past', Ends past' (.ok ⟨201, [clearCookie SESSION_COOKIE,
      clearCookie CsrfGuard.CSRF_COOKIE], some (.obj [(lit "ok", .bool true)])⟩) :=
    fun past' ↦ ends_of_plain (by simp [clearCookie])
  rw [AuthController.logout, Request.sessionToken, hcookie]
  have htruthy : Json.truthy (.str token) := by simp [Json.truthy, hne]
  rw [Option.filter_some, if_pos htruthy]
  simp [SessionService.revoke, SessionService.hash, hfound, hends]

theorem me_obeys (session : Option SessionContext) (r : Request) (past : List Answered) :
    (AuthController.me session).Obeys (Allows P r) Detaches Ends past := by
  cases session with
  | none => trivial
  | some session => exact ends_of_plain (by simp [Response.json])

theorem readiness_obeys (r : Request) (past : List Answered) :
    HealthController.readiness.Obeys (Allows P r) Detaches Ends past := by
  have hcheck : ∀ (o : Op) past, Ordinary o → (HealthController.check (call o)).Obeys (Allows P r)
      Detaches (fun past' _ ↦ Grown past past') past :=
    fun o past ho ↦ grown_of_ordinary (ordinary_check (asks_call ho)) r past
  refine (hcheck .queryRaw past trivial).bind (fun past₁ database _ ↦ ?_) fun _ _ _ ↦ trivial
  refine (hcheck .ping past₁ trivial).bind (fun past₂ redis _ ↦ ?_) fun _ _ _ ↦ trivial
  refine (hcheck .listObjects past₂ trivial).bind (fun past₃ storage _ ↦ ?_) fun _ _ _ ↦ trivial
  exact ends_of_plain (by simp [HealthController.report, Response.json])

/-- The pipe and the handler of a route keep the discipline once the guards have let the request
pass. -/
theorem handler_obeys {route : Route} {value : Option Json} {r : Request} {past : List Answered}
    {session : Option SessionContext} (hroute : r.route? = some route)
    (hbody : r.body = .parsed value)
    (hpassed : route.isPublic = false → Passed P r past route session) (hun : Unopened past) :
    (handler P route value r session).Obeys (Allows P r) Detaches Ends past := by
  have hhandle : (call (.handle route session)).Obeys (Allows P r) Detaches
      (fun past' _ ↦ past <+: past' ∧ Unopened past') past := by
    refine Interaction.Program.obeys_perform.mpr ⟨hpassed, fun _ ↦ ?_, fun _ ↦ ?_⟩ <;>
      refine ⟨List.prefix_append _ _, fun d reply hmem ↦ ?_⟩ <;>
        exact (List.mem_append.mp hmem).elim (hun d reply) (by simp)
  cases route with
  | login =>
    refine Interaction.Program.obeys_bind.mpr (Interaction.Program.obeys_ofReply.mpr ?_)
    cases hvalid : transformLogin P value with
    | error e => trivial
    | ok body => exact hhandle.bind (fun past' _ h ↦
        login_obeys ⟨hroute, value, hbody, hvalid⟩ h.2) fun _ _ _ ↦ trivial
  | logout =>
    exact hhandle.bind (fun past' _ h ↦ logout_obeys (hpassed rfl) h.1) fun _ _ _ ↦ trivial
  | me => exact hhandle.bind (fun past' _ _ ↦ me_obeys session r past') fun _ _ _ ↦ trivial
  | liveness =>
    exact hhandle.bind (fun _ _ _ ↦
      ends_of_plain (by simp [HealthController.liveness, Response.json])) fun _ _ _ ↦ trivial
  | readiness => exact hhandle.bind (fun past' _ _ ↦ readiness_obeys r past') fun _ _ _ ↦ trivial

theorem handle_obeys {route : Route} {value : Option Json} {r : Request}
    (hroute : r.route? = some route) (hbody : r.body = .parsed value) :
    (handle P route value r).Obeys (Allows P r) Detaches Ends [] := by
  refine (authGuard_obeys route r).bind (fun past session hguarded ↦ ?_) fun _ _ _ ↦ trivial
  rw [Interaction.Program.obeys_bind, Interaction.Program.obeys_ofReply]
  cases hcsrf : CsrfGuard.canActivate P route r with
  | error e => trivial
  | ok u =>
    rw [Guarded] at hguarded
    refine handler_obeys hroute hbody (fun hpublic ↦ ?_) fun d reply hmem ↦ ?_
    · rw [hpublic, if_neg Bool.false_ne_true] at hguarded
      obtain ⟨token, s, u, n, n', hcookie, hne, hpast, hlt, hsession⟩ := hguarded
      exact ⟨token, s, u, n, n', hcookie, hne, hpast, hlt, hsession, hcsrf⟩
    · split at hguarded
      · simp [hguarded] at hmem
      · obtain ⟨token, s, u, n, n', -, -, rfl, -⟩ := hguarded
        simp at hmem

theorem cookies_handle (e : Exn) : (DomainExceptionFilter.handle e).cookies = [] := by
  cases e with
  | http status body => cases body <;> rfl
  | _ => rfl

/-- **A request keeps the discipline.** -/
theorem serve_obeys (r : Request) : (serve P r).Obeys (Allows P r) Detaches Ends [] := by
  have hdispatch : (dispatch P r).Obeys (Allows P r) Detaches Ends [] :=
    dispatch_obeys (fun _ ↦ trivial) fun route value hroute hbody ↦ handle_obeys hroute hbody
  exact serve_obeys_of_dispatch hdispatch (ends_of_plain (by simp))
    (fun past e _ ↦ ends_of_plain (by simp [cookies_handle])) fun past response h ↦ h

/-! ## What the trace says -/

section Trace

variable {w₀ : World} {c : Config Op Op.Val Exn Request Response World}

theorem orderly (hc : (api P).Reachable w₀ c) :
    Interaction.System.Orderly (Allows P) (fun _ ↦ Detaches) (fun _ ↦ Ends) c :=
  hc.orderly serve_obeys

/-! ### Inserts and revocations -/

theorem insert_history (hc : (api P).Reachable w₀ c) {pre post : List ApiEvent} {e : ApiEvent}
    (htr : c.trace = pre ++ e :: post) {d : SessionData} (hd : Inserts d e) :
    Allows P e.call (own e.thread pre) (.sessionCreate d) ∧
      ∃ r, e.action = .perform (.sessionCreate d) r :=
  (orderly hc).performed htr hd.done fun _ h ↦ h

theorem thread_ne_of_inserts (hc : (api P).Reachable w₀ c) {pre post : List ApiEvent}
    {e e' : ApiEvent} (htr : c.trace = pre ++ e :: post) {d d' : SessionData} (hd : Inserts d e)
    (he' : e' ∈ pre) (hd' : Inserts d' e') : e'.thread ≠ e.thread := by
  intro heq
  obtain ⟨p, q, rfl⟩ := List.append_of_mem he'
  have htr' : c.trace = p ++ e' :: (q ++ e :: post) := by simp [htr]
  obtain ⟨-, r, ha⟩ := insert_history hc htr' hd'
  exact (insert_history hc htr hd).1.1 d' r.seen
    (Interaction.mem_own.mpr ⟨e', he', heq, r, ha, rfl⟩)

theorem insert_eq_of_thread (hc : (api P).Reachable w₀ c) {e e' : ApiEvent} (he : e ∈ c.trace)
    (he' : e' ∈ c.trace) {d d' : SessionData} (hd : Inserts d e) (hd' : Inserts d' e')
    (hthread : e.thread = e'.thread) : e = e' := by
  obtain ⟨pre, post, htr⟩ := List.append_of_mem he
  obtain ⟨pre', post', htr'⟩ := List.append_of_mem he'
  rcases Interaction.mem_or_mem_or_eq htr htr' with hmem | hmem | heq
  · exact absurd hthread.symm (thread_ne_of_inserts hc htr hd hmem hd')
  · exact absurd hthread (thread_ne_of_inserts hc htr' hd' hmem hd)
  · exact heq

theorem insert_token (hc : (api P).Reachable w₀ c) {e : ApiEvent} (he : e ∈ c.trace)
    {d : SessionData} (hd : Inserts d e) :
    ∃ b, d.tokenHash = SessionService.tokenHash P (tokenOf b) ∧
      ∃ g ∈ c.trace, g.thread = e.thread ∧ generatedToken? g = some (tokenOf b) := by
  obtain ⟨pre, post, htr⟩ := List.append_of_mem he
  obtain ⟨⟨-, body, user, b, n, b', -, -, hb, -, rfl⟩, -⟩ := insert_history hc htr hd
  obtain ⟨g, hg, hgi, hgb⟩ := drawn?_of_mem_own hb
  exact ⟨b, rfl, g, by simp [htr, hg], hgi, by rw [generatedToken?, hgb]; rfl⟩

/-- **Tokens are used once.** -/
theorem insert_eq_of_hash (hsha : Function.Injective P.sha256) (hc : (api P).Reachable w₀ c)
    (htokens : (c.trace.filterMap generatedToken?).Nodup) {e e' : ApiEvent} (he : e ∈ c.trace)
    (he' : e' ∈ c.trace) {d d' : SessionData} (hd : Inserts d e) (hd' : Inserts d' e')
    (hhash : d.tokenHash = d'.tokenHash) : e = e' := by
  obtain ⟨b, hb, g, hg, hgi, hgd⟩ := insert_token hc he hd
  obtain ⟨b', hb', g', hg', hgi', hgd'⟩ := insert_token hc he' hd'
  rw [hb, hb'] at hhash
  obtain rfl := eq_of_nodup htokens hg hg' hgd (by rw [hgd', eq_tokenOf hsha hhash])
  exact insert_eq_of_thread hc he he' hd hd' (hgi.symm.trans hgi')

/-- A row that a request has found was inserted before, and not revoked until then. -/
theorem granted_of_found (hc : (api P).Reachable w₀ c) (h₀ : w₀.sessions = [])
    {pre post : List ApiEvent} (htr : c.trace = pre ++ post) {i : ℕ} {hash : JsString} {s : Session}
    {u : User} (h : (⟨.sessionFindUnique hash, .ok (some (s, u))⟩ : Answered) ∈ own i pre) :
    ∃ p f q, pre = p ++ f :: q ∧ f.thread = i ∧
      f.action = .perform (.sessionFindUnique hash) (.answered (.ok (some (s, u)))) ∧
      s.tokenHash = hash ∧ u.id = s.userId ∧ Granted s.data p := by
  obtain ⟨f, hf, hfi, hfa⟩ := Interaction.mem_own_ok.mp h
  obtain ⟨p, q, rfl⟩ := List.append_of_mem hf
  have htr' : c.trace = p ++ f :: (q ++ post) := by simp [htr]
  obtain ⟨hs, hhash, -, hu⟩ := lookup_spec (hc.effects p f _ htr') hfa rfl
  exact ⟨p, f, q, rfl, hfi, hfa, hhash, hu,
    ((traced hc h₀).2 p f _ htr').granted s.data (List.mem_map_of_mem hs)⟩

/-- A token is not revoked before its row is inserted: a request that revokes a token has found the
row. -/
theorem not_revokes_before (hsha : Function.Injective P.sha256) (hc : (api P).Reachable w₀ c)
    (h₀ : w₀.sessions = []) (htokens : (c.trace.filterMap generatedToken?).Nodup)
    {pre post : List ApiEvent} {e : ApiEvent} (htr : c.trace = pre ++ e :: post) {d : SessionData}
    (hd : Inserts d e) : ∀ e' ∈ pre, ¬Revokes d.tokenHash e' := by
  intro e' he' hrev
  obtain ⟨p, q, rfl⟩ := List.append_of_mem he'
  have htr' : c.trace = p ++ e' :: (q ++ e :: post) := by simp [htr]
  obtain ⟨n, hn⟩ := hrev.done
  obtain ⟨⟨s, u, hfound⟩, -⟩ := (orderly hc).performed htr' hn fun _ h ↦ h
  obtain ⟨p₁, f, q₁, rfl, -, -, hhash, -, p₂, e₂, q₂, rfl, hins, -⟩ :=
    granted_of_found hc h₀ htr' hfound
  have heq : e₂ = e :=
    insert_eq_of_hash hsha hc htokens (by simp [htr]) (by simp [htr]) hins hd hhash
  exact thread_ne_of_inserts hc htr hd (by simp) hins (by rw [heq])

/-! ### The login behind a session -/

/-- The value is a string. -/
def isString : Json → Bool
  | .str _ => true
  | _ => false

/-- The cookies of a request are strings. -/
def StringCookies (r : Request) : Prop := ∀ p ∈ r.cookies, isString p.2

instance (r : Request) : Decidable (StringCookies r) :=
  inferInstanceAs (Decidable (∀ p ∈ r.cookies, _))

theorem StringCookies.cookie {r : Request} (h : StringCookies r) {name : JsString} {value : Json}
    (hvalue : r.cookie name = some value) : ∃ s, value = .str s := by
  obtain ⟨before, after, hcookies, -⟩ := List.lookup_eq_some_iff.mp hvalue
  have hstring : isString value := h (name, value) (by simp [hcookies])
  cases value with
  | str s => exact ⟨s, rfl⟩
  | _ => simp [isString] at hstring

/-- The session token with which a request comes in. -/
def presented? (e : ApiEvent) : Option JsString :=
  match e.action, e.call.cookie SESSION_COOKIE with
  | .start, some (.str token) => some token
  | _, _ => none

/-- A response hands out the session token. -/
def handsOut (token : JsString) (e : ApiEvent) : Bool :=
  match e.returned with
  | some response => response.cookies.any fun cookie ↦
      cookie.name = SESSION_COOKIE && cookie.value = token
  | none => false

/-- Nobody guesses: a request that presents a token that the API generates comes in after a response
has handed the token out. -/
def Unguessed (tr : List ApiEvent) : Prop :=
  Throughout (fun pre e ↦ ∀ token ∈ presented? e, token ∈ tr.filterMap generatedToken? →
    ∃ f ∈ pre, handsOut token f) tr

instance (tr : List ApiEvent) : Decidable (Unguessed tr) :=
  inferInstanceAs (Decidable (Throughout _ tr))

/-- `e`, coming after `pre`, inserts the session of the token, at the end of a login: the limiter
counted the attempt up to an admitted value, it was for the stored email of the user and with the
user's password, and its audit event is in the table. -/
structure LoginOf (P : Platform) (w₀ : World) (pre : List ApiEvent) (e : ApiEvent) (body : LoginDto)
    (token userId : JsString) : Prop where
  requested : Requested P e.call body
  counted : ∃ count ≤ MAX_ATTEMPTS,
    (⟨.incr (RateLimitService.loginKey (AuthController.identifier e.call body.email)), .ok count⟩ :
      Answered) ∈ own e.thread pre
  verified : ∃ user ∈ w₀.users, user.id = userId ∧ user.email = body.email ∧
    P.verifyPassword user.passwordHash body.password = .ok true
  audited : ∃ id, ∃ f ∈ pre, f.thread = e.thread ∧
    f.done = some ⟨.auditEventCreate (AuthService.loginEvent id userId), .ok ()⟩
  inserted : ∃ d, Inserts d e ∧ d.userId = userId ∧ d.tokenHash = SessionService.tokenHash P token

/-- The row of `d` was inserted by a request that had committed the audit event `a`. -/
def TracesBack (tr : List ApiEvent) (d : SessionData) (a : AuditEvent) : Prop :=
  ∃ pre e post, tr = pre ++ e :: post ∧ Inserts d e ∧
    ∃ f ∈ pre, f.thread = e.thread ∧ f.done = some ⟨.auditEventCreate a, .ok ()⟩

theorem done_of_mem_own {i : ℕ} {tr : List ApiEvent} {o : Op} {v : o.Val}
    (h : (⟨o, .ok v⟩ : Answered) ∈ own i tr) :
    ∃ f ∈ tr, f.thread = i ∧ f.done = some ⟨o, .ok v⟩ := by
  obtain ⟨f, hf, hfi, ha⟩ := Interaction.mem_own_ok.mp h
  exact ⟨f, hf, hfi, by rw [Interaction.Event.done, ha]; rfl⟩

theorem user_of_found (hc : (api P).Reachable w₀ c) {pre post : List ApiEvent}
    (htr : c.trace = pre ++ post) {i : ℕ} {email : JsString} {user : User}
    (h : (⟨.userFindUnique email, .ok (some user)⟩ : Answered) ∈ own i pre) :
    ∃ user₀ ∈ w₀.users, user₀.id = user.id ∧ user₀.email = email ∧
      user₀.passwordHash = user.passwordHash := by
  obtain ⟨f, hf, -, hdone⟩ := done_of_mem_own h
  obtain ⟨p, q, rfl⟩ := List.append_of_mem hf
  have htr' : c.trace = p ++ f :: (q ++ post) := by simp [htr]
  obtain ⟨y, hy⟩ := (hc.effects p f _ htr').exec hdone
  obtain ⟨-, hfind⟩ := Prod.mk.inj (Option.some_inj.mp hy)
  have hfind : f.before.users.find? (·.email = email) = some user := Except.ok.inj hfind
  have hmem : user.account ∈ w₀.users.map User.account :=
    accounts_eq hc htr' ▸ List.mem_map_of_mem (List.mem_of_find?_eq_some hfind)
  obtain ⟨user₀, hmem₀, haccount⟩ := List.mem_map.mp hmem
  have hemail : user.email = email := by simpa using List.find?_some hfind
  simp only [User.account, User.mk.injEq] at haccount
  exact ⟨user₀, hmem₀, haccount.1, haccount.2.1.trans hemail, haccount.2.2.1⟩

theorem verify_of_mem_own (hc : (api P).Reachable w₀ c) {pre post : List ApiEvent}
    (htr : c.trace = pre ++ post) {i : ℕ} {hash : PasswordHash} {password : JsString}
    (h : (⟨.argon2Verify hash password, .ok true⟩ : Answered) ∈ own i pre) :
    P.verifyPassword hash password = .ok true := by
  obtain ⟨f, hf, -, hdone⟩ := done_of_mem_own h
  obtain ⟨p, q, rfl⟩ := List.append_of_mem hf
  obtain ⟨y, hy⟩ := (hc.effects p f (q ++ post) (by simp [htr])).exec hdone
  exact (Prod.mk.inj (Option.some_inj.mp hy)).2

/-- **Every insert is the end of a login.** -/
theorem loginOf_of_inserts (hc : (api P).Reachable w₀ c) {pre post : List ApiEvent} {e : ApiEvent}
    (htr : c.trace = pre ++ e :: post) {d : SessionData} (hd : Inserts d e) :
    ∃ body b n, LoginOf P w₀ pre e body (tokenOf b) d.userId ∧
      (∃ g ∈ pre, g.thread = e.thread ∧ generatedToken? g = some (tokenOf b)) ∧
      d.expiresAt = n + SESSION_TTL_MS ∧ n ≤ e.before.clock := by
  obtain ⟨⟨-, body, user, b, n, b', hreq, hlogin, hb, hn, rfl⟩, -⟩ := insert_history hc htr hd
  obtain ⟨g, hg, hgi, hgb⟩ := drawn?_of_mem_own hb
  obtain ⟨user₀, hmem₀, hid, hemail, hhash⟩ := user_of_found hc htr hlogin.found
  obtain ⟨id, haudited⟩ := hlogin.audited
  refine ⟨body, b, n, ⟨hreq, hlogin.counted, ⟨user₀, hmem₀, hid, hemail, ?_⟩,
    ⟨id, done_of_mem_own haudited⟩, _, hd, rfl, rfl⟩,
    ⟨g, hg, hgi, by rw [generatedToken?, hgb]; rfl⟩, rfl, now_le hc htr hn⟩
  rw [hhash]
  exact verify_of_mem_own hc htr hlogin.verified

/-! ### The token and the request that presents it -/

theorem generated_of_handsOut (hc : (api P).Reachable w₀ c) {f : ApiEvent} (hf : f ∈ c.trace)
    {token : JsString} (h : handsOut token f) (hne : token ≠ []) :
    ∃ g ∈ c.trace, g.thread = f.thread ∧ generatedToken? g = some token := by
  rw [handsOut] at h
  split at h
  swap
  · simp at h
  next response hret =>
  obtain ⟨cookie, hcookie, h⟩ := List.any_eq_true.mp h
  rw [Bool.and_eq_true, decide_eq_true_eq, decide_eq_true_eq] at h
  obtain ⟨hname, rfl⟩ := h
  obtain ⟨pre, post, htr⟩ := List.append_of_mem hf
  have hends := (orderly hc).trace pre f post htr
  rw [Interaction.System.Disciplined, Interaction.Event.action_of_returned hret] at hends
  obtain ⟨b, hb, hvalue⟩ := hends cookie hcookie hname hne
  obtain ⟨g, hg, hgi, hgb⟩ := drawn?_of_mem_own hb
  exact ⟨g, by simp [htr, hg], hgi, by rw [generatedToken?, hgb, hvalue]; rfl⟩

theorem headerValue_latin1 {r : Request} {x : JsString} (h : CsrfGuard.headerValue r = some x) :
    ∀ u ∈ x, u.toNat < 0x100 := by
  rw [CsrfGuard.headerValue] at h
  split at h
  · simp at h
  · next value _ =>
    obtain rfl := Option.some_inj.mp h
    exact value.latin1
  · next values _ =>
    rw [List.head?_map, Option.map_eq_some_iff] at h
    obtain ⟨value, -, rfl⟩ := h
    exact value.latin1

theorem tokensEqual_str (x header : JsString) : CsrfGuard.tokensEqual P (.str x) header =
    .ok (JsString.utf8 x == JsString.utf8 header) := safeEquals_ok x header

theorem csrf_of_canActivate {route : Route} {r : Request}
    (h : CsrfGuard.canActivate P route r = .ok ()) (hpublic : route.isPublic = false)
    (hstrings : StringCookies r) : r.method ∈ CsrfGuard.SAFE_METHODS ∨ ∃ x ≠ [],
      r.cookie CsrfGuard.CSRF_COOKIE = some (.str x) ∧ CsrfGuard.headerValue r = some x := by
  rw [CsrfGuard.canActivate] at h
  split at h
  · next hsafe => exact Or.inl hsafe
  rw [hpublic, if_neg Bool.false_ne_true, CsrfGuard.check] at h
  split at h
  swap
  · simp at h
  next cookie header hcookie hheader =>
  obtain ⟨hcookie, htruthy⟩ := Option.filter_eq_some_iff.mp hcookie
  obtain ⟨hheader, hne⟩ := Option.filter_eq_some_iff.mp hheader
  obtain ⟨x, rfl⟩ := hstrings.cookie hcookie
  rw [tokensEqual_str] at h
  split at h
  · next heq =>
    have heq : JsString.utf8 x = JsString.utf8 header := by simpa using heq
    obtain rfl := JsString.eq_of_utf8_eq (JsString.plain_of_lt (headerValue_latin1 hheader)) heq
    exact Or.inr ⟨x, by simpa using hne, hcookie, hheader⟩
  · simp at h
  · simp at h

theorem start_of_mem (hc : (api P).Reachable w₀ c) {pre post : List ApiEvent} {e : ApiEvent}
    (htr : c.trace = pre ++ e :: post) : ∃ p start q, c.trace = p ++ start :: q ∧ p <+: pre ∧
      start.call = e.call ∧ start.action = .start := by
  obtain ⟨code, hcode⟩ := (orderly hc).thread e (by simp [htr])
  obtain ⟨start, hstart, hthread, hcall, ha⟩ := (orderly hc).started _ _ hcode
  obtain ⟨p, q, htr'⟩ := List.append_of_mem hstart
  have hfirst := (orderly hc).trace p start q htr'
  rw [Interaction.System.Disciplined, ha, hthread] at hfirst
  rcases Interaction.mem_or_prefix htr' htr with hmem | hpre
  · exact absurd rfl (hfirst e hmem)
  · exact ⟨p, start, q, htr', hpre, hcall, ha⟩

/-- A token that a request presents, and that a login generated, was handed out by that login before
the request looked it up. -/
theorem handed_out (hc : (api P).Reachable w₀ c)
    (htokens : (c.trace.filterMap generatedToken?).Nodup) (hunguessed : Unguessed c.trace)
    {pre post : List ApiEvent} {e : ApiEvent} (htr : c.trace = pre ++ e :: post) {token : JsString}
    (hcookie : e.call.cookie SESSION_COOKIE = some (.str token)) (hne : token ≠ []) {g : ApiEvent}
    (hg : g ∈ c.trace) (hgd : generatedToken? g = some token) :
    ∃ f ∈ pre, f.thread = g.thread ∧ handsOut token f := by
  obtain ⟨p, start, q, htr', hpre, hcall, ha⟩ := start_of_mem hc htr
  have hpresented : presented? start = some token := by rw [presented?, ha, hcall, hcookie]
  obtain ⟨f, hf, hout⟩ := hunguessed p start q htr' token hpresented
    (List.mem_filterMap.mpr ⟨g, hg, hgd⟩)
  obtain ⟨g', hg', hgi', hgd'⟩ := generated_of_handsOut hc (by simp [htr', hf]) hout hne
  obtain rfl := eq_of_nodup htokens hg hg' hgd hgd'
  exact ⟨f, hpre.subset hf, hgi'.symm, hout⟩

/-- **No action without a login.** In every run in which no token is generated twice or guessed:
when the handler of a route that is not public starts, it starts with a session, and the request
presents a token that its guard has looked up; before that a login for the user of the session has
inserted the token's row and handed the token out, less than twelve hours before the time the guard
compared; nobody has revoked the token before the lookup; and a request that may change something
has shown the same CSRF token twice. Every row goes back to the audit event of a login, and distinct
rows to distinct ones. -/
theorem no_action_without_login (P : Platform) (hsha : Function.Injective P.sha256) (w₀ : World)
    (h₀ : w₀.sessions = []) (c : Config Op Op.Val Exn Request Response World)
    (hc : (api P).Reachable w₀ c) (htokens : (c.trace.filterMap generatedToken?).Nodup)
    (hunguessed : Unguessed c.trace) (hstrings : ∀ e ∈ c.trace, StringCookies e.call) :
    (∀ pre e post route session r, c.trace = pre ++ e :: post →
        e.action = .perform (.handle route session) r → route.isPublic = false →
        ∃ context token, session = some context ∧
          e.call.cookie SESSION_COOKIE = some (.str token) ∧
          (∃ p lookup q, pre = p ++ lookup :: q ∧ lookup.thread = e.thread ∧
            (∃ found, lookup.action =
              .perform (.sessionFindUnique (SessionService.tokenHash P token))
                (.answered (.ok (some found)))) ∧
            (∀ e' ∈ p, ¬Revokes (SessionService.tokenHash P token) e') ∧
            ∃ p' login q' body, p = p' ++ login :: q' ∧
              LoginOf P w₀ p' login body token context.userId ∧
              (∃ f ∈ p, f.thread = login.thread ∧ handsOut token f) ∧
              ∃ n, firstClock (own e.thread pre) = some n ∧
                n < login.before.clock + SESSION_TTL_MS) ∧
          (e.call.method ∈ CsrfGuard.SAFE_METHODS ∨ ∃ x ≠ [],
            e.call.cookie CsrfGuard.CSRF_COOKIE = some (.str x) ∧
              CsrfGuard.headerValue e.call = some x)) ∧
      (∀ d, (∃ e ∈ c.trace, Inserts d e) →
        ∃ id, TracesBack c.trace d (AuthService.loginEvent id d.userId)) ∧
      ∀ d d' a a', TracesBack c.trace d a → TracesBack c.trace d' a' → d ≠ d' → a.id ≠ a'.id := by
  refine ⟨fun pre e post route session r htr ha hpublic ↦ ?_, fun d ⟨e, he, hd⟩ ↦ ?_,
    fun d d' a a' h h' hne hid ↦ hne ?_⟩
  · have hpassed := (orderly hc).trace pre e post htr
    rw [Interaction.System.Disciplined, ha] at hpassed
    obtain ⟨token, s, u, n, n', hcookie, hne, hown, hlt, hsession, hcsrf⟩ := hpassed hpublic
    refine ⟨_, token, hsession, hcookie, ?_,
      csrf_of_canActivate hcsrf hpublic (hstrings e (by simp [htr]))⟩
    have hfound : (⟨.sessionFindUnique (SessionService.tokenHash P token), .ok (some (s, u))⟩ :
        Answered) ∈ own e.thread pre := by simp [hown]
    obtain ⟨p, lookup, q, rfl, hthread, haction, hhash, -, p', login, q', rfl, hins, hrevokes⟩ :=
      granted_of_found hc h₀ htr hfound
    have htr' : c.trace = p' ++ login :: (q' ++ lookup :: (q ++ e :: post)) := by simp [htr]
    have hdata : s.data.tokenHash = SessionService.tokenHash P token := hhash
    obtain ⟨body, b, n₁, hlogin, ⟨g, hg, hgi, hgd⟩, hexpires, hn₁⟩ :=
      loginOf_of_inserts hc htr' hins
    obtain ⟨d, hd, -, hdhash⟩ := hlogin.inserted
    obtain rfl := Option.some_inj.mp (hd.symm.trans hins)
    obtain rfl : token = tokenOf b := eq_tokenOf hsha (hdata.symm.trans hdhash)
    refine ⟨_, lookup, q, rfl, hthread, ⟨_, haction⟩, fun e' he' ↦ ?_, p', login, q', body, rfl,
      hlogin, ?_, n, ?_, ?_⟩
    · rw [← hdata]
      rcases List.mem_append.mp he' with he' | he'
      · exact not_revokes_before hsha hc h₀ htokens htr' hins e' he'
      · rcases List.mem_cons.mp he' with rfl | he'
        · exact hins.not_revokes
        · exact hrevokes e' he'
    · have hlookup : c.trace = (p' ++ login :: q') ++ lookup :: (q ++ e :: post) := by simp [htr]
      have hcall : lookup.call = e.call :=
        (orderly hc).call_eq (by simp [htr]) (by simp [htr]) hthread
      rw [← hgi]
      exact handed_out hc htokens hunguessed hlookup (hcall ▸ hcookie) hne (by simp [htr, hg]) hgd
    · rw [hown]
      rfl
    · calc n < s.expiresAt := hlt
        _ = n₁ + SESSION_TTL_MS := hexpires
        _ ≤ login.before.clock + SESSION_TTL_MS := by omega
  · obtain ⟨pre, post, htr⟩ := List.append_of_mem he
    obtain ⟨body, b, n, hlogin, -⟩ := loginOf_of_inserts hc htr hd
    obtain ⟨id, haudited⟩ := hlogin.audited
    exact ⟨id, pre, e, post, htr, hd, haudited⟩
  · obtain ⟨pre, e, post, htr, hd, f, hf, hfe, hfa⟩ := h
    obtain ⟨pre', e', post', htr', hd', f', hf', hfe', hfa'⟩ := h'
    have hmem : f ∈ c.trace := by simp [htr, hf]
    have hmem' : f' ∈ c.trace := by simp [htr', hf']
    obtain rfl : f = f' := eq_of_nodup (auditIds_nodup hc) hmem hmem' (by rw [auditId?, hfa])
      (by rw [auditId?, hfa', hid])
    obtain rfl :=
      insert_eq_of_thread hc (by simp [htr]) (by simp [htr']) hd hd' (hfe.symm.trans hfe')
    exact Option.some_inj.mp (hd.symm.trans hd')

end Trace

/-! A user logs in and logs out. -/

/-- The CSRF token of the run, as a header. -/
def sampleCsrf : HeaderText := ⟨tokenOf (.replicate 24 2), Base64.encode_lt _ _⟩

/-- The logout that presents the token of the run. -/
def logoutRequest : Request where
  method := lit "POST"
  url := lit "/api/v1/auth/logout"
  cookies := [(SESSION_COOKIE, .str (sampleToken 0)), (CsrfGuard.CSRF_COOKIE, .str sampleCsrf.text)]
  csrfHeader := some (.one sampleCsrf)
  userAgent := none
  ip := some (lit "203.0.113.7")
  body := .parsed none

/-- The administrator logs in as thread 0, and logs out as thread 1. -/
def loginLogout : Config Op Op.Val Exn Request Response World :=
  (api samplePlatform).run
    ([.start 0 (loginRequest (lit "admin@example.com") (lit "correct horse")), .tick 3] ++
      .replicate 7 (.next 0 [] .none) ++ [.next 0 (.replicate 22 1) .none, .next 0 [] .none,
        .next 0 [] .none, .next 0 [] .none, .next 0 (.replicate 32 0) .none, .next 0 [] .none,
        .next 0 (.replicate 22 0) .none, .next 0 [] .none, .next 0 (.replicate 24 2) .none,
        .next 0 [] .none, .tick 60000, .start 1 logoutRequest] ++
      .replicate 7 (.next 1 [] .none)) sampleWorld

theorem no_action_without_login_logout : ∃ pre login body,
    LoginOf samplePlatform sampleWorld pre login body (sampleToken 0) (lit "usr_admin") := by
  have hlogout := (no_action_without_login samplePlatform sampleSha256_injective sampleWorld rfl
    loginLogout (Interaction.System.reachable_run ..) (by decide +kernel) (by decide +kernel)
    (by decide +kernel)).1 (loginLogout.trace.take 22) _ (loginLogout.trace.drop 23) .logout
    (some ⟨idOf (lit "ses") (.replicate 22 0), lit "usr_admin", lit "admin@example.com", true⟩)
    (.answered (.ok ())) rfl rfl rfl
  obtain ⟨context, token, hcontext, hcookie, ⟨p, lookup, q, -, -, -, -, p', login, q', body, -,
    hlogin, -⟩, -⟩ := hlogout
  obtain rfl := Option.some_inj.mp hcontext
  obtain rfl : sampleToken 0 = token := Json.str.inj (Option.some_inj.mp hcookie)
  exact ⟨p', login, body, hlogin⟩

end Authentication

end NativeKiln
