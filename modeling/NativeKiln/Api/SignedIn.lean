import NativeKiln.Api.Answers
import NativeKiln.Api.Identifiers

/-!
# What a login is good for

The other modules say what has gone before when the API does something for a request. This one goes
the other way: a client that was answered 201 sends the two cookies back, through the cookie parser,
and shows the CSRF token in a header; and for as long as its session cookie says, unless the session
is revoked, this gets it past both guards, whatever other requests do in the meantime
(`login_lasts`).

Two things have to be seen for this. The tokens go through the parser as they are: they have no
colon, so that none of them is taken for JSON (`delivered_tokenOf`). And neither of them is empty,
as an empty cookie counts as none: what was drawn has the length that was asked for (`Echoed`).
-/

namespace NativeKiln.SignedIn

open JsString (lit)
open Interaction (Config Throughout own)
open Interaction.Program (obeys_bind obeys_pure obeys_perform obeys_ofReply obeys_tryCatch)
open Answers (Says Served Refused Explained NoSession Plain headed says_of_obeys)
open Authentication (Requested)

/-! ## The client -/

theorem delivered_tokenOf (parse : JsString → Option Json) (b : Bytes) :
    CookieParser.delivered parse (tokenOf b) = .str (tokenOf b) := by
  refine delivered_of_not_parsed (if_neg fun h ↦ ?_)
  have hcolon : (58 : UInt16) ∈ tokenOf b := h.subset (by decide)
  exact absurd (Identifiers.isWordUnit_of_mem_tokenOf hcolon) (by decide)

theorem tokenOf_ne_nil {b : Bytes} (h : b ≠ []) : tokenOf b ≠ [] :=
  fun hnil ↦ h (Identifiers.tokenOf_injective hnil)

/-- The request is one of the client that has been given an answer: it comes with the cookies that
the answer has set, and, if it may change something, with the CSRF token in its header. -/
def Carries (parse : JsString → Option Json) (answer : Response) (r : Request) : Prop :=
  ∃ (r₀ : Request) (decoded : List (JsString × JsString)), r = r₀.withCookies parse decoded ∧
    (∀ cookie ∈ answer.cookies, decoded.lookup cookie.name = some cookie.value) ∧
    (r.Mutating → ∀ cookie ∈ answer.cookies, cookie.name = CsrfGuard.CSRF_COOKIE →
      CsrfGuard.headerValue r = some cookie.value)

theorem Carries.cookie {parse : JsString → Option Json} {answer : Response} {r : Request}
    (h : Carries parse answer r) {cookie : SetCookie} (hcookie : cookie ∈ answer.cookies)
    {b : Bytes} (hvalue : cookie.value = tokenOf b) :
    r.cookie cookie.name = some (.str (tokenOf b)) := by
  obtain ⟨r₀, decoded, rfl, hlookup, -⟩ := h
  rw [cookie_withCookies, hlookup cookie hcookie, hvalue, Option.map_some, delivered_tokenOf]

/-! ## Tokens are drawn -/

section Drawn

variable {P : Platform} {r : Request} {past : List Answered}

/-- A cookie that is set for some time has a token that the request has drawn. -/
def Echoed (past : List Answered) : Except Exn Response → Prop
  | .ok response => ∀ cookie ∈ response.cookies, cookie.maxAge.isSome →
      ∃ x, (⟨.randomBytes 24, .ok x⟩ : Answered) ∈ past ∧ cookie.value = tokenOf x
  | .error _ => True

theorem echoed_bind {α : Type} {p : Api α} {f : α → Api Response}
    (hf : ∀ a past', Says (f a) Echoed past') : Says (p >>= f) Echoed past := by
  have hp : Says p (fun _ _ ↦ True) past := by
    induction p generalizing past with
    | pure _ | throw _ => trivial
    | perform o k ih => exact ⟨trivial, fun reply ↦ ih reply⟩
    | detach o k ih => exact ⟨trivial, ih⟩
  exact hp.bind (fun past' a _ ↦ hf a past') fun _ _ _ ↦ trivial

theorem echoed_of_plain {response : Response} (h : ∀ cookie ∈ response.cookies,
    cookie.maxAge = none) : Echoed past (.ok response) := by
  intro cookie hcookie hage
  simp [h cookie hcookie] at hage

theorem echoed_login (body : LoginDto) : Says (AuthController.login P body r) Echoed past := by
  refine echoed_bind fun _ _ ↦ echoed_bind fun _ _ ↦ echoed_bind fun _ _ ↦ echoed_bind fun _ _ ↦ ?_
  simp [generateSecretToken, Echoed]

theorem echoed_handler (route : Route) (value : Option Json) (session : Option SessionContext) :
    Says (handler P route value r session) Echoed past := by
  cases route with
  | login => exact echoed_bind fun body _ ↦ echoed_bind fun _ _ ↦ echoed_login body
  | logout =>
    refine echoed_bind fun _ _ ↦ ?_
    have hends : ∀ past', Echoed past' (.ok ⟨201, [clearCookie SESSION_COOKIE,
        clearCookie CsrfGuard.CSRF_COOKIE], some (.obj [(lit "ok", .bool true)])⟩) :=
      fun past' ↦ echoed_of_plain (by simp [clearCookie])
    rw [AuthController.logout]
    split
    · exact echoed_bind fun _ past' ↦ hends past'
    · exact hends _
  | me =>
    refine echoed_bind fun _ past' ↦ ?_
    cases session with
    | none => trivial
    | some session => exact echoed_of_plain (by simp [Response.json])
  | liveness => exact echoed_bind fun _ _ ↦ echoed_of_plain (by simp [HealthController.liveness,
      Response.json])
  | readiness =>
    refine echoed_bind fun _ _ ↦ echoed_bind fun _ _ ↦ echoed_bind fun _ _ ↦ echoed_bind
      fun _ _ ↦ ?_
    exact echoed_of_plain (by simp [HealthController.report, Response.json])

/-- **Every request keeps to it.** -/
theorem echoed_serve (r : Request) : Says (serve P r) Echoed [] := by
  have hhandle : ∀ route value, Says (handle P route value r) Echoed [] := fun route value ↦
    echoed_bind fun session _ ↦ echoed_bind fun _ _ ↦ echoed_handler route value session
  refine serve_obeys_of_dispatch (dispatch_obeys (fun _ ↦ trivial) fun route value _ _ ↦
    hhandle route value) (echoed_of_plain (by simp)) (fun past e _ ↦ echoed_of_plain ?_)
    fun past response h ↦ h
  simp [Authentication.cookies_handle]

end Drawn

/-! ## What a login hands out -/

section Trace

variable {P : Platform} {w₀ : World} {c : Config Op Op.Val Exn Request Response World}
  {pre post : List ApiEvent} {f g : ApiEvent} {welcome answer : Response}
  {parse : JsString → Option Json} {d : SessionData}

theorem ne_nil_of_drawn (hc : (api P).Reachable w₀ c) (htr : c.trace = pre ++ post) {i n : ℕ}
    {x : Bytes} (h : (⟨.randomBytes n, .ok x⟩ : Answered) ∈ own i pre) (hn : 0 < n) : x ≠ [] := by
  obtain ⟨e, he, -, hdone⟩ := Authentication.done_of_mem_own h
  obtain ⟨p, q, rfl⟩ := List.append_of_mem he
  obtain ⟨y, hy⟩ := (hc.effects p e (q ++ post) (by simp [htr])).exec hdone
  change World.exec P y e.before (.randomBytes n) = some (e.after, .ok x) at hy
  rw [World.exec] at hy
  split at hy
  · next hlength =>
    obtain rfl : y = x := Except.ok.inj (Prod.mk.inj (Option.some_inj.mp hy)).2
    rintro rfl
    exact absurd hlength (Nat.ne_of_lt hn)
  · simp at hy

/-- What a login that was answered with `welcome` has left behind and handed out: the row of `d`,
for the user whose credentials it was, and a cookie with each of the tokens. -/
structure Welcomed (P : Platform) (w₀ : World) (pre : List ApiEvent) (f : ApiEvent)
    (welcome : Response) (d : SessionData) (body : LoginDto) (user : User) : Prop where
  requested : Requested P f.call body
  user : user ∈ w₀.users ∧ user.id = d.userId ∧ user.email = body.email
  inserted : ∃ e ∈ pre, Inserts d e
  session : ∃ b ≠ [], d.tokenHash = SessionService.tokenHash P (tokenOf b) ∧
    ∃ cookie ∈ welcome.cookies, cookie.name = SESSION_COOKIE ∧ cookie.value = tokenOf b ∧
      cookie.expires = some d.expiresAt
  csrf : ∃ x ≠ [], ∃ cookie ∈ welcome.cookies, cookie.name = CsrfGuard.CSRF_COOKIE ∧
    cookie.value = tokenOf x

theorem headed_cookies (r : Request) (response : Response) :
    (headed r response).cookies = response.cookies := by
  rw [headed]
  split <;> rfl

/-- **What is behind a login that is answered 201.** -/
theorem exists_welcomed (hsha : Function.Injective P.sha256) (hc : (api P).Reachable w₀ c)
    (htr : c.trace = pre ++ f :: post) (hret : f.returned = some welcome)
    (hroute : f.call.route? = some .login) (hstatus : welcome.status = 201) :
    ∃ d body user, Welcomed P w₀ pre f welcome d body user := by
  have hnot : ∀ route, f.call.route? = some route → route = .login :=
    fun route h ↦ Option.some_inj.mp (h.symm.trans hroute)
  rcases Answers.served_or_reason hc htr hret hroute with ⟨response, hserved, rfl, -⟩ | ⟨-, hle⟩
  swap
  · omega
  cases hserved with
  | logout h | me h | liveness h | readiness h => exact absurd (hnot _ h) (by decide)
  | login body hreq user hlogin b n b' x hrow =>
    obtain ⟨e, he, hthread, hdone⟩ := Authentication.done_of_mem_own hrow
    obtain ⟨p, q, rfl⟩ := List.append_of_mem he
    have hins : Inserts (rowOf P user.id (Authentication.info f.call) b n b') e := by
      rw [Inserts, inserted?, hdone]
    have htr' : c.trace = p ++ e :: (q ++ f :: post) := by simp [htr]
    obtain ⟨user₀, hmem₀, hid, hemail, -⟩ := Authentication.user_of_found hc htr hlogin.found
    -- the bytes of the token were drawn: nothing else has its hash
    obtain ⟨⟨-, _, _, b₁, _, _, -, -, hdrawn, -, hrow₁⟩, -⟩ :=
      Authentication.insert_history hc htr' hins
    obtain rfl : b = b₁ := Identifiers.tokenOf_injective
      (eq_tokenOf hsha (congrArg SessionData.tokenHash hrow₁))
    -- so were those of the CSRF token
    have hechoed := (hc.orderly echoed_serve).trace (p ++ e :: q) f post htr
    rw [Interaction.System.Disciplined, Interaction.Event.action_of_returned hret] at hechoed
    have hset : ∀ cookie ∈ (loginResponse P body ⟨tokenOf b, n + SESSION_TTL_MS⟩
        (tokenOf x)).cookies, cookie ∈ (headed f.call (loginResponse P body
          ⟨tokenOf b, n + SESSION_TTL_MS⟩ (tokenOf x))).cookies :=
      fun cookie h ↦ by rwa [headed_cookies]
    have hsession := hset _ List.mem_cons_self
    have hcsrf := hset _ (List.mem_cons_of_mem _ List.mem_cons_self)
    obtain ⟨x', hx', hvalue⟩ := hechoed _ hcsrf rfl
    obtain rfl : x = x' := Identifiers.tokenOf_injective hvalue
    refine ⟨_, body, user₀, hreq, ⟨hmem₀, hid, hemail⟩, ⟨e, by simp, hins⟩,
      ⟨b, ?_, rfl, _, hsession, rfl, rfl, rfl⟩, ⟨x, ?_, _, hcsrf, rfl, rfl⟩⟩
    · exact ne_nil_of_drawn hc htr' hdrawn (by decide)
    · exact ne_nil_of_drawn hc htr hx' (by decide)

/-! ## What a client is told -/

section Client

variable {body : LoginDto} {user : User} {r : Request} {route : Route}

theorem Welcomed.presents (h : Welcomed P w₀ pre f welcome d body user)
    (hcarries : Carries parse welcome r) : ∃ token ≠ [],
      d.tokenHash = SessionService.tokenHash P token ∧ r.cookie SESSION_COOKIE = some (.str token) ∧
        ∃ cookie ∈ welcome.cookies, cookie.name = SESSION_COOKIE ∧ cookie.value = token ∧
          cookie.expires = some d.expiresAt := by
  obtain ⟨b, hb, hhash, cookie, hcookie, hname, hvalue, hexpires⟩ := h.session
  refine ⟨tokenOf b, tokenOf_ne_nil hb, hhash, ?_, cookie, hcookie, hname, hvalue, hexpires⟩
  rw [← hname]
  exact hcarries.cookie hcookie hvalue

theorem Welcomed.sessionToken (h : Welcomed P w₀ pre f welcome d body user)
    (hcarries : Carries parse welcome r) : ∃ token, r.sessionToken = some (.str token) ∧
      d.tokenHash = SessionService.tokenHash P token := by
  obtain ⟨token, hne, hhash, hcookie, -⟩ := h.presents hcarries
  refine ⟨token, ?_, hhash⟩
  rw [Request.sessionToken, hcookie]
  simp [Json.truthy, hne]

theorem Welcomed.passes (h : Welcomed P w₀ pre f welcome d body user)
    (hcarries : Carries parse welcome r) (hpublic : route.isPublic = false) :
    CsrfGuard.canActivate P route r = .ok () := by
  by_cases hmutating : r.Mutating
  swap
  · rw [CsrfGuard.canActivate, if_pos (not_not.mp hmutating)]
  obtain ⟨x, hx, cookie, hcookie, hname, hvalue⟩ := h.csrf
  have hshown := hcarries.cookie hcookie hvalue
  obtain ⟨-, -, -, -, hheader⟩ := hcarries
  rw [hname] at hshown
  refine (csrfGuard_passes_iff hpublic hmutating).mpr ⟨.str (tokenOf x), tokenOf x,
    ⟨hmutating, hshown, ?_, ?_, tokenOf_ne_nil hx⟩, rfl⟩
  · simp [Json.truthy, tokenOf_ne_nil hx]
  · rw [hheader hmutating cookie hcookie hname, hvalue]

/-- The session is there, or it was revoked, or its time is up. -/
theorem revoked_or_expired (hc : (api P).Reachable w₀ c) (h₀ : w₀.sessions = [])
    (hids : (c.trace.filterMap generatedId?).Nodup) {mid : List ApiEvent}
    (htr : c.trace = (pre ++ f :: mid) ++ g :: post) (h : Welcomed P w₀ pre f welcome d body user)
    (hcarries : Carries parse welcome g.call) (hlater : ∀ e ∈ pre, e.thread ≠ g.thread)
    (hnone : NoSession P g.call (own g.thread (pre ++ f :: mid))) :
    (∃ e ∈ pre ++ f :: mid, Revokes d.tokenHash e) ∨ d.expiresAt ≤ g.before.clock := by
  obtain ⟨token, htoken, hhash⟩ := h.sessionToken hcarries
  rcases Answers.expired_of_noSession hc h₀ hids htr hnone with
    hanonymous | ⟨token', htoken', p, lookup, q, hpre, hthread, -, hexpired⟩
  · simp [htoken] at hanonymous
  obtain rfl : token = token' := Json.str.inj (Option.some_inj.mp (htoken.symm.trans htoken'))
  -- the token was looked up after the login had been answered
  have hbefore : pre <+: p := by
    refine (Interaction.mem_or_prefix rfl hpre).resolve_left fun hmem ↦ ?_
    exact hlater lookup hmem hthread
  by_cases hrevoked : ∃ e ∈ p, Revokes d.tokenHash e
  · obtain ⟨e, he, hrev⟩ := hrevoked
    exact Or.inl ⟨e, hpre ▸ List.mem_append_left _ he, hrev⟩
  · obtain ⟨e, he, hins⟩ := h.inserted
    obtain ⟨p', q', rfl⟩ := List.append_of_mem (hbefore.subset he)
    refine Or.inr (hexpired d ⟨p', e, q', rfl, hins, fun e' he' hrev ↦ ?_⟩ hhash)
    exact hrevoked ⟨e', by simp [he'], hrev⟩

theorem Welcomed.account (hsha : Function.Injective P.sha256) (hc : (api P).Reachable w₀ c)
    (h₀ : w₀.sessions = []) (husers : (w₀.users.map User.id).Nodup)
    (htokens : (c.trace.filterMap generatedToken?).Nodup) {mid : List ApiEvent}
    (htr : c.trace = (pre ++ f :: mid) ++ g :: post) (h : Welcomed P w₀ pre f welcome d body user)
    (hcarries : Carries parse welcome g.call) {guard : List Answered}
    {session : Option SessionContext} (hguard : guard <+: own g.thread (pre ++ f :: mid))
    (hpassed : Authentication.Passed P g.call guard route session) :
    ∃ context, session = some context ∧ context.email = user.email ∧
      context.isAdmin = user.isAdmin := by
  obtain ⟨token, -, hhash, hcookie, -⟩ := h.presents hcarries
  obtain ⟨token', s, u, n, n', hcookie', -, rfl, -, hsession, -⟩ := hpassed
  obtain rfl : token = token' := Json.str.inj (Option.some_inj.mp (hcookie.symm.trans hcookie'))
  obtain ⟨p, lookup, q, hpre, -, haction, hfound, -, p', e', q', hp, hins', -⟩ :=
    Authentication.granted_of_found hc h₀ htr (hguard.subset List.mem_cons_self)
  -- the row that was found is the one the login has inserted
  obtain ⟨e, he, hins⟩ := h.inserted
  have hmem : e ∈ c.trace := by simp [htr, he]
  have hmem' : e' ∈ c.trace := by simp [htr, hpre, hp]
  have hsame : s.data.tokenHash = d.tokenHash := hfound.trans hhash.symm
  obtain rfl := Authentication.insert_eq_of_hash hsha hc htokens hmem' hmem hins' hins hsame
  obtain rfl : s.data = d := Option.some_inj.mp (hins'.symm.trans hins)
  -- and the user that was joined to it one of those there were at the start
  have htr' : c.trace = p ++ lookup :: (q ++ g :: post) := by
    rw [htr, hpre, List.append_assoc, List.cons_append]
  obtain ⟨-, -, hu, hid⟩ := lookup_spec (hc.effects p lookup _ htr') haction rfl
  have haccount : u.account ∈ w₀.users.map User.account :=
    accounts_eq hc htr' ▸ List.mem_map_of_mem hu
  obtain ⟨u₀, hu₀, heq⟩ := List.mem_map.mp haccount
  simp only [User.account, User.mk.injEq] at heq
  obtain ⟨hid₀, hemail₀, -, hadmin₀, -⟩ := heq
  obtain rfl : u₀ = user := by
    refine List.inj_on_of_nodup_map husers hu₀ h.user.1 ?_
    rw [hid₀, hid, h.user.2.1]
    rfl
  exact ⟨_, hsession, hemail₀.symm, hadmin₀.symm⟩

theorem Welcomed.status_of_refused (h : Welcomed P w₀ pre f welcome d body user)
    (hcarries : Carries parse welcome r) (hroute : r.route? = some route)
    (hpublic : route.isPublic = false) {past : List Answered} (hplain : Plain past) {e : Exn}
    (hrefused : Refused P r past e) :
    (DomainExceptionFilter.handle e).status = 400 ∧ (∃ message, r.body = .malformed message) ∨
      (DomainExceptionFilter.handle e).status = 401 ∧ NoSession P r past ∨
      (DomainExceptionFilter.handle e).status = 500 ∧
        ((∃ o e, (⟨o, .error e⟩ : Answered) ∈ past) ∨
          ∃ message stack, r.body = .rejected message stack) := by
  have htoken := h.sessionToken hcarries
  have hnot : ∀ route', r.route? = some route' → route'.isPublic = false :=
    fun route' h ↦ Option.some_inj.mp (hroute.symm.trans h) ▸ hpublic
  cases hrefused with
  | malformed message hbody => exact Or.inl ⟨rfl, message, hbody⟩
  | rejected message stack hbody => exact Or.inr (Or.inr ⟨rfl, Or.inr ⟨message, stack, hbody⟩⟩)
  | unrouted hnone => simp [hroute] at hnone
  | anonymous _ _ _ hnone =>
    obtain ⟨token, htoken, -⟩ := htoken
    simp [htoken] at hnone
  | unknown _ _ _ token htoken hfound =>
    exact Or.inr (Or.inl ⟨rfl, Or.inr ⟨token, htoken, Or.inl hfound⟩⟩)
  | expired _ _ _ token htoken s u n hfound hnow hle =>
    exact Or.inr (Or.inl ⟨rfl, Or.inr ⟨token, htoken, Or.inr ⟨s, u, n, hfound, hnow, hle⟩⟩⟩)
  | unhashed message token' htoken' hstring =>
    obtain ⟨token, htoken, -⟩ := htoken
    obtain rfl := Option.some_inj.mp (htoken.symm.trans htoken')
    simp [Authentication.isString] at hstring
  | forged e route' hroute' hcsrf =>
    rw [h.passes hcarries (hnot route' hroute')] at hcsrf
    simp at hcsrf
  | invalid e value hlogin => exact absurd (hnot _ hlogin) (by decide)
  | limited body' hreq => exact absurd (hnot _ hreq.1) (by decide)
  | wrong body' hreq => exact absurd (hnot _ hreq.1) (by decide)
  | failed o e ho hfailed =>
    obtain ⟨message, stack, rfl⟩ := hplain o e hfailed ho
    exact Or.inr (Or.inr ⟨rfl, Or.inl ⟨o, _, hfailed⟩⟩)

end Client

/-- **A login lasts.** In every run in which no token and no identifier is generated twice, whatever
other requests do and whatever fails: a client that was answered 201 and comes back with its cookies
is told who has logged in, or is logged out, unless its body is no JSON, or one that the body parser
does not take, or something that its own request has asked for has failed, or the session was
revoked, or the time that its cookie expires at has come. It is not refused for its CSRF token. -/
theorem login_lasts (P : Platform) (hsha : Function.Injective P.sha256)
    (parse : JsString → Option Json) (w₀ : World) (h₀ : w₀.sessions = [])
    (husers : (w₀.users.map User.id).Nodup)
    (c : Config Op Op.Val Exn Request Response World) (hc : (api P).Reachable w₀ c)
    (hids : (c.trace.filterMap generatedId?).Nodup)
    (htokens : (c.trace.filterMap generatedToken?).Nodup) :
    ∀ pre f mid g post welcome answer route, c.trace = (pre ++ f :: mid) ++ g :: post →
      f.returned = some welcome → f.call.route? = some .login → welcome.status = 201 →
      g.returned = some answer → g.call.route? = some route → route.isPublic = false →
      Carries parse welcome g.call → (∀ e ∈ pre, e.thread ≠ g.thread) →
      ∃ body, Requested P f.call body ∧ ∃ user ∈ w₀.users, user.email = body.email ∧
        (route = .me ∧ answer = headed g.call (.json 200 (.obj [(lit "email", .str body.email),
            (lit "isAdmin", .bool user.isAdmin)])) ∨
          route = .logout ∧ answer.status = 201 ∨
          answer.status = 400 ∧ (∃ message, g.call.body = .malformed message) ∨
          answer.status = 401 ∧ (∃ cookie ∈ welcome.cookies, cookie.name = SESSION_COOKIE ∧
            ((∃ e ∈ pre ++ f :: mid, Revokes (SessionService.tokenHash P cookie.value) e) ∨
              ∃ t, cookie.expires = some t ∧ t ≤ g.before.clock)) ∨
          answer.status = 500 ∧
            ((∃ o e, (⟨o, .error e⟩ : Answered) ∈ own g.thread (pre ++ f :: mid)) ∨
              ∃ message stack, g.call.body = .rejected message stack)) := by
  intro pre f mid g post welcome answer route htr hret hlogin hstatus hanswer hroute hpublic
    hcarries hlater
  obtain ⟨d, body, user, hwelcome⟩ :=
    exists_welcomed hsha hc (htr.trans (List.append_assoc ..)) hret hlogin hstatus
  refine ⟨body, hwelcome.requested, user, hwelcome.user.1, hwelcome.user.2.2, ?_⟩
  have hnot : ∀ route', g.call.route? = some route' → route'.isPublic = false :=
    fun route' h ↦ Option.some_inj.mp (hroute.symm.trans h) ▸ hpublic
  have hunauthorized : NoSession P g.call (own g.thread (pre ++ f :: mid)) →
      ∃ cookie ∈ welcome.cookies, cookie.name = SESSION_COOKIE ∧
        ((∃ e ∈ pre ++ f :: mid, Revokes (SessionService.tokenHash P cookie.value) e) ∨
          ∃ t, cookie.expires = some t ∧ t ≤ g.before.clock) := by
    intro hnone
    obtain ⟨token, -, hhash, -, cookie, hcookie, hname, rfl, hexpires⟩ := hwelcome.presents hcarries
    refine ⟨cookie, hcookie, hname, ?_⟩
    rw [← hhash]
    refine (revoked_or_expired hc h₀ hids htr hwelcome hcarries hlater hnone).imp_right ?_
    exact fun hle ↦ ⟨_, hexpires, hle⟩
  rcases Answers.explained hc htr hanswer with
    ⟨hoptions, -⟩ | ⟨response, hserved, rfl⟩ | ⟨e, hrefused, rfl⟩
  · have hmethod := Request.method_mem hroute
    rw [hoptions] at hmethod
    exact absurd hmethod (by cases route <;> decide)
  · cases hserved with
    | login _ hreq => exact absurd (hnot _ hreq.1) (by decide)
    | liveness h | readiness h => exact absurd (hnot _ h) (by decide)
    | logout h =>
      exact Or.inr (Or.inl ⟨Option.some_inj.mp (hroute.symm.trans h), Answers.headed_status _ _⟩)
    | me h session guard hguard hpassed =>
      obtain ⟨context, hcontext, hemail, hadmin⟩ :=
        hwelcome.account hsha hc h₀ husers htokens htr hcarries hguard hpassed
      obtain rfl := Option.some_inj.mp hcontext
      refine Or.inl ⟨Option.some_inj.mp (hroute.symm.trans h), ?_⟩
      rw [hemail, hadmin, hwelcome.user.2.2]
  · rw [Answers.headed_status]
    refine Or.inr (Or.inr ?_)
    rcases hwelcome.status_of_refused hcarries hroute hpublic (Answers.plain_own hc htr g.thread)
      hrefused with h | ⟨hunauthorized', hnone⟩ | h
    · exact Or.inl h
    · exact Or.inr (Or.inl ⟨hunauthorized', hunauthorized hnone⟩)
    · exact Or.inr (Or.inr h)

theorem login_lasts_loginLogout : ∃ body,
    Requested samplePlatform (loginRequest (lit "admin@example.com") (lit "correct horse")) body ∧
      ∃ user ∈ sampleWorld.users, user.email = body.email := by
  obtain ⟨body, hreq, user, hmem, hemail, -⟩ := login_lasts samplePlatform sampleSha256_injective
    sampleJson sampleWorld rfl (by decide) Authentication.loginLogout
    (Interaction.System.reachable_run ..) (by decide +kernel) (by decide +kernel)
    (Authentication.loginLogout.trace.take 16) _ ((Authentication.loginLogout.trace.drop 17).take 7)
    _ [] _ _ .logout rfl rfl rfl rfl rfl rfl rfl
    ⟨Authentication.logoutRequest, [(SESSION_COOKIE, sampleToken 0),
      (CsrfGuard.CSRF_COOKIE, Authentication.sampleCsrf.text)], rfl, by decide +kernel,
      by decide +kernel⟩ (by decide +kernel)
  exact ⟨body, hreq, user, hmem, hemail⟩

end Trace

end NativeKiln.SignedIn
