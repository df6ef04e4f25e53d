import NativeKiln.Api.Authentication

/-!
# Cookies that are not strings

`cookie-parser` parses a cookie whose value starts with `j:` (`main.ts` uses it without a secret),
and the guards cast what they find to a string. What they hand on to the hash and to the comparison
can thus be any JSON value. Followed through both guards, whatever the database answers, this says
for which requests a guard fails with an exception of its own making, and when a mutating request
passes without showing the same token twice (`guardsHold_iff`).
-/

namespace NativeKiln

open JsString (lit)
open Interaction.Program (ofReply endsIn_ofReply endsIn_pure endsIn_call endsIn_bind
  endsIn_tryCatch)
open Authentication (isString headerValue_latin1 logoutRequest)

/-! ## The parser -/

namespace CookieParser

/-- What `JSONCookie` makes of a decoded value, where it is used: the value behind `j:`, when it is
valid JSON and truthy. Of a number only whether it is zero matters here. -/
def parsed (parse : JsString → Option Json) (value : JsString) : Option Json :=
  if lit "j:" <+: value then (parse (value.drop 2)).filter Json.truthy else none

/-- What is delivered for a decoded value. -/
def delivered (parse : JsString → Option Json) (value : JsString) : Json :=
  (parsed parse value).getD (.str value)

/-- `req.cookies`, for the decoded names and values of the `Cookie` header. -/
def cookies (parse : JsString → Option Json) (decoded : List (JsString × JsString)) :
    List (JsString × Json) := decoded.map fun p ↦ (p.1, delivered parse p.2)

end CookieParser

/-- A request that comes in with a `Cookie` header. -/
def Request.withCookies (r : Request) (parse : JsString → Option Json)
    (decoded : List (JsString × JsString)) : Request :=
  { r with cookies := CookieParser.cookies parse decoded }

/-! ## The guards -/

/-- Both guards, in the order they are registered in. -/
def guards (P : Platform) (route : Route) (r : Request) : Api (Option SessionContext) := do
  let session ← AuthGuard.canActivate P route r
  ofReply (CsrfGuard.canActivate P route r)
  return session

/-- A request reaches its handler, or is refused with one of the errors of the guards. -/
def Typed : Except Exn (Option SessionContext) → Prop
  | .ok _ => True
  | .error e => e = AuthGuard.authenticationRequired ∨ e = AuthGuard.sessionInvalid ∨
      e = CsrfGuard.invalidToken

/-- The request is one that may change something. -/
def Request.Mutating (r : Request) : Prop := r.method ∉ CsrfGuard.SAFE_METHODS

instance (r : Request) : Decidable r.Mutating := inferInstanceAs (Decidable (_ ∉ _))

/-- Whatever the database answers, short of failing, the request reaches the handler or is refused
with a typed error; and a mutating request that the session guard lets through passes the second
guard only with the decoded cookie as its header. -/
structure GuardsHold (P : Platform) (parse : JsString → Option Json) (route : Route) (r : Request)
    (decoded : List (JsString × JsString)) : Prop where
  typed : ∀ result, (guards P route (r.withCookies parse decoded)).EndsIn result → Typed result
  shown : r.Mutating → ∀ session,
    (AuthGuard.canActivate P route (r.withCookies parse decoded)).EndsIn (.ok session) →
    CsrfGuard.canActivate P route (r.withCookies parse decoded) = .ok () →
    ∃ header, CsrfGuard.headerValue r = some header ∧
      decoded.lookup CsrfGuard.CSRF_COOKIE = some header

theorem handle_eq_guards_bind (P : Platform) (route : Route) (value : Option Json) (r : Request) :
    handle P route value r = guards P route r >>= handler P route value r := by
  rw [guards, Interaction.Program.bind_assoc, handle]
  congr 1
  funext session
  rw [Interaction.Program.bind_assoc]
  rfl

theorem eq_str_of_isString {v : Json} (h : isString v) : ∃ s, v = .str s := by
  cases v with
  | str s => exact ⟨s, rfl⟩
  | _ => simp [isString] at h

section Guards

variable {P : Platform} {route : Route} {r : Request}

/-! ### The session guard -/

/-- A session that ends after the first millisecond. -/
def lasting : Session where
  id := []
  userId := []
  tokenHash := []
  userAgent := none
  ipAddress := none
  expiresAt := 1
  createdAt := 0
  lastSeenAt := 0

theorem ok_of_endsIn_validate {s : JsString} {result : Except Exn (Option SessionContext)}
    (h : (SessionService.validate P (.str s)).EndsIn result) : ∃ session, result = .ok session := by
  simp only [SessionService.validate, SessionService.hash, endsIn_bind, endsIn_pure, endsIn_call,
    Except.ok.injEq, exists_eq', true_and, reduceCtorEq, exists_const, false_and, exists_false,
    or_false, exists_eq_left] at h
  rcases h with ⟨_ | ⟨session, user⟩, h⟩
  · exact ⟨none, h⟩
  · simp only [endsIn_bind, endsIn_call, Except.ok.injEq, exists_eq', true_and, reduceCtorEq,
      exists_const, false_and, exists_false, or_false] at h
    obtain ⟨clock, h⟩ := h
    split at h
    · exact ⟨none, by simpa using h⟩
    · exact ⟨_, by simpa using h⟩

theorem endsIn_validate (s : JsString) (session : SessionContext) :
    (SessionService.validate P (.str s)).EndsIn (.ok (some session)) := by
  have hclock : ¬lasting.expiresAt ≤ 0 := by decide
  refine endsIn_bind.mpr (Or.inl ⟨_, rfl, endsIn_bind.mpr (Or.inl ⟨some
    ({ lasting with id := session.sessionId, userId := session.userId },
      { sampleAdmin with email := session.email, isAdmin := session.isAdmin }), ⟨_, rfl⟩,
    endsIn_bind.mpr (Or.inl ⟨(0 : ℕ), ⟨_, rfl⟩, ?_⟩)⟩)⟩)
  rw [if_neg hclock]
  simp

theorem authGuard_of_token (hpublic : route.isPublic = false) {token : Json}
    (htoken : r.sessionToken = some token) : AuthGuard.canActivate P route r =
      SessionService.validate P token >>= fun session ↦ match session with
        | none => throw AuthGuard.sessionInvalid
        | some session => return some session := by
  rw [AuthGuard.canActivate, hpublic, if_neg Bool.false_ne_true]
  generalize r.sessionToken = presented at htoken
  subst htoken
  rfl

theorem endsIn_authGuard_str (hpublic : route.isPublic = false) {s : JsString}
    (htoken : r.sessionToken = some (.str s)) {result : Except Exn (Option SessionContext)}
    (h : (AuthGuard.canActivate P route r).EndsIn result) :
    result = .error AuthGuard.sessionInvalid ∨ ∃ session, result = .ok (some session) := by
  rw [authGuard_of_token hpublic htoken, endsIn_bind] at h
  rcases h with ⟨_ | session, -, h⟩ | ⟨e, h, -⟩
  · exact Or.inl h
  · exact Or.inr ⟨session, h⟩
  · obtain ⟨session, h⟩ := ok_of_endsIn_validate h
    simp at h

/-- Any session may be the one a string stands for. -/
theorem endsIn_authGuard (hpublic : route.isPublic = false) {s : JsString}
    (htoken : r.sessionToken = some (.str s)) (session : SessionContext) :
    (AuthGuard.canActivate P route r).EndsIn (.ok (some session)) := by
  rw [authGuard_of_token hpublic htoken]
  exact endsIn_bind.mpr (Or.inl ⟨_, endsIn_validate s session, rfl⟩)

theorem endsIn_authGuard_other (hpublic : route.isPublic = false) {token : Json}
    (htoken : r.sessionToken = some token) (hstring : isString token = false) :
    ∃ message, (AuthGuard.canActivate P route r).EndsIn (.error (.error message [])) := by
  rw [authGuard_of_token hpublic htoken]
  cases token with
  | str s => simp [isString] at hstring
  | _ => exact ⟨_, rfl⟩

/-! ### The CSRF guard -/

theorem tokensEqual_eq (cookie : Json) (header : JsString) :
    CsrfGuard.tokensEqual P cookie header = (P.buffer cookie).map (· == header.utf8) := by
  rw [CsrfGuard.tokensEqual]
  cases P.buffer cookie with
  | error e => rfl
  | ok bytes => exact safeEqualsBuffers_ok bytes _

/-- The cookie and the header that the guard compares, for a request that may change something. -/
def Compares (r : Request) (cookie : Json) (header : JsString) : Prop :=
  r.Mutating ∧ r.cookie CsrfGuard.CSRF_COOKIE = some cookie ∧ cookie.truthy ∧
    CsrfGuard.headerValue r = some header ∧ header ≠ []

theorem csrfGuard_of_compares (hpublic : route.isPublic = false) {cookie : Json} {header : JsString}
    (h : Compares r cookie header) : CsrfGuard.canActivate P route r =
      match P.buffer cookie with
      | .ok bytes => if bytes = header.utf8 then .ok () else .error CsrfGuard.invalidToken
      | .error e => .error e := by
  obtain ⟨hmutating, hcookie, htruthy, hheader, hne⟩ := h
  have hc : (r.cookie CsrfGuard.CSRF_COOKIE).filter Json.truthy = some cookie := by
    simp [hcookie, htruthy]
  have hh : (CsrfGuard.headerValue r).filter (· ≠ []) = some header := by simp [hheader, hne]
  rw [CsrfGuard.canActivate, if_neg hmutating, hpublic, if_neg Bool.false_ne_true, CsrfGuard.check,
    hc, hh]
  simp only [tokensEqual_eq]
  cases P.buffer cookie with
  | error e => rfl
  | ok bytes =>
    by_cases heq : bytes = header.utf8
    · simp [heq, Except.map]
    · simp [heq, Except.map, beq_false_of_ne heq]

theorem csrfGuard_of_not_compares (hpublic : route.isPublic = false) (hmutating : r.Mutating)
    (h : ∀ cookie header, ¬Compares r cookie header) :
    CsrfGuard.canActivate P route r = .error CsrfGuard.invalidToken := by
  rw [CsrfGuard.canActivate, if_neg hmutating, hpublic, if_neg Bool.false_ne_true, CsrfGuard.check]
  split
  · next cookie header hcookie hheader =>
    obtain ⟨hcookie, htruthy⟩ := Option.filter_eq_some_iff.mp hcookie
    obtain ⟨hheader, hne⟩ := Option.filter_eq_some_iff.mp hheader
    exact absurd ⟨hmutating, hcookie, htruthy, hheader, by simpa using hne⟩ (h cookie header)
  · rfl

theorem buffer_error {cookie : Json} {e : Exn} (h : P.buffer cookie = .error e) :
    ∃ message, e = .error message [] := by
  rw [Platform.buffer.eq_def] at h
  split at h
  · simp at h
  · split at h
    · simp at h
    · exact ⟨_, (Except.error.inj h).symm⟩

theorem csrfGuard_error (hpublic : route.isPublic = false) {e : Exn}
    (h : CsrfGuard.canActivate P route r = .error e) : e = CsrfGuard.invalidToken ∨
      ∃ cookie header, Compares r cookie header ∧ P.buffer cookie = .error e := by
  by_cases hmutating : r.Mutating
  swap
  · rw [CsrfGuard.canActivate, if_pos (not_not.mp hmutating)] at h
    simp at h
  by_cases hcompares : ∃ cookie header, Compares r cookie header
  · obtain ⟨cookie, header, hcompares⟩ := hcompares
    rw [csrfGuard_of_compares hpublic hcompares] at h
    split at h
    · split at h
      · simp at h
      · exact Or.inl (Except.error.inj h).symm
    · next hbuffer =>
      exact Or.inr ⟨cookie, header, hcompares, Except.error.inj h ▸ hbuffer⟩
  · push Not at hcompares
    rw [csrfGuard_of_not_compares hpublic hmutating hcompares] at h
    exact Or.inl (Except.error.inj h).symm

theorem csrfGuard_passes_iff (hpublic : route.isPublic = false) (hmutating : r.Mutating) :
    CsrfGuard.canActivate P route r = .ok () ↔
      ∃ cookie header, Compares r cookie header ∧ P.buffer cookie = .ok header.utf8 := by
  constructor
  · intro h
    by_cases hcompares : ∃ cookie header, Compares r cookie header
    · obtain ⟨cookie, header, hcompares⟩ := hcompares
      refine ⟨cookie, header, hcompares, ?_⟩
      rw [csrfGuard_of_compares hpublic hcompares] at h
      split at h
      · next bytes hbytes =>
        split at h
        · next heq => rw [hbytes, heq]
        · simp at h
      · simp at h
    · push Not at hcompares
      rw [csrfGuard_of_not_compares hpublic hmutating hcompares] at h
      simp at h
  · rintro ⟨cookie, header, hcompares, hbytes⟩
    rw [csrfGuard_of_compares hpublic hcompares, hbytes]
    exact if_pos rfl

/-! ### Both guards -/

theorem not_typed_error (message : JsString) : ¬Typed (.error (.error message [])) := by
  simp [Typed, AuthGuard.authenticationRequired, AuthGuard.sessionInvalid, CsrfGuard.invalidToken]

theorem isString_of_typed (hpublic : route.isPublic = false)
    (h : ∀ result, (guards P route r).EndsIn result → Typed result) {token : Json}
    (htoken : r.sessionToken = some token) : isString token := by
  by_contra hstring
  obtain ⟨message, hends⟩ :=
    endsIn_authGuard_other (P := P) hpublic htoken (Bool.eq_false_iff.mpr hstring)
  exact not_typed_error message (h _ (endsIn_bind.mpr (Or.inr ⟨_, hends, rfl⟩)))

theorem bytes_of_typed (hpublic : route.isPublic = false)
    (h : ∀ result, (guards P route r).EndsIn result → Typed result) {s : JsString}
    (htoken : r.sessionToken = some (.str s)) {cookie : Json} {header : JsString}
    (hcompares : Compares r cookie header) : ∃ bytes, P.buffer cookie = .ok bytes := by
  cases hbuffer : P.buffer cookie with
  | ok bytes => exact ⟨bytes, rfl⟩
  | error e =>
    have hauth := endsIn_authGuard (P := P) hpublic htoken ⟨[], [], [], false⟩
    have hcsrf : CsrfGuard.canActivate P route r = .error e := by
      rw [csrfGuard_of_compares hpublic hcompares, hbuffer]
    have hends : (guards P route r).EndsIn (.error e) :=
      endsIn_bind.mpr (Or.inl ⟨_, hauth,
        endsIn_bind.mpr (Or.inr ⟨e, endsIn_ofReply.mpr hcsrf.symm, rfl⟩)⟩)
    obtain ⟨message, rfl⟩ := buffer_error hbuffer
    exact absurd (h _ hends) (not_typed_error message)

theorem typed_of_endsIn (hpublic : route.isPublic = false)
    (h : ∀ token, r.sessionToken = some token → isString token ∧
      ∀ cookie header, Compares r cookie header → ∃ bytes, P.buffer cookie = .ok bytes)
    {result : Except Exn (Option SessionContext)} (hends : (guards P route r).EndsIn result) :
    Typed result := by
  cases htoken : r.sessionToken with
  | none =>
    rw [guards, AuthGuard.canActivate, hpublic, if_neg Bool.false_ne_true, htoken] at hends
    obtain rfl : result = .error AuthGuard.authenticationRequired := by simpa using hends
    exact Or.inl rfl
  | some token =>
    obtain ⟨hstring, hbytes⟩ := h token htoken
    obtain ⟨s, rfl⟩ := eq_str_of_isString hstring
    rcases endsIn_bind.mp hends with ⟨session, -, hrest⟩ | ⟨e, hauth, rfl⟩
    · rcases endsIn_bind.mp hrest with ⟨u, -, hresult⟩ | ⟨e, hcsrf, rfl⟩
      · obtain rfl : result = .ok session := hresult
        trivial
      · rcases csrfGuard_error hpublic (endsIn_ofReply.mp hcsrf).symm with
          rfl | ⟨cookie, header, hcompares, hbuffer⟩
        · exact Or.inr (Or.inr rfl)
        · obtain ⟨bytes, hbytes⟩ := hbytes cookie header hcompares
          simp [hbytes] at hbuffer
    · rcases endsIn_authGuard_str hpublic htoken hauth with he | ⟨session, he⟩
      · exact Or.inr (Or.inl (Except.error.inj he))
      · simp at he

end Guards

/-! ## Parsed cookies -/

section Parsed

variable {P : Platform} {parse : JsString → Option Json} {route : Route} {r : Request}
  {decoded : List (JsString × JsString)}

/-- The cookies that the parser turns into something else do no harm: a session cookie is not turned
into anything but a string, and beside a session cookie, a CSRF cookie that meets a header has
bytes, which are those of the header only when the decoded cookie is the header. Of a request
without a session cookie, the CSRF cookie is not looked at. -/
structure Harmless (P : Platform) (parse : JsString → Option Json) (r : Request)
    (decoded : List (JsString × JsString)) : Prop where
  session : ∀ value v, decoded.lookup SESSION_COOKIE = some value →
    CookieParser.parsed parse value = some v → isString v
  csrf : r.Mutating → ∀ token ≠ [], decoded.lookup SESSION_COOKIE = some token →
    ∀ value v header, decoded.lookup CsrfGuard.CSRF_COOKIE = some value →
    CookieParser.parsed parse value = some v →
    CsrfGuard.headerValue r = some header → header ≠ [] →
    (∃ bytes, P.buffer v = .ok bytes) ∧ (P.buffer v = .ok header.utf8 → value = header)

theorem cookie_withCookies (name : JsString) : (r.withCookies parse decoded).cookie name =
    (decoded.lookup name).map (CookieParser.delivered parse) := by
  rw [Request.cookie, Request.withCookies, CookieParser.cookies]
  induction decoded with
  | nil => rfl
  | cons p ps ih =>
    rw [List.map_cons, List.lookup_cons, List.lookup_cons]
    split
    · rfl
    · exact ih

theorem truthy_of_parsed {value : JsString} {v : Json}
    (h : CookieParser.parsed parse value = some v) : v.truthy := by
  rw [CookieParser.parsed] at h
  split at h
  · exact (Option.filter_eq_some_iff.mp h).2
  · simp at h

theorem delivered_of_parsed {value : JsString} {v : Json}
    (h : CookieParser.parsed parse value = some v) : CookieParser.delivered parse value = v := by
  rw [CookieParser.delivered, h, Option.getD_some]

theorem delivered_of_not_parsed {value : JsString} (h : CookieParser.parsed parse value = none) :
    CookieParser.delivered parse value = .str value := by
  rw [CookieParser.delivered, h, Option.getD_none]

theorem truthy_delivered {value : JsString} :
    (CookieParser.delivered parse value).truthy ↔ value ≠ [] := by
  cases hparsed : CookieParser.parsed parse value with
  | none => simp [delivered_of_not_parsed hparsed, Json.truthy]
  | some v =>
    refine iff_of_true (delivered_of_parsed hparsed ▸ truthy_of_parsed hparsed) ?_
    rintro rfl
    have hprefix : ¬lit "j:" <+: ([] : JsString) := by decide
    simp [CookieParser.parsed, hprefix] at hparsed

theorem sessionToken_withCookies {token : Json} :
    (r.withCookies parse decoded).sessionToken = some token ↔
      ∃ value ≠ [], decoded.lookup SESSION_COOKIE = some value ∧
        CookieParser.delivered parse value = token := by
  rw [Request.sessionToken, cookie_withCookies, Option.filter_eq_some_iff, Option.map_eq_some_iff]
  constructor
  · rintro ⟨⟨value, hvalue, rfl⟩, htruthy⟩
    exact ⟨value, truthy_delivered.mp htruthy, hvalue, rfl⟩
  · rintro ⟨value, hne, hvalue, rfl⟩
    exact ⟨⟨value, hvalue, rfl⟩, truthy_delivered.mpr hne⟩

theorem compares_withCookies {cookie : Json} {header : JsString} :
    Compares (r.withCookies parse decoded) cookie header ↔
      r.Mutating ∧ (∃ value ≠ [], decoded.lookup CsrfGuard.CSRF_COOKIE = some value ∧
        CookieParser.delivered parse value = cookie) ∧
      CsrfGuard.headerValue r = some header ∧ header ≠ [] := by
  rw [Compares, cookie_withCookies, Option.map_eq_some_iff]
  constructor
  · rintro ⟨hmutating, ⟨value, hvalue, rfl⟩, htruthy, hheader⟩
    exact ⟨hmutating, ⟨value, truthy_delivered.mp htruthy, hvalue, rfl⟩, hheader⟩
  · rintro ⟨hmutating, ⟨value, hne, hvalue, rfl⟩, hheader⟩
    exact ⟨hmutating, ⟨value, hvalue, rfl⟩, truthy_delivered.mpr hne, hheader⟩

theorem ne_nil_of_parsed {value : JsString} {v : Json}
    (h : CookieParser.parsed parse value = some v) : value ≠ [] :=
  truthy_delivered.mp (delivered_of_parsed h ▸ truthy_of_parsed h)

theorem harmless_of_guardsHold (hpublic : route.isPublic = false)
    (h : GuardsHold P parse route r decoded) : Harmless P parse r decoded := by
  refine ⟨fun value v hvalue hparsed ↦ ?_, fun hmutating token htoken htokenValue value v header
    hvalue hparsed hheader hne ↦ ?_⟩
  · exact isString_of_typed hpublic h.typed (sessionToken_withCookies.mpr
      ⟨value, ne_nil_of_parsed hparsed, hvalue, delivered_of_parsed hparsed⟩)
  · have hcompares : Compares (r.withCookies parse decoded) v header :=
      compares_withCookies.mpr ⟨hmutating, ⟨value, ne_nil_of_parsed hparsed, hvalue,
        delivered_of_parsed hparsed⟩, hheader, hne⟩
    have hpresented : (r.withCookies parse decoded).sessionToken
        = some (CookieParser.delivered parse token) :=
      sessionToken_withCookies.mpr ⟨token, htoken, htokenValue, rfl⟩
    obtain ⟨s, hs⟩ := eq_str_of_isString (isString_of_typed hpublic h.typed hpresented)
    rw [hs] at hpresented
    refine ⟨bytes_of_typed hpublic h.typed hpresented hcompares, fun hbytes ↦ ?_⟩
    -- the string may be the token of a session, and then the comparison decides
    obtain ⟨header', hheader', hlookup⟩ := h.shown hmutating _
      (endsIn_authGuard hpublic hpresented ⟨[], [], [], false⟩)
      ((csrfGuard_passes_iff (r := r.withCookies parse decoded) hpublic hmutating).mpr
        ⟨v, header, hcompares, hbytes⟩)
    obtain rfl := Option.some_inj.mp (hheader.symm.trans hheader')
    exact Option.some_inj.mp (hvalue.symm.trans hlookup)

theorem exists_token_of_endsIn_authGuard (hpublic : route.isPublic = false)
    {session : Option SessionContext}
    (h : (AuthGuard.canActivate P route (r.withCookies parse decoded)).EndsIn (.ok session)) :
    ∃ token ≠ [], decoded.lookup SESSION_COOKIE = some token := by
  cases htoken : (r.withCookies parse decoded).sessionToken with
  | none =>
    rw [AuthGuard.canActivate, hpublic, if_neg Bool.false_ne_true, htoken] at h
    simp at h
  | some token =>
    obtain ⟨value, hne, hvalue, -⟩ := sessionToken_withCookies.mp htoken
    exact ⟨value, hne, hvalue⟩

theorem guardsHold_of_harmless (hpublic : route.isPublic = false)
    (h : Harmless P parse r decoded) : GuardsHold P parse route r decoded := by
  refine ⟨fun result hends ↦ typed_of_endsIn hpublic (fun token htoken ↦ ?_) hends,
    fun hmutating session hauth hpasses ↦ ?_⟩
  · obtain ⟨value, hne, hvalue, rfl⟩ := sessionToken_withCookies.mp htoken
    constructor
    · cases hparsed : CookieParser.parsed parse value with
      | none => rw [delivered_of_not_parsed hparsed]; rfl
      | some v => exact delivered_of_parsed hparsed ▸ h.session value v hvalue hparsed
    · intro cookie header hcompares
      obtain ⟨hmutating, ⟨shown, hshown, hlookup, rfl⟩, hheader, hheaderne⟩ :=
        compares_withCookies.mp hcompares
      cases hparsed : CookieParser.parsed parse shown with
      | none => exact ⟨JsString.utf8 shown, by rw [delivered_of_not_parsed hparsed]; rfl⟩
      | some v =>
        rw [delivered_of_parsed hparsed]
        exact (h.csrf hmutating value hne hvalue shown v header hlookup hparsed hheader hheaderne).1
  · obtain ⟨token, htoken, htokenValue⟩ := exists_token_of_endsIn_authGuard hpublic hauth
    obtain ⟨cookie, header, hcompares, hbytes⟩ :=
      (csrfGuard_passes_iff (r := r.withCookies parse decoded) hpublic hmutating).mp hpasses
    obtain ⟨-, ⟨shown, -, hlookup, rfl⟩, hheader, hne⟩ := compares_withCookies.mp hcompares
    refine ⟨header, hheader, ?_⟩
    cases hparsed : CookieParser.parsed parse shown with
    | none =>
      rw [delivered_of_not_parsed hparsed] at hbytes
      have hutf8 : JsString.utf8 shown = header.utf8 := Except.ok.inj hbytes
      rw [hlookup, JsString.eq_of_utf8_eq (JsString.plain_of_lt (headerValue_latin1 hheader)) hutf8]
    | some v =>
      rw [delivered_of_parsed hparsed] at hbytes
      have hharmless :=
        h.csrf hmutating token htoken htokenValue shown v header hlookup hparsed hheader hne
      rw [hlookup, hharmless.2 hbytes]

/-- **When the guards refuse with typed errors only.** Of the requests to a route that is not
public, exactly those with harmless cookies are always either let through or refused with an error
of the guards, and get past the CSRF guard only with the decoded cookie as their header. -/
theorem guardsHold_iff (P : Platform) (parse : JsString → Option Json) (route : Route) (r : Request)
    (decoded : List (JsString × JsString)) :
    (route.isPublic = false → GuardsHold P parse route r decoded) ↔
      (route.isPublic = false → Harmless P parse r decoded) :=
  forall_congr' fun hpublic ↦ ⟨harmless_of_guardsHold hpublic, guardsHold_of_harmless hpublic⟩

end Parsed

/-! A session cookie that is an object, and a CSRF cookie that is a string in quotes. -/

/-- `JSON.parse` on two texts. -/
def sampleJson (text : JsString) : Option Json :=
  if text = lit "{}" then some (.obj [])
  else if text = lit "\"x\"" then some (.str (lit "x"))
  else none

/-- A request for the current user. -/
def meRequest : Request where
  method := lit "GET"
  url := lit "/api/v1/auth/me"
  cookies := []
  csrfHeader := none
  userAgent := none
  ip := some (lit "203.0.113.7")
  body := .parsed none

/-- A session cookie that is an object is answered with an internal error. And beside a session
cookie, a CSRF cookie `j:"x"` passes with the header `x`. -/
theorem not_guardsHold_meRequest :
    ¬(Route.me.isPublic = false → GuardsHold samplePlatform sampleJson .me meRequest
      [(SESSION_COOKIE, lit "j:{}")]) ∧
    (serve samplePlatform (meRequest.withCookies sampleJson
      [(SESSION_COOKIE, lit "j:{}")])).EndsIn
        (.ok (.json 500 (.obj [(lit "error", .obj [(lit "code", .str (lit "INTERNAL")),
          (lit "message", .str (lit "Internal server error"))])]))) ∧
    ¬(Route.logout.isPublic = false → GuardsHold samplePlatform sampleJson .logout
      { logoutRequest with
        csrfHeader := some (.one ⟨lit "x", List.forall_mem_singleton.mpr (by decide)⟩) }
      [(SESSION_COOKIE, lit "t"), (CsrfGuard.CSRF_COOKIE, lit "j:\"x\"")]) := by
  refine ⟨fun h ↦ ?_, ?_, fun h ↦ ?_⟩
  · have hstring :=
      (harmless_of_guardsHold rfl (h rfl)).session (lit "j:{}") (.obj []) (by decide) rfl
    simp [isString] at hstring
  · rfl
  · have hcsrf := ((harmless_of_guardsHold rfl (h rfl)).csrf (by decide) (lit "t") (by decide) rfl
      (lit "j:\"x\"") (.str (lit "x")) (lit "x") (by decide) rfl rfl (by decide)).2 rfl
    exact absurd hcsrf (by decide)

end NativeKiln
