import NativeKiln.Api.Login
import NativeKiln.Codec.Email
import NativeKiln.Database.Seed

/-!
# The first login

The seed stores an address and a password, and the API is asked to accept them. The two have their
own idea of an address: the seed takes every string that is not blank, the login schema only what
the pattern of the schema library matches. Passwords they agree on.

So the seeded administrator can log in if and only if the address, once trimmed, matches the
pattern (`seeded_login_iff`).
-/

namespace NativeKiln

open JsString (lit emailRegex)

/-! ## Requests -/

/-- The request is a login with these credentials. Fields that the schema does not know are
allowed. -/
structure Request.Carries (r : Request) (body : LoginDto) : Prop where
  login : r.route? = some .login
  fields : ∃ fields, r.body = .parsed (some (.obj fields)) ∧
    fields.lookup (lit "email") = some (.str body.email) ∧
    fields.lookup (lit "password") = some (.str body.password)

/-- Nothing goes wrong around a login of the user: every operation returns, and the identifiers that
are drawn are new. -/
structure Circumstances.Smooth (C : Circumstances) (P : Platform) (w : World) (r : Request)
    (u : User) : Prop where
  returns : ∀ o, C.returns o
  event : C.eventFresh w u
  session : C.sessionFresh P w r u

/-- The response hands out a token, and there is a session of the user with that token, for some
time to come. -/
def HandsOut (P : Platform) (w : World) (u : User) (out : (World × ℕ) × Except Exn Response) :
    Prop :=
  ∃ response cookie, out.2 = .ok response ∧ response.status = 201 ∧ cookie ∈ response.cookies ∧
    cookie.name = SESSION_COOKIE ∧ ∃ s ∈ out.1.1.sessions, s.userId = u.id ∧
      s.tokenHash = SessionService.tokenHash P cookie.value ∧ w.clock < s.expiresAt

/-- The row of the user is what the address leads to; logins may have touched it. -/
def World.Finds (w : World) (u : User) : Prop :=
  ∃ t, w.users.find? (·.email = u.email) = some { u with lastLoginAt := t }

theorem route_loginRequest (email password : JsString) :
    (loginRequest email password).route? = some .login := by
  have hsame : (loginRequest email password).route? = (loginRequest [] []).route? := rfl
  rw [hsame]
  decide

section Login

variable {P : Platform} {C : Circumstances} {w : World} {r : Request} {body : LoginDto} {u : User}

/-- **What the schema looks at**: the address, and whether there is a password. -/
theorem credentials_of_carries (h : r.Carries body) :
    if P.emailOk body.email ∧ body.password ≠ [] then credentials P r = .ok body
    else ∃ details, credentials P r =
      .error (.domain (ValidationError (lit "Invalid request payload") details)) := by
  obtain ⟨fields, hbody, hemail, hpassword⟩ := h.fields
  have hfield : ∀ name message ok (s : JsString), stringField name message ok (some (.str s)) =
      if ok s then .ok s else .error ⟨[name], message⟩ := fun _ _ _ _ ↦ rfl
  have hlength : (decide (1 ≤ body.password.length) = true) ↔ body.password ≠ [] := by
    rw [decide_eq_true_iff, Nat.one_le_iff_ne_zero, ne_eq, List.length_eq_zero_iff]
  simp only [credentials, hbody, transformLogin, loginSchema, hemail, hpassword, hfield, hlength]
  by_cases hok : P.emailOk body.email
  · by_cases hne : body.password ≠ []
    · simp [hok, hne]
    · simp [hok, hne]
  · by_cases hne : body.password ≠ []
    · simp [hok, hne]
    · simp [hok, hne]

theorem not_handsOut_of_refused (hlogin : r.route? = some .login)
    {details : Option (List (JsString × Json))} (h : credentials P r =
      .error (.domain (ValidationError (lit "Invalid request payload") details))) :
    ¬HandsOut P w u ((serve P r).interp (C.perform P) (w, 0)) := by
  have hdispatch := Circumstances.interp_dispatch (C := C) (P := P) (s := (w, 0)) hlogin
  rw [h] at hdispatch
  rw [interp_serve_login hlogin, hdispatch]
  rintro ⟨response, cookie, hresponse, hstatus, -⟩
  obtain rfl := Except.ok.inj hresponse
  exact absurd hstatus (show 400 ≠ 201 by decide)

/-- **A login with the right credentials**, when nothing goes wrong, opens a session. -/
theorem handsOut_of_verified (hlogin : r.route? = some .login) (hverified : C.Verified P w r body u)
    (hsmooth : C.Smooth P w r u) : HandsOut P w u ((serve P r).interp (C.perform P) (w, 0)) := by
  have hgrants : C.grants P w r body u := by
    rw [Circumstances.grants, Circumstances.opens, Circumstances.clears, Circumstances.audits,
      hsmooth.returns, hsmooth.returns, hsmooth.returns, hsmooth.returns, hsmooth.event,
      hsmooth.session]
    rfl
  have hopens : C.opens w r body u := by
    rw [Circumstances.grants, Bool.and_assoc] at hgrants
    exact (Bool.and_eq_true_iff.mp hgrants).1
  obtain ⟨w', j, res, hrun, -, -, hsessions, ⟨-, rfl⟩ | ⟨hfails, -⟩⟩ :=
    Circumstances.interp_login_verified hverified
  · have hdispatch : (dispatch P r).interp (C.perform P) (w, 0) =
        ((w', j), .ok (loginResponse P body ⟨tokenOf (C.draws 1 32), w.clock + SESSION_TTL_MS⟩
          (tokenOf (C.draws 3 24)))) := by
      rw [Circumstances.interp_dispatch hlogin, hverified.credentials]
      exact hrun
    rw [hopens, Circumstances.reaches_of_returns (hsmooth.returns _), hsmooth.session] at hsessions
    rw [interp_serve_login hlogin, hdispatch]
    refine ⟨_, _, rfl, rfl, List.mem_cons_self, rfl,
      World.sessionRow w.clock (C.session P w r u), ?_, rfl, rfl, ?_⟩
    · change _ ∈ w'.sessions
      rw [hsessions]
      exact List.mem_append_right _ (List.mem_singleton_self _)
    · exact Nat.lt_add_of_pos_right (by decide)
  · exact absurd hgrants hfails

end Login

/-! ## What the seed stores -/

theorem Platform.verifyPassword_of_hashPassword {P : Platform} {options : Argon2Options}
    {salt : Bytes} {password : JsString} {hash : PasswordHash}
    (h : P.hashPassword options salt password = .ok hash) :
    P.verifyPassword hash password = .ok true := by
  rw [Platform.hashPassword] at h
  rcases hdigest : P.argon2 options salt password with e | digest
  · simp [hdigest, Bind.bind, Except.bind] at h
  · rw [hdigest] at h
    obtain rfl := Except.ok.inj h
    simp [Platform.verifyPassword, hdigest, Bind.bind, Except.bind, Pure.pure, Except.pure]

section Seed

variable {P : Platform} {d : SeedDraws} {env : SeedEnv} {w : World} {u : User}

theorem SeedDraws.password_ne_nil : d.password env ≠ [] := by
  rw [SeedDraws.password]
  rcases hprovided : Seed.trimmed env.ADMIN_PASSWORD with _ | password
  · intro hnil
    have hbytes : d.bytes 18 = [] := Base64.encode_injective .base64url hnil
    have hlength := d.length 18
    simp [hbytes] at hlength
  · exact of_decide_eq_true (Option.mem_filter_iff.mp hprovided).2

/-- **The row a run creates**: the trimmed address, with a hash of the password. -/
theorem admin_of_seeded (h : (seeded P d env w).1.users = w.users ++ [u]) :
    Seed.trimmed env.ADMIN_EMAIL = some u.email ∧
      P.verifyPassword u.passwordHash (d.password env) = .ok true ∧
        (seeded P d env w).1.Finds u := by
  have hsame : w.users ≠ w.users ++ [u] := by simp
  rw [World.Finds, h]
  rw [seeded_eq] at h
  rcases hemail : Seed.trimmed env.ADMIN_EMAIL with _ | email
  · rw [hemail] at h
    exact absurd h hsame
  · rw [hemail] at h
    rcases hhash : P.hashPassword ARGON2_OPTIONS d.salt (d.password env) with e | hash
    · simp only [hhash] at h
      split at h
      · exact absurd h hsame
      · exact absurd h hsame
    · simp only [hhash] at h
      split at h
      · exact absurd h hsame
      · next hnew =>
        split at h
        · exact absurd h hsame
        · obtain rfl : (d.admin email hash).row = u := by simpa using h
          refine ⟨rfl, P.verifyPassword_of_hashPassword hhash, none, ?_⟩
          rw [List.find?_append, List.find?_eq_none.mpr, Option.none_or]
          · exact List.find?_cons_of_pos (decide_eq_true rfl)
          · exact fun v hv hmatch ↦ hnew (List.any_eq_true.mpr ⟨v, hv, hmatch⟩)

end Seed

/-! ## One after the other -/

/-- **The seeded administrator can log in.** Take any run of the seed that creates a user. Every
login request with the address and the password that were stored opens a session, when the limiter
lets it pass and nothing fails, if and only if the trimmed `ADMIN_EMAIL` matches the pattern of the
login schema. -/
theorem seeded_login_iff (P : Platform) (d : SeedDraws) (env : SeedEnv) (w : World) (u : User)
    (hpattern : ∀ s, P.emailOk s = emailRegex s)
    (hseed : (seeded P d env w).1.users = w.users ++ [u]) :
    (∀ (C : Circumstances) (w' : World) (r : Request), w'.Finds u →
      r.Carries ⟨u.email, d.password env⟩ →
        C.Admits w' (attemptKey r ⟨u.email, d.password env⟩) → C.Smooth P w' r u →
          HandsOut P w' u ((serve P r).interp (C.perform P) (w', 0))) ↔
      (Seed.trimmed env.ADMIN_EMAIL).any emailRegex := by
  obtain ⟨hemail, hverifies, -⟩ := admin_of_seeded hseed
  rw [hemail, Option.any_some, ← hpattern]
  constructor
  · intro h
    by_contra hrefused
    have hcarries : (loginRequest u.email (d.password env)).Carries ⟨u.email, d.password env⟩ :=
      ⟨route_loginRequest .., _, rfl, rfl, rfl⟩
    obtain ⟨details, hdetails⟩ : ∃ details, credentials P (loginRequest u.email (d.password env)) =
        .error (.domain (ValidationError (lit "Invalid request payload") details)) := by
      have hcredentials := credentials_of_carries (P := P) hcarries
      rwa [if_neg fun h ↦ hrefused h.1] at hcredentials
    refine not_handsOut_of_refused hcarries.login hdetails
      (h calm ⟨0, [u], [], [], fun _ ↦ none⟩ _ ?_ hcarries ?_ ?_)
    · exact ⟨u.lastLoginAt, List.find?_cons_of_pos (decide_eq_true rfl)⟩
    · exact ⟨rfl, fun _ ↦ rfl, show 1 ≤ MAX_ATTEMPTS by decide⟩
    · exact ⟨fun _ ↦ rfl, rfl, rfl⟩
  · rintro hok C w' r ⟨t, hfound⟩ hcarries hadmits hsmooth
    have hcredentials := credentials_of_carries (P := P) hcarries
    rw [if_pos ⟨hok, SeedDraws.password_ne_nil⟩] at hcredentials
    have hverified : C.Verified P w' r ⟨u.email, d.password env⟩ { u with lastLoginAt := t } :=
      ⟨hcredentials, hadmits, hsmooth.returns _, hfound, hsmooth.returns _, hverifies⟩
    exact handsOut_of_verified (u := { u with lastLoginAt := t }) hcarries.login hverified
      ⟨hsmooth.returns, hsmooth.event, hsmooth.session⟩

/-! An address that both accept, and one that only the seed does. -/

/-- The sample platform, with the pattern of the schema library. -/
def patternPlatform : Platform := { samplePlatform with emailOk := emailRegex }

/-- Zero bytes for every draw. -/
def zeroSeedDraws : SeedDraws where
  bytes n := .replicate n 0
  length _ := List.length_replicate
  salt := .replicate 16 7

/-- A database without users. -/
def emptyWorld : World := ⟨0, [], [], [], fun _ ↦ none⟩

/-- The administrator of the runs. -/
def seededAdmin (email : JsString) : User where
  id := idOf (lit "usr") (.replicate 22 0)
  email := email
  passwordHash := sampleAdmin.passwordHash
  isAdmin := true
  lastLoginAt := none

/-- The world that a run on the empty database leaves. -/
def seededWorld (email : JsString) : World := ⟨0, [seededAdmin email], [], [], fun _ ↦ none⟩

theorem seeded_login_iff_example : HandsOut patternPlatform
    (seededWorld (lit "admin@example.com")) (seededAdmin (lit "admin@example.com"))
    ((serve patternPlatform rightRequest).interp (calm.perform patternPlatform)
      (seededWorld (lit "admin@example.com"), 0)) := by
  refine (seeded_login_iff patternPlatform zeroSeedDraws (adminEnv (lit " admin@example.com"))
    emptyWorld (seededAdmin (lit "admin@example.com")) (fun _ ↦ rfl) (by rfl)).mpr (by decide)
    calm (seededWorld _) rightRequest ⟨none, ?_⟩ ⟨by decide, _, rfl, rfl, ?_⟩ ?_ ?_
  · rfl
  · rfl
  · exact ⟨rfl, fun _ ↦ rfl, by decide⟩
  · exact ⟨fun _ ↦ rfl, rfl, rfl⟩

/-- **An administrator that cannot log in**: the seed takes an address whose domain has no dot. -/
theorem administrator_locked_out :
    (seeded patternPlatform zeroSeedDraws (adminEnv (lit "admin@localhost")) emptyWorld).1.users =
        [seededAdmin (lit "admin@localhost")] ∧
      ((serve patternPlatform (loginRequest (lit "admin@localhost") (lit "correct horse"))).interp
        (calm.perform patternPlatform) (seededWorld (lit "admin@localhost"), 0)).2.toOption.map
          (·.status) = some 400 ∧
      ¬∀ (P : Platform) (d : SeedDraws) (env : SeedEnv) (w : World) (u : User),
        (∀ s, P.emailOk s = emailRegex s) → (seeded P d env w).1.users = w.users ++ [u] →
          ∀ (C : Circumstances) (w' : World) (r : Request), w'.Finds u →
            r.Carries ⟨u.email, d.password env⟩ →
              C.Admits w' (attemptKey r ⟨u.email, d.password env⟩) → C.Smooth P w' r u →
                HandsOut P w' u ((serve P r).interp (C.perform P) (w', 0)) := by
  have hlogin := route_loginRequest (lit "admin@localhost") (lit "correct horse")
  have hcarries : (loginRequest (lit "admin@localhost") (lit "correct horse")).Carries
      ⟨lit "admin@localhost", lit "correct horse"⟩ := ⟨hlogin, _, rfl, rfl, rfl⟩
  have hcredentials := credentials_of_carries (P := patternPlatform) hcarries
  rw [if_neg fun h ↦ absurd h.1 (by decide)] at hcredentials
  obtain ⟨details, hdetails⟩ := hcredentials
  refine ⟨by rfl, by decide +kernel, fun h ↦ ?_⟩
  refine not_handsOut_of_refused hlogin hdetails (h patternPlatform zeroSeedDraws
    (adminEnv (lit "admin@localhost")) emptyWorld (seededAdmin (lit "admin@localhost"))
    (fun _ ↦ rfl) (by rfl) calm (seededWorld (lit "admin@localhost")) _ ⟨none, by rfl⟩ hcarries
    ⟨rfl, fun _ ↦ rfl, by decide⟩ ⟨fun _ ↦ rfl, rfl, rfl⟩)

end NativeKiln
