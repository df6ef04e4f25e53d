import NativeKiln.Api.Enumeration
import NativeKiln.Api.Seeding
import NativeKiln.Api.SessionTable
import NativeKiln.Interaction.Isolation

/-!
# Attempts of different pairs do not meet

An attempt is counted for its address and its e-mail, which are put together with a colon in
between. Addresses may have colons of their own; but no e-mail that the schema accepts has one, so
that the last colon of an identifier is where its two parts meet (`LoginPair.key_injective`), and
different pairs have different counters. Everything else that attempts of different pairs share
makes no difference to whether they are admitted: the user table, of which an attempt changes the
times of the last login only, the clock, and the rows that attempts insert, as long as no identifier
and no token comes up twice (`limiter_isolation`).
-/

namespace NativeKiln

open JsString (lit)
open Interaction (Config Throughout own rel_ite)
open Interaction.Program (Asks Ignores asks_pure asks_throw asks_call asks_composable ignores_pure
  ignores_throw ignores_ofReply ignores_call ignores_call_bind ignores_composable)

/-! ## Pairs and their counters -/

/-- What attempts are counted for. -/
@[ext] structure LoginPair where
  ip : JsString
  email : JsString
  deriving DecidableEq

/-- The Redis key of the pair. -/
def LoginPair.key (p : LoginPair) : JsString :=
  RateLimitService.loginKey (p.ip ++ lit ":" ++ p.email)

/-- The pair of an attempt with well-formed credentials. -/
def pairOf (P : Platform) (r : Request) : Option LoginPair :=
  match credentials P r with
  | .ok body => some ⟨r.ip.getD (lit "unknown"), body.email⟩
  | .error _ => none

theorem pairOf_eq_some {P : Platform} {r : Request} {p : LoginPair} :
    pairOf P r = some p ↔
      ∃ body, credentials P r = .ok body ∧ p = ⟨r.ip.getD (lit "unknown"), body.email⟩ := by
  rw [pairOf]
  cases credentials P r with
  | error e => simp
  | ok body => simp [eq_comm]

theorem append_colon_inj {a b s t : JsString} (hs : 58 ∉ s) (ht : 58 ∉ t)
    (h : a ++ 58 :: s = b ++ 58 :: t) : a = b ∧ s = t := by
  rcases List.append_eq_append_iff.mp h with ⟨u, rfl, hu⟩ | ⟨u, rfl, hu⟩
  · rcases u with _ | ⟨x, u⟩
    · exact ⟨(List.append_nil a).symm, (List.cons.inj hu).2⟩
    · have hmem : (58 : UInt16) ∈ s := by simp [(List.cons.inj hu).2]
      exact absurd hmem hs
  · rcases u with _ | ⟨x, u⟩
    · exact ⟨List.append_nil b, (List.cons.inj hu).2.symm⟩
    · have hmem : (58 : UInt16) ∈ t := by simp [(List.cons.inj hu).2]
      exact absurd hmem ht

/-- **Different pairs have different counters**, when their e-mails have no colon. -/
theorem LoginPair.key_injective {p q : LoginPair} (hp : 58 ∉ p.email) (hq : 58 ∉ q.email)
    (h : p.key = q.key) : p = q := by
  have hid : p.ip ++ lit ":" ++ p.email = q.ip ++ lit ":" ++ q.email := List.append_cancel_left h
  rw [List.append_assoc, List.append_assoc] at hid
  obtain ⟨hip, hemail⟩ := append_colon_inj hp hq hid
  exact LoginPair.ext hip hemail

theorem stringField_ok {name message s : JsString} {ok : JsString → Bool} {v : Option Json}
    (h : stringField name message ok v = .ok s) : ok s := by
  rw [stringField.eq_def] at h
  split at h
  · split at h
    · next hok => exact Except.ok.inj h ▸ hok
    · exact nomatch h
  · exact nomatch h

theorem emailOk_of_credentials {P : Platform} {r : Request} {body : LoginDto}
    (h : credentials P r = .ok body) : P.emailOk body.email := by
  have hschema : ∃ value, loginSchema P value = .ok body := by
    rw [credentials] at h
    split at h
    · simp at h
    · simp at h
    · next value _ =>
      rw [transformLogin] at h
      split at h
      · next hok => exact ⟨value, Except.ok.inj h ▸ hok⟩
      · simp at h
  obtain ⟨value, hvalue⟩ := hschema
  rw [loginSchema.eq_def] at hvalue
  split at hvalue
  · dsimp only at hvalue
    split at hvalue
    · next email password hemail hpassword =>
      obtain rfl := Except.ok.inj hvalue
      exact stringField_ok hemail
    all_goals simp at hvalue
  · simp at hvalue

theorem pair_eq_of_key {P : Platform} (hemail : ∀ s, P.emailOk s → 58 ∉ s) {r r' : Request}
    {p q : LoginPair} (hp : pairOf P r = some p) (hq : pairOf P r' = some q) (h : p.key = q.key) :
    p = q := by
  obtain ⟨body, hbody, rfl⟩ := pairOf_eq_some.mp hp
  obtain ⟨body', hbody', rfl⟩ := pairOf_eq_some.mp hq
  exact LoginPair.key_injective (hemail _ (emailOk_of_credentials hbody))
    (hemail _ (emailOk_of_credentials hbody')) h

/-! ## What an attempt asks for -/

/-- The operations of an attempt that is counted under `key`. -/
def LoginOp (key : JsString) : Op → Prop
  | .incr k | .expire k _ | .del k => k = key
  | .now | .randomBytes _ | .userFindUnique _ | .userUpdate _ _ | .auditEventCreate _
  | .sessionCreate _ | .argon2Verify _ _ | .argon2Hash _ _ | .handle _ _ => True
  | _ => False

/-- Nothing is left behind. -/
def Waits (_ : Op) : Prop := False

section Asks

variable {P : Platform} {key : JsString}

theorem asks_verifyCredentials (email password : JsString) :
    Asks (LoginOp key) Waits (AuthService.verifyCredentials email password) := by
  refine composed_verifyCredentials asks_composable (fun o ho ↦ ?_) trivial password
  cases o with
  | argon2Verify _ _ | argon2Hash _ _ | now | userUpdate _ _ | randomBytes _
  | auditEventCreate _ => trivial
  | _ => exact ho.elim

theorem loginOp_of_createOp {o : Op} (ho : CreateOp o) : LoginOp key o := by
  cases o with
  | randomBytes _ | now | sessionCreate _ => trivial
  | _ => exact ho.elim

theorem asks_login (body : LoginDto) (r : Request) :
    Asks (LoginOp (attemptKey r body)) Waits (AuthController.login P body r) := by
  have hkey : LoginOp (attemptKey r body) (.incr (attemptKey r body)) := rfl
  exact composed_login asks_composable (fun _ ↦ loginOp_of_createOp)
    (composed_limiter asks_composable hkey hkey) (asks_verifyCredentials _ _) (asks_call hkey)

/-- A login request asks for operations of a login, under the key of its pair. -/
theorem asks_serve {r : Request} (hlogin : r.route? = some .login)
    (hkey : ∀ p, pairOf P r = some p → p.key = key) : Asks (LoginOp key) Waits (serve P r) := by
  have hdispatch : Asks (LoginOp key) Waits (dispatch P r) := by
    rw [dispatch_login hlogin]
    cases hbody : credentials P r with
    | error e => exact asks_throw
    | ok body =>
      have hlimited := asks_login (P := P) body r
      rw [show attemptKey r body = key from
        hkey _ (pairOf_eq_some.mpr ⟨body, hbody, rfl⟩)] at hlimited
      have hhandle : LoginOp key (.handle .login none) := trivial
      exact (asks_call hhandle).bind fun _ ↦ hlimited
  exact fun past ↦ serve_obeys_of_dispatch (hdispatch past) trivial (fun _ _ _ ↦ trivial)
    fun _ _ _ ↦ trivial

end Asks

/-! ### What an attempt does not look at -/

/-- Replies that an attempt takes for the same: the time of a user's last login makes no
difference. -/
def Alike : (o : Op) → Except Exn o.Val → Except Exn o.Val → Prop
  | .userFindUnique _, r, r' => r.map (Option.map User.account) = r'.map (Option.map User.account)
  | _, r, r' => r = r'

section Ignores

variable {P : Platform}

theorem eq_of_alike {o : Op} (h : ∀ email, o ≠ .userFindUnique email) {r r' : Except Exn o.Val}
    (hr : Alike o r r') : r = r' := by
  cases o with
  | userFindUnique email => exact absurd rfl (h email)
  | _ => exact hr

/-- The credentials are verified with what a user keeps for good. -/
theorem ignores_verifyCredentials (email password : JsString) :
    Ignores Alike (AuthService.verifyCredentials email password) := by
  have hN : ∀ o, VerifyOp o → ∀ r r' : Except Exn o.Val, Alike o r r' → r = r' :=
    fun o ho _ _ ↦ eq_of_alike fun _ h ↦ (congrArg VerifyOp h).mp ho
  refine ignores_call_bind ?_ fun user ↦
    (composed_passwordMatches ignores_composable hN user password).bind fun ok ↦ ?_
  · rintro (e | user) (e' | user') h
    · rw [Except.error.inj h]
    · exact nomatch h
    · exact nomatch h
    · have haccount := Except.ok.inj h
      rcases user with _ | ⟨id, address, hash, isAdmin, last⟩
      · rcases user' with _ | user'
        · rfl
        · exact nomatch haccount
      · rcases user' with _ | ⟨id', address', hash', isAdmin', last'⟩
        · exact nomatch haccount
        · simp only [Option.map_some, Option.some_inj, User.account, User.mk.injEq] at haccount
          obtain ⟨rfl, rfl, rfl, rfl, -⟩ := haccount
          refine congrArg (AuthService.passwordMatches (some ⟨id, address, hash, isAdmin, last⟩)
            password >>= ·) (funext fun ok ↦ ?_)
          cases ok <;> rfl
  · split
    · exact (ignores_call (hN .now trivial)).bind fun n ↦
        (ignores_call (hN (.userUpdate _ n) trivial)).bind fun _ ↦
          (composed_id ignores_composable _ (hN (.randomBytes 22) trivial)).bind fun id ↦
            (ignores_call (hN (.auditEventCreate _) trivial)).bind fun _ ↦ ignores_pure
    · exact ignores_throw

theorem ignores_login (body : LoginDto) (r : Request) :
    Ignores Alike (AuthController.login P body r) := by
  have hN : ∀ o, (∀ email, o ≠ .userFindUnique email) →
      ∀ r r' : Except Exn o.Val, Alike o r r' → r = r' := fun o ho _ _ ↦ eq_of_alike ho
  exact composed_login ignores_composable
    (fun o ho ↦ hN o fun _ h ↦ (congrArg CreateOp h).mp ho)
    (composed_limiter ignores_composable (hN _ (by simp)) (hN _ (by simp)))
    (ignores_verifyCredentials _ _) (ignores_call (hN _ (by simp)))

theorem ignores_serve {r : Request} (hlogin : r.route? = some .login) :
    Ignores Alike (serve P r) := by
  have hdispatch : Ignores Alike (dispatch P r) := by
    rw [dispatch_login hlogin]
    exact ignores_ofReply.bind fun body ↦
      (ignores_call fun _ _ ↦ eq_of_alike (by simp)).bind fun _ ↦ ignores_login body r
  rw [serve]
  split
  · exact ignores_pure
  · exact (hdispatch.tryCatch fun _ ↦ ignores_pure).bind fun _ ↦ ignores_pure

end Ignores

/-! ## The attempts and their store -/

/-- What an attempt that is counted under `key` sees of the world. -/
def World.seenBy (key : JsString) (w : World) : ℕ × List User × Option Counter :=
  (w.clock, w.users.map User.account, w.redis key)

/-- There is no row yet with what a new one is to have for itself. -/
def Free (w : World) : Op → Prop
  | .auditEventCreate data => ∀ a ∈ w.auditEvents, a.id ≠ data.id
  | .sessionCreate data => ∀ d ∈ w.rows, d.id ≠ data.id ∧ d.tokenHash ≠ data.tokenHash
  | _ => True

/-- The operations that leave the counter alone. -/
def Apart (key : JsString) : Op → Prop
  | .incr k | .expire k _ | .del k => k ≠ key
  | _ => True

section Store

variable {P : Platform} {key : JsString}

theorem redis_of_apart {y : Bytes} {w w' : World} {o : Op} {r : Except Exn o.Val}
    (ho : Apart key o) (h : World.exec P y w o = some (w', r)) : w'.redis key = w.redis key := by
  cases o with
  | incr k | expire k n | del k =>
    obtain ⟨hw, -⟩ := Prod.mk.inj (Option.some_inj.mp h)
    rw [← hw, World.setCounter_of_ne _ (Ne.symm ho)]
  | _ => rw [World.exec_redis h (by simp) (by simp) (by simp)]

theorem any_id_congr {us us' : List User} (h : us.map User.account = us'.map User.account)
    (id : JsString) : (us.any (·.id = id)) = us'.any (·.id = id) := by
  have hany : ∀ us : List User, (us.map User.account).any (·.id = id) = us.any (·.id = id) :=
    fun us ↦ List.any_map
  rw [← hany us, h, hany us']

theorem find?_email_congr {us us' : List User} (h : us.map User.account = us'.map User.account)
    (email : JsString) : (us.find? (·.email = email)).map User.account =
      (us'.find? (·.email = email)).map User.account := by
  have hfind : ∀ us : List User, (us.map User.account).find? (·.email = email) =
      (us.find? (·.email = email)).map User.account := fun us ↦ List.find?_map
  rw [← hfind us, h, hfind us']

theorem seenBy_setCounter (w : World) (c : Option Counter) :
    (w.setCounter key c).seenBy key = (w.clock, w.users.map User.account, c) := by
  rw [World.seenBy, World.setCounter_self]
  rfl

theorem exec_auditEventCreate {y : Bytes} {w : World} {data : AuditEvent}
    (h : Free w (.auditEventCreate data)) : World.exec P y w (.auditEventCreate data) = some
      (if w.users.any (·.id = data.userId) then
        ({ w with auditEvents := w.auditEvents ++ [data] }, .ok ())
      else
        (w, .error (World.prismaError
          "Foreign key constraint violated: audit_events_userId_fkey"))) := by
  have hfree : ¬w.auditEvents.any (·.id = data.id) := by
    rw [List.any_eq_true]
    rintro ⟨a, ha, htaken⟩
    exact h a ha (of_decide_eq_true htaken)
  rw [World.exec, if_neg hfree]
  split <;> rfl

theorem exec_sessionCreate {y : Bytes} {w : World} {data : SessionData}
    (h : Free w (.sessionCreate data)) : World.exec P y w (.sessionCreate data) = some
      (if w.users.any (·.id = data.userId) then
        ({ w with sessions := w.sessions ++ [World.sessionRow w.clock data] }, .ok ())
      else
        (w, .error (World.prismaError
          "Foreign key constraint violated: sessions_userId_fkey"))) := by
  have hfree : ¬w.sessions.any fun s ↦ s.id = data.id ∨ s.tokenHash = data.tokenHash := by
    rw [List.any_eq_true]
    rintro ⟨s, hs, htaken⟩
    obtain ⟨hid, hhash⟩ := h s.data (List.mem_map_of_mem hs)
    exact (of_decide_eq_true htaken).elim hid hhash
  rw [World.exec, if_neg hfree]
  split <;> rfl

/-- What an attempt sees decides what its operations do to it and, but for the time of a last login,
what they are answered, unless there is a row in the way. -/
theorem exec_seenBy {y : Bytes} {w w' : World} {o : Op} (ho : LoginOp key o)
    (h : w.seenBy key = w'.seenBy key) :
    Option.Rel (fun p p' ↦ Free w o → Free w' o →
        p.1.seenBy key = p'.1.seenBy key ∧ Alike o p.2 p'.2)
      (World.exec P y w o) (World.exec P y w' o) := by
  obtain ⟨hclock, hrest⟩ := Prod.mk.inj h
  obtain ⟨haccounts, hredis⟩ := Prod.mk.inj hrest
  cases o with
  | now => exact .some fun _ _ ↦ ⟨h, congrArg Except.ok hclock⟩
  | randomBytes n => exact rel_ite (.some fun _ _ ↦ ⟨h, rfl⟩) .none
  | incr k =>
    obtain rfl : k = key := ho
    refine .some fun _ _ ↦ ⟨?_, ?_⟩
    · rw [seenBy_setCounter, seenBy_setCounter, hclock, haccounts, hredis]
    · change Except.ok (World.incremented (w.redis k)).count =
        Except.ok (World.incremented (w'.redis k)).count
      rw [hredis]
  | expire k n =>
    obtain rfl : k = key := ho
    refine .some fun _ _ ↦ ⟨?_, rfl⟩
    rw [seenBy_setCounter, seenBy_setCounter, hclock, haccounts, hredis]
  | del k =>
    obtain rfl : k = key := ho
    refine .some fun _ _ ↦ ⟨?_, rfl⟩
    rw [seenBy_setCounter, seenBy_setCounter, hclock, haccounts]
  | userFindUnique email =>
    exact .some fun _ _ ↦ ⟨h, congrArg Except.ok (find?_email_congr haccounts email)⟩
  | userUpdate id t =>
    rw [World.exec, World.exec, any_id_congr haccounts id]
    refine rel_ite (.some fun _ _ ↦ ⟨?_, rfl⟩) (.some fun _ _ ↦ ⟨h, rfl⟩)
    rw [World.seenBy, World.seenBy]
    dsimp only
    rw [accounts_update, accounts_update]
    exact h
  | auditEventCreate data =>
    obtain ⟨p, hp⟩ := Option.isSome_iff_exists.mp (World.exec_isSome (P := P) (y := y) (w := w)
      (o := .auditEventCreate data) (by simp))
    obtain ⟨p', hp'⟩ := Option.isSome_iff_exists.mp (World.exec_isSome (P := P) (y := y) (w := w')
      (o := .auditEventCreate data) (by simp))
    rw [hp, hp']
    refine .some fun hfree hfree' ↦ ?_
    rw [exec_auditEventCreate hfree, any_id_congr haccounts] at hp
    rw [exec_auditEventCreate hfree'] at hp'
    obtain rfl := Option.some_inj.mp hp
    obtain rfl := Option.some_inj.mp hp'
    split
    · exact ⟨h, rfl⟩
    · exact ⟨h, rfl⟩
  | sessionCreate data =>
    obtain ⟨p, hp⟩ := Option.isSome_iff_exists.mp (World.exec_isSome (P := P) (y := y) (w := w)
      (o := .sessionCreate data) (by simp))
    obtain ⟨p', hp'⟩ := Option.isSome_iff_exists.mp (World.exec_isSome (P := P) (y := y) (w := w')
      (o := .sessionCreate data) (by simp))
    rw [hp, hp']
    refine .some fun hfree hfree' ↦ ?_
    rw [exec_sessionCreate hfree, any_id_congr haccounts] at hp
    rw [exec_sessionCreate hfree'] at hp'
    obtain rfl := Option.some_inj.mp hp
    obtain rfl := Option.some_inj.mp hp'
    split
    · exact ⟨h, rfl⟩
    · exact ⟨h, rfl⟩
  | argon2Verify hash password => exact .some fun _ _ ↦ ⟨h, rfl⟩
  | argon2Hash options password => exact .some fun _ _ ↦ ⟨h, rfl⟩
  | handle route session => exact .some fun _ _ ↦ ⟨h, rfl⟩
  | _ => exact ho.elim

theorem api_separates (P : Platform) (key : JsString) :
    (api P).Separates (World.seenBy key) (LoginOp key) (Apart key) Free Alike where
  tick d w w' h := by
    obtain ⟨hclock, hrest⟩ := Prod.mk.inj h
    obtain ⟨haccounts, hredis⟩ := Prod.mk.inj hrest
    change World.seenBy key (w.tick d) = World.seenBy key (w'.tick d)
    rw [World.seenBy, World.seenBy, World.tick_redis, World.tick_redis, World.tick_clock,
      World.tick_clock, hclock, World.tick_users, World.tick_users, haccounts, hredis]
  error o e := by
    cases o with
    | userFindUnique email => rfl
    | _ => rfl
  sees y w w' o ho h := exec_seenBy ho h
  leaves y w o p ho hp := by
    have hclock := World.exec_clock hp
    have haccounts := accounts_exec hp
    have hredis := redis_of_apart ho hp
    rw [World.seenBy, hclock, haccounts, hredis]
    rfl

end Store

/-! ## Isolation -/

/-- An entry of a schedule of requests. -/
abbrev LoginEntry := Interaction.System.Label Exn Request Bytes

/-- The operation looks up the user with an e-mail. -/
def isLookup : Op → Bool
  | .userFindUnique _ => true
  | _ => false

/-- Attempt `i` is admitted: the limiter has let it pass, and its credentials are looked up. -/
def isAdmitted (tr : List ApiEvent) (i : ℕ) : Bool := (own i tr).any (isLookup ·.1)

section Admitted

variable {P : Platform} {r : Request}

/-- The limiter has counted the attempt up to an admitted value. -/
def Counted (P : Platform) (r : Request) (past : List Answered) : Prop :=
  ∃ p, pairOf P r = some p ∧ ∃ n ≤ MAX_ATTEMPTS, (⟨.incr p.key, .ok n⟩ : Answered) ∈ past

/-- A lookup is allowed to an attempt that has been counted. -/
def LooksUp (P : Platform) (r : Request) (past : List Answered) (o : Op) : Prop :=
  isLookup o → Counted P r past

theorem Counted.concat {past : List Answered} (h : Counted P r past) (a : Answered) :
    Counted P r (past ++ [a]) := by
  obtain ⟨p, hp, n, hn, hmem⟩ := h
  exact ⟨p, hp, n, hn, List.mem_append_left _ hmem⟩

theorem limiter_counts {p : LoginPair} (hp : pairOf P r = some p) (past : List Answered) :
    (RateLimitService.assertLoginAllowed (p.ip ++ lit ":" ++ p.email)).Obeys (LooksUp P r)
      (fun _ _ ↦ True) (fun past' result ↦ result = .ok () → Counted P r past') past := by
  refine RateLimitService.assertLoginAllowed_obeys (fun h ↦ absurd h (by simp [isLookup]))
    (fun e ↦ by simp) (fun count _ hok ↦ ?_) (fun h ↦ absurd h (by simp [isLookup]))
    (fun e ↦ by simp) fun _ ↦ ⟨p, hp, 1, by decide, by simp [LoginPair.key]⟩
  rw [RateLimitService.verdict] at hok
  split at hok
  · simp at hok
  · next hle => exact ⟨p, hp, count, not_lt.mp hle, by simp [LoginPair.key]⟩

theorem looksUp_of_counted {key : JsString} {α : Type} {p : Api α} {past : List Answered}
    (h : Asks (LoginOp key) Waits p) (hcounted : Counted P r past) :
    p.Obeys (LooksUp P r) (fun _ _ ↦ True) (fun _ _ ↦ True) past :=
  (h.obeys hcounted fun _ o a hI _ ↦ hI.concat ⟨o, a⟩).imp (fun _ _ hG _ ↦ hG.1)
    (fun _ _ _ ↦ trivial) fun _ _ _ ↦ trivial

theorem login_looksUp {body : LoginDto} (hbody : credentials P r = .ok body)
    (past : List Answered) : (AuthController.login P body r).Obeys (LooksUp P r) (fun _ _ ↦ True)
      (fun _ _ ↦ True) past := by
  have hpair : pairOf P r = some ⟨r.ip.getD (lit "unknown"), body.email⟩ :=
    pairOf_eq_some.mpr ⟨body, hbody, rfl⟩
  have hdel : LoginOp (attemptKey r body) (.del (attemptKey r body)) := rfl
  refine (limiter_counts hpair past).bind (fun past' u hcounted ↦ ?_) fun _ _ _ ↦ trivial
  exact looksUp_of_counted ((asks_verifyCredentials _ _).bind fun _ ↦ (asks_call hdel).bind fun _ ↦
    (composed_create asks_composable (fun _ ↦ loginOp_of_createOp) _ _).bind fun _ ↦
      (composed_token asks_composable trivial).bind fun _ ↦ asks_pure) (hcounted rfl)

theorem serve_looksUp (r : Request) :
    (serve P r).Obeys (fun past o ↦ r.route? = some .login → LooksUp P r past o) (fun _ _ ↦ True)
      (fun _ _ ↦ True) [] := by
  by_cases hlogin : r.route? = some .login
  swap
  · exact (Authentication.serve_obeys r).imp (fun _ _ _ h ↦ absurd h hlogin) (fun _ _ _ ↦ trivial)
      fun _ _ _ ↦ trivial
  have hdispatch : (dispatch P r).Obeys (LooksUp P r) (fun _ _ ↦ True) (fun _ _ ↦ True) [] := by
    rw [dispatch_login hlogin]
    cases hbody : credentials P r with
    | error e => trivial
    | ok body =>
      refine Interaction.Program.obeys_bind.mpr (Interaction.Program.obeys_perform.mpr
        ⟨fun h ↦ absurd h (by simp [isLookup]), fun _ ↦ ?_, fun e ↦ trivial⟩)
      exact login_looksUp hbody _
  have hserve := serve_obeys_of_dispatch hdispatch trivial (fun _ _ _ ↦ trivial) fun _ _ _ ↦ trivial
  exact hserve.imp (fun _ _ h _ ↦ h) (fun _ _ h ↦ h) fun _ _ h ↦ h

theorem counted_of_isAdmitted {w : World} {c : Config Op Op.Val Exn Request Response World}
    (hc : (api P).Reachable w c) {e : ApiEvent} (he : e ∈ c.trace)
    (hlogin : e.call.route? = some .login) (h : isAdmitted c.trace e.thread) :
    Counted P e.call (own e.thread c.trace) := by
  have hord := hc.orderly serve_looksUp
  obtain ⟨⟨o, a⟩, hmem, hlookup⟩ := List.any_eq_true.mp h
  obtain ⟨f, hf, hfe, reply, haction, -⟩ := Interaction.mem_own.mp hmem
  have hcall := hord.call_eq hf he hfe
  obtain ⟨pre, post, htr⟩ := List.append_of_mem hf
  have hdisc := hord.trace pre f post htr
  rw [Interaction.System.Disciplined, haction, hcall, hfe] at hdisc
  obtain ⟨p, hp, n, hn, hcounted⟩ := hdisc hlogin hlookup
  exact ⟨p, hp, n, hn, Interaction.own_subset htr _ hcounted⟩

end Admitted

/-! ### Rows that are new -/

/-- The audit event that an event asks for. -/
def requestedAudit? (e : ApiEvent) : Option AuditEvent :=
  match e.action with
  | .perform (.auditEventCreate a) _ => some a
  | _ => none

/-- Nothing that has to be unique comes up twice, in the rows that there are at the start and those
that requests ask for: the identifiers and the tokens of sessions, and the identifiers of audit
events. -/
structure NewRows (w : World) (tr : List ApiEvent) : Prop where
  ids : ((w.rows ++ tr.filterMap requested?).map SessionData.id).Nodup
  tokens : ((w.rows ++ tr.filterMap requested?).map SessionData.tokenHash).Nodup
  auditIds : ((w.auditEvents ++ tr.filterMap requestedAudit?).map AuditEvent.id).Nodup

section NewRows

variable {P : Platform} {w : World} {c : Config Op Op.Val Exn Request Response World}
  {pre post tr : List ApiEvent} {e : ApiEvent}

theorem ne_of_nodup {α : Type} {f : α → JsString} {l : List α} {ask : ApiEvent → Option α}
    (h : ((l ++ tr.filterMap ask).map f).Nodup) (he : e ∈ tr) {a b : α} (ha : ask e = some a)
    (hb : b ∈ l ∨ ∃ g ∈ tr, g ≠ e ∧ ask g = some b) : f b ≠ f a := by
  rw [List.map_append, List.nodup_append] at h
  obtain ⟨-, hnodup, hdisjoint⟩ := h
  intro heq
  rcases hb with hb | ⟨g, hg, hne, hb⟩
  · exact hdisjoint (f b) (List.mem_map_of_mem hb) (f a)
      (List.mem_map_of_mem (List.mem_filterMap.mpr ⟨e, he, ha⟩)) heq
  · rw [List.map_filterMap] at hnodup
    exact hne (eq_of_nodup hnodup hg he (b := f a) (by rw [hb, Option.map_some, heq])
      (by rw [ha, Option.map_some]))

theorem rows_from (hc : (api P).Reachable w c) :
    Throughout (fun pre e ↦ (∀ d ∈ e.before.rows, d ∈ w.rows ∨ ∃ g ∈ pre, Inserts d g) ∧
      ∀ a ∈ e.before.auditEvents, a ∈ w.auditEvents ∨
        ∃ g ∈ pre, g.done = some ⟨.auditEventCreate a, .ok ()⟩) c.trace := by
  have htrue : Throughout (fun _ _ ↦ True) c.trace := fun _ _ _ _ ↦ trivial
  refine hc.throughout (I := fun w' tr ↦ (∀ d ∈ w'.rows, d ∈ w.rows ∨ ∃ g ∈ tr, Inserts d g) ∧
    ∀ a ∈ w'.auditEvents, a ∈ w.auditEvents ∨
      ∃ g ∈ tr, g.done = some ⟨.auditEventCreate a, .ok ()⟩) htrue
    ⟨fun _ ↦ Or.inl, fun _ ↦ Or.inl⟩ (fun _ _ _ h ↦ h) ?_
  rintro tr e ⟨hrows, haudits⟩ heff -
  have hlater : ∀ {p : ApiEvent → Prop}, (∃ g ∈ tr, p g) → ∃ g ∈ tr ++ [e], p g := by
    rintro p ⟨g, hg, hp⟩
    exact ⟨g, List.mem_append_left _ hg, hp⟩
  refine ⟨fun d hd ↦ ?_, fun a ha ↦ ?_⟩
  · rcases mem_rows_after heff hd with hins | ⟨hmem, -⟩
    · exact Or.inr ⟨e, by simp, hins⟩
    · exact (hrows d hmem).imp_right hlater
  · rcases SessionTable.audits_after heff with ⟨hsame, -⟩ | ⟨a', hd, hafter⟩
    · exact (haudits a (hsame ▸ ha)).imp_right hlater
    · rw [hafter, List.mem_append, List.mem_singleton] at ha
      rcases ha with ha | rfl
      · exact (haudits a ha).imp_right hlater
      · exact Or.inr ⟨e, by simp, hd⟩

theorem NewRows.free_session (h : NewRows w c.trace) (hc : (api P).Reachable w c)
    (htr : c.trace = pre ++ e :: post) {data : SessionData} (ha : requested? e = some data) :
    Free e.before (.sessionCreate data) := by
  intro d hd
  have he : e ∈ c.trace := by simp [htr]
  have hother : d ∈ w.rows ∨ ∃ g ∈ c.trace, g ≠ e ∧ requested? g = some d := by
    refine ((rows_from hc pre e post htr).1 d hd).imp_right ?_
    rintro ⟨g, hg, hins⟩
    have hmem : g ∈ c.trace := by simp [htr, hg]
    refine ⟨g, hmem, ?_, SessionTable.requested_of_inserts hc hmem hins⟩
    -- an insert does not find its own row
    rintro rfl
    exact (hins.fresh (hc.effect he) d hd).1 rfl
  exact ⟨ne_of_nodup h.ids he ha hother, ne_of_nodup h.tokens he ha hother⟩

theorem NewRows.free_audit (h : NewRows w c.trace) (hc : (api P).Reachable w c)
    (htr : c.trace = pre ++ e :: post) {data : AuditEvent} (ha : requestedAudit? e = some data) :
    Free e.before (.auditEventCreate data) := by
  intro a hmem
  have he : e ∈ c.trace := by simp [htr]
  refine ne_of_nodup h.auditIds he ha (((rows_from hc pre e post htr).2 a hmem).imp_right ?_)
  rintro ⟨g, hg, hd⟩
  obtain ⟨p, q, rfl⟩ := List.append_of_mem hg
  have htr' : c.trace = p ++ g :: (q ++ e :: post) := by simp [htr]
  obtain ⟨-, r, haction⟩ := (Authentication.orderly hc).performed htr' hd fun _ h ↦ h
  refine ⟨g, by simp [htr], ?_, by rw [requestedAudit?, haction]⟩
  rintro rfl
  exact (audit_effect (hc.effect he)).1 a.id (by rw [auditId?, hd]) a hmem rfl

/-- Where nothing comes up twice, no insert finds a row in its way. -/
theorem NewRows.unhindered (h : NewRows w c.trace) (hc : (api P).Reachable w c)
    (mine : ℕ → Bool) : Interaction.System.Unhindered mine Free c.trace := by
  intro e he _ o r ha
  obtain ⟨pre, post, htr⟩ := List.append_of_mem he
  cases o with
  | sessionCreate data => exact h.free_session hc htr (requested?_eq_some.mpr ⟨r, ha⟩)
  | auditEventCreate data => exact h.free_audit hc htr (by rw [requestedAudit?, ha])
  | _ => trivial

end NewRows

/-! ### Two runs -/

/-- The requests are logins, and `mine` are the threads of the attempts of the pair. -/
def Belong (P : Platform) (p : LoginPair) (mine : ℕ → Bool) (ls : List LoginEntry) : Prop :=
  ∀ i r, .start i r ∈ ls → r.route? = some .login ∧ (mine i ↔ pairOf P r = some p)

section Isolation

variable {P : Platform} {p : LoginPair} {mine : ℕ → Bool} {ls : List LoginEntry}

/-- What an attempt of another pair asks for leaves the counter alone. -/
theorem apart_serve {key k : JsString} (hne : k ≠ key) {r : Request}
    (hlogin : r.route? = some .login) (hkey : ∀ p, pairOf P r = some p → p.key = k) :
    Asks (Apart key) (Apart key) (serve P r) := by
  refine (asks_serve hlogin hkey).mono (fun o ho ↦ ?_) fun _ h ↦ h.elim
  cases o with
  | incr k' | expire k' n | del k' => exact fun heq ↦ hne (ho.symm.trans heq)
  | _ => trivial

theorem Belong.starts (hemail : ∀ s, P.emailOk s → 58 ∉ s) (h : Belong P p mine ls) {r₀ : Request}
    (hp : pairOf P r₀ = some p) :
    ∀ l ∈ ls, (api P).Starts mine (LoginOp p.key) (Apart p.key) Alike l := by
  rintro l hl i r rfl
  obtain ⟨hlogin, hmine⟩ := h i r hl
  rw [Interaction.System.Fits]
  split
  · next hi =>
    have hpair := hmine.mp hi
    refine ⟨asks_serve hlogin fun p' hp' ↦ ?_, ignores_serve hlogin⟩
    rw [Option.some_inj.mp (hp'.symm.trans hpair)]
  · next hi =>
    have hpair : pairOf P r ≠ some p := fun hpair ↦ hi (hmine.mpr hpair)
    cases hother : pairOf P r with
    | none =>
      refine apart_serve (k := 0 :: p.key) (List.cons_ne_self 0 _) hlogin fun q hq ↦ ?_
      simp [hother] at hq
    | some p' =>
      refine apart_serve (k := p'.key) (fun hkey ↦ ?_) hlogin fun q hq ↦ ?_
      · exact hpair (hother.trans (congrArg some (pair_eq_of_key hemail hother hp hkey)))
      · rw [Option.some_inj.mp (hq.symm.trans hother)]

/-- **Limiter isolation.** Different pairs have different counters; an attempt that is admitted has
been counted, in the counter of its pair, up to a value within the limit; and in every run of login
requests, however their steps are interleaved and whatever fails, the attempts of a pair that are
admitted are decided by the entries about these attempts and by the passing of time alone, as long
as no identifier and no token comes up twice: the attempts of any other pair may be inserted,
deleted and reordered. -/
theorem limiter_isolation (P : Platform) (hemail : ∀ s, P.emailOk s → 58 ∉ s) :
    (∀ r r' p p', pairOf P r = some p → pairOf P r' = some p' → p ≠ p' → p.key ≠ p'.key) ∧
      (∀ w c, (api P).Reachable w c → ∀ e ∈ c.trace, e.call.route? = some .login →
        isAdmitted c.trace e.thread → Counted P e.call (own e.thread c.trace)) ∧
      ∀ (w : World) (r₀ : Request) (p : LoginPair) (mine : ℕ → Bool) (ls ls' : List LoginEntry),
        pairOf P r₀ = some p → Belong P p mine ls → Belong P p mine ls' →
        Interaction.System.part mine ls = Interaction.System.part mine ls' →
        NewRows w ((api P).run ls w).trace → NewRows w ((api P).run ls' w).trace →
        ∀ i, mine i → isAdmitted ((api P).run ls w).trace i =
          isAdmitted ((api P).run ls' w).trace i := by
  refine ⟨fun r r' p p' hp hp' hne hkey ↦ hne (pair_eq_of_key hemail hp hp' hkey),
    fun w c hc e he hlogin h ↦ counted_of_isAdmitted hc he hlogin h,
    fun w r₀ p mine ls ls' hp hls hls' hpart hnew hnew' i hi ↦ ?_⟩
  have hobs : ∀ (o : Op) (a a' : Except Exn o.Val), Alike o a a' →
      isLookup (⟨o, a⟩ : Answered).1 = isLookup (⟨o, a'⟩ : Answered).1 := fun _ _ _ _ ↦ rfl
  have hhistory := (api_separates P p.key).isolated (O := fun a ↦ isLookup a.1) hobs w
    (hls.starts hemail hp) (hls'.starts hemail hp) hpart
    (hnew.unhindered (Interaction.System.reachable_run ls w) mine)
    (hnew'.unhindered (Interaction.System.reachable_run ls' w) mine) hi
  have hany : ∀ past : List Answered,
      past.any (isLookup ·.1) = (past.map (isLookup ·.1)).any id := fun past ↦ by
    rw [List.any_map]
    rfl
  rw [isAdmitted, isAdmitted, hany, hany, hhistory]

end Isolation

/-! Six attempts of a pair, alone and with those of another pair in between. -/

/-- An attempt from some address, with a wrong password. -/
def attemptFrom (ip : Option JsString) (email : JsString) : Request :=
  { loginRequest email (lit "wrong") with ip := ip }

/-- Attempt `i`, up to its lookup. -/
def enters (i : ℕ) (r : Request) : List LoginEntry :=
  .start i r :: .replicate 4 (.next i [] .none)

/-- The attempts of the pair, numbered from 0, each after some entries about others. -/
def sixAttempts (others : ℕ → List LoginEntry) : List LoginEntry :=
  (List.range 6).flatMap fun i ↦
    others i ++ enters i (attemptFrom (some (lit "::1")) (lit "admin@example.com"))

/-- An attempt of another pair. -/
def stranger (i : ℕ) : List LoginEntry :=
  enters (6 + i) (attemptFrom none (lit "admin@example.com"))

theorem start_mem_enters {i j : ℕ} {r r' : Request} :
    (.start i r : LoginEntry) ∈ enters j r' ↔ i = j ∧ r = r' := by
  simp [enters]

theorem belong_sixAttempts {others : ℕ → List LoginEntry}
    (h : ∀ i r j, .start i r ∈ others j → 6 ≤ i ∧ r = attemptFrom none (lit "admin@example.com")) :
    Belong patternPlatform ⟨lit "::1", lit "admin@example.com"⟩ (· < 6) (sixAttempts others) := by
  have hours : pairOf patternPlatform (attemptFrom (some (lit "::1")) (lit "admin@example.com")) =
      some ⟨lit "::1", lit "admin@example.com"⟩ := by rfl
  have hstranger : pairOf patternPlatform (attemptFrom none (lit "admin@example.com")) =
      some ⟨lit "unknown", lit "admin@example.com"⟩ := by rfl
  intro i r hstart
  obtain ⟨j, hj, hmem⟩ := List.mem_flatMap.mp hstart
  rcases List.mem_append.mp hmem with hmem | hmem
  · obtain ⟨hi, rfl⟩ := h i r j hmem
    rw [hstranger]
    exact ⟨by rfl, iff_of_false (by simpa using hi) (by decide)⟩
  · obtain ⟨rfl, rfl⟩ := start_mem_enters.mp hmem
    exact ⟨by rfl, iff_of_true (by simpa using hj) hours⟩

/-- The fifth attempt is admitted, and the sixth is not, whatever the others do. -/
theorem limiter_isolation_sixAttempts :
    isAdmitted ((api patternPlatform).run (sixAttempts stranger) sampleWorld).trace 4 ∧
      ¬isAdmitted ((api patternPlatform).run (sixAttempts stranger) sampleWorld).trace 5 := by
  have h := (limiter_isolation patternPlatform fun _ ↦ JsString.colon_notMem_of_emailRegex).2.2
    sampleWorld (attemptFrom (some (lit "::1")) (lit "admin@example.com"))
    ⟨lit "::1", lit "admin@example.com"⟩ (· < 6) (sixAttempts fun _ ↦ []) (sixAttempts stranger)
    (by rfl) (belong_sixAttempts (by simp)) (belong_sixAttempts fun i r j hmem ↦ by
      obtain ⟨rfl, rfl⟩ := start_mem_enters.mp hmem
      exact ⟨Nat.le_add_right 6 j, rfl⟩) (by rfl)
    ⟨by decide +kernel, by decide +kernel, by decide +kernel⟩
    ⟨by decide +kernel, by decide +kernel, by decide +kernel⟩
  have hfifth := h 4 (by decide)
  have hsixth := h 5 (by decide)
  rw [← hfifth, ← hsixth]
  decide +kernel

end NativeKiln
