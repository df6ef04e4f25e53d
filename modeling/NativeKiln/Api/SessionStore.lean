import NativeKiln.Api.Session

/-!
# The session store under any schedule

Any number of `create`, `validate` and `revoke` calls run against the session table, their database
operations interleaved. Abstractly a token is live from the insert that `create` commits for it
until a `revoke` commits its delete, or until its time is up; `validate` is to say which. The table
is not quite that: a `validate` that found a row expired removes it in a later step, and another one
has its refresh still pending. What makes the two agree is that a clean-up removes a row by an
identifier it has read from an expired row, and identifiers are never used twice.
-/

namespace NativeKiln

open JsString (lit)
open Interaction (Config Event Throughout own)

/-! ## Calls -/

/-- The calls on the session service. -/
inductive SessionCall
  | create (userId : JsString) (info : SessionMeta)
  | validate (token : JsString)
  | revoke (token : JsString)
  deriving DecidableEq

/-- What they resolve with. -/
inductive SessionResult
  | created (session : CreatedSession)
  | validated (context : Option SessionContext)
  | revoked
  deriving DecidableEq

namespace SessionCall

variable (P : Platform)

/-- What a call runs. -/
def body : SessionCall → Api SessionResult
  | create userId info => return .created (← SessionService.create P userId info)
  | validate token => return .validated (← SessionService.validate P (.str token))
  | revoke token => do
    SessionService.revoke P (.str token)
    return .revoked

/-- What a call may do, given what it has done. -/
def Allows : SessionCall → List Answered → Op → Prop
  | create userId info, past, o =>
    past = [] ∧ o = .randomBytes 32 ∨
      (∃ b, past = [⟨.randomBytes 32, .ok b⟩] ∧ o = .now) ∨
      (∃ b n, past = [⟨.randomBytes 32, .ok b⟩, ⟨.now, .ok n⟩] ∧ o = .randomBytes 22) ∨
      ∃ b n b', past = [⟨.randomBytes 32, .ok b⟩, ⟨.now, .ok n⟩, ⟨.randomBytes 22, .ok b'⟩] ∧
        o = .sessionCreate (rowOf P userId info b n b')
  | validate token, past, o =>
    past = [] ∧ o = .sessionFindUnique (SessionService.tokenHash P token) ∨
      ∃ s u, (past = [⟨.sessionFindUnique (SessionService.tokenHash P token), .ok (some (s, u))⟩] ∧
          o = .now) ∨
        ∃ n, (past = [⟨.sessionFindUnique (SessionService.tokenHash P token), .ok (some (s, u))⟩,
            ⟨.now, .ok n⟩] ∧
            (s.expiresAt ≤ n ∧ o = .sessionDelete s.id ∨ n < s.expiresAt ∧ o = .now))
  | revoke token, past, o =>
    past = [] ∧ o = .sessionDeleteMany (SessionService.tokenHash P token)

/-- What a call may leave behind. -/
def Detaches : SessionCall → List Answered → Op → Prop
  | validate token, past, o =>
    ∃ s u n n', past = [⟨.sessionFindUnique (SessionService.tokenHash P token), .ok (some (s, u))⟩,
      ⟨.now, .ok n⟩, ⟨.now, .ok n'⟩] ∧ n < s.expiresAt ∧ o = .sessionUpdate s.id n'
  | _, _, _ => False

/-- What a call has done when it resolves. -/
def Ends : SessionCall → List Answered → Except Exn SessionResult → Prop
  | create userId info, past, .ok result =>
    ∃ b n b', past = [⟨.randomBytes 32, .ok b⟩, ⟨.now, .ok n⟩, ⟨.randomBytes 22, .ok b'⟩,
        ⟨.sessionCreate (rowOf P userId info b n b'), .ok ()⟩] ∧
      result = .created ⟨tokenOf b, n + SESSION_TTL_MS⟩
  | validate token, past, .ok result =>
    (past = [⟨.sessionFindUnique (SessionService.tokenHash P token), .ok none⟩] ∧
        result = .validated none) ∨
      ∃ s u n, (∃ r, past = [⟨.sessionFindUnique (SessionService.tokenHash P token),
            .ok (some (s, u))⟩, ⟨.now, .ok n⟩, ⟨.sessionDelete s.id, r⟩] ∧ s.expiresAt ≤ n ∧
          result = .validated none) ∨
        ∃ n', past = [⟨.sessionFindUnique (SessionService.tokenHash P token), .ok (some (s, u))⟩,
            ⟨.now, .ok n⟩, ⟨.now, .ok n'⟩] ∧ n < s.expiresAt ∧
          result = .validated (some ⟨s.id, s.userId, u.email, u.isAdmin⟩)
  | revoke token, past, .ok result =>
    ∃ r, past = [⟨.sessionDeleteMany (SessionService.tokenHash P token), r⟩] ∧ result = .revoked
  | _, _, .error _ => True

theorem obeys (x : SessionCall) : (body P x).Obeys (Allows P x) (Detaches P x) (Ends P x) [] := by
  cases x with
  | create userId info =>
    simp [body, SessionService.create, SessionService.hash, generateSecretToken, generateId, Allows,
      Ends, rowOf]
  | validate token =>
    simp only [body, SessionService.validate, SessionService.hash, Interaction.Program.obeys_bind,
      Interaction.Program.obeys_pure, Interaction.Program.obeys_perform,
      Interaction.Program.obeys_ofReply, Allows, List.nil_append]
    refine ⟨by simp, ?_, by simp [Ends]⟩
    rintro (_ | ⟨s, u⟩)
    · simp [Ends]
    · simp +contextual [Allows, Detaches, Ends]
  | revoke token =>
    simp [body, SessionService.revoke, SessionService.hash, Allows, Ends]

/-! ### Who sends what -/

variable {P} {x : SessionCall} {past : List Answered}

theorem sends_create {d : SessionData}
    (h : Allows P x past (.sessionCreate d) ∨ Detaches P x past (.sessionCreate d)) :
    ∃ userId info b n b', x = .create userId info ∧ d = rowOf P userId info b n b' ∧
      past = [⟨.randomBytes 32, .ok b⟩, ⟨.now, .ok n⟩, ⟨.randomBytes 22, .ok b'⟩] := by
  cases x with
  | create userId info =>
    obtain ⟨b, n, b', hpast, hd⟩ := by simpa [Allows, Detaches] using h
    exact ⟨userId, info, b, n, b', rfl, hd, hpast⟩
  | validate _ | revoke _ => simp [Allows, Detaches] at h

theorem sends_deleteMany {hash : JsString}
    (h : Allows P x past (.sessionDeleteMany hash) ∨ Detaches P x past (.sessionDeleteMany hash)) :
    ∃ token, x = .revoke token ∧ hash = SessionService.tokenHash P token := by
  cases x with
  | create _ _ | validate _ => simp [Allows, Detaches] at h
  | revoke token =>
    obtain ⟨-, hhash⟩ := by simpa [Allows, Detaches] using h
    exact ⟨token, rfl, hhash⟩

/-- A row is removed or refreshed by its identifier only by a `validate` that has found it, and
removed only when its time is up. -/
theorem sends_touch {o : Op} (h : Allows P x past o ∨ Detaches P x past o) {id : JsString}
    (ho : o = .sessionDelete id ∨ ∃ t, o = .sessionUpdate id t) :
    ∃ token s u n rest, x = .validate token ∧ s.id = id ∧
      (o = .sessionDelete id → s.expiresAt ≤ n) ∧
      past = [⟨.sessionFindUnique (SessionService.tokenHash P token), .ok (some (s, u))⟩,
        ⟨.now, .ok n⟩] ++ rest := by
  cases x with
  | create _ _ | revoke _ => rcases ho with rfl | ⟨t, rfl⟩ <;> simp [Allows, Detaches] at h
  | validate token =>
    rcases ho with rfl | ⟨t, rfl⟩
    · obtain ⟨s, u, n, hpast, hle, hid⟩ := by simpa [Allows, Detaches] using h
      exact ⟨token, s, u, n, [], rfl, hid.symm, fun _ ↦ hle, hpast⟩
    · rcases h with h | ⟨s, u, n, n', hpast, -, hid⟩
      · simp [Allows] at h
      · exact ⟨token, s, u, n, [_], rfl, (Op.sessionUpdate.inj hid).1.symm, by simp, hpast⟩

end SessionCall

/-- Session calls, in any number and order. -/
def sessionStore (P : Platform) :
    Interaction.System Op Op.Val Exn SessionCall SessionResult Bytes World :=
  system P (SessionCall.body P)

/-- An event of the session store. -/
abbrev StoreEvent := WorldEvent SessionCall SessionResult

/-! ## What a token stands for -/

/-- After `tr`, `e` is the insert of a `create` for `userId` that has generated `token` and read the
clock at `n`. -/
structure Creates (token userId : JsString) (n : ℕ) (tr : List StoreEvent) (e : StoreEvent) :
    Prop where
  call : ∃ info, e.call = .create userId info
  token : firstToken (own e.thread tr) = some token
  clock : firstClock (own e.thread tr) = some n
  inserted : ∃ d, Inserts d e

/-- A `revoke` of the token commits its delete in `e`. -/
def RevokedBy (token : JsString) (e : StoreEvent) : Prop :=
  e.call = .revoke token ∧ ∃ hash, Revokes hash e

/-- **The abstract store.** The token stands for the user, in a session opened at `n`: its insert is
committed, and no revoke has committed its delete since. -/
def Live (token userId : JsString) (n : ℕ) (tr : List StoreEvent) : Prop :=
  ∃ pre e post, tr = pre ++ e :: post ∧ Creates token userId n pre e ∧
    ∀ e' ∈ post, ¬RevokedBy token e'

/-- In `tr`, a `validate` of the token looks it up in `e`, after `pre`, and resolves with
`result`. -/
structure Validates (tr pre : List StoreEvent) (e : StoreEvent) (token : JsString)
    (result : Option SessionContext) : Prop where
  call : e.call = .validate token
  lookup : ∃ hash r, e.action = .perform (.sessionFindUnique hash) r
  resolves : ∃ post, tr = pre ++ e :: post ∧
    ∃ f ∈ post, f.thread = e.thread ∧ f.returned = some (.validated result)

/-- The event is a step of a call on the token. -/
def OnToken (tr : List StoreEvent) (token : JsString) (e : StoreEvent) : Prop :=
  match e.call with
  | .create _ _ => firstToken (own e.thread tr) = some token
  | .validate t | .revoke t => t = token

/-- The time a lookup compares expiries with: what its call reads off the clock next, or the time of
the lookup itself when the call reads no clock. -/
def comparedAt (tr : List StoreEvent) (e : StoreEvent) : ℕ :=
  (firstClock (own e.thread tr)).getD e.before.clock

/-! ## What the calls have done -/

section Store

variable {P : Platform} {w₀ : World} {c : Config Op Op.Val Exn SessionCall SessionResult World}

theorem store_orderly (hc : (sessionStore P).Reachable w₀ c) :
    Interaction.System.Orderly (SessionCall.Allows P) (SessionCall.Detaches P)
      (SessionCall.Ends P) c :=
  hc.orderly (SessionCall.obeys P)

/-- An insert is the last step of a `create`. -/
theorem insert_history (hc : (sessionStore P).Reachable w₀ c) {pre post : List StoreEvent}
    {e : StoreEvent} (htr : c.trace = pre ++ e :: post) {d : SessionData} (hd : Inserts d e) :
    ∃ userId info b n b', e.call = .create userId info ∧ d = rowOf P userId info b n b' ∧
      [⟨.randomBytes 32, .ok b⟩, ⟨.now, .ok n⟩, ⟨.randomBytes 22, .ok b'⟩] <+:
        own e.thread pre := by
  obtain ⟨past, hpast, hsends⟩ := (store_orderly hc).allowed_at htr hd.done
  obtain ⟨userId, info, b, n, b', hcall, hrow, rfl⟩ := SessionCall.sends_create hsends
  exact ⟨userId, info, b, n, b', hcall, hrow, hpast⟩

/-- Only a `revoke` takes rows out by their token, and only those of its own. -/
theorem revoke_history (hc : (sessionStore P).Reachable w₀ c) {e : StoreEvent} (he : e ∈ c.trace)
    {hash : JsString} (hd : Revokes hash e) :
    ∃ token, e.call = .revoke token ∧ hash = SessionService.tokenHash P token := by
  obtain ⟨n, hn⟩ := hd.done
  obtain ⟨past, hsends⟩ := (store_orderly hc).allowed he hn
  exact SessionCall.sends_deleteMany hsends

/-- What a `validate` has seen when it removes or refreshes a row. -/
theorem touch_history (hc : (sessionStore P).Reachable w₀ c) {pre post : List StoreEvent}
    {e : StoreEvent} (htr : c.trace = pre ++ e :: post) {o : Op} {a : Except Exn o.Val}
    (hd : e.done = some ⟨o, a⟩) {id : JsString}
    (ho : o = .sessionDelete id ∨ ∃ t, o = .sessionUpdate id t) :
    ∃ token s u n, e.call = .validate token ∧ s.id = id ∧
      (o = .sessionDelete id → s.expiresAt ≤ n) ∧
      [⟨.sessionFindUnique (SessionService.tokenHash P token), .ok (some (s, u))⟩, ⟨.now, .ok n⟩]
        <+: own e.thread pre := by
  obtain ⟨past, hpast, hsends⟩ := (store_orderly hc).allowed_at htr hd
  obtain ⟨token, s, u, n, rest, hcall, hid, hle, rfl⟩ := SessionCall.sends_touch hsends ho
  exact ⟨token, s, u, n, hcall, hid, hle, .trans ⟨rest, rfl⟩ hpast⟩

/-! ## Secrets are used once -/

/-- No token and no identifier is generated twice. -/
structure FreshSecrets (tr : List StoreEvent) : Prop where
  tokens : (tr.filterMap generatedToken?).Nodup
  ids : (tr.filterMap generatedId?).Nodup

theorem insert_eq_of_thread (hc : (sessionStore P).Reachable w₀ c) {e e' : StoreEvent}
    (he : e ∈ c.trace) (he' : e' ∈ c.trace) (hthread : e.thread = e'.thread) {d d' : SessionData}
    (hd : Inserts d e) (hd' : Inserts d' e') : d = d' := by
  obtain ⟨pre, post, htr⟩ := List.append_of_mem he
  obtain ⟨pre', post', htr'⟩ := List.append_of_mem he'
  obtain ⟨u, info, b, n, b₂, hcall, rfl, hpast⟩ := insert_history hc htr hd
  obtain ⟨u', info', b', n', b₂', hcall', rfl, hpast'⟩ := insert_history hc htr' hd'
  have hown := hpast.trans (Interaction.own_prefix ⟨_, htr.symm⟩ _)
  have hown' := hpast'.trans (Interaction.own_prefix ⟨_, htr'.symm⟩ _)
  rw [← hthread] at hown'
  have hlist := (List.prefix_of_prefix_length_le hown hown' le_rfl).eq_of_length rfl
  have hcalls := (store_orderly hc).call_eq he he' hthread
  rw [hcall, hcall', SessionCall.create.injEq] at hcalls
  simp only [List.cons.injEq, Sigma.mk.injEq, heq_eq_eq, Except.ok.injEq, true_and,
    and_true] at hlist
  obtain ⟨rfl, rfl, rfl⟩ := hlist
  rw [hcalls.1, hcalls.2]

theorem insert_token (hc : (sessionStore P).Reachable w₀ c) {e : StoreEvent} (he : e ∈ c.trace)
    {d : SessionData} (hd : Inserts d e) :
    ∃ b, d.tokenHash = SessionService.tokenHash P (tokenOf b) ∧
      ∃ g ∈ c.trace, g.thread = e.thread ∧ generatedToken? g = some (tokenOf b) := by
  obtain ⟨pre, post, htr⟩ := List.append_of_mem he
  obtain ⟨u, info, b, n, b', -, rfl, hpast⟩ := insert_history hc htr hd
  have hown := hpast.trans (Interaction.own_prefix ⟨_, htr.symm⟩ _)
  have hb : (⟨.randomBytes 32, .ok b⟩ : Answered) ∈ own e.thread c.trace :=
    hown.subset (by simp)
  obtain ⟨g, hg, hgi, hgb⟩ := drawn?_of_mem_own hb
  exact ⟨b, rfl, g, hg, hgi, by rw [generatedToken?, hgb]; rfl⟩

theorem requested_of_inserts (hc : (sessionStore P).Reachable w₀ c) {e : StoreEvent}
    (he : e ∈ c.trace) {d : SessionData} (hd : Inserts d e) : requested? e = some d := by
  obtain ⟨pre, post, htr⟩ := List.append_of_mem he
  have hwaits : ∀ past, ¬SessionCall.Detaches P e.call past (.sessionCreate d) := by
    intro past
    cases e.call <;> simp [SessionCall.Detaches]
  obtain ⟨-, haction⟩ := (store_orderly hc).performed htr hd.done hwaits
  exact requested?_eq_some.mpr haction

/-- **Identifiers are used once.** -/
theorem insert_eq_of_id (hc : (sessionStore P).Reachable w₀ c)
    (hids : (c.trace.filterMap generatedId?).Nodup) {e e' : StoreEvent} (he : e ∈ c.trace)
    (he' : e' ∈ c.trace) {d d' : SessionData} (hd : Inserts d e) (hd' : Inserts d' e')
    (hid : d.id = d'.id) : d = d' := by
  have hgenerated : generatedId? e = some d.id := by
    rw [generatedId?, requested_of_inserts hc he hd, Option.map_some]
  have hgenerated' : generatedId? e' = some d.id := by
    rw [generatedId?, requested_of_inserts hc he' hd', Option.map_some, hid]
  obtain rfl := eq_of_nodup hids he he' hgenerated hgenerated'
  exact Option.some_inj.mp (hd.symm.trans hd')

/-- **Tokens are used once.** -/
theorem insert_eq_of_hash (hsha : Function.Injective P.sha256)
    (hc : (sessionStore P).Reachable w₀ c) (htokens : (c.trace.filterMap generatedToken?).Nodup)
    {e e' : StoreEvent} (he : e ∈ c.trace) (he' : e' ∈ c.trace) {d d' : SessionData}
    (hd : Inserts d e) (hd' : Inserts d' e') (hhash : d.tokenHash = d'.tokenHash) : d = d' := by
  obtain ⟨b, hb, g, hg, hgi, hgd⟩ := insert_token hc he hd
  obtain ⟨b', hb', g', hg', hgi', hgd'⟩ := insert_token hc he' hd'
  rw [hb, hb'] at hhash
  obtain rfl := eq_of_nodup htokens hg hg' hgd (by rw [hgd', eq_tokenOf hsha hhash])
  exact insert_eq_of_thread hc he he' (hgi.symm.trans hgi') hd hd'

theorem row_of_found (hc : (sessionStore P).Reachable w₀ c) (h₀ : w₀.sessions = [])
    (hids : (c.trace.filterMap generatedId?).Nodup) {pre post : List StoreEvent} {e : StoreEvent}
    (htr : c.trace = pre ++ e :: post) {hash : JsString} {s : Session} {u : User}
    (hfind : (⟨.sessionFindUnique hash, .ok (some (s, u))⟩ : Answered) ∈ own e.thread pre)
    {d : SessionData} (hmem : d ∈ e.before.rows) (hid : d.id = s.id) :
    d = s.data ∧ s.tokenHash = hash := by
  have htraced := (traced hc h₀).2
  obtain ⟨f, hf, -, hfa⟩ := Interaction.mem_own_ok.mp hfind
  obtain ⟨p, q, rfl⟩ := List.append_of_mem hf
  have htr' : c.trace = p ++ f :: (q ++ e :: post) := by simp [htr]
  obtain ⟨hs, hhash, -⟩ := lookup_spec (hc.effects p f _ htr') hfa rfl
  obtain ⟨p₁, e₁, q₁, hp₁, hins₁, -⟩ := (htraced p f _ htr').granted s.data (List.mem_map_of_mem hs)
  obtain ⟨p₂, e₂, q₂, hp₂, hins₂, -⟩ := (htraced _ e post htr).granted d hmem
  exact ⟨insert_eq_of_id hc hids (by simp [htr, hp₂]) (by simp [htr, hp₁]) hins₂ hins₁ hid, hhash⟩

/-- **A clean-up removes expired rows only.** -/
theorem delete_expired (hc : (sessionStore P).Reachable w₀ c) (h₀ : w₀.sessions = [])
    (hids : (c.trace.filterMap generatedId?).Nodup) {pre post : List StoreEvent} {e : StoreEvent}
    (htr : c.trace = pre ++ e :: post) {id : JsString}
    (hd : e.done = some ⟨.sessionDelete id, .ok ()⟩) {d : SessionData} (hmem : d ∈ e.before.rows)
    (hid : d.id = id) : d.expiresAt ≤ e.before.clock := by
  obtain ⟨token, s, u, n, -, rfl, hle, hpast⟩ := touch_history hc htr hd (Or.inl rfl)
  obtain ⟨rfl, -⟩ := row_of_found hc h₀ hids htr (hpast.subset List.mem_cons_self) hmem hid
  have hnow : (⟨.now, .ok n⟩ : Answered) ∈ own e.thread pre := hpast.subset (by simp)
  exact (hle rfl).trans (now_le hc htr hnow)

/-! ## The table and the abstract store -/

theorem Granted.of_concat {d : SessionData} {tr : List StoreEvent} {e : StoreEvent}
    (h : Granted d (tr ++ [e])) : Inserts d e ∨ Granted d tr ∧ ¬Revokes d.tokenHash e := by
  obtain ⟨pre, e₀, post, heq, hins, hpost⟩ := h
  rcases List.eq_nil_or_concat' post with rfl | ⟨post', e', rfl⟩
  · obtain ⟨-, hlast⟩ := List.append_inj' heq rfl
    exact Or.inl ((List.cons.inj hlast).1 ▸ hins)
  · rw [← List.cons_append, ← List.append_assoc] at heq
    obtain ⟨rfl, hlast⟩ := List.append_inj' heq rfl
    obtain rfl := (List.cons.inj hlast).1
    exact Or.inr ⟨⟨pre, e₀, post', rfl, hins, fun e' he' ↦ hpost e' (List.mem_append_left _ he')⟩,
      hpost e (by simp)⟩

/-- A grant whose time is not up has its row. -/
def Kept (w : World) (tr : List StoreEvent) : Prop :=
  ∀ d, Granted d tr → d ∈ w.rows ∨ d.expiresAt ≤ w.clock

/-- **The step of the clean-up.** As long as rows are removed by their identifier only when their
time is up, grants are kept. -/
theorem Kept.event {e : StoreEvent} {tr : List StoreEvent} (h : Kept e.before tr)
    (heff : (sessionStore P).Effect e)
    (hdelete : ∀ id, e.done = some ⟨.sessionDelete id, .ok ()⟩ → ∀ d ∈ e.before.rows, d.id = id →
      d.expiresAt ≤ e.before.clock) : Kept e.after (tr ++ [e]) := by
  intro d hd
  rw [clock_effect heff]
  rcases hd.of_concat with hins | ⟨hgranted, hnot⟩
  · exact Or.inl (mem_rows_of_inserts heff hins)
  · rcases h d hgranted with hmem | hle
    · rcases mem_rows_or heff hmem with hmem' | hrev | hd'
      · exact Or.inl hmem'
      · exact absurd hrev hnot
      · exact Or.inr (hdelete d.id hd' d hmem rfl)
    · exact Or.inr hle

theorem kept (hc : (sessionStore P).Reachable w₀ c) (h₀ : w₀.sessions = [])
    (hids : (c.trace.filterMap generatedId?).Nodup) :
    Throughout (fun pre e ↦ Kept e.before pre) c.trace := by
  have hD : Throughout (fun _ e ↦ ∀ id, e.done = some ⟨.sessionDelete id, .ok ()⟩ →
      ∀ d ∈ e.before.rows, d.id = id → d.expiresAt ≤ e.before.clock) c.trace :=
    fun _ _ _ htr _ hd _ hmem hid ↦ delete_expired hc h₀ hids htr hd hmem hid
  refine hc.throughout (I := Kept) hD ?_ ?_ fun _ _ h heff hdelete ↦ h.event heff hdelete
  · rintro d ⟨pre, e, post, heq, -⟩
    simp at heq
  · intro w tr n h d hd
    refine (h d hd).imp_right fun hle ↦ ?_
    rw [sessionStore, system_tick, World.tick_clock]
    omega

/-- A grant is what makes a token live. -/
theorem live_of_granted (hsha : Function.Injective P.sha256)
    (hc : (sessionStore P).Reachable w₀ c) {pre post : List StoreEvent} {e : StoreEvent}
    (htr : c.trace = pre ++ e :: post) {d : SessionData} (hd : Granted d pre) {token : JsString}
    (hhash : d.tokenHash = SessionService.tokenHash P token) :
    ∃ n, Live token d.userId n pre ∧ d.expiresAt = n + SESSION_TTL_MS := by
  obtain ⟨p, e₀, q, rfl, hins, hq⟩ := hd
  have htr' : c.trace = p ++ e₀ :: (q ++ e :: post) := by simp [htr]
  obtain ⟨u, info, b, n, b', hcall, rfl, rest, hown⟩ := insert_history hc htr' hins
  obtain rfl := eq_tokenOf hsha hhash.symm
  refine ⟨n, ⟨p, e₀, q, rfl, ⟨⟨info, hcall⟩, ?_, ?_, _, hins⟩, fun e' he' hrev ↦ ?_⟩, rfl⟩
  · rw [← hown]
    rfl
  · rw [← hown]
    rfl
  · obtain ⟨hcall', hash, hhash'⟩ := hrev
    obtain ⟨token, hcall'', rfl⟩ := revoke_history hc (by simp [htr, he']) hhash'
    obtain rfl : tokenOf b = token := SessionCall.revoke.inj (hcall'.symm.trans hcall'')
    exact hq e' he' hhash'

/-- A live token has a grant. -/
theorem granted_of_live (hsha : Function.Injective P.sha256)
    (hc : (sessionStore P).Reachable w₀ c) {pre post : List StoreEvent} {e : StoreEvent}
    (htr : c.trace = pre ++ e :: post) {token userId : JsString} {n : ℕ}
    (h : Live token userId n pre) : ∃ d, Granted d pre ∧
      d.tokenHash = SessionService.tokenHash P token ∧ d.expiresAt = n + SESSION_TTL_MS := by
  obtain ⟨p, e₀, q, rfl, hcreates, hq⟩ := h
  obtain ⟨d, hins⟩ := hcreates.inserted
  have htr' : c.trace = p ++ e₀ :: (q ++ e :: post) := by simp [htr]
  obtain ⟨u, info, b, n', b', hcall, rfl, rest, hown⟩ := insert_history hc htr' hins
  have htoken := hcreates.token
  have hclock := hcreates.clock
  rw [← hown] at htoken hclock
  obtain rfl : tokenOf b = token := Option.some_inj.mp htoken
  obtain rfl : n' = n := Option.some_inj.mp hclock
  refine ⟨_, ⟨p, e₀, q, rfl, hins, fun e' he' hrev ↦ ?_⟩, rfl, rfl⟩
  obtain ⟨token, hcall', hhash⟩ := revoke_history hc (by simp [htr, he']) hrev
  exact hq e' he' ⟨by rw [hcall', eq_tokenOf hsha hhash.symm], _, hrev⟩

/-! ## Validation -/

theorem firstClock_eq_none {past : List Answered}
    (h : ∀ n, (⟨.now, .ok n⟩ : Answered) ∉ past) : firstClock past = none := by
  refine List.findSome?_eq_none_iff.mpr fun a ha ↦ ?_
  split
  · next n => exact absurd ha (h n)
  · rfl

theorem found_of_now (hc : (sessionStore P).Reachable w₀ c) {i : ℕ} {n : ℕ}
    (h : (⟨.now, .ok n⟩ : Answered) ∈ own i c.trace) {e : StoreEvent} (he : e ∈ c.trace)
    (hi : e.thread = i) {token : JsString} (hcall : e.call = .validate token) :
    ∃ s u, [⟨.sessionFindUnique (SessionService.tokenHash P token), .ok (some (s, u))⟩]
      <+: own i c.trace := by
  have hord := store_orderly hc
  obtain ⟨g, hg, hgi, hga⟩ := Interaction.mem_own_ok.mp h
  obtain ⟨pre, post, htr⟩ := List.append_of_mem hg
  have hallows := hord.trace pre g post htr
  rw [Interaction.System.Disciplined, hga, hgi,
    hord.call_eq hg he (hgi.trans hi.symm), hcall] at hallows
  have hle := Interaction.own_prefix ⟨_, htr.symm⟩ i
  rcases hallows with ⟨-, ho⟩ | ⟨s, u, ⟨hown, -⟩ | ⟨n, hown, -⟩⟩
  · simp at ho
  · exact ⟨s, u, hown ▸ hle⟩
  · rw [hown] at hle
    exact ⟨s, u, .trans ⟨_, rfl⟩ hle⟩

/-- What a `validate` has seen when it resolves. -/
theorem validate_history (hc : (sessionStore P).Reachable w₀ c) {pre : List StoreEvent}
    {e : StoreEvent} {token : JsString} {result : Option SessionContext}
    (h : Validates c.trace pre e token result) :
    ∃ v, e.action = .perform (.sessionFindUnique (SessionService.tokenHash P token))
        (.answered (.ok v)) ∧
      match v with
      | none => result = none ∧ firstClock (own e.thread c.trace) = none
      | some (s, u) => ∃ n, firstClock (own e.thread c.trace) = some n ∧
          (s.expiresAt ≤ n ∧ result = none ∨
            n < s.expiresAt ∧ result = some ⟨s.id, s.userId, u.email, u.isAdmin⟩) := by
  have hord := store_orderly hc
  obtain ⟨post, htr, f, hf, hthread, hret⟩ := h.resolves
  obtain ⟨hash, r, ha⟩ := h.lookup
  obtain ⟨mid, post', rfl⟩ := List.append_of_mem hf
  have htr' : c.trace = (pre ++ e :: mid) ++ f :: post' := by simp [htr]
  have hends := hord.trace _ f post' htr'
  rw [Interaction.System.Disciplined, Interaction.Event.action_of_returned hret, hthread,
    ← hord.call_eq (by simp [htr]) (by simp [htr]) hthread.symm, h.call] at hends
  have hle := Interaction.own_prefix ⟨_, htr'.symm⟩ e.thread
  have hmem : (⟨.sessionFindUnique hash, r.seen⟩ : Answered) ∈ own e.thread (pre ++ e :: mid) :=
    Interaction.mem_own.mpr ⟨e, by simp, rfl, r, ha, rfl⟩
  -- the lookup is the first thing the call has done
  have hfirst : ∀ {v : Option (Session × User)} {rest : List Answered},
      own e.thread (pre ++ e :: mid) =
        ⟨.sessionFindUnique (SessionService.tokenHash P token), .ok v⟩ :: rest →
      (∀ hash r, (⟨.sessionFindUnique hash, r⟩ : Answered) ∉ rest) →
      e.action = .perform (.sessionFindUnique (SessionService.tokenHash P token))
        (.answered (.ok v)) := by
    intro v rest hown hrest
    rw [hown, List.mem_cons] at hmem
    rcases hmem with hmem | hmem
    · obtain ⟨ho, hr⟩ := Sigma.mk.inj hmem
      obtain rfl := Op.sessionFindUnique.inj ho
      rw [ha, Interaction.Reply.eq_answered (eq_of_heq hr)]
    · exact absurd hmem (hrest _ _)
  rcases hends with ⟨hown, hres⟩ | ⟨s, u, n, ⟨r', hown, hexp, hres⟩ | ⟨n', hown, hlt, hres⟩⟩
  · refine ⟨none, hfirst hown (by simp), SessionResult.validated.inj hres,
      firstClock_eq_none fun n hn ↦ ?_⟩
    obtain ⟨s, u, hfound⟩ := found_of_now hc hn (by simp [htr]) rfl h.call
    rw [hown] at hle
    have heq := (List.prefix_of_prefix_length_le hle hfound le_rfl).eq_of_length rfl
    simp at heq
  · obtain ⟨rest, hrest⟩ := hown ▸ hle
    exact ⟨some (s, u), hfirst hown (by simp), n, by rw [← hrest]; rfl,
      Or.inl ⟨hexp, SessionResult.validated.inj hres⟩⟩
  · obtain ⟨rest, hrest⟩ := hown ▸ hle
    exact ⟨some (s, u), hfirst hown (by simp), n, by rw [← hrest]; rfl,
      Or.inr ⟨hlt, SessionResult.validated.inj hres⟩⟩

theorem validate_iff (hsha : Function.Injective P.sha256) (h₀ : w₀.sessions = [])
    (hc : (sessionStore P).Reachable w₀ c) (hfresh : FreshSecrets c.trace) {pre : List StoreEvent}
    {e : StoreEvent} {token : JsString} {result : Option SessionContext}
    (h : Validates c.trace pre e token result) :
    (result.isSome ↔ ∃ userId n, Live token userId n pre ∧
      comparedAt c.trace e < n + SESSION_TTL_MS) ∧
    ∀ context, result = some context → ∃ n, Live token context.userId n pre ∧
      comparedAt c.trace e < n + SESSION_TTL_MS := by
  obtain ⟨v, ha, hv⟩ := validate_history hc h
  obtain ⟨post, htr, -⟩ := h.resolves
  have hlookup := lookup_spec (hc.effects pre e post htr) ha rfl
  cases v with
  | none =>
    obtain ⟨rfl, hclock⟩ := hv
    rw [comparedAt, hclock, Option.getD_none]
    refine ⟨⟨by simp, ?_⟩, by simp⟩
    rintro ⟨userId, n, hlive, hlt⟩
    obtain ⟨d, hgranted, hhash, hexp⟩ := granted_of_live hsha hc htr hlive
    rcases kept hc h₀ hfresh.ids pre e post htr d hgranted with hmem | hle
    · exact absurd hhash (hlookup d hmem)
    · omega
  | some found =>
    obtain ⟨s, u⟩ := found
    obtain ⟨n, hclock, hres⟩ := hv
    obtain ⟨hs, hhash, -⟩ := hlookup
    have hgranted := ((traced hc h₀).2 pre e post htr).granted s.data (List.mem_map_of_mem hs)
    obtain ⟨n₀, hlive, hexp⟩ := live_of_granted hsha hc htr hgranted hhash
    change s.expiresAt = _ at hexp
    rw [comparedAt, hclock, Option.getD_some]
    rcases hres with ⟨hle, rfl⟩ | ⟨hlt, rfl⟩
    · refine ⟨⟨by simp, ?_⟩, by simp⟩
      rintro ⟨userId, n', hlive', hlt⟩
      obtain ⟨d, hgranted', hhash', hexp'⟩ := granted_of_live hsha hc htr hlive'
      -- no other create has generated this token
      obtain ⟨p₁, e₁, q₁, hp₁, hins₁, -⟩ := hgranted
      obtain ⟨p₂, e₂, q₂, hp₂, hins₂, -⟩ := hgranted'
      obtain rfl := insert_eq_of_hash hsha hc hfresh.tokens (by simp [htr, hp₂])
        (by simp [htr, hp₁]) hins₂ hins₁ (hhash'.trans hhash.symm)
      change s.expiresAt = _ at hexp'
      omega
    · refine ⟨iff_of_true rfl ⟨s.userId, n₀, hlive, by omega⟩, fun context hcontext ↦ ?_⟩
      rw [← Option.some_inj.mp hcontext]
      exact ⟨n₀, hlive, by omega⟩

/-- The calls on a token leave the rows of all others alone. -/
theorem leaves_others (hc : (sessionStore P).Reachable w₀ c) (h₀ : w₀.sessions = [])
    (hfresh : FreshSecrets c.trace) {e : StoreEvent} (he : e ∈ c.trace) {token : JsString}
    (hon : OnToken c.trace token e) :
    e.after.sessions.filter (·.tokenHash ≠ SessionService.tokenHash P token) =
      e.before.sessions.filter (·.tokenHash ≠ SessionService.tokenHash P token) := by
  obtain ⟨pre, post, htr⟩ := List.append_of_mem he
  -- a row that a `validate` of the token removes or refreshes is a row of the token
  have htouch : ∀ {o : Op} {a : Except Exn o.Val}, e.done = some ⟨o, a⟩ → ∀ id,
      (o = .sessionDelete id ∨ ∃ t, o = .sessionUpdate id t) → ∀ s ∈ e.before.sessions,
        s.id = id → s.tokenHash = SessionService.tokenHash P token := by
    intro o a hd id ho s hs hid
    obtain ⟨token', s', u, n, hcall, rfl, -, hpast⟩ := touch_history hc htr hd ho
    obtain ⟨hdata, hhash⟩ := row_of_found hc h₀ hfresh.ids htr (hpast.subset List.mem_cons_self)
      (List.mem_map_of_mem hs) hid
    rw [OnToken, hcall] at hon
    rw [← hon, ← hhash]
    exact congrArg SessionData.tokenHash hdata
  cases sessionStep (hc.effects pre e post htr) with
  | insert d hd _ _ hafter =>
    obtain ⟨u, info, b, n, b', hcall, rfl, hown⟩ := insert_history hc htr hd
    obtain ⟨rest, hrest⟩ := hown.trans (Interaction.own_prefix ⟨_, htr.symm⟩ _)
    rw [OnToken, hcall, ← hrest] at hon
    obtain rfl : tokenOf b = token := Option.some_inj.mp hon
    rw [hafter, List.filter_append]
    simp [World.sessionRow, rowOf]
  | delete id hd _ hafter =>
    rw [hafter, List.filter_filter]
    refine List.filter_congr fun s hs ↦ ?_
    by_cases hid : s.id = id
    · simp [htouch hd id (Or.inl rfl) s hs hid]
    · simp [Session.data, hid]
  | refresh id t hd _ hafter =>
    have hother : ∀ s ∈ e.before.sessions.filter
        (·.tokenHash ≠ SessionService.tokenHash P token), s.id ≠ id := by
      intro s hs hid
      rw [List.mem_filter, decide_eq_true_eq] at hs
      exact hs.2 (htouch hd id (Or.inr ⟨t, rfl⟩) s hs.1 hid)
    have hcongr : ∀ s ∈ e.before.sessions,
        ((fun s : Session ↦ decide (s.tokenHash ≠ SessionService.tokenHash P token)) ∘
            fun s ↦ if s.id = id then { s with lastSeenAt := t } else s) s =
          decide (s.tokenHash ≠ SessionService.tokenHash P token) := by
      intro s _
      rw [Function.comp_apply]
      split <;> rfl
    rw [hafter, List.filter_map, List.filter_congr hcongr]
    exact (List.map_congr_left fun s hs ↦ if_neg (hother s hs)).trans (List.map_id' _)
  | revoke hash hd hafter =>
    obtain ⟨token', hcall, rfl⟩ := revoke_history hc he hd
    rw [OnToken, hcall] at hon
    subst hon
    rw [hafter, List.filter_filter]
    exact List.filter_congr fun s _ ↦ Bool.and_self _
  | other _ _ hafter => rw [hafter]

/-- **The session table refines the abstract store.** In every run in which no secret is
generated twice, `validate` returns a context exactly when the token is live at the lookup
and its time is not up when the expiry is compared, and then a context of the user the session was
created for. A refresh changes nothing a row was created with; a clean-up removes rows only when
their time is up; and the calls on a token leave the rows of all others alone. -/
theorem sessions_refine (P : Platform) (hsha : Function.Injective P.sha256) (w₀ : World)
    (h₀ : w₀.sessions = []) (c : Config Op Op.Val Exn SessionCall SessionResult World)
    (hc : (sessionStore P).Reachable w₀ c) (hfresh : FreshSecrets c.trace) :
    (∀ pre e token result, Validates c.trace pre e token result →
        (result.isSome ↔ ∃ userId n, Live token userId n pre ∧
          comparedAt c.trace e < n + SESSION_TTL_MS) ∧
        ∀ context, result = some context → ∃ n, Live token context.userId n pre ∧
          comparedAt c.trace e < n + SESSION_TTL_MS) ∧
      (∀ e ∈ c.trace, ∀ id t, e.done = some ⟨.sessionUpdate id t, .ok ()⟩ →
        e.after.rows = e.before.rows) ∧
      (∀ e ∈ c.trace, ∀ id, e.done = some ⟨.sessionDelete id, .ok ()⟩ →
        ∀ d ∈ e.before.rows, d ∉ e.after.rows → d.expiresAt ≤ e.before.clock) ∧
      ∀ e ∈ c.trace, ∀ token, OnToken c.trace token e →
        e.after.sessions.filter (·.tokenHash ≠ SessionService.tokenHash P token) =
          e.before.sessions.filter (·.tokenHash ≠ SessionService.tokenHash P token) := by
  refine ⟨fun pre e token result h ↦ validate_iff hsha h₀ hc hfresh h, fun e he id t hd ↦ ?_,
    fun e he id hd d hmem hnot ↦ ?_, fun e he token hon ↦ leaves_others hc h₀ hfresh he hon⟩
  · obtain ⟨pre, post, htr⟩ := List.append_of_mem he
    cases sessionStep (hc.effects pre e post htr) with
    | insert d hd' => simp [Inserts, inserted?, hd] at hd'
    | delete id' hd' => simp [hd] at hd'
    | refresh id' t' _ _ hafter => exact rows_of_refresh hafter
    | revoke hash hd' => simp [Revokes, revoked?, hd] at hd'
    | other _ _ hafter => rw [World.rows, hafter, World.rows]
  · obtain ⟨pre, post, htr⟩ := List.append_of_mem he
    rcases mem_rows_or (hc.effects pre e post htr) hmem with hmem' | hrev | hd'
    · exact absurd hmem' hnot
    · simp [Revokes, revoked?, hd] at hrev
    · exact delete_expired hc h₀ hfresh.ids htr hd' hmem rfl

end Store

/-! A run in which a token is live although it was revoked: it was revoked before it was
generated. -/

/-- Every operation that was performed in the event was answered with a value. -/
def answered (e : StoreEvent) : Bool :=
  match e.action with
  | .perform _ r | .background _ r =>
    match r with
    | .answered (.ok _) => true
    | _ => false
  | _ => true

/-- A token is revoked, then it is generated, then it is validated. -/
def earlyRevoke : Config Op Op.Val Exn SessionCall SessionResult World :=
  (sessionStore samplePlatform).run
    [.start 0 (.revoke (sampleToken 0)), .next 0 [] .none, .next 0 [] .none,
      .start 1 (.create (lit "usr_admin") ⟨none, none⟩), .next 1 (.replicate 32 0) .none,
      .next 1 [] .none, .next 1 (.replicate 22 0) .none, .next 1 [] .none, .next 1 [] .none,
      .start 2 (.validate (sampleToken 0)), .next 2 [] .none, .next 2 [] .none, .next 2 [] .none,
      .next 2 [] .none, .next 2 [] .none] sampleWorld

theorem earlyRevoke_fresh : FreshSecrets earlyRevoke.trace :=
  ⟨by decide +kernel, by decide +kernel⟩

theorem earlyRevoke_validates : ∃ e context, earlyRevoke.trace[10]? = some e ∧
    Validates earlyRevoke.trace (earlyRevoke.trace.take 10) e (sampleToken 0) (some context) := by
  refine ⟨_, ⟨idOf (lit "ses") (.replicate 22 0), lit "usr_admin", lit "admin@example.com", true⟩,
    rfl, rfl, ⟨_, _, rfl⟩, earlyRevoke.trace.drop 11, rfl, _, List.mem_of_getElem? (i := 3) rfl,
    rfl, by decide +kernel⟩

/-- Revoking a token does not keep it from being generated afterwards: it is live although a revoke
of it committed its delete before the lookup. -/
theorem revoke_before_create :
    (sessionStore samplePlatform).Reachable sampleWorld earlyRevoke ∧
      FreshSecrets earlyRevoke.trace ∧ earlyRevoke.trace.all answered ∧
      ¬∀ pre e token result, Validates earlyRevoke.trace pre e token result →
        (result.isSome ↔ ∃ userId n, (∃ p e₀ q, pre = p ++ e₀ :: q ∧ Creates token userId n p e₀) ∧
          (∀ e' ∈ pre, ¬RevokedBy token e') ∧
          comparedAt earlyRevoke.trace e < n + SESSION_TTL_MS) := by
  refine ⟨Interaction.System.reachable_run .., earlyRevoke_fresh, by decide +kernel, fun h ↦ ?_⟩
  obtain ⟨e, context, -, hval⟩ := earlyRevoke_validates
  obtain ⟨userId, n, -, hrev, -⟩ := (h _ _ _ _ hval).mp rfl
  exact hrev _ (List.mem_of_getElem? (i := 1) rfl) ⟨rfl, _, rfl⟩

theorem sessions_refine_earlyRevoke : ∃ context : SessionContext,
    ∃ n, Live (sampleToken 0) context.userId n (earlyRevoke.trace.take 10) := by
  obtain ⟨e, context, -, hval⟩ := earlyRevoke_validates
  obtain ⟨n, hlive, -⟩ := ((sessions_refine samplePlatform sampleSha256_injective sampleWorld rfl
    earlyRevoke (Interaction.System.reachable_run ..) earlyRevoke_fresh).1 _ _ _ _ hval).2
    context rfl
  exact ⟨context, n, hlive⟩

/-! ## Revocation -/

/-- The delete of a `revoke` was refused. -/
def refused (e : StoreEvent) : Bool :=
  match e.action with
  | .perform (.sessionDeleteMany _) (.rejected _) => true
  | _ => false

/-- What has to hold of the steps for a revocation to be final: no delete of a `revoke` is refused,
and no row is inserted for a token after a delete for it. -/
def Effective (pre : List StoreEvent) (e : StoreEvent) : Prop :=
  refused e = false ∧ ∀ d ∈ inserted? e, ∀ e' ∈ pre, ¬Revokes d.tokenHash e'

instance (pre : List StoreEvent) (e : StoreEvent) : Decidable (Effective pre e) :=
  inferInstanceAs (Decidable (_ ∧ _))

section Revocation

variable {P : Platform} {w₀ : World} {c : Config Op Op.Val Exn SessionCall SessionResult World}

/-- No row is left of a token that was revoked. -/
def Swept (w : World) (tr : List StoreEvent) : Prop :=
  ∀ hash, (∃ e ∈ tr, Revokes hash e) → ∀ d ∈ w.rows, d.tokenHash ≠ hash

theorem Swept.event {e : StoreEvent} {tr : List StoreEvent} (h : Swept e.before tr)
    (heff : (sessionStore P).Effect e) (heffective : Effective tr e) :
    Swept e.after (tr ++ [e]) := by
  rintro hash ⟨e', he', hrev'⟩ d hmem heq
  subst heq
  rw [List.mem_append, List.mem_singleton] at he'
  rcases mem_rows_after heff hmem with hins | ⟨hmem, hrev⟩
  · rcases he' with he' | rfl
    · exact heffective.2 d hins e' he' hrev'
    · exact hins.not_revokes hrev'
  · rcases he' with he' | rfl
    · exact h _ ⟨e', he', hrev'⟩ d hmem rfl
    · exact hrev hrev'

theorem revokes_of_returned (hc : (sessionStore P).Reachable w₀ c)
    (heffective : Throughout Effective c.trace) {pre post : List StoreEvent} {f : StoreEvent}
    (htr : c.trace = pre ++ f :: post) {token : JsString} (hcall : f.call = .revoke token)
    (hret : f.returned = some .revoked) :
    ∃ e ∈ pre, Revokes (SessionService.tokenHash P token) e := by
  have hends := (store_orderly hc).trace pre f post htr
  rw [Interaction.System.Disciplined, Interaction.Event.action_of_returned hret, hcall] at hends
  obtain ⟨r, hown, -⟩ := hends
  have hmem : (⟨.sessionDeleteMany (SessionService.tokenHash P token), r⟩ : Answered)
      ∈ own f.thread pre := by rw [hown]; exact List.mem_singleton_self _
  obtain ⟨e, he, -, r', ha, -⟩ := Interaction.mem_own.mp hmem
  obtain ⟨p, q, hpq⟩ := List.append_of_mem he
  have htr' : c.trace = p ++ e :: (q ++ f :: post) := by rw [htr, hpq]; simp
  -- it was carried out, and a delete of many rows cannot fail
  obtain ⟨a, hdone⟩ : ∃ a,
      e.done = some ⟨.sessionDeleteMany (SessionService.tokenHash P token), a⟩ := by
    cases hr : r' with
    | answered a => exact ⟨a, by rw [Interaction.Event.done, ha, hr]; rfl⟩
    | rejected x =>
      have hrefused := (heffective p e _ htr').1
      rw [refused, ha, hr] at hrefused
      simp at hrefused
    | lost a x => exact ⟨a, by rw [Interaction.Event.done, ha, hr]; rfl⟩
  obtain ⟨y, hy⟩ := (hc.effects p e _ htr').exec hdone
  obtain ⟨-, rfl⟩ := Prod.mk.inj (Option.some_inj.mp hy)
  exact ⟨e, he, by rw [Revokes, revoked?, hdone]⟩

/-- **A revocation is final** in every run whose deletes take effect: a `validate` that looks the
token up after a `revoke` of it has resolved resolves with nothing. -/
theorem revoke_final (P : Platform) (w₀ : World)
    (c : Config Op Op.Val Exn SessionCall SessionResult World)
    (hc : (sessionStore P).Reachable w₀ c) (heffective : Throughout Effective c.trace) :
    ∀ pre e token result, Validates c.trace pre e token result →
      (∃ f ∈ pre, f.call = .revoke token ∧ f.returned = some .revoked) → result = none := by
  rintro pre e token result hval ⟨f, hf, hcall, hret⟩
  obtain ⟨post, htr, -⟩ := hval.resolves
  obtain ⟨p, q, rfl⟩ := List.append_of_mem hf
  have htr' : c.trace = p ++ f :: (q ++ e :: post) := by simp [htr]
  obtain ⟨e', he', hrev⟩ := revokes_of_returned hc heffective htr' hcall hret
  have hswept : Throughout (fun pre e ↦ Swept e.before pre) c.trace :=
    hc.throughout (I := Swept) heffective (by rintro hash ⟨e, he, -⟩; simp at he)
      (fun _ _ _ h ↦ h) fun _ _ h heff heffective ↦ h.event heff heffective
  obtain ⟨v, ha, hv⟩ := validate_history hc hval
  have hlookup := lookup_spec (hc.effects _ e post htr) ha rfl
  cases v with
  | none => exact hv.1
  | some found =>
    obtain ⟨s, u⟩ := found
    exact absurd hlookup.2.1 (hswept _ e post htr _ ⟨e', by simp [he'], hrev⟩ s.data
      (List.mem_map_of_mem hlookup.1))

/-- A user logs in and out, and the token is validated once more; the delete may go wrong. -/
def logoutRun (f : Interaction.System.Fault Exn) :
    Config Op Op.Val Exn SessionCall SessionResult World :=
  (sessionStore samplePlatform).run
    [.start 0 (.create (lit "usr_admin") ⟨none, none⟩), .next 0 (.replicate 32 0) .none,
      .next 0 [] .none, .next 0 (.replicate 22 0) .none, .next 0 [] .none, .next 0 [] .none,
      .start 1 (.revoke (sampleToken 0)), .next 1 [] f, .next 1 [] .none,
      .start 2 (.validate (sampleToken 0)), .next 2 [] .none, .next 2 [] .none, .next 2 [] .none,
      .next 2 [] .none, .next 2 [] .none] sampleWorld

theorem revoke_final_logout : ∃ e result, Validates (logoutRun .none).trace
    ((logoutRun .none).trace.take 10) e (sampleToken 0) result ∧ result = none := by
  have hval : ∃ e result, Validates (logoutRun .none).trace ((logoutRun .none).trace.take 10) e
      (sampleToken 0) result :=
    ⟨_, _, rfl, ⟨_, _, rfl⟩, (logoutRun .none).trace.drop 11, rfl, _,
      List.mem_of_getElem? (i := 0) rfl, rfl, rfl⟩
  obtain ⟨e, result, hval⟩ := hval
  exact ⟨e, result, hval, revoke_final samplePlatform sampleWorld (logoutRun .none)
    (Interaction.System.reachable_run ..) (by decide +kernel) _ e (sampleToken 0) result hval
    ⟨_, List.mem_of_getElem? (i := 8) rfl, rfl, rfl⟩⟩

/-- The run in which the database refuses the delete. -/
def swallowedLogout : Config Op Op.Val Exn SessionCall SessionResult World :=
  logoutRun (.reject (World.prismaError "Connection refused"))

/-- **The delete of a `revoke` may be refused without anybody noticing**: the revoke resolves all
the same, and the token stays valid. -/
theorem revoke_swallowed :
    (sessionStore samplePlatform).Reachable sampleWorld swallowedLogout ∧
      ¬∀ pre e token result, Validates swallowedLogout.trace pre e token result →
        (∃ f ∈ pre, f.call = .revoke token ∧ f.returned = some .revoked) → result = none := by
  refine ⟨Interaction.System.reachable_run .., fun h ↦ ?_⟩
  have hval : ∃ e context, Validates swallowedLogout.trace (swallowedLogout.trace.take 10) e
      (sampleToken 0) (some context) :=
    ⟨_, ⟨idOf (lit "ses") (.replicate 22 0), lit "usr_admin", lit "admin@example.com", true⟩,
      rfl, ⟨_, _, rfl⟩, swallowedLogout.trace.drop 11, rfl, _, List.mem_of_getElem? (i := 3) rfl,
      rfl, by decide +kernel⟩
  obtain ⟨e, context, hval⟩ := hval
  exact absurd (h _ _ _ _ hval ⟨_, List.mem_of_getElem? (i := 8) rfl, rfl, rfl⟩) (by simp)

end Revocation

end NativeKiln
