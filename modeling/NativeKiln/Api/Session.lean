import NativeKiln.Api.RateLimit

/-!
# Sessions

`session.service.ts`, with the identifiers of `ids.ts`. A session is an opaque random token; the
table holds its SHA-256 hash. The table is not asked whether a token is valid in one step: a lookup,
a reading of the clock, and then a clean-up of the expired row or a detached refresh follow one
another, and other calls run in between.

What the session operations do to the table is said once for every event (`sessionStep`), and the
rows are traced back to the inserts that made them (`Traced`).
-/

namespace NativeKiln

open JsString (lit)
open Interaction (Config Event Throughout own)

/-! ## Identifiers -/

def ALPHABET : JsString :=
  lit "abcdefghijklmnopqrstuvwxyzABCDEFGHIJKLMNOPQRSTUVWXYZ0123456789"

/-- The identifier that `bytes` spell. -/
def idOf (idPrefix : JsString) (bytes : Bytes) : JsString :=
  idPrefix ++ lit "_" ++ bytes.map fun b ↦ ALPHABET.getD (b.toNat % ALPHABET.length) 0

def generateId (idPrefix : JsString) (length : ℕ) : Api JsString := do
  let bytes ← call (.randomBytes length)
  return idOf idPrefix bytes

/-- The token that `bytes` spell. -/
def tokenOf (bytes : Bytes) : JsString := Base64.encode .base64url bytes

def generateSecretToken (byteLength : ℕ) : Api JsString := do
  let bytes ← call (.randomBytes byteLength)
  return tokenOf bytes

/-! ## The service -/

def SESSION_COOKIE : JsString := lit "kiln_session"

/-- 12 hours. -/
def SESSION_TTL_MS : ℕ := 12 * 60 * 60 * 1000

/-- What a login request tells about itself. -/
structure SessionMeta where
  userAgent : Option JsString
  ipAddress : Option JsString
  deriving DecidableEq

structure CreatedSession where
  token : JsString
  expiresAt : ℕ
  deriving DecidableEq

namespace SessionService

variable (P : Platform)

/-- The column a token is looked up by. -/
def tokenHash (token : JsString) : JsString := P.sha256 token.utf8

/-- `hash`. A cookie may have been parsed into something other than a string, which
`createHash(..).update` refuses. -/
def hash (token : Json) : Api JsString :=
  match token with
  | .str s => return tokenHash P s
  | _ => throw (.error
      (lit "The \"data\" argument must be of type string or an instance of " ++
        lit "Buffer, TypedArray, or DataView.") [])

def create (userId : JsString) (info : SessionMeta) : Api CreatedSession := do
  let token ← generateSecretToken 32
  let expiresAt := (← call .now) + SESSION_TTL_MS
  let id ← generateId (lit "ses") 22
  call (.sessionCreate
    { id, userId, tokenHash := ← hash P (.str token)
      userAgent := info.userAgent, ipAddress := info.ipAddress, expiresAt })
  return { token, expiresAt }

def validate (token : Json) : Api (Option SessionContext) := do
  let found ← call (.sessionFindUnique (← hash P token))
  match found with
  | none => return none
  | some (session, user) =>
    if session.expiresAt ≤ (← call .now) then
      tryCatch (call (.sessionDelete session.id)) fun _ ↦ return ()
      return none
    -- the refresh is sent off; nobody waits for it, and its failure is ignored
    spawn (.sessionUpdate session.id (← call .now))
    return some
      { sessionId := session.id, userId := session.userId
        email := user.email, isAdmin := user.isAdmin }

/-- A failed delete is swallowed. -/
def revoke (token : Json) : Api Unit := do
  let hash ← hash P token
  tryCatch (do let _ ← call (.sessionDeleteMany hash)) fun _ ↦ return ()

end SessionService

/-- The row of a session, from the random bytes of its token and its identifier and the time read
in between. -/
def rowOf (P : Platform) (userId : JsString) (info : SessionMeta) (b : Bytes) (n : ℕ) (b' : Bytes) :
    SessionData where
  id := idOf (lit "ses") b'
  userId := userId
  tokenHash := SessionService.tokenHash P (tokenOf b)
  userAgent := info.userAgent
  ipAddress := info.ipAddress
  expiresAt := n + SESSION_TTL_MS

/-! ## What happens to the session table -/

/-- What a row was created with. -/
def Session.data (s : Session) : SessionData :=
  { id := s.id, userId := s.userId, tokenHash := s.tokenHash, userAgent := s.userAgent
    ipAddress := s.ipAddress, expiresAt := s.expiresAt }

/-- What the rows of the table were created with. -/
def World.rows (w : World) : List SessionData := w.sessions.map Session.data

@[simp] theorem data_sessionRow (clock : ℕ) (d : SessionData) :
    (World.sessionRow clock d).data = d := rfl

section Rows

variable {w w' : World}

theorem rows_of_append {clock : ℕ} {d : SessionData}
    (h : w'.sessions = w.sessions ++ [World.sessionRow clock d]) : w'.rows = w.rows ++ [d] := by
  rw [World.rows, h, List.map_append]
  rfl

theorem rows_of_filter {p : SessionData → Bool}
    (h : w'.sessions = w.sessions.filter fun s ↦ p s.data) : w'.rows = w.rows.filter p := by
  rw [World.rows, h, World.rows, List.filter_map]
  rfl

theorem rows_of_refresh {id : JsString} {t : ℕ} (h : w'.sessions =
    w.sessions.map fun s ↦ if s.id = id then { s with lastSeenAt := t } else s) :
    w'.rows = w.rows := by
  rw [World.rows, h, World.rows, List.map_map]
  refine List.map_congr_left fun s _ ↦ ?_
  rw [Function.comp_apply]
  split <;> rfl

end Rows

section Table

variable {P : Platform} {ι ρ : Type} {body : ι → Api ρ}

/-- What the row was created with that an event put into the table, if it did. -/
def inserted? (e : WorldEvent ι ρ) : Option SessionData :=
  match e.done with
  | some ⟨.sessionCreate d, .ok _⟩ => some d
  | _ => none

/-- The token hash whose rows an event took out of the table; there may have been none. -/
def revoked? (e : WorldEvent ι ρ) : Option JsString :=
  match e.done with
  | some ⟨.sessionDeleteMany hash, .ok _⟩ => some hash
  | _ => none

/-- The event put a row made of `d` into the table. -/
abbrev Inserts (d : SessionData) (e : WorldEvent ι ρ) : Prop := inserted? e = some d

/-- The event took the rows of a token out of the table. -/
abbrev Revokes (hash : JsString) (e : WorldEvent ι ρ) : Prop := revoked? e = some hash

theorem Inserts.done {d : SessionData} {e : WorldEvent ι ρ} (h : Inserts d e) :
    e.done = some ⟨.sessionCreate d, .ok ()⟩ := by
  rw [Inserts, inserted?] at h
  split at h
  · next heq => rw [heq, Option.some_inj.mp h]
  · simp at h

theorem Revokes.done {hash : JsString} {e : WorldEvent ι ρ} (h : Revokes hash e) :
    ∃ n, e.done = some ⟨.sessionDeleteMany hash, .ok n⟩ := by
  rw [Revokes, revoked?] at h
  split at h
  · next n heq => exact ⟨n, by rw [heq, Option.some_inj.mp h]⟩
  · simp at h

/-- **What an event can do to the session table.** It puts in a row that is new, takes rows out by
identifier or by token, refreshes a row, or leaves the table as it is. -/
inductive SessionStep (e : WorldEvent ι ρ) : Prop
  | insert (d : SessionData) (hd : Inserts d e) (hrev : ∀ hash, ¬Revokes hash e)
    (hfresh : ∀ d' ∈ e.before.rows, d'.id ≠ d.id ∧ d'.tokenHash ≠ d.tokenHash)
    (h : e.after.sessions = e.before.sessions ++ [World.sessionRow e.before.clock d])
  | delete (id : JsString) (hd : e.done = some ⟨.sessionDelete id, .ok ()⟩)
    (hrev : ∀ hash, ¬Revokes hash e)
    (h : e.after.sessions = e.before.sessions.filter (·.data.id ≠ id))
  | refresh (id : JsString) (t : ℕ) (hd : e.done = some ⟨.sessionUpdate id t, .ok ()⟩)
    (hrev : ∀ hash, ¬Revokes hash e)
    (h : e.after.sessions =
      e.before.sessions.map fun s ↦ if s.id = id then { s with lastSeenAt := t } else s)
  | revoke (hash : JsString) (hd : Revokes hash e)
    (h : e.after.sessions = e.before.sessions.filter (·.data.tokenHash ≠ hash))
  | other (hins : ∀ d, ¬Inserts d e) (hrev : ∀ hash, ¬Revokes hash e)
    (h : e.after.sessions = e.before.sessions)

/-- What happens in a system happens to the session table in one of these ways. -/
theorem sessionStep {e : WorldEvent ι ρ} (h : (system P body).Effect e) : SessionStep e := by
  have hother : e.before = e.after → (∀ d, ¬Inserts d e) → (∀ hash, ¬Revokes hash e) →
      SessionStep e := fun hw hins hrev ↦ .other hins hrev (by rw [hw])
  match hd : e.done with
  | none =>
    exact hother (h.unchanged hd).symm (by simp [Inserts, inserted?, hd])
      (by simp [Revokes, revoked?, hd])
  | some ⟨o, r⟩ =>
    obtain ⟨y, hy⟩ := h.exec hd
    change World.exec P y e.before o = some (e.after, r) at hy
    cases o with
    | sessionCreate d =>
      rw [World.exec] at hy
      split at hy
      · obtain ⟨hw, rfl⟩ := Prod.mk.inj (Option.some_inj.mp hy)
        exact hother hw (by simp [Inserts, inserted?, hd]) (by simp [Revokes, revoked?, hd])
      · next hany =>
        split at hy
        · obtain ⟨hw, rfl⟩ := Prod.mk.inj (Option.some_inj.mp hy)
          refine .insert d (by simp [Inserts, inserted?, hd]) (by simp [Revokes, revoked?, hd])
            (fun d' hd' ↦ ?_) (by rw [← hw])
          obtain ⟨s, hs, rfl⟩ := List.mem_map.mp hd'
          simpa [Session.data] using (List.any_eq_false.mp (Bool.eq_false_iff.mpr hany)) s hs
        · obtain ⟨hw, rfl⟩ := Prod.mk.inj (Option.some_inj.mp hy)
          exact hother hw (by simp [Inserts, inserted?, hd]) (by simp [Revokes, revoked?, hd])
    | sessionDelete id =>
      rw [World.exec] at hy
      split at hy
      · obtain ⟨hw, rfl⟩ := Prod.mk.inj (Option.some_inj.mp hy)
        exact .delete id hd (by simp [Revokes, revoked?, hd]) (by rw [← hw]; rfl)
      · obtain ⟨hw, rfl⟩ := Prod.mk.inj (Option.some_inj.mp hy)
        exact hother hw (by simp [Inserts, inserted?, hd]) (by simp [Revokes, revoked?, hd])
    | sessionUpdate id t =>
      rw [World.exec] at hy
      split at hy
      · obtain ⟨hw, rfl⟩ := Prod.mk.inj (Option.some_inj.mp hy)
        exact .refresh id t hd (by simp [Revokes, revoked?, hd]) (by rw [← hw])
      · obtain ⟨hw, rfl⟩ := Prod.mk.inj (Option.some_inj.mp hy)
        exact hother hw (by simp [Inserts, inserted?, hd]) (by simp [Revokes, revoked?, hd])
    | sessionDeleteMany hash =>
      obtain ⟨hw, rfl⟩ := Prod.mk.inj (Option.some_inj.mp hy)
      exact .revoke hash (by simp [Revokes, revoked?, hd]) (by rw [← hw]; rfl)
    | _ =>
      refine .other (by simp [Inserts, inserted?, hd]) (by simp [Revokes, revoked?, hd]) ?_
      rw [World.exec_sessions hy (by simp) (by simp) (by simp) (by simp)]

theorem Inserts.not_revokes {d : SessionData} {hash : JsString} {e : WorldEvent ι ρ}
    (h : Inserts d e) : ¬Revokes hash e := by
  intro hrev
  obtain ⟨n, hn⟩ := hrev.done
  simp [Inserts, inserted?, hn] at h

/-- A row is there after an event because the event put it in, or because it was there before and
the event did not revoke it. -/
theorem mem_rows_after {e : WorldEvent ι ρ} (h : (system P body).Effect e) {d : SessionData}
    (hmem : d ∈ e.after.rows) : Inserts d e ∨ d ∈ e.before.rows ∧ ¬Revokes d.tokenHash e := by
  cases sessionStep h with
  | insert d' hd hrev _ hafter =>
    rw [rows_of_append hafter, List.mem_append, List.mem_singleton] at hmem
    rcases hmem with hmem | rfl
    · exact Or.inr ⟨hmem, hrev _⟩
    · exact Or.inl hd
  | delete id _ hrev hafter =>
    rw [rows_of_filter (p := (·.id ≠ id)) hafter] at hmem
    exact Or.inr ⟨(List.mem_filter.mp hmem).1, hrev _⟩
  | refresh id t _ hrev hafter => exact Or.inr ⟨rows_of_refresh hafter ▸ hmem, hrev _⟩
  | revoke hash hd hafter =>
    rw [rows_of_filter (p := (·.tokenHash ≠ hash)) hafter, List.mem_filter,
      decide_eq_true_eq] at hmem
    exact Or.inr ⟨hmem.1, fun hrev ↦ hmem.2 (Option.some_inj.mp (hrev.symm.trans hd))⟩
  | other _ hrev hafter =>
    rw [World.rows, hafter] at hmem
    exact Or.inr ⟨hmem, hrev _⟩

theorem mem_rows_of_inserts {e : WorldEvent ι ρ} (h : (system P body).Effect e) {d : SessionData}
    (hd : Inserts d e) : d ∈ e.after.rows := by
  cases sessionStep h with
  | insert d' hd' _ _ hafter =>
    obtain rfl := Option.some_inj.mp (hd'.symm.trans hd)
    simp [rows_of_append hafter]
  | delete id hd' => simp [Inserts, inserted?, hd'] at hd
  | refresh id t hd' => simp [Inserts, inserted?, hd'] at hd
  | revoke hash hd' => exact absurd hd' hd.not_revokes
  | other hins => exact absurd hd (hins d)

theorem Inserts.fresh {e : WorldEvent ι ρ} (h : (system P body).Effect e) {d : SessionData}
    (hd : Inserts d e) : ∀ d' ∈ e.before.rows, d'.id ≠ d.id ∧ d'.tokenHash ≠ d.tokenHash := by
  cases sessionStep h with
  | insert d' hd' _ hfresh _ => exact Option.some_inj.mp (hd'.symm.trans hd) ▸ hfresh
  | delete id hd' => simp [Inserts, inserted?, hd'] at hd
  | refresh id t hd' => simp [Inserts, inserted?, hd'] at hd
  | revoke hash hd' => exact absurd hd' hd.not_revokes
  | other hins => exact absurd hd (hins d)

/-- A row is lost by a removal of its identifier or by a revocation of its token only. -/
theorem mem_rows_or {e : WorldEvent ι ρ} (h : (system P body).Effect e) {d : SessionData}
    (hmem : d ∈ e.before.rows) : d ∈ e.after.rows ∨ Revokes d.tokenHash e ∨
      e.done = some ⟨.sessionDelete d.id, .ok ()⟩ := by
  cases sessionStep h with
  | insert d' _ _ _ hafter => exact Or.inl (by simp [rows_of_append hafter, hmem])
  | delete id hd _ hafter =>
    by_cases hid : d.id = id
    · exact Or.inr (Or.inr (hid ▸ hd))
    · exact Or.inl (by simp [rows_of_filter (p := (·.id ≠ id)) hafter, hmem, hid])
  | refresh id t _ _ hafter => exact Or.inl (rows_of_refresh hafter ▸ hmem)
  | revoke hash hd hafter =>
    by_cases hhash : d.tokenHash = hash
    · exact Or.inr (Or.inl (hhash ▸ hd))
    · exact Or.inl (by simp [rows_of_filter (p := (·.tokenHash ≠ hash)) hafter, hmem, hhash])
  | other _ _ hafter => exact Or.inl (by rwa [World.rows, hafter])

/-! ### Where the rows come from

What the table says of a token is what the trace says last of it: the row that was inserted for it
and has not been revoked since. The converse fails where a clean-up has taken the row out. -/

/-- The row of `d` was inserted, and its token was not revoked since. -/
def Granted (d : SessionData) (tr : List (WorldEvent ι ρ)) : Prop :=
  ∃ pre e post, tr = pre ++ e :: post ∧ Inserts d e ∧ ∀ e' ∈ post, ¬Revokes d.tokenHash e'

theorem Granted.concat {d : SessionData} {tr : List (WorldEvent ι ρ)} (h : Granted d tr)
    {e : WorldEvent ι ρ} (he : ¬Revokes d.tokenHash e) : Granted d (tr ++ [e]) := by
  obtain ⟨pre, e₀, post, rfl, hins, hpost⟩ := h
  refine ⟨pre, e₀, post ++ [e], by simp, hins, fun e' he' ↦ ?_⟩
  rcases List.mem_append.mp he' with he' | he'
  · exact hpost e' he'
  · rwa [List.mem_singleton.mp he']

/-- Every row stands for a grant, and rows have their identifiers and their tokens to themselves. -/
structure Traced (w : World) (tr : List (WorldEvent ι ρ)) : Prop where
  granted : ∀ d ∈ w.rows, Granted d tr
  distinct : w.rows.Pairwise fun d d' ↦ d.id ≠ d'.id ∧ d.tokenHash ≠ d'.tokenHash

/-- **The step of the table.** -/
theorem Traced.event {e : WorldEvent ι ρ} {tr : List (WorldEvent ι ρ)} (h : Traced e.before tr)
    (heff : (system P body).Effect e) : Traced e.after (tr ++ [e]) := by
  refine ⟨fun d hd ↦ ?_, ?_⟩
  · rcases mem_rows_after heff hd with hins | ⟨hmem, hrev⟩
    · exact ⟨tr, e, [], by simp, hins, by simp⟩
    · exact (h.granted d hmem).concat hrev
  · cases sessionStep heff with
    | insert d hd hrev hfresh hafter =>
      rw [rows_of_append hafter, List.pairwise_append]
      exact ⟨h.distinct, List.pairwise_singleton .., fun d' hd' d'' hd'' ↦
        List.mem_singleton.mp hd'' ▸ hfresh d' hd'⟩
    | delete id _ _ hafter =>
      exact rows_of_filter (p := (·.id ≠ id)) hafter ▸ h.distinct.filter _
    | refresh id t _ _ hafter => exact rows_of_refresh hafter ▸ h.distinct
    | revoke hash _ hafter =>
      exact rows_of_filter (p := (·.tokenHash ≠ hash)) hafter ▸ h.distinct.filter _
    | other _ _ hafter =>
      rw [World.rows, hafter]
      exact h.distinct

theorem traced {w₀ : World} {c : Config Op Op.Val Exn ι ρ World}
    (hc : (system P body).Reachable w₀ c) (h₀ : w₀.sessions = []) :
    Traced c.store c.trace ∧ Throughout (fun pre e ↦ Traced e.before pre) c.trace := by
  have htrue : Throughout (fun _ _ ↦ True) c.trace := fun _ _ _ _ ↦ trivial
  have hinit : Traced w₀ ([] : List (WorldEvent ι ρ)) := by
    constructor <;> simp [World.rows, h₀]
  exact ⟨hc.invariant (I := Traced) htrue hinit (fun _ _ _ h ↦ ⟨h.granted, h.distinct⟩)
      fun _ _ h heff _ ↦ h.event heff,
    hc.throughout (I := Traced) htrue hinit (fun _ _ _ h ↦ ⟨h.granted, h.distinct⟩)
      fun _ _ h heff _ ↦ h.event heff⟩

/-! ### What a lookup finds -/

/-- What the answer to a lookup says about the table. -/
theorem lookup_spec {e : WorldEvent ι ρ} (h : (system P body).Effect e) {hash : JsString}
    {r : Interaction.Reply Exn (Option (Session × User))} {v : Option (Session × User)}
    (ha : e.action = .perform (.sessionFindUnique hash) r) (hr : r.seen = .ok v) :
    match v with
    | none => ∀ d ∈ e.before.rows, d.tokenHash ≠ hash
    | some (s, u) => s ∈ e.before.sessions ∧ s.tokenHash = hash ∧
        u ∈ e.before.users ∧ u.id = s.userId := by
  obtain rfl := Interaction.Reply.eq_answered hr
  obtain ⟨y, hy⟩ := h.exec (o := .sessionFindUnique hash) (a := .ok v)
    (by rw [Interaction.Event.done, ha]; rfl)
  change World.exec P y e.before (.sessionFindUnique hash) = some (e.after, .ok v) at hy
  simp only [World.exec] at hy
  split at hy
  · next hnone =>
    obtain ⟨-, hv⟩ := Prod.mk.inj (Option.some_inj.mp hy)
    obtain rfl : none = v := Except.ok.inj hv
    intro d hd
    obtain ⟨s, hs, rfl⟩ := List.mem_map.mp hd
    simpa [Session.data] using List.find?_eq_none.mp hnone s hs
  · next s hs =>
    split at hy
    · next u hu =>
      obtain ⟨-, hv⟩ := Prod.mk.inj (Option.some_inj.mp hy)
      obtain rfl : some (s, u) = v := Except.ok.inj hv
      exact ⟨List.mem_of_find?_eq_some hs, by simpa using List.find?_some hs,
        List.mem_of_find?_eq_some hu, by simpa using List.find?_some hu⟩
    · simp at hy

theorem now_spec {e : WorldEvent ι ρ} (h : (system P body).Effect e) {n : ℕ}
    (ha : e.action = .perform .now (.answered (.ok n))) : n = e.before.clock := by
  obtain ⟨y, hy⟩ := h.exec (o := .now) (a := .ok n) (by rw [Interaction.Event.done, ha]; rfl)
  change some (e.before, Except.ok e.before.clock) = some (e.after, .ok n) at hy
  exact (Except.ok.inj (Prod.mk.inj (Option.some_inj.mp hy)).2).symm

theorem now_le {w₀ : World} {c : Config Op Op.Val Exn ι ρ World}
    (hc : (system P body).Reachable w₀ c) {pre post : List (WorldEvent ι ρ)} {e : WorldEvent ι ρ}
    (htr : c.trace = pre ++ e :: post) {i n : ℕ} (h : (⟨.now, .ok n⟩ : Answered) ∈ own i pre) :
    n ≤ e.before.clock := by
  obtain ⟨g, hg, -, hga⟩ := Interaction.mem_own_ok.mp h
  obtain ⟨p, q, rfl⟩ := List.append_of_mem hg
  have hgeff := hc.effects p g (q ++ e :: post) (by simp [htr])
  calc n = g.after.clock := by rw [clock_effect hgeff, now_spec hgeff hga]
    _ ≤ e.before.clock := clock_le hc htr hg

/-! ### Secrets -/

/-- The random bytes an event drew, if it drew `n` of them. -/
def drawn? (n : ℕ) (e : WorldEvent ι ρ) : Option Bytes :=
  match e.action with
  | .perform (.randomBytes m) (.answered (.ok b)) => if m = n then some b else none
  | _ => none

/-- The session token an event generated. -/
def generatedToken? (e : WorldEvent ι ρ) : Option JsString := (drawn? 32 e).map tokenOf

/-- What the row is to be created with that an event asks for. -/
def requested? (e : WorldEvent ι ρ) : Option SessionData :=
  match e.action with
  | .perform (.sessionCreate d) _ => some d
  | _ => none

theorem requested?_eq_some {e : WorldEvent ι ρ} {d : SessionData} :
    requested? e = some d ↔ ∃ r, e.action = .perform (.sessionCreate d) r := by
  rw [requested?]
  split
  · next d' r heq => simp [heq]
  · next hne =>
    simp only [reduceCtorEq, false_iff, not_exists]
    exact fun r heq ↦ hne d r heq

/-- The session identifier that was generated for the row an event asks for. -/
def generatedId? (e : WorldEvent ι ρ) : Option JsString := (requested? e).map SessionData.id

theorem drawn?_of_mem_own {i : ℕ} {tr : List (WorldEvent ι ρ)} {n : ℕ} {b : Bytes}
    (h : (⟨.randomBytes n, .ok b⟩ : Answered) ∈ own i tr) :
    ∃ e ∈ tr, e.thread = i ∧ drawn? n e = some b := by
  obtain ⟨e, he, hi, ha⟩ := Interaction.mem_own_ok.mp h
  exact ⟨e, he, hi, by rw [drawn?, ha]; exact if_pos rfl⟩

theorem eq_of_nodup {α β : Type} {f : α → Option β} {l : List α} (h : (l.filterMap f).Nodup)
    {a a' : α} (ha : a ∈ l) (ha' : a' ∈ l) {b : β} (hb : f a = some b) (hb' : f a' = some b) :
    a = a' := by
  by_contra hne
  have hsymm : Std.Symm fun x y ↦ ∀ b, f x = some b → ∀ b', f y = some b' → b ≠ b' :=
    ⟨fun x y hxy b hb b' hb' ↦ (hxy b' hb' b hb).symm⟩
  exact (List.pairwise_filterMap.mp h).forall ha ha' hne b hb b hb' rfl

theorem nodup_filterMap {α : Type} {f : WorldEvent ι ρ → Option α} {tr : List (WorldEvent ι ρ)}
    (h : Throughout (fun pre e ↦ ∀ b, f e = some b → ∀ e' ∈ pre, f e' ≠ some b) tr) :
    (tr.filterMap f).Nodup := by
  induction tr using List.reverseRecOn with
  | nil => exact List.nodup_nil
  | append_singleton tr e ih =>
    obtain ⟨htr, he⟩ := Interaction.throughout_concat.mp h
    rw [List.filterMap_append, List.nodup_append]
    refine ⟨ih htr, ?_, fun b hb b' hb' heq ↦ ?_⟩
    · cases hfe : f e <;> simp [hfe]
    · obtain ⟨e', he', hb⟩ := List.mem_filterMap.mp hb
      obtain ⟨e'', he'', hb'⟩ := List.mem_filterMap.mp hb'
      rw [List.mem_singleton.mp he''] at hb'
      exact he b' hb' e' he' (heq ▸ hb)

theorem eq_tokenOf {t : JsString} {b : Bytes} (hsha : Function.Injective P.sha256)
    (h : SessionService.tokenHash P t = SessionService.tokenHash P (tokenOf b)) : t = tokenOf b :=
  JsString.eq_of_utf8_eq (Base64.encode_plain _ _) (hsha h)

end Table

/-! ### Histories -/

/-- The first token generated in a history. -/
def firstToken (past : List Answered) : Option JsString :=
  past.findSome? fun
    | ⟨.randomBytes m, .ok b⟩ => if m = 32 then some (tokenOf b) else none
    | _ => none

/-- The first time read off the clock in a history. -/
def firstClock (past : List Answered) : Option ℕ :=
  past.findSome? fun
    | ⟨.now, .ok n⟩ => some n
    | _ => none


end NativeKiln
