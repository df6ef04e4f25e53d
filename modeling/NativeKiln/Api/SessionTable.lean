import NativeKiln.Api.Authentication

/-!
# The rows of the session table

What the rows say, in every state of every run of the API: when each was made and last seen, until
when it lasts, which grants still have theirs, and how many there can be. A guard that cleans up or
refreshes has found its row a while ago; in between the row may have been taken out, and other rows
put in. That it hits no other row is the uniqueness of identifiers, and that it stamps the row with
a time after its creation is the order in which the guard did things (`Detaches`).
-/

namespace NativeKiln.SessionTable

open JsString (lit)
open Interaction (Config Throughout own)
open Interaction.Program (Asks asks_pure asks_call asks_ofReply asks_composable obeys_bind
  obeys_ofReply)

/-! ## What a request may do to the table -/

/-- A row is removed only when it was found to have expired, it is never refreshed but in the
background, and a new one has an identifier that the request has generated. -/
def Allows (past : List Answered) : Op → Prop
  | .sessionDelete id => ∃ hash s u n,
    past = [⟨.sessionFindUnique hash, .ok (some (s, u))⟩, ⟨.now, .ok n⟩] ∧ s.id = id ∧
      s.expiresAt ≤ n
  | .sessionUpdate _ _ => False
  | .sessionCreate d =>
    ∃ b, (⟨.randomBytes 22, .ok b⟩ : Answered) ∈ past ∧ d.id = idOf (lit "ses") b
  | _ => True

/-- A row is refreshed with the second time that was read after it had been found. -/
def Detaches (past : List Answered) : Op → Prop
  | .sessionUpdate id t => ∃ hash s u n,
    past = [⟨.sessionFindUnique hash, .ok (some (s, u))⟩, ⟨.now, .ok n⟩, ⟨.now, .ok t⟩] ∧ s.id = id
  | _ => False

/-- The operations behind the guards that leave the rows alone or revoke them. -/
def Later : Op → Prop
  | .sessionDelete _ | .sessionUpdate _ _ | .sessionCreate _ => False
  | _ => True

section Obeys

variable {P : Platform} {r : Request} {past : List Answered}

/-- The request keeps to what it may do to the table; of its result nothing is said. -/
abbrev Keeps {α : Type} (p : Api α) (past : List Answered) : Prop :=
  p.Obeys Allows Detaches (fun _ _ ↦ True) past

theorem keeps_of_later {α : Type} {p : Api α} (h : Asks Later (fun _ ↦ False) p) :
    Keeps p past := by
  refine (h past).imp (fun past' o ho ↦ ?_) (fun _ _ ho ↦ ho.elim) fun _ _ _ ↦ trivial
  cases o with
  | sessionDelete _ | sessionUpdate _ _ | sessionCreate _ => exact ho.elim
  | _ => trivial

theorem Keeps.bind {α β : Type} {p : Api α} {f : α → Api β} (hp : Keeps p past)
    (hf : ∀ a past, Keeps (f a) past) : Keeps (p >>= f) past :=
  Interaction.Program.Obeys.bind hp (fun past a _ ↦ hf a past) fun _ _ _ ↦ trivial

theorem keeps_authGuard (route : Route) : Keeps (AuthGuard.canActivate P route r) [] := by
  rw [AuthGuard.canActivate]
  split
  · trivial
  · split
    · trivial
    · next token _ =>
      cases token with
      | str t =>
        simp only [SessionService.validate, SessionService.hash, obeys_bind,
          Interaction.Program.obeys_pure, Interaction.Program.obeys_perform, obeys_ofReply,
          List.nil_append]
        refine ⟨trivial, ?_, fun _ ↦ trivial⟩
        rintro (_ | ⟨s, u⟩)
        · trivial
        · simp +contextual [Allows, Detaches]
      | _ => trivial

theorem keeps_create (userId : JsString) (info : SessionMeta) :
    Keeps (SessionService.create P userId info) past := by
  simp [SessionService.create, SessionService.hash, generateSecretToken, generateId, Allows]

theorem later_token (n : ℕ) : Asks Later (fun _ ↦ False) (generateSecretToken n) :=
  composed_token asks_composable trivial

theorem keeps_login (body : LoginDto) : Keeps (AuthController.login P body r) past := by
  refine Keeps.bind (keeps_of_later (composed_limiter asks_composable trivial trivial))
    fun _ _ ↦ ?_
  refine Keeps.bind (keeps_of_later (composed_verifyCredentials asks_composable (fun o ho ↦ ?_)
    trivial _)) fun _ _ ↦ ?_
  · cases o with
    | sessionDelete _ | sessionUpdate _ _ | sessionCreate _ => exact ho.elim
    | _ => trivial
  · refine Keeps.bind (keeps_of_later (asks_call trivial)) fun _ _ ↦ ?_
    refine Keeps.bind (keeps_create _ _) fun _ _ ↦ ?_
    exact Keeps.bind (keeps_of_later (later_token 24)) fun _ _ ↦ trivial

theorem later_check {o : Op} (h : Later o) :
    Asks Later (fun _ ↦ False) (HealthController.check (call o)) :=
  ((asks_call h).bind fun _ ↦ asks_pure).tryCatch fun _ ↦ asks_pure

theorem later_readiness : Asks Later (fun _ ↦ False) HealthController.readiness :=
  (later_check (show Later .queryRaw from trivial)).bind fun _ ↦
    (later_check (show Later .ping from trivial)).bind fun _ ↦
      (later_check (show Later .listObjects from trivial)).bind fun _ ↦ asks_pure

theorem keeps_handler (route : Route) (value : Option Json) (session : Option SessionContext) :
    Keeps (handler P route value r session) past := by
  have hhandle : ∀ past, Keeps (call (.handle route session)) past :=
    fun _ ↦ keeps_of_later (asks_call trivial)
  cases route with
  | login =>
    refine Keeps.bind (keeps_of_later asks_ofReply) fun body past' ↦ ?_
    exact Keeps.bind (hhandle past') fun _ _ ↦ keeps_login body
  | logout =>
    exact (hhandle past).bind fun _ _ ↦
      keeps_of_later (composed_logout asks_composable (fun _ ↦ trivial) r)
  | me => exact (hhandle past).bind fun _ _ ↦ keeps_of_later (composed_me asks_composable session)
  | liveness => exact (hhandle past).bind fun _ _ ↦ trivial
  | readiness => exact (hhandle past).bind fun _ _ ↦ keeps_of_later later_readiness

/-- **A request keeps the discipline.** -/
theorem keeps_serve (r : Request) : Keeps (serve P r) [] := by
  refine serve_obeys_of_dispatch (dispatch_obeys (fun _ ↦ trivial) fun route value _ _ ↦ ?_) trivial
    (fun _ _ _ ↦ trivial) fun _ _ _ ↦ trivial
  refine Keeps.bind (keeps_authGuard route) fun session past' ↦ ?_
  exact Keeps.bind (keeps_of_later asks_ofReply) fun _ _ ↦ keeps_handler route value session

end Obeys

/-! ## What becomes of a row -/

section Trace

variable {P : Platform} {w₀ : World} {c : Config Op Op.Val Exn Request Response World}
  {pre post tr : List ApiEvent} {e e' : ApiEvent} {d d' : SessionData}

theorem orderly (hc : (api P).Reachable w₀ c) :
    Interaction.System.Orderly (fun _ ↦ Allows) (fun _ ↦ Detaches) (fun _ _ _ ↦ True) c :=
  hc.orderly keeps_serve

/-- **Where a row comes from.** It was made by the event, or was there before, and at most the time
it was last seen at is new. -/
theorem session_after (h : (api P).Effect e) {s : Session} (hs : s ∈ e.after.sessions) :
    (∃ d, Inserts d e ∧ s = World.sessionRow e.before.clock d) ∨
      ∃ s' ∈ e.before.sessions, s = s' ∨ ∃ t,
        e.done = some ⟨.sessionUpdate s'.id t, .ok ()⟩ ∧ s = { s' with lastSeenAt := t } := by
  cases sessionStep h with
  | insert d hd _ _ hafter =>
    rw [hafter, List.mem_append, List.mem_singleton] at hs
    rcases hs with hs | rfl
    · exact Or.inr ⟨s, hs, Or.inl rfl⟩
    · exact Or.inl ⟨d, hd, rfl⟩
  | delete id _ _ hafter =>
    rw [hafter] at hs
    exact Or.inr ⟨s, (List.mem_filter.mp hs).1, Or.inl rfl⟩
  | refresh id t hd _ hafter =>
    rw [hafter] at hs
    obtain ⟨s', hs', rfl⟩ := List.mem_map.mp hs
    by_cases hid : s'.id = id
    · exact Or.inr ⟨s', hs', Or.inr ⟨t, hid ▸ hd, by rw [if_pos hid]⟩⟩
    · exact Or.inr ⟨s', hs', Or.inl (if_neg hid)⟩
  | revoke hash _ hafter =>
    rw [hafter] at hs
    exact Or.inr ⟨s, (List.mem_filter.mp hs).1, Or.inl rfl⟩
  | other _ _ hafter => exact Or.inr ⟨s, hafter ▸ hs, Or.inl rfl⟩

/-- Every row goes back to an insert, at the time it says it was created at. -/
def Founded (w : World) (tr : List ApiEvent) : Prop :=
  ∀ s ∈ w.sessions, ∃ e ∈ tr, Inserts s.data e ∧ s.createdAt = e.before.clock

theorem Founded.event (h : Founded e.before tr) (heff : (api P).Effect e) :
    Founded e.after (tr ++ [e]) := by
  intro s hs
  rcases session_after heff hs with ⟨d, hd, rfl⟩ | ⟨s', hs', hor⟩
  · exact ⟨e, by simp, hd, rfl⟩
  · obtain ⟨f, hf, hins, hcreated⟩ := h s' hs'
    have hmem : f ∈ tr ++ [e] := List.mem_append_left _ hf
    rcases hor with rfl | ⟨t, -, rfl⟩
    · exact ⟨f, hmem, hins, hcreated⟩
    · exact ⟨f, hmem, hins, hcreated⟩

theorem founded (hc : (api P).Reachable w₀ c) (h₀ : w₀.sessions = []) :
    Throughout (fun pre e ↦ Founded e.before pre) c.trace := by
  have htrue : Throughout (fun _ _ ↦ True) c.trace := fun _ _ _ _ ↦ trivial
  refine hc.throughout htrue (fun s hs ↦ ?_) (fun _ _ _ h ↦ h) fun _ _ h heff _ ↦ h.event heff
  simp [h₀] at hs

/-! ### Identifiers -/

theorem requested_of_inserts (hc : (api P).Reachable w₀ c) (he : e ∈ c.trace) (hd : Inserts d e) :
    requested? e = some d := by
  obtain ⟨pre, post, htr⟩ := List.append_of_mem he
  obtain ⟨-, haction⟩ := (orderly hc).performed htr hd.done fun _ h ↦ h
  exact requested?_eq_some.mpr haction

/-- **Identifiers are used once.** -/
theorem insert_eq_of_id (hc : (api P).Reachable w₀ c)
    (hids : (c.trace.filterMap generatedId?).Nodup) (he : e ∈ c.trace) (he' : e' ∈ c.trace)
    (hd : Inserts d e) (hd' : Inserts d' e') (hid : d.id = d'.id) : e = e' := by
  refine eq_of_nodup hids he he' (b := d.id) ?_ ?_
  · rw [generatedId?, requested_of_inserts hc he hd, Option.map_some]
  · rw [generatedId?, requested_of_inserts hc he' hd', Option.map_some, hid]

/-- A row that a request has found is the only one with its identifier from then on, and was created
by then. -/
theorem row_of_found (hc : (api P).Reachable w₀ c) (h₀ : w₀.sessions = [])
    (hids : (c.trace.filterMap generatedId?).Nodup) (htr : c.trace = pre ++ e :: post)
    {hash : JsString} {s s' : Session} {u : User} {f : ApiEvent} (hf : f ∈ pre)
    (hfa : f.action = .perform (.sessionFindUnique hash) (.answered (.ok (some (s, u)))))
    (hs' : s' ∈ e.before.sessions) (hid : s'.id = s.id) :
    s'.data = s.data ∧ s'.createdAt ≤ f.after.clock := by
  obtain ⟨p, q, rfl⟩ := List.append_of_mem hf
  have htr' : c.trace = p ++ f :: (q ++ e :: post) := by simp [htr]
  have heff := hc.effects p f _ htr'
  obtain ⟨g, hg, hins, -⟩ := founded hc h₀ p f _ htr' s (lookup_spec heff hfa rfl).1
  obtain ⟨g', hg', hins', hcreated⟩ := founded hc h₀ _ e post htr s' hs'
  have hgtr : g ∈ c.trace := htr' ▸ List.mem_append_left _ hg
  have hgtr' : g' ∈ c.trace := htr ▸ List.mem_append_left _ hg'
  obtain rfl := insert_eq_of_id hc hids hgtr hgtr' hins hins' hid.symm
  refine ⟨Option.some_inj.mp (hins'.symm.trans hins), ?_⟩
  obtain ⟨p', q', hg''⟩ := List.append_of_mem hgtr
  calc s'.createdAt = g.after.clock := by rw [hcreated, clock_effect (hc.effects p' g q' hg'')]
    _ ≤ f.before.clock := clock_le hc htr' hg
    _ = f.after.clock := (clock_effect heff).symm

theorem clock_le_of_read (hc : (api P).Reachable w₀ c) (htr : c.trace = tr ++ post) {i t : ℕ}
    {o : Op} {v : o.Val} {past : List Answered}
    (hown : (⟨o, .ok v⟩ : Answered) :: past <+: own i tr) (ht : (⟨.now, .ok t⟩ : Answered) ∈ past) :
    ∃ f ∈ tr, f.thread = i ∧ f.action = .perform o (.answered (.ok v)) ∧ f.after.clock ≤ t := by
  -- the first answer was given in `p`, and the time was read in `q`
  obtain ⟨p, q, rfl, hp, hq⟩ := Interaction.split_of_own (l := [⟨o, .ok v⟩]) hown
  obtain ⟨f, hf, hfi, hfa⟩ := Interaction.mem_own_ok.mp
    (hp ▸ List.mem_singleton_self _ : (⟨o, .ok v⟩ : Answered) ∈ own i p)
  obtain ⟨g, hg, -, hga⟩ := Interaction.mem_own_ok.mp (hq.subset ht)
  obtain ⟨q₁, q₂, rfl⟩ := List.append_of_mem hg
  have htr' : c.trace = (p ++ q₁) ++ g :: (q₂ ++ post) := by simp [htr]
  refine ⟨f, List.mem_append_left _ hf, hfi, hfa, ?_⟩
  calc f.after.clock ≤ g.before.clock := clock_le hc htr' (List.mem_append_left _ hf)
    _ = t := (now_spec (hc.effects _ g _ htr') hga).symm

/-- **What a guard has done when its clean-up or its refresh takes effect.** The rows with the
identifier are the one it found. A clean-up finds it expired; a refresh brings a time that has come
since it was created. -/
theorem touched (hc : (api P).Reachable w₀ c) (h₀ : w₀.sessions = [])
    (hids : (c.trace.filterMap generatedId?).Nodup) (htr : c.trace = pre ++ e :: post)
    {s' : Session} (hs' : s' ∈ e.before.sessions) :
    (e.done = some ⟨.sessionDelete s'.id, .ok ()⟩ → s'.expiresAt ≤ e.before.clock) ∧
      ∀ t, e.done = some ⟨.sessionUpdate s'.id t, .ok ()⟩ →
        s'.createdAt ≤ t ∧ t ≤ e.before.clock := by
  constructor
  · intro hd
    obtain ⟨⟨hash, s, u, n, hown, hid, hle⟩, -⟩ := (orderly hc).performed htr hd fun _ h ↦ h
    obtain ⟨f, hf, -, hfa⟩ := Interaction.mem_own_ok.mp
      (hown ▸ List.mem_cons_self : (⟨.sessionFindUnique hash, .ok (some (s, u))⟩ : Answered) ∈ _)
    have hdata := (row_of_found hc h₀ hids htr hf hfa hs' hid.symm).1
    have hexpires : s'.expiresAt = s.expiresAt := congrArg SessionData.expiresAt hdata
    exact hexpires ▸ hle.trans (now_le hc htr (i := e.thread) (by simp [hown]))
  · intro t hd
    rcases (orderly hc).performed_or htr hd with ⟨hperformed, -⟩ | ⟨past, hpast, hdetached⟩
    · exact hperformed.elim
    · obtain ⟨hash, s, u, n, rfl, hid⟩ := hdetached
      obtain ⟨f, hf, -, hfa, hle⟩ := clock_le_of_read hc htr hpast (t := t) (by simp)
      have hcreated := (row_of_found hc h₀ hids htr hf hfa hs' hid.symm).2
      exact ⟨hcreated.trans hle, now_le hc htr (hpast.subset (by simp))⟩

/-! ### Times -/

/-- No row was last seen before it was created, or is yet to be seen. -/
def Stamped (w : World) : Prop :=
  ∀ s ∈ w.sessions, s.createdAt ≤ s.lastSeenAt ∧ s.lastSeenAt ≤ w.clock

theorem stamped (hc : (api P).Reachable w₀ c) (h₀ : w₀.sessions = [])
    (hids : (c.trace.filterMap generatedId?).Nodup) : Stamped c.store := by
  have hD : Throughout (fun _ e ↦ ∀ s ∈ e.before.sessions, ∀ t,
      e.done = some ⟨.sessionUpdate s.id t, .ok ()⟩ → s.createdAt ≤ t ∧ t ≤ e.before.clock)
      c.trace := fun _ _ _ htr _ hs ↦ (touched hc h₀ hids htr hs).2
  refine hc.invariant (I := fun w _ ↦ Stamped w) hD (fun s hs ↦ by simp [h₀] at hs) ?_ ?_
  · intro w _ d h s hs
    exact ⟨(h s hs).1, (h s hs).2.trans (Nat.le_add_right _ _)⟩
  · intro tr e h heff hrefresh s hs
    rw [clock_effect heff]
    rcases session_after heff hs with ⟨d, -, rfl⟩ | ⟨s', hs', rfl | ⟨t, hd, rfl⟩⟩
    · exact ⟨le_rfl, le_rfl⟩
    · exact h s hs'
    · exact hrefresh s' hs' t hd

/-- A row lasts for at most twelve hours from its creation. -/
theorem expiresAt_le (hc : (api P).Reachable w₀ c) (h₀ : w₀.sessions = []) {s : Session}
    (hs : s ∈ c.store.sessions) : s.expiresAt ≤ s.createdAt + SESSION_TTL_MS := by
  have htrue : Throughout (fun _ _ ↦ True) c.trace := fun _ _ _ _ ↦ trivial
  have hfounded : Founded c.store c.trace :=
    hc.invariant htrue (fun s hs ↦ by simp [h₀] at hs) (fun _ _ _ h ↦ h)
      fun _ _ h heff _ ↦ h.event heff
  obtain ⟨e, he, hins, hcreated⟩ := hfounded s hs
  obtain ⟨pre, post, htr⟩ := List.append_of_mem he
  obtain ⟨-, -, n, -, -, hexpires, hn⟩ := Authentication.loginOf_of_inserts hc htr hins
  calc s.expiresAt = n + SESSION_TTL_MS := hexpires
    _ ≤ s.createdAt + SESSION_TTL_MS := by omega

/-! ### Grants -/

theorem granted_concat (h : Granted d (tr ++ [e])) :
    Inserts d e ∨ Granted d tr ∧ ¬Revokes d.tokenHash e := by
  obtain ⟨pre, e₀, post, heq, hins, hpost⟩ := h
  rcases List.eq_nil_or_concat' post with rfl | ⟨post', e', rfl⟩
  · obtain ⟨-, hlast⟩ := List.append_inj' heq rfl
    exact Or.inl ((List.cons.inj hlast).1 ▸ hins)
  · rw [← List.cons_append, ← List.append_assoc] at heq
    obtain ⟨rfl, hlast⟩ := List.append_inj' heq rfl
    obtain rfl := (List.cons.inj hlast).1
    exact Or.inr ⟨⟨pre, e₀, post', rfl, hins, fun e' he' ↦ hpost e' (List.mem_append_left _ he')⟩,
      hpost e (by simp)⟩

/-- A grant has its row until its time is up. -/
def Kept (w : World) (tr : List ApiEvent) : Prop :=
  ∀ d, Granted d tr → d ∈ w.rows ∨ d.expiresAt ≤ w.clock

theorem Kept.event (h : Kept e.before tr) (heff : (api P).Effect e)
    (hdelete : ∀ s ∈ e.before.sessions, e.done = some ⟨.sessionDelete s.id, .ok ()⟩ →
      s.expiresAt ≤ e.before.clock) : Kept e.after (tr ++ [e]) := by
  intro d hd
  rw [clock_effect heff]
  rcases granted_concat hd with hins | ⟨hgranted, hnot⟩
  · exact Or.inl (mem_rows_of_inserts heff hins)
  · rcases h d hgranted with hmem | hle
    · rcases mem_rows_or heff hmem with hmem' | hrev | hd'
      · exact Or.inl hmem'
      · exact absurd hrev hnot
      · obtain ⟨s, hs, rfl⟩ := List.mem_map.mp hmem
        exact Or.inr (hdelete s hs hd')
    · exact Or.inr hle

theorem kept (hc : (api P).Reachable w₀ c) (h₀ : w₀.sessions = [])
    (hids : (c.trace.filterMap generatedId?).Nodup) :
    Kept c.store c.trace ∧ Throughout (fun pre e ↦ Kept e.before pre) c.trace := by
  have hD : Throughout (fun _ e ↦ ∀ s ∈ e.before.sessions,
      e.done = some ⟨.sessionDelete s.id, .ok ()⟩ → s.expiresAt ≤ e.before.clock) c.trace :=
    fun _ _ _ htr _ hs ↦ (touched hc h₀ hids htr hs).1
  have hinit : Kept w₀ ([] : List ApiEvent) := by
    rintro d ⟨pre, e, post, heq, -⟩
    simp at heq
  have htick : ∀ w tr n, Kept w tr → Kept ((api P).tick n w) tr :=
    fun w tr n h d hd ↦ (h d hd).imp_right fun hle ↦ hle.trans (Nat.le_add_right _ _)
  exact ⟨hc.invariant hD hinit htick fun _ _ h heff hdelete ↦ h.event heff hdelete,
    hc.throughout hD hinit htick fun _ _ h heff hdelete ↦ h.event heff hdelete⟩

/-! ### Logins -/

theorem audits_after (h : (api P).Effect e) :
    e.after.auditEvents = e.before.auditEvents ∧
        (∀ a, e.done ≠ some ⟨.auditEventCreate a, .ok ()⟩) ∨
      ∃ a, e.done = some ⟨.auditEventCreate a, .ok ()⟩ ∧
        e.after.auditEvents = e.before.auditEvents ++ [a] := by
  match hd : e.done with
  | none => exact Or.inl ⟨by rw [h.unchanged hd], by simp⟩
  | some ⟨o, r⟩ =>
    obtain ⟨y, hy⟩ := h.exec hd
    change World.exec P y e.before o = some (e.after, r) at hy
    cases o with
    | auditEventCreate a =>
      rw [World.exec] at hy
      split at hy
      · obtain ⟨hw, rfl⟩ := Prod.mk.inj (Option.some_inj.mp hy)
        exact Or.inl ⟨by rw [← hw], by simp⟩
      · split at hy
        · obtain ⟨hw, rfl⟩ := Prod.mk.inj (Option.some_inj.mp hy)
          exact Or.inr ⟨a, rfl, by rw [← hw]⟩
        · obtain ⟨hw, rfl⟩ := Prod.mk.inj (Option.some_inj.mp hy)
          exact Or.inl ⟨by rw [← hw], by simp⟩
    | _ => exact Or.inl ⟨World.exec_auditEvents hy (by simp), by simp⟩

theorem mem_auditEvents (hc : (api P).Reachable w₀ c) {f : ApiEvent} (hf : f ∈ c.trace)
    {a : AuditEvent} (hd : f.done = some ⟨.auditEventCreate a, .ok ()⟩) :
    a ∈ c.store.auditEvents := by
  have htrue : Throughout (fun _ _ ↦ True) c.trace := fun _ _ _ _ ↦ trivial
  refine hc.invariant (I := fun (w : World) (tr : List ApiEvent) ↦ ∀ f ∈ tr, ∀ a,
    f.done = some ⟨.auditEventCreate a, .ok ()⟩ → a ∈ w.auditEvents) htrue (by simp)
    (fun _ _ _ h ↦ h) ?_ f hf a hd
  intro tr e h heff _ f hf a hd
  rcases audits_after heff with ⟨hsame, hnone⟩ | ⟨a', ha', hafter⟩
  · rcases List.mem_append.mp hf with hf | hf
    · exact hsame ▸ h f hf a hd
    · exact absurd (List.mem_singleton.mp hf ▸ hd) (hnone a)
  · rw [hafter]
    rcases List.mem_append.mp hf with hf | hf
    · exact List.mem_append_left _ (h f hf a hd)
    · rw [List.mem_singleton.mp hf, ha'] at hd
      simp only [Option.some_inj, Sigma.mk.injEq, Op.auditEventCreate.injEq] at hd
      simp [hd.1]

/-- The request that inserted the row of `d` had committed `a`. -/
def AuditedBy (tr : List ApiEvent) (d : SessionData) (a : AuditEvent) : Prop :=
  ∃ e ∈ tr, Inserts d e ∧ ∃ f ∈ tr, f.thread = e.thread ∧
    f.done = some ⟨.auditEventCreate a, .ok ()⟩

theorem exists_audited (hc : (api P).Reachable w₀ c) (h₀ : w₀.sessions = [])
    (hd : d ∈ c.store.rows) :
    ∃ a ∈ c.store.auditEvents, AuditedBy c.trace d a ∧ a.userId = d.userId ∧
      a.action = lit "auth.login" := by
  obtain ⟨pre, e, post, htr, hins, -⟩ := (traced hc h₀).1.granted d hd
  obtain ⟨body, b, n, hlogin, -⟩ := Authentication.loginOf_of_inserts hc htr hins
  obtain ⟨id, f, hf, hfe, hfa⟩ := hlogin.audited
  have hmem : f ∈ c.trace := htr ▸ List.mem_append_left _ hf
  exact ⟨_, mem_auditEvents hc hmem hfa, ⟨e, by simp [htr], hins, f, hmem, hfe, hfa⟩, rfl, rfl⟩

theorem eq_of_audited (hc : (api P).Reachable w₀ c) {a : AuditEvent}
    (h : AuditedBy c.trace d a) (h' : AuditedBy c.trace d' a) : d = d' := by
  obtain ⟨e, he, hins, f, hf, hfe, hfa⟩ := h
  obtain ⟨e', he', hins', f', hf', hfe', hfa'⟩ := h'
  obtain rfl : f = f' := eq_of_nodup (auditIds_nodup hc) hf hf' (b := a.id) (by rw [auditId?, hfa])
    (by rw [auditId?, hfa'])
  obtain rfl := Authentication.insert_eq_of_thread hc he he' hins hins' (hfe.symm.trans hfe')
  exact Option.some_inj.mp (hins.symm.trans hins')

/-- **As many sessions as logins, at most**, for every user. -/
theorem length_sessions_le (hc : (api P).Reachable w₀ c) (h₀ : w₀.sessions = [])
    (userId : JsString) : (c.store.sessions.filter (·.userId = userId)).length ≤
      (c.store.auditEvents.filter fun a ↦
        a.userId = userId ∧ a.action = lit "auth.login").length := by
  have : Nonempty AuditEvent := ⟨AuthService.loginEvent [] []⟩
  have haudit : ∀ d ∈ c.store.rows, ∃ a ∈ c.store.auditEvents, AuditedBy c.trace d a ∧
      a.userId = d.userId ∧ a.action = lit "auth.login" := fun d hd ↦ exists_audited hc h₀ hd
  choose! audit hmem haudited huser haction using haudit
  set rows := (c.store.sessions.filter (·.userId = userId)).map Session.data with hrows
  have hsub : ∀ d ∈ rows, d ∈ c.store.rows ∧ d.userId = userId := by
    intro d hd
    obtain ⟨s, hs, rfl⟩ := List.mem_map.mp hd
    obtain ⟨hs, hid⟩ := List.mem_filter.mp hs
    exact ⟨List.mem_map_of_mem hs, of_decide_eq_true hid⟩
  have hdistinct : rows.Nodup := by
    have hids : c.store.rows.Nodup :=
      (traced hc h₀).1.distinct.imp fun hne heq ↦ hne.1 (congrArg SessionData.id heq)
    exact hids.sublist (List.filter_sublist.map _)
  have hnodup : (rows.map audit).Nodup := by
    refine hdistinct.map_on fun d hd d' hd' heq ↦ ?_
    have h' := haudited d' (hsub d' hd').1
    rw [← heq] at h'
    exact eq_of_audited hc (haudited d (hsub d hd).1) h'
  calc (c.store.sessions.filter (·.userId = userId)).length = (rows.map audit).length := by
        rw [List.length_map, hrows, List.length_map]
    _ ≤ _ := by
      refine (List.subperm_of_subset hnodup fun a ha ↦ ?_).length_le
      obtain ⟨d, hd, rfl⟩ := List.mem_map.mp ha
      obtain ⟨hdrow, hduser⟩ := hsub d hd
      refine List.mem_filter.mpr ⟨hmem d hdrow, ?_⟩
      simp [huser d hdrow, hduser, haction d hdrow]

/-! ## The table in a run -/

/-- **What the table says.** In every state of every run in which no identifier is generated twice:
a row has been seen between its creation and now, and lasts for at most twelve hours from its
creation; until its time is up a session has its row if and only if it was opened and its token was
not revoked since, however clean-ups and refreshes were interleaved; and a user has at most as many
sessions as logins in the audit log. -/
theorem session_rows (P : Platform) (w₀ : World) (h₀ : w₀.sessions = [])
    (c : Config Op Op.Val Exn Request Response World) (hc : (api P).Reachable w₀ c)
    (hids : (c.trace.filterMap generatedId?).Nodup) :
    (∀ s ∈ c.store.sessions, s.createdAt ≤ s.lastSeenAt ∧ s.lastSeenAt ≤ c.store.clock ∧
        s.expiresAt ≤ s.createdAt + SESSION_TTL_MS) ∧
      (∀ d, c.store.clock < d.expiresAt → (d ∈ c.store.rows ↔ Granted d c.trace)) ∧
      ∀ userId, (c.store.sessions.filter (·.userId = userId)).length ≤
        (c.store.auditEvents.filter fun a ↦
          a.userId = userId ∧ a.action = lit "auth.login").length := by
  refine ⟨fun s hs ↦ ?_, fun d hlive ↦ ⟨fun hd ↦ (traced hc h₀).1.granted d hd, fun hd ↦ ?_⟩,
    length_sessions_le hc h₀⟩
  · obtain ⟨hcreated, hseen⟩ := stamped hc h₀ hids s hs
    exact ⟨hcreated, hseen, expiresAt_le hc h₀ hs⟩
  · exact ((kept hc h₀ hids).1 d hd).resolve_right (not_le.mpr hlive)

/-- The session of the login. -/
def loginRow : SessionData :=
  rowOf samplePlatform (lit "usr_admin") ⟨none, some (lit "203.0.113.7")⟩ (.replicate 32 0) 3
    (.replicate 22 0)

theorem session_rows_loginLogout : ¬Granted loginRow Authentication.loginLogout.trace := by
  have hrows := (session_rows samplePlatform sampleWorld rfl Authentication.loginLogout
    (Interaction.System.reachable_run ..) (by decide +kernel)).2.1 loginRow (by decide +kernel)
  exact fun hgranted ↦ absurd (hrows.mpr hgranted) (by decide +kernel)

end Trace

end NativeKiln.SessionTable
