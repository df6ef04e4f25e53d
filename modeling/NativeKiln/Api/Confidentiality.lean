import NativeKiln.Api.Server

/-!
# What error messages reveal

Prisma, Redis and the S3 client reject with errors whose messages describe the infrastructure. A
request is run here against any answers to its operations, and two runs are alike when they differ
in the messages of such errors only. The exception filter sees to it that the client cannot tell
them apart, with one exception: the readiness probe puts the message of a failed check into its
answer.
-/

namespace NativeKiln

open JsString (lit)
open Interaction.Program (Similar SimilarReply Blind Composable blind_pure blind_ofReply blind_call
  blind_composable similar_call)

/-! ## Runs of a request -/

/-- The operation is one of Prisma, Redis or the S3 client. -/
def Op.infrastructure : Op → Bool
  | now | randomBytes _ | argon2Verify .. | argon2Hash .. | handle .. => false
  | _ => true

/-- The answers to the operations of a request, by their number. -/
structure Script where
  reply : ℕ → (o : Op) → Except Exn o.Val
  /-- What cannot fail does not, and everything else fails with an `Error`. -/
  raises : ∀ k o e, reply k o = .error e → mayReject o e

/-- What the API answers to a request. -/
def respond (P : Platform) (r : Request) (s : Script) : Except Exn Response :=
  ((serve P r).interp (fun k o ↦ (k + 1, s.reply k o)) 0).2

/-- Status and body. -/
def Response.visible (response : Response) : ℕ × Option Json := (response.status, response.body)

/-- Both are errors that are neither domain errors nor HTTP exceptions. -/
def BothErrors (e e' : Exn) : Prop :=
  ∃ message stack message' stack', e = .error message stack ∧ e' = .error message' stack'

/-- The runs differ in the messages of infrastructure errors only. -/
def Script.Alike (s s' : Script) : Prop :=
  ∀ k o, if o.infrastructure then SimilarReply BothErrors Eq (s.reply k o) (s'.reply k o)
    else s'.reply k o = s.reply k o

/-- A client cannot tell the exceptions apart. -/
def Concealed (e e' : Exn) : Prop := e = e' ∨ BothErrors e e'

theorem concealed_refl (e : Exn) : Concealed e e := Or.inl rfl

theorem handle_eq_of_concealed {e e' : Exn} (h : Concealed e e') :
    DomainExceptionFilter.handle e = DomainExceptionFilter.handle e' := by
  rcases h with rfl | ⟨message, stack, message', stack', rfl, rfl⟩
  · rfl
  · rfl

theorem Script.Alike.reply {s s' : Script} (h : s.Alike s') (k : ℕ) (o : Op) :
    SimilarReply Concealed Eq (s.reply k o) (s'.reply k o) := by
  have hk := h k o
  split at hk
  · exact hk.imp fun _ _ ↦ Or.inr
  · exact hk ▸ Interaction.Program.similarReply_refl concealed_refl _

/-! ## What is blind to messages -/

section Blind

variable {P : Platform}

theorem blind_authGuard (route : Route) (r : Request) :
    Blind Concealed (AuthGuard.canActivate P route r) :=
  composed_authGuard (blind_composable concealed_refl) (fun _ _ ↦ trivial) (fun _ _ ↦ trivial)
    route r

theorem blind_login (body : LoginDto) (r : Request) :
    Blind Concealed (AuthController.login P body r) := by
  have hQ : Composable (fun _ ↦ True) (fun _ ↦ True) fun {α} (p : Api α) ↦ Blind Concealed p :=
    blind_composable concealed_refl
  exact composed_login hQ (fun _ _ ↦ trivial) (composed_limiter hQ trivial trivial)
    (composed_verifyCredentials hQ (fun _ _ ↦ trivial) trivial _) blind_call

theorem blind_logout (r : Request) : Blind Concealed (AuthController.logout P r) :=
  composed_logout (blind_composable concealed_refl) (fun _ ↦ trivial) r

theorem blind_me (session : Option SessionContext) :
    Blind Concealed (AuthController.me session) :=
  composed_me (blind_composable concealed_refl) session

/-- The responses differ in their bodies at most. -/
def SameHead (a a' : Response) : Prop := { a with body := none } = { a' with body := none }

/-- The messages of failed checks go into the body. -/
theorem similar_readiness :
    Similar Concealed SameHead HealthController.readiness HealthController.readiness := by
  have hcheck : ∀ o, Similar Concealed (fun _ _ ↦ True) (HealthController.check (call o))
      (HealthController.check (call o)) := fun o ↦
    Similar.tryCatch (similar_call.bind fun _ _ _ ↦ .pure trivial) fun _ _ _ ↦ .pure trivial
  exact (hcheck _).bind fun _ _ _ ↦ (hcheck _).bind fun _ _ _ ↦ (hcheck _).bind fun _ _ _ ↦
    .pure rfl

theorem similar_handler {A : Response → Response → Prop} (hA : ∀ a, A a a) {route : Route}
    (hready : route = .readiness →
      Similar Concealed A HealthController.readiness HealthController.readiness)
    (value : Option Json) (r : Request) (session : Option SessionContext) :
    Similar Concealed A (handler P route value r session) (handler P route value r session) := by
  have hsame : ∀ a a', a = a' → A a a' := fun a _ h ↦ h ▸ hA a
  cases route with
  | login => exact ((blind_ofReply concealed_refl).bind fun body ↦
      blind_call.bind fun _ ↦ blind_login body r).mono hsame
  | logout => exact (blind_call.bind fun _ ↦ blind_logout r).mono hsame
  | me => exact (blind_call.bind fun _ ↦ blind_me session).mono hsame
  | liveness => exact (blind_call.bind fun _ ↦ blind_pure).mono hsame
  | readiness => exact similar_call.bind fun _ _ _ ↦ hready rfl

theorem similar_dispatch {A : Response → Response → Prop} (hA : ∀ a, A a a) {r : Request}
    (hready : (∃ value, r.body = .parsed value) → r.route? = some .readiness →
      Similar Concealed A HealthController.readiness HealthController.readiness) :
    Similar Concealed A (dispatch P r) (dispatch P r) := by
  rw [dispatch]
  split
  · exact .throw (concealed_refl _)
  · exact .throw (concealed_refl _)
  · next value hbody =>
    split
    · exact .throw (concealed_refl _)
    · next route hroute =>
      refine Similar.bind (blind_authGuard route r) fun session _ h ↦ h ▸ ?_
      refine Similar.bind (blind_ofReply concealed_refl) fun _ _ _ ↦ ?_
      exact similar_handler hA (fun h ↦ hready ⟨value, hbody⟩ (h ▸ hroute)) value r session

/-- The filter leaves nothing of what it is given but what the client is meant to see. -/
theorem similar_filter {A : Response → Response → Prop} (hA : ∀ a, A a a) {r : Request}
    (hready : (∃ value, r.body = .parsed value) → r.route? = some .readiness →
      Similar Concealed A HealthController.readiness HealthController.readiness) :
    Similar Concealed A
      (tryCatch (dispatch P r) fun e ↦ return DomainExceptionFilter.handle e)
      (tryCatch (dispatch P r) fun e ↦ return DomainExceptionFilter.handle e) :=
  (similar_dispatch hA hready).tryCatch fun _ _ h ↦ .pure (handle_eq_of_concealed h ▸ hA _)

/-- A request for anything but the body of the readiness probe is blind to messages. -/
theorem blind_serve {r : Request} (h : (∃ value, r.body = .parsed value) →
    r.route? = some .readiness → r.method = lit "HEAD") : Blind Concealed (serve P r) := by
  rw [serve]
  split
  · exact blind_pure
  · by_cases hhead : r.method = lit "HEAD"
    · have hdispatch := similar_filter (P := P) (r := r) (A := SameHead) (fun _ ↦ rfl)
        fun _ _ ↦ similar_readiness
      refine hdispatch.bind fun a a' hsame ↦ .pure ?_
      rw [if_pos hhead, if_pos hhead]
      exact hsame
    · exact Blind.bind (similar_filter (fun _ ↦ rfl) fun hbody hroute ↦
        absurd (h hbody hroute) hhead) fun _ ↦ blind_pure

end Blind

/-! ## What the client sees -/

section Respond

variable {P : Platform} {r : Request} {s s' : Script}

theorem respond_ok : ∃ response, respond P r s = .ok response := by
  rw [respond, serve]
  split
  · exact ⟨_, rfl⟩
  · rw [Interaction.Program.interp_bind, Interaction.Program.interp_tryCatch]
    cases (dispatch P r).interp (fun k o ↦ (k + 1, s.reply k o)) 0 with
    | mk k result =>
      cases result with
      | ok response => exact ⟨_, rfl⟩
      | error e => exact ⟨_, rfl⟩

/-- Requests that are blind to messages are answered alike in runs that are alike. -/
theorem respond_eq_of_blind (h : Blind Concealed (serve P r)) (hs : s.Alike s') :
    respond P r s' = respond P r s := by
  have hreply : ∀ (k k' : ℕ) (o : Op), k = k' → k + 1 = k' + 1 ∧
      SimilarReply Concealed Eq (s.reply k o) (s'.reply k' o) := by
    rintro k _ o rfl
    exact ⟨rfl, hs.reply k o⟩
  have hsimilar : SimilarReply Concealed Eq (respond P r s) (respond P r s') :=
    (h.interp hreply rfl).2
  obtain ⟨response, hresponse⟩ := respond_ok (P := P) (r := r) (s := s)
  obtain ⟨response', hresponse'⟩ := respond_ok (P := P) (r := r) (s := s')
  rw [hresponse, hresponse'] at hsimilar ⊢
  cases hsimilar with
  | ok heq => rw [heq]

/-- What a check makes of the answer to its operation. -/
def probe {α : Type} : Except Exn α → HealthController.ComponentStatus
  | .ok _ => .up
  | .error err => .down (err.message?.getD (lit "unknown"))

theorem interp_check {o : Op} {k : ℕ} :
    (HealthController.check (call o)).interp (fun k o ↦ (k + 1, s.reply k o)) k =
      (k + 1, .ok (probe (s.reply k o))) := by
  rw [HealthController.check, Interaction.Program.interp_tryCatch, Interaction.Program.interp_bind,
    Interaction.Program.interp_perform, Interaction.Program.interp_ofReply]
  cases s.reply k o with
  | ok v => rfl
  | error e => rfl

theorem respond_readiness (hbody : ∃ value, r.body = .parsed value)
    (hroute : r.route? = some .readiness) (hhead : r.method ≠ lit "HEAD") :
    respond P r s = .ok (HealthController.report (probe (s.reply 1 .queryRaw))
      (probe (s.reply 2 .ping)) (probe (s.reply 3 .listObjects))) := by
  obtain ⟨value, hbody⟩ := hbody
  have hoptions : r.method ≠ lit "OPTIONS" := by
    intro hmethod
    exact absurd (hmethod ▸ Request.method_mem hroute) (by decide)
  have hhandle : s.reply 0 (.handle .readiness none) = .ok () := by
    cases h : s.reply 0 (.handle .readiness none) with
    | ok v => rfl
    | error e => exact absurd (s.raises _ _ _ h) (by simp [mayReject])
  have hguard : AuthGuard.canActivate P .readiness r = return none := if_pos rfl
  have hcsrf : CsrfGuard.canActivate P .readiness r = .ok () := by
    rw [CsrfGuard.canActivate]
    split <;> rfl
  rw [respond, serve, if_neg hoptions, dispatch, hbody]
  simp only [hroute, handle, hguard, hcsrf, handler, HealthController.readiness,
    Interaction.Program.interp_bind, Interaction.Program.interp_tryCatch,
    Interaction.Program.interp_pure, Interaction.Program.interp_ofReply,
    Interaction.Program.interp_perform, hhandle, interp_check (o := .queryRaw),
    interp_check (o := .ping), interp_check (o := .listObjects), if_neg hhead]

theorem report_injective {d d' c c' t t' : HealthController.ComponentStatus}
    (h : (HealthController.report d c t).body = (HealthController.report d' c' t').body) :
    d = d' ∧ c = c' ∧ t = t' := by
  have hjson : ∀ {c c' : HealthController.ComponentStatus}, c.json = c'.json → c = c' := by
    intro c c' h
    cases c <;> cases c' <;> simp_all [HealthController.ComponentStatus.json, lit]
  simp only [HealthController.report, Response.json, Option.some_inj, Json.obj.injEq,
    List.cons.injEq, Prod.mk.injEq, true_and, and_true] at h
  exact ⟨hjson h.2.1, hjson h.2.2.1, hjson h.2.2.2⟩

end Respond

/-! ## What is revealed -/

/-- A client asks the readiness probe for its report, and one of the checks fails. -/
def Reveals (r : Request) (s : Script) : Prop :=
  (∃ value, r.body = .parsed value) ∧ r.route? = some .readiness ∧ r.method ≠ lit "HEAD" ∧
    ¬((s.reply 1 .queryRaw).isOk ∧ (s.reply 2 .ping).isOk ∧ (s.reply 3 .listObjects).isOk)

namespace Script

/-- Another message. -/
def garble : Exn → Exn
  | .error message stack => .error (message ++ lit "!") stack
  | e => e

theorem mayReject_garble (o : Op) (e : Exn) : mayReject o (garble e) = mayReject o e := by
  cases e with
  | error message stack => cases o <;> rfl
  | _ => rfl

/-- The run in which every infrastructure error has another message. -/
def garbled (s : Script) : Script where
  reply k o := if o.infrastructure then (s.reply k o).mapError garble else s.reply k o
  raises k o e h := by
    split at h
    · cases hreply : s.reply k o with
      | ok v => simp [hreply, Except.mapError] at h
      | error e' =>
        rw [hreply, Except.mapError, Except.error.injEq] at h
        rw [← h, mayReject_garble]
        exact s.raises k o e' hreply
    · exact s.raises k o e h

theorem eq_error (s : Script) {k : ℕ} {o : Op} {e : Exn} (h : s.reply k o = .error e) :
    ∃ message stack, e = .error message stack := by
  have hraises := s.raises k o e h
  cases e with
  | error message stack => exact ⟨message, stack, rfl⟩
  | _ => cases o <;> simp [mayReject] at hraises

theorem alike_garbled (s : Script) : s.Alike s.garbled := by
  intro k o
  split
  · next ho =>
    rw [garbled]
    simp only [if_pos ho]
    cases hreply : s.reply k o with
    | ok v => exact .ok rfl
    | error e =>
      obtain ⟨message, stack, rfl⟩ := s.eq_error hreply
      exact .error ⟨_, _, _, _, rfl, rfl⟩
  · next ho => exact if_neg ho

theorem isOk_of_probe_eq (s : Script) {k : ℕ} {o : Op} (ho : o.infrastructure)
    (h : probe (s.garbled.reply k o) = probe (s.reply k o)) : (s.reply k o).isOk := by
  cases hreply : s.reply k o with
  | ok v => rfl
  | error e =>
    obtain ⟨message, stack, rfl⟩ := s.eq_error hreply
    have hgarbled : s.garbled.reply k o = .error (.error (message ++ lit "!") stack) := by
      rw [garbled]
      simp only [if_pos ho, hreply]
      rfl
    rw [hgarbled, hreply] at h
    have hmessage : message ++ lit "!" = message := HealthController.ComponentStatus.down.inj h
    have hempty : lit "!" = [] := by simpa using hmessage
    exact absurd hempty (by decide)

end Script

/-- **What error messages reveal.** Whatever the messages of the infrastructure errors in its run
are, a request gets the same status and the same body, unless it asks for the report of the
readiness probe and a check fails. -/
theorem conceals_iff (P : Platform) (r : Request) (s : Script) :
    (∀ s', s.Alike s' →
        (respond P r s').map Response.visible = (respond P r s).map Response.visible) ↔
      ¬Reveals r s := by
  constructor
  · rintro h ⟨hbody, hroute, hhead, hfails⟩
    have hsame := h s.garbled s.alike_garbled
    rw [respond_readiness hbody hroute hhead, respond_readiness hbody hroute hhead] at hsame
    obtain ⟨hdatabase, hredis, hstorage⟩ :=
      report_injective (Prod.mk.inj (Except.ok.inj hsame)).2
    exact hfails ⟨s.isOk_of_probe_eq rfl hdatabase, s.isOk_of_probe_eq rfl hredis,
      s.isOk_of_probe_eq rfl hstorage⟩
  · intro h s' hs
    by_cases hblind : (∃ value, r.body = .parsed value) → r.route? = some .readiness →
        r.method = lit "HEAD"
    · rw [respond_eq_of_blind (blind_serve hblind) hs]
    · -- the readiness probe, and no check fails
      push Not at hblind
      obtain ⟨hbody, hroute, hhead⟩ := hblind
      have hok : (s.reply 1 .queryRaw).isOk ∧ (s.reply 2 .ping).isOk ∧
          (s.reply 3 .listObjects).isOk := by
        by_contra hfails
        exact h ⟨hbody, hroute, hhead, hfails⟩
      have hprobe : ∀ {k : ℕ} {o : Op}, (s.reply k o).isOk →
          probe (s'.reply k o) = probe (s.reply k o) := by
        intro k o hisOk
        have hreply := hs.reply k o
        cases hv : s.reply k o with
        | ok v =>
          rw [hv] at hreply
          rw [hreply.eq_ok]
        | error e => simp [hv, Except.isOk, Except.toBool] at hisOk
      rw [respond_readiness hbody hroute hhead, respond_readiness hbody hroute hhead,
        hprobe hok.1, hprobe hok.2.1, hprobe hok.2.2]

/-! A client asks for the report during an outage. -/

/-- Prisma, Redis and the S3 client are out of reach. -/
def outage (message : JsString) : Script where
  reply _
    | .now => .ok 0
    | .randomBytes n => .ok (.replicate n 0)
    | .handle _ _ => .ok ()
    | .argon2Verify _ _ => .ok false
    | .argon2Hash options _ => .ok ⟨options, [], []⟩
    | _ => .error (.error message [])
  raises k o e h := by
    cases o <;> simp at h <;> rw [← h] <;> rfl

theorem outage_alike (message message' : JsString) : (outage message).Alike (outage message') := by
  intro k o
  cases o <;> first
    | exact .error ⟨_, _, _, _, rfl, rfl⟩
    | rfl

/-- A health check, as anybody can send it. -/
def readyzRequest : Request where
  method := lit "GET"
  url := lit "/readyz"
  cookies := []
  csrfHeader := none
  userAgent := none
  ip := none
  body := .parsed none

/-- **The readiness probe tells the messages**: the client learns the addresses that the database,
Redis and S3 clients failed to reach. -/
theorem outage_revealed :
    (outage (lit "connect ECONNREFUSED 10.0.3.7:6379")).Alike
        (outage (lit "connect ECONNREFUSED 10.0.3.8:6379")) ∧
      ¬∀ s', (outage (lit "connect ECONNREFUSED 10.0.3.7:6379")).Alike s' →
        (respond samplePlatform readyzRequest s').map Response.visible =
          (respond samplePlatform readyzRequest
            (outage (lit "connect ECONNREFUSED 10.0.3.7:6379"))).map Response.visible := by
  refine ⟨outage_alike _ _, fun h ↦ ?_⟩
  have hsame := h _ (outage_alike _ (lit "connect ECONNREFUSED 10.0.3.8:6379"))
  have hbody : ∃ value, readyzRequest.body = .parsed value := ⟨none, rfl⟩
  have hhead : readyzRequest.method ≠ lit "HEAD" := by decide
  rw [respond_readiness hbody (by decide) hhead, respond_readiness hbody (by decide) hhead] at hsame
  have hdown := (report_injective (Prod.mk.inj (Except.ok.inj hsame)).2).2.1
  exact absurd (HealthController.ComponentStatus.down.inj hdown) (by decide)

end NativeKiln
