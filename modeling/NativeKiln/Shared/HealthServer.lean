import NativeKiln.Codec.JsonText

/-!
# The health server

`packages/shared/src/health-server.ts`: the request handler of the services that have no other HTTP
interface. The handler writes the head of a response before it has the body, and both the success
branch and the error branch of the readiness check can throw between the two; what is then left of
the response is in the state the handler runs in.

The main result says for which outcomes of the readiness callback every request is answered exactly
once, with the `status` and `service` of the server in every body of a 200 (`answersOnce_iff`).
-/

namespace NativeKiln

open JsString (lit)
open JsTree (stringify ownToJSON members)

/-! ## Responses -/

/-- A complete response; `none` is an empty body. -/
structure Sent where
  status : ℕ
  body : Option JsonText

/-- A `ServerResponse`: the status of the head that was written, and what was completed. -/
structure ServerResponse where
  head : Option ℕ
  sent : List Sent

def ServerResponse.fresh : ServerResponse := ⟨none, []⟩

/-- The handler's code: it may throw, and what it did to the response stays. -/
abbrev HandlerM := ExceptT Thrown (StateM ServerResponse)

def headersSent : Thrown :=
  .error (.string (lit "Cannot write headers after they are sent to the client"))

/-- `res.writeHead(status, …)`. -/
def writeHead (status : ℕ) : HandlerM Unit := do
  let res ← get
  if res.head.isSome then throw headersSent
  set { res with head := some status }

/-- `res.end(text)`. -/
def endWith (body : Option JsonText) : HandlerM Unit :=
  modify fun res ↦ { res with sent := res.sent ++ [⟨res.head.getD 200, body⟩] }

/-- `res.writeHead(status, …)` and `res.end(text)`. The text is made between the two, and making it
may throw. -/
def writeResponse (status : ℕ) (text : Except Thrown (Option JsonText)) : HandlerM Unit := do
  writeHead status
  endWith (← MonadExcept.ofExcept text)

/-- What becomes of a fresh response: it is completed, or its head is all there is. -/
def responded (status : ℕ) : Except Thrown (Option JsonText) → Except Thrown Unit × ServerResponse
  | .ok body => (.ok (), ⟨some status, [⟨status, body⟩]⟩)
  | .error e => (.error e, ⟨some status, []⟩)

theorem run_writeResponse_fresh (status : ℕ) (text : Except Thrown (Option JsonText)) :
    (writeResponse status text).run.run .fresh = responded status text := by
  cases text <;> rfl

theorem run_writeResponse_of_head (status : ℕ) (text : Except Thrown (Option JsonText)) (head : ℕ)
    (sent : List Sent) :
    (writeResponse status text).run.run ⟨some head, sent⟩
      = (.error headersSent, ⟨some head, sent⟩) :=
  rfl

theorem run_tryCatch (p : HandlerM Unit) (h : Thrown → HandlerM Unit) (res : ServerResponse) :
    (tryCatch p h).run.run res
      = match p.run.run res with
        | (.ok a, res) => (.ok a, res)
        | (.error err, res) => (h err).run.run res := by
  rw [ExceptT.run_tryCatch, StateT.run_bind]
  rcases p.run.run res with ⟨e | a, res'⟩ <;> rfl

/-! ## The readiness callback -/

/-- The own enumerable properties of a record. -/
structure Record where
  properties : List (JsString × JsTree)
  /-- A record has a property once. -/
  nodup : (properties.map Prod.fst).Nodup

/-- What `await options.readiness()` came to. -/
inductive Outcome
  | returned (record : Record)
  | threw (err : Thrown)

/-- `{ ...fields, ...record }`: every property of the record is read and takes the place of a field
of its name. Array indices, which would come first, stay where they are. -/
def Record.spreadOver (record : Record) (fields : List (JsString × JsTree)) :
    Except Thrown (List (JsString × JsTree)) :=
  if record.properties.any fun p ↦ p.2 matches .raising then .error .other
  else .ok (fields.map (fun p ↦ (p.1, (record.properties.lookup p.1).getD p.2)) ++
    record.properties.filter fun p ↦ p.1 ∉ fields.map Prod.fst)

/-! ## The handler -/

/-- The fields of the server itself. -/
def serverFields (service : JsString) : List (JsString × JsTree) :=
  [(lit "status", .string (lit "ok")), (lit "service", .string service)]

/-- The text of the fields of the server with a record spread over them. -/
def Record.text (record : Record) (service : JsString) : Except Thrown (Option JsonText) :=
  (record.spreadOver (serverFields service)).bind fun fields ↦ stringify (.object fields)

/-- `err instanceof Error ? err.message : 'unknown'`. -/
def errorOf : Thrown → JsTree
  | .error message => message
  | .other => .string (lit "unknown")

/-- The body for an error. -/
def degradedFields (service : JsString) (err : Thrown) : List (JsString × JsTree) :=
  [(lit "status", .string (lit "degraded")), (lit "service", .string service),
    (lit "error", errorOf err)]

/-- The value of the callback; without one, an empty record. -/
def awaitReadiness : Option Outcome → Except Thrown Record
  | none => .ok ⟨[], List.nodup_nil⟩
  | some (.returned record) => .ok record
  | some (.threw err) => .error err

/-- The answer to `/readyz`. -/
def answerReadyz (service : JsString) (readiness : Option Outcome) : HandlerM Unit :=
  tryCatch (do
      let detail ← MonadExcept.ofExcept (awaitReadiness readiness)
      writeResponse 200 (detail.text service))
    fun err ↦ writeResponse 503 (stringify (.object (degradedFields service err)))

/-- The handler that `createHealthServer` passes to `createServer`. -/
def onRequest (service : JsString) (readiness : Option Outcome) (url : JsString) : HandlerM Unit :=
  if url = lit "/healthz" then writeResponse 200 (stringify (.object (serverFields service)))
  else if url = lit "/readyz" then answerReadyz service readiness
  else writeResponse 404 (stringify (.object [(lit "error", .string (lit "not_found"))]))

/-- How a request ends for the handler, and what it leaves of the response. -/
def runRequest (service : JsString) (readiness : Option Outcome) (url : JsString) :
    Except Thrown Unit × ServerResponse := (onRequest service readiness url).run.run .fresh

theorem runRequest_readyz (service : JsString) (readiness : Option Outcome) :
    runRequest service readiness (lit "/readyz")
      = (answerReadyz service readiness).run.run .fresh := by
  rw [runRequest, onRequest, if_neg (by decide), if_pos rfl]

/-- A record is answered with 200 when it can be written. Otherwise the head of the 200 has been
written already, and no response is completed. -/
theorem runRequest_returned (service : JsString) (record : Record) :
    runRequest service (some (.returned record)) (lit "/readyz")
      = responded 200 ((record.text service).mapError fun _ ↦ headersSent) := by
  have hready : (do
      let detail ← MonadExcept.ofExcept (awaitReadiness (some (.returned record)))
      writeResponse 200 (detail.text service)) = writeResponse 200 (record.text service) := rfl
  rw [runRequest_readyz, answerReadyz, hready, run_tryCatch, run_writeResponse_fresh]
  cases record.text service with
  | ok body => rfl
  | error e => exact run_writeResponse_of_head ..

theorem runRequest_threw (service : JsString) (err : Thrown) :
    runRequest service (some (.threw err)) (lit "/readyz")
      = responded 503 (stringify (.object (degradedFields service err))) := by
  rw [runRequest_readyz, ← run_writeResponse_fresh]
  rfl

/-! ## Answered exactly once -/

/-- The body is an object with the `status` and the `service` of the server. -/
def OwnFields (service : JsString) (body : Option JsonText) : Prop :=
  ∃ ms, body = some (.object ms) ∧ ms.lookup (lit "status") = some (.string (lit "ok")) ∧
    ms.lookup (lit "service") = some (.string service)

/-- The handler's promise is fulfilled, one complete response is sent, and a 200 speaks for the
server itself. -/
structure AnswersOnce (service : JsString) (run : Except Thrown Unit × ServerResponse) : Prop where
  fulfilled : run.1 = .ok ()
  one : ∃ r, run.2.sent = [r] ∧ (r.status = 200 → OwnFields service r.body)

/-- Every property of the record can be written, and one that is named as a field of the server is
written as that field. A `toJSON` method among the properties writes the whole body; it has to write
the fields of the server itself. -/
def Record.Harmless (service : JsString) (record : Record) : Prop :=
  match ownToJSON record.properties with
  | some text =>
    (∀ p ∈ record.properties, p.2 ≠ .raising) ∧ ∃ body, text = .ok body ∧ OwnFields service body
  | none =>
    (∀ p ∈ record.properties, ∃ text, stringify p.2 = .ok text) ∧
      ∀ field ∈ serverFields service, ∀ v, record.properties.lookup field.1 = some v →
        stringify v = stringify field.2

/-- A record is harmless, and an `Error` has a message that can be written. -/
def Outcome.Harmless (service : JsString) : Outcome → Prop
  | .returned record => record.Harmless service
  | .threw (.error message) => ∃ text, stringify message = .ok text
  | .threw .other => True

theorem Record.lookup_eq_some {record : Record} {p : JsString × JsTree}
    (hp : p ∈ record.properties) : record.properties.lookup p.1 = some p.2 := by
  obtain ⟨properties, hnd⟩ := record
  induction properties with
  | nil => simp at hp
  | cons q properties ih =>
    rw [List.map_cons, List.nodup_cons] at hnd
    rcases List.mem_cons.mp hp with rfl | hp
    · exact List.lookup_cons_self
    · have hne : p.1 ≠ q.1 := fun h ↦ hnd.1 (h ▸ List.mem_map_of_mem hp)
      rw [List.lookup_cons, beq_false_of_ne hne]
      exact ih hnd.2 hp

/-- The fields of the server, then the properties of other names. -/
theorem Record.spreadOver_eq {record : Record} {service : JsString}
    (h : ∀ p ∈ record.properties, p.2 ≠ .raising) :
    record.spreadOver (serverFields service) = .ok
      ((lit "status", (record.properties.lookup (lit "status")).getD (.string (lit "ok"))) ::
        (lit "service", (record.properties.lookup (lit "service")).getD (.string service)) ::
          record.properties.filter fun p ↦ p.1 ∉ [lit "status", lit "service"]) := by
  have hany : (record.properties.any fun p ↦ p.2 matches .raising) = false := by
    rw [List.any_eq_false]
    intro p hp hr
    refine h p hp ?_
    split at hr
    · assumption
    · simp at hr
  rw [spreadOver, hany]
  rfl

theorem Record.spreadOver_of_raising {record : Record} {p : JsString × JsTree}
    (hp : p ∈ record.properties) (h : p.2 = .raising) (fields : List (JsString × JsTree)) :
    record.spreadOver fields = .error .other := by
  rw [spreadOver, if_pos]
  rw [List.any_eq_true]
  exact ⟨p, hp, by rw [h]⟩

theorem ownFields_members_iff {service : JsString} {status name : Option JsonText}
    {rest : List (JsString × JsonText)} (hstatus : rest.lookup (lit "status") = none)
    (hname : rest.lookup (lit "service") = none) :
    OwnFields service (some (.object ((status.map fun t ↦ (lit "status", t)).toList ++
        ((name.map fun t ↦ (lit "service", t)).toList ++ rest)))) ↔
      status = some (.string (lit "ok")) ∧ name = some (.string service) := by
  have hne : (lit "status" == lit "service") = false := by decide
  have hne' : (lit "service" == lit "status") = false := by decide
  have hlookup : ∀ ms : List (JsString × JsonText), OwnFields service (some (.object ms)) ↔
      ms.lookup (lit "status") = some (.string (lit "ok")) ∧
        ms.lookup (lit "service") = some (.string service) := fun ms ↦ by simp [OwnFields]
  rw [hlookup, List.lookup_append, List.lookup_append, List.lookup_append, List.lookup_append,
    hstatus, hname]
  cases status <;> cases name <;> simp [List.lookup_cons, hne, hne']

theorem ownFields_iff {service : JsString} {status name : JsTree}
    {others : List (JsString × JsTree)} (hmethod : ownToJSON others = none)
    (hothers : ∀ p ∈ others, p.1 ≠ lit "status" ∧ p.1 ≠ lit "service") :
    (∃ body, stringify (.object ((lit "status", status) :: (lit "service", name) :: others))
        = .ok body ∧ OwnFields service body) ↔
      stringify status = .ok (some (.string (lit "ok"))) ∧
        stringify name = .ok (some (.string service)) ∧
        ∀ p ∈ others, ∃ text, stringify p.2 = .ok text := by
  have hnone : ownToJSON ((lit "status", status) :: (lit "service", name) :: others) = none := by
    rw [JsTree.ownToJSON_cons_of_ne (by decide), JsTree.ownToJSON_cons_of_ne (by decide), hmethod]
  rw [JsTree.stringify_object hnone, ← JsTree.members_ok_iff]
  have hlookup : ∀ {rest : List (JsString × JsonText)}, members others = .ok rest →
      rest.lookup (lit "status") = none ∧ rest.lookup (lit "service") = none := fun h ↦
    ⟨JsTree.lookup_members_eq_none h fun p hp ↦ (hothers p hp).1,
      JsTree.lookup_members_eq_none h fun p hp ↦ (hothers p hp).2⟩
  constructor
  · rintro ⟨body, hbody, hown⟩
    rcases hms : members ((lit "status", status) :: (lit "service", name) :: others) with e | ms
    · simp [hms, Except.map] at hbody
    · obtain rfl : some (.object ms) = body := by simpa [hms, Except.map] using hbody
      obtain ⟨text, tail, htext, htail, rfl⟩ := JsTree.members_cons.mp hms
      obtain ⟨text', rest, htext', hrest, rfl⟩ := JsTree.members_cons.mp htail
      obtain ⟨rfl, rfl⟩ := (ownFields_members_iff (hlookup hrest).1 (hlookup hrest).2).mp hown
      exact ⟨htext, htext', rest, hrest⟩
  · rintro ⟨hstatus, hname, rest, hrest⟩
    have htail := (JsTree.members_cons (k := lit "service")).mpr ⟨_, rest, hname, hrest, rfl⟩
    have hms := (JsTree.members_cons (k := lit "status")).mpr ⟨_, _, hstatus, htail, rfl⟩
    refine ⟨_, by rw [hms]; rfl, ?_⟩
    exact (ownFields_members_iff (hlookup hrest).1 (hlookup hrest).2).mpr ⟨rfl, rfl⟩

theorem stringify_getD_iff {o : Option JsTree} {s : JsString} :
    stringify (o.getD (.string s)) = .ok (some (.string s)) ↔
      ∀ v, o = some v → stringify v = stringify (.string s) := by
  cases o <;> simp [stringify]

/-- The text of a record speaks for the server exactly when the record is harmless. -/
theorem Record.text_iff {service : JsString} {record : Record} :
    (∃ body, record.text service = .ok body ∧ OwnFields service body) ↔
      record.Harmless service := by
  have hothers := JsTree.ownToJSON_filter (fun k ↦ k ∉ [lit "status", lit "service"])
    (by decide) record.properties
  by_cases hraise : ∀ p ∈ record.properties, p.2 ≠ .raising
  · rw [text, spreadOver_eq hraise, Except.bind, Harmless]
    rcases hmethod : ownToJSON record.properties with _ | text
    · rw [hmethod] at hothers
      rw [ownFields_iff hothers (by simp), stringify_getD_iff, stringify_getD_iff]
      simp only [serverFields, List.forall_mem_cons, List.not_mem_nil, false_imp_iff, implies_true,
        and_true]
      constructor
      · rintro ⟨hstatus, hname, hrest⟩
        refine ⟨fun p hp ↦ ?_, hstatus, hname⟩
        by_cases hkey : p.1 ∉ [lit "status", lit "service"]
        · exact hrest p (List.mem_filter.mpr ⟨hp, by simpa using hkey⟩)
        · -- a property in the place of a field is written as that field
          have hlookup := lookup_eq_some hp
          rw [not_not, List.mem_cons, List.mem_singleton] at hkey
          rcases hkey with hkey | hkey <;> rw [hkey] at hlookup
          · exact ⟨_, hstatus _ hlookup⟩
          · exact ⟨_, hname _ hlookup⟩
      · rintro ⟨hall, hstatus, hname⟩
        exact ⟨hstatus, hname, fun p hp ↦ hall p (List.mem_of_mem_filter hp)⟩
    · rw [JsTree.stringify_object_of_ownToJSON (t := text)]
      · exact (and_iff_right hraise).symm
      · rw [JsTree.ownToJSON_cons_of_ne (by decide), JsTree.ownToJSON_cons_of_ne (by decide),
          hothers, hmethod]
  · push Not at hraise
    obtain ⟨p, hp, hpr⟩ := hraise
    rw [text, spreadOver_of_raising hp hpr, Harmless]
    refine iff_of_false (by simp [Except.bind]) fun h ↦ ?_
    split at h
    · exact h.1 p hp hpr
    · obtain ⟨text, htext⟩ := h.1 p hp
      rw [hpr, stringify] at htext
      simp at htext

theorem Record.harmless_of_names {service : JsString} {record : Record}
    (hnames : ∀ p ∈ record.properties,
      p.1 ∉ [lit "status", lit "service", JsTree.toJSON])
    (htext : ∀ p ∈ record.properties, ∃ text, stringify p.2 = .ok text) :
    record.Harmless service := by
  have hnone : ownToJSON record.properties = none :=
    JsTree.ownToJSON_eq_none fun p hp h ↦ hnames p hp (by simp [h])
  rw [Harmless, hnone]
  refine ⟨htext, fun field hfield v hv ↦ ?_⟩
  obtain ⟨before, after, hsplit, -⟩ := List.lookup_eq_some_iff.mp hv
  refine absurd ?_ (hnames (field.1, v) (by rw [hsplit]; simp))
  simp only [serverFields, List.mem_cons, List.not_mem_nil, or_false] at hfield
  rcases hfield with rfl | rfl <;> simp

theorem stringify_degradedFields_iff {service : JsString} {err : Thrown} :
    (∃ body, stringify (.object (degradedFields service err)) = .ok body) ↔
      (Outcome.threw err).Harmless service := by
  have hnone : ownToJSON (degradedFields service err) = none := by
    rw [degradedFields, JsTree.ownToJSON_cons_of_ne (by decide),
      JsTree.ownToJSON_cons_of_ne (by decide), JsTree.ownToJSON_cons_of_ne (by decide)]
    rfl
  have hmap : (∃ body, stringify (.object (degradedFields service err)) = .ok body) ↔
      ∃ ms, members (degradedFields service err) = .ok ms := by
    rw [JsTree.stringify_object hnone]
    rcases members (degradedFields service err) with e | ms <;> simp [Except.map]
  rw [hmap, JsTree.members_ok_iff, degradedFields]
  cases err <;> simp [Outcome.Harmless, errorOf, stringify]

theorem answersOnce_responded_iff {service : JsString} {status : ℕ}
    {text : Except Thrown (Option JsonText)} : AnswersOnce service (responded status text) ↔
      ∃ body, text = .ok body ∧ (status = 200 → OwnFields service body) := by
  cases text with
  | error e =>
    refine iff_of_false (fun h ↦ ?_) (by simp)
    have hfulfilled := h.fulfilled
    simp [responded] at hfulfilled
  | ok body =>
    constructor
    · rintro ⟨-, r, hr, hown⟩
      obtain rfl : ⟨status, body⟩ = r := List.singleton_inj.mp hr
      exact ⟨body, rfl, hown⟩
    · rintro ⟨body', hbody, hown⟩
      obtain rfl : body = body' := Except.ok.inj hbody
      exact ⟨rfl, _, rfl, hown⟩

theorem answersOnce_readyz_iff {service : JsString} {outcome : Outcome} :
    AnswersOnce service (runRequest service (some outcome) (lit "/readyz")) ↔
      outcome.Harmless service := by
  rcases outcome with record | err
  · rw [runRequest_returned, answersOnce_responded_iff, Outcome.Harmless, ← Record.text_iff]
    cases record.text service <;> simp [Except.mapError]
  · rw [runRequest_threw, answersOnce_responded_iff, ← stringify_degradedFields_iff]
    simp

theorem ownFields_serverFields (service : JsString) :
    ∃ body, stringify (.object (serverFields service)) = .ok body ∧ OwnFields service body :=
  (ownFields_iff rfl (by simp)).mpr ⟨by simp [stringify], by simp [stringify], by simp⟩

theorem runRequest_none (service : JsString) (url : JsString) :
    runRequest service none url
      = runRequest service (some (.returned ⟨[], List.nodup_nil⟩)) url := rfl

theorem harmless_nil {service : JsString} :
    (Outcome.returned ⟨[], List.nodup_nil⟩).Harmless service :=
  ⟨by simp, by simp⟩

/-- **Answered exactly once.** For every URL the handler sends exactly one complete response, its
promise is fulfilled, and the body of a 200 has the server's own status and service, if and only if
the URL is not that of the readiness check, there is no callback, or the callback does no harm: the
record it returns can be written and has nothing in the place of the two fields, the `Error` it
throws has a message that can be written. -/
theorem answersOnce_iff (service : JsString) (readiness : Option Outcome) (url : JsString) :
    AnswersOnce service (runRequest service readiness url) ↔
      (url = lit "/readyz" → ∀ outcome ∈ readiness, outcome.Harmless service) := by
  by_cases hready : url = lit "/readyz"
  · subst hready
    rcases readiness with _ | outcome
    · rw [runRequest_none]
      exact iff_of_true (answersOnce_readyz_iff.mpr harmless_nil) (by simp)
    · rw [answersOnce_readyz_iff]
      simp
  · rw [runRequest, onRequest, if_neg hready]
    refine iff_of_true ?_ fun h ↦ absurd h hready
    by_cases hlive : url = lit "/healthz"
    · obtain ⟨body, hbody, hown⟩ := ownFields_serverFields service
      rw [if_pos hlive, run_writeResponse_fresh, answersOnce_responded_iff]
      exact ⟨body, hbody, fun _ ↦ hown⟩
    · rw [if_neg hlive, run_writeResponse_fresh, answersOnce_responded_iff]
      exact ⟨_, rfl, by simp⟩

/-- A record with a `bigint` leaves the head of a 200 without a body and the promise rejected; a
record with a status of its own is answered, but under that status. -/
theorem readyz_bigint_status :
    runRequest (lit "worker") (some (.returned ⟨[(lit "waiting", .bigint 1)], by decide⟩))
        (lit "/readyz") = (.error headersSent, ⟨some 200, []⟩)
      ∧ ¬AnswersOnce (lit "worker") (runRequest (lit "worker")
          (some (.returned ⟨[(lit "waiting", .bigint 1)], by decide⟩)) (lit "/readyz"))
      ∧ ¬AnswersOnce (lit "worker") (runRequest (lit "worker")
          (some (.returned ⟨[(lit "status", .string (lit "down"))], by decide⟩))
          (lit "/readyz")) := by
  refine ⟨rfl, fun h ↦ ?_, fun h ↦ ?_⟩
  · exact absurd h.fulfilled (by rw [runRequest_returned]; rintro ⟨⟩)
  · obtain ⟨-, hown⟩ := answersOnce_readyz_iff.mp h
    have heq := hown _ List.mem_cons_self (.string (lit "down")) rfl
    exact absurd (show lit "down" = lit "ok" by simpa [stringify] using heq) (by decide)

end NativeKiln
