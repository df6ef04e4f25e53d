import NativeKiln.Api.Server
import NativeKiln.Shared.HealthServer

/-!
# Readiness

`HealthController.readiness` of the API and the readiness callbacks that the worker and the
runner-manager hand to `createHealthServer` (`worker/src/main.ts`, `runner-manager/src/main.ts`).
The Compose health checks look at the status code of the answer and at nothing else.

A dependency shows itself down in three ways: a probe rejects, a probe resolves with a value that
says so, or a body says so. The API writes all of them into the body of a 200; the other two
services answer 503 when a probe rejects and write the rest into the body of a 200. The main result
says for which outcomes of the probes the status code tells the truth (`tellsTruth_iff`).
-/

namespace NativeKiln

open JsString (lit)
open Interaction.Program (interp_bind interp_ofReply interp_perform interp_pure interp_tryCatch)

/-! ## Probes -/

/-- What a probe came to: the value it resolved with, or the exception it rejected with. -/
abbrev Probe := Except Exn JsTree

/-- `res === 'PONG'`. -/
def isPong : JsTree → Bool
  | .string s => s = lit "PONG"
  | _ => false

/-- `RedisService.ping`, for what the client's `ping` came to. -/
def RedisService.ping (reply : Probe) : Except Exn Bool := reply.map isPong

/-- `StorageService.healthy`, for what the request to the bucket came to. -/
def StorageService.healthy (reply : Probe) : Except Exn Bool := reply.map fun _ ↦ true

/-- The exception as the health server catches it. -/
def Exn.thrown (e : Exn) : Thrown :=
  match e.message? with
  | some message => .error (.string message)
  | none => .other

/-- The probes of the API: the query, the `ping` of the client, and the request to the bucket. -/
structure ApiProbes where
  database : Probe
  redis : Probe
  storage : Probe

/-- The probes of the worker: the `ping` of the client and `getJobCounts`. -/
structure WorkerProbes where
  redis : Probe
  jobCounts : Probe

/-- One check of each service; the runner-manager has only a `ping`. -/
structure Probes where
  api : ApiProbes
  worker : WorkerProbes
  runnerManager : Probe

/-- Every probe of the API reports its dependency healthy. -/
structure ApiProbes.Healthy (p : ApiProbes) : Prop where
  database : ∃ v, p.database = .ok v
  redis : RedisService.ping p.redis = .ok true
  storage : StorageService.healthy p.storage = .ok true

/-- Redis answers `PONG`. -/
def Probe.Pong (ping : Probe) : Prop := ∃ v, ping = .ok v ∧ isPong v

/-- Redis answers something else. -/
def Probe.OtherAnswer (ping : Probe) : Prop := ∃ v, ping = .ok v ∧ ¬isPong v

/-- Every probe of the worker reports its dependency healthy. -/
structure WorkerProbes.Healthy (p : WorkerProbes) : Prop where
  redis : p.redis.Pong
  jobCounts : ∃ v, p.jobCounts = .ok v

/-! ## The answers -/

namespace HealthController

/-- What `check` makes of a probe. -/
def statusOf {α : Type} : Except Exn α → ComponentStatus
  | .ok _ => .up
  | .error err => .down (err.message?.getD (lit "unknown"))

@[simp] theorem statusOf_map {α β : Type} (r : Except Exn α) (f : α → β) :
    statusOf (r.map f) = statusOf r := by cases r <;> rfl

/-- The answer of `readiness`. -/
def readinessOf (p : ApiProbes) : Response :=
  report (statusOf p.database) (statusOf (RedisService.ping p.redis))
    (statusOf (StorageService.healthy p.storage))

theorem interp_check {α σ : Type} {h : σ → (o : Op) → σ × Except Exn o.Val} {fn : Api α}
    {s : σ} : (check fn).interp h s = ((fn.interp h s).1, .ok (statusOf (fn.interp h s).2)) := by
  rw [check, interp_tryCatch, interp_bind]
  rcases fn.interp h s with ⟨s', e | a⟩ <;> rfl

/-- Whatever its operations are answered with, `readiness` answers what is said of the probes. -/
theorem interp_readiness {σ : Type} (a : (o : Op) → Except Exn o.Val) (s : σ) :
    readiness.interp (fun s o ↦ (s, a o)) s
      = (s, .ok (readinessOf
          ⟨(a .queryRaw).map fun _ ↦ .undefined, (a .ping).map .string,
            (a .listObjects).map fun _ ↦ .undefined⟩)) := by
  have hcall : ∀ o : Op, (call o).interp (fun s o ↦ (s, a o)) s = (s, a o) := fun o ↦ by
    rw [interp_perform, interp_ofReply]
  simp only [readiness, interp_bind, interp_check, hcall, interp_pure, readinessOf,
    RedisService.ping, StorageService.healthy, statusOf_map]

end HealthController

/-- The readiness callback of the worker. -/
def workerReadiness (p : WorkerProbes) : Except Exn Record := do
  let pong ← p.redis
  let _ ← p.jobCounts
  return ⟨[(lit "redis", .string (if isPong pong then lit "up" else lit "down"))],
    List.nodup_singleton _⟩

/-- The readiness callback of the runner-manager, with what it found of the Docker socket when it
started, and its configured concurrency. -/
def runnerManagerReadiness (ping : Probe) (dockerSocketPresent : Bool) (concurrency : JsString) :
    Except Exn Record := do
  let pong ← ping
  return ⟨[(lit "redis", .string (if isPong pong then lit "up" else lit "down")),
    (lit "dockerSocket", .string (if dockerSocketPresent then lit "present" else lit "absent")),
    (lit "concurrency", .number concurrency)],
    show [lit "redis", lit "dockerSocket", lit "concurrency"].Nodup by decide⟩

/-- What the health server awaits. -/
def Outcome.of : Except Exn Record → Outcome
  | .ok record => .returned record
  | .error e => .threw e.thrown

/-- What a service answers to `/readyz`. -/
def readyz (service : JsString) (readiness : Except Exn Record) : ServerResponse :=
  (runRequest service (some (.of readiness)) (lit "/readyz")).2

/-! ## What the orchestrator sees -/

/-- `r.ok`: a 2xx status. -/
def IsOk (status : ℕ) : Prop := 200 ≤ status ∧ status < 300

/-- The service answered with a 2xx status. -/
def ServerResponse.IsOk (res : ServerResponse) : Prop := ∃ r ∈ res.sent, NativeKiln.IsOk r.status

theorem readyz_isOk_iff {service : JsString} {readiness : Except Exn Record}
    (h : ∀ record, readiness = .ok record → record.Harmless service) :
    (readyz service readiness).IsOk ↔ ∃ record, readiness = .ok record := by
  rcases readiness with e | record
  · refine iff_of_false ?_ (by simp)
    rw [readyz, Outcome.of, runRequest_threw]
    rintro ⟨r, hr, hok⟩
    rcases hbody : JsTree.stringify (.object (degradedFields service e.thrown)) with e' | body
    · simp [hbody, responded] at hr
    · obtain rfl : r = ⟨503, body⟩ := by simpa [hbody, responded] using hr
      exact absurd hok.2 (show ¬(503 : ℕ) < 300 by decide)
  · refine iff_of_true ?_ ⟨record, rfl⟩
    obtain ⟨body, hbody, -⟩ := Record.text_iff.mpr (h record rfl)
    rw [readyz, Outcome.of, runRequest_returned, hbody]
    exact ⟨⟨200, body⟩, List.mem_singleton_self _, le_rfl, show (200 : ℕ) < 300 by decide⟩

theorem isOk_worker_iff {p : WorkerProbes} : (readyz (lit "worker") (workerReadiness p)).IsOk ↔
    (∃ v, p.redis = .ok v) ∧ ∃ v, p.jobCounts = .ok v := by
  obtain ⟨redis, jobCounts⟩ := p
  rw [readyz_isOk_iff]
  · rcases redis with e | pong
    · exact iff_of_false (by rintro ⟨record, ⟨⟩⟩) (by simp)
    · rcases jobCounts with e | counts
      · exact iff_of_false (by rintro ⟨record, ⟨⟩⟩) (by simp)
      · exact iff_of_true ⟨_, rfl⟩ ⟨⟨_, rfl⟩, _, rfl⟩
  · intro record hrecord
    rcases redis with e | pong
    · cases hrecord
    · rcases jobCounts with e | counts
      · cases hrecord
      · obtain rfl := Except.ok.inj hrecord
        refine Record.harmless_of_names ?_ ?_
        · simp only [List.forall_mem_singleton]
          decide
        · simp [JsTree.stringify]

theorem isOk_runnerManager_iff {ping : Probe} {dockerSocketPresent : Bool}
    {concurrency : JsString} :
    (readyz (lit "runner-manager")
      (runnerManagerReadiness ping dockerSocketPresent concurrency)).IsOk ↔
        ∃ v, ping = .ok v := by
  rw [readyz_isOk_iff]
  · rcases ping with e | pong
    · exact iff_of_false (by rintro ⟨record, ⟨⟩⟩) (by simp)
    · exact iff_of_true ⟨_, rfl⟩ ⟨_, rfl⟩
  · intro record hrecord
    rcases ping with e | pong
    · cases hrecord
    · obtain rfl := Except.ok.inj hrecord
      refine Record.harmless_of_names ?_ ?_
      · simp only [List.forall_mem_cons, List.not_mem_nil, false_imp_iff, implies_true, and_true]
        decide
      · simp [JsTree.stringify]

/-- Every service answers with a 2xx status exactly when its probes report its dependencies healthy,
and the API and the worker give the same answer about the same health. -/
structure TellsTruth (dockerSocketPresent : Bool) (concurrency : JsString) (p : Probes) : Prop where
  api : IsOk (HealthController.readinessOf p.api).status ↔ p.api.Healthy
  worker : (readyz (lit "worker") (workerReadiness p.worker)).IsOk ↔ p.worker.Healthy
  runnerManager : (readyz (lit "runner-manager")
    (runnerManagerReadiness p.runnerManager dockerSocketPresent concurrency)).IsOk ↔
      p.runnerManager.Pong
  agree : (p.api.Healthy ↔ p.worker.Healthy) →
    (IsOk (HealthController.readinessOf p.api).status ↔
      (readyz (lit "worker") (workerReadiness p.worker)).IsOk)

theorem isOk_readinessOf (p : ApiProbes) : IsOk (HealthController.readinessOf p).status :=
  ⟨le_rfl, show (200 : ℕ) < 300 by decide⟩

theorem pong_iff {ping : Probe} : ping.Pong ↔ (∃ v, ping = .ok v) ∧ ¬ping.OtherAnswer := by
  rcases ping with e | v
  · simp [Probe.Pong]
  · simp [Probe.Pong, Probe.OtherAnswer]

/-- The worker tells the truth unless Redis answers something else than `PONG` and the queue can be
counted. -/
theorem isOk_worker_iff_healthy_iff {p : WorkerProbes} :
    ((readyz (lit "worker") (workerReadiness p)).IsOk ↔ p.Healthy) ↔
      ¬(p.redis.OtherAnswer ∧ ∃ v, p.jobCounts = .ok v) := by
  have hhealthy : p.Healthy ↔ p.redis.Pong ∧ ∃ v, p.jobCounts = .ok v :=
    ⟨fun h ↦ ⟨h.redis, h.jobCounts⟩, fun h ↦ ⟨h.1, h.2⟩⟩
  rw [isOk_worker_iff, hhealthy, pong_iff]
  constructor
  · rintro h ⟨hother, hjobs⟩
    have hok : ∃ v, p.redis = .ok v := hother.imp fun _ ↦ And.left
    exact (h.mp ⟨hok, hjobs⟩).1.2 hother
  · exact fun h ↦ ⟨fun ⟨hok, hjobs⟩ ↦ ⟨⟨hok, fun hother ↦ h ⟨hother, hjobs⟩⟩, hjobs⟩,
      fun ⟨⟨hok, _⟩, hjobs⟩ ↦ ⟨hok, hjobs⟩⟩

/-- The runner-manager tells the truth unless Redis answers something else than `PONG`. -/
theorem isOk_runnerManager_iff_pong_iff {ping : Probe} {dockerSocketPresent : Bool}
    {concurrency : JsString} :
    ((readyz (lit "runner-manager")
      (runnerManagerReadiness ping dockerSocketPresent concurrency)).IsOk ↔ ping.Pong) ↔
        ¬ping.OtherAnswer := by
  rw [isOk_runnerManager_iff, pong_iff]
  constructor
  · intro h hother
    exact (h.mp (hother.imp fun _ ↦ And.left)).2 hother
  · exact fun h ↦ ⟨fun hok ↦ ⟨hok, h⟩, And.left⟩

/-- **When readiness tells the truth.** The status codes of the API, the worker and the
runner-manager tell whether their dependencies are healthy if and only if every probe of the API
reports its dependency healthy, and no `ping` of the other two resolves with anything but `PONG`
while nothing else rejects. -/
theorem tellsTruth_iff (dockerSocketPresent : Bool) (concurrency : JsString) (p : Probes) :
    TellsTruth dockerSocketPresent concurrency p ↔
      p.api.Healthy ∧ ¬(p.worker.redis.OtherAnswer ∧ ∃ v, p.worker.jobCounts = .ok v) ∧
        ¬p.runnerManager.OtherAnswer := by
  have hapi := isOk_readinessOf p.api
  constructor
  · rintro ⟨h₁, h₂, h₃, -⟩
    exact ⟨h₁.mp hapi, isOk_worker_iff_healthy_iff.mp h₂, isOk_runnerManager_iff_pong_iff.mp h₃⟩
  · rintro ⟨h₁, h₂, h₃⟩
    have hworker := isOk_worker_iff_healthy_iff.mpr h₂
    refine ⟨iff_of_true hapi h₁, hworker, isOk_runnerManager_iff_pong_iff.mpr h₃, fun hagree ↦ ?_⟩
    rw [hworker, ← hagree]
    exact iff_of_true hapi h₁

/-- Every `ping` comes to the same, and the other probes resolve. -/
def sameRedis (ping : Probe) : Probes :=
  ⟨⟨.ok .undefined, ping, .ok .undefined⟩, ⟨ping, .ok .undefined⟩, ping⟩

theorem not_tellsTruth_of_rejected {dockerSocketPresent : Bool} {concurrency : JsString} (e : Exn) :
    ¬TellsTruth dockerSocketPresent concurrency (sameRedis (.error e)) := by
  intro h
  have hapi : ¬(sameRedis (.error e)).api.Healthy := fun hh ↦ by
    have hredis := hh.redis
    simp [sameRedis, RedisService.ping, Except.map] at hredis
  have hworker : ¬(sameRedis (.error e)).worker.Healthy := fun hh ↦ by
    obtain ⟨v, hv, -⟩ := hh.redis
    simp [sameRedis] at hv
  have hok := (h.agree (iff_of_false hapi hworker)).mp (isOk_readinessOf _)
  obtain ⟨v, hv⟩ := (isOk_worker_iff.mp hok).1
  simp [sameRedis] at hv

theorem not_tellsTruth_of_other {dockerSocketPresent : Bool} {concurrency : JsString} {v : JsTree}
    (hv : ¬isPong v) : ¬TellsTruth dockerSocketPresent concurrency (sameRedis (.ok v)) := by
  intro h
  obtain ⟨w, hw, hpong⟩ := h.runnerManager.mp (isOk_runnerManager_iff.mpr ⟨v, rfl⟩)
  obtain rfl : v = w := Except.ok.inj hw
  exact hv hpong

/-- Redis cannot be reached, or answers something else than `PONG`. -/
theorem not_tellsTruth_redis :
    ¬TellsTruth true (lit "2") (sameRedis (.error (.error (lit "Connection is closed.") [])))
      ∧ ¬TellsTruth true (lit "2") (sameRedis (.ok (.string (lit "LOADING")))) :=
  ⟨not_tellsTruth_of_rejected _, not_tellsTruth_of_other (by decide)⟩

end NativeKiln
