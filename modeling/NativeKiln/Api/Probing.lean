import NativeKiln.Api.Answers
import NativeKiln.Api.Readiness
import NativeKiln.Interaction.Together
import Mathlib.Tactic.FinCases

/-!
# The probes of the API, all at once

`HealthController.readiness` starts its three checks together and waits for all of them, while the
handler in this development asks one dependency after the other. That is the same: the checks deal
with their failures themselves and change nothing, so that what they come to depends on the answers
and not on their order, and the same answers can be given one after the other at any time.
-/

namespace NativeKiln.HealthController

open JsString (lit)
open Interaction (Config Together answersOf)
open Interaction.Program (Goes call goes_call)
open Interaction.Together (operation)
open Answers (headed)

/-- What the probes ask for. -/
def probes : Fin 3 → Op := ![.queryRaw, .ping, .listObjects]

/-- The arguments of `Promise.all`. -/
def checks : Fin 3 → Api ComponentStatus :=
  ![check (call .queryRaw), check (call .ping), check (call .listObjects)]

theorem check_call (o : Op) : check (call o) = operation o statusOf := by
  refine congrArg (Interaction.Program.perform o) (funext fun r ↦ ?_)
  rcases r with e | v <;> rfl

theorem checks_eq : checks = fun i ↦ operation (probes i) statusOf := by
  funext i
  fin_cases i <;> exact check_call _

theorem neutral_probe {P : Platform} {i : Fin 3} {w w' : World}
    {reply : Interaction.Reply Exn (probes i).Val} (h : (api P).Answers w (probes i) reply w') :
    (api P).Neutral (probes i) reply.seen := by
  have hexec : ∃ v : (probes i).Val, ∀ (y : Bytes) (w : World),
      World.exec P y w (probes i) = some (w, .ok v) := by
    fin_cases i
    · exact ⟨(), fun _ _ ↦ rfl⟩
    · exact ⟨lit "PONG", fun _ _ ↦ rfl⟩
    · exact ⟨(), fun _ _ ↦ rfl⟩
  obtain ⟨v, hexec⟩ := hexec
  intro s
  cases reply with
  | answered a =>
    obtain ⟨y, hy⟩ := h
    refine ⟨.answered a, rfl, y, ?_⟩
    change World.exec P y w (probes i) = some (w', a) at hy
    change World.exec P y s (probes i) = some (s, a)
    rw [hexec] at hy ⊢
    rw [(Prod.mk.inj (Option.some_inj.mp hy)).2]
  | rejected e => exact ⟨.rejected e, rfl, h.1, rfl⟩
  | lost a e => exact ⟨.rejected e, rfl, h.1, rfl⟩

theorem goes_readiness (database : Except Exn Unit) (redis : Except Exn JsString)
    (storage : Except Exn Unit) :
    Goes readiness [⟨.queryRaw, database⟩, ⟨.ping, redis⟩, ⟨.listObjects, storage⟩]
      (pure (report (statusOf database) (statusOf redis) (statusOf storage))) := by
  have hcheck : ∀ (o : Op) (r : Except Exn o.Val),
      Goes (check (call o)) [⟨o, r⟩] (pure (statusOf r)) := by
    intro o r
    rw [check_call]
    exact .perform (.refl _)
  exact (hcheck .queryRaw database).bind
    ((hcheck .ping redis).bind ((hcheck .listObjects storage).bind (.refl _)))

theorem goes_serve {P : Platform} {r : Request} {value : Option Json}
    (hroute : r.route? = some .readiness) (hbody : r.body = .parsed value) {past : List Answered}
    {response : Response} (h : Goes readiness past (pure response)) :
    Goes (serve P r) (⟨.handle .readiness none, .ok ()⟩ :: past) (pure (headed r response)) := by
  have hmethod : r.method ∈ Route.readiness.methods := Request.method_mem hroute
  have hoptions : r.method ≠ lit "OPTIONS" := by
    intro hoptions
    rw [hoptions] at hmethod
    exact absurd hmethod (by decide)
  have hcsrf : CsrfGuard.canActivate P .readiness r = .ok () := by
    rw [CsrfGuard.canActivate]
    split
    · rfl
    · exact if_pos rfl
  have hhandle : Goes (handle P .readiness value r)
      (⟨.handle .readiness none, .ok ()⟩ :: past) (pure response) := by
    have hguard : AuthGuard.canActivate P .readiness r = pure none := if_pos rfl
    rw [handle, hguard, hcsrf]
    have hstart : Goes (call (Op.handle .readiness none)) [⟨.handle .readiness none, .ok ()⟩]
      (pure ()) := goes_call
    exact hstart.bind (f := fun _ ↦ readiness) h
  rw [serve, if_neg hoptions, dispatch, hbody, hroute]
  exact (hhandle.caught _).left _

/-- **At once or one after the other.** However the answers to the three checks come in, they have
come to something when there are three; that is the statuses that the answers stand for, and the API
can give the answer that is made of them by asking one dependency after the other, whatever state it
is in. -/
theorem readiness_together (P : Platform) (tr : List (Fin 3 × Answered))
    (s : Together Op Op.Val Exn (Fin 3) ComponentStatus) (h : Together.Run (.start checks) tr s)
    (hanswers : ∀ x ∈ tr, ∃ w reply w', reply.seen = x.2.2 ∧ (api P).Answers w x.2.1 reply w') :
    (s.outcome? = none ↔ tr.length < 3) ∧ ∀ result, s.outcome? = some result →
      ∃ (database : Except Exn Unit) (redis : Except Exn JsString) (storage : Except Exn Unit),
        (answersOf 0 tr = [⟨.queryRaw, database⟩] ∧ answersOf 1 tr = [⟨.ping, redis⟩] ∧
          answersOf 2 tr = [⟨.listObjects, storage⟩]) ∧
        result = .ok [statusOf database, statusOf redis, statusOf storage] ∧
        ∀ (c : Config Op Op.Val Exn Request Response World) (i : ℕ) (r : Request)
          (value : Option Json), c.threads i = none → r.route? = some .readiness →
          r.body = .parsed value →
          ∃ c', Relation.ReflTransGen (api P).Step c c' ∧ c'.store = c.store ∧
            ∃ e ∈ c'.trace, e.thread = i ∧ e.returned =
              some (headed r (report (statusOf database) (statusOf redis) (statusOf storage))) := by
  rw [checks_eq] at h
  obtain ⟨hnone, hsome⟩ := h.outcome_calls
  refine ⟨hnone, fun result hresult ↦ ?_⟩
  obtain ⟨replies, hreplies, rfl⟩ := hsome result hresult
  refine ⟨replies 0, replies 1, replies 2, ⟨hreplies 0, hreplies 1, hreplies 2⟩, ?_, ?_⟩
  · rfl
  · intro c i r value hi hroute hbody
    have hneutral : ∀ i, (api P).Neutral (probes i) (replies i) := by
      intro i
      have hmem : (i, (⟨probes i, replies i⟩ : Answered)) ∈ tr :=
        Interaction.mem_answersOf (by rw [hreplies i]; exact List.mem_singleton_self _)
      obtain ⟨w, reply, w', hseen, hreply⟩ := hanswers _ hmem
      have hprobe := neutral_probe hreply
      rwa [hseen] at hprobe
    have hstart : (api P).Neutral (.handle .readiness none) (.ok ()) :=
      fun w ↦ ⟨.answered (.ok ()), rfl, [], rfl⟩
    obtain ⟨c', hsteps, hstore, hthread⟩ := Interaction.System.exists_steps_of_goes
      (S := api P) (c := c.emit i r .start c.store (some (serve P r))) (i := i) (x := r)
      (goes_serve hroute hbody (goes_readiness (replies 0) (replies 1) (replies 2)))
      (by
        intro a ha
        simp only [List.mem_cons, List.not_mem_nil, or_false] at ha
        rcases ha with rfl | rfl | rfl | rfl
        · exact hstart
        · exact hneutral 0
        · exact hneutral 1
        · exact hneutral 2)
      (by rw [Config.emit_threads, if_pos rfl])
    exact ⟨_, ((Relation.ReflTransGen.single (.start c i r hi)).trans hsteps).tail
      (.finish c' i r _ _ hthread rfl), hstore, ⟨i, r, c'.store, .finish (.ok _), c'.store⟩,
      by simp, rfl, rfl⟩

/-! The bucket fails before the database and Redis have answered. -/

def bucketFirst : List (Fin 3 × Answered) :=
  [(2, ⟨.listObjects, .error (.error (lit "socket hang up") [])⟩), (0, ⟨.queryRaw, .ok ()⟩),
    (1, ⟨.ping, .ok (lit "PONG")⟩)]

theorem readiness_together_bucketFirst : ∃ c',
    Relation.ReflTransGen (api samplePlatform).Step (.initial sampleWorld) c' ∧
      ∃ e ∈ c'.trace, e.returned = some (report .up .up (.down (lit "socket hang up"))) := by
  have hrun : ∃ s, Together.Run (.start checks) bucketFirst s ∧ s.outcome? =
      some (.ok [.up, .up, .down (lit "socket hang up")]) :=
    ⟨_, .tail (.tail (.tail (.refl _) (.perform _ 2 _ _ _ rfl)) (.perform _ 0 _ _ _ rfl))
      (.perform _ 1 _ _ _ rfl), rfl⟩
  obtain ⟨s, hrun, houtcome⟩ := hrun
  obtain ⟨database, redis, storage, ⟨h₀, h₁, h₂⟩, hstatuses, hanswered⟩ :=
    (readiness_together samplePlatform bucketFirst s hrun (by
      intro x hx
      simp only [bucketFirst, List.mem_cons, List.not_mem_nil, or_false] at hx
      rcases hx with rfl | rfl | rfl
      · exact ⟨sampleWorld, .rejected _, sampleWorld, rfl, rfl, rfl⟩
      · exact ⟨sampleWorld, .answered _, sampleWorld, rfl, [], rfl⟩
      · exact ⟨sampleWorld, .answered _, sampleWorld, rfl, [], rfl⟩)).2 _ houtcome
  obtain ⟨c', hsteps, -, e, he, -, hreturned⟩ :=
    hanswered (.initial sampleWorld) 0 readyzRequest none rfl (by decide) rfl
  obtain ⟨hdatabase, hredis, hstorage⟩ : statusOf database = .up ∧ statusOf redis = .up ∧
      statusOf storage = .down (lit "socket hang up") := by
    simpa using (Except.ok.inj hstatuses).symm
  rw [hdatabase, hredis, hstorage] at hreturned
  exact ⟨c', hsteps, e, he, hreturned⟩

end NativeKiln.HealthController
