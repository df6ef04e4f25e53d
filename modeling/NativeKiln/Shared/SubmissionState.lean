import NativeKiln.Interaction.Lifecycle
import NativeKiln.Shared.Errors
import Mathlib.Data.List.Infix

/-!
# The life of a submission

`packages/shared/src/submission-state.ts`: nine states with a written-out table of transitions, and
a set of terminal states beside it. A submission that is ready may be submitted with or without the
intermediate state `SUBMITTING`, and ends in one of two verdicts, so that there are four routes
through the table; `FAILED` is the exit from each of them.
-/

namespace NativeKiln

open JsString (lit)
open Interaction (visited Accepted collapse mem_collapse head?_collapse_cons head?_collapse_visited
  getLast?_collapse visited_take_of_eq_append Guard OnRoute History Unfolds)

/-! ## States and transitions -/

inductive SubmissionState
  | QUEUED
  | UPLOADING
  | PROCESSING
  | READY
  | SUBMITTING
  | SUBMITTED
  | APPROVED
  | REJECTED
  | FAILED
  deriving DecidableEq, Repr

namespace SubmissionState

/-- The state as the source spells it. -/
def text : SubmissionState → JsString
  | QUEUED => lit "QUEUED"
  | UPLOADING => lit "UPLOADING"
  | PROCESSING => lit "PROCESSING"
  | READY => lit "READY"
  | SUBMITTING => lit "SUBMITTING"
  | SUBMITTED => lit "SUBMITTED"
  | APPROVED => lit "APPROVED"
  | REJECTED => lit "REJECTED"
  | FAILED => lit "FAILED"

def SUBMISSION_STATES : List SubmissionState :=
  [QUEUED, UPLOADING, PROCESSING, READY, SUBMITTING, SUBMITTED, APPROVED, REJECTED, FAILED]

def TERMINAL_SUBMISSION_STATES : List SubmissionState := [APPROVED, REJECTED, FAILED]

def TRANSITIONS : SubmissionState → List SubmissionState
  | QUEUED => [UPLOADING, FAILED]
  | UPLOADING => [PROCESSING, FAILED]
  | PROCESSING => [READY, FAILED]
  -- ready means processed and available; it may be submitted for review or left as it is
  | READY => [SUBMITTING, SUBMITTED, FAILED]
  | SUBMITTING => [SUBMITTED, FAILED]
  | SUBMITTED => [APPROVED, REJECTED, FAILED]
  | APPROVED => []
  | REJECTED => []
  | FAILED => []

def canTransitionSubmission (source target : SubmissionState) : Bool :=
  if source = target then true else (TRANSITIONS source).contains target

def assertSubmissionTransition (source target : SubmissionState) :
    Except DomainError SubmissionState :=
  if !canTransitionSubmission source target then
    throw (InvalidStateTransitionError source.text target.text)
  else pure target

def isTerminalSubmissionState (state : SubmissionState) : Bool :=
  TERMINAL_SUBMISSION_STATES.contains state

/-! ## One step -/

/-- A transition that is a change. -/
def Moves (source target : SubmissionState) : Prop :=
  source ≠ target ∧ canTransitionSubmission source target

instance : DecidableRel Moves := fun _ _ ↦ inferInstanceAs (Decidable (_ ∧ _))

theorem mem_SUBMISSION_STATES (s : SubmissionState) : s ∈ SUBMISSION_STATES := by
  cases s <;> decide

theorem terminal_iff (s : SubmissionState) : isTerminalSubmissionState s ↔
    ∀ t, canTransitionSubmission s t → t = s := by
  have h : ∀ s ∈ SUBMISSION_STATES, isTerminalSubmissionState s ↔
      ∀ t ∈ SUBMISSION_STATES, canTransitionSubmission s t → t = s := by decide
  rw [h s (mem_SUBMISSION_STATES s)]
  exact forall_congr' fun t ↦ imp_iff_right (mem_SUBMISSION_STATES t)

theorem canTransitionSubmission_self (s : SubmissionState) : canTransitionSubmission s s :=
  if_pos rfl

theorem guard : Guard assertSubmissionTransition Moves :=
  Guard.of_can (fun s r : SubmissionState ↦ InvalidStateTransitionError s.text r.text)
    canTransitionSubmission_self

/-! ## Histories -/

/-- The complete histories without a failure: `SUBMITTING` may be left out, and there are two
verdicts. -/
def routes : List (List SubmissionState) :=
  [[], [SUBMITTING]].flatMap fun submitting ↦ [APPROVED, REJECTED].map fun verdict ↦
    [QUEUED, UPLOADING, PROCESSING, READY] ++ submitting ++ [SUBMITTED, verdict]

/-- A non-empty beginning of one of the routes, and then perhaps one `FAILED`, unless the last state
is terminal. -/
def IsSubmissionHistory (l : List SubmissionState) : Prop :=
  History routes (isTerminalSubmissionState ·) (· = FAILED) l

theorem unfolds : Unfolds Moves QUEUED routes (isTerminalSubmissionState ·) (· = FAILED) where
  start := by decide
  step {p s} hp hs u := by
    have h : ∀ ρ ∈ routes, ∀ p ∈ ρ.inits, ∀ s ∈ p.getLast?, ∀ u ∈ SUBMISSION_STATES,
        Moves s u ↔ ¬isTerminalSubmissionState s ∧ u = FAILED ∨ OnRoute routes (p ++ [u]) := by
      decide +kernel
    obtain ⟨ρ, hρ, hpre⟩ := hp
    exact h ρ hρ p ((List.mem_inits p ρ).mpr hpre) s hs u (mem_SUBMISSION_STATES u)
  deadEnd {x u} hx hmove := by
    subst hx
    exact hmove.1 ((terminal_iff FAILED).mp rfl u hmove.2).symm

theorem isChain_iff {l : List SubmissionState} (h : l.head? = some QUEUED) :
    l.IsChain Moves ↔ IsSubmissionHistory l := by
  obtain ⟨l', rfl⟩ := List.head?_eq_some_iff.mp h
  exact unfolds.isChain_iff l'

/-- What has to come before a state: a verdict comes after the submission, and nothing is submitted
before it was ready. -/
def Precedes (s t : SubmissionState) : Prop :=
  t ∈ [APPROVED, REJECTED] ∧ s = SUBMITTED ∨ t ∈ [SUBMITTING, SUBMITTED] ∧ s = READY

instance : DecidableRel Precedes := fun _ _ ↦ inferInstanceAs (Decidable (_ ∨ _))

theorem IsSubmissionHistory.mem_of_precedes {l : List SubmissionState} {s t : SubmissionState}
    (h : IsSubmissionHistory l) (hlast : l.getLast? = some t) (hst : Precedes s t) : s ∈ l := by
  have hroute : ∀ ρ ∈ routes, ∀ p ∈ ρ.inits, ∀ t ∈ p.getLast?, ∀ s ∈ SUBMISSION_STATES,
      Precedes s t → s ∈ p := by decide
  obtain ⟨p, -, ⟨ρ, hρ, hpre⟩, rfl | ⟨-, x, rfl, rfl⟩⟩ := h
  · exact hroute ρ hρ l ((List.mem_inits l ρ).mpr hpre) t hlast s (mem_SUBMISSION_STATES s) hst
  · obtain rfl : FAILED = t := by simpa using hlast
    simp [Precedes] at hst

/-- **The life of a submission.** Whatever is requested, in any order and number, the visited states
with repeats collapsed are a submission history; and the requests are all accepted if and only if
they are themselves one. The terminal states are those without a further change. So a verdict comes
only after `SUBMITTED`, and nothing is submitted before it was `READY`. -/
theorem submission_lifecycle (requests : List SubmissionState) :
    IsSubmissionHistory (collapse (visited assertSubmissionTransition QUEUED requests)) ∧
      (Accepted assertSubmissionTransition QUEUED requests ↔
        IsSubmissionHistory (collapse (QUEUED :: requests))) ∧
      (∀ s, isTerminalSubmissionState s ↔ ∀ t, canTransitionSubmission s t → t = s) ∧
      ∀ pre t post, visited assertSubmissionTransition QUEUED requests = pre ++ t :: post →
        ∀ s, Precedes s t → s ∈ pre := by
  have hhistory : ∀ requests,
      IsSubmissionHistory (collapse (visited assertSubmissionTransition QUEUED requests)) :=
    fun requests ↦
      (isChain_iff head?_collapse_visited).mp (guard.isChain_collapse_visited QUEUED requests)
  refine ⟨hhistory requests, ?_, terminal_iff, ?_⟩
  · rw [guard.accepted_iff, isChain_iff head?_collapse_cons]
  · intro pre t post hvisited s hst
    -- the requests up to `t` have a history of their own, and it ends in `t`
    have hpre := hhistory (requests.take pre.length)
    rw [visited_take_of_eq_append hvisited] at hpre
    have hmem := hpre.mem_of_precedes (by rw [getLast?_collapse, List.getLast?_concat]) hst
    rw [mem_collapse, List.mem_append, List.mem_singleton] at hmem
    refine hmem.resolve_right ?_
    rintro rfl
    revert hst
    cases s <;> decide

end SubmissionState

end NativeKiln
