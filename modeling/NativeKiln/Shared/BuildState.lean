import NativeKiln.Interaction.Lifecycle
import NativeKiln.Shared.Errors
import Mathlib.Data.List.Infix
import Mathlib.Logic.Function.Basic

/-!
# The life of a build

`packages/shared/src/build-state.ts`: thirteen states and a table of transitions, computed by two
loops. `assertBuildTransition` follows a request along an edge of the table or for the present
state, and throws for every other request.

The table is the one route `HAPPY_PATH` with the exits `ABORT_STATES`, which is checked one step at
a time. The histories of any number of requests follow from that.
-/

namespace NativeKiln

open JsString (lit)
open Interaction (visited Accepted collapse changes mem_collapse head?_collapse_cons
  head?_collapse_visited Guard OnRoute History Unfolds)

/-! ## States and transitions -/

inductive BuildState
  | QUEUED
  | ASSIGNED
  | PREPARING
  | CLONING
  | INSTALLING
  | PREBUILDING
  | COMPILING
  | SIGNING
  | UPLOADING
  | SUCCEEDED
  | FAILED
  | CANCELLED
  | TIMED_OUT
  deriving DecidableEq, Repr

namespace BuildState

/-- The state as the source spells it. -/
def text : BuildState → JsString
  | QUEUED => lit "QUEUED"
  | ASSIGNED => lit "ASSIGNED"
  | PREPARING => lit "PREPARING"
  | CLONING => lit "CLONING"
  | INSTALLING => lit "INSTALLING"
  | PREBUILDING => lit "PREBUILDING"
  | COMPILING => lit "COMPILING"
  | SIGNING => lit "SIGNING"
  | UPLOADING => lit "UPLOADING"
  | SUCCEEDED => lit "SUCCEEDED"
  | FAILED => lit "FAILED"
  | CANCELLED => lit "CANCELLED"
  | TIMED_OUT => lit "TIMED_OUT"

def BUILD_STATES : List BuildState :=
  [QUEUED, ASSIGNED, PREPARING, CLONING, INSTALLING, PREBUILDING, COMPILING, SIGNING, UPLOADING,
    SUCCEEDED, FAILED, CANCELLED, TIMED_OUT]

def TERMINAL_BUILD_STATES : List BuildState := [SUCCEEDED, FAILED, CANCELLED, TIMED_OUT]

/-- Happy-path progression. -/
def HAPPY_PATH : List BuildState :=
  [QUEUED, ASSIGNED, PREPARING, CLONING, INSTALLING, PREBUILDING, COMPILING, SIGNING, UPLOADING,
    SUCCEEDED]

def ABORT_STATES : List BuildState := [FAILED, CANCELLED, TIMED_OUT]

/-- A map from states to sets of states. -/
abbrev TransitionMap := BuildState → Option (List BuildState)

/-- `map.get(source)!.add(target)`. -/
def TransitionMap.add (map : TransitionMap) (source target : BuildState) : TransitionMap :=
  Function.update map source ((map source).map fun targets ↦ targets.insert target)

def buildTransitionMap : TransitionMap :=
  let map : TransitionMap :=
    BUILD_STATES.foldl (fun map state ↦ Function.update map state (some [])) fun _ ↦ none
  let map := (List.range (HAPPY_PATH.length - 1)).foldl (fun map i ↦
    match HAPPY_PATH[i]?, HAPPY_PATH[i + 1]? with
    | some source, some target => map.add source target
    | _, _ => map) map
  -- any non-terminal state may move to any abort state
  BUILD_STATES.foldl (fun map state ↦
    if state ∈ TERMINAL_BUILD_STATES then map
    else ABORT_STATES.foldl (fun map abort ↦ map.add state abort) map) map

def BUILD_TRANSITIONS : TransitionMap := buildTransitionMap

def canTransitionBuild (source target : BuildState) : Bool :=
  if source = target then true
  else match BUILD_TRANSITIONS source with
    | some targets => targets.contains target
    | none => false

def assertBuildTransition (source target : BuildState) : Except DomainError BuildState :=
  if !canTransitionBuild source target then
    throw (InvalidStateTransitionError source.text target.text)
  else pure target

def isTerminalBuildState (state : BuildState) : Bool := TERMINAL_BUILD_STATES.contains state

/-! ## One step -/

/-- A transition that is a change. -/
def Moves (source target : BuildState) : Prop := source ≠ target ∧ canTransitionBuild source target

instance : DecidableRel Moves := fun _ _ ↦ inferInstanceAs (Decidable (_ ∧ _))

theorem mem_BUILD_STATES (s : BuildState) : s ∈ BUILD_STATES := by cases s <;> decide

/-- What the two loops have put into the table: the next state of the happy path, and the abort
states for every state that is not terminal. -/
theorem moves_iff (s t : BuildState) : Moves s t ↔
    (s, t) ∈ HAPPY_PATH.zip HAPPY_PATH.tail ∨ s ∉ TERMINAL_BUILD_STATES ∧ t ∈ ABORT_STATES := by
  have h : ∀ s ∈ BUILD_STATES, ∀ t ∈ BUILD_STATES, Moves s t ↔
      (s, t) ∈ HAPPY_PATH.zip HAPPY_PATH.tail ∨
        s ∉ TERMINAL_BUILD_STATES ∧ t ∈ ABORT_STATES := by decide +kernel
  exact h s (mem_BUILD_STATES s) t (mem_BUILD_STATES t)

theorem terminal_iff (s : BuildState) : isTerminalBuildState s ↔ ∀ t, ¬Moves s t := by
  simp only [moves_iff]
  constructor
  · cases s <;> simp [isTerminalBuildState, TERMINAL_BUILD_STATES, HAPPY_PATH]
  · intro h
    by_contra hs
    refine h FAILED (Or.inr ⟨?_, by decide⟩)
    simpa [isTerminalBuildState] using hs

theorem canTransitionBuild_self (s : BuildState) : canTransitionBuild s s := if_pos rfl

theorem guard : Guard assertBuildTransition Moves :=
  Guard.of_can (fun s r : BuildState ↦ InvalidStateTransitionError s.text r.text)
    canTransitionBuild_self

/-! ## Histories -/

/-- A non-empty prefix of the happy path, and then perhaps one abort state, unless the prefix ends
in `SUCCEEDED`. -/
def IsBuildHistory (l : List BuildState) : Prop :=
  History [HAPPY_PATH] (· = SUCCEEDED) (· ∈ ABORT_STATES) l

theorem unfolds : Unfolds Moves QUEUED [HAPPY_PATH] (· = SUCCEEDED) (· ∈ ABORT_STATES) where
  start := by decide
  step {p s} hp hs u := by
    have h : ∀ p ∈ HAPPY_PATH.inits, ∀ s ∈ p.getLast?, ∀ u ∈ BUILD_STATES,
        ((s, u) ∈ HAPPY_PATH.zip HAPPY_PATH.tail ∨
          s ∉ TERMINAL_BUILD_STATES ∧ u ∈ ABORT_STATES) ↔
        (¬s = SUCCEEDED ∧ u ∈ ABORT_STATES ∨ OnRoute [HAPPY_PATH] (p ++ [u])) := by
      decide +kernel
    obtain ⟨ρ, hρ, hpre⟩ := hp
    obtain rfl := List.mem_singleton.mp hρ
    rw [moves_iff]
    exact h p ((List.mem_inits p _).mpr hpre) s hs u (mem_BUILD_STATES u)
  deadEnd {x u} hx := by
    refine (terminal_iff x).mp ?_ u
    revert hx
    cases x <;> decide

theorem isChain_iff {l : List BuildState} (h : l.head? = some QUEUED) :
    l.IsChain Moves ↔ IsBuildHistory l := by
  obtain ⟨l', rfl⟩ := List.head?_eq_some_iff.mp h
  exact unfolds.isChain_iff l'

theorem IsBuildHistory.of_mem {l : List BuildState} (h : IsBuildHistory l) (hs : SUCCEEDED ∈ l) :
    l = HAPPY_PATH := by
  have hfull : ∀ p ∈ HAPPY_PATH.inits, SUCCEEDED ∈ p → p = HAPPY_PATH := by decide
  obtain ⟨p, -, ⟨ρ, hρ, hpre⟩, rfl | ⟨hlast, x, hx, rfl⟩⟩ := h
  · obtain rfl := List.mem_singleton.mp hρ
    exact hfull l ((List.mem_inits l _).mpr hpre) hs
  · obtain rfl := List.mem_singleton.mp hρ
    rcases List.mem_append.mp hs with hs | hs
    · obtain rfl := hfull p ((List.mem_inits p _).mpr hpre) hs
      exact absurd rfl (hlast SUCCEEDED rfl)
    · obtain rfl := List.mem_singleton.mp hs
      exact absurd hx (by decide)

theorem IsBuildHistory.length_le {l : List BuildState} (h : IsBuildHistory l) : l.length ≤ 10 := by
  have hshort : ∀ p ∈ HAPPY_PATH.inits, (∀ s ∈ p.getLast?, ¬s = SUCCEEDED) → p.length ≤ 9 := by
    decide
  obtain ⟨p, -, ⟨ρ, hρ, hpre⟩, rfl | ⟨hlast, x, hx, rfl⟩⟩ := h
  · obtain rfl := List.mem_singleton.mp hρ
    exact hpre.length_le
  · obtain rfl := List.mem_singleton.mp hρ
    have := hshort p ((List.mem_inits p _).mpr hpre) hlast
    simp only [List.length_append, List.length_singleton]
    omega

/-- **The life of a build.** Whatever is requested, in any order and number, the visited states with
repeats collapsed are a build history; and the requests are all accepted if and only if they are
themselves one. So a build has succeeded only through every stage, a terminal state is never left,
and there are at most nine changes. -/
theorem build_lifecycle (requests : List BuildState) :
    IsBuildHistory (collapse (visited assertBuildTransition QUEUED requests)) ∧
      (Accepted assertBuildTransition QUEUED requests ↔
        IsBuildHistory (collapse (QUEUED :: requests))) ∧
      (SUCCEEDED ∈ visited assertBuildTransition QUEUED requests →
        collapse (visited assertBuildTransition QUEUED requests) = HAPPY_PATH) ∧
      (∀ pre s post, visited assertBuildTransition QUEUED requests = pre ++ s :: post →
        isTerminalBuildState s → ∀ t ∈ post, t = s) ∧
      changes (visited assertBuildTransition QUEUED requests) ≤ 9 := by
  have hhistory : IsBuildHistory (collapse (visited assertBuildTransition QUEUED requests)) := by
    refine (isChain_iff ?_).mp (guard.isChain_collapse_visited QUEUED requests)
    exact head?_collapse_visited
  refine ⟨hhistory, ?_, fun hs ↦ hhistory.of_mem (mem_collapse.mpr hs), ?_, ?_⟩
  · rw [guard.accepted_iff, isChain_iff head?_collapse_cons]
  · intro pre s post hvisited hterminal t ht
    exact guard.eq_of_deadEnd ((terminal_iff s).mp hterminal) hvisited t ht
  · rw [changes]
    have := hhistory.length_le
    omega

end BuildState

end NativeKiln
