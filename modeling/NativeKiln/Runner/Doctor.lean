import NativeKiln.Api.Http
import NativeKiln.Codec.JsNumber
import NativeKiln.Interaction.Together

/-!
# The doctor of the macOS runner

`mac-runner/src/doctor.ts` asks six tools for their versions, all at once, and `cli.ts` prints what
they have answered and turns it into an exit code. The tools answer in any order, or fail, and none
of that disturbs the report: it has one line for each tool, in the order of the source, and the exit
code is zero if and only if all of them have answered (`doctor_reports`).
-/

namespace NativeKiln.MacRunner

open JsString (lit)
open Interaction (Answer Program Together answersOf)
open Interaction.Together (operation)

/-! ## The tools -/

/-- `execFile`, given up after 15 seconds; the value is what the tool has written. -/
inductive ToolOp
  | exec (cmd : JsString) (args : List JsString)

def ToolOp.Val : ToolOp → Type
  | exec _ _ => JsString

structure ToolCheck where
  name : JsString
  ok : Bool
  version : Option JsString
  detail : Option JsString
  deriving DecidableEq

/-- `s.split('\n')[0]`. -/
def firstLine (s : JsString) : JsString := s.takeWhile (· ≠ 10)

def version (cmd : JsString) (args : List JsString) : Program ToolOp ToolOp.Val Exn ToolCheck :=
  tryCatch (do
    let stdout ← Program.call (ToolOp.exec cmd args)
    return { name := cmd, ok := true, version := some (firstLine (JsString.trim stdout))
             detail := none }) fun err ↦
    return { name := cmd, ok := false, version := none
             detail := some (err.message?.getD (lit "not found")) }

/-- The tools and their arguments. -/
def tools : Fin 6 → JsString × List JsString :=
  ![(lit "sw_vers", [lit "-productVersion"]), (lit "xcodebuild", [lit "-version"]),
    (lit "node", [lit "--version"]), (lit "pod", [lit "--version"]),
    (lit "fastlane", [lit "--version"]), (lit "git", [lit "--version"])]

/-- `runDoctor`, before any tool has answered. -/
def runDoctor : Together ToolOp ToolOp.Val Exn (Fin 6) ToolCheck :=
  .start fun i ↦ version (tools i).1 (tools i).2

/-! ## The command line -/

/-- What the process has written, line by line, and its exit code. -/
structure Exit where
  stdout : List JsString
  stderr : List JsString
  code : ℕ
  deriving DecidableEq

def HELP : JsString :=
  lit "native-kiln macOS runner\n\nUsage:\n  kiln-runner <command> [options]\n\nCommands:\n" ++
    lit "  doctor            Check macOS, Xcode, Node, CocoaPods, Fastlane, git.\n" ++
    lit "  register          (Phase 4) Register this Mac with the control plane.\n" ++
    lit "  run               (Phase 4) Start claiming and building iOS jobs.\n" ++
    lit "  help              Show this help.\n"

/-- The line of a check. -/
def line (check : ToolCheck) : JsString :=
  lit "[" ++ (if check.ok then lit "OK " else lit "MISSING") ++ lit "] " ++ check.name ++
    match check.version with
    | none | some [] => []
    | some version => lit "  " ++ version

/-- `main`, for what `runDoctor` comes to if it is asked. -/
def main (argument : Option JsString) (doctor : Except Exn (List ToolCheck)) : Exit :=
  let command := argument.getD (lit "help")
  if command = lit "doctor" then
    match doctor with
    | .ok checks =>
      { stdout := checks.map line, stderr := [], code := if checks.all (·.ok) then 0 else 1 }
    | .error (.other value) => ⟨[], [value], 1⟩
    | .error err => ⟨[], [err.message?.getD []], 1⟩
  else if command = lit "register" ∨ command = lit "run" then
    ⟨[], [lit "\"" ++ command ++ lit "\" is implemented in Phase 4 (M1 iOS runner)."], 2⟩
  else if command = lit "help" ∨ command = lit "--help" ∨ command = lit "-h" then ⟨[HELP], [], 0⟩
  else ⟨[HELP], [lit "Unknown command: " ++ command ++ lit "\n"], 2⟩

/-! ## The report -/

/-- What a tool has answered, as a check. -/
def checkOf (cmd : JsString) : Except Exn JsString → ToolCheck
  | .ok stdout => ⟨cmd, true, some (firstLine (JsString.trim stdout)), none⟩
  | .error err => ⟨cmd, false, none, some (err.message?.getD (lit "not found"))⟩

theorem version_eq (cmd : JsString) (args : List JsString) :
    version cmd args = operation (ToolOp.exec cmd args) (checkOf cmd) := by
  refine congrArg (Program.perform (ToolOp.exec cmd args)) (funext fun r ↦ ?_)
  rcases r with e | v <;> rfl

theorem newline_notMem_firstLine (s : JsString) : 10 ∉ firstLine s := by
  intro h
  have hall : (firstLine s).all (· ≠ 10) := List.all_takeWhile
  exact absurd (List.all_eq_true.mp hall 10 h) (by decide)

theorem newline_notMem_line {cmd : JsString} (hcmd : 10 ∉ cmd) (r : Except Exn JsString) :
    10 ∉ line (checkOf cmd r) := by
  rcases r with e | stdout
  · simp [line, checkOf, hcmd, show (10 : UInt16) ∉ lit "[" by decide,
      show (10 : UInt16) ∉ lit "MISSING" by decide, show (10 : UInt16) ∉ lit "] " by decide]
  · have hversion := newline_notMem_firstLine (JsString.trim stdout)
    simp only [line, checkOf, List.mem_append, not_or]
    refine ⟨⟨⟨⟨by decide, by decide⟩, by decide⟩, hcmd⟩, ?_⟩
    split
    · exact List.not_mem_nil
    · exact List.not_mem_nil
    · next v hv =>
      rw [← Option.some_inj.mp hv, List.mem_append, not_or]
      exact ⟨by decide, hversion⟩

/-- **The report.** In whatever order the tools answer: there is no report before all six have, and
then there is one. It has six lines, one for each tool in the order of the source; the line says
that the tool is there if and only if it has answered, and no tool can write a line of its own. The
exit code is zero if all tools have answered, and one otherwise. -/
theorem doctor_reports (tr : List (Fin 6 × Answer ToolOp ToolOp.Val Exn))
    (s : Together ToolOp ToolOp.Val Exn (Fin 6) ToolCheck) (h : Together.Run runDoctor tr s) :
    (s.outcome? = none ↔ tr.length < 6) ∧ ∀ doctor, s.outcome? = some doctor →
      ∃ replies : Fin 6 → Except Exn JsString,
        (∀ i, answersOf i tr = [⟨.exec (tools i).1 (tools i).2, replies i⟩]) ∧
        (main (some (lit "doctor")) doctor).stdout =
          List.ofFn (fun i ↦ line (checkOf (tools i).1 (replies i))) ∧
        (∀ l ∈ (main (some (lit "doctor")) doctor).stdout, 10 ∉ l) ∧
        (main (some (lit "doctor")) doctor).stderr = [] ∧
        (main (some (lit "doctor")) doctor).code =
          if ∀ i, (replies i).isOk then 0 else 1 := by
  have hrun : runDoctor = .start fun i ↦
      operation (ToolOp.exec (tools i).1 (tools i).2) (checkOf (tools i).1) :=
    congrArg Together.start (funext fun i ↦ version_eq ..)
  rw [hrun] at h
  obtain ⟨hnone, hsome⟩ := h.outcome_calls
  refine ⟨hnone, fun doctor hdoctor ↦ ?_⟩
  obtain ⟨replies, hreplies, rfl⟩ := hsome doctor hdoctor
  have hstdout : (main (some (lit "doctor"))
      (.ok (List.ofFn fun i ↦ checkOf (tools i).1 (replies i)))).stdout =
        List.ofFn fun i ↦ line (checkOf (tools i).1 (replies i)) := by
    simp [main]
  refine ⟨replies, hreplies, hstdout, ?_, ?_, ?_⟩
  · rw [hstdout]
    intro l hl
    obtain ⟨i, rfl⟩ := List.mem_ofFn.mp hl
    refine newline_notMem_line ?_ _
    have htools : ∀ i, (10 : UInt16) ∉ (tools i).1 := by decide
    exact htools i
  · simp [main]
  · have hcode : (main (some (lit "doctor"))
        (.ok (List.ofFn fun i ↦ checkOf (tools i).1 (replies i)))).code =
          if (List.ofFn fun i ↦ checkOf (tools i).1 (replies i)).all (·.ok) then 0 else 1 := by
      simp [main]
    have hok : ∀ cmd (r : Except Exn JsString), (checkOf cmd r).ok = r.isOk := by
      rintro cmd (e | stdout) <;> rfl
    rw [hcode]
    refine if_congr ?_ rfl rfl
    rw [List.all_eq_true]
    constructor
    · exact fun hall i ↦ hok (tools i).1 (replies i) ▸ hall _ (List.mem_ofFn.mpr ⟨i, rfl⟩)
    · intro hall check hcheck
      obtain ⟨i, rfl⟩ := List.mem_ofFn.mp hcheck
      exact (hok _ _).trans (hall i)

/-! A Mac without Fastlane, which is the first to be found out. -/

def withoutFastlane : List (Fin 6 × Answer ToolOp ToolOp.Val Exn) :=
  [(4, ⟨.exec (lit "fastlane") [lit "--version"], .error (.error (lit "ENOENT") [])⟩),
    (5, ⟨.exec (lit "git") [lit "--version"], .ok (lit "git version 2.39.5\n")⟩),
    (0, ⟨.exec (lit "sw_vers") [lit "-productVersion"], .ok (lit "15.2\n")⟩),
    (1, ⟨.exec (lit "xcodebuild") [lit "-version"],
      .ok (lit "Xcode 16.2\nBuild version 16C5032a\n")⟩),
    (2, ⟨.exec (lit "node") [lit "--version"], .ok (lit "v22.12.0\n")⟩),
    (3, ⟨.exec (lit "pod") [lit "--version"], .ok (lit "1.16.2\n")⟩)]

theorem doctor_reports_withoutFastlane : ∃ s, Together.Run runDoctor withoutFastlane s ∧
    ∀ doctor, s.outcome? = some doctor → (main (some (lit "doctor")) doctor).code = 1 := by
  have hrun : ∃ s, Together.Run runDoctor withoutFastlane s :=
    ⟨_, .tail (.tail (.tail (.tail (.tail (.tail (.refl _) (.perform _ 4 _ _ _ rfl))
      (.perform _ 5 _ _ _ rfl)) (.perform _ 0 _ _ _ rfl)) (.perform _ 1 _ _ _ rfl))
      (.perform _ 2 _ _ _ rfl)) (.perform _ 3 _ _ _ rfl)⟩
  obtain ⟨s, hrun⟩ := hrun
  refine ⟨s, hrun, fun doctor hdoctor ↦ ?_⟩
  obtain ⟨replies, hreplies, -, -, -, hcode⟩ :=
    (doctor_reports withoutFastlane s hrun).2 doctor hdoctor
  have hfastlane : (.error (.error (lit "ENOENT") []) : Except Exn JsString) = replies 4 :=
    eq_of_heq (Sigma.mk.inj (List.cons.inj (hreplies 4)).1).2
  rw [hcode, if_neg fun hall ↦ ?_]
  have hok := hall 4
  rw [← hfastlane] at hok
  exact absurd hok (by decide)

end NativeKiln.MacRunner
