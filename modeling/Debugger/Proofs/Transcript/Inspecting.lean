import Debugger.Proofs.Transcript.Driving

/-! Inspections show things and change nothing. Main statement: without its inspections a
script drives a program to the same end, and its transcript lacks what the inspections
showed. -/
namespace Debugger

namespace Script

/-- The script without its inspections. -/
def resuming (script : List Command) : List Command :=
  script.filter Command.resumes

theorem modes_resuming (script : List Command) : modes (resuming script) = modes script := by
  induction script with
  | nil => rfl
  | cons command rest ih =>
      cases command with
      | resume mode => exact congrArg (mode :: ·) ih
      | inspect inspection => exact ih

/-- What is used up at a pause keeps its resuming command. -/
theorem used_resuming (script : List Command) :
    used (resuming script) = resuming (used script) := by
  induction script with
  | nil => rfl
  | cons command rest ih =>
      cases command with
      | resume mode => rfl
      | inspect inspection => exact ih

theorem unused_resuming (script : List Command) :
    unused (resuming script) = resuming (unused script) := by
  induction script with
  | nil => rfl
  | cons command rest ih =>
      cases command with
      | resume mode => rfl
      | inspect inspection => exact ih

end Script

namespace Transcript
variable {ε ℓ : Type}

/-- The page without its inspections: neither their echoes nor what they showed. -/
def Page.uninspected (p : Page) : Page :=
  { p with commands := Script.resuming p.commands }

theorem pages_resuming (previewLength : Nat) (script : List Command) (stops : List Stop) :
    pages previewLength (Script.resuming script) stops =
      (pages previewLength script stops).map Page.uninspected := by
  induction stops generalizing script with
  | nil => rfl
  | cons stop rest ih =>
      rw [pages, pages, Script.used_resuming, Script.unused_resuming, ih]
      rfl

/-- Whatever runs, inspections influence neither the result nor the session. -/
theorem drive_resuming (run : Run (Session ε ℓ) (Except DebugError Nat)) (script : List Command)
    (written other : List Char) :
    (drive (Script.resuming script) { written := other } run).result =
        (drive script { written } run).result ∧
      (drive (Script.resuming script) { written := other } run).session =
        (drive script { written } run).session := by
  induction run generalizing script written other with
  | finished result s => cases result <;> exact ⟨rfl, rfl⟩
  | parked pause s resume ih =>
      have mode : (reply (Script.resuming script)).mode = (reply script).mode := by
        rw [reply_mode, reply_mode, Script.modes_resuming]
      have rest : (reply (Script.resuming script)).rest = Script.resuming (reply script).rest := by
        rw [reply_rest, reply_rest, Script.unused_resuming]
      simp only [drive, Sink.write, mode, rest]
      rcases Session.resume (reply script).mode s with ⟨_ | _, left⟩
      · exact ⟨rfl, rfl⟩
      · dsimp only
        cases (Engine.slot left pause.slot).signal with
        | none => exact ⟨rfl, rfl⟩
        | some r => exact ih r left _ _ _

/-- Without its inspections a script drives a program to the same result and leaves the same
session behind, hits included; its transcript is that of the whole script but for the echoes
of the inspections and what they showed. -/
theorem inspections_change_nothing (tree : CallTree) (config : Config) (breakpoints : Store)
    (mode : StepMode) (script : List Command) :
    let fresh : Launch.Quiet := Session.new config ()
    let start := { fresh with breakpoints, steps := fresh.steps.setMode mode }
    let full := debug Launch.Quiet.react tree script {} start
    let bare := debug Launch.Quiet.react tree (script.filter Command.resumes) {} start
    let book := pages config.previewLength script
      (tree.progress ⟨breakpoints, mode, fresh.steps.recordedDepth⟩ (Script.modes script)).stops
    full.sink.written = (book.flatMap Page.text).flatten ++ finishedText tree.main.size ∧
      bare.sink.written =
        ((book.map Page.uninspected).flatMap Page.text).flatten ++ finishedText tree.main.size ∧
      bare.result = full.result ∧
      bare.session = full.session := by
  intro fresh start full bare book
  obtain ⟨s, driven⟩ := debug_eq_book tree config breakpoints mode script
  obtain ⟨s', other⟩ := debug_eq_book tree config breakpoints mode (Script.resuming script)
  obtain ⟨result, session⟩ :=
    drive_resuming (tree.run (Session.hook Launch.Quiet.react) start) script [] []
  refine ⟨congrArg (·.sink.written) driven, ?_, result, session⟩
  rw [Script.modes_resuming, pages_resuming] at other
  exact congrArg (·.sink.written) other

end Transcript
end Debugger
