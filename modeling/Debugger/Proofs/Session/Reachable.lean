import Debugger.Proofs.Session.Conduct
import Debugger.Proofs.Session.Invariants

/-! Sessions as they can be found at any time: before, during and after runs, from inside
callbacks and from outside. Main statement: a command needs a pause and takes it away, so of
all demands made at one pause the first succeeds and the others change nothing. -/
namespace Debugger
variable {ε ℓ : Type}

/-- Sessions that pauses, releases and demands lead to, in any order. All else about a
session may change at any time. -/
inductive Session.Reachable : Session ε ℓ → Prop where
  | new (config : Config) (own : ε) : Reachable (Session.new config own)
  | install (expression : Expression) (reason : StopReason) (depth : Nat) {s : Session ε ℓ} :
      Reachable s → Reachable (Engine.install expression reason depth s)
  | leave (pause : Pause) (r : Release) {s : Session ε ℓ} :
      Reachable s → Reachable (Engine.leave pause r s)
  | resume (mode : StepMode) {s : Session ε ℓ} : Reachable s → Reachable (Session.resume mode s).2
  | interrupt {s : Session ε ℓ} : Reachable s → Reachable (Session.interrupt s).2
  | breakpoints (breakpoints : Store) {s : Session ε ℓ} :
      Reachable s → Reachable { s with breakpoints }
  | steps (steps : Steps) {s : Session ε ℓ} : Reachable s → Reachable { s with steps }
  | context (context : Context) {s : Session ε ℓ} : Reachable s → Reachable { s with context }
  | host (host : Front ε ℓ) {s : Session ε ℓ} : Reachable s → Reachable { s with host }
  | note (diagnostics : List Diagnostic) {s : Session ε ℓ} :
      Reachable s → Reachable (Engine.note diagnostics s)

namespace Demand
variable {s : Session ε ℓ}

theorem sound_make (demand : Demand) (sound : s.standing.Sound) :
    (demand.make s).2.standing.Sound := by
  cases current : s.current with
  | none =>
      rw [demand.make_free current]
      exact sound
  | some pause =>
      obtain ⟨noted, made⟩ := demand.make_outstanding (sound.outstanding current)
      rw [made]
      exact .of_free rfl

end Demand

namespace Session.Reachable

/-- The pause of a reachable session has not been released. -/
theorem sound {s : Session ε ℓ} (reachable : Reachable s) : s.standing.Sound := by
  induction reachable with
  | new config own => exact .of_free rfl
  | install expression reason depth _ _ =>
      intro pause current
      obtain rfl := Option.some.inj current
      exact (Engine.outstanding_install expression reason depth _).unreleased
  | leave pause r _ ih =>
      intro other current
      exact ih other (Option.filter_eq_some_iff.mp current).1
  | resume mode _ ih => exact (Demand.command mode).sound_make ih
  | interrupt _ ih => exact Demand.interrupt.sound_make ih
  | breakpoints _ _ ih | steps _ _ ih | context _ _ ih | host _ _ ih | note _ _ ih => exact ih

theorem invariant : Invariant (Reachable (ε := ε) (ℓ := ℓ)) where
  note diagnostics _ := .note diagnostics
  setActive _ _ reachable := .host _ reachable
  captured context _ := .context context
  decided _ _ _ reachable := .note _ (.steps _ (.breakpoints _ reachable))
  exited _ _ reachable := .steps _ reachable
  install expression reason depth _ := .install expression reason depth
  leave pause r _ := .leave pause r

variable [DecidableEq ℓ]

theorem use (u : Use ℓ) {s : Session ε ℓ} (reachable : Reachable s) : Reachable (u.make s).2 := by
  cases u with
  | demand d =>
      cases d with
      | command mode => exact .resume mode reachable
      | interrupt => exact .interrupt reachable
  | store operation => exact .note _ (.breakpoints _ reachable)
  | stepping operation =>
      exact .note (operation.perform s.steps).2.1 (.steps (operation.perform s.steps).2.2 reachable)
  | reset => exact .steps _ reachable
  | register listener => exact .host _ reachable
  | unregister listener => exact .host _ reachable

theorem lasting : Lasting (Reachable (ε := Chronicle ε ℓ) (ℓ := ℓ)) where
  toInvariant := invariant
  updated _ _ reachable := .host _ reachable
  used u _ reachable := reachable.use u
  ready _ _ reachable := .breakpoints _ reachable

theorem play (c : Conduct ε ℓ) {s : Chronicled ε ℓ} (reachable : Reachable s) :
    Reachable (c.play s).2 :=
  lasting.play c reachable

theorem reacts (told : ℓ → Event → Conduct ε ℓ) (listener : ℓ) (event : Event)
    (s : Chronicled ε ℓ) (reachable : Reachable s) :
    Reachable (Conduct.reactions told listener event s).2 :=
  lasting.reacts told listener event s reachable

/-- Wherever a run stops, at a pause or in the end, the session is reachable. -/
theorem run (told : ℓ → Event → Conduct ε ℓ) (tree : CallTree) {s : Chronicled ε ℓ}
    (reachable : Reachable s) : (tree.run (hook (Conduct.reactions told)) s).All Reachable :=
  invariant.run (.any _) (fun listener event s _ => reacts told listener event s) tree reachable

end Session.Reachable

/-- What others do with a session while its interpreter stands still or calls out. -/
inductive Occasion (ε ℓ : Type) where
  /-- The listeners are told of an event. -/
  | delivery (event : Event)
  | act (c : Conduct ε ℓ)

def Occasion.take [DecidableEq ℓ] (told : ℓ → Event → Conduct ε ℓ) (s : Chronicled ε ℓ) :
    Occasion ε ℓ → Chronicled ε ℓ
  | .delivery event => Session.after (Conduct.reactions told) event s
  | .act c => (c.play s).2

namespace Occasion
variable [DecidableEq ℓ] (told : ℓ → Event → Conduct ε ℓ)

theorem course (occasions : List (Occasion ε ℓ)) {s : Chronicled ε ℓ} (sound : s.standing.Sound) :
    ∃ notes, Course s notes (occasions.foldl (take told) s) := by
  induction occasions generalizing s with
  | nil => exact ⟨[], .refl s⟩
  | cons occasion rest ih =>
      obtain ⟨notes, first⟩ : ∃ notes, Course s notes (take told s occasion) := by
        cases occasion with
        | delivery event =>
            obtain ⟨notes, delivered⟩ := Delivered.after (Conduct.discreet told) event sound
            exact ⟨notes, delivered.course⟩
        | act c =>
            obtain ⟨notes, -, course⟩ := c.play_course sound
            exact ⟨notes, course⟩
      obtain ⟨more, others⟩ := ih (first.sound sound)
      exact ⟨notes ++ more, first.trans others⟩

theorem reachable (occasions : List (Occasion ε ℓ)) {s : Chronicled ε ℓ}
    (reachable : s.Reachable) : Session.Reachable (occasions.foldl (take told) s) := by
  induction occasions generalizing s with
  | nil => exact reachable
  | cons occasion rest ih =>
      refine ih ?_
      cases occasion with
      | delivery event =>
          exact Session.Reachable.invariant.after
            (Session.Reachable.reacts told · event ·) reachable
      | act c => exact .play c reachable

end Occasion

/-- A command on a reachable session fails and changes nothing without a pause, and takes the
pause away if there is one. Of the demands made on any occasions, by listeners and others,
from inside callbacks or not, exactly the first that finds the pause is granted; all others
leave everything as they find it. -/
theorem Session.first_demand_is_granted [DecidableEq ℓ] {s : Chronicled ε ℓ}
    (reachable : s.Reachable) :
    (∀ mode, match s.current with
      | none => resume mode s = (.error .notPaused, Engine.note [.releaseIgnored .resumed] s)
      | some pause => ∃ s' : Chronicled ε ℓ, resume mode s = (.ok (), s') ∧
          s'.steps = { s.steps with
            mode
            recordedDepth :=
              if mode = .continue then s.steps.recordedDepth else pause.snapshot.depth } ∧
          s'.current = none ∧ s'.slots = s.slots.set pause.slot ⟨some .resumed⟩ ∧
          s'.breakpoints = s.breakpoints ∧ s'.host = s.host) ∧
    ∀ (told : ℓ → Event → Conduct ε ℓ) (occasions : List (Occasion ε ℓ)),
      ∃ (s' : Chronicled ε ℓ) (notes : List (Note ℓ)),
        occasions.foldl (Occasion.take told) s = s' ∧ s'.Reachable ∧
        s'.notes = s.notes ++ notes ∧
        s'.current = (if notes.any Note.isAsked then none else s.current) ∧
        ∀ before demand granted found left behind,
          notes = before ++ .asked demand granted found left :: behind →
            match s.current with
            | none => granted = false ∧ left = found
            | some pause =>
                if before.any Note.isAsked then granted = false ∧ left = found
                else granted = true ∧ left = found.grant demand pause := by
  refine ⟨fun mode => ?_, fun told occasions => ?_⟩
  · cases current : s.current with
    | none => exact resume_free current mode
    | some pause =>
        refine ⟨_, resume_outstanding (reachable.sound.outstanding current) mode, ?_, rfl, rfl,
          rfl, rfl⟩
        cases mode <;> rfl
  · obtain ⟨notes, course⟩ := Occasion.course told occasions reachable.sound
    refine ⟨_, notes, rfl, Occasion.reachable told occasions reachable, course.noted,
      course.traces.current, ?_⟩
    rintro before demand granted found left behind rfl
    exact course.traces.answered

/-- Listener 0 steps over and then interrupts, listener 1 steps into and breaks off, and
somebody else continues: the first of the four demands wins. -/
theorem Session.first_demand_of_four_is_granted :
    let told : Nat → Event → Conduct Unit Nat
      | 0, _ => .use (.demand (.command .over)) (.use (.demand .interrupt) (.done none))
      | _, _ => .use (.demand (.command .into)) (.done (some .payload))
    let main := (Call.mk (some "main") none none [] [] []).expression
    let s : Chronicled Unit Nat :=
      Engine.install main .step 3 (setListeners [0, 1] (Session.new {} ⟨(), []⟩))
    let occasions : List (Occasion Unit Nat) :=
      [.delivery (.paused main .step (s.view main 3)),
        .act (.use (.demand (.command .continue)) (.done none))]
    s.Reachable ∧
      (∃ s', resume .out s = (.ok (), s') ∧
        s'.steps = { mode := .out, recordedDepth := 3, lastFinished := none }) ∧
      ∃ s', occasions.foldl (Occasion.take told) s = s' ∧ s'.current = none ∧
        s'.steps = { mode := .over, recordedDepth := 3, lastFinished := none } ∧
        (s'.notes.filterMap fun
          | .asked _ granted _ _ => some granted
          | _ => none) = [true, false, false, false] := by
  intro told main s occasions
  have reachable : s.Reachable := .install main .step 3 (.host _ (.new {} _))
  obtain ⟨commands, demands⟩ := first_demand_is_granted reachable
  obtain ⟨resumed, succeeds, steps, -⟩ := commands .out
  obtain ⟨s', -, taken, -⟩ := demands told occasions
  refine ⟨reachable, ⟨resumed, succeeds, steps⟩, s', taken, ?_, ?_, ?_⟩
  · rw [← taken]
    decide +kernel
  · rw [← taken]
    decide +kernel
  · rw [← taken]
    decide +kernel

end Debugger
