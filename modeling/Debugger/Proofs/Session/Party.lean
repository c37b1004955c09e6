import Debugger.Proofs.CallTree.Orders
import Debugger.Proofs.Session.Player
import Debugger.Proofs.Session.Rounds

/-! Programs under sessions with any listeners and a controller. A pause is told in a round
and ends with the first demand; the program then goes on, or unwinds. -/
namespace Debugger
variable {ε ℓ α : Type}

/-- All that take part in a session. -/
structure Party (ε ℓ : Type) where
  listeners : List ℓ
  told : ℓ → Event → Conduct ε ℓ
  /-- What somebody does from outside, each time the program is parked. -/
  controller : Option (Conduct ε ℓ) := none
  own : ε

/-- The run is parked at a pause that nobody has released. -/
def Run.Waits : Run (Session ε ℓ) α → Prop
  | .finished _ _ => False
  | .parked pause s _ => s.Outstanding pause

instance : DecidablePred (Run.Waits (ε := ε) (ℓ := ℓ) (α := α))
  | .finished _ _ => .isFalse id
  | .parked pause s _ =>
      decidable_of_iff (s.current = some pause ∧ s.slots[pause.slot]? = some {})
        ⟨fun held => ⟨held.1, held.2⟩, fun outstanding => ⟨outstanding.1, outstanding.2⟩⟩

def Stop.event (previewLength : Nat) (s : Stop) : Event :=
  .paused s.visit.call.expression s.reason (s.snapshot previewLength)

def Stop.grant (demand : Demand) (previewLength : Nat) (s : Stop) : Grant :=
  ⟨demand, s.reason, s.snapshot previewLength⟩

/-- A run that stays parked stays so with anything behind it. -/
theorem Session.attended_bind_parked {β : Type}
    {controller : Option (Session ε ℓ → Session ε ℓ)}
    {run : Run (Session ε ℓ) α} {pause : Pause} {s : Session ε ℓ}
    {rest : Release → Session ε ℓ → Run (Session ε ℓ) α}
    (next : α → Session ε ℓ → Run (Session ε ℓ) β)
    (parked : attended controller run = .parked pause s rest) :
    ∃ rest, attended controller (run.bind next) = .parked pause s rest := by
  induction run with
  | finished result found => simp [attended] at parked
  | parked first found resume ih =>
      cases controller with
      | none =>
          simp only [attended, Run.parked.injEq] at parked
          obtain ⟨rfl, rfl, -⟩ := parked
          exact ⟨_, rfl⟩
      | some answer =>
          simp only [attended, Run.bind_parked] at parked ⊢
          cases signal : (Engine.slot (answer found) first.slot).signal with
          | none =>
              simp only [signal, Run.parked.injEq] at parked
              obtain ⟨rfl, rfl, -⟩ := parked
              exact ⟨_, rfl⟩
          | some r =>
              simp only [signal] at parked ⊢
              exact ih r (answer found) parked

theorem Engine.Outstanding.sound {s : Session ε ℓ} {pause : Pause}
    (outstanding : s.Outstanding pause) : s.standing.Sound := by
  intro other current
  obtain rfl := Option.some.inj (outstanding.current.symm.trans current)
  exact outstanding.unreleased

namespace Stop

def install (stop : Stop) (s : Session ε ℓ) : Session ε ℓ :=
  Engine.install stop.visit.call.expression stop.reason stop.visit.level s

def pause (stop : Stop) (s : Session ε ℓ) : Pause :=
  s.newPause stop.visit.call.expression stop.reason stop.visit.level

theorem outstanding_install (stop : Stop) (s : Session ε ℓ) :
    Engine.Outstanding (stop.pause s) (stop.install s) :=
  Engine.outstanding_install stop.visit.call.expression stop.reason stop.visit.level s

end Stop

variable [DecidableEq ℓ]

namespace Party

def react (p : Party ε ℓ) : Reaction (StateM (Chronicled ε ℓ)) ℓ :=
  Conduct.reactions p.told

def hook (p : Party ε ℓ) : Hook (Thread (Chronicled ε ℓ)) :=
  Session.hook p.react

def attend (p : Party ε ℓ) (run : Run (Chronicled ε ℓ) α) : Run (Chronicled ε ℓ) α :=
  Session.attended (p.controller.map fun act s => (act.play s).2) run

/-- A fresh session that the party's listeners are registered at. -/
def session (p : Party ε ℓ) (config : Config) (breakpoints : Store) (steps : Steps) :
    Chronicled ε ℓ :=
  Session.setListeners p.listeners { Session.new config ⟨p.own, []⟩ with breakpoints, steps }

def run (p : Party ε ℓ) (tree : CallTree) (s : Chronicled ε ℓ) :
    Run (Chronicled ε ℓ) (Except DebugError Nat) :=
  p.attend (tree.run p.hook s)

/-- The run with the calls that the program makes to its hook. -/
def recordedRun (p : Party ε ℓ) (tree : CallTree) (s : Chronicled ε ℓ) :
    Run (Chronicled ε ℓ) (Except DebugError Nat × List HookCall) :=
  p.attend ((tree.run p.hook.recorded).run [] s)

end Party

/-- An outstanding pause is still outstanding, or one demand was granted that released it. -/
theorem Course.halt {s s' : Chronicled ε ℓ} {notes : List (Note ℓ)} {pause : Pause}
    (course : Course s notes s') (outstanding : s.Outstanding pause) :
    (s'.Outstanding pause ∧ grants notes = []) ∨
      ∃ demand : Demand, s'.current = none ∧
        (Engine.slot s' pause.slot).signal = some demand.release ∧
        grants notes = [⟨demand, pause.reason, pause.snapshot⟩] := by
  obtain ⟨current, slots, none⟩ | ⟨demand, gone, slots, granted⟩ :=
    course.traces.outstanding outstanding.current
  · have unreleased : s'.slots[pause.slot]? = some {} :=
      (congrArg (·[pause.slot]?) slots).trans outstanding.unreleased
    exact .inl ⟨⟨current, unreleased⟩, none⟩
  · have signal := outstanding.signal_detach demand.release
    have slot : Engine.slot s' pause.slot =
        Engine.slot (Engine.detach pause demand.release s) pause.slot :=
      congrArg (List.getD · pause.slot ({} : Slot)) slots
    exact .inr ⟨demand, gone, by rw [slot, signal], granted⟩

namespace Party
open Session
variable {p : Party ε ℓ} {s s₁ s' : Chronicled ε ℓ} {notes : List (Note ℓ)}

def pauseAt (p : Party ε ℓ) (stop : Stop) (s : Chronicled ε ℓ) :
    Run (Chronicled ε ℓ) (Except DebugError Unit) :=
  Engine.pause (asHost p.react) stop.visit.call.expression stop.reason stop.visit.level s

theorem attend_bind {β : Type} {run : Run (Chronicled ε ℓ) α} {result : α}
    (next : α → Chronicled ε ℓ → Run (Chronicled ε ℓ) β)
    (ends : p.attend run = .finished result s) :
    p.attend (run.bind next) = p.attend (next result s) :=
  attended_bind next ends

theorem attend_bind_parked {β : Type} {run : Run (Chronicled ε ℓ) α} {pause : Pause} {resume}
    (next : α → Chronicled ε ℓ → Run (Chronicled ε ℓ) β)
    (parked : p.attend run = .parked pause s resume) :
    ∃ rest, p.attend (run.bind next) = .parked pause s rest :=
  attended_bind_parked next parked

/-- Nobody has released the pause, although the controller, if there is one, has acted on
it. -/
structure Unanswered (p : Party ε ℓ) (pause : Pause) (s : Chronicled ε ℓ) : Prop where
  outstanding : Engine.Outstanding pause s
  acted : ∀ act, p.controller = some act → ∃ s₁ : Chronicled ε ℓ,
    Engine.Outstanding pause s₁ ∧ s = (act.play s₁).2

/-- What happens at a pause before the thread goes on: the listeners are told of it, and
where they leave it outstanding the controller acts. -/
structure Halt (p : Party ε ℓ) (stop : Stop) (s : Chronicled ε ℓ) (notes : List (Note ℓ))
    (s' : Chronicled ε ℓ) : Prop where
  course : Course (stop.install s) notes s'
  passage : Passage s [stop.event s.previewLength] notes s'
  ends : (Unanswered p (stop.pause s) s' ∧
      ∃ resume, p.attend (p.pauseAt stop s) = .parked (stop.pause s) s' resume) ∨
    ∃ demand : Demand, s'.current = none ∧
      grants notes = [stop.grant demand s.previewLength] ∧
      p.attend (p.pauseAt stop s) =
        p.attend (Engine.goOn (asHost p.react) (stop.pause s) demand.release s')

/-- The thread waits at a pause: the controller acts, and the first demand that it makes
lets the thread go on. -/
theorem attend_await (p : Party ε ℓ) {pause : Pause} (waits : s.Outstanding pause) :
    ∃ notes s', heard notes = [] ∧ Course s notes s' ∧
      ((Unanswered p pause s' ∧
          ∃ resume, p.attend (Engine.await (asHost p.react) pause s) = .parked pause s' resume) ∨
        ∃ demand : Demand, s'.current = none ∧
          grants notes = [⟨demand, pause.reason, pause.snapshot⟩] ∧
          p.attend (Engine.await (asHost p.react) pause s) =
            p.attend (Engine.goOn (asHost p.react) pause demand.release s')) := by
  rw [Engine.await_of_none (congrArg Slot.signal waits.slot)]
  cases controller : p.controller with
  | none =>
      refine ⟨[], s, rfl, .refl s, .inl ⟨⟨waits, fun act acts => ?_⟩,
        Engine.goOn (asHost p.react) pause, ?_⟩⟩
      · rw [controller] at acts
        contradiction
      · rw [attend, controller]
        rfl
  | some act =>
      obtain ⟨notes, quiet, acted⟩ := act.play_course waits.sound
      refine ⟨notes, (act.play s).2, quiet, acted, ?_⟩
      obtain ⟨still, -⟩ | ⟨demand, gone, signal, granted⟩ := acted.halt waits
      · refine .inl ⟨⟨still, fun other acts => ⟨s, waits, ?_⟩⟩,
          Engine.goOn (asHost p.react) pause, ?_⟩
        · rw [Option.some.inj (controller.symm.trans acts)]
        · have unsignalled := congrArg Slot.signal still.slot
          simp only [attend, controller, Option.map_some, attended, unsignalled]
      · refine .inr ⟨demand, gone, granted, ?_⟩
        simp only [attend, controller, Option.map_some, attended, signal]

theorem halts (p : Party ε ℓ) (stop : Stop) {s : Chronicled ε ℓ} (active : s.isActive)
    (context : s.context = stop.visit.context) : ∃ notes s', Halt p stop s notes s' := by
  have outstanding := stop.outstanding_install s
  -- The context was captured at this entry, so the snapshot is that of the visit.
  have snapshot : (stop.pause s).snapshot = stop.snapshot s.previewLength := by
    simp only [Stop.pause, Engine.newPause, Engine.view, Stop.snapshot, context]
  have grant (demand : Demand) :
      (⟨demand, (stop.pause s).reason, (stop.pause s).snapshot⟩ : Grant) =
        stop.grant demand s.previewLength := by
    rw [snapshot]
    rfl
  have discreet : Discreet p.react := Conduct.discreet p.told
  obtain ⟨notes, delivered⟩ :=
    Delivered.after discreet (stop.event s.previewLength) outstanding.sound
  generalize told : after p.react (stop.event s.previewLength) (stop.install s) = s₁ at delivered
  have install : Passage s [] [] (stop.install s) := .silent rfl rfl rfl rfl
  have passage : Passage s [stop.event s.previewLength] notes s₁ :=
    install.trans (.of_delivered rfl active delivered)
  have paused : p.pauseAt stop s = Engine.await (asHost p.react) (stop.pause s) s₁ := by
    rw [pauseAt, pause_eq, ← told, Stop.event, ← snapshot]
    rfl
  obtain ⟨waits, none⟩ | ⟨demand, gone, signal, granted⟩ := delivered.course.halt outstanding
  · obtain ⟨more, s', quiet, acted, ends⟩ := p.attend_await waits
    refine ⟨notes ++ more, s', delivered.course.trans acted,
      passage.trans (.of_course acted quiet), ?_⟩
    rw [grants_append, none, List.nil_append, paused]
    simpa only [grant] using ends
  · refine ⟨notes, s₁, delivered.course, passage, .inr ⟨demand, gone, ?_, ?_⟩⟩
    · rw [granted, grant]
    · rw [paused, Engine.await_of_signal signal]

end Party

end Debugger
