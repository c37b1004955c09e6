import Debugger.Launch
import Debugger.Proofs.Breakpoint.Visits
import Debugger.Proofs.Session.Evaluation
import Debugger.Proofs.Transcript.Pages
import Debugger.Proofs.Transcript.Sinks

/-! Main statement: driving a program with a script writes the pages of the stops
that a fold over its calls comes to. The loop that answers the pauses finds each of
them outstanding, and takes the pieces of the script in step with the fold. -/
namespace Debugger

theorem Progress.uncounted_visit (p : Progress) (v : Visit) :
    (p.visit v).watch.breakpoints.uncounted = p.watch.breakpoints.uncounted := by
  rw [Progress.visit]
  split
  · exact Store.uncounted_shouldBreak v.call.site p.watch.breakpoints
  · exact Store.uncounted_shouldBreak v.call.site p.watch.breakpoints

/-- Passing calls and giving commands leaves the breakpoints as they are but for the
hits. -/
theorem Progress.uncounted_foldl (visits : List Visit) (p : Progress) :
    (visits.foldl Progress.visit p).watch.breakpoints.uncounted =
      p.watch.breakpoints.uncounted := by
  induction visits generalizing p with
  | nil => rfl
  | cons v rest ih => exact (ih (p.visit v)).trans (p.uncounted_visit v)

namespace Session
variable {ε ℓ : Type} {react : Reaction (StateM (Session ε ℓ)) ℓ} {s : Session ε ℓ}

/-- With nobody to answer it, a pause parks the thread. -/
theorem pause_unheard (v : Visit) (reason : StopReason) (unheard : s.listeners = []) :
    Engine.pause (asHost react) v.call.expression reason v.level s =
      .parked (s.newPause v.call.expression reason v.level)
        (s.install v.call.expression reason v.level)
        (Engine.goOn (asHost react) (s.newPause v.call.expression reason v.level)) := by
  have told := after_unheard react (.paused v.call.expression reason
    (s.view v.call.expression v.level))
    (show listeners (s.install v.call.expression reason v.level) = [] from unheard)
  have outstanding := Engine.outstanding_install v.call.expression reason v.level s
  rw [pause_eq, told, Engine.await_of_none (congrArg Slot.signal outstanding.slot)]

theorem goOn_unheard (pause : Pause) (unheard : s.listeners = []) :
    Engine.goOn (asHost react) pause .resumed s =
      .finished (.ok ()) (Engine.leave pause .resumed s) := by
  have still : listeners (Engine.leave pause .resumed s) = [] := unheard
  exact congrArg (Run.finished _) (after_unheard react .resumed still)

/-- The session behind a pause that a command has ended. -/
def resumedAt (mode : StepMode) (v : Visit) (reason : StopReason) (s : Session ε ℓ) :
    Session ε ℓ :=
  let pause := s.newPause v.call.expression reason v.level
  Engine.leave pause .resumed (Engine.note [.resumedWith mode] (Engine.detach pause .resumed
    (Engine.rewatch (s.watch.command mode v.level)
      (s.install v.call.expression reason v.level))))

def abandonedAt (v : Visit) (reason : StopReason) (s : Session ε ℓ) : Session ε ℓ :=
  let pause := s.newPause v.call.expression reason v.level
  Engine.leave pause .interrupted (Engine.note [.pauseInterrupted]
    (Engine.detach pause .interrupted
      (Transcript.giveUp (s.install v.call.expression reason v.level))))

/-- Nobody listens, no pause is outstanding, and the watch and the application that
finished last are these. -/
structure Unattended (previewLength : Nat) (s : Session ε ℓ) (w : Watch)
    (last : Option Expression) : Prop where
  unheard : s.listeners = []
  free : s.current = none
  watch : s.watch = w
  last : s.steps.lastFinished = last
  previews : s.previewLength = previewLength

structure GivenUp (s : Session ε ℓ) : Prop where
  unheard : s.listeners = []
  free : s.current = none
  empty : s.breakpoints.entries = []
  idle : s.steps = {}

end Session

namespace Transcript
open Session
variable {ε ℓ : Type} {s : Session ε ℓ} {n : Nat} {w : Watch} {last : Option Expression}

/-- The program is stopped from an outstanding pause by interrupting it. -/
theorem stop_outstanding {pause : Pause} (outstanding : s.Outstanding pause)
    (resume : Release → Session ε ℓ → Run (Session ε ℓ) (Except DebugError Nat)) :
    stop (.parked pause s resume) = stop (resume .interrupted
      (Engine.note [.pauseInterrupted] (Engine.detach pause .interrupted s))) := by
  have signal : (Engine.slot (Engine.note [.pauseInterrupted]
      (Engine.detach pause .interrupted s)) pause.slot).signal = some .interrupted :=
    outstanding.signal_detach .interrupted
  simp only [stop, attended, interrupt_outstanding outstanding, signal]

/-- A command finds an outstanding pause and leaves its release there, so that the program
goes on with it; where the pause cannot be written it is given up. -/
theorem drive_outstanding {pause : Pause} (outstanding : s.Outstanding pause)
    (resume : Release → Session ε ℓ → Run (Session ε ℓ) (Except DebugError Nat))
    (script : List Command) (sink : Sink) :
    let written := sink.write (pauseText pause (reply script)).flatten
    drive script sink (.parked pause s resume) =
      if written.1 then drive (reply script).rest written.2 (resume .resumed
        (Engine.note [.resumedWith (reply script).mode] (Engine.detach pause .resumed
          (Engine.rewatch (s.watch.command (reply script).mode pause.snapshot.depth) s))))
      else ⟨.error .sinkClosed, stop (resume .interrupted (Engine.note [.pauseInterrupted]
        (Engine.detach pause .interrupted (giveUp s)))), written.2⟩ := by
  have givenUp : (giveUp s).Outstanding pause := ⟨outstanding.current, outstanding.unreleased⟩
  have signal (w : Watch) (notes : List Diagnostic) : (Engine.slot (Engine.note notes
      (Engine.detach pause .resumed (Engine.rewatch w s))) pause.slot).signal = some .resumed :=
    outstanding.signal_detach .resumed
  rw [drive]
  rcases sink.write (pauseText pause (reply script)).flatten with ⟨_ | _, sink⟩
  · exact congrArg (Outcome.mk _ · sink) (stop_outstanding givenUp resume)
  · simp only [resume_outstanding outstanding, signal, if_true]

/-- A pause is written as a page. If the sink takes it, the script's command finds the
pause outstanding and the program goes on in the command's mode. If not, the pause is
given up, and the program is stopped from there. -/
theorem drive_pause (react : Reaction (StateM (Session ε ℓ)) ℓ) (v : Visit)
    (reason : StopReason) (script : List Command)
    (next : Except DebugError Unit → Session ε ℓ → Run (Session ε ℓ) (Except DebugError Nat))
    (context : s.context = v.context) (unattended : Unattended n s w last) :
    ∃ s' cut,
      Unattended n s' (w.command ((Script.modes script).headD .continue) v.level) last ∧
      GivenUp cut ∧ ∀ sink : Sink,
        let written := sink.write (Page.text
          ⟨reason, Stop.snapshot n ⟨reason, v⟩, Script.used script⟩).flatten
        drive script sink
            ((Engine.pause (asHost react) v.call.expression reason v.level s).bind next) =
          if written.1 then drive (Script.unused script) written.2 (next (.ok ()) s')
          else ⟨.error .sinkClosed, stop (next (.error .interrupted) cut), written.2⟩ := by
  obtain ⟨unheard, free, watch, finished, previews⟩ := unattended
  have outstanding := Engine.outstanding_install v.call.expression reason v.level s
  have view : s.view v.call.expression v.level = Stop.snapshot n ⟨reason, v⟩ := by
    rw [Engine.view, context, previews]
    rfl
  refine ⟨resumedAt (reply script).mode v reason s, abandonedAt v reason s,
    ⟨unheard, rfl, ?_, finished, previews⟩, ⟨unheard, rfl, rfl, rfl⟩, fun sink => ?_⟩
  · rw [← watch, ← reply_mode]
    rfl
  · rw [pause_unheard v reason unheard, Run.bind_parked, drive_outstanding outstanding,
      pauseText_eq, Engine.newPause, view, reply_rest, goOn_unheard _ (by exact unheard)]
    rfl

/-- Taking turns writes the pages of the stops that a fold over their visits comes to,
as far as the sink takes them. The induction is on the turns; the fold's commands are
the modes of the script that is left. -/
theorem drive_turns (react : Reaction (StateM (Session ε ℓ)) ℓ) (turns : List Turn)
    (p : Progress) (script : List Command)
    (next : Except DebugError Unit → Session ε ℓ → Run (Session ε ℓ) (Except DebugError Nat))
    (commands : p.commands = Script.modes script)
    (unattended : Unattended n s p.watch last) :
    ∃ stops rest s', ((Turn.visits turns).foldl Progress.visit p).stops = p.stops ++ stops ∧
      Unattended n s' ((Turn.visits turns).foldl Progress.visit p).watch
        (Turn.lastExited last turns) ∧
      ∀ sink : Sink, ∃ cut, GivenUp cut ∧
        let written := sink.write ((pages n script stops).flatMap Page.text).flatten
        drive script sink ((Turn.takeAll (hook react) turns s).bind next) =
          if written.1 then drive rest written.2 (next (.ok ()) s')
          else ⟨.error .sinkClosed, stop (next (.error .interrupted) cut), written.2⟩ := by
  induction turns generalizing p script s last with
  | nil =>
      refine ⟨[], script, s, by simp [Turn.visits], unattended, fun sink => ?_⟩
      -- Nothing is written, so that nothing is refused: any session that is given up will do.
      refine ⟨giveUp s, ⟨unattended.unheard, unattended.free, rfl, rfl⟩, ?_⟩
      simp only [pages, List.flatMap_nil, List.flatten_nil, Sink.write_nil, if_true]
      rfl
  | cons turn rest ih =>
      rw [takeAll_cons]
      cases turn with
      | exit call =>
          rw [take_exit, Run.bind_finished]
          exact ih p script commands
            ⟨unattended.unheard, unattended.free, unattended.watch, rfl, unattended.previews⟩
      | enter v =>
          obtain ⟨noted, entered⟩ := take_enter react v s
          rw [entered, unattended.watch, Turn.visits, List.foldl_cons, Turn.lastExited]
          have passing : Unattended n (passed v noted s) (p.watch.pass v) last :=
            ⟨unattended.unheard, unattended.free,
              congrArg (Watch.pass · v) unattended.watch, unattended.last, unattended.previews⟩
          cases reason : p.watch.reason v with
          | none =>
              rw [Progress.visit_of_none reason]
              exact ih { p with watch := p.watch.pass v } script commands passing
          | some why =>
              rw [Progress.visit_of_some reason, Run.bind_assoc]
              obtain ⟨s₁, abandoned, unattended₁, givenUp, answered⟩ :=
                drive_pause react v why script
                  (fun result s => (onward (hook react) rest result s).bind next) rfl passing
              rw [← commands] at unattended₁
              obtain ⟨stops, left, s', stopped, unattended', driven⟩ :=
                ih (p.stop why v) (Script.unused script)
                  (by rw [modes_unused, ← commands]; rfl) unattended₁
              refine ⟨⟨why, v⟩ :: stops, left, s', ?_, unattended', fun sink => ?_⟩
              · rw [stopped, Progress.stop, List.append_assoc, List.singleton_append]
              · obtain ⟨cut, givenUp', drivenOn⟩ := driven (sink.write (Page.text
                  ⟨why, Stop.snapshot n ⟨why, v⟩, Script.used script⟩).flatten).2
                simp only [pages, List.flatMap_cons, List.flatten_append, Sink.write_append]
                rw [answered sink]
                cases taken : (sink.write (Page.text
                    ⟨why, Stop.snapshot n ⟨why, v⟩, Script.used script⟩).flatten).1 with
                | true => exact ⟨cut, givenUp', drivenOn⟩
                | false => exact ⟨abandoned, givenUp, by simp [taken, onward]⟩

theorem drive_takeAll (react : Reaction (StateM (Session ε ℓ)) ℓ) (turns : List Turn)
    (p : Progress) (script : List Command) (written : List Char)
    (next : Except DebugError Unit → Session ε ℓ → Run (Session ε ℓ) (Except DebugError Nat))
    (commands : p.commands = Script.modes script)
    (unattended : Unattended n s p.watch last) :
    ∃ stops rest s', ((Turn.visits turns).foldl Progress.visit p).stops = p.stops ++ stops ∧
      drive script { written } ((Turn.takeAll (hook react) turns s).bind next) =
        drive rest
          { written := written ++ ((pages n script stops).flatMap Page.text).flatten }
          (next (.ok ()) s') ∧
      Unattended n s' ((Turn.visits turns).foldl Progress.visit p).watch
        (Turn.lastExited last turns) := by
  obtain ⟨stops, rest, s', stopped, unattended', driven⟩ :=
    drive_turns react turns p script next commands unattended
  obtain ⟨cut, -, driven⟩ := driven { written }
  exact ⟨stops, rest, s', stopped, driven, unattended'⟩

/-- What is written of a program that nobody else attends to are the pages of the fold's
stops and the last line, as far as the sink takes them. -/
theorem debug_unattended (react : Reaction (StateM (Session ε ℓ)) ℓ) (tree : CallTree)
    (script : List Command) (sink : Sink) (unattended : Unattended n s w last) :
    let fold := tree.progress w (Script.modes script)
    let written := sink.write
      (((pages n script fold.stops).flatMap Page.text).flatten ++ finishedText tree.main.size)
    ∃ s' : Session ε ℓ, debug react tree script sink s =
      ⟨if written.1 then .ok () else .error .sinkClosed, s', written.2⟩ := by
  intro fold written
  have start : Unattended n (started react tree.main.expression s) w last := by
    rw [started, after_unheard react _ (by exact unattended.unheard)]
    exact ⟨unattended.unheard, unattended.free, unattended.watch, unattended.last,
      unattended.previews⟩
  obtain ⟨stops, rest, s', stopped, -, driven⟩ :=
    drive_turns react tree.turns { watch := w, commands := Script.modes script } script
      (fun result s => .finished (result.map fun () => tree.main.size)
        (ended react tree.main.expression s)) rfl start
  have stops_eq : fold.stops = stops := stopped
  obtain ⟨cut, -, equation⟩ := driven sink
  simp only [written, debug, run_eq, stops_eq, equation, Sink.write_append]
  rcases sink.write ((pages n script stops).flatMap Page.text).flatten with ⟨taken, sink⟩
  cases taken with
  | false => exact ⟨ended react tree.main.expression cut, rfl⟩
  | true =>
      refine ⟨ended react tree.main.expression s', ?_⟩
      simp only [if_true, Except.map, drive]
      rcases sink.write (finishedText tree.main.size) with ⟨_ | _, sink⟩ <;> rfl

/-- A program under a fresh session is debugged to its end, and what is written are the
pages of the fold's stops and the last line. -/
theorem debug_eq_book (tree : CallTree) (config : Config) (breakpoints : Store)
    (mode : StepMode) (script : List Command) :
    let fresh : Launch.Quiet := Session.new config ()
    let fold := tree.progress ⟨breakpoints, mode, fresh.steps.recordedDepth⟩ (Script.modes script)
    ∃ s : Launch.Quiet, debug Launch.Quiet.react tree script {}
        { fresh with breakpoints, steps := fresh.steps.setMode mode } =
      ⟨.ok (), s, { written :=
        ((pages config.previewLength script fold.stops).flatMap Page.text).flatten ++
          finishedText tree.main.size }⟩ := by
  intro fresh fold
  have unattended : Unattended config.previewLength
      { fresh with breakpoints, steps := fresh.steps.setMode mode }
      ⟨breakpoints, mode, fresh.steps.recordedDepth⟩ none := ⟨rfl, rfl, rfl, rfl, rfl⟩
  exact debug_unattended Launch.Quiet.react tree script {} unattended

/-- Debugging a program with a script under a fresh session succeeds. What is written
is a page for each stop of the fold whose commands are the script's, and a last line
with the number of calls; the commands on the pages are the script's, with a
`continue` where it is used up. The session is left without a pause, and its
breakpoints differ in their hits only. -/
theorem debug_eq_pages (tree : CallTree) (config : Config) (breakpoints : Store)
    (mode : StepMode) (script : List Command) :
    let fresh : Launch.Quiet := Session.new config ()
    let outcome := debug Launch.Quiet.react tree script {}
      { fresh with breakpoints, steps := fresh.steps.setMode mode }
    let book := pages config.previewLength script
      (tree.progress ⟨breakpoints, mode, fresh.steps.recordedDepth⟩ (Script.modes script)).stops
    outcome.result = .ok () ∧
      outcome.sink.written = (book.flatMap Page.text).flatten ++
        ("== finished (" ++ toString tree.main.size ++ " calls)").toList ++ ['\n'] ∧
      (∃ extra, book.flatMap Page.commands <+:
        script ++ List.replicate extra (.resume .continue)) ∧
      outcome.session.isPaused = false ∧
      outcome.session.isActive = false ∧
      outcome.session.steps.lastFinished = some tree.main.expression ∧
      outcome.session.breakpoints.uncounted = breakpoints.uncounted := by
  intro fresh outcome book
  have start : Unattended config.previewLength
      (started Launch.Quiet.react tree.main.expression
        { fresh with breakpoints, steps := fresh.steps.setMode mode })
      ⟨breakpoints, mode, fresh.steps.recordedDepth⟩ none := by
    rw [started, after_unheard Launch.Quiet.react _ rfl]
    exact ⟨rfl, rfl, rfl, rfl, rfl⟩
  obtain ⟨stops, rest, s, stopped, driven, unattended⟩ :=
    drive_takeAll Launch.Quiet.react tree.turns
      { watch := ⟨breakpoints, mode, fresh.steps.recordedDepth⟩, commands := Script.modes script }
      script []
      (fun result s => .finished (result.map fun () => tree.main.size)
        (ended Launch.Quiet.react tree.main.expression s)) rfl start
  have booked : book = pages config.previewLength script stops :=
    congrArg (pages config.previewLength script) stopped
  have closed : ended Launch.Quiet.react tree.main.expression s =
      Engine.note [.executionEnded tree.main.expression] (s.setActive false) :=
    after_unheard Launch.Quiet.react _ unattended.unheard
  have reached : outcome =
      ⟨.ok (), Engine.note [.executionEnded tree.main.expression] (s.setActive false),
        { written := (book.flatMap Page.text).flatten ++ finishedText tree.main.size }⟩ := by
    change drive script {} (tree.run (hook Launch.Quiet.react) _) = _
    rw [run_eq, booked, ← closed]
    exact driven
  have last : s.steps.lastFinished = some tree.main.expression :=
    unattended.last.trans (Turn.lastExited_turns tree.main none {} none)
  have kept : s.breakpoints.uncounted = breakpoints.uncounted := by
    rw [show s.breakpoints = _ from congrArg Watch.breakpoints unattended.watch]
    exact Progress.uncounted_foldl _ _
  rw [reached]
  refine ⟨rfl, (List.append_assoc _ _ _).symm, commands_pages _ _ _, ?_, rfl, last, kept⟩
  exact congrArg Option.isSome unattended.free

/-- A breakpoint, a step, and the `continue` of a script that is used up. -/
example :
    let inner := Call.mk none (some "g") none [] [] []
    let tree : CallTree := ⟨.mk (some "f") none (some ⟨"a", 4, none, none⟩) [("x", .integer 1)] []
      [inner]⟩
    let script : List Command := [.inspect (.print "x"), .resume .into, .inspect .vars]
    let fresh : Launch.Quiet := Session.new {} ()
    let outcome := debug Launch.Quiet.react tree script {}
      { fresh with breakpoints := (fresh.breakpoints.add (.line "a" 4)).2 }
    String.ofList outcome.sink.written =
      "== Breakpoint hit: f at a:4\n  #0 f at a:4\n  x: Integer = 1\n" ++
        "> print x\n  x: Integer = 1\n> into\n" ++
        "== Step: g (unknown location)\n  #0 g (unknown location)\n  #1 f at a:4\n" ++
        "  x: Integer = 1\n> vars\n  x: Integer = 1\n> continue\n== finished (2 calls)\n" := by
  decide +kernel

end Transcript
end Debugger
