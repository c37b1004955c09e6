import Debugger.Proofs.Session.Projections
import Debugger.Launch

/-! Transcripts of programs whose calls are put on record. Main statement: the record changes
neither what is written nor how the transcript ends, and it begins with the start of the program
and the entry of its outermost call. -/
namespace Debugger
variable {ε ε' ℓ : Type}

namespace Session

/-- What listeners keep to themselves does not bear on a command. -/
theorem resume_mapOwn (see : ε → ε') (mode : StepMode) (s : Session ε ℓ) :
    resume mode (s.mapOwn see) = ((resume mode s).1, (resume mode s).2.mapOwn see) := by
  cases current : s.current with
  | none =>
      rw [resume_free current, resume_free (s := s.mapOwn see) current]
      rfl
  | some pause =>
      simp only [resume, Engine.releaseWith, mapOwn, current, Engine.slot]
      rcases s.slots.getD pause.slot {} with ⟨_ | _⟩ <;> rfl

theorem interrupt_mapOwn (see : ε → ε') (s : Session ε ℓ) :
    interrupt (s.mapOwn see) = ((interrupt s).1, (interrupt s).2.mapOwn see) := by
  cases current : s.current with
  | none =>
      rw [interrupt_free current, interrupt_free (s := s.mapOwn see) current]
      rfl
  | some pause =>
      simp only [interrupt, Engine.release, Engine.releaseWith, mapOwn, current, Engine.slot]
      rcases s.slots.getD pause.slot {} with ⟨_ | _⟩ <;> rfl

/-- An act on which it does not bear what listeners keep to themselves leaves that alone. -/
theorem own_of_mapOwn {α : Type} {act : Session ε ℓ → α × Session ε ℓ}
    (blind : ∀ (see : ε → ε) s, act (s.mapOwn see) = ((act s).1, (act s).2.mapOwn see))
    (s : Session ε ℓ) : (act s).2.host.own = s.host.own := by
  have same : s.mapOwn (fun _ => s.host.own) = s := rfl
  have seen := congrArg (fun answer => answer.2.host.own) (blind (fun _ => s.host.own) s)
  rwa [same] at seen

theorem own_resume (mode : StepMode) (s : Session ε ℓ) :
    (resume mode s).2.host.own = s.host.own :=
  own_of_mapOwn (resume_mapOwn · mode) s

theorem own_interrupt (s : Session ε ℓ) : (interrupt s).2.host.own = s.host.own :=
  own_of_mapOwn interrupt_mapOwn s

/-- A hook that puts each call on record before it is made. -/
def recordingHook (react : Reaction (StateM (Session (List HookCall) ℓ)) ℓ) :
    Hook (Thread (Session (List HookCall) ℓ)) :=
  (hook react).preceded fun call => updateOwn (· ++ [call])

/-- A call is on record while it is made, and nothing else is added to the record. -/
theorem make_recordingHook {Q : List HookCall → Prop}
    (react : Reaction (StateM (Session (List HookCall) ℓ)) ℓ)
    (keeps : ∀ listener event s, (react listener event s).2.host.own = s.host.own)
    (call : HookCall) {s : Session (List HookCall) ℓ} (recorded : Q (s.host.own ++ [call])) :
    (call.make (recordingHook react) s).All fun t => Q t.host.own := by
  rw [recordingHook, HookCall.make_preceded]
  refine (Invariant.own Q).make (.any _) ?_ call recorded
  exact fun listener event t _ holds => (keeps listener event t).symm ▸ holds

end Session

namespace Transcript
open Session

/-- Sessions that differ in what listeners keep to themselves are stopped alike. -/
theorem stop_mapOwn (see : ε → ε') {run : Run (Session ε ℓ) (Except DebugError Nat)}
    {other : Run (Session ε' ℓ) (Except DebugError Nat)}
    (abreast : Run.Abreast (fun s t => s.mapOwn see = t) (fun _ => False) run other) :
    stop other = (stop run).mapOwn see := by
  have interrupts (s : Session ε ℓ) (t : Session ε' ℓ) (related : s.mapOwn see = t) :
      (interrupt s).2.mapOwn see = (interrupt t).2 ∨ False := by
    rw [← related, interrupt_mapOwn]
    exact .inl rfl
  obtain ⟨-, stopped⟩ | gone := abreast.attended_both
    (fun s t related => congrArg (·.slots) related.symm) (.some interrupts) fun _ _ _ => id
  · exact stopped.symm
  · exact gone.elim

/-- The same is written of programs that run abreast. -/
theorem drive_mapOwn (see : ε → ε') {run : Run (Session ε ℓ) (Except DebugError Nat)}
    {other : Run (Session ε' ℓ) (Except DebugError Nat)}
    (abreast : Run.Abreast (fun s t => s.mapOwn see = t) (fun _ => False) run other)
    (script : List Command) (sink : Sink) :
    let outcome := drive script sink run
    drive script sink other = ⟨outcome.result, outcome.session.mapOwn see, outcome.sink⟩ := by
  induction abreast generalizing script sink with
  | lost all => exact all.state.elim
  | finished result related =>
      obtain rfl := related
      cases result with
      | error e => rfl
      | ok count =>
          rw [drive, drive]
          rcases sink.write (finishedText count) with ⟨_ | _, sink⟩ <;> rfl
  | @parked pause s t resume other related goes gone ih =>
      obtain rfl := related
      have stopped (s : Session ε ℓ) :
          stop (.parked pause (giveUp (s.mapOwn see)) other) =
            (stop (.parked pause (giveUp s) resume)).mapOwn see :=
        stop_mapOwn see (.parked pause rfl goes gone)
      rw [drive, drive]
      rcases sink.write (pauseText pause (reply script)).flatten with ⟨_ | _, sink⟩
      · exact congrArg (Outcome.mk _ · sink) (stopped s)
      · rw [resume_mapOwn]
        rcases Session.resume (reply script).mode s with ⟨_ | _, left⟩
        · exact congrArg (Outcome.mk _ · sink) (stopped left)
        · have slot : Engine.slot (left.mapOwn see) pause.slot = Engine.slot left pause.slot := rfl
          dsimp only
          rw [slot]
          cases (Engine.slot left pause.slot).signal with
          | none => rfl
          | some r => exact ih r _ _ rfl _ _

/-- Stopping a program shows listeners nothing, so that what a run keeps is kept. -/
theorem own_stop {Q : ε → Prop} {run : Run (Session ε ℓ) (Except DebugError Nat)}
    (all : run.All fun s => Q s.host.own) : Q (stop run).host.own := by
  refine Invariant.attended (fun answer interrupts s holds => ?_) all
  rwa [← Option.some.inj interrupts, own_interrupt]

theorem own_drive {Q : ε → Prop} {run : Run (Session ε ℓ) (Except DebugError Nat)}
    (all : run.All fun s => Q s.host.own) (script : List Command) (sink : Sink) :
    Q (drive script sink run).session.host.own := by
  induction all generalizing script sink with
  | @finished result s holds =>
      cases result with
      | error e => exact holds
      | ok count =>
          rw [drive]
          rcases sink.write (finishedText count) with ⟨_ | _, sink⟩ <;> exact holds
  | @parked pause s resume holds goes ih =>
      have stopped (s : Session ε ℓ) (holds : Q s.host.own) :
          Q (stop (.parked pause (giveUp s) resume)).host.own :=
        own_stop (.parked holds goes)
      have resumed := own_resume (reply script).mode s
      rw [drive]
      rcases sink.write (pauseText pause (reply script)).flatten with ⟨_ | _, sink⟩
      · exact stopped s holds
      · rcases answered : Session.resume (reply script).mode s with ⟨_ | _, left⟩ <;>
          rw [answered] at resumed
        · exact stopped left (resumed ▸ holds)
        · dsimp only
          cases (Engine.slot left pause.slot).signal with
          | none => exact resumed ▸ holds
          | some r => exact ih r _ (resumed ▸ holds) _ _

/-- The first calls of a program: it starts, and its outermost call is entered. -/
def firstCalls (main : Call) : List HookCall :=
  [.start main.expression, .capture (.along [main]), .enter main.expression none 1]

theorem hookCalls_eq_cons (main : Call) : ∃ rest, main.hookCalls [] =
    .capture (.along [main]) :: .enter main.expression none 1 :: rest := by
  cases main
  exact ⟨_, rfl⟩

/-- A program is started and entered before it can stop for the first time. -/
theorem firstCalls_recorded (react : Reaction (StateM (Session (List HookCall) ℓ)) ℓ)
    (keeps : ∀ listener event s, (react listener event s).2.host.own = s.host.own)
    (tree : CallTree) {s : Session (List HookCall) ℓ} (unrecorded : s.host.own = []) :
    (tree.run (recordingHook react) s).All fun t => firstCalls tree.main <+: t.host.own := by
  let hook := recordingHook react
  have kept (call : HookCall) (t : Session (List HookCall) ℓ)
      (begun : firstCalls tree.main <+: t.host.own) :
      (call.make hook t).All fun t => firstCalls tree.main <+: t.host.own :=
    make_recordingHook react keeps call (begun.trans (List.prefix_append _ _))
  let started := (HookCall.make hook (.start tree.main.expression) s).state
  let captured := (HookCall.make hook (.capture (.along [tree.main])) started).state
  have start : started.host.own = [.start tree.main.expression] :=
    (make_recordingHook (Q := (· = _)) react keeps (.start tree.main.expression)
      (by rw [unrecorded]; rfl)).state
  have capture : captured.host.own =
      [.start tree.main.expression, .capture (.along [tree.main])] :=
    (make_recordingHook (Q := (· = _)) react keeps (.capture (.along [tree.main]))
      (by rw [start]; rfl)).state
  obtain ⟨rest, calls⟩ := hookCalls_eq_cons tree.main
  have attempted :
      (HookCall.attempt hook (.enter tree.main.expression none 1 :: rest) captured).All
        fun t => firstCalls tree.main <+: t.host.own := by
    have entered := make_recordingHook (Q := (firstCalls tree.main <+: ·)) react keeps
      (.enter tree.main.expression none 1) (s := captured) (by rw [capture]; exact List.prefix_rfl)
    refine entered.bind fun result t begun => ?_
    cases result with
    | error e => exact .finished begun
    | ok _ => exact .attempt kept rest begun
  rw [tree.run_eq_make, calls]
  -- The start and the capture cannot park, so that the run is what follows them.
  change ((HookCall.attempt hook (.enter tree.main.expression none 1 :: rest) captured).bind
    fun result t => (HookCall.make hook (.finish tree.main.expression) t).bind fun _ t =>
      Run.finished (result.map fun () => tree.main.size) t).All _
  exact attempted.bind fun result t begun =>
    (kept _ t begun).bind fun _ t begun => .finished begun

/-- The hook of a session that nobody listens to, with its calls on record. -/
def quietRecorder : Hook (Thread (Session (List HookCall) Empty)) :=
  recordingHook fun listener => nomatch listener

/-- The program is debugged while its calls are put on record. -/
def recorded (tree : CallTree) (script : List Command) (sink : Sink) (s : Launch.Quiet) :
    Outcome (Session (List HookCall) Empty) :=
  drive script sink (tree.run quietRecorder (s.mapOwn fun _ => []))

/-- The record changes neither what is written nor how a program ends, and the program's first
calls are on it. -/
theorem recorded_debug (tree : CallTree) (script : List Command) (sink : Sink) (s : Launch.Quiet) :
    let outcome := recorded tree script sink s
    debug Launch.Quiet.react tree script sink s =
        ⟨outcome.result, outcome.session.mapOwn fun _ => (), outcome.sink⟩ ∧
      firstCalls tree.main <+: outcome.session.host.own := by
  let forget : Session (List HookCall) Empty → Launch.Quiet := Session.mapOwn fun _ => ()
  have makes (call : HookCall) (s : Session (List HookCall) Empty) (t : Launch.Quiet)
      (same : forget s = t) :
      Run.Abreast (fun s t => forget s = t) (fun _ => False)
        (call.make quietRecorder s) (call.make (hook Launch.Quiet.react) t) := by
    rw [quietRecorder, recordingHook, HookCall.make_preceded]
    exact (Projection.mapOwn _).coupling .self (fun listener => nomatch listener) |>.make call same
  have abreast := Run.Abreast.run makes (fun _ _ gone => gone.elim) tree
    (s := s.mapOwn fun _ => []) (t := s) rfl
  have begun := firstCalls_recorded (fun listener => nomatch listener)
    (fun listener => nomatch listener) tree (s := s.mapOwn fun _ => []) rfl
  exact ⟨drive_mapOwn _ abreast script sink, own_drive begun script sink⟩

end Transcript
end Debugger
