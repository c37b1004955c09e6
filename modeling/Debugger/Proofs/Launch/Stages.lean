import Mathlib.Data.List.Forall2
import Debugger.Proofs.Launch.Breakpoints
import Debugger.Proofs.Transcript.Recorded

/-! The stages of a launch. Main statement: a program is started exactly if no stage fails, and
otherwise the first stage that fails gives the fault, with nothing written and no call entered.
A program that is started runs as under a fresh session with the breakpoints asked for. -/
namespace Debugger

/-- The fault of the first element that fails. -/
def FirstFault {α φ : Type} (fails : α → φ → Prop) (elements : List α) (fault : φ) : Prop :=
  ∃ before a after, elements = before ++ a :: after ∧ fails a fault ∧
    ∀ earlier ∈ before, ∀ other, ¬ fails earlier other

namespace FirstFault
variable {α φ : Type} {fails : α → φ → Prop} {fault : φ} {a : α} {rest : List α}

theorem not_nil : ¬ FirstFault fails [] fault := by
  rintro ⟨before, a, after, split, -⟩
  exact List.append_ne_nil_of_right_ne_nil before (List.cons_ne_nil a after) split.symm

theorem cons_iff : FirstFault fails (a :: rest) fault ↔
    fails a fault ∨ (∀ other, ¬ fails a other) ∧ FirstFault fails rest fault := by
  constructor
  · rintro ⟨before, culprit, after, split, failed, others⟩
    cases before with
    | nil =>
        obtain ⟨rfl, rfl⟩ := List.cons.inj split
        exact .inl failed
    | cons first before =>
        obtain ⟨rfl, rfl⟩ := List.cons.inj split
        obtain ⟨first, others⟩ := List.forall_mem_cons.mp others
        exact .inr ⟨first, before, culprit, after, rfl, failed, others⟩
  · rintro (failed | ⟨first, before, culprit, after, rfl, failed, others⟩)
    · exact ⟨[], a, rest, rfl, failed, by simp⟩
    · exact ⟨a :: before, culprit, after, rfl, failed, List.forall_mem_cons.mpr ⟨first, others⟩⟩

/-- There is a first fault if there is one at all. -/
theorem exists_iff {elements : List α} :
    (∃ fault, FirstFault fails elements fault) ↔ ∃ a ∈ elements, ∃ fault, fails a fault := by
  induction elements with
  | nil => simp [not_nil]
  | cons a rest ih =>
      simp only [cons_iff, List.exists_mem_cons_iff, ← ih, exists_or, exists_and_left]
      by_cases failed : ∃ fault, fails a fault
      · exact iff_of_true (.inl failed) (.inl failed)
      · rw [and_iff_right (not_exists.mp failed)]

end FirstFault

namespace Launch
open Session

/-- The ways in which a file is not loaded. -/
inductive Unloadable {α : Type} (files : FileReader) (read : String → Except DebugError α)
    (path : String) : DebugError → Prop where
  | unreadable {failure : ReadFailure} : files path = .error failure →
      Unloadable files read path (.invalidConfig (.unreadable path failure))
  | refused {text : String} {error : DebugError} : files path = .ok text →
      read text = .error error → Unloadable files read path error

/-- The text names no line, and this is reported of it. -/
def NoLine (spec : String) (fault : Fault) : Prop :=
  ∃ cause, LineSpec.ofChars spec.toList = .error cause ∧ fault = .lineBreak spec cause

/-- What a launch reads, in order. -/
inductive Stage where
  | program
  | config
  | script
  | breakpoints
deriving DecidableEq

namespace Stage

def all : List Stage :=
  [.program, .config, .script, .breakpoints]

theorem mem_all (stage : Stage) : stage ∈ all := by
  cases stage <;> decide

/-- The ways in which each stage fails. Of commands and of line breakpoints the first that is
refused is to blame. -/
inductive Fails (files : FileReader) (r : Request) : Stage → Fault → Prop where
  | program {error : DebugError} : Unloadable files CallTree.ofText r.program error →
      Fails files r .program (.program r.program error)
  | config {path : String} {error : DebugError} : r.config = some path →
      Unloadable files Config.ofText path error → Fails files r .config (.config path error)
  | unreadableScript {path : String} {failure : ReadFailure} : r.script = some path →
      files path = .error failure → Fails files r .script (.unreadableScript path failure)
  | script {path text : String} {fault : ScriptFault} : r.script = some path →
      files path = .ok text → Script.ofText text = .error fault →
      Fails files r .script (.script fault)
  | command {fault : CommandFault} : r.script = none →
      FirstFault (Command.ofText · = .error ·) r.commands fault →
      Fails files r .script (.command fault)
  | lineBreak {fault : Fault} : FirstFault NoLine r.lineBreaks fault →
      Fails files r .breakpoints fault

end Stage

section Reading
variable {α : Type} {files : FileReader} {read : String → Except DebugError α} {path : String}

theorem load_eq_error_iff {error : DebugError} :
    load files read path = .error error ↔ Unloadable files read path error := by
  rw [load]
  constructor
  · intro failed
    cases file : files path with
    | error failure =>
        rw [file] at failed
        obtain rfl := Except.error.inj failed
        exact .unreadable file
    | ok text =>
        rw [file] at failed
        exact .refused file failed
  · intro unloadable
    cases unloadable with
    | unreadable file => rw [file]
    | refused file refused => rw [file, ← refused]

theorem load_eq_ok_iff {a : α} :
    load files read path = .ok a ↔ ∃ text, files path = .ok text ∧ read text = .ok a := by
  rw [load]
  cases files path <;> simp

theorem readCommands_eq_error_iff {texts : List String} {fault : CommandFault} :
    readCommands texts = .error fault ↔
      FirstFault (Command.ofText · = .error ·) texts fault := by
  induction texts with
  | nil => exact iff_of_false nofun FirstFault.not_nil
  | cons text rest ih =>
      rw [FirstFault.cons_iff, ← ih, readCommands]
      cases Command.ofText text with
      | error other => simp
      | ok command => cases readCommands rest <;> simp [Except.map]

theorem readCommands_eq_ok_iff {texts : List String} {commands : List Command} :
    readCommands texts = .ok commands ↔
      List.Forall₂ (Command.ofText · = .ok ·) texts commands := by
  induction texts generalizing commands with
  | nil => simp [readCommands, eq_comm]
  | cons text rest ih =>
      rw [readCommands, List.forall₂_cons_left_iff]
      simp only [← ih]
      cases Command.ofText text with
      | error fault => simp
      | ok command => cases readCommands rest <;> simp [Except.map, eq_comm]

theorem readLineBreaks_eq_error_iff {specs : List String} {fault : Fault} :
    readLineBreaks specs = .error fault ↔ FirstFault NoLine specs fault := by
  induction specs with
  | nil => exact iff_of_false nofun FirstFault.not_nil
  | cons spec rest ih =>
      rw [FirstFault.cons_iff, ← ih, readLineBreaks]
      cases named : LineSpec.ofChars spec.toList with
      | error cause =>
          have refused (other : Fault) : NoLine spec other ↔ other = .lineBreak spec cause := by
            simp [NoLine, named]
          simp [refused, eq_comm]
      | ok line =>
          have named (other : Fault) : ¬ NoLine spec other := by simp [NoLine, named]
          cases readLineBreaks rest <;> simp [Except.map, named]

theorem valid_of_readLineBreaks {specs : List String} {kinds : List Breakpoint.Kind}
    (read : readLineBreaks specs = .ok kinds) :
    ∀ spec ∈ specs, (LineSpec.kind? spec).isSome := by
  intro spec member
  cases named : LineSpec.ofChars spec.toList with
  | error cause =>
      have refused : ∃ fault, NoLine spec fault := ⟨_, cause, named, rfl⟩
      obtain ⟨fault, first⟩ := FirstFault.exists_iff.mpr ⟨spec, member, refused⟩
      rw [← readLineBreaks_eq_error_iff, read] at first
      exact nomatch first
  | ok line =>
      rw [LineSpec.kind?, named]
      rfl

theorem mapError_eq_error_iff {ε φ : Type} {result : Except ε α} {name : ε → φ} {fault : φ} :
    result.mapError name = .error fault ↔ ∃ error, result = .error error ∧ name error = fault := by
  cases result <;> simp [Except.mapError]

theorem mapError_eq_ok_iff {ε φ : Type} {result : Except ε α} {name : ε → φ} {a : α} :
    result.mapError name = .ok a ↔ result = .ok a := by
  cases result <;> simp [Except.mapError]

theorem map_eq_error_iff {φ β : Type} {result : Except φ α} {f : α → β} {fault : φ} :
    result.map f = .error fault ↔ result = .error fault := by
  cases result <;> simp [Except.map]

theorem bind_eq_ok_iff {φ β : Type} {result : Except φ α} {next : α → Except φ β} {b : β} :
    (result >>= next) = .ok b ↔ ∃ a, result = .ok a ∧ next a = .ok b := by
  cases result <;> simp [bind, Except.bind]

end Reading

section Loading
variable {files : FileReader} {r : Request} {path : String}

theorem loadProgram_eq (files : FileReader) (r : Request) : loadProgram files r =
    (load files CallTree.ofText r.program).mapError (.program r.program) := by
  rw [loadProgram]
  cases load files CallTree.ofText r.program <;> rfl

theorem loadConfig_of_none (unset : r.config = none) : loadConfig files r = .ok {} := by
  rw [loadConfig, unset]

theorem loadConfig_of_some (set : r.config = some path) : loadConfig files r =
    (load files Config.ofText path).mapError (.config path) := by
  rw [loadConfig, set]
  dsimp only
  cases load files Config.ofText path <;> rfl

theorem loadScript_of_none (unset : r.script = none) : loadScript files r =
    (readCommands r.commands).mapError .command := by
  rw [loadScript, unset]
  cases readCommands r.commands <;> rfl

theorem loadScript_of_unread (set : r.script = some path) {failure : ReadFailure}
    (file : files path = .error failure) :
    loadScript files r = .error (.unreadableScript path failure) := by
  rw [loadScript, set]
  simp only [file]

theorem loadScript_of_read (set : r.script = some path) {text : String}
    (file : files path = .ok text) :
    loadScript files r = (Script.ofText text).mapError .script := by
  rw [loadScript, set]
  simp only [file]
  cases Script.ofText text <;> rfl

theorem loadConfig_eq_ok_iff {config : Config} : loadConfig files r = .ok config ↔
    match r.config with
    | none => config = {}
    | some path => ∃ text, files path = .ok text ∧ Config.ofText text = .ok config := by
  cases set : r.config with
  | none =>
      rw [loadConfig_of_none set]
      exact ⟨fun read => (Except.ok.inj read).symm, fun unset => congrArg _ unset.symm⟩
  | some path => rw [loadConfig_of_some set, mapError_eq_ok_iff, load_eq_ok_iff]

theorem loadScript_eq_ok_iff {script : List Command} : loadScript files r = .ok script ↔
    match r.script with
    | none => List.Forall₂ (Command.ofText · = .ok ·) r.commands script
    | some path => ∃ text, files path = .ok text ∧ Script.ofText text = .ok script := by
  cases set : r.script with
  | none => rw [loadScript_of_none set, mapError_eq_ok_iff, readCommands_eq_ok_iff]
  | some path =>
      cases file : files path with
      | error failure => simp [loadScript_of_unread set file, file]
      | ok text => simp [loadScript_of_read set file, file, mapError_eq_ok_iff]

end Loading

namespace Stage
variable {files : FileReader} {r : Request} {fault : Fault}

theorem fails_program_iff : Fails files r .program fault ↔ loadProgram files r = .error fault := by
  rw [loadProgram_eq, mapError_eq_error_iff]
  constructor
  · rintro ⟨unloadable⟩
    exact ⟨_, load_eq_error_iff.mpr unloadable, rfl⟩
  · rintro ⟨error, failed, rfl⟩
    exact .program (load_eq_error_iff.mp failed)

theorem fails_config_iff : Fails files r .config fault ↔ loadConfig files r = .error fault := by
  constructor
  · intro fails
    cases fails with
    | config set unloadable =>
        rw [loadConfig_of_some set, load_eq_error_iff.mpr unloadable]
        rfl
  · intro failed
    cases set : r.config with
    | none =>
        rw [loadConfig_of_none set] at failed
        exact nomatch failed
    | some path =>
        rw [loadConfig_of_some set, mapError_eq_error_iff] at failed
        obtain ⟨error, failed, rfl⟩ := failed
        exact .config set (load_eq_error_iff.mp failed)

theorem fails_script_iff : Fails files r .script fault ↔ loadScript files r = .error fault := by
  constructor
  · intro fails
    cases fails with
    | unreadableScript set file => rw [loadScript_of_unread set file]
    | script set file refused => rw [loadScript_of_read set file, refused]; rfl
    | command unset first =>
        rw [loadScript_of_none unset, readCommands_eq_error_iff.mpr first]
        rfl
  · intro failed
    cases set : r.script with
    | none =>
        rw [loadScript_of_none set, mapError_eq_error_iff] at failed
        obtain ⟨fault, failed, rfl⟩ := failed
        exact .command set (readCommands_eq_error_iff.mp failed)
    | some path =>
        cases file : files path with
        | error failure =>
            rw [loadScript_of_unread set file] at failed
            exact Except.error.inj failed ▸ .unreadableScript set file
        | ok text =>
            rw [loadScript_of_read set file, mapError_eq_error_iff] at failed
            obtain ⟨fault, refused, rfl⟩ := failed
            exact .script set file refused

theorem fails_breakpoints_iff :
    Fails files r .breakpoints fault ↔ readLineBreaks r.lineBreaks = .error fault := by
  rw [readLineBreaks_eq_error_iff]
  exact ⟨fun | .lineBreak first => first, .lineBreak⟩

end Stage

/-- A plan fails with the fault of the first stage that does. -/
theorem plan_eq_error_iff {files : FileReader} {r : Request} {fault : Fault} :
    plan files r = .error fault ↔ FirstFault (Stage.Fails files r) Stage.all fault := by
  simp only [Stage.all, FirstFault.cons_iff, Stage.fails_program_iff, Stage.fails_config_iff,
    Stage.fails_script_iff, Stage.fails_breakpoints_iff, FirstFault.not_nil, plan]
  cases loadProgram files r with
  | error other => simp [bind, Except.bind]
  | ok tree =>
      cases loadConfig files r with
      | error other => simp [bind, Except.bind]
      | ok config =>
          cases loadScript files r with
          | error other => simp [bind, Except.bind]
          | ok script =>
              cases readLineBreaks r.lineBreaks <;> simp [bind, Except.bind, pure, Except.pure]

theorem exists_fails_iff {files : FileReader} {r : Request} :
    (∃ stage fault, Stage.Fails files r stage fault) ↔ ∃ fault, plan files r = .error fault := by
  simp only [plan_eq_error_iff, FirstFault.exists_iff, Stage.mem_all, true_and]

theorem length_breakpoints {r : Request} (valid : r.Valid) : r.breakpoints.length =
    r.lineBreaks.length + r.functionBreaks.length + r.partialBreaks.length := by
  rw [Request.breakpoints, List.length_append, List.length_append, List.length_map,
    List.length_map, List.filterMap_length_eq_length.mpr valid]

/-- What is read when no stage fails. -/
structure Loaded (files : FileReader) (r : Request) (tree : CallTree) (config : Config)
    (script : List Command) : Prop where
  program : ∃ text, files r.program = .ok text ∧ CallTree.ofText text = .ok tree
  config : match r.config with
    | none => config = {}
    | some path => ∃ text, files path = .ok text ∧ Config.ofText text = .ok config
  script : match r.script with
    | none => List.Forall₂ (Command.ofText · = .ok ·) r.commands script
    | some path => ∃ text, files path = .ok text ∧ Script.ofText text = .ok script
  breakpoints : r.Valid

theorem loaded_of_plan {files : FileReader} {r : Request} {p : Plan}
    (planned : plan files r = .ok p) :
    Loaded files r p.tree p.config p.script ∧ p.breakpoints = r.breakpoints := by
  simp only [plan, bind_eq_ok_iff] at planned
  obtain ⟨tree, program, config, configured, script, scripted, lines, named, planned⟩ := planned
  obtain rfl := Except.ok.inj planned
  have valid : r.Valid := valid_of_readLineBreaks named
  rw [loadProgram_eq, mapError_eq_ok_iff, load_eq_ok_iff] at program
  rw [readLineBreaks_of_valid valid] at named
  rw [loadConfig_eq_ok_iff] at configured
  rw [loadScript_eq_ok_iff] at scripted
  refine ⟨⟨program, configured, scripted, valid⟩, ?_⟩
  rw [← Except.ok.inj named]
  rfl

/-- The session of a plan, with its breakpoints in the order of their visits. -/
def Plan.sessionOn (order : VisitOrder) (p : Plan) : Quiet :=
  let s := p.session
  { s with breakpoints := { s.breakpoints with entries := order.arrange s.breakpoints.entries } }

/-- The fresh session with the breakpoints asked for, in the order of their visits. -/
def sessionOf (order : VisitOrder) (config : Config) (kinds : List Breakpoint.Kind) : Quiet :=
  let fresh : Quiet := Session.new config ()
  let filled := Store.addAll {} kinds
  { fresh with breakpoints := { filled with entries := order.arrange filled.entries } }

/-- A breakpoint is there for each that is asked for, as it was added. -/
theorem breakpoints_sessionOf (order : VisitOrder) (config : Config)
    (kinds : List Breakpoint.Kind) :
    let entries := (sessionOf order config kinds).breakpoints.entries
    (entries.map (·.id)).Nodup ∧ ∀ b, b ∈ entries ↔ ∃ i kind,
      kinds[i]? = some kind ∧ kinds.length ≤ i + UInt32.size ∧
        b = { id := .ofSequence (.ofNat i), kind } := by
  have added := Store.Added.empty.addAll kinds
  have order := order.perm (Store.addAll {} kinds).entries
  exact ⟨(order.map _).nodup_iff.mpr added.distinct,
    fun b => order.mem_iff.trans (added.mem_iff b)⟩

/-- What a launch comes to, with the calls that its program makes on record. -/
structure Record where
  calls : List HookCall
  written : List Char
  result : Except Fault Unit

def recordedOn (order : VisitOrder) (sink : Sink) (files : FileReader) (r : Request) : Record :=
  match plan files r with
  | .error fault => { calls := [], written := sink.written, result := .error fault }
  | .ok p =>
      let outcome := Transcript.recorded p.tree p.script sink (p.sessionOn order)
      { calls := outcome.session.host.own, written := outcome.sink.written,
        result := outcome.result.mapError .transcript }

section Recording
variable (order : VisitOrder) (sink : Sink) {files : FileReader} {r : Request}

theorem recordedOn_of_failed {fault : Fault} (failed : plan files r = .error fault) :
    recordedOn order sink files r =
      { calls := [], written := sink.written, result := .error fault } := by
  rw [recordedOn, failed]

theorem firstCalls_recordedOn {p : Plan} (planned : plan files r = .ok p) :
    Transcript.firstCalls p.tree.main <+: (recordedOn order sink files r).calls := by
  rw [recordedOn, planned]
  exact (Transcript.recorded_debug p.tree p.script sink (p.sessionOn order)).2

theorem recordedOn_eq_runOn (files : FileReader) (r : Request) :
    let record := recordedOn order sink files r
    (record.written, record.result) = runOn order sink files r := by
  rw [recordedOn, runOn]
  cases plan files r with
  | error fault => rfl
  | ok p =>
      have debugged : p.runOn order sink = _ :=
        (Transcript.recorded_debug p.tree p.script sink (p.sessionOn order)).1
      dsimp only
      rw [debugged]

/-- A plan runs as under a fresh session: that its breakpoints were added one by one shows in the
journal only. -/
theorem Plan.runOn_eq_debug (p : Plan) :
    let outcome := Transcript.debug Quiet.react p.tree p.script sink
      (sessionOf order p.config p.breakpoints)
    (p.runOn order sink).result = outcome.result ∧ (p.runOn order sink).sink = outcome.sink := by
  intro outcome
  have session := p.unattended_session
  let filled := Store.addAll {} p.breakpoints
  let arranged : Store := { filled with entries := order.arrange filled.entries }
  have watch : (p.sessionOn order).watch = ⟨arranged, .continue, 0⟩ :=
    congrArg (fun w : Watch => { w with
      breakpoints := { w.breakpoints with entries := order.arrange w.breakpoints.entries } })
      session.watch
  have given : Unattended p.config.previewLength (p.sessionOn order)
      ⟨arranged, .continue, 0⟩ none :=
    ⟨session.unheard, session.free, watch, session.last, session.previews⟩
  have fresh : Unattended p.config.previewLength (sessionOf order p.config p.breakpoints)
      ⟨arranged, .continue, 0⟩ none := ⟨rfl, rfl, rfl, rfl, rfl⟩
  obtain ⟨s, debugged⟩ := Transcript.debug_unattended Quiet.react p.tree p.script sink given
  obtain ⟨t, alike⟩ := Transcript.debug_unattended Quiet.react p.tree p.script sink fresh
  have one : p.runOn order sink = _ := debugged
  have other : outcome = _ := alike
  rw [one, other]
  exact ⟨rfl, rfl⟩

theorem recordedOn_of_planned {p : Plan} (planned : plan files r = .ok p) :
    let record := recordedOn order sink files r
    let outcome := Transcript.debug Quiet.react p.tree p.script sink
      (sessionOf order p.config p.breakpoints)
    record.written = outcome.sink.written ∧
      record.result = outcome.result.mapError .transcript := by
  intro record outcome
  have told := recordedOn_eq_runOn order sink files r
  obtain ⟨result, written⟩ := p.runOn_eq_debug order sink
  rw [runOn, planned] at told
  obtain ⟨one, other⟩ := Prod.mk.inj told
  exact ⟨one.trans (congrArg Sink.written written),
    other.trans (congrArg (Except.mapError Fault.transcript) result)⟩

end Recording

/-- No call is made exactly if a stage fails, and then nothing is written and the first stage that
does gives the fault. Otherwise everything is read, the program is started and entered, and what is
written and how the launch ends are those of the program under a fresh session. It has one
breakpoint for each that is asked for, enabled and without a target; of more than there are
identifiers it has the last. -/
theorem launch_by_stages (order : VisitOrder) (sink : Sink) (files : FileReader) (r : Request) :
    let record := recordedOn order sink files r
    run files r = runOn .asAdded {} files r ∧
    runOn order sink files r = (record.written, record.result) ∧
    (record.calls = [] ↔ ∃ stage fault, Stage.Fails files r stage fault) ∧
    (∀ fault, record = { calls := [], written := sink.written, result := .error fault } ↔
      FirstFault (Stage.Fails files r) Stage.all fault) ∧
    ((∀ stage fault, ¬ Stage.Fails files r stage fault) →
      ∃ tree config script, Loaded files r tree config script ∧
        Transcript.firstCalls tree.main <+: record.calls ∧
        let session := sessionOf order config r.breakpoints
        let outcome := Transcript.debug Quiet.react tree script sink session
        record.written = outcome.sink.written ∧
        record.result = outcome.result.mapError .transcript ∧
        (session.breakpoints.entries.map (·.id)).Nodup ∧
        (∀ b, b ∈ session.breakpoints.entries ↔ ∃ i kind,
          r.breakpoints[i]? = some kind ∧ r.breakpoints.length ≤ i + UInt32.size ∧ b =
            { id := .ofSequence (.ofNat i), kind
              enabled := true, condition := none, hitCount := 0, target := 0 }) ∧
        r.breakpoints.length =
          r.lineBreaks.length + r.functionBreaks.length + r.partialBreaks.length) := by
  intro record
  refine ⟨(runOn_asAdded files r).symm, (recordedOn_eq_runOn order sink files r).symm, ?_⟩
  rw [exists_fails_iff]
  cases planned : plan files r with
  | error fault =>
      have nothing := recordedOn_of_failed order sink planned
      refine ⟨iff_of_true (congrArg Record.calls nothing) ⟨fault, rfl⟩, fun other => ?_,
        fun sound => ?_⟩
      · rw [← plan_eq_error_iff, planned, show record = _ from nothing]
        simp
      · obtain ⟨stage, other, failed⟩ := exists_fails_iff.mpr ⟨fault, planned⟩
        exact absurd failed (sound stage other)
  | ok p =>
      have begun := firstCalls_recordedOn order sink planned
      have called : record.calls ≠ [] := fun none =>
        absurd (List.prefix_nil.mp (none ▸ begun)) (List.cons_ne_nil _ _)
      refine ⟨iff_of_false called nofun, fun fault => ?_, fun _ => ?_⟩
      · rw [← plan_eq_error_iff, planned]
        exact iff_of_false (fun same => called (congrArg Record.calls same)) nofun
      · obtain ⟨loaded, asked⟩ := loaded_of_plan planned
        obtain ⟨written, result⟩ := recordedOn_of_planned order sink planned
        obtain ⟨distinct, each⟩ := breakpoints_sessionOf order p.config r.breakpoints
        rw [asked] at written result
        exact ⟨p.tree, p.config, p.script, loaded, begun, written, result, distinct, each,
          length_breakpoints loaded.breakpoints⟩

/-- The second command is refused before the second breakpoint, and nothing has happened by then.
Without them the program stops at its only call. -/
theorem launch_by_stages_of_later_faults :
    let files : FileReader := fun _ =>
      .ok "[main]\nfunction = \"f\"\n[main.source]\nfile = \"a\"\nline = 4\n"
    let good : Request := { program := "calls.toml", commands := ["vars"], lineBreaks := ["a:4"] }
    let bad : Request := { good with commands := ["vars", "halt"], lineBreaks := ["a:4", "b"] }
    let fault := Fault.command (.unknown "halt")
    FirstFault (Stage.Fails files bad) Stage.all fault ∧
      recordedOn .asAdded {} files bad = { calls := [], written := [], result := .error fault } ∧
      (∀ stage fault, ¬ Stage.Fails files good stage fault) ∧
      (∃ main, Transcript.firstCalls main <+: (recordedOn .asAdded {} files good).calls) ∧
      String.ofList (recordedOn .asAdded {} files good).written =
        "== Breakpoint hit: f at a:4\n  #0 f at a:4\n  (no variables)\n> vars\n" ++
          "  (no variables)\n> continue\n== finished (1 calls)\n" := by
  intro files good bad fault
  have stops : (plan files bad).map (fun _ => ()) = .error fault := by decide +kernel
  have goes : (plan files good).map (fun _ => ()) = .ok () := by decide +kernel
  have refused : FirstFault (Stage.Fails files bad) Stage.all fault :=
    plan_eq_error_iff.mp (map_eq_error_iff.mp stops)
  have sound (stage : Stage) (fault : Fault) : ¬ Stage.Fails files good stage fault := by
    intro failed
    obtain ⟨first, failed⟩ := exists_fails_iff.mp ⟨stage, fault, failed⟩
    rw [failed] at goes
    exact nomatch goes
  obtain ⟨-, -, -, stopped, -⟩ := launch_by_stages .asAdded {} files bad
  obtain ⟨ran, told, -, -, reads⟩ := launch_by_stages .asAdded {} files good
  obtain ⟨tree, -, -, -, begun, -⟩ := reads sound
  have written : (recordedOn .asAdded {} files good).written = (run files good).1 := by
    rw [ran, told]
  refine ⟨refused, (stopped fault).mpr refused, sound, ⟨tree.main, begun⟩, ?_⟩
  exact (congrArg String.ofList written).trans (by decide +kernel)

end Launch
end Debugger
