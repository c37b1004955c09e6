import Debugger.Proofs.Breakpoint.Additions
import Debugger.Proofs.Transcript.Driving

/-! Main statement: what a launch writes, and how it ends, depends on the set of breakpoints
asked for only. Neither the order nor the number of the requests for one breakpoint shows,
nor the order in which the store visits them. -/
namespace Debugger

/-- Watches over stores that ask for the same kinds, with the same step pending. -/
structure Watch.Alike (kinds : List Breakpoint.Kind) (w w' : Watch) : Prop where
  asks : Store.Asks kinds w.breakpoints
  asks' : Store.Asks kinds w'.breakpoints
  mode : w.mode = w'.mode
  recordedDepth : w.recordedDepth = w'.recordedDepth

namespace Watch.Alike
variable {kinds : List Breakpoint.Kind} {w w' : Watch}

theorem stepEnds (alike : Alike kinds w w') (level : Nat) :
    w.stepEnds level = w'.stepEnds level := by
  rw [Watch.stepEnds, Watch.stepEnds, alike.mode, alike.recordedDepth]

theorem reason (alike : Alike kinds w w') (v : Visit) : w.reason v = w'.reason v := by
  rw [Watch.reason, Watch.reason, alike.asks.isSome_shouldBreak, alike.asks'.isSome_shouldBreak,
    alike.stepEnds]

theorem pass (alike : Alike kinds w w') (v : Visit) : Alike kinds (w.pass v) (w'.pass v) where
  asks := alike.asks.shouldBreak v.call.site
  asks' := alike.asks'.shouldBreak v.call.site
  mode := by rw [Watch.pass, Watch.pass, alike.stepEnds, alike.mode]
  recordedDepth := alike.recordedDepth

theorem command (alike : Alike kinds w w') (mode : StepMode) (level : Nat) :
    Alike kinds (w.command mode level) (w'.command mode level) where
  asks := alike.asks
  asks' := alike.asks'
  mode := rfl
  recordedDepth := by rw [Watch.command, Watch.command, alike.recordedDepth]

end Watch.Alike

/-- Two programs have come equally far, under watches that ask for the same kinds. -/
structure Progress.Alike (kinds : List Breakpoint.Kind) (p p' : Progress) : Prop where
  watch : Watch.Alike kinds p.watch p'.watch
  commands : p.commands = p'.commands
  stops : p.stops = p'.stops

namespace Progress.Alike
variable {kinds : List Breakpoint.Kind} {p p' : Progress}

theorem visit (alike : Alike kinds p p') (v : Visit) : Alike kinds (p.visit v) (p'.visit v) := by
  cases reason : p.watch.reason v with
  | none =>
      rw [Progress.visit_of_none reason,
        Progress.visit_of_none ((alike.watch.reason v).symm.trans reason)]
      exact ⟨alike.watch.pass v, alike.commands, alike.stops⟩
  | some why =>
      rw [Progress.visit_of_some reason,
        Progress.visit_of_some ((alike.watch.reason v).symm.trans reason), stop, stop,
        alike.commands, alike.stops]
      exact ⟨(alike.watch.pass v).command _ _, rfl, rfl⟩

theorem foldl (alike : Alike kinds p p') (visits : List Visit) :
    Alike kinds (visits.foldl Progress.visit p) (visits.foldl Progress.visit p') := by
  induction visits generalizing p p' with
  | nil => exact alike
  | cons v rest ih => exact ih (alike.visit v)

end Progress.Alike

/-- The breakpoint that a text names, if it names one. -/
def LineSpec.kind? (spec : String) : Option Breakpoint.Kind :=
  match ofChars spec.toList with
  | .error _ => none
  | .ok (source, number) => some (.line (String.ofList source) number)

namespace Request

/-- Every line breakpoint of the request names a source and a line. -/
def Valid (r : Request) : Prop :=
  ∀ spec ∈ r.lineBreaks, (LineSpec.kind? spec).isSome

/-- The breakpoints asked for, in order and as often as they are asked for. -/
def breakpoints (r : Request) : List Breakpoint.Kind :=
  r.lineBreaks.filterMap LineSpec.kind? ++ r.functionBreaks.map (.function · false) ++
    r.partialBreaks.map (.function · true)

def withoutBreakpoints (r : Request) : Request :=
  { r with lineBreaks := [], functionBreaks := [], partialBreaks := [] }

end Request

/-- An order in which a store visits its breakpoints. -/
structure VisitOrder where
  arrange : List Breakpoint → List Breakpoint
  perm : ∀ breakpoints, (arrange breakpoints).Perm breakpoints

def VisitOrder.asAdded : VisitOrder :=
  ⟨id, List.Perm.refl⟩

namespace Launch
open Session
variable {ε ℓ : Type} {s : Session ε ℓ} {n : Nat} {w : Watch} {last : Option Expression}

/-- The launch writes to the sink, and its store visits the breakpoints in the order. -/
def Plan.runOn (order : VisitOrder) (sink : Sink) (p : Plan) : Transcript.Outcome Quiet :=
  let s := p.session
  let entries := order.arrange s.breakpoints.entries
  Transcript.debug Quiet.react p.tree p.script sink
    { s with breakpoints := { s.breakpoints with entries } }

def runOn (order : VisitOrder) (sink : Sink) (files : FileReader) (r : Request) :
    List Char × Except Fault Unit :=
  match plan files r with
  | .error fault => (sink.written, .error fault)
  | .ok p =>
      let outcome := p.runOn order sink
      (outcome.sink.written, outcome.result.mapError .transcript)

theorem runOn_asAdded (files : FileReader) (r : Request) :
    runOn .asAdded {} files r = run files r := by
  rw [runOn, run]
  cases plan files r <;> rfl

theorem readLineBreaks_of_valid {specs : List String}
    (valid : ∀ spec ∈ specs, (LineSpec.kind? spec).isSome) :
    readLineBreaks specs = .ok (specs.filterMap LineSpec.kind?) := by
  induction specs with
  | nil => rfl
  | cons spec rest ih =>
      obtain ⟨named, others⟩ := List.forall_mem_cons.mp valid
      rw [LineSpec.kind?] at named
      rw [readLineBreaks, ih others, List.filterMap_cons, LineSpec.kind?]
      cases read : LineSpec.ofChars spec.toList with
      | error => simp [read] at named
      | ok => rfl

/-- With valid line breakpoints, whether all is read does not depend on the breakpoints. -/
theorem plan_of_valid (files : FileReader) {r : Request} (valid : r.Valid) :
    plan files r = (plan files r.withoutBreakpoints).map fun p =>
      { p with breakpoints := r.breakpoints } := by
  have program : loadProgram files r.withoutBreakpoints = loadProgram files r := rfl
  have config : loadConfig files r.withoutBreakpoints = loadConfig files r := rfl
  have script : loadScript files r.withoutBreakpoints = loadScript files r := rfl
  rw [plan, plan, program, config, script, readLineBreaks_of_valid valid]
  cases loadProgram files r <;> cases loadConfig files r <;> cases loadScript files r <;> rfl

theorem unattended_addBreakpoint (react : Reaction (StateM (Session ε ℓ)) ℓ)
    (unattended : Unattended n s w last) (kind : Breakpoint.Kind) :
    Unattended n (Session.addBreakpoint react kind s).2
      { w with breakpoints := (w.breakpoints.add kind).2 } last := by
  let added : Session ε ℓ := Engine.note [.breakpointAdded (s.breakpoints.add kind).1 kind]
    { s with breakpoints := (s.breakpoints.add kind).2 }
  have told : (Session.addBreakpoint react kind s).2 = added :=
    after_unheard react (.breakpointAdded (s.breakpoints.add kind).1) (s := added)
      unattended.unheard
  rw [told, ← unattended.watch]
  exact ⟨unattended.unheard, unattended.free, rfl, unattended.last, unattended.previews⟩

theorem unattended_foldl (react : Reaction (StateM (Session ε ℓ)) ℓ)
    (unattended : Unattended n s w last) (kinds : List Breakpoint.Kind) :
    Unattended n (kinds.foldl (fun s kind => (Session.addBreakpoint react kind s).2) s)
      { w with breakpoints := w.breakpoints.addAll kinds } last := by
  induction kinds generalizing s w with
  | nil => exact unattended
  | cons kind rest ih => exact ih (unattended_addBreakpoint react unattended kind)

theorem Plan.unattended_session (p : Plan) :
    Unattended p.config.previewLength p.session
      ⟨Store.addAll {} p.breakpoints, .continue, 0⟩ none := by
  have start : Unattended p.config.previewLength (Session.new p.config () : Quiet)
      ⟨{}, .continue, 0⟩ none := ⟨rfl, rfl, rfl, rfl, rfl⟩
  exact unattended_foldl Quiet.react start p.breakpoints

/-- What a plan writes is what a watch writes that asks for its breakpoints. -/
theorem Plan.runOn_eq (order : VisitOrder) (sink : Sink) (p : Plan)
    (few : p.breakpoints.length ≤ UInt32.size) :
    ∃ w, w.mode = .continue ∧ w.recordedDepth = 0 ∧ Store.Asks p.breakpoints w.breakpoints ∧
      let stops := (p.tree.progress w (Script.modes p.script)).stops
      let written := sink.write
        (((Transcript.pages p.config.previewLength p.script stops).flatMap
          Transcript.Page.text).flatten ++ Transcript.finishedText p.tree.main.size)
      (p.runOn order sink).result = (if written.1 then .ok () else .error .sinkClosed) ∧
        (p.runOn order sink).sink = written.2 := by
  let filled := Store.addAll {} p.breakpoints
  have session := p.unattended_session
  have asks : Store.Asks p.breakpoints p.session.breakpoints := by
    rw [show p.session.breakpoints = filled from congrArg Watch.breakpoints session.watch]
    exact Store.asks_addAll p.breakpoints few
  let entries := order.arrange p.session.breakpoints.entries
  let arranged : Quiet :=
    { p.session with breakpoints := { p.session.breakpoints with entries } }
  have unattended : Unattended p.config.previewLength arranged arranged.watch none :=
    ⟨session.unheard, session.free, rfl, session.last, session.previews⟩
  obtain ⟨s, debugged⟩ :=
    Transcript.debug_unattended Quiet.react p.tree p.script sink unattended
  have outcome : p.runOn order sink = _ := debugged
  refine ⟨arranged.watch, congrArg Watch.mode session.watch,
    congrArg Watch.recordedDepth session.watch, asks.perm (order.perm _), ?_, ?_⟩
  · rw [outcome]
  · rw [outcome]

/-- Plans that differ in the order and the number of their breakpoints write the same. -/
theorem Plan.runOn_of_same_breakpoints (order order' : VisitOrder) (sink : Sink) (p : Plan)
    {others : List Breakpoint.Kind} (same : ∀ kind, kind ∈ p.breakpoints ↔ kind ∈ others)
    (few : p.breakpoints.length ≤ UInt32.size) (few' : others.length ≤ UInt32.size) :
    let q := { p with breakpoints := others }
    (q.runOn order' sink).result = (p.runOn order sink).result ∧
      (q.runOn order' sink).sink = (p.runOn order sink).sink := by
  intro q
  obtain ⟨w, mode, depth, asks, result, written⟩ := p.runOn_eq order sink few
  obtain ⟨w', mode', depth', asks', result', written'⟩ := q.runOn_eq order' sink few'
  have alike : Progress.Alike others { watch := w, commands := Script.modes p.script }
      { watch := w', commands := Script.modes p.script } :=
    ⟨⟨asks.of_same same, asks', mode.trans mode'.symm, depth.trans depth'.symm⟩, rfl, rfl⟩
  have stops : (p.tree.progress w (Script.modes p.script)).stops =
      (q.tree.progress w' (Script.modes q.script)).stops := (alike.foldl p.tree.visits).stops
  exact ⟨by rw [result, result', stops], by rw [written, written', stops]⟩

/-- Requests that ask for the same set of breakpoints are answered alike. Breakpoints are
told apart by identifiers of 32 bits, and a command line has fewer options than that. -/
theorem run_of_same_breakpoints (files : FileReader) (r : Request)
    (lineBreaks functionBreaks partialBreaks : List String) :
    let other : Request := { r with lineBreaks, functionBreaks, partialBreaks }
    r.Valid → other.Valid → (∀ kind, kind ∈ r.breakpoints ↔ kind ∈ other.breakpoints) →
    r.breakpoints.length ≤ UInt32.size → other.breakpoints.length ≤ UInt32.size →
    run files other = run files r ∧
      ∀ (order order' : VisitOrder) (sink : Sink),
        runOn order' sink files other = runOn order sink files r := by
  intro other valid valid' same few few'
  have alike (order order' : VisitOrder) (sink : Sink) :
      runOn order' sink files other = runOn order sink files r := by
    have bare : other.withoutBreakpoints = r.withoutBreakpoints := rfl
    rw [runOn, runOn, plan_of_valid files valid, plan_of_valid files valid', bare]
    cases plan files r.withoutBreakpoints with
    | error fault => rfl
    | ok p =>
        obtain ⟨result, written⟩ := Plan.runOn_of_same_breakpoints order order' sink
          { p with breakpoints := r.breakpoints } same few few'
        exact Prod.ext (congrArg Sink.written written)
          (congrArg (Except.mapError Fault.transcript) result)
  exact ⟨by rw [← runOn_asAdded, ← runOn_asAdded, alike], alike⟩

/-- The same three breakpoints in another order, with two of them repeated and with their
lines written otherwise. The program stops at its only call. -/
theorem run_of_same_breakpoints_respelled :
    let files : FileReader := fun _ =>
      .ok "[main]\nfunction = \"f\"\n[main.source]\nfile = \"a\"\nline = 4\n"
    let r : Request :=
      { program := "calls.toml", lineBreaks := ["a:4", "b:2"], functionBreaks := ["g"] }
    let lineBreaks := ["b:02", "a: +4", "b:2"]
    let other : Request := { r with lineBreaks, functionBreaks := ["g", "g"] }
    r.Valid ∧ other.Valid ∧ (∀ kind, kind ∈ r.breakpoints ↔ kind ∈ other.breakpoints) ∧
      r.breakpoints.length ≤ UInt32.size ∧ other.breakpoints.length ≤ UInt32.size ∧
      run files other = run files r ∧
      String.ofList (run files r).1 =
        "== Breakpoint hit: f at a:4\n  #0 f at a:4\n  (no variables)\n> continue\n" ++
          "== finished (1 calls)\n" := by
  intro files r lineBreaks other
  have asked : r.breakpoints = [.line "a" 4, .line "b" 2, .function "g" false] := by decide
  have asked' : other.breakpoints = [.line "b" 2, .line "a" 4, .line "b" 2,
      .function "g" false, .function "g" false] := by decide
  have valid : r.Valid := by
    rw [Request.Valid]
    decide
  have valid' : other.Valid := by
    rw [Request.Valid]
    decide
  have same (kind : Breakpoint.Kind) : kind ∈ r.breakpoints ↔ kind ∈ other.breakpoints := by
    rw [asked, asked']
    grind
  have few : r.breakpoints.length ≤ UInt32.size := by
    rw [asked]
    decide
  have few' : other.breakpoints.length ≤ UInt32.size := by
    rw [asked']
    decide
  refine ⟨valid, valid', same, few, few', ?_, by decide +kernel⟩
  exact (run_of_same_breakpoints files r lineBreaks ["g", "g"] [] valid valid' same few few').1

end Launch
end Debugger
