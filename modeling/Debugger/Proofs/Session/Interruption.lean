import Debugger.Proofs.Session.Answered
import Debugger.Proofs.Session.Reachable

/-! Runs whose pauses are answered by a plan, some from inside the delivery and some from
outside. Main statement: interrupting one pause cuts the run off there, and up to it the run
is the one in which that pause is resumed. -/
namespace Debugger
variable {ℓ : Type}

/-- The demand made at each pause, counted from zero. -/
abbrev Plan := Nat → Demand

namespace Plan

/-- Commands in order, and `continue` once they are used up. -/
def ofCommands (commands : List StepMode) : Plan :=
  fun i => .command (commands.getD i .continue)

def interruptAt (k : Nat) (plan : Plan) : Plan :=
  fun i => if i = k then .interrupt else plan i

/-- Makes the next demand if there is a pause, then breaks off or not. -/
def answer (plan : Plan) (panic : Option Panic) : Conduct Nat ℓ :=
  .look fun s =>
    if s.isPaused then .keep (s.own + 1) (.use (.demand (plan s.own)) (.done panic))
    else .done panic

/-- Some listeners answer the pauses that they are told of; a controller answers those that
are left. Any listener may break off at any event. -/
def party (plan : Plan) (listeners : List ℓ) (answers : ℓ → Bool)
    (panics : ℓ → Event → Option Panic) : Party Nat ℓ where
  listeners := listeners
  told listener event :=
    if answers listener then plan.answer (panics listener event)
    else .done (panics listener event)
  controller := some (plan.answer none)
  own := 0

end Plan

/-- So many pauses were answered, by the plan, and nothing else was done. -/
structure Chronicle.Follows (plan : Plan) (c : Chronicle Nat ℓ) : Prop where
  demands : (grants c.notes).map Grant.demand = (List.range c.own).map plan
  steady : ∀ note ∈ c.notes, note.Steady

namespace Plan
variable {plan : Plan} {c : Chronicle Nat ℓ}

theorem follows_told (follows : c.Follows plan) (listener : ℓ) (event : Event)
    (found : Standing ℓ) :
    Chronicle.Follows plan { c with notes := c.notes ++ [.told listener event found] } where
  demands := by
    rw [grants_append, ← follows.demands]
    exact congrArg _ (List.append_nil _)
  steady := List.forall_mem_append.mpr ⟨follows.steady, List.forall_mem_singleton.mpr trivial⟩

theorem follows_asked (follows : c.Follows plan) {found : Standing ℓ} {pause : Pause}
    (current : found.current = some pause) (left : Standing ℓ) :
    Chronicle.Follows plan ⟨c.own + 1, c.notes ++ [.asked (plan c.own) true found left]⟩ where
  demands := by
    rw [grants_append, grants_cons_granted current, List.map_append, follows.demands,
      List.range_succ, List.map_append]
    rfl
  steady := List.forall_mem_append.mpr ⟨follows.steady, List.forall_mem_singleton.mpr trivial⟩

theorem follows_at (follows : c.Follows plan) {i : Nat} {g : Grant}
    (found : (grants c.notes)[i]? = some g) : g.demand = plan i := by
  have demanded : ((grants c.notes).map Grant.demand)[i]? = some g.demand := by
    rw [List.getElem?_map, found]
    rfl
  rw [follows.demands, List.getElem?_map] at demanded
  obtain ⟨j, counted, same⟩ := Option.map_eq_some_iff.mp demanded
  obtain ⟨inside, rfl⟩ := List.getElem?_eq_some_iff.mp counted
  rw [← same, List.getElem_range]

/-- Stops that commands end, as the plan says. -/
def Meets (plan : Plan) (stays : List Stay) : Prop :=
  ∀ i (h : i < stays.length), plan i = .command stays[i].mode

theorem meets_of_grants (follows : c.Follows plan) {stays : List Stay} {previewLength : Nat}
    {rest : List Grant} (granted : grants c.notes = stays.map (Stay.grant previewLength) ++ rest) :
    Meets plan stays := by
  intro i inside
  have answer : (grants c.notes)[i]? = some (stays[i].grant previewLength) := by
    rw [granted, List.getElem?_append_left (by rwa [List.length_map]), List.getElem?_map,
      List.getElem?_eq_getElem inside]
    rfl
  exact (follows_at follows answer).symm

/-- The session is reachable, and its pauses were answered by the plan. -/
def Kept (plan : Plan) (s : Chronicled Nat ℓ) : Prop :=
  s.Reachable ∧ s.host.own.Follows plan

theorem kept_session (plan : Plan) (listeners : List ℓ) (answers : ℓ → Bool)
    (panics : ℓ → Event → Option Panic) (config : Config) (breakpoints : Store) (steps : Steps) :
    Kept plan ((plan.party listeners answers panics).session config breakpoints steps) :=
  ⟨.host _ (.steps steps (.breakpoints breakpoints (.new config _))), rfl, List.forall_mem_nil _⟩

variable [DecidableEq ℓ] {s : Chronicled Nat ℓ}

/-- An answer to an outstanding pause takes the pause away, and follows the plan. -/
theorem answer_outstanding (plan : Plan) (panic : Option Panic) {pause : Pause}
    (outstanding : s.Outstanding pause) :
    ((plan.answer panic).play s).2.current = none ∧
      (s.host.own.Follows plan → ((plan.answer panic).play s).2.host.own.Follows plan) := by
  have paused : s.isPaused = true := by rw [Engine.isPaused, outstanding.current]; rfl
  have kept : Engine.Outstanding pause (s.keep (s.own + 1)) :=
    ⟨outstanding.current, outstanding.unreleased⟩
  obtain ⟨noted, made⟩ := (plan s.own).make_outstanding kept
  simp only [answer, Conduct.play, if_pos paused, Use.make, made]
  exact ⟨rfl, fun follows => follows_asked follows outstanding.current _⟩

theorem answer_free (plan : Plan) (panic : Option Panic) (free : s.current = none) :
    (plan.answer panic).play s = (panic, s) := by
  have idle : s.isPaused = false := by rw [Engine.isPaused, free]; rfl
  rw [answer, Conduct.play, idle]
  rfl

theorem kept_answer (plan : Plan) (panic : Option Panic) (kept : Kept plan s) :
    Kept plan ((plan.answer panic).play s).2 := by
  refine ⟨.play _ kept.1, ?_⟩
  cases current : s.current with
  | none =>
      rw [plan.answer_free panic current]
      exact kept.2
  | some pause =>
      exact (plan.answer_outstanding panic (kept.1.sound.outstanding current)).2 kept.2

variable {listeners : List ℓ} {answers : ℓ → Bool} {panics : ℓ → Event → Option Panic}

theorem kept_react (plan : Plan) (listener : ℓ) (event : Event) (s : Chronicled Nat ℓ)
    (kept : Kept plan s) :
    Kept plan ((plan.party listeners answers panics).react listener event s).2 := by
  have told : Kept plan (s.jot (.told listener event s.standing)) :=
    ⟨.host _ kept.1, follows_told kept.2 listener event s.standing⟩
  change Kept plan (Conduct.play (if answers listener then _ else _) _).2
  split
  · exact kept_answer plan _ told
  · exact told

theorem kept_run (plan : Plan) (tree : CallTree) (kept : Kept plan s) :
    Kept plan ((plan.party listeners answers panics).run tree s).state := by
  have invariant : Invariant (Kept (ℓ := ℓ) plan) :=
    Session.Reachable.invariant.and (.own (Chronicle.Follows plan))
  refine Invariant.attended (fun answer controls s kept => ?_)
    (invariant.run (.any _) (fun listener event s _ => kept_react plan listener event s) tree kept)
  obtain rfl := Option.some.inj controls
  exact kept_answer plan none kept

end Plan

variable [DecidableEq ℓ]

section Cut
variable {ε : Type} {tree : CallTree} {s s' t t' : Chronicled ε ℓ} {stays others : List Stay}
  {notes more : List (Note ℓ)} {rest : List StepMode}

/-- Of two runs that complete from one watch neither takes more commands. -/
theorem Completed.no_more_commands (completed : Completed tree s stays notes s')
    (other : Completed tree t others more t') (steady : ∀ note ∈ notes, note.Steady)
    (steady' : ∀ note ∈ more, note.Steady) (watch : t.watch = s.watch)
    (modes : stays.map Stay.mode = others.map Stay.mode ++ rest) : rest = [] := by
  have whole := completed.progress steady [] []
  have part := other.progress steady' rest []
  rw [List.append_nil, modes, ← watch, part] at whole
  exact congrArg Progress.commands whole

/-- A run that is interrupted makes the stops of the run that takes more commands. -/
theorem Completed.stops_of_interrupted {before : List Turn} {stop : Stop}
    (completed : Completed tree s stays notes s')
    (interrupted : Interrupted tree t before others stop more t')
    (steady : ∀ note ∈ notes, note.Steady) (steady' : ∀ note ∈ more, note.Steady)
    (watch : t.watch = s.watch) (modes : stays.map Stay.mode = others.map Stay.mode ++ rest) :
    others.map Stay.stop ++ [stop] <+: stays.map Stay.stop := by
  obtain ⟨behind, split⟩ := interrupted.split
  obtain ⟨w, reason, part⟩ := interrupted.progress steady'
  have whole := completed.progress steady [] []
  have visits : tree.visits = Turn.visits before ++ stop.visit :: Turn.visits behind := by
    rw [CallTree.visits, split, Turn.visits_append]
    rfl
  rw [List.append_nil, modes, ← watch, visits, List.foldl_append, part, List.foldl_cons,
    Progress.visit_of_some reason] at whole
  have later := Progress.stops_foldl (Turn.visits behind)
    (Progress.stop ⟨w, rest, [] ++ others.map Stay.stop⟩ stop.reason stop.visit)
  rw [whole] at later
  exact later

end Cut

namespace Plan
variable {plan : Plan} {tree : CallTree} {stays others : List Stay} {config : Config}
  {breakpoints : Store} {steps : Steps} {listeners : List ℓ} {answers : ℓ → Bool}
  {panics : ℓ → Event → Option Panic} {commands : List StepMode}

theorem Meets.grants (meets : Meets plan stays) (previewLength : Nat) :
    stays.map (Stay.grant previewLength) =
      (stays.map Stay.stop).mapIdx fun i stop => stop.grant (plan i) previewLength := by
  refine List.ext_getElem (by simp) fun i inside _ => ?_
  rw [List.length_map] at inside
  simp [Stay.grant, meets i inside]

theorem Meets.grants_interrupt (meets : Meets (plan.interruptAt stays.length) stays) (stop : Stop)
    (previewLength : Nat) :
    stays.map (Stay.grant previewLength) ++ [stop.grant .interrupt previewLength] =
      (stays.map Stay.stop ++ [stop]).mapIdx fun i stop =>
        stop.grant (plan.interruptAt stays.length i) previewLength := by
  have last : plan.interruptAt stays.length stays.length = .interrupt := if_pos rfl
  rw [meets.grants, List.mapIdx_concat, List.length_map, last]

theorem Meets.modes (meets : Meets (ofCommands commands) stays) :
    stays.map Stay.mode = (List.range stays.length).map fun i => commands.getD i .continue := by
  refine List.ext_getElem (by simp) fun i inside _ => ?_
  rw [List.length_map] at inside
  have same := Demand.command.inj (meets i inside)
  simp [← same]

/-- Commands that follow a plan with an interrupt follow the plan, and stop short of it. -/
theorem Meets.of_interruptAt {k : Nat} (meets : Meets (plan.interruptAt k) stays) :
    stays.length ≤ k ∧ Meets plan stays := by
  have short : stays.length ≤ k := Nat.le_of_not_lt fun longer => by
    have clash := meets k longer
    rw [interruptAt, if_pos rfl] at clash
    contradiction
  refine ⟨short, fun i inside => ?_⟩
  have other := meets i inside
  rwa [interruptAt, if_neg (Nat.ne_of_lt (Nat.lt_of_lt_of_le inside short))] at other

theorem Meets.modes_append (meets : Meets (ofCommands commands) stays)
    (meets' : Meets (ofCommands commands) others) (fewer : others.length ≤ stays.length) :
    ∃ rest, stays.map Stay.mode = others.map Stay.mode ++ rest ∧
      rest.length = stays.length - others.length := by
  obtain ⟨more, length⟩ := Nat.exists_eq_add_of_le fewer
  rw [meets.modes, meets'.modes, length, List.range_add, List.map_append]
  exact ⟨_, rfl, by simp⟩

/-- A planned run completes, or is interrupted where the plan says so. -/
theorem party_ends (plan : Plan) (tree : CallTree) (listeners : List ℓ) (answers : ℓ → Bool)
    (panics : ℓ → Event → Option Panic) (config : Config) (breakpoints : Store) (steps : Steps) :
    let p := plan.party listeners answers panics
    let s := p.session config breakpoints steps
    (∃ stays s', p.recordedRun tree s = .finished (.ok tree.main.size, tree.hookCalls) s' ∧
        Completed tree s stays s'.notes s' ∧ (∀ note ∈ s'.notes, note.Steady) ∧
        Meets plan stays) ∨
      ∃ before stays stop s', p.recordedRun tree s = .finished (.error .interrupted,
          tree.hookCallsOf (before ++ [.enter stop.visit])) s' ∧
        Interrupted tree s before stays stop s'.notes s' ∧ (∀ note ∈ s'.notes, note.Steady) ∧
        Meets plan stays ∧ plan stays.length = .interrupt := by
  intro p s
  have answered : ¬ (p.run tree s).Waits := Party.not_waits_of_controller rfl
    (fun s pause outstanding => (plan.answer_outstanding none outstanding).1) rfl
  have kept : Kept plan (p.run tree s).state :=
    kept_run plan tree (kept_session plan listeners answers panics config breakpoints steps)
  obtain ⟨stays, s', outcome, completed⟩ | ⟨before, stays, stop, s', outcome, interrupted⟩ :=
    Party.answered_ends rfl rfl answered
  · rw [Party.run_of_finished outcome] at kept
    have granted : grants s'.notes = stays.map (Stay.grant s.previewLength) ++ [] := by
      rw [completed.grants, List.append_nil]
    exact .inl ⟨stays, s', outcome, completed, kept.2.steady, meets_of_grants kept.2 granted⟩
  · rw [Party.run_of_finished outcome] at kept
    have interrupts : (grants s'.notes)[stays.length]? =
        some (stop.grant .interrupt s.previewLength) := by
      rw [interrupted.grants, List.getElem?_append_right (by simp), List.length_map, Nat.sub_self]
      rfl
    exact .inr ⟨before, stays, stop, s', outcome, interrupted, kept.2.steady,
      meets_of_grants kept.2 interrupted.grants, (follows_at kept.2 interrupts).symm⟩

theorem commanded_completes (commands : List StepMode) (tree : CallTree) (listeners : List ℓ)
    (answers : ℓ → Bool) (panics : ℓ → Event → Option Panic) (config : Config)
    (breakpoints : Store) (steps : Steps) :
    let p := (ofCommands commands).party listeners answers panics
    let s := p.session config breakpoints steps
    ∃ stays s', p.recordedRun tree s = .finished (.ok tree.main.size, tree.hookCalls) s' ∧
      Completed tree s stays s'.notes s' ∧ (∀ note ∈ s'.notes, note.Steady) ∧
      Meets (ofCommands commands) stays := by
  obtain completes | ⟨-, stays, -, -, -, -, -, -, interrupts⟩ :=
    (ofCommands commands).party_ends tree listeners answers panics config breakpoints steps
  · exact completes
  · contradiction

/-- The run with the interrupt is interrupted, and makes the stops of the other one until
then. -/
theorem interrupted_at (listeners : List ℓ) (answers : ℓ → Bool)
    (panics : ℓ → Event → Option Panic) (config : Config) (breakpoints : Store) (steps : Steps)
    {k : Nat} {s s' : Chronicled Nat ℓ} {notes : List (Note ℓ)}
    (completed : Completed tree s stays notes s') (steady : ∀ note ∈ notes, note.Steady)
    (meets : Meets (ofCommands commands) stays) (reached : k < stays.length) :
    let plan := (ofCommands commands).interruptAt k
    let p := plan.party listeners answers panics
    let t := p.session config breakpoints steps
    t.watch = s.watch →
    ∃ before others stop behind t', p.recordedRun tree t = .finished (.error .interrupted,
        tree.hookCallsOf (before ++ [.enter stop.visit])) t' ∧
      Interrupted tree t before others stop t'.notes t' ∧ (∀ note ∈ t'.notes, note.Steady) ∧
      Meets plan others ∧ others.length = k ∧
      stays.map Stay.stop = others.map Stay.stop ++ stop :: behind := by
  intro plan p t watch
  obtain ⟨others, t', outcome, other, steady', meets'⟩ |
      ⟨before, others, stop, t', outcome, interrupted, steady', meets', interrupts⟩ :=
    plan.party_ends tree listeners answers panics config breakpoints steps
  · -- Both runs would fold the same visits to the end, and the other one takes more commands.
    obtain ⟨short, commanded⟩ := meets'.of_interruptAt
    obtain ⟨rest, modes, length⟩ := meets.modes_append commanded (by omega)
    obtain rfl := completed.no_more_commands other steady steady' watch modes
    rw [List.length_nil] at length
    omega
  · obtain ⟨short, commanded⟩ := meets'.of_interruptAt
    have last : others.length = k := by
      by_cases same : others.length = k
      · exact same
      · change (if others.length = k then _ else _) = _ at interrupts
        rw [if_neg same] at interrupts
        contradiction
    obtain ⟨rest, modes, -⟩ := meets.modes_append commanded (by omega)
    obtain ⟨behind, whole⟩ :=
      completed.stops_of_interrupted interrupted steady steady' watch modes
    rw [List.append_assoc, List.singleton_append] at whole
    exact ⟨before, others, stop, behind, t', outcome, interrupted, steady', meets', last,
      whole.symm⟩

/-- A run whose pauses are answered with commands completes. Interrupting one of its pauses
instead cuts the run off there: the pauses are the same up to that one, no call is made to
the hook behind that entry but for the end, the pause is not reported as resumed, and the
breakpoints and the stepping stay as they are at the pause. -/
theorem interrupted_run_is_cut (tree : CallTree) (listeners : List ℓ) (answers : ℓ → Bool)
    (panics : ℓ → Event → Option Panic) (config : Config) (breakpoints : Store) (steps : Steps)
    (commands : List StepMode) :
    let n := config.previewLength
    let full := (ofCommands commands).party listeners answers panics
    ∃ (stops : List Stop) (s : Chronicled Nat ℓ) (rounds : List (Round ℓ)),
      full.run tree (full.session config breakpoints steps) =
        .finished (.ok tree.main.size) s ∧
      grants s.notes = (stops.mapIdx fun i stop => stop.grant (ofCommands commands i) n) ∧
      Rounds listeners config.listenerFailure (tree.log n stops none) s.notes rounds ∧
      ∀ k (reached : k < stops.length),
        let plan := (ofCommands commands).interruptAt k
        let cut := plan.party listeners answers panics
        let fresh := cut.session config breakpoints steps
        ∃ (s' : Chronicled Nat ℓ) (rounds : List (Round ℓ)) (before behind : List Turn),
          cut.run tree fresh = .finished (.error .interrupted) s' ∧
          grants s'.notes =
            ((stops.take (k + 1)).mapIdx fun i stop => stop.grant (plan i) n) ∧
          Rounds listeners config.listenerFailure
            (tree.log n (stops.take k) (some stops[k])) s'.notes rounds ∧
          tree.turns = before ++ .enter stops[k].visit :: behind ∧
          cut.recordedRun tree fresh = .finished (.error .interrupted,
            tree.hookCallsOf (before ++ [.enter stops[k].visit])) s' ∧
          s'.isPaused = false ∧ s'.isActive = false ∧ (Session.interrupt s').1 = false ∧
          ∃ (s₁ : Chronicled Nat ℓ) (earlier later : List (Note ℓ)),
            s'.notes = earlier ++ later ∧
            Passage fresh (.started tree.main.expression ::
              (stops.take k).flatMap fun stop => [stop.event n, .resumed]) earlier s₁ ∧
            Passage s₁ [stops[k].event n, .ended tree.main.expression] later s' ∧
            grants later = [stops[k].grant .interrupt n] ∧
            ∀ note ∈ later, ∀ st ∈ note.standings,
              st.breakpoints = s'.breakpoints ∧ st.steps = s'.steps := by
  intro n full
  obtain ⟨stays, s, outcome, completed, steady, meets⟩ :=
    commanded_completes commands tree listeners answers panics config breakpoints steps
  obtain ⟨rounds, rounded⟩ := completed.rounds
  refine ⟨stays.map Stay.stop, s, rounds, Party.run_of_finished outcome, ?_, rounded, ?_⟩
  · rw [completed.grants, meets.grants]
    rfl
  intro k reached plan cut fresh
  rw [List.length_map] at reached
  obtain ⟨before, others, stop, tail, s', outcome', interrupted, steady', meets', rfl, stops⟩ :=
    interrupted_at listeners answers panics config breakpoints steps completed steady meets
      reached rfl
  obtain ⟨rounds', rounded'⟩ := interrupted.rounds
  obtain ⟨behind, split⟩ := interrupted.split
  obtain ⟨s₁, earlier, later, noted, first, second, granted, still⟩ := interrupted.still
  have inside : others.length < (stays.map Stay.stop).length := by rwa [List.length_map]
  have here : (stays.map Stay.stop)[others.length] = stop := by simp [stops]
  have front : (stays.map Stay.stop).take others.length = others.map Stay.stop := by
    simp [stops]
  have upTo : (stays.map Stay.stop).take (others.length + 1) = others.map Stay.stop ++ [stop] := by
    rw [stops, List.append_cons, List.take_left' (by simp)]
  have demanded : grants s'.notes = (others.map Stay.stop ++ [stop]).mapIdx fun i stop =>
      stop.grant (plan i) n := by
    rw [interrupted.grants]
    exact meets'.grants_interrupt stop n
  have unpaused : s'.isPaused = false := by
    rw [Engine.isPaused, interrupted.free]
    rfl
  have again : (Session.interrupt s').1 = false := by
    rw [Session.interrupt_free interrupted.free]
  have opening : Passage fresh (.started tree.main.expression ::
      (others.map Stay.stop).flatMap fun stop => [stop.event n, .resumed]) earlier s₁ := by
    rw [List.flatMap_map]
    exact first
  have quiet : ∀ note ∈ later, note.Steady := by
    intro note member
    apply steady'
    rw [noted]
    exact List.mem_append_right earlier member
  simp only [here, front, upTo]
  exact ⟨s', rounds', before, behind, Party.run_of_finished outcome', demanded, rounded', split,
    outcome', unpaused, interrupted.inactive, again, s₁, earlier, later, noted, opening, second,
    granted, still quiet⟩

/-- Of three pauses the second is interrupted by a listener that breaks off behind it; a
listener in front of it breaks off every time. -/
example :
    let leaf := Call.mk (some "leaf") none none [] [] []
    let tree : CallTree := ⟨.mk (some "main") none none [] [] [leaf, leaf]⟩
    let demands (plan : Plan) : List Demand :=
      let p := plan.party [0, 1] (fun listener => listener == 1) fun _ _ => some .payload
      (grants (p.run tree (p.session {} {} { mode := .into })).state.notes).map Grant.demand
    let plan := ofCommands [.into, .over]
    demands plan = [.command .into, .command .over, .command .continue] ∧
      demands (plan.interruptAt 1) = [.command .into, .interrupt] := by
  decide +kernel

end Plan
end Debugger
