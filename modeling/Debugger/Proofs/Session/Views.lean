import Debugger.Proofs.CallTree.Views
import Debugger.Proofs.Session.Steps

/-! Main statement: the view at a pause is that of the call paused at and of the calls above
it, be it handed to a listener, asked for by the listener while it is told, or asked for by
a controller that finds the program parked. -/
namespace Debugger

namespace Session
variable {ε ℓ α β : Type}

/-- The sessions that the controller of an attended run finds parked, in order. -/
def found (answer : Session ε ℓ → Session ε ℓ) : Run (Session ε ℓ) α → List (Session ε ℓ)
  | .finished _ _ => []
  | .parked pause s resume =>
      s :: match (Engine.slot (answer s) pause.slot).signal with
        | none => []
        | some r => found answer (resume r (answer s))

theorem found_bind {answer : Session ε ℓ → Session ε ℓ} {run : Run (Session ε ℓ) α} {result : α}
    {s : Session ε ℓ} (next : α → Session ε ℓ → Run (Session ε ℓ) β)
    (ends : attended (some answer) run = .finished result s) :
    found answer (run.bind next) = found answer run ++ found answer (next result s) := by
  induction run with
  | finished first found =>
      simp only [attended, Run.finished.injEq] at ends
      obtain ⟨rfl, rfl⟩ := ends
      rfl
  | parked pause parked resume ih =>
      simp only [attended] at ends
      simp only [Run.bind_parked, found, List.cons_append]
      cases signal : (Engine.slot (answer parked) pause.slot).signal with
      | none => simp [signal] at ends
      | some r =>
          simp only [signal] at ends
          exact congrArg (parked :: ·) (ih r (answer parked) ends)

end Session

namespace Player
open Session
variable {n : Nat} {s : Played} {t : Tour}

/-- Keeps what the session shows when it is asked, in place of what it is told. -/
def asking : Reaction (StateM Played) Unit
  | (), .paused expression reason _ => modifyGet fun s =>
      (none, match Session.snapshot s with
        | .ok snapshot => hear expression reason snapshot s
        | .error _ => s)
  | (), _ => return none

theorem after_asking_paused (v : Visit) (reason : StopReason) (heard : s.listeners = [()]) :
    after asking (.paused v.call.expression reason (s.view v.call.expression v.level))
        (s.install v.call.expression reason v.level) =
      after react (.paused v.call.expression reason (s.view v.call.expression v.level))
        (s.install v.call.expression reason v.level) := by
  have heard : listeners (s.install v.call.expression reason v.level) = [()] := heard
  -- The pause is installed before it is told, so the session shows the view handed over.
  rw [after_single asking _ heard rfl, after_single react _ heard rfl]
  rfl

theorem tell_asking_resumed (policy : FailurePolicy) (position : Nat) (listeners : List Unit)
    (s : Played) :
    tell asking policy .resumed position listeners s =
      tell react policy .resumed position listeners s := by
  induction listeners generalizing position with
  | nil => rfl
  | cons listener rest ih =>
      rw [tell_cons, tell_cons]
      exact ih (position + 1)

theorem goOn_asking : Engine.goOn (asHost asking) = Engine.goOn (asHost react) := by
  funext pause r s
  cases r with
  | interrupted => rfl
  | resumed =>
      let left : Played := Engine.leave pause .resumed s
      exact congrArg (Run.finished (Except.ok ()))
        (tell_asking_resumed left.config.listenerFailure 0 left.listeners left)

theorem pause_asking (v : Visit) (reason : StopReason) (heard : s.listeners = [()]) :
    Engine.pause (asHost asking) v.call.expression reason v.level s =
      Engine.pause (asHost react) v.call.expression reason v.level s := by
  rw [pause_eq, pause_eq, after_asking_paused v reason heard, Engine.await, Engine.await,
    goOn_asking]

/-- A listener that asks at each pause is told what it finds out. -/
theorem take_asking (turn : Turn) (heard : s.listeners = [()]) :
    turn.take (hook asking) s = turn.take (hook react) s := by
  cases turn with
  | exit call => rw [take_exit, take_exit]
  | enter v =>
      obtain ⟨noted, decided⟩ := Engine.decide_eq v (s.captureContext v.context)
      change Engine.enter (asHost asking) v.call.expression v.level (s.captureContext v.context) =
        Engine.enter (asHost react) v.call.expression v.level (s.captureContext v.context)
      simp only [Engine.enter, bind, Thread.step, decided]
      cases (Engine.captureContext v.context s).watch.reason v with
      | none => rfl
      | some reason => exact pause_asking v reason heard

theorem attended_asking (turns : List Turn) (going : t.abandoned = false)
    (follows : Follows n s t) :
    attended (some answer) (Turn.takeAll (hook asking) turns s) =
      attended (some answer) (Turn.takeAll (hook react) turns s) := by
  induction turns generalizing s t with
  | nil => simp only [Turn.takeAll]
  | cons turn rest ih =>
      rw [takeAll_cons, takeAll_cons, take_asking turn follows.heard]
      cases turn with
      | exit call =>
          rw [take_exit, Run.bind_finished, Run.bind_finished]
          exact ih going (follows.exited call.expression)
      | enter v =>
          obtain ⟨s₁, taken, follows₁⟩ := enter_follows v going (.inr rfl) follows
          rw [attended_bind _ taken, attended_bind _ taken]
          cases going₁ : (t.visit v).abandoned with
          | false =>
              simp only [Tour.verdict, going₁]
              exact ih going₁ follows₁
          | true => simp only [Tour.verdict, going₁, if_true, onward]

theorem found_pause (v : Visit) (reason : StopReason) (heard : s.listeners = [()]) :
    found answer (Engine.pause (asHost react) v.call.expression reason v.level s) =
      if s.host.own.next.inside then [] else [pausedAt v reason s] := by
  have released := signal_answer_pausedAt v reason s
  have told := after_paused v.call.expression reason (s.view v.call.expression v.level)
    (show listeners (s.install v.call.expression reason v.level) = [()] from heard)
  have still : listeners (answer (pausedAt v reason s)) = [()] := by
    obtain ⟨noted, answered⟩ := answer_pausedAt v reason s
    rw [answered]
    exact heard
  by_cases inside : s.host.own.next.inside
  · have answered := told.trans (if_pos inside : _ = answer (pausedAt v reason s))
    rw [pause_eq, answered, Engine.await_of_signal released, goOn_heard _ _ still, if_pos inside]
    rfl
  · have waits := told.trans (if_neg inside : _ = pausedAt v reason s)
    have unreleased := congrArg Slot.signal (outstanding_pausedAt v reason s).slot
    rw [pause_eq, waits, Engine.await_of_none unreleased, if_neg inside]
    simp only [found, released, goOn_heard _ _ still]

/-- What the session shows a controller at halts: those that a listener answers it does not
find. -/
def shown (previewLength : Nat) (halts : List Halt) : List (Except DebugError Snapshot) :=
  (halts.filter (!·.answer.inside)).map fun h => .ok (h.snapshot previewLength)

theorem shown_append (first second : List Halt) :
    shown n (first ++ second) = shown n first ++ shown n second := by
  rw [shown, List.filter_append, List.map_append]
  rfl

theorem enter_found (v : Visit) (going : t.abandoned = false) (follows : Follows n s t) :
    ∃ here, (t.visit v).halts = t.halts ++ here ∧
      (found answer ((Turn.enter v).take (hook react) s)).map Session.snapshot =
        shown n here := by
  obtain ⟨noted, entered⟩ := take_enter react v s
  rw [entered, follows.watch]
  cases reason : t.watch.reason v with
  | none =>
      rw [Tour.visit_of_none going reason]
      exact ⟨[], (List.append_nil _).symm, rfl⟩
  | some why =>
      rw [Tour.visit_of_some going reason]
      refine ⟨[t.halt why v], rfl, ?_⟩
      have next : (passed v noted s).host.own.next = (t.halt why v).answer :=
        congrArg (·.headD (.now .continue)) follows.answers
      have view : (passed v noted s).view v.call.expression v.level =
          (t.halt why v).snapshot n := by
        rw [← follows.previews]
        rfl
      have asked : Session.snapshot (pausedAt v why (passed v noted s)) =
          .ok ((t.halt why v).snapshot n) := congrArg Except.ok view
      have paused : found answer (Engine.pause (asHost react) v.call.expression why v.level
          (passed v noted s)) = if (t.halt why v).answer.inside then [] else
            [pausedAt v why (passed v noted s)] :=
        next ▸ found_pause v why follows.heard
      refine (congrArg (List.map Session.snapshot) paused).trans ?_
      rw [shown]
      cases inside : (t.halt why v).answer.inside with
      | true => simp [inside]
      | false => simp [inside, asked]

/-- The program is found parked at the halts that are answered from outside, and shows what
they show. -/
theorem takeAll_found (turns : List Turn) (going : t.abandoned = false)
    (follows : Follows n s t) :
    ∃ later, ((Turn.visits turns).foldl Tour.visit t).halts = t.halts ++ later ∧
      (found answer (Turn.takeAll (hook react) turns s)).map Session.snapshot =
        shown n later := by
  induction turns generalizing s t with
  | nil => exact ⟨[], (List.append_nil _).symm, rfl⟩
  | cons turn rest ih =>
      rw [takeAll_cons]
      cases turn with
      | exit call =>
          exact ih going (follows.exited call.expression)
      | enter v =>
          obtain ⟨s₁, taken, follows₁⟩ := enter_follows v going (.inr rfl) follows
          obtain ⟨here, halts, asked⟩ := enter_found v going follows
          rw [found_bind _ taken, List.map_append, asked, Turn.visits, List.foldl_cons]
          cases going₁ : (t.visit v).abandoned with
          | false =>
              obtain ⟨later, others, asked₁⟩ := ih going₁ follows₁
              refine ⟨here ++ later, ?_, ?_⟩
              · rw [others, halts, List.append_assoc]
              · rw [shown_append, ← asked₁]
                simp only [Tour.verdict, going₁]
                rfl
          | true =>
              refine ⟨here, ?_, ?_⟩
              · rw [Tour.foldl_visit_abandoned going₁, halts]
              · simp only [Tour.verdict, going₁]
                exact List.append_nil _

section Run
variable (tree : CallTree) (config : Config) (breakpoints : Store) (steps : Steps)
  (answers : List Answer)

theorem follows_started :
    Follows config.previewLength
      (started react tree.main.expression (session config breakpoints steps answers))
      { watch := ⟨breakpoints, steps.mode, steps.recordedDepth⟩, answers } := by
  rw [started, after_single react _ rfl rfl]
  exact ⟨rfl, rfl, rfl, rfl, rfl, rfl⟩

theorem run_asking :
    attended (some answer)
        (tree.run (hook asking) (session config breakpoints steps answers)) =
      attended (some answer)
        (tree.run (hook react) (session config breakpoints steps answers)) := by
  have start := follows_started tree config breakpoints steps answers
  obtain ⟨s, taken, follows⟩ := takeAll_follows tree.turns rfl (.inr rfl) start
  have asked := (attended_asking tree.turns rfl start).trans taken
  have closing : listeners (Engine.note [.executionEnded tree.main.expression]
      (s.setActive false)) = [()] := follows.heard
  have opening : started asking tree.main.expression (session config breakpoints steps answers) =
      started react tree.main.expression (session config breakpoints steps answers) := by
    rw [started, started, after_single asking _ rfl rfl, after_single react _ rfl rfl]
    rfl
  have ending : ended asking tree.main.expression s = ended react tree.main.expression s := by
    rw [ended, ended, after_single asking _ closing rfl, after_single react _ closing rfl]
    rfl
  rw [run_eq, run_eq, opening, attended_bind _ taken, attended_bind _ asked, ending]

theorem found_run :
    (found answer (tree.run (hook react) (session config breakpoints steps answers))).map
        Session.snapshot =
      shown config.previewLength
        (tree.tour ⟨breakpoints, steps.mode, steps.recordedDepth⟩ answers).halts := by
  have start := follows_started tree config breakpoints steps answers
  obtain ⟨s, taken, -⟩ := takeAll_follows tree.turns rfl (.inr rfl) start
  obtain ⟨later, halts, asked⟩ := takeAll_found tree.turns rfl start
  rw [run_eq, found_bind _ taken, List.map_append, asked]
  refine (List.append_nil _).trans (congrArg (shown config.previewLength) ?_)
  exact halts.symm

end Run

theorem exists_halted {tree : CallTree} {w : Watch} {answers : List Answer} {h : Halt}
    (halted : h ∈ (tree.tour w answers).halts) :
    ∃ p above, Place.Ancestry tree.main p above ∧ p.position = h.position := by
  obtain ⟨j, found⟩ := List.getElem?_of_mem halted
  obtain ⟨_, behind⟩ := CallTree.exists_behind found
  obtain ⟨inside, -⟩ := List.getElem?_eq_some_iff.mp behind.visit
  rw [CallTree.length_visits] at inside
  obtain ⟨p, within, place⟩ := Place.Within.root.exists_below h.position inside
  obtain ⟨above, ancestry⟩ := within.exists_ancestry
  exact ⟨p, above, ancestry, place.trans (Nat.zero_add _)⟩

/-- The view at a halt is that of the place where the program halts. -/
theorem halt_shows {tree : CallTree} {w : Watch} {answers : List Answer} {h : Halt} {p : Place}
    {above : List Call} (halted : h ∈ (tree.tour w answers).halts)
    (ancestry : p.Ancestry tree.main above) (place : p.position = h.position) :
    (h.snapshot n).Shows (p.call :: above) := by
  obtain ⟨j, found⟩ := List.getElem?_of_mem halted
  obtain ⟨_, behind⟩ := CallTree.exists_behind found
  have visited := behind.visit
  rw [← place] at visited
  have visit : h.visit = ⟨p.call, above.head?.map Call.expression,
      Context.along (p.call :: above).reverse⟩ :=
    Option.some.inj (visited.symm.trans ancestry.visit_eq)
  have level : Visit.level h.visit = (p.call :: above).length := by
    rw [← ancestry.level_eq]
    exact (CallTree.visit_at ancestry.within visited).1.symm
  have same : h.snapshot n = ⟨(p.call :: above).head?.map Call.expression,
      Context.along (p.call :: above).reverse, (p.call :: above).length, n⟩ := by
    rw [Stop.snapshot, level, visit]
    rfl
  rw [same]
  exact Snapshot.shows_along (p.call :: above) n

/-- At every halt of a program its listener, told or asking, and its controller see the call
halted at and the calls above it, and those of no other place. -/
theorem views_show_halted_call (tree : CallTree) (config : Config) (breakpoints : Store)
    (steps : Steps) (answers : List Answer) :
    let n := config.previewLength
    let fresh := session config breakpoints steps answers
    let tour := tree.tour ⟨breakpoints, steps.mode, steps.recordedDepth⟩ answers
    let result := tour.verdict.map fun () => tree.main.size
    ∃ s, Session.attended (some answer) (tree.run (Session.hook react) fresh) =
        .finished result s ∧
      Session.attended (some answer) (tree.run (Session.hook asking) fresh) =
        .finished result s ∧
      s.host.own.told = tour.halts.map (fun h => h.told n) ∧
      (Session.found answer (tree.run (Session.hook react) fresh)).map Session.snapshot =
        (tour.halts.filter (!·.answer.inside)).map (fun h => .ok (h.snapshot n)) ∧
      ∀ h ∈ tour.halts,
        (∃ p above, Place.Ancestry tree.main p above ∧ p.position = h.position) ∧
        ∀ p above, Place.Ancestry tree.main p above → p.position = h.position →
          (tree.main.preorder 1)[h.position]? = some (p.level, p.call) ∧
          p.level = (p.call :: above).length ∧
          (h.told n).expression = p.call.expression ∧
          (h.snapshot n).frames.length = p.level ∧
          (h.snapshot n).Shows (p.call :: above) := by
  intro n fresh tour result
  obtain ⟨s, ran, follows⟩ := run_follows tree config breakpoints steps
    (.inr rfl : Attended (some answer) answers)
  have asked := (run_asking tree config breakpoints steps answers).trans ran
  refine ⟨s, ran, asked, follows.told, found_run tree config breakpoints steps answers,
    fun h halted => ⟨exists_halted halted, fun p above ancestry place => ?_⟩⟩
  have shows := halt_shows (n := n) halted ancestry place
  refine ⟨place ▸ ancestry.preorder_eq, ancestry.level_eq, Option.some.inj shows.expression, ?_,
    shows⟩
  rw [shows.frames, List.length_mapIdx, ancestry.level_eq]

/-- A program halts at a call inside a generic one that binds the same name. The controller
finds it parked there, and both bindings are in view. -/
theorem views_show_call_inside_generic :
    let inner := Call.mk none (some "f") none [("x", .integer 2)] [] []
    let outer := Call.mk (some "main") none none [("x", .integer 1)] [("T", "Integer")] [inner]
    let tree : CallTree := ⟨outer⟩
    let answers : List Answer := [.now .into, ⟨false, [], some .continue⟩]
    ∃ snapshot, (Session.found answer (tree.run (Session.hook react)
        (session {} {} { mode := .into } answers))).map Session.snapshot = [.ok snapshot] ∧
      snapshot.frames.map Frame.functionName = ["f", "main"] ∧
      snapshot.visibleVariables.map (fun v => (v.name, v.value)) =
        [("x", some (.integer 2)), ("x", some (.integer 1))] ∧
      snapshot.context.typeParameters = [[("T", .opaqueText "Integer")]] := by
  intro inner outer tree answers
  obtain ⟨s, -, -, -, found, halts⟩ :=
    views_show_halted_call tree {} {} { mode := .into } answers
  have place : Place.Ancestry tree.main ⟨inner, 2, 1, 2⟩ [outer] :=
    @Place.Ancestry.child _ _ _ [] [] _ .root rfl
  obtain ⟨h, halted, position, asked⟩ :
      ∃ h ∈ (tree.tour ⟨{}, .into, 0⟩ answers).halts, h.position = 1 ∧
        (tree.tour ⟨{}, .into, 0⟩ answers).halts.filter (!·.answer.inside) = [h] :=
    ⟨_, List.mem_cons_of_mem _ List.mem_cons_self, rfl, rfl⟩
  obtain ⟨-, -, -, -, shows⟩ := (halts h halted).2 _ _ place position.symm
  refine ⟨_, found.trans (congrArg (List.map _) asked), shows.names, ?_, shows.typeParameters⟩
  exact shows.values (by decide)

end Player
end Debugger
