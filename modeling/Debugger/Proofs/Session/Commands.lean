import Debugger.Proofs.Session.Touring

/-! Main statement: a program whose pauses a listener answers with commands runs as a
plain fold over its calls in preorder. -/
namespace Debugger

/-- A tour is as far as a fold whose answers are a listener's commands. -/
structure Commanded (t : Tour) (p : Progress) : Prop where
  watch : t.watch = p.watch
  answers : t.answers = p.commands.map Answer.now
  stops : t.halts.map (fun h => h.toStop) = p.stops
  going : t.abandoned = false

theorem Commanded.visit {t : Tour} {p : Progress} (commanded : Commanded t p) (v : Visit) :
    Commanded (t.visit v) (p.visit v) := by
  obtain ⟨watch, answers, stops, going⟩ := commanded
  have next : t.next = .now (p.commands.headD .continue) := by
    rw [Tour.next, answers]
    cases p.commands <;> rfl
  cases reason : p.watch.reason v with
  | none =>
      rw [Tour.visit_of_none going (watch ▸ reason), Progress.visit_of_none reason]
      exact ⟨congrArg (Watch.pass · v) watch, answers, stops, going⟩
  | some why =>
      rw [Tour.visit_of_some going (watch ▸ reason), Progress.visit_of_some reason]
      refine ⟨?_, ?_, ?_, ?_⟩
      · rw [Tour.stop, Tour.halt, next, watch]
        rfl
      · rw [Tour.stop, Progress.stop, answers, List.map_tail]
      · rw [Tour.stop, List.map_append, stops]
        rfl
      · rw [Tour.stop, next]
        rfl

theorem Commanded.foldl {t : Tour} {p : Progress} (commanded : Commanded t p)
    (visits : List Visit) :
    Commanded (visits.foldl Tour.visit t) (visits.foldl Progress.visit p) := by
  induction visits generalizing t p with
  | nil => exact commanded
  | cons v rest ih => exact ih (commanded.visit v)

/-- A run whose pauses a listener answers from a list of commands, and with
`continue` once the list is used up, is the fold over the calls in preorder: it
completes, the listener is told of the fold's stops, and the breakpoints and the
stepping are the fold's. -/
theorem Player.commanded_run_eq_fold (tree : CallTree) (config : Config) (breakpoints : Store)
    (steps : Steps) (commands : List StepMode) :
    let fold := tree.progress ⟨breakpoints, steps.mode, steps.recordedDepth⟩ commands
    tree.visits.map (fun v => (v.level, v.call)) = tree.main.preorder 1 ∧
    ∃ s, tree.run (Session.hook react) (session config breakpoints steps (commands.map .now)) =
        .finished (.ok tree.main.size) s ∧
      s.host.own.told = fold.stops.map (Stop.told config.previewLength) ∧
      s.breakpoints = fold.watch.breakpoints ∧
      s.steps.mode = fold.watch.mode ∧
      s.steps.recordedDepth = fold.watch.recordedDepth := by
  have attended : Attended none (commands.map Answer.now) := .inl fun a member => by
    obtain ⟨mode, _, rfl⟩ := List.mem_map.mp member
    rfl
  obtain ⟨s, run, follows⟩ := run_follows tree config breakpoints steps attended
  have commanded : Commanded
      (tree.tour ⟨breakpoints, steps.mode, steps.recordedDepth⟩ (commands.map .now))
      (tree.progress ⟨breakpoints, steps.mode, steps.recordedDepth⟩ commands) :=
    Commanded.foldl ⟨rfl, rfl, rfl, rfl⟩ tree.visits
  have watch := follows.watch.trans commanded.watch
  refine ⟨tree.visits_eq_preorder, s, ?_, ?_, congrArg Watch.breakpoints watch,
    congrArg Watch.mode watch, congrArg Watch.recordedDepth watch⟩
  · rw [Session.attended_none] at run
    rw [run, Tour.verdict, commanded.going]
    rfl
  · rw [follows.told, ← commanded.stops, List.map_map]
    rfl

end Debugger
