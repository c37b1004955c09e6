import Debugger.Proofs.Session.Player

/-! The run of an answered program is the tour of its calls: the pauses the listener
is told of, the breakpoints, the stepping and the result. -/
namespace Debugger.Player
open Session

/-- A played session is as far as a tour. -/
structure Follows (previewLength : Nat) (s : Played) (t : Tour) : Prop where
  watch : s.watch = t.watch
  answers : s.host.own.answers = t.answers
  told : s.host.own.told = t.halts.map fun h => h.told previewLength
  left : s.host.own.left = t.halts.map fun h => h.watch
  heard : s.listeners = [()]
  previews : s.previewLength = previewLength

/-- Somebody gives each answer: the listener all of them, or a controller the rest. -/
def Attended (controller : Option (Played → Played)) (answers : List Answer) : Prop :=
  (∀ a ∈ answers, a.inside = true) ∨ controller = some answer

variable {controller : Option (Played → Played)} {n : Nat} {s : Played} {t : Tour}

theorem Follows.exited (follows : Follows n s t) (expression : Expression) :
    Follows n (Engine.exited expression s) t :=
  ⟨follows.watch, follows.answers, follows.told, follows.left, follows.heard, follows.previews⟩

theorem Attended.next (attended : Attended controller t.answers) :
    t.next.inside = true ∨ controller = some answer := by
  refine attended.imp_left fun inside => ?_
  rw [Tour.next]
  cases answers : t.answers with
  | nil => rfl
  | cons first rest => exact inside first (answers ▸ List.mem_cons_self)

theorem Attended.visit (attended : Attended controller t.answers) (v : Visit) :
    Attended controller (t.visit v).answers := by
  refine attended.imp_left fun inside => ?_
  rw [Tour.visit]
  split
  · exact inside
  · split
    · exact inside
    · exact fun a member => inside a (List.mem_of_mem_tail member)

theorem pause_follows (v : Visit) (reason : StopReason)
    (present : t.next.inside = true ∨ controller = some answer)
    (context : s.context = v.context)
    (follows : Follows n s { t with watch := t.watch.pass v }) :
    ∃ s', attended controller
        (Engine.pause (asHost react) v.call.expression reason v.level s) =
          .finished (t.stop reason v).verdict s' ∧ Follows n s' (t.stop reason v) := by
  have next : s.host.own.next = t.next := congrArg (·.headD (.now .continue)) follows.answers
  obtain ⟨noted, answered⟩ := answer_pausedAt v reason s
  have heard : listeners (answer (pausedAt v reason s)) = [()] := by
    rw [answered]
    exact follows.heard
  rw [attended_pause v reason follows.heard (next ▸ present), goOn_heard _ _ heard, answered, next,
    follows.watch, Tour.verdict_stop]
  refine ⟨_, rfl, rfl, congrArg List.tail follows.answers, ?_, ?_, follows.heard,
    follows.previews⟩
  · change s.host.own.told ++
      [⟨v.call.expression, reason, s.view v.call.expression v.level⟩] = _
    rw [follows.told, Tour.stop, List.map_append, Engine.view, context, follows.previews]
    rfl
  · change s.host.own.left ++ [t.next.settle v.level (t.watch.pass v)] = _
    rw [follows.left, Tour.stop, List.map_append]
    rfl

theorem enter_follows (v : Visit) (going : t.abandoned = false)
    (present : t.next.inside = true ∨ controller = some answer) (follows : Follows n s t) :
    ∃ s', attended controller ((Turn.enter v).take (hook react) s) =
        .finished (t.visit v).verdict s' ∧ Follows n s' (t.visit v) := by
  obtain ⟨noted, entered⟩ := take_enter react v s
  rw [entered, follows.watch]
  have passing : Follows n (passed v noted s) { t with watch := t.watch.pass v } :=
    ⟨congrArg (Watch.pass · v) follows.watch, follows.answers, follows.told, follows.left,
      follows.heard, follows.previews⟩
  cases reason : t.watch.reason v with
  | none =>
      rw [Tour.visit_of_none going reason]
      refine ⟨passed v noted s, ?_, passing.watch, passing.answers, passing.told, passing.left,
        passing.heard, passing.previews⟩
      simp [attended, Tour.verdict, going]
  | some why =>
      rw [Tour.visit_of_some going reason]
      exact pause_follows v why present rfl passing

/-- Taking turns is touring their visits. -/
theorem takeAll_follows (turns : List Turn) (going : t.abandoned = false)
    (attended : Attended controller t.answers) (follows : Follows n s t) :
    ∃ s', Session.attended controller (Turn.takeAll (hook react) turns s) =
        .finished ((Turn.visits turns).foldl Tour.visit t).verdict s' ∧
      Follows n s' ((Turn.visits turns).foldl Tour.visit t) := by
  induction turns generalizing s t with
  | nil => exact ⟨s, by simp [Turn.visits, Tour.verdict, going]; rfl, follows⟩
  | cons turn rest ih =>
      cases turn with
      | exit call =>
          rw [takeAll_cons, take_exit, Run.bind_finished]
          exact ih going attended (follows.exited call.expression)
      | enter v =>
          obtain ⟨s₁, taken, follows₁⟩ := enter_follows v going attended.next follows
          rw [takeAll_cons, attended_bind _ taken]
          simp only [Turn.visits, List.foldl_cons]
          cases going₁ : (t.visit v).abandoned with
          | false =>
              simp only [Tour.verdict, going₁]
              exact ih going₁ (attended.visit v) follows₁
          | true =>
              rw [Tour.foldl_visit_abandoned going₁]
              exact ⟨s₁, by simp [Tour.verdict, going₁, onward, Session.attended], follows₁⟩

/-- The whole run of an answered program is its tour. -/
theorem run_follows (tree : CallTree) (config : Config) (breakpoints : Store) (steps : Steps)
    {answers : List Answer} (attended : Attended controller answers) :
    ∃ s, Session.attended controller
        (tree.run (hook react) (session config breakpoints steps answers)) =
          .finished ((tree.tour ⟨breakpoints, steps.mode, steps.recordedDepth⟩ answers).verdict.map
            fun () => tree.main.size) s ∧
      Follows config.previewLength s
        (tree.tour ⟨breakpoints, steps.mode, steps.recordedDepth⟩ answers) := by
  have start : Follows config.previewLength (started react tree.main.expression
      (session config breakpoints steps answers))
      { watch := ⟨breakpoints, steps.mode, steps.recordedDepth⟩, answers } := by
    rw [started, after_single react _ rfl rfl]
    exact ⟨rfl, rfl, rfl, rfl, rfl, rfl⟩
  obtain ⟨s, taken, follows⟩ := takeAll_follows tree.turns rfl attended start
  rw [run_eq, attended_bind _ taken]
  refine ⟨_, rfl, ?_⟩
  rw [ended, after_single react _ (by exact follows.heard) rfl]
  exact ⟨follows.watch, follows.answers, follows.told, follows.left, follows.heard,
    follows.previews⟩

end Debugger.Player
