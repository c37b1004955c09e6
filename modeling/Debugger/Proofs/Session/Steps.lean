import Debugger.Proofs.Session.Touring
import Debugger.Proofs.Stepping.Landing

/-! Main statement: where steps of a session end. After a step the program stops next
at the following call, behind the subtree of the call it stood at, or behind the
subtree of that call's parent, or else runs to its end. -/
namespace Debugger

namespace CallTree
variable {tree : CallTree} {w : Watch} {answers : List Answer} {j : Nat} {h : Halt}

theorem visit_at {p : Place} {v : Visit} (within : p.Within tree.main)
    (found : tree.visits[p.position]? = some v) : p.level = v.level ∧ p.call = v.call := by
  obtain ⟨before, siblings, after, whole, length, _, _⟩ := within.split
  have entry : (tree.main.preorder 1)[p.position]? = some (p.level, p.call) := by
    rw [whole, Call.preorder_eq, ← length]
    simp
  have same : some (v.level, v.call) = some (p.level, p.call) := by
    rw [← entry, ← visits_eq_preorder, List.getElem?_map, found]
    rfl
  obtain ⟨level, call⟩ := Prod.mk.inj (Option.some.inj same)
  exact ⟨level.symm, call.symm⟩

/-- The tour right behind its `j`-th halt. -/
structure Behind (tree : CallTree) (w : Watch) (answers : List Answer) (j : Nat) (h : Halt)
    (t : Tour) : Prop where
  visit : tree.visits[h.position]? = some h.visit
  answer : h.answer = answers[j]?.getD (.now .continue)
  settled : ∃ before : Watch, h.watch = h.answer.settle h.visit.level before
  watch : t.watch = h.watch
  entered : t.entered = h.position + 1
  halts : t.halts.length = j + 1
  abandoned : t.abandoned = h.answer.mode.isNone
  tour : tree.tour w answers = (tree.visits.drop (h.position + 1)).foldl Tour.visit t

theorem exists_behind (found : (tree.tour w answers).halts[j]? = some h) :
    ∃ t, Behind tree w answers j h t := by
  obtain ⟨before, v, rest, why, split, going, reason, last, rfl⟩ :=
    Tour.exists_visit tree.visits { watch := w, answers } (Nat.zero_le j) found
  have entered := Tour.entered_foldl before { watch := w, answers } going
  have taken : _ = answers.drop _ := Tour.answers_foldl before { watch := w, answers } rfl
  have toured : tree.tour w answers = (v :: rest).foldl Tour.visit
      (before.foldl Tour.visit { watch := w, answers }) := by
    rw [tour, split, List.foldl_append]
  generalize before.foldl Tour.visit { watch := w, answers } = t at *
  have position : t.entered = before.length := entered.trans (Nat.zero_add _)
  refine ⟨t.stop why v, ?_, ?_, ⟨_, rfl⟩, rfl, rfl, ?_, rfl, ?_⟩
  · rw [split, Tour.halt, position, List.getElem?_append_right (Nat.le_refl _), Nat.sub_self]
    rfl
  · rw [Tour.halt, Tour.next, taken, last, List.headD_eq_head?_getD, List.head?_drop]
  · rw [Tour.stop, List.length_append, last]
    rfl
  · rw [toured, List.foldl_cons, Tour.visit_of_some going reason, Tour.halt, position, split,
      ← List.drop_drop, List.drop_left]
    rfl

/-- A step from a halt ends at the target of its place, if the program gets there, and
stays pending if not. -/
theorem tour_step {p : Place} {mode : StepMode} {target : Nat}
    (found : (tree.tour w answers).halts[j]? = some h)
    (within : p.Within tree.main) (place : p.position = h.position)
    (answered : h.answer.mode = some mode) (aims : p.target mode = some target)
    (calm : ∀ v ∈ tree.visits.drop (h.position + 1),
      h.watch.breakpoints.Calm v.call.site) :
    (target < tree.main.size → ∃ next, (tree.tour w answers).halts[j + 1]? = some next ∧
      next.position = target ∧ next.reason = .step) ∧
    (tree.main.size ≤ target → (tree.tour w answers).halts.length = j + 1 ∧
      (tree.tour w answers).verdict = .ok () ∧ (tree.tour w answers).watch.mode = mode) := by
  obtain ⟨t, behind⟩ := exists_behind found
  have level := (visit_at within (place ▸ behind.visit)).1
  have settled : h.watch.mode = mode ∧ h.watch.recordedDepth = p.level := by
    obtain ⟨before, settled⟩ := behind.settled
    rw [settled, Answer.settle, answered]
    cases mode with
    | «continue» => simp [Place.target] at aims
    | into | «over» | out => exact ⟨rfl, level.symm⟩
  have going : t.abandoned = false := by
    rw [behind.abandoned, answered]
    rfl
  obtain ⟨passing, ending, cut, lands, short, ends⟩ :=
    within.landing (w := h.watch) (settled.1 ▸ aims) settled.2
  -- The visits behind the halt fall apart as their levels do.
  obtain ⟨passed, others, later, rfl, rfl⟩ :
      ∃ passed others, tree.visits.drop (h.position + 1) = passed ++ others ∧
        passed.map (fun v => (v.level, v.call)) = passing ∧
        others.map (fun v => (v.level, v.call)) = ending := by
    refine List.map_eq_append_iff.mp ?_
    rw [List.map_drop, visits_eq_preorder, ← place, cut]
  have total : tree.main.size = target + others.length := by
    have inside := (List.getElem?_eq_some_iff.mp behind.visit).1
    have lengths := congrArg List.length later
    rw [List.length_drop, List.length_append] at lengths
    rw [List.length_map] at lands
    rw [length_visits] at inside lengths
    omega
  rw [later, ← behind.watch] at calm
  rw [← behind.watch] at short ends settled
  have passing : ∀ v ∈ passed, t.watch.stepEnds v.level = false := fun v member =>
    short (v.level, v.call) (List.mem_map.mpr ⟨v, member, rfl⟩)
  rw [List.length_map] at lands
  rw [behind.tour, later]
  cases others with
  | nil =>
      rw [List.length_nil] at total
      refine ⟨fun early => absurd early (by omega), fun _ => ?_⟩
      rw [List.append_nil] at calm ⊢
      rw [Tour.foldl_visit_short passed t going calm passing, Tour.verdict]
      exact ⟨behind.halts, if_neg (Bool.not_eq_true _ ▸ going), settled.1⟩
  | cons v rest =>
      rw [List.length_cons] at total
      refine ⟨fun _ => ?_, fun late => absurd late (by omega)⟩
      obtain ⟨next, found, position, reason⟩ := Tour.foldl_visit_ends passed rest t going calm
        passing (ends (v.level, v.call) rfl)
      refine ⟨next, behind.halts ▸ found, ?_, reason⟩
      rw [position, behind.entered, ← place, lands]

end CallTree

/-- However the pauses of a program are answered, where no enabled breakpoint matches
the calls behind a pause a step from it makes the next pause, and for that step, at
the following call, at the first call behind the subtree it stood at, or at the first
one behind the subtree of the parent. Where there is no such call the program runs to
its end and the step stays pending. -/
theorem Player.step_lands_at_target (tree : CallTree) (config : Config) (breakpoints : Store)
    (steps : Steps) (answers : List Answer) :
    let tour := tree.tour ⟨breakpoints, steps.mode, steps.recordedDepth⟩ answers
    ∃ s result, Session.attended (some answer)
        (tree.run (Session.hook react) (session config breakpoints steps answers)) =
          .finished result s ∧
      s.host.own.told = tour.halts.map (fun h => h.told config.previewLength) ∧
      s.host.own.left = tour.halts.map (fun h => h.watch) ∧
      ∀ j h, tour.halts[j]? = some h →
        tree.visits[h.position]? = some h.visit ∧
        h.answer = answers[j]?.getD (.now .continue) ∧
        (∃ p : Place, p.Within tree.main ∧ p.position = h.position) ∧
        ∀ p : Place, p.Within tree.main → p.position = h.position →
          p.level = h.visit.level ∧ p.call = h.visit.call ∧
          ((tree.main.preorder 1).drop p.position).take p.call.size =
            p.call.preorder p.level ∧
          ∀ mode target, h.answer.mode = some mode → p.target mode = some target →
            (∀ v ∈ tree.visits.drop (h.position + 1),
              h.watch.breakpoints.Calm v.call.site) →
            (target < tree.main.size → ∃ next, tour.halts[j + 1]? = some next ∧
              next.position = target ∧ next.reason = .step) ∧
            (tree.main.size ≤ target → tour.halts.length = j + 1 ∧
              result = .ok tree.main.size ∧ s.steps.mode = mode) := by
  intro tour
  have attended : Attended (some answer) answers := .inr rfl
  obtain ⟨s, run, follows⟩ := run_follows tree config breakpoints steps attended
  refine ⟨s, _, run, follows.told, follows.left, fun j h found => ?_⟩
  obtain ⟨t, behind⟩ := CallTree.exists_behind found
  have inside : h.position < tree.main.size :=
    tree.length_visits ▸ (List.getElem?_eq_some_iff.mp behind.visit).1
  obtain ⟨p, within, position⟩ := Place.Within.exists_below .root h.position inside
  refine ⟨behind.visit, behind.answer, ⟨p, within, position.trans (Nat.zero_add _)⟩, ?_⟩
  intro p within place
  obtain ⟨level, call⟩ := CallTree.visit_at within (place ▸ behind.visit)
  refine ⟨level, call, within.subtree, fun mode target answered aims calm => ?_⟩
  obtain ⟨lands, runs⟩ := CallTree.tour_step found within place answered aims calm
  refine ⟨lands, fun late => ?_⟩
  obtain ⟨last, ends, pending⟩ := runs late
  refine ⟨last, ?_, (congrArg Watch.mode follows.watch).trans pending⟩
  rw [ends]
  rfl

/-- Main calls a function with a call inside it, and then another one: a step over the
first call leads to the second, and a step out of that one to the end. -/
theorem Player.step_lands_at_sibling_and_end :
    let leaf (children : List Call) := Call.mk none none none [] [] children
    let tree : CallTree := ⟨leaf [leaf [leaf []], leaf []]⟩
    let answers : List Answer := [.now .into, .now .over, .now .out]
    let tour := tree.tour ⟨{}, .into, 0⟩ answers
    ∃ s result, Session.attended (some answer)
        (tree.run (Session.hook react) (session {} {} { mode := .into } answers)) =
          .finished result s ∧
      (∃ next, tour.halts[2]? = some next ∧ next.position = 3 ∧ next.reason = .step) ∧
      tour.halts.length = 3 ∧ result = .ok 4 ∧ s.steps.mode = .out := by
  intro leaf tree answers tour
  obtain ⟨s, result, run, _, _, steps⟩ :=
    Player.step_lands_at_target tree {} {} { mode := .into } answers
  have first : Place.Within tree.main ⟨leaf [leaf []], 2, 1, 4⟩ :=
    @Place.Within.child _ _ [] [leaf []] _ .root rfl
  have second : Place.Within tree.main ⟨leaf [], 2, 3, 4⟩ :=
    @Place.Within.child _ _ [leaf [leaf []]] [] _ .root rfl
  obtain ⟨_, _, _, beyond⟩ := steps 1 _ rfl
  obtain ⟨_, _, _, lands⟩ := beyond _ first rfl
  obtain ⟨_, _, _, out⟩ := steps 2 _ rfl
  obtain ⟨_, _, _, ends⟩ := out _ second rfl
  have nowhere : ∀ v : Visit, Store.Calm {} v.call.site := fun _ _ member =>
    absurd member List.not_mem_nil
  refine ⟨s, result, run, (lands .over 3 rfl rfl fun v _ => nowhere v).1 (by decide), ?_⟩
  exact (ends .out 4 rfl rfl fun v _ => nowhere v).2 (by decide)

end Debugger
