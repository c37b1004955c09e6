import Debugger.Proofs.Breakpoint.Histories
import Debugger.Proofs.Launch.Breakpoints

/-! Conditions and disabled breakpoints. A visit sees neither, so that histories of store
operations that differ in conditions only give the same answers and the same hit counts. -/
namespace Debugger

namespace Breakpoint

def unconditioned (b : Breakpoint) : Breakpoint :=
  { b with condition := none }

theorem visit_unconditioned (site : Site) (breakpoints : List Breakpoint) :
    visit site (breakpoints.map unconditioned) =
      ((visit site breakpoints).1.map unconditioned,
        (visit site breakpoints).2.map unconditioned) := by
  induction breakpoints with
  | nil => rfl
  | cons b rest ih =>
      have applies : b.unconditioned.applies site = b.applies site := rfl
      have hit : b.unconditioned.hit = b.hit.unconditioned := rfl
      have due : b.hit.unconditioned.isDue = b.hit.isDue := rfl
      rw [List.map_cons, visit, visit, ih, applies, hit, due]
      split
      · split <;> rfl
      · rfl

theorem visit_filter_enabled (site : Site) (breakpoints : List Breakpoint) :
    visit site (breakpoints.filter (·.enabled)) =
      ((visit site breakpoints).1, (visit site breakpoints).2.filter (·.enabled)) := by
  induction breakpoints with
  | nil => rfl
  | cons b rest ih =>
      have hit : b.hit.enabled = b.enabled := rfl
      cases enabled : b.enabled with
      | false =>
          have passed : b.applies site = false := by rw [applies, enabled, Bool.false_and]
          rw [List.filter_cons_of_neg (by simp [enabled]), ih, visit, passed]
          exact Prod.ext rfl (List.filter_cons_of_neg (by simp [enabled])).symm
      | true =>
          rw [List.filter_cons_of_pos enabled, visit, visit, ih]
          split
          · split <;> simp [hit, enabled]
          · simp [enabled]

theorem filter_disabled_visit (site : Site) (breakpoints : List Breakpoint) :
    (visit site breakpoints).2.filter (!·.enabled) = breakpoints.filter (!·.enabled) := by
  induction breakpoints with
  | nil => rfl
  | cons b rest ih =>
      have hit : b.hit.enabled = b.enabled := rfl
      rw [visit]
      split
      case isTrue applies =>
        have enabled : b.enabled := (Bool.and_eq_true_iff.mp applies).1
        split <;> simp [hit, enabled, ih]
      case isFalse => rw [List.filter_cons, List.filter_cons, ih]

end Breakpoint

namespace StoreOperation

/-- Whether the operation is about a condition. -/
def setsCondition : StoreOperation → Bool
  | .setCondition .. => true
  | _ => false

end StoreOperation

namespace Store
variable {s t : Store}

/-- The store without conditions. -/
def unconditioned (s : Store) : Store :=
  { s with entries := s.entries.map Breakpoint.unconditioned }

/-- The store without its disabled breakpoints. -/
def active (s : Store) : Store :=
  { s with entries := s.entries.filter (·.enabled) }

theorem shouldBreak_unconditioned (s : Store) (site : Site) :
    s.unconditioned.shouldBreak site =
      ((s.shouldBreak site).1.map Breakpoint.unconditioned,
        (s.shouldBreak site).2.unconditioned) := by
  simp only [shouldBreak, unconditioned, Breakpoint.visit_unconditioned]

/-- Disabled breakpoints have no part in a visit. -/
theorem shouldBreak_active (s : Store) (site : Site) :
    s.active.shouldBreak site = ((s.shouldBreak site).1, (s.shouldBreak site).2.active) := by
  simp only [shouldBreak, active, Breakpoint.visit_filter_enabled]

/-- In stores that differ in conditions only, a visit stops at the same breakpoint, and leaves
such stores again. -/
theorem shouldBreak_alike (stores : s.unconditioned = t.unconditioned) (site : Site) :
    (s.shouldBreak site).1.map Breakpoint.unconditioned =
        (t.shouldBreak site).1.map Breakpoint.unconditioned ∧
      (s.shouldBreak site).2.unconditioned = (t.shouldBreak site).2.unconditioned := by
  have visited := s.shouldBreak_unconditioned site
  rw [stores, t.shouldBreak_unconditioned site] at visited
  exact Prod.ext_iff.mp visited.symm

theorem isSome_shouldBreak_alike (stores : s.unconditioned = t.unconditioned) (site : Site) :
    (s.shouldBreak site).1.isSome = (t.shouldBreak site).1.isSome := by
  have fired := congrArg Option.isSome (shouldBreak_alike stores site).1
  rwa [Option.isSome_map, Option.isSome_map] at fired

theorem contains_unconditioned (s : Store) (id : BreakpointId) :
    s.unconditioned.contains id = s.contains id := by
  have found : s.unconditioned.get? id = (s.get? id).map Breakpoint.unconditioned :=
    find?_changed (fun b => show b.unconditioned.id = b.id from rfl) id s.entries
  rw [contains, contains, found, Option.isSome_map]

theorem put_unconditioned (b : Breakpoint) (entries : List Breakpoint) :
    put b.unconditioned (entries.map Breakpoint.unconditioned) =
      (put b entries).map Breakpoint.unconditioned := by
  have present : (entries.map Breakpoint.unconditioned).any (·.id = b.unconditioned.id) =
      entries.any (·.id = b.id) := List.any_map
  rw [put, put, present]
  split
  · rw [List.map_map, List.map_map]
    refine List.map_congr_left fun old _ => ?_
    simp only [Function.comp_apply, apply_ite Breakpoint.unconditioned]
    rfl
  · rw [List.map_append, List.map_singleton]

theorem add_unconditioned (s : Store) (kind : Breakpoint.Kind) :
    s.unconditioned.add kind = ((s.add kind).1, (s.add kind).2.unconditioned) := by
  have put := put_unconditioned { id := (s.add kind).1, kind } s.entries
  exact congrArg (fun entries => ((s.add kind).1, Store.mk entries (s.next + 1))) put

theorem remove_unconditioned (s : Store) (id : BreakpointId) :
    s.unconditioned.remove id = ((s.remove id).1, (s.remove id).2.unconditioned) := by
  have kept : s.unconditioned.entries.filter (·.id ≠ id) =
      (s.entries.filter (·.id ≠ id)).map Breakpoint.unconditioned := List.filter_map
  rw [remove, contains_unconditioned, kept]
  rfl

theorem modify_unconditioned (s : Store) (id : BreakpointId) {change : Breakpoint → Breakpoint}
    (blind : ∀ b, change b.unconditioned = (change b).unconditioned) :
    (s.unconditioned.modify id change).2 = (s.modify id change).2.unconditioned := by
  simp only [modify, unconditioned, List.map_map, Store.mk.injEq, and_true]
  refine List.map_congr_left fun b _ => ?_
  simp only [Function.comp_apply, apply_ite Breakpoint.unconditioned, ← blind]
  rfl

/-- A condition does not show in a store without conditions. -/
theorem unconditioned_setCondition (s : Store) (id : BreakpointId) (condition : Option String) :
    (s.setCondition id condition).2.unconditioned = s.unconditioned := by
  simp only [setCondition, modify, unconditioned, List.map_map, Store.mk.injEq, and_true]
  refine List.map_congr_left fun b _ => ?_
  simp only [Function.comp_apply, apply_ite Breakpoint.unconditioned]
  exact ite_id _

end Store

namespace StoreOperation
open Store

theorem noteHit_unconditioned (fired : Option Breakpoint) :
    noteHit (fired.map Breakpoint.unconditioned) = noteHit fired := by
  cases fired <;> rfl

/-- Apart from the conditions themselves, an operation does the same without conditions. -/
theorem perform_unconditioned {operation : StoreOperation} (s : Store)
    (other : operation.setsCondition = false) :
    (operation.perform s.unconditioned).2 =
      ((operation.perform s).2.1, (operation.perform s).2.2.unconditioned) := by
  cases operation with
  | add kind =>
      simp only [perform, add_unconditioned]
  | remove id =>
      simp only [perform, remove_unconditioned]
  | get | list | ids | clear | size | isEmpty => rfl
  | setEnabled id enabled => exact congrArg ([], ·) (modify_unconditioned s id fun _ => rfl)
  | setCondition => cases other
  | setTarget id target => exact congrArg ([], ·) (modify_unconditioned s id fun _ => rfl)
  | shouldBreak site =>
      simp only [perform, shouldBreak_unconditioned, noteHit_unconditioned]

/-- In stores that differ in conditions only, any operation leaves such stores again. -/
theorem perform_alike {s t : Store} (operation : StoreOperation)
    (stores : s.unconditioned = t.unconditioned) :
    (operation.perform s).2.1 = (operation.perform t).2.1 ∧
      (operation.perform s).2.2.unconditioned = (operation.perform t).2.2.unconditioned := by
  cases about : operation.setsCondition with
  | true =>
      cases operation with
      | setCondition id condition =>
          refine ⟨rfl, ?_⟩
          exact (unconditioned_setCondition s id condition).trans
            (stores.trans (unconditioned_setCondition t id condition).symm)
      | _ => cases about
  | false =>
      have both := (perform_unconditioned s about).symm.trans
        ((congrArg (fun store => (operation.perform store).2) stores).trans
          (perform_unconditioned t about))
      exact Prod.ext_iff.mp both

end StoreOperation

/-- A visiting order that does not go by conditions. -/
structure BlindOrder extends VisitOrder where
  blind : ∀ breakpoints, (arrange breakpoints).map Breakpoint.unconditioned =
    arrange (breakpoints.map Breakpoint.unconditioned)

namespace Store

/-- An answer of the store at a site: whether execution stops there. -/
abbrev Check := Site × Bool

def Deed.check? : Deed → Option Check
  | (.shouldBreak site, .flag breaks) => some (site, breaks)
  | _ => none

/-- An operation, or a change of the order in which the store visits its breakpoints. -/
inductive Move where
  | operate (operation : StoreOperation)
  | arrange (order : BlindOrder)

namespace Move

def setsCondition : Move → Bool
  | .operate operation => operation.setsCondition
  | .arrange _ => false

/-- The moves that are not about conditions. -/
def others (moves : List Move) : List Move :=
  moves.filter (!·.setsCondition)

/-- What moves come to. -/
structure Outcome where
  deeds : List Deed := []
  noted : List Diagnostic := []
  store : Store

def makeAll (s : Store) : List Move → Outcome
  | [] => { store := s }
  | .arrange order :: rest => makeAll { s with entries := order.arrange s.entries } rest
  | .operate operation :: rest =>
      let (answer, noted, left) := operation.perform s
      let others := makeAll left rest
      { others with deeds := (operation, answer) :: others.deeds, noted := noted ++ others.noted }

namespace Outcome

def checks (o : Outcome) : List Check :=
  o.deeds.filterMap Deed.check?

/-- What is left of the outcome to an observer who looks away from the conditions. -/
def unconditioned (o : Outcome) : List Check × List Diagnostic × Store :=
  (o.checks, o.noted, o.store.unconditioned)

end Outcome

theorem unconditioned_operate (operation : StoreOperation) (rest : List Move) (s : Store) :
    (makeAll s (.operate operation :: rest)).unconditioned =
      ((Deed.check? (operation, (operation.perform s).1)).toList ++
          (makeAll (operation.perform s).2.2 rest).checks,
        (operation.perform s).2.1 ++ (makeAll (operation.perform s).2.2 rest).noted,
        (makeAll (operation.perform s).2.2 rest).store.unconditioned) := by
  refine Prod.ext ?_ rfl
  cases checked : Deed.check? (operation, (operation.perform s).1) with
  | none => exact List.filterMap_cons_none checked
  | some check => exact List.filterMap_cons_some checked

theorem check?_unconditioned (operation : StoreOperation) (s : Store) :
    Deed.check? (operation, (operation.perform s.unconditioned).1) =
      Deed.check? (operation, (operation.perform s).1) := by
  cases operation with
  | shouldBreak site =>
      simp only [StoreOperation.perform, shouldBreak_unconditioned, Option.isSome_map]
  | _ => rfl

/-- Apart from conditions, moves come to the same as the others among them do without
conditions. -/
theorem makeAll_unconditioned (s : Store) (moves : List Move) :
    (makeAll s.unconditioned (others moves)).unconditioned = (makeAll s moves).unconditioned := by
  induction moves generalizing s with
  | nil =>
      have twice : s.unconditioned.unconditioned = s.unconditioned := by
        simp only [Store.unconditioned, List.map_map]
        rfl
      exact congrArg (([], [], ·)) twice
  | cons move rest ih =>
      cases move with
      | arrange order =>
          have arranged := ih { s with entries := order.arrange s.entries }
          simp only [Store.unconditioned, order.blind] at arranged
          exact arranged
      | operate operation =>
          cases about : operation.setsCondition with
          | true =>
              -- The operation is left out on one side, and on the other its store looks the same.
              cases operation with
              | setCondition id condition =>
                  have left := ih (s.setCondition id condition).2
                  rw [unconditioned_setCondition] at left
                  rw [unconditioned_operate]
                  exact left
              | _ => cases about
          | false =>
              have kept : others (.operate operation :: rest) = .operate operation :: others rest :=
                List.filter_cons_of_pos (by rw [setsCondition, about, Bool.not_false])
              obtain ⟨checks, noted, store⟩ : _ ∧ _ ∧ _ := by
                simpa only [Outcome.unconditioned, Prod.mk.injEq] using ih (operation.perform s).2.2
              rw [kept, unconditioned_operate, unconditioned_operate, check?_unconditioned,
                operation.perform_unconditioned s about, checks, noted, store]

/-- Moves that differ in the conditions that they set only come to the same at stores that differ
in conditions only. Both come to what the moves that they share do without conditions. -/
theorem makeAll_of_others {moves moves' : List Move}
    (stores : s.unconditioned = t.unconditioned) (same : others moves = others moves') :
    (makeAll s moves).unconditioned = (makeAll t moves').unconditioned := by
  rw [← makeAll_unconditioned, ← makeAll_unconditioned t, stores, same]

end Move
end Store
end Debugger
