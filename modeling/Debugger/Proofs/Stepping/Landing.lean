import Debugger.Proofs.Breakpoint.Visits
import Debugger.Proofs.CallTree.Places
import Debugger.Proofs.Stepping.Tour

/-! Where steps land. The levels that a watch compares pick out the end of a subtree:
away from breakpoints a step passes the calls that it must not stop at, and stops at
the first one behind them. -/
namespace Debugger

namespace Watch
variable {w : Watch} {v : Visit}

/-- Away from breakpoints only a step can end. -/
theorem reason_of_calm (calm : w.breakpoints.Calm v.call.site) :
    w.reason v = if w.stepEnds v.level then some .step else none := by
  rw [reason, calm.shouldBreak]
  rfl

theorem pass_of_calm (calm : w.breakpoints.Calm v.call.site)
    (short : w.stepEnds v.level = false) : w.pass v = w := by
  simp only [pass, calm.shouldBreak, short, if_neg Bool.false_ne_true]

end Watch

namespace Tour
variable {t : Tour}

theorem halts_foldl (visits : List Visit) (t : Tour) :
    t.halts <+: (visits.foldl visit t).halts := by
  induction visits generalizing t with
  | nil => exact List.prefix_refl t.halts
  | cons v rest ih =>
      refine List.IsPrefix.trans ?_ (ih (t.visit v))
      cases going : t.abandoned with
      | true => simp only [visit_abandoned going, List.prefix_refl]
      | false =>
          cases reason : t.watch.reason v with
          | none => simp only [visit_of_none going reason, List.prefix_refl]
          | some why =>
              rw [visit_of_some going reason]
              exact List.prefix_append t.halts [t.halt why v]

/-- As long as no halt is abandoned, all visits are entered. -/
theorem entered_foldl (visits : List Visit) (t : Tour)
    (going : (visits.foldl visit t).abandoned = false) :
    (visits.foldl visit t).entered = t.entered + visits.length := by
  induction visits generalizing t with
  | nil => rfl
  | cons v rest ih =>
      have running : t.abandoned = false := by
        cases abandoned : t.abandoned with
        | false => rfl
        | true => rw [foldl_visit_abandoned abandoned, abandoned] at going; exact going
      have one : (t.visit v).entered = t.entered + 1 := by
        cases reason : t.watch.reason v with
        | none => rw [visit_of_none running reason]
        | some why => rw [visit_of_some running reason, stop]
      rw [List.foldl_cons, ih (t.visit v) going, one, List.length_cons]
      omega

/-- The halts have taken the answers in order. -/
theorem answers_foldl (visits : List Visit) (t : Tour) {all : List Answer}
    (taken : t.answers = all.drop t.halts.length) :
    (visits.foldl visit t).answers = all.drop (visits.foldl visit t).halts.length := by
  induction visits generalizing t with
  | nil => exact taken
  | cons v rest ih =>
      refine ih (t.visit v) ?_
      cases going : t.abandoned with
      | true => rw [visit_abandoned going, taken]
      | false =>
          cases reason : t.watch.reason v with
          | none => rw [visit_of_none going reason, taken]
          | some why =>
              rw [visit_of_some going reason, stop, taken, List.tail_drop, List.length_append]
              rfl

/-- A halt is made at a visit, from the tour as it is by then. -/
theorem exists_visit {h : Halt} {j : Nat} (visits : List Visit) (t : Tour)
    (new : t.halts.length ≤ j) (found : (visits.foldl visit t).halts[j]? = some h) :
    ∃ before v rest why, visits = before ++ v :: rest ∧
      (before.foldl visit t).abandoned = false ∧
      (before.foldl visit t).watch.reason v = some why ∧
      (before.foldl visit t).halts.length = j ∧
      h = (before.foldl visit t).halt why v := by
  induction visits generalizing t with
  | nil => rw [List.foldl_nil, List.getElem?_eq_none new] at found; contradiction
  | cons v rest ih =>
      by_cases later : (t.visit v).halts.length ≤ j
      · obtain ⟨before, u, rest', why, split, facts⟩ := ih (t.visit v) later found
        exact ⟨v :: before, u, rest', why, congrArg (v :: ·) split, facts⟩
      · cases going : t.abandoned with
        | true => exact absurd new (by rwa [visit_abandoned going] at later)
        | false =>
            cases reason : t.watch.reason v with
            | none => exact absurd new (by rwa [visit_of_none going reason] at later)
            | some why =>
                rw [visit_of_some going reason, stop, List.length_append] at later
                have last : t.halts.length = j := by
                  simp only [List.length_singleton] at later
                  omega
                refine ⟨[], v, rest, why, rfl, going, reason, last, ?_⟩
                obtain ⟨more, halts⟩ := halts_foldl rest (t.visit v)
                rw [List.foldl_cons, ← halts, visit_of_some going reason, stop, ← last] at found
                simpa using found.symm

def skip (t : Tour) (count : Nat) : Tour :=
  { t with entered := t.entered + count }

/-- Visits short of the step's end are passed without a halt. -/
theorem foldl_visit_short (visits : List Visit) (t : Tour) (going : t.abandoned = false)
    (calm : ∀ v ∈ visits, t.watch.breakpoints.Calm v.call.site)
    (short : ∀ v ∈ visits, t.watch.stepEnds v.level = false) :
    visits.foldl visit t = t.skip visits.length := by
  induction visits generalizing t with
  | nil => rfl
  | cons v rest ih =>
      have here := calm v List.mem_cons_self
      have passed : t.visit v = t.skip 1 := by
        have silent : t.watch.reason v = none := by
          rw [Watch.reason_of_calm here, short v List.mem_cons_self]
          rfl
        rw [visit_of_none going silent, Watch.pass_of_calm here (short v List.mem_cons_self), skip]
      have others := ih (t.skip 1) going
        (fun u member => calm u (List.mem_cons_of_mem v member))
        (fun u member => short u (List.mem_cons_of_mem v member))
      rw [List.foldl_cons, passed, others, List.length_cons]
      simp only [skip, Nat.add_assoc, Nat.add_comm 1]

/-- Behind the visits short of the step's end the next halt is made, for the step. -/
theorem foldl_visit_ends {v : Visit} (passing rest : List Visit) (t : Tour)
    (going : t.abandoned = false)
    (calm : ∀ u ∈ passing ++ v :: rest, t.watch.breakpoints.Calm u.call.site)
    (short : ∀ u ∈ passing, t.watch.stepEnds u.level = false)
    (ends : t.watch.stepEnds v.level = true) :
    ∃ next, ((passing ++ v :: rest).foldl visit t).halts[t.halts.length]? = some next ∧
      next.position = t.entered + passing.length ∧ next.reason = .step := by
  have silent := foldl_visit_short passing t going
    (fun u member => calm u (List.mem_append_left _ member)) short
  have reason : (t.skip passing.length).watch.reason v = some .step := by
    change t.watch.reason v = _
    rw [Watch.reason_of_calm (calm v (by simp)), ends]
    rfl
  have running : (t.skip passing.length).abandoned = false := going
  obtain ⟨more, halts⟩ := halts_foldl rest ((t.skip passing.length).stop .step v)
  refine ⟨(t.skip passing.length).halt .step v, ?_, rfl, rfl⟩
  rw [List.foldl_append, silent, List.foldl_cons, visit_of_some running reason, ← halts, stop]
  simp [skip]

end Tour

namespace Place
variable {root : Call} {p : Place}

/-- The position at which a step from a place ends: the next call, the first one
behind the subtree, or the first one behind the parent's. -/
def target (p : Place) : StepMode → Option Nat
  | .continue => none
  | .into => some (p.position + 1)
  | .over => some p.behind
  | .out => some p.outer

/-- The calls behind a place fall into those at which the step does not end yet, and
those from the target on, the first of which ends it. -/
theorem Within.landing (within : Within root p) {w : Watch} {target : Nat}
    (aims : p.target w.mode = some target) (recorded : w.recordedDepth = p.level) :
    ∃ passing rest, (root.preorder 1).drop (p.position + 1) = passing ++ rest ∧
      p.position + 1 + passing.length = target ∧
      (∀ entry ∈ passing, w.stepEnds entry.1 = false) ∧
      ∀ entry ∈ rest.head?, w.stepEnds entry.1 = true := by
  obtain ⟨before, siblings, after, whole, length, outer, above⟩ := within.split
  have later : (root.preorder 1).drop (p.position + 1) =
      Call.preorderAll (p.level + 1) p.call.children ++
        (Call.preorderAll p.level siblings ++ after) := by
    rw [whole, Call.preorder_eq, ← length, ← List.drop_drop, List.drop_left]
    rfl
  have size := Call.size_eq p.call
  obtain ⟨breakpoints, mode, recordedDepth⟩ := w
  obtain rfl : recordedDepth = p.level := recorded
  cases mode with
  | «continue» => simp [Place.target] at aims
  | into =>
      obtain rfl : p.position + 1 = target := Option.some.inj aims
      exact ⟨[], _, rfl, rfl, by simp, fun _ _ => rfl⟩
  | «over» =>
      obtain rfl : p.behind = target := Option.some.inj aims
      refine ⟨_, _, later, ?_, ?_, ?_⟩
      · rw [Call.length_preorderAll, behind]
        omega
      · intro entry member
        have deeper := Call.le_of_mem_preorderAll member
        simp only [Watch.stepEnds, decide_eq_false_iff_not]
        omega
      · intro entry first
        simp only [Watch.stepEnds, decide_eq_true_eq]
        cases siblings with
        | nil => exact Nat.le_of_lt (above entry first)
        | cons sibling rest =>
            rw [Call.preorderAll, Call.preorder_eq] at first
            obtain rfl := Option.some.inj first
            exact Nat.le_refl p.level
  | out =>
      obtain rfl : p.outer = target := Option.some.inj aims
      refine ⟨_, _, later.trans (List.append_assoc _ _ _).symm, ?_, ?_, ?_⟩
      · rw [List.length_append, Call.length_preorderAll, Call.length_preorderAll, outer, behind]
        omega
      · intro entry member
        simp only [Watch.stepEnds, decide_eq_false_iff_not]
        obtain below | beside := List.mem_append.mp member
        · have deeper := Call.le_of_mem_preorderAll below
          omega
        · have level := Call.le_of_mem_preorderAll beside
          omega
      · intro entry first
        simp only [Watch.stepEnds, decide_eq_true_eq]
        exact above entry first

end Place
end Debugger
