import Debugger.Breakpoint.Store

/-! What a visit does to the breakpoints: it hits those that apply up to the first one that is
then due. It changes hit counts only, and where no enabled breakpoint matches it does nothing. -/
namespace Debugger

namespace Breakpoint

def uncounted (b : Breakpoint) : Breakpoint :=
  { b with hitCount := 0 }

@[simp] theorem uncounted_hit (b : Breakpoint) : b.hit.uncounted = b.uncounted := rfl

/-- A visit at the site would end here. -/
def fires (site : Site) (b : Breakpoint) : Bool :=
  b.applies site && b.hit.isDue

/-- The breakpoint once a visit at the site has come past it. -/
def met (site : Site) (b : Breakpoint) : Breakpoint :=
  if b.applies site then b.hit else b

@[simp] theorem uncounted_met (site : Site) (b : Breakpoint) :
    (b.met site).uncounted = b.uncounted := by
  rw [met]
  split <;> rfl

@[simp] theorem id_met (site : Site) (b : Breakpoint) : (b.met site).id = b.id := by
  rw [met]
  split <;> rfl

theorem fires_iff {site : Site} {b : Breakpoint} : b.fires site ↔
    b.enabled ∧ b.kind.matches site ∧
      (b.target = 0 ∨ b.target ≤ min (b.hitCount + 1) hitLimit) := by
  have due : b.hit.isDue =
      (b.target == 0 || decide (b.target ≤ min (b.hitCount + 1) hitLimit)) := rfl
  simp [fires, applies, due, and_assoc]

theorem applies_of_fires {site : Site} {b : Breakpoint} (fires : b.fires site) :
    b.applies site :=
  (Bool.and_eq_true_iff.mp fires).1

/-- All that a visit can do: it comes past all breakpoints, or it ends at the first one that
fires. -/
theorem visit_cases (site : Site) (breakpoints : List Breakpoint) :
    ((∀ b ∈ breakpoints, ¬ b.fires site) ∧
      visit site breakpoints = (none, breakpoints.map (met site))) ∨
    ∃ before b after, breakpoints = before ++ b :: after ∧
      (∀ other ∈ before, ¬ other.fires site) ∧ b.fires site ∧
      visit site breakpoints = (some b.hit, before.map (met site) ++ b.hit :: after) := by
  induction breakpoints with
  | nil => exact .inl ⟨by simp, rfl⟩
  | cons b rest ih =>
      by_cases here : b.fires site
      · refine .inr ⟨[], b, rest, rfl, by simp, here, ?_⟩
        rw [visit, if_pos (applies_of_fires here), if_pos (Bool.and_eq_true_iff.mp here).2]
        rfl
      · have past : visit site (b :: rest) =
            ((visit site rest).1, b.met site :: (visit site rest).2) := by
          rw [visit, met]
          split
          case isTrue applies =>
            have early : ¬ b.hit.isDue := fun due => here (by rw [fires, applies, due]; rfl)
            rw [if_neg early]
          case isFalse => rfl
        rw [past]
        obtain ⟨calm, later⟩ | ⟨before, c, after, rfl, calm, fires, later⟩ := ih
        · left
          rw [later]
          exact ⟨List.forall_mem_cons.mpr ⟨here, calm⟩, rfl⟩
        · right
          rw [later]
          exact ⟨b :: before, c, after, rfl, List.forall_mem_cons.mpr ⟨here, calm⟩, fires, rfl⟩

theorem isSome_visit_iff (site : Site) (breakpoints : List Breakpoint) :
    (visit site breakpoints).1.isSome ↔ ∃ b ∈ breakpoints, b.fires site := by
  obtain ⟨calm, visit⟩ | ⟨before, b, after, rfl, -, fires, visit⟩ := visit_cases site breakpoints
  · rw [visit]
    simpa using calm
  · rw [visit]
    simp only [Option.isSome_some, true_iff]
    exact ⟨b, by simp, fires⟩

theorem uncounted_visit (site : Site) (breakpoints : List Breakpoint) :
    (visit site breakpoints).2.map uncounted = breakpoints.map uncounted := by
  obtain ⟨-, visit⟩ | ⟨before, b, after, rfl, -, -, visit⟩ := visit_cases site breakpoints
  · simp only [visit, List.map_map, Function.comp_def, uncounted_met]
  · simp only [visit, List.map_append, List.map_cons, List.map_map, Function.comp_def,
      uncounted_met, uncounted_hit]

theorem visit_of_none_applies {site : Site} {breakpoints : List Breakpoint}
    (calm : ∀ b ∈ breakpoints, b.applies site = false) :
    visit site breakpoints = (none, breakpoints) := by
  obtain ⟨-, visit⟩ | ⟨before, b, after, rfl, -, fires, -⟩ := visit_cases site breakpoints
  · have unmet : ∀ b ∈ breakpoints, b.met site = b := fun b member =>
      if_neg (Bool.eq_false_iff.mp (calm b member))
    rw [visit, List.map_congr_left unmet, List.map_id']
  · have applies := applies_of_fires fires
    rw [calm b (by simp)] at applies
    contradiction

end Breakpoint

namespace Store

def uncounted (s : Store) : Store :=
  { s with entries := s.entries.map Breakpoint.uncounted }

@[simp] theorem uncounted_shouldBreak (site : Site) (s : Store) :
    (s.shouldBreak site).2.uncounted = s.uncounted := by
  simp only [uncounted, shouldBreak, Breakpoint.uncounted_visit]

/-- No enabled breakpoint matches the site. -/
def Calm (s : Store) (site : Site) : Prop :=
  ∀ b ∈ s.entries, b.applies site = false

theorem Calm.shouldBreak {s : Store} {site : Site} (calm : s.Calm site) :
    s.shouldBreak site = (none, s) := by
  simp only [Store.shouldBreak, Breakpoint.visit_of_none_applies calm]

end Store
end Debugger
