import Debugger.Proofs.Breakpoint.Registry

/-! Stores as they are filled before a program starts: every breakpoint is enabled and fires
on each visit. Such a store stops at a site exactly if one of the kinds asked for matches it,
whatever the order of the visits and however often a kind was asked for. -/
namespace Debugger

namespace Breakpoint

/-- Enabled, and due on every visit. -/
def Immediate (b : Breakpoint) : Prop :=
  b.enabled = true ∧ b.target = 0

theorem Immediate.applies {b : Breakpoint} (immediate : b.Immediate) (site : Site) :
    b.applies site = b.kind.matches site := by
  rw [Breakpoint.applies, immediate.1, Bool.true_and]

theorem Immediate.isDue_hit {b : Breakpoint} (immediate : b.Immediate) : b.hit.isDue := by
  have target : b.hit.target = 0 := immediate.2
  rw [isDue, target]
  rfl

/-- Among breakpoints that are due on every visit the first that applies fires. -/
theorem isSome_visit (site : Site) {breakpoints : List Breakpoint}
    (immediate : ∀ b ∈ breakpoints, b.Immediate) :
    (visit site breakpoints).1.isSome = breakpoints.any (·.kind.matches site) := by
  rw [Bool.eq_iff_iff, isSome_visit_iff, List.any_eq_true]
  refine exists_congr fun b => and_congr_right fun member => ?_
  rw [fires, (immediate b member).applies, (immediate b member).isDue_hit, Bool.and_true]

end Breakpoint

namespace Store
variable {kinds : List Breakpoint.Kind} {s s' : Store}

/-- The store holds breakpoints of these kinds and no others, and they fire on every visit. -/
structure Asks (kinds : List Breakpoint.Kind) (s : Store) : Prop where
  immediate : ∀ b ∈ s.entries, b.Immediate
  mem_kinds : ∀ kind, kind ∈ s.entries.map (·.kind) ↔ kind ∈ kinds

namespace Asks

theorem isSome_shouldBreak (asks : Asks kinds s) (site : Site) :
    (s.shouldBreak site).1.isSome = kinds.any (·.matches site) := by
  have kind : s.entries.any (·.kind.matches site) =
      (s.entries.map (·.kind)).any (·.matches site) := by
    rw [List.any_map]
    rfl
  rw [shouldBreak, Breakpoint.isSome_visit site asks.immediate, kind, Bool.eq_iff_iff,
    List.any_eq_true, List.any_eq_true]
  simp only [asks.mem_kinds]

/-- Hits do not matter. -/
theorem of_uncounted (asks : Asks kinds s) (same : s'.uncounted = s.uncounted) :
    Asks kinds s' := by
  have entries : s'.entries.map Breakpoint.uncounted = s.entries.map Breakpoint.uncounted :=
    congrArg Store.entries same
  refine ⟨fun b member => ?_, fun kind => ?_⟩
  · have listed : b.uncounted ∈ s.entries.map Breakpoint.uncounted :=
      entries ▸ List.mem_map_of_mem member
    obtain ⟨other, among, alike⟩ := List.mem_map.mp listed
    have immediate : other.uncounted.Immediate := asks.immediate other among
    rw [alike] at immediate
    exact immediate
  · have kinds := congrArg (List.map (·.kind)) entries
    rw [List.map_map, List.map_map] at kinds
    rw [← asks.mem_kinds]
    exact iff_of_eq (congrArg (kind ∈ ·) kinds)

theorem shouldBreak (asks : Asks kinds s) (site : Site) : Asks kinds (s.shouldBreak site).2 :=
  asks.of_uncounted (uncounted_shouldBreak site s)

/-- Nor does the visiting order. -/
theorem perm (asks : Asks kinds s) {entries : List Breakpoint} (order : entries.Perm s.entries) :
    Asks kinds { s with entries } where
  immediate b member := asks.immediate b (order.mem_iff.mp member)
  mem_kinds kind := (order.map (·.kind)).mem_iff.trans (asks.mem_kinds kind)

theorem of_same (asks : Asks kinds s) {others : List Breakpoint.Kind}
    (same : ∀ kind, kind ∈ kinds ↔ kind ∈ others) : Asks others s :=
  ⟨asks.immediate, fun kind => (asks.mem_kinds kind).trans (same kind)⟩

end Asks

end Store
end Debugger
