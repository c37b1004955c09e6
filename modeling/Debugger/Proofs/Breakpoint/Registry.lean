import Debugger.Breakpoint.Operation
import Debugger.Proofs.Breakpoint.Visits

/-! The store seen as a finite map from identifiers to breakpoints: what each operation
should do to such a map, and what the store's functions do to the look-up. -/
namespace Debugger

/-- What a client sees of a store: the breakpoint under each identifier, if there is one. -/
abbrev Registry := BreakpointId → Option Breakpoint

namespace Registry

def set (r : Registry) (id : BreakpointId) (b : Option Breakpoint) : Registry :=
  fun other => if other = id then b else r other

/-- All breakpoints of the map, each once and ascending by the text of the identifier. -/
structure Lists (r : Registry) (listed : List Breakpoint) : Prop where
  ascending : listed.Pairwise (·.id.text < ·.id.text)
  all : ∀ b, b ∈ listed ↔ r b.id = some b

/-- The setter finds the identifier, and changes its breakpoint and nothing else. -/
def Changes (r : Registry) (id : BreakpointId) (change : Breakpoint → Breakpoint)
    (answer : StoreAnswer) (r' : Registry) : Prop :=
  answer = .flag (r id).isSome ∧ r' = r.set id ((r id).map change)

/-- Each breakpoint stays as it is, or the visit hits it. -/
def Visited (r : Registry) (site : Site) (r' : Registry) : Prop :=
  ∀ id, r' id = r id ∨ ∃ b, r id = some b ∧ b.applies site ∧ r' id = some b.hit

/-- What an operation answers, and what it makes of the map. -/
def Meets (r : Registry) (answer : StoreAnswer) (r' : Registry) : StoreOperation → Prop
  | .add kind => ∃ id, answer = .id id ∧ r id = none ∧
      r' = r.set id (some
        { id, kind, enabled := true, condition := none, hitCount := 0, target := 0 })
  | .remove id => answer = .flag (r id).isSome ∧ r' = r.set id none
  | .get id => answer = .breakpoint (r id) ∧ r' = r
  | .list => ∃ listed, Lists r listed ∧ answer = .breakpoints listed ∧ r' = r
  | .ids => ∃ listed, Lists r listed ∧ answer = .ids (listed.map (·.id)) ∧ r' = r
  | .clear => answer = .nothing ∧ r' = fun _ => none
  | .size => ∃ listed, Lists r listed ∧ answer = .count listed.length ∧ r' = r
  | .isEmpty => ∃ listed, Lists r listed ∧ answer = .flag listed.isEmpty ∧ r' = r
  | .setEnabled id enabled => r.Changes id (fun b => { b with enabled }) answer r'
  | .setCondition id condition => r.Changes id (fun b => { b with condition }) answer r'
  | .setTarget id target => r.Changes id (fun b => { b with target }) answer r'
  | .shouldBreak site => (∃ fires, answer = .flag fires) ∧ r.Visited site r'

end Registry

namespace Store
variable {s : Store} {entries : List Breakpoint} {id : BreakpointId} {b : Breakpoint}

theorem get?_eq_some_iff (distinct : (s.entries.map (·.id)).Nodup) :
    s.get? id = some b ↔ b ∈ s.entries ∧ b.id = id := by
  obtain ⟨entries, next⟩ := s
  simp only [get?] at distinct ⊢
  induction entries with
  | nil => simp
  | cons first rest ih =>
      obtain ⟨others, distinct⟩ := List.nodup_cons.mp distinct
      rw [List.find?_cons]
      by_cases here : first.id = id
      · simp only [here, decide_true, Option.some.injEq, List.mem_cons]
        constructor
        · rintro rfl
          exact ⟨.inl rfl, here⟩
        · rintro ⟨rfl | later, same⟩
          · rfl
          · exact absurd (List.mem_map.mpr ⟨b, later, same.trans here.symm⟩) others
      · simp only [here, decide_false, ih distinct, List.mem_cons]
        refine ⟨fun ⟨member, same⟩ => ⟨.inr member, same⟩, fun ⟨member, same⟩ => ⟨?_, same⟩⟩
        exact member.resolve_left fun first => here (first ▸ same)

theorem get?_eq_none_iff : s.get? id = none ↔ ∀ b ∈ s.entries, b.id ≠ id := by
  simp [get?]

/-- The look-up does not depend on the visiting order. -/
theorem get?_of_perm (distinct : (s.entries.map (·.id)).Nodup) (order : entries.Perm s.entries) :
    Store.get? { s with entries } = s.get? := by
  funext id
  have others : (entries.map (·.id)).Nodup := (order.map _).nodup_iff.mpr distinct
  refine Option.ext fun b => ?_
  rw [get?_eq_some_iff distinct, get?_eq_some_iff (s := { s with entries }) others,
    order.mem_iff]

theorem put_of_fresh (fresh : ∀ old ∈ entries, old.id ≠ b.id) :
    put b entries = entries ++ [b] :=
  if_neg (by simpa using fresh)

theorem mem_put_iff {other : Breakpoint} :
    other ∈ put b entries ↔ other = b ∨ other ∈ entries ∧ other.id ≠ b.id := by
  rw [put]
  split
  case isTrue present =>
    obtain ⟨old, among, same⟩ := List.any_eq_true.mp present
    have replaced : old.id = b.id := of_decide_eq_true same
    rw [List.mem_map]
    constructor
    · rintro ⟨first, earlier, rfl⟩
      split
      case isTrue => exact .inl rfl
      case isFalse different => exact .inr ⟨earlier, different⟩
    · rintro (rfl | ⟨earlier, different⟩)
      · exact ⟨old, among, if_pos replaced⟩
      · exact ⟨other, earlier, if_neg different⟩
  case isFalse absent =>
    have fresh : ∀ old ∈ entries, old.id ≠ b.id := by simpa using absent
    rw [List.mem_append, List.mem_singleton, or_comm]
    exact or_congr_right ⟨fun earlier => ⟨earlier, fresh _ earlier⟩, And.left⟩

theorem id_modified {id : BreakpointId} {change : Breakpoint → Breakpoint}
    (kept : ∀ b, b.id = id → (change b).id = id) (b : Breakpoint) :
    (if b.id = id then change b else b).id = b.id := by
  split
  case isTrue same => exact (kept b same).trans same.symm
  case isFalse => rfl

/-- A look-up behind a change that keeps all identifiers. -/
theorem find?_changed {change : Breakpoint → Breakpoint} (kept : ∀ b, (change b).id = b.id)
    (id : BreakpointId) (entries : List Breakpoint) :
    (entries.map change).find? (·.id = id) = (entries.find? (·.id = id)).map change := by
  simp only [List.find?_map, Function.comp_def, kept]

theorem id_of_get? (found : s.get? id = some b) : b.id = id := by
  simpa using List.find?_some found

theorem get?_modify (s : Store) (id : BreakpointId) {change : Breakpoint → Breakpoint}
    (kept : ∀ b, b.id = id → (change b).id = id) :
    (s.modify id change).2.get? = Registry.set s.get? id ((s.get? id).map change) := by
  funext other
  have found : (s.modify id change).2.get? other = _ :=
    find?_changed (id_modified kept) other s.entries
  rw [found, Registry.set]
  split
  case isTrue same =>
    subst same
    exact Option.map_congr fun b member => if_pos (id_of_get? member)
  case isFalse different =>
    refine (Option.map_congr fun b member => if_neg ?_).trans Option.map_id'
    exact fun here => different ((id_of_get? member).symm.trans here)

/-- Behind a change that leaves hit counts alone. -/
theorem get?_of_modify {other : BreakpointId} {change : Breakpoint → Breakpoint}
    (found : (s.modify other change).2.get? id = some b) (ids : ∀ c, (change c).id = c.id)
    (kinds : ∀ c, (change c).kind = c.kind) (counts : ∀ c, (change c).hitCount = c.hitCount) :
    ∃ c, s.get? id = some c ∧ c.kind = b.kind ∧ c.hitCount = b.hitCount := by
  rw [get?_modify s other fun c same => (ids c).trans same, Registry.set] at found
  split at found
  case isTrue same =>
    obtain ⟨c, held, rfl⟩ := Option.map_eq_some_iff.mp found
    exact ⟨c, same ▸ held, (kinds c).symm, (counts c).symm⟩
  case isFalse => exact ⟨b, found, rfl, rfl⟩

theorem get?_put (s : Store) (b : Breakpoint) :
    Store.get? { s with entries := put b s.entries } = Registry.set s.get? b.id (some b) := by
  cases present : s.get? b.id with
  | none =>
      have fresh := get?_eq_none_iff.mp present
      funext other
      rw [put_of_fresh fresh, get?, List.find?_append, Registry.set]
      split
      case isTrue same =>
        subst same
        rw [show s.entries.find? (·.id = b.id) = none from present]
        simp
      case isFalse different => simp [Ne.symm different, get?]
  | some old =>
      have again : put b s.entries = (s.modify b.id fun _ => b).2.entries :=
        if_pos (List.any_eq_true.mpr ⟨old, List.mem_of_find?_eq_some present,
          decide_eq_true (id_of_get? present)⟩)
      have changed : (s.modify b.id fun _ => b).2.get? = _ := get?_modify s b.id fun _ _ => rfl
      rw [present] at changed
      rw [again]
      exact changed

theorem get?_add (s : Store) (kind : Breakpoint.Kind) :
    (s.add kind).2.get? = Registry.set s.get? (BreakpointId.ofSequence s.next)
      (some { id := BreakpointId.ofSequence s.next, kind }) :=
  get?_put s { id := BreakpointId.ofSequence s.next, kind }

theorem get?_remove (s : Store) (id : BreakpointId) :
    (s.remove id).2.get? = Registry.set s.get? id none := by
  funext other
  rw [remove, Registry.set, get?, List.find?_filter]
  split
  case isTrue same =>
    subst same
    simp
  case isFalse different =>
    refine congrArg (List.find? · s.entries) (funext fun b => ?_)
    by_cases here : b.id = other
    · simp [here, different]
    · simp [here]

/-- A visit hits what applies, up to the breakpoint that fires, and nothing else. -/
theorem find?_visit (site : Site) (id : BreakpointId) (entries : List Breakpoint) :
    (Breakpoint.visit site entries).2.find? (·.id = id) = entries.find? (·.id = id) ∨
      ∃ b, entries.find? (·.id = id) = some b ∧ b.applies site ∧
        (Breakpoint.visit site entries).2.find? (·.id = id) = some b.hit := by
  induction entries with
  | nil => exact .inl rfl
  | cons b rest ih =>
      have same : b.hit.id = b.id := rfl
      rw [Breakpoint.visit]
      split
      case isTrue applies =>
        by_cases here : b.id = id
        · refine .inr ⟨b, by simp [here], applies, ?_⟩
          split <;> simp [same, here]
        · split
          · simp [same, here]
          · simpa [same, here] using ih
      case isFalse =>
        by_cases here : b.id = id
        · simp [here]
        · simpa [here] using ih

theorem ids_visit (site : Site) (entries : List Breakpoint) :
    (Breakpoint.visit site entries).2.map (·.id) = entries.map (·.id) := by
  have ids := congrArg (List.map (·.id)) (Breakpoint.uncounted_visit site entries)
  simpa [Function.comp_def, Breakpoint.uncounted] using ids

theorem lists_list (distinct : (s.entries.map (·.id)).Nodup) : Registry.Lists s.get? s.list where
  ascending := by
    have order := KeyOrder.sort_perm (·.id.text) s.entries
    have others := ((order.map (·.id)).nodup_iff.mpr distinct)
    rw [List.nodup_iff_pairwise_ne, List.pairwise_map] at others
    refine ((KeyOrder.pairwise_sort (·.id.text) s.entries).and others).imp fun both => ?_
    exact Std.lt_of_le_of_ne both.1 fun same => both.2 (congrArg BreakpointId.mk same)
  all b := by
    rw [get?_eq_some_iff distinct, list, (KeyOrder.sort_perm _ _).mem_iff, and_iff_left rfl]

theorem distinct_put (b : Breakpoint) (distinct : (entries.map (·.id)).Nodup) :
    ((put b entries).map (·.id)).Nodup := by
  by_cases present : entries.any (·.id = b.id)
  · have kept (old : Breakpoint) : (if old.id = b.id then b else old).id = old.id :=
      id_modified (fun _ _ => rfl) old
    simp only [put, if_pos present, List.map_map, Function.comp_def, kept]
    exact distinct
  · have fresh : ∀ old ∈ entries, old.id ≠ b.id := by simpa using present
    rw [put_of_fresh fresh, List.map_append, List.nodup_append]
    refine ⟨distinct, List.pairwise_singleton _ _, ?_⟩
    rintro _ member _ last rfl
    obtain ⟨old, earlier, same⟩ := List.mem_map.mp member
    exact fresh old earlier (same.trans (List.mem_singleton.mp last))

/-- Every operation leaves one entry for each identifier. -/
theorem distinct_perform (operation : StoreOperation)
    (distinct : (s.entries.map (·.id)).Nodup) :
    ((operation.perform s).2.2.entries.map (·.id)).Nodup := by
  have modified (id : BreakpointId) {change : Breakpoint → Breakpoint}
      (kept : ∀ b, b.id = id → (change b).id = id) :
      ((s.modify id change).2.entries.map (·.id)).Nodup := by
    simp only [modify, List.map_map, Function.comp_def, id_modified kept]
    exact distinct
  cases operation with
  | add kind => exact distinct_put _ distinct
  | remove id => exact distinct.sublist (List.filter_sublist.map _)
  | get | list | ids | size | isEmpty => exact distinct
  | clear => exact List.nodup_nil
  | setEnabled id enabled => exact modified id fun _ same => same
  | setCondition id condition => exact modified id fun _ same => same
  | setTarget id target => exact modified id fun _ same => same
  | shouldBreak site =>
      change ((Breakpoint.visit site s.entries).2.map (·.id)).Nodup
      rwa [ids_visit]

end Store
end Debugger
