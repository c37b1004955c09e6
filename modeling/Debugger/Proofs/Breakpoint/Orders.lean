import Debugger.Proofs.Breakpoint.Registry
import Mathlib.Data.List.Nodup

/-! The order in which a candidate visits the breakpoints. Main statement: whether execution
stops does not depend on it. Where it goes on, neither do the breakpoints afterwards; where it
stops, the order decides which of the breakpoints that apply were hit and which one fired. -/
namespace Debugger

namespace Registry

/-- The map once a visit has come past all breakpoints. -/
def met (r : Registry) (site : Site) : Registry :=
  fun id => (r id).map (Breakpoint.met site)

/-- What a visit that a breakpoint has ended did to the map. The visit hit the breakpoints
under `hits`, and `fired` is the last one of them as it stands in the map afterwards. -/
structure Stopped (r : Registry) (site : Site) (hits : List BreakpointId) (fired : Breakpoint)
    (r' : Registry) : Prop where
  applies : ∀ id ∈ hits, ∃ b, r id = some b ∧ b.applies site
  changes : ∀ id, r' id = if id ∈ hits then (r id).map Breakpoint.hit else r id
  hit : fired.id ∈ hits
  found : r' fired.id = some fired
  /-- Of all that were hit, the one that fired is the only one that is due. -/
  due : ∀ id ∈ hits, ∀ b, r' id = some b → (b.isDue ↔ id = fired.id)

end Registry

namespace Store
variable {s : Store} {before after : List Breakpoint} {b : Breakpoint}

/-- The identifiers that a visit hits which ends at the breakpoint behind `before`. -/
def hitsUpTo (site : Site) (before : List Breakpoint) (b : Breakpoint) : List BreakpointId :=
  (before.filter (·.applies site)).map (·.id) ++ [b.id]

theorem mem_hitsUpTo {site : Site} {id : BreakpointId} :
    id ∈ hitsUpTo site before b ↔ (∃ c ∈ before, c.applies site ∧ c.id = id) ∨ id = b.id := by
  simp [hitsUpTo, and_assoc]

/-- With one entry for each identifier, the entries that a visit hits are known by theirs. -/
theorem map_hit_eq (site : Site) (distinct : ((before ++ b :: after).map (·.id)).Nodup) :
    (before ++ b :: after).map
        (fun c => if c.id ∈ hitsUpTo site before b then c.hit else c) =
      before.map (Breakpoint.met site) ++ b.hit :: after := by
  have same := List.inj_on_of_nodup_map distinct
  rw [List.map_append, List.map_cons, List.nodup_middle, List.nodup_cons, List.mem_append, not_or,
    List.nodup_append] at distinct
  obtain ⟨⟨earlier, later⟩, -, -, apart⟩ := distinct
  have front : ∀ c ∈ before, c.id ∈ hitsUpTo site before b ↔ c.applies site := by
    intro c member
    rw [mem_hitsUpTo]
    constructor
    · rintro (⟨d, other, applies, id⟩ | last)
      · rwa [← same (List.mem_append_left _ other) (List.mem_append_left _ member) id]
      · exact absurd (last ▸ List.mem_map_of_mem member) earlier
    · exact fun applies => .inl ⟨c, member, applies, rfl⟩
  have back : ∀ c ∈ after, c.id ∉ hitsUpTo site before b := by
    intro c member hit
    obtain ⟨d, other, -, id⟩ | last := mem_hitsUpTo.mp hit
    · exact apart _ (List.mem_map_of_mem other) _ (List.mem_map_of_mem member) id
    · exact later (last ▸ List.mem_map_of_mem member)
  rw [List.map_append, List.map_cons, if_pos (mem_hitsUpTo.mpr (.inr rfl))]
  congr 1
  · refine List.map_congr_left fun c member => ?_
    simp only [front c member, Breakpoint.met]
  · congr 1
    exact (List.map_congr_left fun c member => if_neg (back c member)).trans (List.map_id' after)

/-- A visit that ends at the first breakpoint that fires. -/
theorem stopped_of_split {site : Site} {next : UInt32}
    (distinct : ((before ++ b :: after).map (·.id)).Nodup)
    (calm : ∀ c ∈ before, ¬ c.fires site) (fires : b.fires site) :
    Registry.Stopped (Store.get? ⟨before ++ b :: after, next⟩) site (hitsUpTo site before b) b.hit
      (Store.get? ⟨before.map (Breakpoint.met site) ++ b.hit :: after, next⟩) := by
  let s : Store := ⟨before ++ b :: after, next⟩
  have look {c : Breakpoint} {id : BreakpointId} :
      s.get? id = some c ↔ c ∈ before ++ b :: after ∧ c.id = id :=
    get?_eq_some_iff (s := s) distinct
  have here : s.get? b.id = some b := look.mpr ⟨by simp, rfl⟩
  have changes (id : BreakpointId) :
      Store.get? ⟨before.map (Breakpoint.met site) ++ b.hit :: after, next⟩ id =
        if id ∈ hitsUpTo site before b then (s.get? id).map Breakpoint.hit else s.get? id := by
    rw [← map_hit_eq site distinct, get?, find?_changed (fun c => by split <;> rfl)]
    change (s.get? id).map _ = _
    cases found : s.get? id with
    | none => simp
    | some c =>
        rw [Option.map_some, id_of_get? found]
        split <;> rfl
  have last : b.id ∈ hitsUpTo site before b := mem_hitsUpTo.mpr (.inr rfl)
  constructor
  · intro id hit
    obtain ⟨c, early, applies, rfl⟩ | rfl := mem_hitsUpTo.mp hit
    · exact ⟨c, look.mpr ⟨List.mem_append_left _ early, rfl⟩, applies⟩
    · exact ⟨b, here, Breakpoint.applies_of_fires fires⟩
  · exact changes
  · exact last
  · rw [changes, show b.hit.id = b.id from rfl, if_pos last, here]
    rfl
  · intro id hit d found
    rw [changes, if_pos hit] at found
    obtain ⟨c, stood, rfl⟩ := Option.map_eq_some_iff.mp found
    by_cases same : id = b.id
    · subst same
      obtain rfl : b = c := Option.some.inj (here.symm.trans stood)
      exact iff_of_true (Bool.and_eq_true_iff.mp fires).2 rfl
    · obtain ⟨d, early, applies, rfl⟩ := (mem_hitsUpTo.mp hit).resolve_right same
      have there : s.get? d.id = some d := look.mpr ⟨List.mem_append_left _ early, rfl⟩
      obtain rfl : d = c := Option.some.inj (there.symm.trans stood)
      have fired (due : d.hit.isDue) : d.fires site := Bool.and_eq_true_iff.mpr ⟨applies, due⟩
      exact iff_of_false (fun due => calm d early (fired due)) same

/-- A visit comes past all breakpoints, or one of them ends it. -/
theorem met_or_stopped (distinct : (s.entries.map (·.id)).Nodup) (site : Site) :
    ((s.shouldBreak site).1 = none ∧ (s.shouldBreak site).2.get? = Registry.met s.get? site) ∨
    ∃ fired hits, (s.shouldBreak site).1 = some fired ∧
      Registry.Stopped s.get? site hits fired (s.shouldBreak site).2.get? := by
  obtain ⟨entries, next⟩ := s
  obtain ⟨-, visit⟩ | ⟨before, b, after, rfl, calm, fires, visit⟩ :=
    Breakpoint.visit_cases site entries
  · left
    simp only [shouldBreak, visit, true_and]
    funext id
    exact find?_changed (Breakpoint.id_met site) id entries
  · right
    simp only [shouldBreak, visit]
    exact ⟨b.hit, _, rfl, stopped_of_split distinct calm fires⟩

/-- Whatever the order of the visits, execution stops at a site exactly if some enabled breakpoint
matches it that fires on every visit or whose hit count reaches the target with this one. If it
does not stop, every enabled breakpoint that matches is hit once and nothing else changes. If it
does, some of these are hit once, exactly one of them is due and has fired, and nothing else
changes. -/
theorem shouldBreak_in_any_order (distinct : (s.entries.map (·.id)).Nodup)
    {entries : List Breakpoint} (order : entries.Perm s.entries) (site : Site) :
    let visit := Store.shouldBreak { s with entries } site
    (visit.1.isSome ↔ ∃ b ∈ s.entries, b.enabled ∧ b.kind.matches site ∧
      (b.target = 0 ∨ b.target ≤ min (b.hitCount + 1) Breakpoint.hitLimit)) ∧
    visit.2.next = s.next ∧
    (visit.1 = none → ∀ id, visit.2.get? id = (s.get? id).map fun b =>
      if b.enabled ∧ b.kind.matches site then
        { b with hitCount := min (b.hitCount + 1) Breakpoint.hitLimit }
      else b) ∧
    ∀ fired, visit.1 = some fired →
      ∃ hits, Registry.Stopped s.get? site hits fired visit.2.get? := by
  intro visit
  have others : (entries.map (·.id)).Nodup := (order.map _).nodup_iff.mpr distinct
  have cases := met_or_stopped (s := { s with entries }) others site
  rw [get?_of_perm distinct order] at cases
  refine ⟨?_, rfl, ?_, ?_⟩
  · refine (Breakpoint.isSome_visit_iff site entries).trans (exists_congr fun b => ?_)
    rw [order.mem_iff, Breakpoint.fires_iff]
  · intro calm id
    obtain ⟨-, met⟩ | ⟨b, _, fired, -⟩ := cases
    · refine (congrFun met id).trans ?_
      refine Option.map_congr fun b _ => ?_
      simp only [Breakpoint.met, Breakpoint.applies, Bool.and_eq_true]
      rfl
    · exact absurd (fired.symm.trans calm) (Option.some_ne_none b)
  · intro b fired
    obtain ⟨calm, -⟩ | ⟨c, hits, other, stopped⟩ := cases
    · exact absurd (fired.symm.trans calm) (Option.some_ne_none b)
    · obtain rfl : c = b := Option.some.inj (other.symm.trans fired)
      exact ⟨hits, stopped⟩

/-- Two breakpoints on one function. The first one waits for its third hit; the second one
fires in either order, and only in the second order it does so before the first one is hit. -/
theorem shouldBreak_in_reverse_order :
    let waiting : Breakpoint :=
      { id := ⟨"a"⟩, kind := .function "f" false, hitCount := 1, target := 3 }
    let ready : Breakpoint := { id := ⟨"b"⟩, kind := .function "f" true }
    let s : Store := { entries := [waiting, ready] }
    let site : Site := { function := some "f" }
    let visit := Store.shouldBreak { s with entries := [ready, waiting] } site
    (s.entries.map (·.id)).Nodup ∧ [ready, waiting].Perm s.entries ∧
      (∃ fired hits, visit.1 = some fired ∧
        Registry.Stopped s.get? site hits fired visit.2.get?) ∧
      visit.2.get? ⟨"a"⟩ = some waiting ∧
      (s.shouldBreak site).2.get? ⟨"a"⟩ = some waiting.hit := by
  intro waiting ready s site visit
  have distinct : (s.entries.map (·.id)).Nodup := by decide
  have order : [ready, waiting].Perm s.entries := .swap waiting ready []
  obtain ⟨stops, -, -, ended⟩ := shouldBreak_in_any_order distinct order site
  have matched : ready.kind.matches site := by decide +kernel
  obtain ⟨fired, fires⟩ := Option.isSome_iff_exists.mp
    (stops.mpr ⟨ready, by simp [s], rfl, matched, .inl rfl⟩)
  obtain ⟨hits, stopped⟩ := ended fired fires
  exact ⟨distinct, order, ⟨fired, hits, fires, stopped⟩, by decide +kernel, by decide +kernel⟩

end Store
end Debugger
