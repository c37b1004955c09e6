import Debugger.Proofs.Breakpoint.Orders

/-! Hit counts over histories of store operations. Main statement: as long as a breakpoint
lives, its hit count lies between the number of matching candidates that did not stop and the
number of all matching candidates, and never falls. Both numbers stop where hit counts do. -/
namespace Debugger

namespace Store

/-- An operation and the store that it finds. -/
structure Moment where
  store : Store
  operation : StoreOperation

namespace Moment

def answer (m : Moment) : StoreAnswer :=
  (m.operation.perform m.store).1

def after (m : Moment) : Store :=
  (m.operation.perform m.store).2.2

/-- A candidate comes along that the breakpoint under the identifier matches, and that one is
enabled. -/
def matched (id : BreakpointId) (m : Moment) : Bool :=
  match m.operation with
  | .shouldBreak site => (m.store.get? id).any (·.applies site)
  | _ => false

/-- Such a candidate, and it does not stop. -/
def missed (id : BreakpointId) (m : Moment) : Bool :=
  m.matched id && m.answer = .flag false

/-- No other enabled breakpoint matches the candidate. -/
def Alone (id : BreakpointId) (m : Moment) : Prop :=
  ∀ site, m.operation = .shouldBreak site → ∀ b ∈ m.store.entries, b.applies site → b.id = id

/-- The breakpoint under the identifier is neither taken away nor replaced. -/
def Spares (id : BreakpointId) (m : Moment) : Prop :=
  m.operation ≠ .remove id ∧ m.operation ≠ .clear ∧ m.answer ≠ .id id

/-- What a moment may do to the hit count of the breakpoint under the identifier. -/
structure Counts (id : BreakpointId) (m : Moment) (before after : Nat) : Prop where
  either : after = before ∨ after = min (before + 1) Breakpoint.hitLimit
  unmatched : m.matched id = false → after = before
  missed : m.missed id → after = min (before + 1) Breakpoint.hitLimit
  alone : m.matched id → m.Alone id → after = min (before + 1) Breakpoint.hitLimit

end Moment

/-- The moments of a past, and the store that they lead to from a fresh one. In between the
visiting order may change in any way. -/
inductive Past : List Moment → Store → Prop where
  | fresh : Past [] {}
  | perform (operation : StoreOperation) {past : List Moment} {s : Store} : Past past s →
      Past (past ++ [⟨s, operation⟩]) (operation.perform s).2.2
  | reorder {past : List Moment} {s : Store} {entries : List Breakpoint} : Past past s →
      entries.Perm s.entries → Past past { s with entries }

/-- What the moments since its addition say about a breakpoint's hit count. -/
structure Tally (id : BreakpointId) (since : List Moment) (b : Breakpoint) : Prop where
  missed : min (since.countP (·.missed id)) Breakpoint.hitLimit ≤ b.hitCount
  matched : b.hitCount ≤ min (since.countP (·.matched id)) Breakpoint.hitLimit
  alone : (∀ m ∈ since, m.matched id → m.Alone id) →
    b.hitCount = min (since.countP (·.matched id)) Breakpoint.hitLimit
  /-- The breakpoint was there all the time, and its hit count never fell. -/
  rising : ∃ counts : List Nat,
    since.map (fun m => (m.store.get? id).map (·.hitCount)) = counts.map some ∧
    (counts ++ [b.hitCount]).Pairwise (· ≤ ·)

namespace Moment
variable {id : BreakpointId} {m : Moment} {s : Store} {b : Breakpoint}

theorem Counts.of_unmatched (unmatched : m.matched id = false) (n : Nat) : Counts id m n n where
  either := .inl rfl
  unmatched _ := rfl
  missed missed := by simp [Moment.missed, unmatched] at missed
  alone matched := by simp [unmatched] at matched

theorem matched_of_get? {site : Site} (held : s.get? id = some b) :
    matched id ⟨s, .shouldBreak site⟩ = b.applies site := by
  simp [matched, held]

theorem counts_shouldBreak (distinct : (s.entries.map (·.id)).Nodup) {site : Site}
    (found : (s.shouldBreak site).2.get? id = some b) :
    ∃ c, s.get? id = some c ∧ c.kind = b.kind ∧
      Counts id ⟨s, .shouldBreak site⟩ c.hitCount b.hitCount := by
  obtain ⟨-, met⟩ | ⟨fired, hits, fires, stopped⟩ := met_or_stopped distinct site
  · rw [met] at found
    obtain ⟨c, held, rfl⟩ := Option.map_eq_some_iff.mp found
    refine ⟨c, held, ?_⟩
    rw [Breakpoint.met]
    split
    case isTrue applies =>
      refine ⟨rfl, .inr rfl, fun unmatched => ?_, fun _ => rfl, fun _ _ => rfl⟩
      rw [matched_of_get? held, applies] at unmatched
      contradiction
    case isFalse other =>
      refine ⟨rfl, .of_unmatched ?_ c.hitCount⟩
      rwa [matched_of_get? held, ← Bool.not_eq_true]
  · rw [stopped.changes] at found
    split at found
    case isTrue hit =>
      obtain ⟨c, held, rfl⟩ := Option.map_eq_some_iff.mp found
      obtain ⟨d, same, applies⟩ := stopped.applies id hit
      obtain rfl : c = d := Option.some.inj (held.symm.trans same)
      refine ⟨c, held, rfl, .inr rfl, fun unmatched => ?_, fun _ => rfl, fun _ _ => rfl⟩
      rw [matched_of_get? held, applies] at unmatched
      contradiction
    case isFalse unhit =>
      refine ⟨b, found, rfl, .inl rfl, fun _ => rfl, fun missed => ?_, fun _ alone => ?_⟩
      · simp [Moment.missed, answer, StoreOperation.perform, fires] at missed
      · -- The breakpoint that ended the visit applies, so it is the one under the identifier.
        obtain ⟨d, held, applies⟩ := stopped.applies fired.id stopped.hit
        obtain ⟨member, same⟩ := (get?_eq_some_iff distinct).mp held
        have here : fired.id = id := same.symm.trans (alone site rfl d member applies)
        exact absurd (here ▸ stopped.hit) unhit

/-- A breakpoint that a moment did not add was there before, and the moment has spared and
counted it. -/
theorem counts_of_found (distinct : (m.store.entries.map (·.id)).Nodup)
    (found : m.after.get? id = some b) (old : m.answer ≠ .id id) :
    ∃ c, m.store.get? id = some c ∧ c.kind = b.kind ∧ m.Spares id ∧
      Counts id m c.hitCount b.hitCount := by
  obtain ⟨s, operation⟩ := m
  cases operation with
  | add kind =>
      change (s.add kind).2.get? id = some b at found
      have other : id ≠ BreakpointId.ofSequence s.next := by
        rintro rfl
        exact old rfl
      rw [get?_add, Registry.set, if_neg other] at found
      exact ⟨b, found, rfl, ⟨by simp, by simp, old⟩, .of_unmatched rfl _⟩
  | remove other =>
      change (s.remove other).2.get? id = some b at found
      rw [get?_remove, Registry.set] at found
      split at found
      case isTrue => contradiction
      case isFalse different =>
        have spared : StoreOperation.remove other ≠ .remove id := by
          rintro ⟨⟩
          exact different rfl
        exact ⟨b, found, rfl, ⟨spared, by simp, old⟩, .of_unmatched rfl _⟩
  | clear => contradiction
  | get | list | ids | size | isEmpty =>
      exact ⟨b, found, rfl, ⟨by simp, by simp, old⟩, .of_unmatched rfl _⟩
  | setEnabled other | setCondition other | setTarget other =>
      obtain ⟨c, held, kind, count⟩ :=
        get?_of_modify (s := s) found (fun _ => rfl) (fun _ => rfl) fun _ => rfl
      exact ⟨c, held, kind, ⟨by simp, by simp, old⟩, count ▸ .of_unmatched rfl _⟩
  | shouldBreak site =>
      obtain ⟨c, held, kind, counts⟩ := counts_shouldBreak distinct found
      exact ⟨c, held, kind, ⟨by simp, by simp, old⟩, counts⟩

end Moment

namespace Tally
variable {id : BreakpointId} {since : List Moment} {b : Breakpoint}

theorem added (uncounted : b.hitCount = 0) : Tally id [] b where
  missed := by simp
  matched := by simp [uncounted]
  alone _ := by simp [uncounted]
  rising := ⟨[], rfl, by simp⟩

/-- One more moment. -/
theorem concat {m : Moment} {b' : Breakpoint} (tally : Tally id since b)
    (held : m.store.get? id = some b)
    (counts : m.Counts id b.hitCount b'.hitCount) : Tally id (since ++ [m]) b' := by
  obtain ⟨missed, matched, alone, earlier, listed, rising⟩ := tally
  obtain ⟨either, unmatched, hitMissed, hitAlone⟩ := counts
  have all : (since ++ [m]).countP (·.matched id) =
      since.countP (·.matched id) + if m.matched id then 1 else 0 := by
    rw [List.countP_append, List.countP_singleton]
  have calm : (since ++ [m]).countP (·.missed id) =
      since.countP (·.missed id) + if m.missed id then 1 else 0 := by
    rw [List.countP_append, List.countP_singleton]
  rw [List.pairwise_append] at rising
  -- Only the order of the limit and the counts matters from here on.
  constructor
  · rw [calm]
    generalize Breakpoint.hitLimit = limit at *
    split
    case isTrue here =>
      have hit := hitMissed here
      omega
    case isFalse => omega
  · rw [all]
    generalize Breakpoint.hitLimit = limit at *
    split
    case isTrue => omega
    case isFalse other =>
      have same := unmatched (Bool.eq_false_iff.mpr other)
      omega
  · intro only
    rw [List.forall_mem_append, List.forall_mem_singleton] at only
    have before := alone only.1
    rw [all]
    generalize Breakpoint.hitLimit = limit at *
    split
    case isTrue here =>
      have hit := hitAlone here (only.2 here)
      omega
    case isFalse other =>
      have same := unmatched (Bool.eq_false_iff.mpr other)
      omega
  · have grown : b.hitCount ≤ b'.hitCount := by
      generalize Breakpoint.hitLimit = limit at *
      omega
    refine ⟨earlier ++ [b.hitCount], ?_, ?_⟩
    · rw [List.map_append, listed, List.map_append, List.map_singleton, held]
      rfl
    · rw [List.pairwise_append]
      refine ⟨List.pairwise_append.mpr rising, List.pairwise_singleton _ _, ?_⟩
      intro n member k last
      rw [List.mem_singleton.mp last]
      rcases List.mem_append.mp member with old | new
      · exact Nat.le_trans (rising.2.2 n old _ List.mem_cons_self) grown
      · exact (List.mem_singleton.mp new) ▸ grown

end Tally

namespace Past
variable {past : List Moment} {s : Store}

theorem distinct (leads : Past past s) : (s.entries.map (·.id)).Nodup := by
  induction leads with
  | fresh => exact List.nodup_nil
  | perform operation _ ih => exact distinct_perform operation ih
  | reorder _ order ih => exact (order.map _).nodup_iff.mpr ih

end Past

/-- Whatever is done to a store, and whatever the visiting order, a breakpoint that lives was
added at some moment and spared since. Its hit count is at least the number of matching
candidates since then that did not stop, at most the number of all that matched while it was
enabled, and never fell; it is the latter number if at each of those no other enabled breakpoint
matched. Numbers above the limit of hit counts count as the limit. -/
theorem hitCount_within_matches {past : List Moment} {s : Store} (leads : Past past s)
    {id : BreakpointId} {b : Breakpoint} (live : s.get? id = some b) :
    ∃ earlier added later, past = earlier ++ added :: later ∧
      added.operation = .add b.kind ∧ added.answer = .id id ∧
      (∀ m ∈ later, m.Spares id) ∧ Tally id later b := by
  -- An addition under the identifier starts a new life; any other moment prolongs the old one.
  induction leads generalizing b with
  | fresh => contradiction
  | reorder leads order ih =>
      rw [get?_of_perm leads.distinct order] at live
      exact ih live
  | @perform operation past s leads ih =>
      by_cases new : (operation.perform s).1 = .id id
      · cases operation with
        | add kind =>
            obtain rfl : BreakpointId.ofSequence s.next = id := StoreAnswer.id.inj new
            change (s.add kind).2.get? _ = some b at live
            rw [get?_add, Registry.set, if_pos rfl] at live
            obtain rfl := Option.some.inj live
            exact ⟨past, ⟨s, .add kind⟩, [], rfl, rfl, rfl, by simp, .added rfl⟩
        | _ => contradiction
      · let m : Moment := ⟨s, operation⟩
        obtain ⟨c, held, kind, spares, counts⟩ :=
          Moment.counts_of_found (m := m) leads.distinct live new
        obtain ⟨earlier, added, later, rfl, adds, answer, spared, tally⟩ := ih held
        refine ⟨earlier, added, later ++ [m], by simp [m], kind ▸ adds, answer, ?_,
          tally.concat held counts⟩
        rw [List.forall_mem_append, List.forall_mem_singleton]
        exact ⟨spared, spares⟩

/-- A breakpoint waits for its second hit. The first candidate does not stop, the second one
does, and the third one comes when the breakpoint is disabled. -/
theorem hitCount_within_matches_of_waiting :
    let id : BreakpointId := ⟨"9e3779b1"⟩
    let site : Site := { function := some "f" }
    let operations : List StoreOperation := [.add (.function "f" false), .setTarget id 2,
      .shouldBreak site, .shouldBreak site, .setEnabled id false, .shouldBreak site]
    ∃ past s b, Past past s ∧ past.map (·.operation) = operations ∧ s.get? id = some b ∧
      ∃ earlier added later, past = earlier ++ added :: later ∧
        added.operation = .add b.kind ∧ Tally id later b ∧
        min (later.countP (·.missed id)) Breakpoint.hitLimit ≤ 2 ∧
        2 ≤ min (later.countP (·.matched id)) Breakpoint.hitLimit := by
  intro id site operations
  let s : Store := (StoreOperation.performAll {} operations).2.2
  have leads : Past _ s := Past.fresh.perform (.add (.function "f" false))
    |>.perform (.setTarget id 2) |>.perform (.shouldBreak site) |>.perform (.shouldBreak site)
    |>.perform (.setEnabled id false) |>.perform (.shouldBreak site)
  let b : Breakpoint :=
    { id, kind := .function "f" false, enabled := false, hitCount := 2, target := 2 }
  have live : s.get? id = some b := by decide +kernel
  obtain ⟨earlier, added, later, split, adds, -, -, tally⟩ := hitCount_within_matches leads live
  exact ⟨_, s, b, leads, rfl, live, earlier, added, later, split, adds, tally, tally.missed,
    tally.matched⟩

end Store
end Debugger
