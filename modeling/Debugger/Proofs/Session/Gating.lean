import Debugger.Proofs.Session.Touring

/-! Hit counts as gates. Main statement: a program that is run with one breakpoint and always
continued stops at the calls that the breakpoint matches, from the one on whose number is its
target, and the breakpoint counts them all. -/
namespace Debugger

namespace Breakpoint
variable {b : Breakpoint} {n : Nat}

/-- The breakpoint after that many matching visits. -/
def counted (b : Breakpoint) (n : Nat) : Breakpoint :=
  { b with hitCount := min n hitLimit }

theorem hit_counted (b : Breakpoint) (n : Nat) : (b.counted n).hit = b.counted (n + 1) := by
  have count : min (min n hitLimit + 1) hitLimit = min (n + 1) hitLimit := by
    generalize hitLimit = limit
    omega
  rw [hit, counted, counted, count]

/-- A target within the limit of hit counts is reached by the visit of that number. -/
theorem isDue_counted (range : b.target ≤ hitLimit) :
    (b.counted (n + 1)).isDue ↔ max b.target 1 ≤ n + 1 := by
  have due : (b.counted (n + 1)).isDue = (b.target == 0 || b.target ≤ min (n + 1) hitLimit) := rfl
  rw [due, Bool.or_eq_true, beq_iff_eq, decide_eq_true_iff]
  generalize hitLimit = limit at *
  omega

/-- Where the breakpoint stands alone, a matching visit counts and stops if the target is
reached. -/
theorem visit_counted (enabled : b.enabled) (range : b.target ≤ hitLimit) (site : Site) (n : Nat) :
    visit site [b.counted n] =
      if b.kind.matches site then
        (if max b.target 1 ≤ n + 1 then some (b.counted (n + 1)) else none, [b.counted (n + 1)])
      else (none, [b.counted n]) := by
  have applies : (b.counted n).applies site = b.kind.matches site := by
    rw [Breakpoint.applies, show (b.counted n).enabled = true from enabled, Bool.true_and]
    rfl
  rw [visit, applies, hit_counted]
  simp only [isDue_counted range, visit]
  split
  · split <;> rfl
  · rfl

theorem Kind.matches_line_of_no_source {site : Site} (nowhere : site.location = none)
    (source : String) (number : Nat) : (Kind.line source number).matches site = false := by
  rw [Kind.matches, nowhere]

theorem Kind.matches_function_of_no_name {site : Site} (anonymous : site.function = none)
    (name : String) (isPartial : Bool) : (Kind.function name isPartial).matches site = false := by
  rw [Kind.matches, anonymous]

end Breakpoint

namespace Answer

/-- Lets the program go on and does nothing else. -/
structure Continues (a : Answer) : Prop where
  changes : a.changes = []
  mode : a.mode = some .continue

theorem Continues.settle {a : Answer} (continues : a.Continues) (level : Nat) (w : Watch) :
    a.settle level w = w.command .continue level := by
  rw [Answer.settle, continues.mode, continues.changes]
  rfl

end Answer

/-- The breakpoint matches the call, enabled or not. -/
def Breakpoint.matchesCall (b : Breakpoint) (v : Visit) : Bool :=
  b.kind.matches v.call.site

/-- A watch over one breakpoint, after that many matching visits and without a step pending. -/
def Watch.single (s : Store) (b : Breakpoint) (depth n : Nat) : Watch :=
  ⟨{ s with entries := [b.counted n] }, .continue, depth⟩

namespace Watch
variable {s : Store} {b : Breakpoint} {depth n : Nat} {v : Visit}

theorem pass_single (enabled : b.enabled) (range : b.target ≤ Breakpoint.hitLimit) :
    (single s b depth n).pass v = single s b depth (if b.matchesCall v then n + 1 else n) := by
  rw [pass, single, Store.shouldBreak, Breakpoint.visit_counted enabled range,
    Breakpoint.matchesCall]
  split <;> rfl

theorem reason_single (enabled : b.enabled) (range : b.target ≤ Breakpoint.hitLimit) :
    (single s b depth n).reason v =
      if b.matchesCall v ∧ max b.target 1 ≤ n + 1 then some .breakpoint else none := by
  rw [reason, single, Store.shouldBreak, Breakpoint.visit_counted enabled range,
    ← Breakpoint.matchesCall]
  by_cases matched : b.matchesCall v
  · by_cases due : max b.target 1 ≤ n + 1 <;> simp [matched, due, stepEnds]
  · simp [matched, stepEnds]

end Watch

namespace Breakpoint

/-- The matching calls among some visits, numbered on from `n`, from the one on whose number is
the target. -/
def stopsAmong (b : Breakpoint) (n : Nat) (visits : List Visit) : List (Visit × Nat) :=
  ((visits.filter b.matchesCall).zipIdx (n + 1)).filter fun m => max b.target 1 ≤ m.2

theorem stopsAmong_cons (b : Breakpoint) (n : Nat) (v : Visit) (rest : List Visit) :
    b.stopsAmong n (v :: rest) =
      (if b.matchesCall v ∧ max b.target 1 ≤ n + 1 then [(v, n + 1)] else []) ++
        b.stopsAmong (if b.matchesCall v then n + 1 else n) rest := by
  rw [stopsAmong, List.filter_cons]
  by_cases matched : b.matchesCall v
  · rw [if_pos matched, if_pos matched, List.zipIdx_cons, List.filter_cons]
    by_cases due : max b.target 1 ≤ n + 1
    · rw [if_pos (decide_eq_true due), if_pos ⟨matched, due⟩]
      rfl
    · rw [if_neg fun reached => due (of_decide_eq_true reached), if_neg fun both => due both.2]
      rfl
  · rw [if_neg matched, if_neg matched, if_neg fun both => matched both.1]
    rfl

end Breakpoint

/-- A tour with the one breakpoint, which has matched that many calls, and with answers that
only continue. -/
structure Tour.Gated (s : Store) (b : Breakpoint) (depth n : Nat) (t : Tour) : Prop where
  watch : t.watch = .single s b depth n
  going : t.abandoned = false
  continues : ∀ a ∈ t.answers, a.Continues

namespace Tour.Gated
variable {s : Store} {b : Breakpoint} {depth n : Nat} {t : Tour}

theorem next (gated : Gated s b depth n t) : t.next.Continues := by
  rw [Tour.next]
  cases answers : t.answers with
  | nil => exact ⟨rfl, rfl⟩
  | cons a rest => exact gated.continues a (answers ▸ List.mem_cons_self)

/-- The stop at a match, and the watch as the answer leaves it. -/
def halted (s : Store) (b : Breakpoint) (depth : Nat) (m : Visit × Nat) : Stop × Watch :=
  (⟨.breakpoint, m.1⟩, .single s b depth m.2)

/-- One visit: it counts if it matches, and halts if the target is reached. -/
theorem visit (gated : Gated s b depth n t) (enabled : b.enabled)
    (range : b.target ≤ Breakpoint.hitLimit) (v : Visit) :
    Gated s b depth (if b.matchesCall v then n + 1 else n) (t.visit v) ∧
    (t.visit v).halts.map (fun h => (h.toStop, h.watch)) =
      t.halts.map (fun h => (h.toStop, h.watch)) ++
        (if b.matchesCall v ∧ max b.target 1 ≤ n + 1 then [(v, n + 1)] else []).map
          (halted s b depth) := by
  have pass := @Watch.pass_single s b depth n v enabled range
  have reason := @Watch.reason_single s b depth n v enabled range
  rw [← gated.watch] at pass reason
  split at reason
  case isTrue stops =>
    rw [if_pos stops, visit_of_some gated.going reason, stop]
    rw [if_pos stops.1] at pass ⊢
    have settled : (t.halt .breakpoint v).watch = .single s b depth (n + 1) := by
      rw [halt, gated.next.settle, pass]
      rfl
    refine ⟨⟨settled, ?_, fun a member => gated.continues a (List.mem_of_mem_tail member)⟩, ?_⟩
    · rw [gated.next.mode]
      rfl
    · rw [List.map_append, List.map_singleton, settled]
      rfl
  case isFalse passes =>
    rw [if_neg passes, visit_of_none gated.going reason]
    exact ⟨⟨pass, gated.going, gated.continues⟩, (List.append_nil _).symm⟩

/-- All visits of a tour, by induction on them. -/
theorem foldl (gated : Gated s b depth n t) (enabled : b.enabled)
    (range : b.target ≤ Breakpoint.hitLimit) (visits : List Visit) :
    Gated s b depth (n + visits.countP b.matchesCall) (visits.foldl Tour.visit t) ∧
    (visits.foldl Tour.visit t).halts.map (fun h => (h.toStop, h.watch)) =
      t.halts.map (fun h => (h.toStop, h.watch)) ++
        (b.stopsAmong n visits).map (halted s b depth) := by
  induction visits generalizing n t with
  | nil => exact ⟨gated, (List.append_nil _).symm⟩
  | cons v rest ih =>
      obtain ⟨behind, halts⟩ := gated.visit enabled range v
      obtain ⟨ends, later⟩ := ih behind
      constructor
      · have count : n + (v :: rest).countP b.matchesCall =
            (if b.matchesCall v then n + 1 else n) + rest.countP b.matchesCall := by
          rw [List.countP_cons]
          split <;> omega
        rw [count]
        exact ends
      · rw [List.foldl_cons, later, halts, Breakpoint.stopsAmong_cons, List.map_append,
          List.append_assoc]

end Tour.Gated

/-- A program is run with one enabled breakpoint that has not been hit, without a step pending,
and every pause is answered by continuing. The calls that the breakpoint matches are numbered
from one in preorder. The program runs to its end and stops for the breakpoint exactly at those
calls whose number is at least the target, in their order; the hit count is that number at each
stop, and the number of all matching calls in the end. A call without a place is matched by no
line breakpoint, and one without a declared name by no function breakpoint. -/
theorem Player.gated_run_stops_from_target {b : Breakpoint} {breakpoints : Store} {steps : Steps}
    {answers : List Answer} {controller : Option (Played → Played)}
    (single : breakpoints.entries = [b]) (enabled : b.enabled) (uncounted : b.hitCount = 0)
    (range : b.target ≤ Breakpoint.hitLimit) (running : steps.mode = .continue)
    (continues : ∀ a ∈ answers, a.Continues) (attended : Attended controller answers)
    (tree : CallTree) (config : Config) :
    let matched := tree.visits.filter fun v => b.kind.matches v.call.site
    let stops := (matched.zipIdx 1).filter fun m => max b.target 1 ≤ m.2
    let behind (hits : Nat) : Store :=
      { breakpoints with entries := [{ b with hitCount := min hits Breakpoint.hitLimit }] }
    tree.visits.map (fun v => (v.level, v.call)) = tree.main.preorder 1 ∧
    (∃ s, Session.attended controller
        (tree.run (Session.hook react) (session config breakpoints steps answers)) =
          .finished (.ok tree.main.size) s ∧
      s.host.own.told = stops.map (fun m => Stop.told config.previewLength ⟨.breakpoint, m.1⟩) ∧
      s.host.own.left.map (·.breakpoints) = stops.map (fun m => behind m.2) ∧
      s.breakpoints = behind matched.length) ∧
    (∀ call : Call, call.span = none → ∀ source number,
      Breakpoint.Kind.matches call.expression.site (.line source number) = false) ∧
    ∀ call : Call, call.function = none → ∀ name isPartial,
      Breakpoint.Kind.matches call.expression.site (.function name isPartial) = false := by
  intro matched stops behind
  obtain ⟨s, run, follows⟩ := run_follows tree config breakpoints steps attended
  have fresh : breakpoints = { breakpoints with entries := [b.counted 0] } := by
    obtain ⟨entries, next⟩ := breakpoints
    obtain rfl : entries = [b] := single
    obtain ⟨id, kind, enabled, condition, hitCount, target⟩ := b
    obtain rfl : hitCount = 0 := uncounted
    rfl
  have start : Tour.Gated breakpoints b steps.recordedDepth 0
      { watch := ⟨breakpoints, steps.mode, steps.recordedDepth⟩, answers } := by
    refine ⟨?_, rfl, continues⟩
    rw [running, Watch.single, ← fresh]
  obtain ⟨ends, halts⟩ := start.foldl enabled range tree.visits
  have stopped := congrArg (List.map Prod.fst) halts
  have watched := congrArg (List.map Prod.snd) halts
  simp only [List.map_nil, List.nil_append, List.map_map] at stopped watched
  refine ⟨tree.visits_eq_preorder, ⟨s, ?_, ?_, ?_, ?_⟩, ?_, ?_⟩
  · rw [run, Tour.verdict, show (tree.tour _ answers).abandoned = false from ends.going]
    rfl
  · have told := congrArg (List.map (Stop.told config.previewLength)) stopped
    rw [List.map_map, List.map_map] at told
    exact follows.told.trans told
  · have left := congrArg (List.map Watch.breakpoints) watched
    rw [List.map_map, List.map_map] at left
    rw [follows.left, List.map_map]
    exact left
  · have hits := congrArg Watch.breakpoints (follows.watch.trans ends.watch)
    rw [Nat.zero_add, List.countP_eq_length_filter] at hits
    exact hits
  · intro call nowhere source number
    refine Breakpoint.Kind.matches_line_of_no_source ?_ source number
    rw [Expression.site, Call.expression, nowhere]
    rfl
  · intro call anonymous name isPartial
    refine Breakpoint.Kind.matches_function_of_no_name ?_ name isPartial
    rw [Expression.site, Expression.declaredName, Call.expression, anonymous]
    cases call.lambda <;> rfl

/-- A breakpoint on names with an `f` that waits for its second hit. A function of that name is
called three times, once below a function without a declared name, which is not matched. The
program stops at the second of the three calls and at the third one. -/
theorem Player.gated_run_stops_from_second_match :
    let f := Call.mk (some "f") none none [] [] []
    let tree : CallTree :=
      ⟨.mk (some "main") none none [] [] [f, .mk none (some "f") none [] [] [f], f]⟩
    let b : Breakpoint := { id := ⟨"a"⟩, kind := .function "f" true, target := 2 }
    let answers : List Answer := List.replicate 2 { inside := false, mode := some .continue }
    ∃ s, Session.attended (some answer)
        (tree.run (Session.hook react) (session {} { entries := [b] } {} answers)) =
          .finished (.ok 5) s ∧
      s.host.own.told.map (fun told => (told.reason, told.snapshot.depth)) =
        [(.breakpoint, 3), (.breakpoint, 2)] ∧
      s.breakpoints = { entries := [{ b with hitCount := 3 }] } := by
  intro f tree b answers
  have continues : ∀ a ∈ answers, a.Continues := fun a member => by
    obtain rfl := List.eq_of_mem_replicate member
    exact ⟨rfl, rfl⟩
  obtain ⟨-, ⟨s, run, told, -, store⟩, -, -⟩ :=
    @Player.gated_run_stops_from_target b { entries := [b] } {} answers (some answer) rfl rfl rfl
      (by decide) rfl continues (.inr rfl) tree {}
  refine ⟨s, run, ?_, ?_⟩
  · rw [told]
    decide +kernel
  · rw [store]
    decide +kernel

end Debugger
