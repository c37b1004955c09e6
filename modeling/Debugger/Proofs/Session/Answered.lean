import Debugger.Proofs.Session.Outcomes

/-! Runs whose pauses are all answered. Main statements: what listeners hear of such a run,
and that a run answered with commands only is the run without a debugger. -/
namespace Debugger
variable {ε ℓ : Type} [DecidableEq ℓ]

/-- The events of a run that stops here and there, and is interrupted at the last stop if
one is given. -/
def CallTree.log (tree : CallTree) (previewLength : Nat) (stops : List Stop)
    (last : Option Stop) : List Event :=
  .started tree.main.expression ::
    (stops.flatMap (fun stop => [stop.event previewLength, .resumed]) ++
      (last.toList.map (Stop.event previewLength) ++ [.ended tree.main.expression]))

theorem CallTree.run_quiet (tree : CallTree) :
    tree.run (Hook.quiet (m := Id)) = .ok tree.main.size := by
  have accepts : (Hook.quiet (m := Id)).Accepts := fun _ _ _ => rfl
  rw [tree.run_of_accepts accepts]
  rfl

section Logs
variable {tree : CallTree} {s s' : Chronicled ε ℓ} {stays : List Stay} {notes : List (Note ℓ)}

theorem Completed.rounds (completed : Completed tree s stays notes s') :
    ∃ rounds, Rounds s.listeners s.config.listenerFailure
      (tree.log s.previewLength (stays.map Stay.stop) none) notes rounds := by
  rw [CallTree.log, List.flatMap_map]
  exact completed.passage.rounds

theorem Interrupted.rounds {before : List Turn} {stop : Stop}
    (interrupted : Interrupted tree s before stays stop notes s') :
    ∃ rounds, Rounds s.listeners s.config.listenerFailure
      (tree.log s.previewLength (stays.map Stay.stop) (some stop)) notes rounds := by
  rw [CallTree.log, List.flatMap_map]
  exact interrupted.passage.rounds

end Logs

namespace Party
variable {p : Party ε ℓ} {tree : CallTree} {s : Chronicled ε ℓ} {config : Config}

/-- Somebody who takes every pause away leaves none unanswered. -/
theorem not_waits_of_controller {act : Conduct ε ℓ} (controller : p.controller = some act)
    (answers : ∀ (s : Chronicled ε ℓ) pause, s.Outstanding pause → (act.play s).2.current = none)
    (free : s.current = none) : ¬ (p.run tree s).Waits := by
  have ends := p.recordedRun_ends tree free
  generalize outcome : p.recordedRun tree s = run at ends
  cases ends with
  | completed => exact run_of_finished outcome ▸ id
  | interrupted => exact run_of_finished outcome ▸ id
  | waiting unanswered =>
      obtain ⟨s₁, outstanding, rfl⟩ := unanswered.acted act controller
      have gone := unanswered.outstanding.current
      rw [answers s₁ _ outstanding] at gone
      contradiction

/-- A run whose pauses are all answered completes, or is interrupted at a stop. -/
theorem answered_ends (free : s.current = none) (fresh : s.notes = [])
    (answered : ¬ (p.run tree s).Waits) :
    (∃ stays s', p.recordedRun tree s = .finished (.ok tree.main.size, tree.hookCalls) s' ∧
        Completed tree s stays s'.notes s') ∨
      ∃ before stays stop s', p.recordedRun tree s = .finished (.error .interrupted,
          tree.hookCallsOf (before ++ [.enter stop.visit])) s' ∧
        Interrupted tree s before stays stop s'.notes s' := by
  have ends := p.recordedRun_ends tree free
  generalize outcome : p.recordedRun tree s = run at ends
  cases ends with
  | @completed stays notes s' completed =>
      have noted := completed.passage.noted
      rw [fresh, List.nil_append] at noted
      exact .inl ⟨stays, s', rfl, noted ▸ completed⟩
  | @interrupted before stays stop notes s' interrupted =>
      have noted := interrupted.passage.noted
      rw [fresh, List.nil_append] at noted
      exact .inr ⟨before, stays, stop, s', rfl, noted ▸ interrupted⟩
  | waiting unanswered =>
      obtain ⟨resume, parked⟩ := run_of_parked outcome
      rw [parked] at answered
      exact absurd unanswered.outstanding answered

theorem answered_rounds (breakpoints : Store) (steps : Steps)
    (answered : ¬ (p.run tree (p.session config breakpoints steps)).Waits) :
    ∃ (s : Chronicled ε ℓ) (stops : List Stop) (last : Option Stop) (rounds : List (Round ℓ)),
      p.run tree (p.session config breakpoints steps) =
        .finished (if last.isSome then .error .interrupted else .ok tree.main.size) s ∧
      Rounds p.listeners config.listenerFailure (tree.log config.previewLength stops last)
        s.notes rounds := by
  obtain ⟨stays, s, outcome, completed⟩ | ⟨_, stays, stop, s, outcome, interrupted⟩ :=
    answered_ends rfl rfl answered
  · obtain ⟨rounds, rounded⟩ := completed.rounds
    exact ⟨s, stays.map Stay.stop, none, rounds, run_of_finished outcome, rounded⟩
  · obtain ⟨rounds, rounded⟩ := interrupted.rounds
    exact ⟨s, stays.map Stay.stop, some stop, rounds, run_of_finished outcome, rounded⟩

/-- Under a policy that tells the others when a listener breaks off, a run whose pauses are
all answered tells its events in rounds, and whoever stays registered hears all of them:
the start, each pause and that it is resumed, a last pause if it is interrupted there, and
the end. The session is active except at the end. -/
theorem registered_listener_hears_run (p : Party ε ℓ) (tree : CallTree)
    (policy : config.listenerFailure = .continue) (breakpoints : Store) (steps : Steps)
    (answered : ¬ (p.run tree (p.session config breakpoints steps)).Waits) :
    ∃ (s : Chronicled ε ℓ) (stops : List Stop) (last : Option Stop) (rounds : List (Round ℓ)),
      p.run tree (p.session config breakpoints steps) =
        .finished (if last.isSome then .error .interrupted else .ok tree.main.size) s ∧
      Rounds p.listeners .continue (tree.log config.previewLength stops last) s.notes rounds ∧
      ∀ listener, (∀ note ∈ s.notes, note.Spares listener) →
        (heard s.notes).filter (fun h => h.listener = listener) =
          (tree.log config.previewLength stops last).flatMap fun event =>
            List.replicate (p.listeners.count listener) ⟨listener, event, event.live⟩ := by
  obtain ⟨s, stops, last, rounds, ran, rounded⟩ := answered_rounds breakpoints steps answered
  rw [policy] at rounded
  exact ⟨s, stops, last, rounds, ran, rounded, fun _ spared => rounded.log spared⟩

/-- Listener 0 breaks off at every event, and listener 1 steps into from the first pause and
interrupts the second one. Listener 2 hears five events, and so does listener 3, who stands
in front of them. -/
theorem registered_listener_hears_interrupted_run :
    let leaf := Call.mk (some "leaf") none none [] [] []
    let tree : CallTree := ⟨.mk (some "main") none none [] [] [leaf, leaf]⟩
    let told : Nat → Event → Conduct Unit Nat
      | 0, _ => .done (some .payload)
      | 1, .paused .. => .look fun s =>
          if s.slots.length = 1 then .use (.demand (.command .into)) (.done none)
          else .use (.demand .interrupt) (.done none)
      | _, _ => .done none
    let p : Party Unit Nat := { listeners := [3, 0, 1, 2], told, own := () }
    let s := p.session {} {} { mode := .into }
    ({} : Config).listenerFailure = .continue ∧ ¬ (p.run tree s).Waits ∧
      ∃ (s' : Chronicled Unit Nat) (stops : List Stop) (last : Stop),
        p.run tree s = .finished (.error .interrupted) s' ∧ (heard s'.notes).length = 20 ∧
        ∀ listener ∈ [2, 3], (heard s'.notes).filter (fun h => h.listener = listener) =
          (tree.log Preview.defaultLength stops (some last)).flatMap fun event =>
            [⟨listener, event, event.live⟩] := by
  intro leaf tree told p s
  have answered : ¬ (p.run tree s).Waits := by decide +kernel
  have failed : (p.run tree s).result?.map Except.isOk = some false := by decide +kernel
  refine ⟨rfl, answered, ?_⟩
  obtain ⟨s', stops, last, rounds, ran, -, logs⟩ :=
    p.registered_listener_hears_run tree rfl {} { mode := .into } answered
  have final : s' = (p.run tree s).state := by rw [ran]; rfl
  have spared : ∀ listener ∈ [2, 3], ∀ note ∈ s'.notes, note.Spares listener := by
    rw [final]
    decide +kernel
  rw [ran] at failed
  cases last with
  | none => cases failed
  | some last =>
      refine ⟨s', stops, last, ran, by rw [final]; decide +kernel, fun listener member => ?_⟩
      rw [logs listener (spared listener member)]
      obtain rfl | rfl : listener = 2 ∨ listener = 3 := by simpa using member
      · rfl
      · rfl

/-- A run whose pauses are all answered with commands is the run without a debugger: it
returns the number of calls and makes the same calls to its hook, entries in preorder and
exits in postorder. It stops at most once at each call, and leaves no pause behind. -/
theorem commanded_run_is_transparent (p : Party ε ℓ) (tree : CallTree) (config : Config)
    (breakpoints : Store) (steps : Steps)
    (answered : ¬ (p.run tree (p.session config breakpoints steps)).Waits)
    (commanded : ∀ g ∈ grants (p.run tree (p.session config breakpoints steps)).state.notes,
      g.demand ≠ .interrupt) :
    ∃ (s : Chronicled ε ℓ) (stops : List Stop) (rounds : List (Round ℓ)),
      p.run tree (p.session config breakpoints steps) = .finished (.ok tree.main.size) s ∧
      tree.run (Hook.quiet (m := Id)) = .ok tree.main.size ∧
      p.recordedRun tree (p.session config breakpoints steps) =
        .finished (.ok tree.main.size, tree.hookCalls) s ∧
      tree.hookCalls.filterMap HookCall.entered? =
        (tree.main.preorder 1).map (fun entry => (entry.1, entry.2.expression)) ∧
      tree.hookCalls.filterMap HookCall.exited? = tree.main.postorder.map Call.expression ∧
      (stops.map fun stop => (stop.visit.level, stop.visit.call)).Sublist (tree.main.preorder 1) ∧
      s.slots.length = stops.length ∧
      Rounds p.listeners config.listenerFailure (tree.log config.previewLength stops none)
        s.notes rounds ∧
      s.isPaused = false ∧ s.isActive = false ∧
      ((∀ note ∈ s.notes, note.KeepsFinished) →
        s.steps.lastFinished = some tree.main.expression) := by
  obtain ⟨stays, s, outcome, completed⟩ | ⟨_, stays, stop, s, outcome, interrupted⟩ :=
    answered_ends rfl rfl answered
  · obtain ⟨rounds, rounded⟩ := completed.rounds
    have once : ((stays.map Stay.stop).map fun stop => (stop.visit.level, stop.visit.call)).Sublist
        (tree.main.preorder 1) := by
      have visits := completed.visits.map fun v => (v.level, v.call)
      rw [List.map_map, tree.visits_eq_preorder] at visits
      rwa [List.map_map]
    have pauses : s.slots.length = (stays.map Stay.stop).length := by
      rw [completed.pauses, List.length_map]
      exact Nat.zero_add _
    have unpaused : s.isPaused = false := by
      rw [Engine.isPaused, completed.free]
      rfl
    exact ⟨s, stays.map Stay.stop, rounds, run_of_finished outcome, tree.run_quiet, outcome,
      tree.entered_hookCalls, tree.exited_hookCalls, once, pauses, rounded, unpaused,
      completed.inactive, completed.finished⟩
  · -- An interrupted run has an interrupt among its grants.
    have granted : stop.grant .interrupt config.previewLength ∈ grants s.notes := by
      rw [interrupted.grants]
      exact List.mem_append_right _ List.mem_cons_self
    rw [run_of_finished outcome] at commanded
    exact absurd rfl (commanded _ granted)

/-- A listener steps into from the root, where it breaks off afterwards; the controller steps
over from what is left. -/
theorem commanded_run_is_transparent_with_controller :
    let leaf := Call.mk (some "leaf") none none [] [] []
    let tree : CallTree :=
      ⟨.mk (some "main") none none [] [] [.mk none (some "twice") none [] [] [leaf, leaf], leaf]⟩
    let told : Nat → Event → Conduct Unit Nat
      | 0, .paused _ _ ⟨_, _, 1, _⟩ => .use (.demand (.command .into)) (.done (some .payload))
      | _, _ => .done none
    let p : Party Unit Nat := {
      listeners := [0, 1], told, own := ()
      controller := some (.use (.demand (.command .over)) (.done none)) }
    let s := p.session {} {} { mode := .into }
    ¬ (p.run tree s).Waits ∧ (∀ g ∈ grants (p.run tree s).state.notes, g.demand ≠ .interrupt) ∧
      ∃ s' : Chronicled Unit Nat, p.run tree s = .finished (.ok 5) s' ∧
        s'.slots.length = 3 ∧ s'.isPaused = false ∧
        p.recordedRun tree s = .finished (.ok 5, tree.hookCalls) s' ∧
        tree.main.postorder.map Call.function = [some "leaf", some "leaf", none, some "leaf",
          some "main"] := by
  intro leaf tree told p s
  have answered : ¬ (p.run tree s).Waits := by decide +kernel
  have commanded : ∀ g ∈ grants (p.run tree s).state.notes, g.demand ≠ .interrupt := by
    decide +kernel
  refine ⟨answered, commanded, ?_⟩
  obtain ⟨s', stops, rounds, ran, -, recorded, -, -, -, -, -, free, -⟩ :=
    p.commanded_run_is_transparent tree {} {} { mode := .into } answered commanded
  have final : s' = (p.run tree s).state := by rw [ran]; rfl
  exact ⟨s', ran, by rw [final]; decide +kernel, free, recorded, rfl⟩

end Party
end Debugger
