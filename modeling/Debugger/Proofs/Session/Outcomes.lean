import Debugger.Proofs.Session.Stretches

/-! What a whole run comes to: it completes, or somebody interrupts it at a stop, or it waits
for ever at a pause that nobody releases. -/
namespace Debugger
variable {ε ℓ : Type} [DecidableEq ℓ]

/-- The start or the end was announced. -/
structure Announced (s : Chronicled ε ℓ) (event : Event) (notes : List (Note ℓ))
    (s' : Chronicled ε ℓ) : Prop where
  passage : Passage s [event] notes s'
  traces : Traces (Session.standing (s.setActive event.live)) notes s'.standing

/-- A run that takes all its turns. -/
structure Completed (tree : CallTree) (s : Chronicled ε ℓ) (stays : List Stay)
    (notes : List (Note ℓ)) (s' : Chronicled ε ℓ) : Prop where
  passage : Passage s (.started tree.main.expression ::
    (stays.flatMap (Stay.events s.previewLength) ++ [.ended tree.main.expression])) notes s'
  free : s'.current = none
  inactive : s'.isActive = false
  pauses : s'.slots.length = s.slots.length + stays.length
  grants : grants notes = stays.map (Stay.grant s.previewLength)
  visits : (stays.map fun st => st.stop.visit).Sublist tree.visits
  progress : (∀ note ∈ notes, note.Steady) → ∀ commands stops,
    tree.visits.foldl Progress.visit ⟨s.watch, stays.map Stay.mode ++ commands, stops⟩ =
      ⟨s'.watch, commands, stops ++ stays.map Stay.stop⟩
  finished : (∀ note ∈ notes, note.KeepsFinished) →
    s'.steps.lastFinished = some tree.main.expression

/-- A run that is interrupted at a stop, behind some of its turns. -/
structure Interrupted (tree : CallTree) (s : Chronicled ε ℓ) (before : List Turn)
    (stays : List Stay) (stop : Stop) (notes : List (Note ℓ)) (s' : Chronicled ε ℓ) : Prop where
  split : ∃ behind, tree.turns = before ++ .enter stop.visit :: behind
  passage : Passage s (.started tree.main.expression ::
    (stays.flatMap (Stay.events s.previewLength) ++
      [stop.event s.previewLength, .ended tree.main.expression])) notes s'
  free : s'.current = none
  inactive : s'.isActive = false
  pauses : s'.slots.length = s.slots.length + (stays.length + 1)
  grants : grants notes =
    stays.map (Stay.grant s.previewLength) ++ [stop.grant .interrupt s.previewLength]
  visits : (stays.map fun st => st.stop.visit).Sublist (Turn.visits before)
  progress : (∀ note ∈ notes, note.Steady) → ∃ w : Watch, w.reason stop.visit = some stop.reason ∧
    ∀ commands stops,
      (Turn.visits before).foldl Progress.visit ⟨s.watch, stays.map Stay.mode ++ commands, stops⟩ =
        ⟨w, commands, stops ++ stays.map Stay.stop⟩
  /-- From the stop on, if nobody changes the breakpoints or the stepping, they are as in
  the end. -/
  still : ∃ s₁ earlier later, notes = earlier ++ later ∧
    Passage s (.started tree.main.expression :: stays.flatMap (Stay.events s.previewLength))
      earlier s₁ ∧
    Passage s₁ [stop.event s.previewLength, .ended tree.main.expression] later s' ∧
    Debugger.grants later = [stop.grant .interrupt s.previewLength] ∧
    ((∀ note ∈ later, note.Steady) → ∀ note ∈ later, ∀ st ∈ note.standings,
      st.breakpoints = s'.breakpoints ∧ st.steps = s'.steps)

namespace Announced
open Session
variable {s s' : Chronicled ε ℓ} {event : Event} {notes : List (Note ℓ)}

theorem after (p : Party ε ℓ) {event : Event} (run : event.ofRun) (diagnostics : List Diagnostic)
    (free : s.current = none) :
    ∃ notes, Announced s event notes
      (after p.react event (Engine.note diagnostics (s.setActive event.live))) := by
  have sound : (standing (s.setActive event.live)).Sound := .of_free free
  have ready : Passage s [] [] (Engine.note diagnostics (s.setActive event.live)) :=
    .silent rfl rfl rfl rfl
  obtain ⟨notes, delivered⟩ := Delivered.after (Conduct.discreet p.told) event sound
    (s := Engine.note diagnostics (s.setActive event.live))
  exact ⟨notes, ready.trans (.of_delivered run rfl delivered), delivered.course.traces⟩

theorem current (announced : Announced s event notes s') (free : s.current = none) :
    s'.current = none :=
  (announced.traces.free free).1

theorem slots (announced : Announced s event notes s') (free : s.current = none) :
    s'.slots = s.slots :=
  (announced.traces.free free).2.1

theorem grants (announced : Announced s event notes s') (free : s.current = none) :
    grants notes = [] :=
  (announced.traces.free free).2.2

theorem still (announced : Announced s event notes s') (free : s.current = none)
    (steady : ∀ note ∈ notes, note.Steady) :
    (s.breakpoints = s'.breakpoints ∧ s.steps = s'.steps) ∧
      ∀ note ∈ notes, ∀ st ∈ note.standings,
        st.breakpoints = s'.breakpoints ∧ st.steps = s'.steps :=
  announced.traces.still steady (by rw [announced.grants free]; simp)

theorem watch (announced : Announced s event notes s') (free : s.current = none)
    (steady : ∀ note ∈ notes, note.Steady) : s'.watch = s.watch := by
  obtain ⟨breakpoints, steps⟩ := (announced.still free steady).1
  rw [Engine.watch, Engine.watch, breakpoints, steps]

end Announced

section Whole
variable {tree : CallTree} {s s₀ s₁ s₂ s' : Chronicled ε ℓ}
  {opening during notes closing : List (Note ℓ)} {stays : List Stay} {stop : Stop}
  {before behind : List Turn}

theorem Completed.of_stretch (free : s.current = none)
    (started : Announced s (.started tree.main.expression) opening s₀)
    (stretch : Stretch s₀ tree.turns stays notes s₁)
    (ended : Announced s₁ (.ended tree.main.expression) closing s') :
    Completed tree s stays (opening ++ (notes ++ closing)) s' := by
  have previews := started.passage.previews
  have passage := started.passage.trans (stretch.passage.trans ended.passage)
  rw [previews] at passage
  have granted : Debugger.grants (opening ++ (notes ++ closing)) =
      stays.map (Stay.grant s.previewLength) := by
    rw [grants_append, grants_append, started.grants free, ended.grants stretch.free,
      stretch.grants, previews]
    exact List.append_nil _
  exact {
    passage
    free := ended.current stretch.free
    inactive := ended.traces.active
    pauses := by rw [ended.slots stretch.free, stretch.pauses, started.slots free]
    grants := granted
    visits := stretch.visits
    progress := by
      intro steady commands stops
      simp only [List.forall_mem_append] at steady
      obtain ⟨first, others, last⟩ := steady
      rw [ended.watch stretch.free last, ← started.watch free first]
      exact stretch.progress others commands stops
    finished := by
      intro kept
      simp only [List.forall_mem_append] at kept
      obtain ⟨-, during, last⟩ := kept
      have exited : s₁.steps.lastFinished = some tree.main.expression :=
        (stretch.finished during).trans (Turn.lastExited_turns tree.main none {} _)
      exact (ended.traces.finished last).trans exited }

theorem Interrupted.of_break (free : s.current = none)
    (started : Announced s (.started tree.main.expression) opening s₀)
    (split : tree.turns = before ++ .enter stop.visit :: behind)
    (stretch : Stretch s₀ before stays notes s₁) (broken : Break s₁ stop during s₂)
    (ended : Announced s₂ (.ended tree.main.expression) closing s') :
    Interrupted tree s before stays stop (opening ++ (notes ++ (during ++ closing))) s' := by
  have previews := started.passage.previews
  have previews₁ := stretch.passage.previews.trans previews
  have first := started.passage.trans stretch.passage
  have second := broken.passage.trans ended.passage
  rw [previews] at first
  rw [previews₁] at second
  have passage := first.trans second
  rw [List.append_assoc, List.append_assoc] at passage
  have earlier : Debugger.grants (opening ++ notes) = stays.map (Stay.grant s.previewLength) := by
    rw [grants_append, started.grants free, stretch.grants, previews]
    rfl
  have later : Debugger.grants (during ++ closing) = [stop.grant .interrupt s.previewLength] := by
    rw [grants_append, broken.grants, ended.grants broken.free, previews₁]
    rfl
  have still (steady : ∀ note ∈ during ++ closing, note.Steady) :
      ∀ note ∈ during ++ closing, ∀ st ∈ note.standings,
        st.breakpoints = s'.breakpoints ∧ st.steps = s'.steps := by
    rw [List.forall_mem_append] at steady ⊢
    obtain ⟨⟨breakpoints, steps⟩, after⟩ := ended.still broken.free steady.2
    refine ⟨?_, after⟩
    rw [← breakpoints, ← steps]
    exact broken.still steady.1
  exact {
    split := ⟨behind, split⟩
    passage
    free := ended.current broken.free
    inactive := ended.traces.active
    pauses := by
      rw [ended.slots broken.free, broken.pauses, stretch.pauses, started.slots free]
      rfl
    grants := by rw [← List.append_assoc, grants_append, earlier, later]
    visits := stretch.visits
    progress := by
      intro steady
      simp only [List.forall_mem_append] at steady
      refine ⟨s₁.watch, broken.reason, fun commands stops => ?_⟩
      rw [← started.watch free steady.1]
      exact stretch.progress steady.2.1 commands stops
    still := ⟨s₁, opening ++ notes, during ++ closing, (List.append_assoc ..).symm, first, second,
      later, still⟩ }

end Whole

namespace Party
open Session

inductive RunEnds (p : Party ε ℓ) (tree : CallTree) (s : Chronicled ε ℓ) :
    Run (Chronicled ε ℓ) (Except DebugError Nat × List HookCall) → Prop where
  | completed {stays : List Stay} {notes : List (Note ℓ)} {s' : Chronicled ε ℓ} :
      Completed tree s stays notes s' →
      RunEnds p tree s (.finished (.ok tree.main.size, tree.hookCalls) s')
  | interrupted {before : List Turn} {stays : List Stay} {stop : Stop} {notes : List (Note ℓ)}
      {s' : Chronicled ε ℓ} : Interrupted tree s before stays stop notes s' →
      RunEnds p tree s
        (.finished (.error .interrupted, tree.hookCallsOf (before ++ [.enter stop.visit])) s')
  | waiting {pause : Pause} {s' : Chronicled ε ℓ} {resume} : Unanswered p pause s' →
      RunEnds p tree s (.parked pause s' resume)

/-- Reports the end of a program behind its turns, and counts its calls. -/
def wrapUp (p : Party ε ℓ) (tree : CallTree) (made : Except DebugError Unit × List HookCall)
    (s : Chronicled ε ℓ) : Run (Chronicled ε ℓ) (Except DebugError Nat × List HookCall) :=
  .finished (made.1.map fun () => tree.main.size, made.2 ++ [.finish tree.main.expression])
    (ended p.react tree.main.expression s)

theorem recordedRun_eq (p : Party ε ℓ) (tree : CallTree) (s : Chronicled ε ℓ) :
    p.recordedRun tree s = p.attend ((((Turn.takeAll p.hook.recorded tree.turns).run
      [.start tree.main.expression]) (started p.react tree.main.expression s)).bind
        (p.wrapUp tree)) := by
  rw [recordedRun, CallTree.run_recorded]
  rfl

/-- Whoever takes part, a run completes, is interrupted or waits. -/
theorem recordedRun_ends (p : Party ε ℓ) (tree : CallTree) {s : Chronicled ε ℓ}
    (free : s.current = none) : RunEnds p tree s (p.recordedRun tree s) := by
  let f := tree.main.expression
  let s₀ := started p.react f s
  obtain ⟨opening, opened⟩ : ∃ notes, Announced s (.started f) notes s₀ :=
    Announced.after p rfl [.executionStarted f] free
  have closes {s₁ : Chronicled ε ℓ} (free : s₁.current = none) :
      ∃ notes, Announced s₁ (.ended f) notes (ended p.react f s₁) :=
    Announced.after p rfl [.executionEnded f] free
  have taken : Ends p s₀ tree.turns [.start f]
      (p.attend ((Turn.takeAll p.hook.recorded tree.turns).run [.start f] s₀)) :=
    p.takeAll_ends tree.turns [.start f] opened.traces.active (opened.current free)
  rw [recordedRun_eq]
  generalize outcome :
    p.attend ((Turn.takeAll p.hook.recorded tree.turns).run [.start f] s₀) = run at taken
  cases taken with
  | finished stretch =>
      obtain ⟨closing, closed⟩ := closes stretch.free
      have ends := RunEnds.completed (p := p) (.of_stretch free opened stretch closed)
      rw [CallTree.hookCalls_eq_turns] at ends
      rw [attend_bind _ outcome]
      exact ends
  | interrupted split stretch broken =>
      obtain ⟨closing, closed⟩ := closes broken.free
      rw [attend_bind _ outcome]
      exact .interrupted (.of_break free opened split stretch broken closed)
  | waiting unanswered =>
      obtain ⟨rest, parked⟩ := attend_bind_parked (p.wrapUp tree) outcome
      rw [parked]
      exact .waiting unanswered

/-- Without its calls written down the run is the same. -/
theorem run_of_finished {p : Party ε ℓ} {tree : CallTree} {s s' : Chronicled ε ℓ}
    {result : Except DebugError Nat} {calls : List HookCall}
    (recorded : p.recordedRun tree s = .finished (result, calls) s') :
    p.run tree s = .finished result s' := by
  rw [run, ← CallTree.fst_run_recorded p.hook tree []]
  exact attend_bind (fun made s => .finished made.1 s) recorded

theorem run_of_parked {p : Party ε ℓ} {tree : CallTree} {s s' : Chronicled ε ℓ} {pause : Pause}
    {resume} (recorded : p.recordedRun tree s = .parked pause s' resume) :
    ∃ resume, p.run tree s = .parked pause s' resume := by
  rw [run, ← CallTree.fst_run_recorded p.hook tree []]
  exact attend_bind_parked (fun made s => .finished made.1 s) recorded

end Party
end Debugger
