import Debugger.Proofs.CallTree.Calls
import Debugger.Proofs.Session.Conduct
import Debugger.Proofs.Session.Player

/-! Invariants of sessions. What the engine's own moves and the listeners keep is kept by a
whole run, at every pause and in the end. -/
namespace Debugger
variable {σ ε ℓ α β : Type}

/-- Every state that the run stops in has the property, as long as it is gone on from such
states. -/
inductive Run.All (P : σ → Prop) : Run σ α → Prop where
  | finished {result : α} {s : σ} : P s → All P (.finished result s)
  | parked {pause : Pause} {s : σ} {resume : Release → σ → Run σ α} : P s →
      (∀ r s, P s → All P (resume r s)) → All P (.parked pause s resume)

namespace Run.All
variable {P : σ → Prop} {run : Run σ α}

theorem state (all : All P run) : P run.state := by
  cases all with
  | finished holds => exact holds
  | parked holds _ => exact holds

theorem bind {next : α → σ → Run σ β} (all : All P run)
    (goes : ∀ result s, P s → All P (next result s)) : All P (run.bind next) := by
  induction all with
  | finished holds => exact goes _ _ holds
  | parked holds _ ih => exact .parked holds ih

theorem attempt {hook : Hook (Thread σ)}
    (makes : ∀ call s, P s → (HookCall.make hook call s).All P) (calls : List HookCall) {s : σ}
    (holds : P s) : (HookCall.attempt hook calls s).All P := by
  induction calls generalizing s with
  | nil => exact .finished holds
  | cons call rest ih =>
      refine (makes call s holds).bind fun result s holds => ?_
      cases result with
      | error e => exact .finished holds
      | ok _ => exact ih holds

end Run.All

/-- The property is kept by what a session does on its own account. -/
structure Invariant (P : Session ε ℓ → Prop) : Prop where
  note : ∀ diagnostics s, P s → P (Engine.note diagnostics s)
  setActive : ∀ active s, P s → P (s.setActive active)
  captured : ∀ context s, P s → P (Engine.captureContext context s)
  decided : ∀ expression depth s, P s → P (Engine.decide expression depth s).2
  exited : ∀ expression s, P s → P (Engine.exited expression s)
  install : ∀ expression reason depth s, P s → P (Engine.install expression reason depth s)
  leave : ∀ pause r s, P s → P (Engine.leave pause r s)

/-- On its own account a session with the property tells of such events only. -/
structure Tells (P : Session ε ℓ → Prop) (E : Event → Prop) : Prop where
  started : ∀ function, E (.started function)
  ended : ∀ function, E (.ended function)
  paused : ∀ expression reason depth s, P s →
    E (.paused expression reason (Engine.view expression depth s))
  resumed : E .resumed

theorem Tells.any (P : Session ε ℓ → Prop) : Tells P fun _ => True :=
  ⟨fun _ => trivial, fun _ => trivial, fun _ _ _ _ _ => trivial, trivial⟩

namespace Invariant
open Session
variable {P : Session ε ℓ → Prop} {E : Event → Prop}
  {react : Reaction (StateM (Session ε ℓ)) ℓ} {s : Session ε ℓ}

/-- What a listener that is told and the delivery to those behind it keep. -/
theorem tell_first (invariant : Invariant P) {event : Event} {policy : FailurePolicy}
    {listener : ℓ} {rest : List ℓ} (position : Nat) (kept : P (react listener event s).2)
    (others : ∀ position s, P s → P (tell react policy event position rest s)) :
    P (tell react policy event position (listener :: rest) s) := by
  rw [tell_cons]
  rcases reacted : react listener event s with ⟨_ | panic, left⟩ <;> rw [reacted] at kept
  · exact others (position + 1) left kept
  · have noted := invariant.note [.listenerPanicked event.name position panic] left kept
    cases policy with
    | abort => exact noted
    | «continue» => exact others (position + 1) _ noted

theorem tell (invariant : Invariant P) {event : Event}
    (reacts : ∀ listener s, P s → P (react listener event s).2) (policy : FailurePolicy)
    (position : Nat) (listeners : List ℓ) (holds : P s) :
    P (tell react policy event position listeners s) := by
  induction listeners generalizing position s with
  | nil => exact holds
  | cons listener rest ih =>
      exact invariant.tell_first position (reacts listener s holds) fun position _ => ih position

/-- What each listener keeps is kept by a delivery. -/
theorem after (invariant : Invariant P) {event : Event}
    (reacts : ∀ listener s, P s → P (react listener event s).2) (holds : P s) :
    P (after react event s) :=
  invariant.tell reacts s.config.listenerFailure 0 s.listeners holds

theorem goOn (invariant : Invariant P)
    (reacts : ∀ listener s, P s → P (react listener .resumed s).2) (pause : Pause) (r : Release)
    (holds : P s) : (Engine.goOn (asHost react) pause r s).All P := by
  have left := invariant.leave pause r s holds
  cases r with
  | interrupted => exact .finished left
  | resumed => exact .finished (invariant.after reacts left)

theorem await (invariant : Invariant P)
    (reacts : ∀ listener s, P s → P (react listener .resumed s).2) (pause : Pause)
    (holds : P s) : (Engine.await (asHost react) pause s).All P := by
  rw [Engine.await]
  split
  · exact invariant.goOn reacts pause _ holds
  · exact .parked holds fun r s holds => invariant.goOn reacts pause r holds

theorem pause (invariant : Invariant P) (tells : Tells P E)
    (reacts : ∀ listener event s, E event → P s → P (react listener event s).2)
    (expression : Expression) (reason : StopReason) (depth : Nat) (holds : P s) :
    (Engine.pause (asHost react) expression reason depth s).All P := by
  have installed := invariant.install expression reason depth s holds
  have event := tells.paused expression reason depth s holds
  have told := invariant.after (fun listener s => reacts listener _ s event) installed
  rw [pause_eq]
  exact invariant.await (fun listener s => reacts listener _ s tells.resumed) _ told

/-- Whatever an interpreter calls its hook for, it stops in such states only. -/
theorem make (invariant : Invariant P) (tells : Tells P E)
    (reacts : ∀ listener event s, E event → P s → P (react listener event s).2)
    (call : HookCall) (holds : P s) : (call.make (hook react) s).All P := by
  cases call with
  | start function =>
      have began := invariant.note [.executionStarted function] _
        (invariant.setActive true s holds)
      exact .finished
        (invariant.after (fun listener s => reacts listener _ s (tells.started function)) began)
  | finish function =>
      have stopped := invariant.note [.executionEnded function] _
        (invariant.setActive false s holds)
      exact .finished
        (invariant.after (fun listener s => reacts listener _ s (tells.ended function)) stopped)
  | capture context => exact .finished (invariant.captured context s holds)
  | enter expression parent depth =>
      have decided := invariant.decided expression depth s holds
      change (Engine.enter (asHost react) expression depth s).All P
      cases stops : (Engine.decide expression depth s).1 with
      | none =>
          rw [Engine.enter_of_none _ stops]
          exact .finished decided
      | some reason =>
          rw [Engine.enter_of_some _ stops]
          exact invariant.pause tells reacts expression reason depth decided
  | exit expression => exact .finished (invariant.exited expression s holds)

theorem attempt (invariant : Invariant P) (tells : Tells P E)
    (reacts : ∀ listener event s, E event → P s → P (react listener event s).2)
    (calls : List HookCall) (holds : P s) : (HookCall.attempt (hook react) calls s).All P :=
  .attempt (fun call _ holds => invariant.make tells reacts call holds) calls holds

theorem run (invariant : Invariant P) (tells : Tells P E)
    (reacts : ∀ listener event s, E event → P s → P (react listener event s).2)
    (tree : CallTree) (holds : P s) : (tree.run (hook react) s).All P := by
  rw [run_eq, Turn.takeAll_eq_attempt]
  have began : P (started react tree.main.expression s) :=
    (invariant.make tells reacts (.start tree.main.expression) holds).state
  refine (invariant.attempt tells reacts _ began).bind fun result s holds => .finished ?_
  exact (invariant.make tells reacts (.finish tree.main.expression) holds).state

/-- The engine and the interpreter never touch the listeners' own state. -/
theorem own (Q : ε → Prop) : Invariant fun s : Session ε ℓ => Q s.host.own :=
  ⟨fun _ _ => id, fun _ _ => id, fun _ _ => id, fun _ _ _ => id, fun _ _ => id,
    fun _ _ _ _ => id, fun _ _ _ => id⟩

theorem and {Q : Session ε ℓ → Prop} (one : Invariant P) (other : Invariant Q) :
    Invariant fun s => P s ∧ Q s where
  note _ _ := .imp (one.note _ _) (other.note _ _)
  setActive _ _ := .imp (one.setActive _ _) (other.setActive _ _)
  captured _ _ := .imp (one.captured _ _) (other.captured _ _)
  decided _ _ _ := .imp (one.decided _ _ _) (other.decided _ _ _)
  exited _ _ := .imp (one.exited _ _) (other.exited _ _)
  install _ _ _ _ := .imp (one.install _ _ _ _) (other.install _ _ _ _)
  leave _ _ _ := .imp (one.leave _ _ _) (other.leave _ _ _)

/-- What the controller keeps is kept by an attended run. -/
theorem attended {controller : Option (Session ε ℓ → Session ε ℓ)}
    (controls : ∀ answer, controller = some answer → ∀ s, P s → P (answer s))
    {run : Run (Session ε ℓ) α} (all : run.All P) : P (attended controller run).state := by
  induction all with
  | finished holds => exact holds
  | @parked pause s resume holds goes ih =>
      cases controller with
      | none => exact holds
      | some answer =>
          have answered := controls answer rfl s holds
          rw [Session.attended]
          cases signal : (Engine.slot (answer s) pause.slot).signal with
          | none => exact answered
          | some r => exact ih r (answer s) answered

end Invariant

theorem Engine.journal_releaseWith (r : Release)
    (prepare : Snapshot → Engine ε → β × Engine ε)
    (kept : ∀ snapshot e, (prepare snapshot e).2.journal = e.journal) (e : Engine ε) :
    e.journal ⊆ (e.releaseWith r prepare).2.journal := by
  cases current : e.current with
  | none =>
      rw [releaseWith_free current]
      exact List.subset_append_left _ _
  | some pause =>
      have same : _ = e.journal := kept pause.snapshot { e with current := none }
      simp only [releaseWith, current, same]
      exact List.Subset.refl _

theorem Demand.journal_make (demand : Demand) (s : Session ε ℓ) :
    s.journal ⊆ (demand.make s).2.journal := by
  cases demand with
  | command mode =>
      have grows := Engine.journal_releaseWith .resumed
        (fun snapshot (s : Session ε ℓ) =>
          ((), { s with steps := Session.command mode snapshot.depth s.steps })) (fun _ _ => rfl) s
      simp only [make, Session.resume]
      split
      · exact List.Subset.trans grows (List.subset_append_left _ _)
      · exact grows
  | interrupt =>
      have grows : s.journal ⊆ (Engine.release .interrupted s).2.journal :=
        Engine.journal_releaseWith .interrupted (fun _ s => ((), s)) (fun _ _ => rfl) s
      simp only [make, Session.interrupt]
      cases (Engine.release .interrupted s).1 with
      | false => exact grows
      | true => exact List.Subset.trans grows (List.subset_append_left _ _)

/-- No use of a session takes a diagnostic back. -/
theorem Use.journal_make [DecidableEq ℓ] (u : Use ℓ) (s : Session ε ℓ) :
    s.journal ⊆ (u.make s).2.journal := by
  cases u with
  | demand d => exact d.journal_make s
  | store operation | stepping operation => exact List.subset_append_left _ _
  | reset | register listener | unregister listener => exact List.Subset.refl _

/-- An invariant that the doings of listeners and controllers keep as well. -/
structure Lasting [DecidableEq ℓ] (P : Chronicled ε ℓ → Prop) : Prop extends Invariant P where
  updated : ∀ f s, P s → P (s.updateOwn f)
  used : ∀ u s, P s → P (Use.make u s).2
  ready : ∀ a s, P s → P (Announcement.ready a s)

namespace Lasting
variable [DecidableEq ℓ] {P : Chronicled ε ℓ → Prop} {s : Chronicled ε ℓ}

theorem play (lasting : Lasting P) (c : Conduct ε ℓ) (holds : P s) : P (c.play s).2 := by
  induction c generalizing s with
  | done panic => exact holds
  | look next ih => exact ih s holds
  | keep own next ih => exact ih (lasting.updated _ s holds)
  | use u next ih => exact ih (lasting.updated _ _ (lasting.used u s holds))
  | aside a besides told next parts ih =>
      have reacts (event : Event) (listener : ℓ) (s : Chronicled ε ℓ) (holds : P s) :
          P (Conduct.reactions told listener event s).2 :=
        parts listener event (lasting.updated _ s holds)
      let s₁ := s.jot (.changed s.standing (a.ready s).standing)
      have noted : P (Engine.note (a.news s₁.breakpoints).1 (a.ready s₁)) :=
        lasting.note _ _ (lasting.ready a s₁ (lasting.updated _ s holds))
      refine ih ?_
      change P (a.make (n := Id) (Conduct.reactions told) s₁).2
      rw [a.make_aside besides]
      cases (a.news s₁.breakpoints).2 with
      | none => exact noted
      | some event => exact lasting.after (reacts event) noted

theorem reacts (lasting : Lasting P) (told : ℓ → Event → Conduct ε ℓ) (listener : ℓ)
    (event : Event) (s : Chronicled ε ℓ) (holds : P s) :
    P (Conduct.reactions told listener event s).2 :=
  lasting.play (told listener event) (lasting.updated _ s holds)

/-- What further diagnostics cannot undo is lasting. -/
theorem of_journal (grows : ∀ s t : Chronicled ε ℓ, s.journal ⊆ t.journal → P s → P t) :
    Lasting P where
  note _ _ := grows _ _ (List.subset_append_left _ _)
  setActive _ _ := grows _ _ (List.Subset.refl _)
  captured _ _ := grows _ _ (List.Subset.refl _)
  decided _ _ _ := grows _ _ (List.subset_append_left _ _)
  exited _ _ := grows _ _ (List.Subset.refl _)
  install _ _ _ s := by
    refine grows _ _ ?_
    rw [Engine.install, List.append_assoc]
    exact List.subset_append_left _ _
  leave _ _ _ := grows _ _ (List.subset_append_left _ _)
  updated _ _ := grows _ _ (List.Subset.refl _)
  used u s := grows _ _ (u.journal_make s)
  ready _ _ := grows _ _ (List.Subset.refl _)

end Lasting
end Debugger
