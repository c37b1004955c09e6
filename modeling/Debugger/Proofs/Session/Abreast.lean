import Debugger.Proofs.Session.Invariants

/-! Runs side by side. Two sessions that do the same on their own account stay related through
a whole run, as long as no delivery of an event parts them for good. -/
namespace Debugger
variable {σ τ ε ε' ℓ ℓ' α β : Type}

/-- Two runs stop at the same pauses and return the same, in related states, as long as they
are gone on from related states. The second may be lost instead. -/
inductive Run.Abreast (R : σ → τ → Prop) (Lost : τ → Prop) : Run σ α → Run τ α → Prop where
  | finished (result : α) {s : σ} {t : τ} : R s t →
      Abreast R Lost (.finished result s) (.finished result t)
  | parked (pause : Pause) {s : σ} {t : τ} {resume : Release → σ → Run σ α}
      {other : Release → τ → Run τ α} : R s t →
      (∀ r s t, R s t → Abreast R Lost (resume r s) (other r t)) →
      (∀ r t, Lost t → (other r t).All Lost) →
      Abreast R Lost (.parked pause s resume) (.parked pause t other)
  | lost {run : Run σ α} {other : Run τ α} : other.All Lost → Abreast R Lost run other

namespace Run.Abreast
variable {R : σ → τ → Prop} {Lost : τ → Prop}

theorem bind {run : Run σ α} {other : Run τ α} {next : α → σ → Run σ β} {next' : α → τ → Run τ β}
    (abreast : Abreast R Lost run other)
    (goes : ∀ result s t, R s t → Abreast R Lost (next result s) (next' result t))
    (lost : ∀ result t, Lost t → (next' result t).All Lost) :
    Abreast R Lost (run.bind next) (other.bind next') := by
  induction abreast with
  | finished result related => exact goes result _ _ related
  | parked pause related _ all ih =>
      exact .parked pause related ih fun r t gone => (all r t gone).bind lost
  | lost all => exact .lost (all.bind lost)

section Hooks
variable {hook : Hook (Thread σ)} {other : Hook (Thread τ)} {s : σ} {t : τ}

theorem attempt
    (makes : ∀ call s t, R s t → Abreast R Lost (HookCall.make hook call s)
      (HookCall.make other call t))
    (lost : ∀ call t, Lost t → (HookCall.make other call t).All Lost) (calls : List HookCall)
    (related : R s t) :
    Abreast R Lost (HookCall.attempt hook calls s) (HookCall.attempt other calls t) := by
  induction calls generalizing s t with
  | nil => exact .finished _ related
  | cons call rest ih =>
      refine (makes call s t related).bind (fun result s t related => ?_) fun result t gone => ?_
      · cases result with
        | error e => exact .finished _ related
        | ok _ => exact ih related
      · cases result with
        | error e => exact .finished gone
        | ok _ => exact .attempt lost rest gone

/-- Programs run abreast under hooks that do for each call. -/
theorem run
    (makes : ∀ call s t, R s t → Abreast R Lost (HookCall.make hook call s)
      (HookCall.make other call t))
    (lost : ∀ call t, Lost t → (HookCall.make other call t).All Lost) (tree : CallTree)
    (related : R s t) : Abreast R Lost (tree.run hook s) (tree.run other t) := by
  have ends (result : Except DebugError Unit) (t : τ) (gone : Lost t) :
      ((HookCall.make other (.finish tree.main.expression) t).bind fun _ t =>
        Run.finished (result.map fun () => tree.main.size) t).All Lost :=
    (lost _ t gone).bind fun _ t gone => .finished gone
  rw [tree.run_eq_make, tree.run_eq_make]
  refine (makes _ s t related).bind (fun _ s t related => ?_) fun _ t gone =>
    (Run.All.attempt lost _ gone).bind ends
  refine (attempt makes lost _ related).bind (fun result s t related => ?_) ends
  exact (makes _ s t related).bind (fun _ s t related => .finished _ related) fun _ t gone =>
    .finished gone

end Hooks

/-- Controllers that keep the states related keep the runs abreast to their end. -/
theorem attended_both {R : Session ε ℓ → Session ε' ℓ' → Prop} {Lost : Session ε' ℓ' → Prop}
    {controller : Option (Session ε ℓ → Session ε ℓ)}
    {controller' : Option (Session ε' ℓ' → Session ε' ℓ')}
    (slots : ∀ s t, R s t → t.slots = s.slots)
    (controls : Option.Rel (fun answer answer' =>
      ∀ s t, R s t → R (answer s) (answer' t) ∨ Lost (answer' t)) controller controller')
    (lasts : ∀ answer, controller' = some answer → ∀ t, Lost t → Lost (answer t))
    {run : Run (Session ε ℓ) α} {other : Run (Session ε' ℓ') α}
    (abreast : Abreast R Lost run other) :
    ((Session.attended controller' other).result? = (Session.attended controller run).result? ∧
      R (Session.attended controller run).state (Session.attended controller' other).state) ∨
    Lost (Session.attended controller' other).state := by
  induction abreast with
  | finished result related => exact .inl ⟨rfl, related⟩
  | lost all => exact .inr (Invariant.attended lasts all)
  | @parked pause s t resume other related _ all ih =>
      cases controls with
      | none => exact .inl ⟨rfl, related⟩
      | @some answer answer' keeps =>
          simp only [Session.attended]
          rcases keeps s t related with related | gone
          · have same : Engine.slot (answer' t) pause.slot = Engine.slot (answer s) pause.slot :=
              congrArg (List.getD · pause.slot ({} : Slot)) (slots _ _ related)
            rw [same]
            cases (Engine.slot (answer s) pause.slot).signal with
            | none => exact .inl ⟨rfl, related⟩
            | some r => exact ih r _ _ related
          · right
            cases (Engine.slot (answer' t) pause.slot).signal with
            | none => exact gone
            | some r => exact Invariant.attended lasts (all r _ gone)

/-- A controller that keeps the states related keeps the runs abreast to their end. -/
theorem attended {R : Session ε ℓ → Session ε ℓ → Prop} {Lost : Session ε ℓ → Prop}
    {controller : Option (Session ε ℓ → Session ε ℓ)}
    (slots : ∀ s t, R s t → t.slots = s.slots)
    (controls : ∀ answer, controller = some answer →
      ∀ s t, R s t → R (answer s) (answer t) ∨ Lost (answer t))
    (lasts : ∀ answer, controller = some answer → ∀ t, Lost t → Lost (answer t))
    {run other : Run (Session ε ℓ) α} (abreast : Abreast R Lost run other) :
    ((Session.attended controller other).result? = (Session.attended controller run).result? ∧
      R (Session.attended controller run).state (Session.attended controller other).state) ∨
    Lost (Session.attended controller other).state := by
  refine abreast.attended_both slots ?_ lasts
  cases controller with
  | none => exact .none
  | some answer => exact .some (controls answer rfl)

end Run.Abreast

/-- Related sessions agree in what the engine reads, and stay related by what a session does
on its own account. A delivery may lose the second session. -/
structure Coupling (react : Reaction (StateM (Session ε ℓ)) ℓ)
    (react' : Reaction (StateM (Session ε' ℓ')) ℓ') (R : Session ε ℓ → Session ε' ℓ' → Prop)
    (Lost : Session ε' ℓ' → Prop) : Prop where
  lasts : Invariant Lost
  reacts : ∀ listener event t, Lost t → Lost (react' listener event t).2
  slots : ∀ s t, R s t → t.slots = s.slots
  reason : ∀ expression depth s t, R s t →
    (Engine.decide expression depth t).1 = (Engine.decide expression depth s).1
  pause : ∀ expression reason depth s t, R s t →
    Engine.newPause expression reason depth t = Engine.newPause expression reason depth s
  note : ∀ diagnostics s t, R s t → R (Engine.note diagnostics s) (Engine.note diagnostics t)
  setActive : ∀ active s t, R s t → R (s.setActive active) (t.setActive active)
  captured : ∀ context s t, R s t →
    R (Engine.captureContext context s) (Engine.captureContext context t)
  decided : ∀ expression depth s t, R s t →
    R (Engine.decide expression depth s).2 (Engine.decide expression depth t).2
  exited : ∀ expression s t, R s t → R (Engine.exited expression s) (Engine.exited expression t)
  install : ∀ expression reason depth s t, R s t →
    R (Engine.install expression reason depth s) (Engine.install expression reason depth t)
  leave : ∀ pause r s t, R s t → R (Engine.leave pause r s) (Engine.leave pause r t)
  told : ∀ event s t, R s t → R (Session.after react event s) (Session.after react' event t) ∨
    Lost (Session.after react' event t)

namespace Coupling
open Session
variable {react : Reaction (StateM (Session ε ℓ)) ℓ} {react' : Reaction (StateM (Session ε' ℓ')) ℓ'}
  {R : Session ε ℓ → Session ε' ℓ' → Prop} {Lost : Session ε' ℓ' → Prop} {s : Session ε ℓ}
  {t : Session ε' ℓ'}

theorem tell (coupling : Coupling react react' R Lost) (event : Event) (result : α)
    (related : R s t) :
    Run.Abreast R Lost (.finished result (after react event s))
      (.finished result (after react' event t)) := by
  rcases coupling.told event s t related with related | gone
  · exact .finished result related
  · exact .lost (.finished gone)

theorem goOn (coupling : Coupling react react' R Lost) (pause : Pause) (r : Release)
    (related : R s t) :
    Run.Abreast R Lost (Engine.goOn (asHost react) pause r s)
      (Engine.goOn (asHost react') pause r t) := by
  have left := coupling.leave pause r s t related
  cases r with
  | interrupted => exact .finished _ left
  | resumed => exact coupling.tell .resumed _ left

theorem await (coupling : Coupling react react' R Lost) (pause : Pause) (related : R s t) :
    Run.Abreast R Lost (Engine.await (asHost react) pause s)
      (Engine.await (asHost react') pause t) := by
  rw [Engine.await, Engine.await, Engine.slot, Engine.slot, coupling.slots s t related]
  split
  · exact coupling.goOn pause _ related
  · refine .parked pause related (fun r s t related => coupling.goOn pause r related) ?_
    exact fun r t gone => coupling.lasts.goOn (coupling.reacts · _ ·) pause r gone

theorem pauses (coupling : Coupling react react' R Lost) (expression : Expression)
    (reason : StopReason) (depth : Nat) (related : R s t) :
    Run.Abreast R Lost (Engine.pause (asHost react) expression reason depth s)
      (Engine.pause (asHost react') expression reason depth t) := by
  have same := coupling.pause expression reason depth s t related
  have view : Engine.view expression depth t = Engine.view expression depth s :=
    congrArg Pause.snapshot same
  have installed := coupling.install expression reason depth s t related
  rw [pause_eq, pause_eq, same, view]
  rcases coupling.told (.paused expression reason (Engine.view expression depth s)) _ _ installed
    with related | gone
  · exact coupling.await _ related
  · exact .lost (coupling.lasts.await (coupling.reacts · _ ·) _ gone)

theorem make (coupling : Coupling react react' R Lost) (call : HookCall) (related : R s t) :
    Run.Abreast R Lost (call.make (hook react) s) (call.make (hook react') t) := by
  cases call with
  | start function =>
      exact coupling.tell _ _ (coupling.note _ _ _ (coupling.setActive true s t related))
  | finish function =>
      exact coupling.tell _ _ (coupling.note _ _ _ (coupling.setActive false s t related))
  | capture context => exact .finished _ (coupling.captured context s t related)
  | enter expression parent depth =>
      have decided := coupling.decided expression depth s t related
      have reason := coupling.reason expression depth s t related
      change Run.Abreast R Lost (Engine.enter (asHost react) expression depth s)
        (Engine.enter (asHost react') expression depth t)
      cases stops : (Engine.decide expression depth s).1 with
      | none =>
          rw [Engine.enter_of_none _ stops, Engine.enter_of_none _ (reason.trans stops)]
          exact .finished _ decided
      | some why =>
          rw [Engine.enter_of_some _ stops, Engine.enter_of_some _ (reason.trans stops)]
          exact coupling.pauses expression why depth decided
  | exit expression => exact .finished _ (coupling.exited expression s t related)

theorem lost (coupling : Coupling react react' R Lost) (call : HookCall) (gone : Lost t) :
    (call.make (hook react') t).All Lost :=
  coupling.lasts.make (.any _) (fun listener event t _ => coupling.reacts listener event t) call
    gone

/-- Programs under related sessions run abreast. -/
theorem run (coupling : Coupling react react' R Lost) (tree : CallTree) (related : R s t) :
    Run.Abreast R Lost (tree.run (hook react) s) (tree.run (hook react') t) :=
  .run (fun call _ _ => coupling.make call) (fun call _ => coupling.lost call) tree related

end Coupling
end Debugger
