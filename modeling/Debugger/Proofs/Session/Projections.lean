import Debugger.Proofs.Session.Abreast

/-! Projections of sessions. What a session does on its own account it does to its image, so
that sessions with one image have one again after a run, if their listeners see to it. -/
namespace Debugger
variable {ε ε' ε'' ℓ : Type}

/-- A hook before whose calls something else is done. -/
def Hook.preceded {σ : Type} (before : HookCall → σ → σ) (hook : Hook (Thread σ)) :
    Hook (Thread σ) where
  start function s := hook.start function (before (.start function) s)
  finish function s := hook.finish function (before (.finish function) s)
  capture context s := hook.capture context (before (.capture context) s)
  enter expression parent depth s :=
    hook.enter expression parent depth (before (.enter expression parent depth) s)
  exit expression s := hook.exit expression (before (.exit expression) s)

theorem HookCall.make_preceded {σ : Type} (before : HookCall → σ → σ) (hook : Hook (Thread σ))
    (call : HookCall) (s : σ) :
    call.make (hook.preceded before) s = call.make hook (before call s) := by
  cases call <;> rfl

/-- The session with the listeners' own state seen in another way. -/
def Session.mapOwn (see : ε → ε') (s : Session ε ℓ) : Session ε' ℓ :=
  { s with host := { s.host with own := see s.host.own } }

/-- What a session does on its own account, it does to its image. -/
structure Projection (f : Session ε ℓ → Session ε' ℓ) : Prop where
  slots : ∀ s, (f s).slots = s.slots
  listeners : ∀ s, (f s).listeners = s.listeners
  config : ∀ s, (f s).config = s.config
  pause : ∀ expression reason depth s,
    Engine.newPause expression reason depth (f s) = Engine.newPause expression reason depth s
  reason : ∀ expression depth s,
    (Engine.decide expression depth (f s)).1 = (Engine.decide expression depth s).1
  note : ∀ diagnostics s, f (Engine.note diagnostics s) = Engine.note diagnostics (f s)
  setActive : ∀ active s, f (s.setActive active) = (f s).setActive active
  captured : ∀ context s, f (Engine.captureContext context s) = Engine.captureContext context (f s)
  decided : ∀ expression depth s,
    f (Engine.decide expression depth s).2 = (Engine.decide expression depth (f s)).2
  exited : ∀ expression s, f (Engine.exited expression s) = Engine.exited expression (f s)
  install : ∀ expression reason depth s,
    f (Engine.install expression reason depth s) = Engine.install expression reason depth (f s)
  leave : ∀ pause r s, f (Engine.leave pause r s) = Engine.leave pause r (f s)

namespace Projection
open Session

theorem mapOwn (see : ε → ε') : Projection (Session.mapOwn see : Session ε ℓ → Session ε' ℓ) := by
  constructor <;> intros <;> rfl

theorem self : Projection (fun s : Session ε ℓ => s) := by
  constructor <;> intros <;> rfl

/-- Two doings break off in the same way and leave the same image, if they find the same. -/
def Agree (f : Session ε ℓ → Session ε'' ℓ) (g : Session ε' ℓ → Session ε'' ℓ)
    (act : Session ε ℓ → Option Panic × Session ε ℓ)
    (act' : Session ε' ℓ → Option Panic × Session ε' ℓ) : Prop :=
  ∀ s t, f s = g t → (act s).1 = (act' t).1 ∧ f (act s).2 = g (act' t).2

variable {f : Session ε ℓ → Session ε'' ℓ} {g : Session ε' ℓ → Session ε'' ℓ}
  {react : Reaction (StateM (Session ε ℓ)) ℓ} {react' : Reaction (StateM (Session ε' ℓ)) ℓ}
  {s : Session ε ℓ} {t : Session ε' ℓ}

theorem tell (one : Projection f) (other : Projection g) {event : Event}
    (agree : ∀ listener, Agree f g (react listener event) (react' listener event))
    (policy : FailurePolicy) (position : Nat) (listeners : List ℓ) (same : f s = g t) :
    f (Session.tell react policy event position listeners s) =
      g (Session.tell react' policy event position listeners t) := by
  induction listeners generalizing position s t with
  | nil => exact same
  | cons listener rest ih =>
      obtain ⟨panics, left⟩ := agree listener s t same
      rw [tell_cons, tell_cons]
      rcases reacted : react listener event s with ⟨_ | panic, s₁⟩ <;>
        rcases reacted' : react' listener event t with ⟨_ | panic', t₁⟩ <;>
        rw [reacted, reacted'] at panics left
      · exact ih (position + 1) left
      · cases panics
      · cases panics
      · obtain rfl : panic = panic' := Option.some.inj panics
        have noted : f (Engine.note [.listenerPanicked event.name position panic] s₁) =
            g (Engine.note [.listenerPanicked event.name position panic] t₁) := by
          rw [one.note, other.note, left]
        cases policy with
        | abort => exact noted
        | «continue» => exact ih (position + 1) noted

/-- An event is delivered to listeners that agree. -/
theorem after (one : Projection f) (other : Projection g) {event : Event}
    (agree : ∀ listener, Agree f g (react listener event) (react' listener event))
    (same : f s = g t) : f (Session.after react event s) = g (Session.after react' event t) := by
  have config : s.config = t.config := by rw [← one.config, same, other.config]
  have listeners : s.listeners = t.listeners := by rw [← one.listeners, same, other.listeners]
  rw [after_eq_tell, after_eq_tell, config, listeners]
  exact one.tell other agree _ 0 _ same

theorem coupling (one : Projection f) (other : Projection g)
    (agree : ∀ listener event, Agree f g (react listener event) (react' listener event)) :
    Coupling react react' (fun s t => f s = g t) fun _ => False where
  lasts := .own fun _ => False
  reacts _ _ _ := id
  slots s t same := by rw [← other.slots, ← same, one.slots]
  reason expression depth s t same := by rw [← other.reason, ← same, one.reason]
  pause expression reason depth s t same := by rw [← other.pause, ← same, one.pause]
  note diagnostics s t same := by rw [one.note, same, other.note]
  setActive active s t same := by rw [one.setActive, same, other.setActive]
  captured context s t same := by rw [one.captured, same, other.captured]
  decided expression depth s t same := by rw [one.decided, same, other.decided]
  exited expression s t same := by rw [one.exited, same, other.exited]
  install expression reason depth s t same := by rw [one.install, same, other.install]
  leave pause r s t same := by rw [one.leave, same, other.leave]
  told event _ _ same := .inl (one.after other (agree · event) same)

/-- Sessions with one image have one again after an attended run, if the listeners and the
controllers agree, and whatever is done before the calls of the hook. -/
theorem run (one : Projection f) (other : Projection g)
    (agree : ∀ listener event, Agree f g (react listener event) (react' listener event))
    {before : HookCall → Session ε ℓ → Session ε ℓ}
    {before' : HookCall → Session ε' ℓ → Session ε' ℓ}
    (keeps : ∀ call s t, f s = g t → f (before call s) = g (before' call t))
    {controller : Option (Session ε ℓ → Session ε ℓ)}
    {controller' : Option (Session ε' ℓ → Session ε' ℓ)}
    (controls : Option.Rel (fun act act' => ∀ s t, f s = g t → f (act s) = g (act' t))
      controller controller')
    (tree : CallTree) (same : f s = g t) :
    let run := attended controller (tree.run ((hook react).preceded before) s)
    let run' := attended controller' (tree.run ((hook react').preceded before') t)
    run'.result? = run.result? ∧ f run.state = g run'.state := by
  have coupling := one.coupling other agree
  have makes (call : HookCall) (s : Session ε ℓ) (t : Session ε' ℓ) (same : f s = g t) :
      Run.Abreast (fun s t => f s = g t) (fun _ => False)
        (call.make ((hook react).preceded before) s)
        (call.make ((hook react').preceded before') t) := by
    rw [HookCall.make_preceded, HookCall.make_preceded]
    exact coupling.make call (keeps call s t same)
  have abreast := Run.Abreast.run makes (fun _ _ gone => gone.elim) tree same
  refine (abreast.attended_both coupling.slots ?_ fun _ _ _ => id).resolve_right id
  cases controls with
  | none => exact .none
  | some keeps => exact .some fun s t same => .inl (keeps s t same)

end Projection
end Debugger
