import Debugger.Proofs.Pause.Entry

/-! Releases. A pause is outstanding from its installation until somebody detaches
it, and as long its slot has no signal; the one who detaches it gives the signal. -/
namespace Debugger

/-- What a paused entry returns once it is released. -/
def Release.verdict : Release → Except DebugError Unit
  | .resumed => .ok ()
  | .interrupted => .error .interrupted

namespace Engine
variable {ε α : Type}

/-- The pause is the current one and nobody has released it. -/
structure Outstanding (pause : Pause) (e : Engine ε) : Prop where
  current : e.current = some pause
  unreleased : e.slots[pause.slot]? = some {}

def detach (pause : Pause) (r : Release) (e : Engine ε) : Engine ε :=
  { e with current := none, slots := e.slots.set pause.slot ⟨some r⟩ }

theorem outstanding_install (expression : Expression) (reason : StopReason) (depth : Nat)
    (e : Engine ε) :
    Outstanding (e.newPause expression reason depth) (e.install expression reason depth) where
  current := rfl
  unreleased := by simp [install, newPause]

theorem Outstanding.slot {pause : Pause} {e : Engine ε} (outstanding : Outstanding pause e) :
    e.slot pause.slot = {} := by
  simp [Engine.slot, List.getD_eq_getElem?_getD, outstanding.unreleased]

theorem Outstanding.bound {pause : Pause} {e : Engine ε} (outstanding : Outstanding pause e) :
    pause.slot < e.slots.length :=
  (List.getElem?_eq_some_iff.mp outstanding.unreleased).1

theorem Outstanding.signal_detach {pause : Pause} {e : Engine ε}
    (outstanding : Outstanding pause e) (r : Release) :
    ((e.detach pause r).slot pause.slot).signal = some r := by
  simp [Engine.slot, detach, List.getD_eq_getElem?_getD, List.getElem?_set_self outstanding.bound]

/-- Whoever detaches an outstanding pause prepares on its snapshot, with no pause
current, and gives the signal. -/
theorem releaseWith_outstanding {pause : Pause} {e : Engine ε}
    (outstanding : Outstanding pause e) (r : Release)
    (prepare : Snapshot → Engine ε → α × Engine ε)
    (keeps : (prepare pause.snapshot { e with current := none }).2.slots = e.slots) :
    e.releaseWith r prepare =
      (⟨true, some (prepare pause.snapshot { e with current := none }).1⟩,
        { (prepare pause.snapshot { e with current := none }).2 with
          slots := e.slots.set pause.slot ⟨some r⟩ }) := by
  have unreleased : (prepare pause.snapshot { e with current := none }).2.slot pause.slot = {} := by
    rw [← outstanding.slot, Engine.slot, Engine.slot, keeps]
  simp [releaseWith, outstanding.current, unreleased, Slot.release, keeps]

/-- Without an outstanding pause nothing is prepared. -/
theorem releaseWith_free {e : Engine ε} (free : e.current = none) (r : Release)
    (prepare : Snapshot → Engine ε → α × Engine ε) :
    e.releaseWith r prepare = (⟨false, none⟩, e.note [.releaseIgnored r]) := by
  simp only [releaseWith, free]

theorem release_free {e : Engine ε} (free : e.current = none) (r : Release) :
    e.release r = (false, e.note [.releaseIgnored r]) := by
  simp only [release, releaseWith_free free]

theorem release_outstanding {pause : Pause} {e : Engine ε} (outstanding : Outstanding pause e)
    (r : Release) : e.release r = (true, e.detach pause r) := by
  simp [release, releaseWith_outstanding outstanding, detach]

/-- How the thread goes on from a released pause. -/
def goOn (host : Host ε) (pause : Pause) (r : Release) (e : Engine ε) :
    Run (Engine ε) (Except DebugError Unit) :=
  match r with
  | .resumed => (host.notifyResumed (leave pause .resumed e)).bind fun _ e => .finished (.ok ()) e
  | .interrupted => .finished (.error .interrupted) (leave pause .interrupted e)

/-- What follows the host's callback: the thread goes on if the pause is released by
then, and parks if not. -/
def await (host : Host ε) (pause : Pause) (e : Engine ε) :
    Run (Engine ε) (Except DebugError Unit) :=
  match (e.slot pause.slot).signal with
  | some r => goOn host pause r e
  | none => .parked pause e (goOn host pause)

theorem await_of_signal {host : Host ε} {pause : Pause} {r : Release} {e : Engine ε}
    (signal : (e.slot pause.slot).signal = some r) :
    await host pause e = goOn host pause r e := by
  rw [await, signal]

theorem await_of_none {host : Host ε} {pause : Pause} {e : Engine ε}
    (signal : (e.slot pause.slot).signal = none) :
    await host pause e = .parked pause e (goOn host pause) := by
  rw [await, signal]

theorem pause_eq_await (host : Host ε) (expression : Expression) (reason : StopReason)
    (depth : Nat) (e : Engine ε) :
    pause host expression reason depth e =
      (host.notifyPaused expression reason (e.view expression depth)
        (e.install expression reason depth)).bind fun _ told =>
          await host (e.newPause expression reason depth) told := by
  have waiting (pause : Pause) (told : Engine ε) : ((do
      let release ← wait pause
      Thread.modify (leave pause release)
      match release with
      | .resumed =>
          host.notifyResumed
          return .ok ()
      | .interrupted => return .error .interrupted :
        Thread (Engine ε) (Except DebugError Unit)) told) = await host pause told := by
    simp only [bind, wait, await]
    cases (told.slot pause.slot).signal with
    | some r => cases r <;> rfl
    | none =>
        simp only [Run.bind_parked, Run.bind_finished, Run.parked.injEq, true_and]
        funext r found
        cases r <;> rfl
  refine congrArg (fun next => Run.bind next (host.notifyPaused expression reason
    (e.view expression depth) (e.install expression reason depth))) ?_
  funext _ told
  exact waiting (e.newPause expression reason depth) told

end Engine
end Debugger
