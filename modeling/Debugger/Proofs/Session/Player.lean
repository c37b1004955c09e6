import Debugger.Proofs.Session.Evaluation
import Debugger.Proofs.Stepping.Tour

/-! Sessions whose pauses are answered from a list, by a listener from inside the
delivery or by a controller while the program is parked. Such a run is the tour of
its program. -/
namespace Debugger

structure Told where
  expression : Expression
  reason : StopReason
  snapshot : Snapshot
deriving DecidableEq

def Stop.told (previewLength : Nat) (s : Stop) : Told :=
  ⟨s.visit.call.expression, s.reason, s.snapshot previewLength⟩

/-- A listener with the answers that it and its controller are going to give. -/
structure Player where
  answers : List Answer
  told : List Told := []
  /-- The watch as each answer left it. -/
  left : List Watch := []

abbrev Played := Session Player Unit

namespace Engine
variable {ε : Type}

/-- Store operations change the store and the journal only. -/
theorem foldl_store (operations : List StoreOperation) (e : Engine ε) :
    ∃ noted, operations.foldl (fun e operation => (store operation e).2) e =
      note noted
        { e with breakpoints := (StoreOperation.performAll e.breakpoints operations).2.2 } := by
  induction operations generalizing e with
  | nil => exact ⟨[], by simp [note, StoreOperation.performAll]⟩
  | cons operation rest ih =>
      obtain ⟨noted, performed⟩ := ih (store operation e).2
      refine ⟨(operation.perform e.breakpoints).2.1 ++ noted, ?_⟩
      rw [List.foldl_cons, performed]
      simp [note, store, StoreOperation.performAll]

end Engine

namespace Answer
variable {ε ℓ : Type}

def give (a : Answer) (s : Session ε ℓ) : Session ε ℓ :=
  let changed := a.changes.foldl (fun s operation => (Engine.store operation s).2) s
  match a.mode with
  | some mode => (Session.resume mode changed).2
  | none => (Session.interrupt changed).2

/-- An answer to an outstanding pause settles the watch and releases that pause. -/
theorem give_outstanding (a : Answer) {pause : Pause} {s : Session ε ℓ}
    (outstanding : s.Outstanding pause) :
    ∃ noted, a.give s = Engine.note noted
      (Engine.detach pause a.release (s.rewatch (a.settle pause.snapshot.depth s.watch))) := by
  obtain ⟨noted, changed⟩ := Engine.foldl_store a.changes s
  have still : Engine.Outstanding pause (Engine.note noted
      { s with breakpoints := (StoreOperation.performAll s.breakpoints a.changes).2.2 }) :=
    ⟨outstanding.current, outstanding.unreleased⟩
  obtain ⟨inside, changes, mode⟩ := a
  cases mode with
  | none =>
      refine ⟨noted ++ [.pauseInterrupted], ?_⟩
      simp only [give, changed, Session.interrupt_outstanding still]
      simp [Engine.note, Engine.detach, release, settle, Engine.rewatch, Engine.watch]
  | some mode =>
      refine ⟨noted ++ [.resumedWith mode], ?_⟩
      simp only [give, changed, Session.resume_outstanding still]
      simp [Engine.note, Engine.detach, release, settle, Engine.rewatch, Engine.watch,
        Watch.command]

end Answer

namespace Player

/-- Without answers left the program continues. -/
def next (p : Player) : Answer :=
  p.answers.headD (.now .continue)

/-- Gives the next answer, and keeps the watch that it leaves. -/
def answer (s : Played) : Played :=
  let given := s.host.own.next.give
    (Session.updateOwn (fun p => { p with answers := p.answers.tail }) s)
  Session.updateOwn (fun p => { p with left := p.left ++ [given.watch] }) given

/-- Keeps what it is told about a pause, and answers where the answer is its own. -/
def hear (expression : Expression) (reason : StopReason) (snapshot : Snapshot) (s : Played) :
    Played :=
  let noted := Session.updateOwn
    (fun p => { p with told := p.told ++ [⟨expression, reason, snapshot⟩] }) s
  if noted.host.own.next.inside then answer noted else noted

def react : Reaction (StateM Played) Unit
  | (), .paused expression reason snapshot => modifyGet fun s =>
      (none, hear expression reason snapshot s)
  | (), _ => return none

/-- A fresh session that the player listens to. -/
def session (config : Config) (breakpoints : Store) (steps : Steps) (answers : List Answer) :
    Played :=
  Session.setListeners [()] { Session.new config { answers } with breakpoints, steps }

end Player

namespace Session
variable {ε ℓ α β : Type}

theorem attended_none (run : Run (Session ε ℓ) α) : attended none run = run := by
  cases run <;> rfl

theorem attended_bind {controller : Option (Session ε ℓ → Session ε ℓ)}
    {run : Run (Session ε ℓ) α} {result : α} {s : Session ε ℓ}
    (next : α → Session ε ℓ → Run (Session ε ℓ) β)
    (ends : attended controller run = .finished result s) :
    attended controller (run.bind next) = attended controller (next result s) := by
  induction run with
  | finished first found =>
      simp only [attended, Run.finished.injEq] at ends
      obtain ⟨rfl, rfl⟩ := ends
      rfl
  | parked pause found resume ih =>
      cases controller with
      | none => simp [attended] at ends
      | some answer =>
          simp only [attended, Run.bind_parked] at ends ⊢
          cases signal : (Engine.slot (answer found) pause.slot).signal with
          | none => simp [signal] at ends
          | some r =>
              simp only [signal] at ends ⊢
              exact ih r (answer found) ends

end Session

namespace Player
open Session
variable {controller : Option (Played → Played)} {s : Played}

theorem after_paused (expression : Expression) (reason : StopReason) (snapshot : Snapshot)
    (heard : s.listeners = [()]) :
    after react (.paused expression reason snapshot) s = hear expression reason snapshot s :=
  after_single react _ heard rfl

theorem goOn_heard (pause : Pause) (r : Release) (heard : s.listeners = [()]) :
    Engine.goOn (asHost react) pause r s = .finished r.verdict (Engine.leave pause r s) := by
  cases r with
  | interrupted => rfl
  | resumed =>
      have heard : listeners (Engine.leave pause .resumed s) = [()] := heard
      exact congrArg (Run.finished _) (after_single react .resumed heard rfl)

def pausedAt (v : Visit) (reason : StopReason) (s : Played) : Played :=
  updateOwn (fun p => { p with
      told := p.told ++ [⟨v.call.expression, reason, s.view v.call.expression v.level⟩] })
    (s.install v.call.expression reason v.level)

theorem outstanding_pausedAt (v : Visit) (reason : StopReason) (s : Played) :
    Engine.Outstanding (s.newPause v.call.expression reason v.level) (pausedAt v reason s) :=
  ⟨rfl, (Engine.outstanding_install v.call.expression reason v.level s).unreleased⟩

theorem answer_pausedAt (v : Visit) (reason : StopReason) (s : Played) :
    ∃ noted, answer (pausedAt v reason s) = Engine.note noted
      (Engine.detach (s.newPause v.call.expression reason v.level) s.host.own.next.release
        (Engine.rewatch (s.host.own.next.settle v.level s.watch)
          (updateOwn (fun p => { p with
              answers := p.answers.tail
              left := p.left ++ [s.host.own.next.settle v.level s.watch] })
            (pausedAt v reason s)))) := by
  have outstanding : Engine.Outstanding (s.newPause v.call.expression reason v.level)
      (updateOwn (fun p => { p with answers := p.answers.tail }) (pausedAt v reason s)) :=
    ⟨rfl, (outstanding_pausedAt v reason s).unreleased⟩
  obtain ⟨noted, given⟩ := s.host.own.next.give_outstanding outstanding
  have next : (pausedAt v reason s).host.own.next = s.host.own.next := rfl
  refine ⟨noted, ?_⟩
  rw [answer, next, given]
  rfl

/-- The answer releases the pause, and says how. -/
theorem signal_answer_pausedAt (v : Visit) (reason : StopReason) (s : Played) :
    ((answer (pausedAt v reason s)).slot
      (s.newPause v.call.expression reason v.level).slot).signal =
        some s.host.own.next.release := by
  obtain ⟨noted, answered⟩ := answer_pausedAt v reason s
  rw [answered]
  exact (outstanding_pausedAt v reason s).signal_detach s.host.own.next.release

/-- From a pause the thread goes on as the next answer says, whoever gives it. -/
theorem attended_pause (v : Visit) (reason : StopReason) (heard : s.listeners = [()])
    (present : s.host.own.next.inside = true ∨ controller = some answer) :
    attended controller (Engine.pause (asHost react) v.call.expression reason v.level s) =
      attended controller (Engine.goOn (asHost react)
        (s.newPause v.call.expression reason v.level) s.host.own.next.release
        (answer (pausedAt v reason s))) := by
  have released := signal_answer_pausedAt v reason s
  have told := after_paused v.call.expression reason (s.view v.call.expression v.level)
    (show listeners (s.install v.call.expression reason v.level) = [()] from heard)
  by_cases inside : s.host.own.next.inside
  · have answered := told.trans (if_pos inside : _ = answer (pausedAt v reason s))
    rw [pause_eq, answered, Engine.await_of_signal released]
  · have waits := told.trans (if_neg inside : _ = pausedAt v reason s)
    obtain rfl := present.resolve_left inside
    have unreleased := congrArg Slot.signal (outstanding_pausedAt v reason s).slot
    rw [pause_eq, waits, Engine.await_of_none unreleased]
    simp only [attended, released]

end Player

end Debugger
