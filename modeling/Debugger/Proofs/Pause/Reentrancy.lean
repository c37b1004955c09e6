import Debugger.Proofs.Pause.Segments

/-! Reentrant clients. A client performs operations of the engine one after another,
and during the callback of a pause it performs operations again, to any depth. What a
client does to the engine is a segment of its history, provided that it is disciplined:
it never installs a pause while another is outstanding, and it releases each pause
before the callback returns. -/
namespace Debugger.Client
open History

/-- A change of the breakpoints or of the stepping. -/
inductive Change where
  | store (operation : StoreOperation)
  | steps (operation : StepOperation)

/-- One operation of a client. The callback is performed while the host is told of the
pause that the operation installs, if it installs one. -/
inductive Action where
  | enter (expression : Expression) (depth : Nat) (callback : List Action)
  | pause (expression : Expression) (reason : StopReason) (depth : Nat) (callback : List Action)
  | exit (expression : Expression)
  | capture (context : Context)
  | change (change : Change)
  /-- Resumes or interrupts the outstanding pause. -/
  | release (how : Release)
  /-- Releases the outstanding pause once changes that may depend on its view are made. -/
  | releaseWith (how : Release) (changes : Snapshot → List Change)
  | look

def Change.make : Change → Client → Client
  | .store operation, e => (e.store operation).2
  | .steps operation, e => (e.stepping operation).2

def makeAll (changes : List Change) (e : Client) : Client :=
  changes.foldl (fun e change => change.make e) e

/-- Keeps what it sees and makes the changes. -/
def prepare (changes : Snapshot → List Change) (snapshot : Snapshot) (e : Client) :
    Unit × Client :=
  ((), makeAll (changes snapshot)
    { e with host := { e.host with seen := e.host.seen ++ [(snapshot, e.isPaused)] } })

/-- Releases the outstanding pause with nothing to prepare. -/
def releaseNow (how : Release) (e : Client) : Client :=
  write (.released how e.current none (e.release how).1) (e.release how).2

/-- The client before a `prepare` has seen anything. -/
def blind (e : Client) : Client :=
  { e with host := { e.host with seen := [] } }

/-- Releases the outstanding pause with changes, and records what these saw. -/
def releaseThen (how : Release) (changes : Snapshot → List Change) (e : Client) : Client :=
  let (detached, after) := (blind e).releaseWith how (prepare changes)
  write (.released how e.current (some after.host.seen) detached.released) after

/-- The host that performs a callback when it is told of the pause of that number. -/
def reentrant (number : Nat) (callback : Thread Client Unit) : Engine.Host History where
  notifyPaused _ reason snapshot := do
    Thread.modify (write (.told ⟨number, reason, snapshot⟩))
    callback
    Thread.modify (write (.heard number))
  notifyResumed := Thread.modify (write (.resumed number))

/-- Records what an operation returns, with the number of the pause that it installed,
if it installed one. -/
def returns (number : Nat) (result : Except DebugError Unit) (e : Client) : Client :=
  write (.returned (if e.slots.length = number then none else some number) result) e

/-- An operation that installs a pause, if any, under the next number. -/
def installing (act : Nat → Thread Client (Except DebugError Unit)) : Thread Client Unit := do
  let number := (← Thread.get).slots.length
  let result ← act number
  Thread.modify (returns number result)

mutual

def Action.perform : Action → Thread Client Unit
  | .enter expression depth callback =>
      installing fun number =>
        Engine.enter (reentrant number (performAll callback)) expression depth
  | .pause expression reason depth callback =>
      installing fun number =>
        Engine.pause (reentrant number (performAll callback)) expression reason depth
  | .exit expression => Thread.modify (Engine.exited expression)
  | .capture context => Thread.modify (Engine.captureContext context)
  | .change change => Thread.modify change.make
  | .release how => Thread.modify (releaseNow how)
  | .releaseWith how changes => Thread.modify (releaseThen how changes)
  | .look => Thread.modify fun e => write (.looked e.isPaused e.snapshot?) e

def performAll : List Action → Thread Client Unit
  | [] => pure ()
  | action :: rest => do
      action.perform
      performAll rest

end

/-- Records and diagnostics are only added. -/
structure Grows (e e' : Client) : Prop where
  records : e.host.records <+: e'.host.records
  journal : e.journal <+: e'.journal

theorem Grows.refl (e : Client) : Grows e e :=
  ⟨List.prefix_refl _, List.prefix_refl _⟩

theorem Grows.trans {e e₁ e' : Client} (first : Grows e e₁) (second : Grows e₁ e') :
    Grows e e' :=
  ⟨first.records.trans second.records, first.journal.trans second.journal⟩

theorem grows_write (record : Record) (e : Client) : Grows e (write record e) :=
  ⟨List.prefix_append _ _, List.prefix_refl _⟩

structure Changed (e e' : Client) : Prop where
  current : e'.current = e.current
  slots : e'.slots = e.slots
  host : e'.host = e.host
  journal : e.journal <+: e'.journal

theorem Changed.grows {e e' : Client} (changed : Changed e e') : Grows e e' :=
  ⟨by simp only [changed.host, List.prefix_refl], changed.journal⟩

theorem Change.changed (change : Change) (e : Client) : Changed e (change.make e) := by
  cases change with
  | store operation => exact ⟨rfl, rfl, rfl, List.prefix_append _ _⟩
  | steps operation => exact ⟨rfl, rfl, rfl, List.prefix_append _ _⟩

theorem changed_makeAll (changes : List Change) (e : Client) : Changed e (makeAll changes e) := by
  induction changes generalizing e with
  | nil => exact ⟨rfl, rfl, rfl, List.prefix_refl _⟩
  | cons change rest ih =>
      have first := change.changed e
      have others := ih (change.make e)
      exact ⟨others.current.trans first.current, others.slots.trans first.slots,
        others.host.trans first.host, first.journal.trans others.journal⟩

def Growing {α : Type} (act : Thread Client α) : Prop :=
  ∀ e, Grows e (act e).state

theorem grows_bind {α β : Type} {run : Run Client α} {next : α → Client → Run Client β}
    (grows : ∀ result e, run = .finished result e → Grows e (next result e).state) :
    Grows run.state (run.bind next).state := by
  cases run with
  | finished result e => exact grows result e rfl
  | parked pause e resume => exact Grows.refl e

theorem growing_bind {α β : Type} {act : Thread Client α} {next : α → Thread Client β}
    (first : Growing act) (others : ∀ result, Growing (next result)) : Growing (act >>= next) :=
  fun e => (first e).trans (grows_bind fun result e _ => others result e)

theorem growing_modify {f : Client → Client} (grows : ∀ e, Grows e (f e)) :
    Growing (Thread.modify f) :=
  grows

theorem grows_leave (pause : Pause) (r : Release) (e : Client) :
    Grows e (Engine.leave pause r e) :=
  ⟨List.prefix_refl _, List.prefix_append _ _⟩

theorem grows_releaseWith {α : Type} (how : Release) (prepare : Snapshot → Client → α × Client)
    (grows : ∀ snapshot e, Grows e (prepare snapshot e).2) (e : Client) :
    Grows e (e.releaseWith how prepare).2 := by
  rw [Engine.releaseWith]
  cases e.current with
  | none => exact ⟨List.prefix_refl _, List.prefix_append _ _⟩
  | some pause =>
      obtain ⟨records, journal⟩ := grows pause.snapshot { e with current := none }
      exact ⟨records, journal⟩

theorem grows_prepare (changes : Snapshot → List Change) (snapshot : Snapshot) (e : Client) :
    Grows e (prepare changes snapshot e).2 := by
  have changed := (changed_makeAll (changes snapshot)
    { e with host := { e.host with seen := e.host.seen ++ [(snapshot, e.isPaused)] } }).grows
  exact ⟨changed.records, changed.journal⟩

theorem grows_releaseNow (how : Release) (e : Client) : Grows e (releaseNow how e) := by
  have released := grows_releaseWith how (fun _ e => ((), e)) (fun _ e => Grows.refl e) e
  exact Grows.trans ⟨released.records, released.journal⟩ (grows_write _ _)

theorem grows_releaseThen (how : Release) (changes : Snapshot → List Change) (e : Client) :
    Grows e (releaseThen how changes e) := by
  have released := grows_releaseWith how (prepare changes) (grows_prepare changes) (blind e)
  exact Grows.trans ⟨released.records, released.journal⟩ (grows_write _ _)

theorem growing_reentrant {callback : Thread Client Unit} (growing : Growing callback)
    (number : Nat) (expression : Expression) (reason : StopReason) (snapshot : Snapshot) :
    Growing ((reentrant number callback).notifyPaused expression reason snapshot) :=
  growing_bind (growing_modify fun e => grows_write _ e) fun _ =>
    growing_bind growing fun _ => growing_modify fun e => grows_write _ e

theorem grows_await (number : Nat) (callback : Thread Client Unit) (pause : Pause) (e : Client) :
    Grows e (Engine.await (reentrant number callback) pause e).state := by
  cases signal : (e.slot pause.slot).signal with
  | none =>
      rw [Engine.await_of_none signal]
      exact Grows.refl e
  | some r =>
      rw [Engine.await_of_signal signal]
      cases r with
      | interrupted => exact grows_leave pause .interrupted e
      | resumed => exact (grows_leave pause .resumed e).trans (grows_write _ _)

theorem growing_pause {number : Nat} {callback : Thread Client Unit} (growing : Growing callback)
    (expression : Expression) (reason : StopReason) (depth : Nat) :
    Growing (Engine.pause (reentrant number callback) expression reason depth) := by
  intro e
  have installs : Grows e (e.install expression reason depth) :=
    ⟨List.prefix_refl _, (List.prefix_append _ _).trans (List.prefix_append _ _)⟩
  have told := growing_reentrant growing number expression reason
    (e.view expression depth) (e.install expression reason depth)
  rw [Engine.pause_eq_await]
  exact (installs.trans told).trans (grows_bind fun _ e _ => grows_await number callback _ e)

theorem growing_enter {number : Nat} {callback : Thread Client Unit} (growing : Growing callback)
    (expression : Expression) (depth : Nat) :
    Growing (Engine.enter (reentrant number callback) expression depth) := by
  refine growing_bind (fun e => ?_) fun reason => ?_
  · exact ⟨List.prefix_refl _, List.prefix_append _ _⟩
  · cases reason with
    | none => exact Grows.refl
    | some reason => exact growing_pause growing expression reason depth

theorem growing_installing {act : Nat → Thread Client (Except DebugError Unit)}
    (growing : ∀ number, Growing (act number)) : Growing (installing act) :=
  growing_bind Grows.refl fun found =>
    growing_bind (growing found.slots.length) fun _ => growing_modify fun e => grows_write _ e

/-- Performing operations only adds, whatever the callbacks do. -/
theorem growing_performAll (actions : List Action) : Growing (performAll actions) := by
  refine Action.rec_1 (motive_1 := fun action => Growing action.perform)
    (motive_2 := fun actions => Growing (performAll actions))
    ?_ ?_ ?_ ?_ ?_ ?_ ?_ ?_ ?_ ?_ actions
  · intro expression depth callback ih
    rw [Action.perform]
    exact growing_installing fun number => growing_enter ih expression depth
  · intro expression reason depth callback ih
    rw [Action.perform]
    exact growing_installing fun number => growing_pause ih expression reason depth
  · intro expression
    rw [Action.perform]
    exact growing_modify fun e => ⟨List.prefix_refl _, List.prefix_refl _⟩
  · intro context
    rw [Action.perform]
    exact growing_modify fun e => ⟨List.prefix_refl _, List.prefix_refl _⟩
  · intro change
    rw [Action.perform]
    exact growing_modify fun e => (change.changed e).grows
  · intro how
    rw [Action.perform]
    exact growing_modify (grows_releaseNow how)
  · intro how changes
    rw [Action.perform]
    exact growing_modify (grows_releaseThen how changes)
  · rw [Action.perform]
    exact growing_modify fun e => grows_write _ e
  · rw [performAll]
    exact Grows.refl
  · intro action rest first others
    rw [performAll]
    exact growing_bind first fun _ => others

end Debugger.Client
