import Debugger.Proofs.Session.Pausing

/-! What happens at a session, written down as notes: deliveries, commands and interrupts,
registrations, and changes of the breakpoints and the stepping. Notes trace the session
from one standing to another: only what finds a pause takes it away, and only the first
that asks finds one. -/
namespace Debugger
variable {ε ℓ : Type}

/-- The part of a session that commands and registrations are about. -/
structure Standing (ℓ : Type) where
  breakpoints : Store
  steps : Steps
  current : Option Pause
  slots : List Slot
  listeners : List ℓ
  active : Bool

def Session.standing (s : Session ε ℓ) : Standing ℓ :=
  ⟨s.breakpoints, s.steps, s.current, s.slots, s.listeners, s.isActive⟩

/-- What somebody asks of a session about the pause that is outstanding. -/
inductive Demand where
  | command (mode : StepMode)
  | interrupt
deriving DecidableEq

namespace Demand

def release : Demand → Release
  | .command _ => .resumed
  | .interrupt => .interrupted

/-- The step state that a granted demand leaves behind at a pause of that depth. -/
def settle (depth : Nat) : Demand → Steps → Steps
  | .command mode, steps => Session.command mode depth steps
  | .interrupt, steps => steps

def make : Demand → Session ε ℓ → Bool × Session ε ℓ
  | .command mode, s =>
      let (answer, left) := Session.resume mode s
      (answer.isOk, left)
  | .interrupt, s => Session.interrupt s

end Demand

namespace Standing

/-- The outstanding pause, if there is one, has not been released. -/
def Sound (st : Standing ℓ) : Prop :=
  ∀ pause, st.current = some pause → st.slots[pause.slot]? = some {}

def grant (demand : Demand) (pause : Pause) (st : Standing ℓ) : Standing ℓ :=
  { st with
    steps := demand.settle pause.snapshot.depth st.steps
    current := none
    slots := st.slots.set pause.slot ⟨some demand.release⟩ }

theorem Sound.of_free {st : Standing ℓ} (free : st.current = none) : st.Sound := by
  intro pause current
  rw [free] at current
  contradiction

theorem Sound.outstanding {s : Session ε ℓ} {pause : Pause} (sound : s.standing.Sound)
    (current : s.current = some pause) : s.Outstanding pause :=
  ⟨current, sound pause current⟩

end Standing

namespace Demand
variable {s : Session ε ℓ}

theorem make_free (free : s.current = none) (demand : Demand) :
    demand.make s = (false, s.note [.releaseIgnored demand.release]) := by
  cases demand with
  | command mode =>
      rw [make, Session.resume_free free]
      rfl
  | interrupt => exact Session.interrupt_free free

/-- What is noted about the demand if it is granted. -/
def noted : Demand → List Diagnostic
  | .command mode => [.resumedWith mode]
  | .interrupt => [.pauseInterrupted]

/-- A demand takes the pause away. It is granted if nobody has released the pause before. -/
theorem make_found {pause : Pause} (current : s.current = some pause) (demand : Demand) :
    let released := (Engine.slot s pause.slot).release demand.release
    let left : Session ε ℓ := { s with
      steps := demand.settle pause.snapshot.depth s.steps
      current := none
      slots := s.slots.set pause.slot released.2 }
    demand.make s =
      (released.1, if released.1 then Engine.note demand.noted left else left) := by
  intro released left
  cases demand with
  | command mode =>
      have made : Session.resume mode s =
          if released.1 then (.ok (), Engine.note [.resumedWith mode] left)
          else (.error .notPaused, left) := by
        simp only [Session.resume, Engine.releaseWith, current]
        rfl
      simp only [make, made]
      cases released.1 <;> rfl
  | interrupt =>
      have made : Session.interrupt s =
          (released.1, if released.1 then Engine.note [.pauseInterrupted] left else left) := by
        simp only [Session.interrupt, Engine.release, Engine.releaseWith, current]
        rfl
      exact made

theorem make_outstanding {pause : Pause} (outstanding : s.Outstanding pause)
    (demand : Demand) :
    ∃ noted, demand.make s = (true, Engine.note noted (Engine.detach pause demand.release
      { s with steps := demand.settle pause.snapshot.depth s.steps })) := by
  refine ⟨demand.noted, ?_⟩
  rw [demand.make_found outstanding.current, outstanding.slot]
  rfl

end Demand

/-- Whether an event reports the course of a program. -/
def Event.ofRun : Event → Bool
  | .started _ | .ended _ | .paused .. | .resumed => true
  | .failed .. | .breakpointAdded _ | .breakpointRemoved _ => false

/-- One thing that happened, with the standing it found and the one it left. -/
inductive Note (ℓ : Type) where
  | told (listener : ℓ) (event : Event) (found : Standing ℓ)
  | asked (demand : Demand) (granted : Bool) (found left : Standing ℓ)
  | changed (found left : Standing ℓ)
  | added (listener : ℓ)
  /-- The first registration was removed, if there was one. -/
  | removed (listener : ℓ)

/-- A delivery of an event of the run. -/
structure Heard (ℓ : Type) where
  listener : ℓ
  event : Event
  active : Bool
deriving DecidableEq

/-- A demand that was granted, with the pause it found. -/
structure Grant where
  demand : Demand
  reason : StopReason
  snapshot : Snapshot
deriving DecidableEq

namespace Note

def heard? : Note ℓ → Option (Heard ℓ)
  | .told listener event found =>
      if event.ofRun then some ⟨listener, event, found.active⟩ else none
  | _ => none

def grant? : Note ℓ → Option Grant
  | .asked demand true found _ => found.current.map fun pause =>
      ⟨demand, pause.reason, pause.snapshot⟩
  | _ => none

def isAsked : Note ℓ → Bool
  | .asked .. => true
  | _ => false

/-- The note is no registration of the listener and no removal of one. -/
def Spares (listener : ℓ) : Note ℓ → Prop
  | .added other | .removed other => other ≠ listener
  | _ => True

instance [DecidableEq ℓ] (listener : ℓ) : DecidablePred (Spares listener)
  | .added other | .removed other => inferInstanceAs (Decidable (other ≠ listener))
  | .told .. | .asked .. | .changed .. => .isTrue trivial

/-- The note is no change of the breakpoints or the stepping. A change that comes to
nothing does not count as one. -/
def Steady : Note ℓ → Prop
  | .changed found left => left = found
  | _ => True

/-- The note is no change of the application that finished last. -/
def KeepsFinished : Note ℓ → Prop
  | .changed found left => left.steps.lastFinished = found.steps.lastFinished
  | _ => True

def standings : Note ℓ → List (Standing ℓ)
  | .told _ _ found => [found]
  | .asked _ _ found left | .changed found left => [found, left]
  | .added _ | .removed _ => []

end Note

def heard (notes : List (Note ℓ)) : List (Heard ℓ) :=
  notes.filterMap Note.heard?

def grants (notes : List (Note ℓ)) : List Grant :=
  notes.filterMap Note.grant?

@[simp] theorem heard_append (first second : List (Note ℓ)) :
    heard (first ++ second) = heard first ++ heard second :=
  List.filterMap_append

@[simp] theorem grants_append (first second : List (Note ℓ)) :
    grants (first ++ second) = grants first ++ grants second :=
  List.filterMap_append

theorem grants_cons_granted {found : Standing ℓ} {pause : Pause}
    (current : found.current = some pause) (demand : Demand) (left : Standing ℓ)
    (rest : List (Note ℓ)) :
    grants (.asked demand true found left :: rest) =
      ⟨demand, pause.reason, pause.snapshot⟩ :: grants rest := by
  refine List.filterMap_cons_some ?_
  rw [Note.grant?, current, Option.map_some]

/-- The notes lead from one standing to another. -/
inductive Traces [DecidableEq ℓ] : Standing ℓ → List (Note ℓ) → Standing ℓ → Prop where
  | done (found : Standing ℓ) : Traces found [] found
  | told (listener : ℓ) (event : Event) : Traces found rest left →
      Traces found (.told listener event found :: rest) left
  | granted (demand : Demand) : found.current = some pause →
      Traces (found.grant demand pause) rest left →
      Traces found (.asked demand true found (found.grant demand pause) :: rest) left
  | refused (demand : Demand) : found.current = none → Traces found rest left →
      Traces found (.asked demand false found found :: rest) left
  | changed (breakpoints : Store) (steps : Steps) :
      Traces { found with breakpoints, steps } rest left →
      Traces found (.changed found { found with breakpoints, steps } :: rest) left
  | added (listener : ℓ) :
      Traces { found with listeners := found.listeners ++ [listener] } rest left →
      Traces found (.added listener :: rest) left
  | removed (listener : ℓ) :
      Traces { found with listeners := unregister listener found.listeners } rest left →
      Traces found (.removed listener :: rest) left

namespace Traces
variable [DecidableEq ℓ] {found left last : Standing ℓ} {notes first second : List (Note ℓ)}

theorem append (one : Traces found first left) (other : Traces left second last) :
    Traces found (first ++ second) last := by
  induction one with
  | done => exact other
  | told listener event _ ih => exact .told listener event (ih other)
  | granted demand current _ ih => exact .granted demand current (ih other)
  | refused demand free _ ih => exact .refused demand free (ih other)
  | changed breakpoints steps _ ih => exact .changed breakpoints steps (ih other)
  | added listener _ ih => exact .added listener (ih other)
  | removed listener _ ih => exact .removed listener (ih other)

theorem sound (traces : Traces found notes left) (sound : found.Sound) : left.Sound := by
  induction traces with
  | done => exact sound
  | told _ _ _ ih | refused _ _ _ ih | changed _ _ _ ih | added _ _ ih | removed _ _ ih =>
      exact ih sound
  | granted _ _ _ ih => exact ih (.of_free rfl)

theorem length_slots (traces : Traces found notes left) :
    left.slots.length = found.slots.length := by
  induction traces with
  | done => rfl
  | told _ _ _ ih | refused _ _ _ ih | changed _ _ _ ih | added _ _ ih | removed _ _ ih => exact ih
  | granted _ _ _ ih => exact ih.trans (List.length_set ..)

theorem active (traces : Traces found notes left) : left.active = found.active := by
  induction traces with
  | done => rfl
  | told _ _ _ ih | granted _ _ _ ih | refused _ _ _ ih | changed _ _ _ ih | added _ _ ih
  | removed _ _ ih => exact ih

theorem count (traces : Traces found notes left) {listener : ℓ}
    (spared : ∀ note ∈ notes, note.Spares listener) :
    left.listeners.count listener = found.listeners.count listener := by
  induction traces with
  | done => rfl
  | told _ _ _ ih | granted _ _ _ ih | refused _ _ _ ih | changed _ _ _ ih =>
      exact ih fun note member => spared note (List.mem_cons_of_mem _ member)
  | added other _ ih =>
      have different : other ≠ listener := spared _ List.mem_cons_self
      rw [ih fun note member => spared note (List.mem_cons_of_mem _ member), List.count_append,
        List.count_singleton, beq_false_of_ne different]
      simp
  | removed other _ ih =>
      have different : other ≠ listener := spared _ List.mem_cons_self
      rw [ih fun note member => spared note (List.mem_cons_of_mem _ member), unregister,
        List.count_erase_of_ne different.symm]

theorem free (traces : Traces found notes left) (free : found.current = none) :
    left.current = none ∧ left.slots = found.slots ∧ grants notes = [] := by
  induction traces with
  | done => exact ⟨free, rfl, rfl⟩
  | told _ event _ ih =>
      obtain ⟨current, slots, grants⟩ := ih free
      exact ⟨current, slots, grants⟩
  | granted _ current => rw [free] at current; contradiction
  | refused _ _ _ ih | changed _ _ _ ih | added _ _ ih | removed _ _ ih => exact ih free

/-- An outstanding pause stays until the first demand, which is the only one that is
granted and gives the pause its signal. -/
theorem outstanding {pause : Pause} (traces : Traces found notes left)
    (current : found.current = some pause) :
    (left.current = some pause ∧ left.slots = found.slots ∧ grants notes = []) ∨
      ∃ demand : Demand, left.current = none ∧
        left.slots = found.slots.set pause.slot ⟨some demand.release⟩ ∧
        grants notes = [⟨demand, pause.reason, pause.snapshot⟩] := by
  induction traces with
  | done => exact .inl ⟨current, rfl, rfl⟩
  | told _ _ _ ih | changed _ _ _ ih | added _ _ ih | removed _ _ ih => exact ih current
  | refused _ free => rw [free] at current; contradiction
  | granted demand here traces =>
      obtain rfl := Option.some.inj (here.symm.trans current)
      obtain ⟨gone, slots, none⟩ := traces.free rfl
      exact .inr ⟨demand, gone, slots, by rw [grants_cons_granted here, none]⟩

/-- If nobody changes the breakpoints or the stepping, only a granted demand does. -/
theorem steady {depth : Nat} (traces : Traces found notes left)
    (depths : ∀ pause, found.current = some pause → pause.snapshot.depth = depth)
    (steady : ∀ note ∈ notes, note.Steady) :
    left.breakpoints = found.breakpoints ∧
      left.steps = (grants notes).foldl (fun steps g => g.demand.settle depth steps)
        found.steps := by
  induction traces with
  | done => exact ⟨rfl, rfl⟩
  | told _ _ _ ih | refused _ _ _ ih | added _ _ ih | removed _ _ ih =>
      exact ih depths fun note member => steady note (List.mem_cons_of_mem _ member)
  | @changed found _ _ breakpoints steps _ ih =>
      have same : { found with breakpoints, steps } = found := steady _ List.mem_cons_self
      rw [same] at ih
      exact ih depths fun note member => steady note (List.mem_cons_of_mem _ member)
  | granted demand here traces ih =>
      obtain ⟨breakpoints, steps⟩ := ih (fun _ gone => nomatch gone) fun note member =>
        steady note (List.mem_cons_of_mem _ member)
      obtain ⟨-, -, none⟩ := traces.free rfl
      refine ⟨breakpoints, ?_⟩
      rw [steps, grants_cons_granted here, none, ← depths _ here]
      rfl

theorem finished (traces : Traces found notes left)
    (kept : ∀ note ∈ notes, note.KeepsFinished) :
    left.steps.lastFinished = found.steps.lastFinished := by
  induction traces with
  | done => rfl
  | told _ _ _ ih | refused _ _ _ ih | added _ _ ih | removed _ _ ih =>
      exact ih fun note member => kept note (List.mem_cons_of_mem _ member)
  | granted demand _ _ ih =>
      rw [ih fun note member => kept note (List.mem_cons_of_mem _ member)]
      cases demand with
      | interrupt => rfl
      | command mode => cases mode <;> rfl
  | changed breakpoints steps _ ih =>
      have same : steps.lastFinished = _ := kept _ List.mem_cons_self
      rw [ih fun note member => kept note (List.mem_cons_of_mem _ member)]
      exact same

/-- If nobody changes the breakpoints or the stepping, and no command is granted, they are
the same wherever one looks. -/
theorem still (traces : Traces found notes left) (steady : ∀ note ∈ notes, note.Steady)
    (interrupts : ∀ g ∈ grants notes, g.demand = .interrupt) :
    (found.breakpoints = left.breakpoints ∧ found.steps = left.steps) ∧
      ∀ note ∈ notes, ∀ st ∈ note.standings,
        st.breakpoints = left.breakpoints ∧ st.steps = left.steps := by
  induction traces with
  | done => simp
  | told _ _ _ ih | refused _ _ _ ih | added _ _ ih | removed _ _ ih =>
      obtain ⟨here, later⟩ := ih (fun note member => steady note (List.mem_cons_of_mem _ member))
        interrupts
      exact ⟨here, List.forall_mem_cons.mpr ⟨by simp [Note.standings, here], later⟩⟩
  | @changed found _ _ breakpoints steps _ ih =>
      have same : { found with breakpoints, steps } = found := steady _ List.mem_cons_self
      obtain ⟨here, later⟩ := ih (fun note member => steady note (List.mem_cons_of_mem _ member))
        interrupts
      rw [same] at here
      exact ⟨here, List.forall_mem_cons.mpr ⟨by simp [Note.standings, same, here], later⟩⟩
  | granted demand here traces ih =>
      rw [grants_cons_granted here, List.forall_mem_cons] at interrupts
      obtain ⟨rfl, interrupts⟩ := interrupts
      obtain ⟨same, later⟩ := ih (fun note member => steady note (List.mem_cons_of_mem _ member))
        interrupts
      refine ⟨same, List.forall_mem_cons.mpr ⟨?_, later⟩⟩
      rintro st member
      obtain rfl | rfl : st = _ ∨ st = _ := by simpa [Note.standings] using member
      · exact same
      · exact same

theorem split (traces : Traces found (first ++ second) left) :
    ∃ between, Traces found first between ∧ Traces between second left := by
  induction first generalizing found with
  | nil => exact ⟨found, .done found, traces⟩
  | cons note first ih =>
      cases traces with
      | told listener event rest =>
          obtain ⟨between, before, behind⟩ := ih rest
          exact ⟨between, .told listener event before, behind⟩
      | granted demand current rest =>
          obtain ⟨between, before, behind⟩ := ih rest
          exact ⟨between, .granted demand current before, behind⟩
      | refused demand free rest =>
          obtain ⟨between, before, behind⟩ := ih rest
          exact ⟨between, .refused demand free before, behind⟩
      | changed breakpoints steps rest =>
          obtain ⟨between, before, behind⟩ := ih rest
          exact ⟨between, .changed breakpoints steps before, behind⟩
      | added listener rest =>
          obtain ⟨between, before, behind⟩ := ih rest
          exact ⟨between, .added listener before, behind⟩
      | removed listener rest =>
          obtain ⟨between, before, behind⟩ := ih rest
          exact ⟨between, .removed listener before, behind⟩

/-- Where a demand stands among the notes: it is granted exactly if it finds a pause, and
a refused one leaves everything as it was. -/
theorem asked {demand : Demand} {granted : Bool} {here after : Standing ℓ}
    (traces : Traces found (first ++ .asked demand granted here after :: second) left) :
    Traces found first here ∧ Traces after second left ∧
      match here.current with
      | none => granted = false ∧ after = here
      | some pause => granted = true ∧ after = here.grant demand pause := by
  obtain ⟨between, before, behind⟩ := traces.split
  cases behind with
  | granted _ current rest =>
      rw [current]
      exact ⟨before, rest, rfl, rfl⟩
  | refused _ free rest =>
      rw [free]
      exact ⟨before, rest, rfl, rfl⟩

theorem current (traces : Traces found notes left) :
    left.current = if notes.any Note.isAsked then none else found.current := by
  induction traces with
  | done => rfl
  | told _ _ _ ih | changed _ _ _ ih | added _ _ ih | removed _ _ ih => exact ih
  | granted _ _ traces => exact (traces.free rfl).1
  | refused _ free traces => exact (traces.free free).1

/-- The first demand that finds a pause is granted, and every other one is refused and
changes nothing. -/
theorem answered {demand : Demand} {granted : Bool} {here after : Standing ℓ}
    (traces : Traces found (first ++ .asked demand granted here after :: second) left) :
    match found.current with
    | none => granted = false ∧ after = here
    | some pause =>
        if first.any Note.isAsked then granted = false ∧ after = here
        else granted = true ∧ after = here.grant demand pause := by
  obtain ⟨before, -, answer⟩ := traces.asked
  rw [before.current] at answer
  generalize found.current = current at answer ⊢
  generalize first.any Note.isAsked = asked at answer ⊢
  cases current <;> cases asked <;> exact answer

end Traces
end Debugger
