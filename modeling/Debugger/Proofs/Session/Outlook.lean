import Debugger.Proofs.Session.Invariants

/-! What one listener can make out of a session that others watch: the session without its
registrations, the others' own state, what they were told and whether they broke off. The
engine's moves and the listener's uses of the session do the same to its outlook. -/
namespace Debugger
variable {α π ℓ : Type}

namespace Diagnostic

/-- The place of the listener that broke off. -/
def broken? : Diagnostic → Option Nat
  | .listenerPanicked _ position _ => some position
  | _ => none

/-- Whether the diagnostic is about something else than a listener that broke off. -/
def isOwn (d : Diagnostic) : Bool :=
  d.broken?.isNone

/-- Why, where and how deep the program paused. -/
def paused? : Diagnostic → Option (StopReason × Expression × Nat)
  | .paused reason expression depth => some (reason, expression, depth)
  | _ => none

@[simp] theorem filter_noteHit (fired : Option Breakpoint) :
    (StoreOperation.noteHit fired).filter isOwn = StoreOperation.noteHit fired := by
  cases fired <;> rfl

@[simp] theorem filter_noteEntry (steps : Steps) :
    (StepOperation.noteEntry steps).filter isOwn = StepOperation.noteEntry steps := by
  rw [StepOperation.noteEntry]
  split <;> rfl

@[simp] theorem filter_noteDepth (steps : Steps) (depth : Nat) :
    (StepOperation.noteDepth steps depth).filter isOwn = StepOperation.noteDepth steps depth := by
  rw [StepOperation.noteDepth]
  split <;> rfl

@[simp] theorem filter_store (operation : StoreOperation) (store : Store) :
    (operation.perform store).2.1.filter isOwn = (operation.perform store).2.1 := by
  cases operation <;> first | rfl | exact filter_noteHit _

@[simp] theorem filter_stepping (operation : StepOperation) (steps : Steps) :
    (operation.perform steps).2.1.filter isOwn = (operation.perform steps).2.1 := by
  cases operation <;> first | rfl | exact filter_noteEntry _ | exact filter_noteDepth _ _

end Diagnostic

namespace Note

/-- What the listener without a name is told. -/
def event? : Note (Option ℓ) → Option Event
  | .told none event _ => some event
  | _ => none

/-- What was asked about a pause, and whether it was granted. -/
def answer? : Note ℓ → Option (Demand × Bool)
  | .asked demand granted _ _ => some (demand, granted)
  | _ => none

end Note

/-- What a listener has kept, was told and has asked. -/
structure Sight (α : Type) where
  own : α
  told : List Event := []
  answers : List (Demand × Bool) := []

def Sight.see (event : Option Event) (answer : Option (Demand × Bool)) (sight : Sight α) :
    Sight α :=
  { sight with
    told := sight.told ++ event.toList
    answers := sight.answers ++ answer.toList }

/-- A session without registrations, as the listener without a name sees it. -/
abbrev Outlook (α : Type) := Session (Sight α) Empty

/-- A use that registers nobody, at a session with any listeners. -/
def Use.among (ℓ : Type) : Use Empty → Use ℓ
  | .demand d => .demand d
  | .store operation => .store operation
  | .stepping operation => .stepping operation
  | .reset => .reset

namespace Session

def pauses {ε : Type} (s : Session ε ℓ) : List (StopReason × Expression × Nat) :=
  s.journal.filterMap Diagnostic.paused?

/-- The places of the listeners that broke off in the lists of those told. -/
def breaks {ε : Type} (s : Session ε ℓ) : List Nat :=
  s.journal.filterMap Diagnostic.broken?

def outlook (s : Chronicled (α × π) (Option ℓ)) : Outlook α :=
  { s with
    journal := s.journal.filter Diagnostic.isOwn
    host := { s.host with
      listeners := []
      own := ⟨s.own.1, s.notes.filterMap Note.event?, s.notes.filterMap Note.answer?⟩ } }

theorem pauses_outlook (s : Chronicled (α × π) (Option ℓ)) : s.outlook.pauses = s.pauses := by
  have own (d : Diagnostic) : (if d.isOwn then d.paused? else none) = d.paused? := by
    cases d <;> rfl
  exact List.filterMap_filter.trans (congrArg (List.filterMap · s.journal) (funext own))

section Commuting
variable (s : Chronicled (α × π) (Option ℓ))

theorem outlook_note (diagnostics : List Diagnostic) :
    outlook (Engine.note diagnostics s) =
      Engine.note (diagnostics.filter Diagnostic.isOwn) s.outlook :=
  congrArg (fun journal => ({ s.outlook with journal } : Outlook α)) (List.filter_append _ _)

/-- That a listener broke off does not show. -/
theorem outlook_panicked (event : String) (position : Nat) (panic : Panic) :
    outlook (Engine.note [.listenerPanicked event position panic] s) = s.outlook := by
  rw [outlook_note]
  exact congrArg (fun journal => ({ s.outlook with journal } : Outlook α)) (List.append_nil _)

theorem outlook_jot (note : Note (Option ℓ)) :
    (s.jot note).outlook = s.outlook.updateOwn (Sight.see note.event? note.answer?) := by
  have seen {β : Type} (f : Note (Option ℓ) → Option β) :
      (s.notes ++ [note]).filterMap f = s.notes.filterMap f ++ (f note).toList := by
    rw [List.filterMap_append]
    cases told : f note <;> simp [told]
  change s.outlook.updateOwn (fun sight => { sight with
    told := (s.notes ++ [note]).filterMap Note.event?
    answers := (s.notes ++ [note]).filterMap Note.answer? }) = _
  rw [seen, seen]
  rfl

theorem outlook_decide (expression : Expression) (depth : Nat) :
    outlook (Engine.decide expression depth s).2 =
      (Engine.decide expression depth s.outlook).2 := by
  let hit := StoreOperation.noteHit (s.breakpoints.shouldBreak expression.site).1
  let reached := StepOperation.noteDepth s.steps.decideAtEntry.2 depth
  have noted : (s.journal ++ (hit ++ StepOperation.noteEntry s.steps ++ reached)).filter
      Diagnostic.isOwn =
        s.outlook.journal ++ (hit ++ StepOperation.noteEntry s.steps ++ reached) := by
    simp [hit, reached, outlook]
  exact congrArg (fun journal =>
    ({ (Engine.decide expression depth s.outlook).2 with journal } : Outlook α)) noted

theorem outlook_install (expression : Expression) (reason : StopReason) (depth : Nat) :
    outlook (Engine.install expression reason depth s) =
      Engine.install expression reason depth s.outlook := by
  let replaced : List Diagnostic := if s.isPaused then [.pauseReplaced] else []
  let paused : List Diagnostic := [.paused reason expression depth]
  have noted : (s.journal ++ replaced ++ paused).filter Diagnostic.isOwn =
      s.outlook.journal ++ replaced ++ paused := by
    have own : replaced.filter Diagnostic.isOwn = replaced := by
      cases outstanding : s.isPaused <;>
        simp [replaced, outstanding, Diagnostic.isOwn, Diagnostic.broken?]
    rw [List.filter_append, List.filter_append, own]
    rfl
  exact congrArg (fun journal =>
    ({ Engine.install expression reason depth s.outlook with journal } : Outlook α)) noted

theorem outlook_leave (pause : Pause) (r : Release) :
    outlook (Engine.leave pause r s) = Engine.leave pause r s.outlook :=
  congrArg (fun journal => ({ Engine.leave pause r s.outlook with journal } : Outlook α))
    (List.filter_append _ _)

theorem outlook_demand (demand : Demand) :
    (demand.make s).1 = (demand.make s.outlook).1 ∧
      outlook (demand.make s).2 = (demand.make s.outlook).2 := by
  have seen : s.outlook.current = s.current := rfl
  cases current : s.current with
  | none =>
      rw [demand.make_free current, demand.make_free (seen.trans current)]
      exact ⟨rfl, outlook_note s _⟩
  | some pause =>
      have own : demand.noted.filter Diagnostic.isOwn = demand.noted := by cases demand <;> rfl
      rw [demand.make_found current, demand.make_found (seen.trans current)]
      refine ⟨rfl, ?_⟩
      rw [apply_ite outlook, outlook_note, own]
      rfl

/-- What a listener makes of a session, its outlook shows. -/
theorem outlook_use [DecidableEq ℓ] (u : Use Empty) :
    ((u.among (Option ℓ)).make s).1.answer? = (u.make s.outlook).1.answer? ∧
      ((u.among (Option ℓ)).make s).1.event? = none ∧
      ((u.among (Option ℓ)).make s).2.outlook = (u.make s.outlook).2 := by
  cases u with
  | demand demand =>
      obtain ⟨granted, left⟩ := outlook_demand s demand
      exact ⟨congrArg (fun granted => some (demand, granted)) granted, rfl, left⟩
  | store operation =>
      have noted := outlook_note { s with breakpoints := (operation.perform s.breakpoints).2.2 }
        (operation.perform s.breakpoints).2.1
      rw [Diagnostic.filter_store] at noted
      exact ⟨rfl, rfl, noted⟩
  | stepping operation =>
      have noted := outlook_note { s with steps := (operation.perform s.steps).2.2 }
        (operation.perform s.steps).2.1
      rw [Diagnostic.filter_stepping] at noted
      exact ⟨rfl, rfl, noted⟩
  | reset => exact ⟨rfl, rfl, rfl⟩
  | register listener | unregister listener => cases listener

end Commuting

end Session
end Debugger
