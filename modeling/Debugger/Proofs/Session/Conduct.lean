import Debugger.Proofs.Session.Chronicle
import Debugger.Proofs.Session.Delivery

/-! What listeners and controllers do with a session, as programs over its functions whose
every use of the session is chronicled. Whatever they do, the notes trace the session, and
a delivery of an event is a round of its listeners. -/
namespace Debugger
variable {ε ℓ : Type}

/-- What a program keeps between its uses of a session, with the notes of what happened
there. Nothing that runs looks at the notes. -/
structure Chronicle (ε ℓ : Type) where
  own : ε
  notes : List (Note ℓ) := []

abbrev Chronicled (ε ℓ : Type) := Session (Chronicle ε ℓ) ℓ

namespace Session

def own (s : Session (Chronicle ε ℓ) ℓ) : ε :=
  s.host.own.own

def notes (s : Session (Chronicle ε ℓ) ℓ) : List (Note ℓ) :=
  s.host.own.notes

def keep (own : ε) (s : Session (Chronicle ε ℓ) ℓ) : Session (Chronicle ε ℓ) ℓ :=
  s.updateOwn fun c => { c with own }

def jot (note : Note ℓ) (s : Session (Chronicle ε ℓ) ℓ) : Session (Chronicle ε ℓ) ℓ :=
  s.updateOwn fun c => { c with notes := c.notes ++ [note] }

end Session

/-- A use of a session that tells nobody anything. -/
inductive Use (ℓ : Type) where
  | demand (demand : Demand)
  | store (operation : StoreOperation)
  | stepping (operation : StepOperation)
  | reset
  | register (listener : ℓ)
  | unregister (listener : ℓ)

def Use.make [DecidableEq ℓ] : Use ℓ → Session ε ℓ → Note ℓ × Session ε ℓ
  | .demand r, s =>
      let (granted, left) := r.make s
      (.asked r granted s.standing left.standing, left)
  | .store operation, s =>
      let (_, left) := Engine.store operation s
      (.changed s.standing (Session.standing left), left)
  | .stepping operation, s =>
      let (_, left) := Engine.stepping operation s
      (.changed s.standing (Session.standing left), left)
  | .reset, s => (.changed s.standing s.resetSteps.standing, s.resetSteps)
  | .register listener, s => (.added listener, s.addListener listener)
  | .unregister listener, s => (.removed listener, (s.removeListener listener).2)

namespace Announcement

/-- Whether it is announced besides the run, about breakpoints or errors. -/
def isAside : Announcement → Bool
  | .addBreakpoint _ | .removeBreakpoint _ | .notifyError .. => true
  | _ => false

/-- The breakpoints by the time that listeners are told. -/
def breakpoints (store : Store) : Announcement → Store
  | .addBreakpoint kind => (store.add kind).2
  | .removeBreakpoint id => (store.remove id).2
  | _ => store

def ready (a : Announcement) (s : Session ε ℓ) : Session ε ℓ :=
  { s with breakpoints := a.breakpoints s.breakpoints }

end Announcement

/-- What a listener does when it is told of an event, or a controller when the program is
parked. -/
inductive Conduct (ε ℓ : Type) where
  | done (panic : Option Panic)
  /-- Goes on as it finds the session. -/
  | look (next : Chronicled ε ℓ → Conduct ε ℓ)
  | keep (own : ε) (next : Conduct ε ℓ)
  | use (u : Use ℓ) (next : Conduct ε ℓ)
  /-- Has listeners told of something besides the run, which they meet in any way again. -/
  | aside (a : Announcement) (besides : a.isAside) (told : ℓ → Event → Conduct ε ℓ)
      (next : Conduct ε ℓ)

namespace Conduct

def play [DecidableEq ℓ] : Conduct ε ℓ → Chronicled ε ℓ → Option Panic × Chronicled ε ℓ
  | .done panic, s => (panic, s)
  | .look next, s => (next s).play s
  | .keep own next, s => next.play (s.keep own)
  | .use u next, s =>
      let (note, left) := u.make s
      next.play (Session.jot note left)
  | .aside a _ told next, s =>
      let ((), left) := a.make (n := Id)
        (fun listener event found =>
          (told listener event).play (Session.jot (.told listener event found.standing) found))
        (s.jot (.changed s.standing (a.ready s).standing))
      next.play left

def reactions [DecidableEq ℓ] (told : ℓ → Event → Conduct ε ℓ) :
    Reaction (StateM (Chronicled ε ℓ)) ℓ :=
  fun listener event s => (told listener event).play (s.jot (.told listener event s.standing))

end Conduct

/-- From one session to another these notes were taken, and they trace the standing. -/
structure Course [DecidableEq ℓ] (s : Chronicled ε ℓ) (notes : List (Note ℓ))
    (s' : Chronicled ε ℓ) : Prop where
  noted : s'.notes = s.notes ++ notes
  traces : Traces s.standing notes s'.standing
  config : s'.config = s.config
  previews : s'.previewLength = s.previewLength

namespace Course
variable [DecidableEq ℓ] {s s₁ s' : Chronicled ε ℓ} {notes first second : List (Note ℓ)}

theorem refl (s : Chronicled ε ℓ) : Course s [] s :=
  ⟨(List.append_nil _).symm, .done _, rfl, rfl⟩

theorem trans (one : Course s first s₁) (other : Course s₁ second s') :
    Course s (first ++ second) s' where
  noted := by rw [other.noted, one.noted, List.append_assoc]
  traces := one.traces.append other.traces
  config := other.config.trans one.config
  previews := other.previews.trans one.previews

theorem sound (course : Course s notes s') (sound : s.standing.Sound) : s'.standing.Sound :=
  course.traces.sound sound

theorem of_jot {note : Note ℓ} {left : Chronicled ε ℓ} (same : left.notes = s.notes)
    (traces : Traces s.standing [note] left.standing) (config : left.config = s.config)
    (previews : left.previewLength = s.previewLength) : Course s [note] (left.jot note) :=
  ⟨congrArg (· ++ [note]) same, traces, config, previews⟩

end Course

namespace Use
variable [DecidableEq ℓ]

theorem course (u : Use ℓ) (s : Chronicled ε ℓ) (sound : s.standing.Sound) :
    Course s [(u.make s).1] (Session.jot (u.make s).1 (u.make s).2) := by
  cases u with
  | demand r =>
      cases current : s.current with
      | none =>
          simp only [make, r.make_free current]
          exact .of_jot rfl (.refused r current (.done _)) rfl rfl
      | some pause =>
          obtain ⟨noted, made⟩ := r.make_outstanding (sound.outstanding current)
          simp only [make, made]
          exact .of_jot rfl (.granted r current (.done _)) rfl rfl
  | store operation => exact .of_jot rfl (.changed _ s.steps (.done _)) rfl rfl
  | stepping operation => exact .of_jot rfl (.changed s.breakpoints _ (.done _)) rfl rfl
  | reset => exact .of_jot rfl (.changed s.breakpoints _ (.done _)) rfl rfl
  | register listener => exact .of_jot rfl (.added listener (.done _)) rfl rfl
  | unregister listener => exact .of_jot rfl (.removed listener (.done _)) rfl rfl

end Use

/-- Deliveries of an event of the run to these listeners. An event besides the run leaves
nothing to speak of. -/
def Event.round (event : Event) (active : Bool) (reached : List ℓ) : List (Heard ℓ) :=
  if event.ofRun then reached.map fun listener => ⟨listener, event, active⟩ else []

theorem Event.round_cons (event : Event) (active : Bool) (listener : ℓ) (reached : List ℓ) :
    event.round active (listener :: reached) =
      event.round active [listener] ++ event.round active reached := by
  cases run : event.ofRun <;> simp [Event.round, run]

theorem heard_told (listener : ℓ) (event : Event) (found : Standing ℓ) (notes : List (Note ℓ)) :
    heard (.told listener event found :: notes) =
      event.round found.active [listener] ++ heard notes := by
  cases run : event.ofRun <;> simp [Event.round, heard, Note.heard?, run]

namespace Announcement

theorem ofRun_news {a : Announcement} (besides : a.isAside) {store : Store} {event : Event}
    (told : (a.news store).2 = some event) : event.ofRun = false := by
  cases a with
  | addBreakpoint kind | notifyError message snapshot =>
      obtain rfl := Option.some.inj told
      rfl
  | removeBreakpoint id =>
      cases removed : (store.remove id).1 with
      | false => simp [news, removed] at told
      | true =>
          obtain rfl : Event.breakpointRemoved id = event := by simpa [news, removed] using told
          rfl
  | start | finish | paused | resumed => cases besides

/-- What is announced besides the run goes to the listeners registered by then, with the
breakpoints changed. -/
theorem make_aside {a : Announcement} (besides : a.isAside)
    (react : Reaction (StateM (Session ε ℓ)) ℓ) (s : Session ε ℓ) :
    (a.make (n := Id) react s).2 =
      match (a.news s.breakpoints).2 with
      | none => Engine.note (a.news s.breakpoints).1 (a.ready s)
      | some event =>
          Session.after react event (Engine.note (a.news s.breakpoints).1 (a.ready s)) := by
  have ready : a.prepare s = a.ready s := by
    cases a with
    | start | finish | paused | resumed => cases besides
    | _ => rfl
  rw [a.make_eq, ready]
  cases (a.news s.breakpoints).2 <;> rfl

end Announcement

variable [DecidableEq ℓ]

/-- A listener that is told takes a course with no other deliveries of the run's events. -/
def Discreet (react : Reaction (StateM (Chronicled ε ℓ)) ℓ) : Prop :=
  ∀ listener event s, s.standing.Sound → ∃ notes, heard notes = [] ∧
    Course s (.told listener event s.standing :: notes) (react listener event s).2

/-- An event was delivered to listeners: to all of them, unless the policy lets one that
breaks off end the delivery. -/
structure Delivered (event : Event) (listeners : List ℓ) (s : Chronicled ε ℓ)
    (notes : List (Note ℓ)) (s' : Chronicled ε ℓ) : Prop where
  course : Course s notes s'
  heard : ∃ reached, heard notes = event.round s.isActive reached ∧ reached <+: listeners ∧
    (s.config.listenerFailure = .continue → reached = listeners)

namespace Delivered
open Session
variable {react : Reaction (StateM (Chronicled ε ℓ)) ℓ} {event : Event} {listener : ℓ}
  {listeners rest : List ℓ} {s s₁ s' : Chronicled ε ℓ} {notes more : List (Note ℓ)}

theorem nil (event : Event) (s : Chronicled ε ℓ) : Delivered event [] s [] s := by
  refine ⟨.refl s, [], ?_, List.prefix_refl [], fun _ => rfl⟩
  rw [Event.round, List.map_nil, ite_self]
  rfl

theorem cons (quiet : Debugger.heard notes = [])
    (first : Course s (.told listener event s.standing :: notes) s₁)
    (others : Delivered event rest s₁ more s') :
    Delivered event (listener :: rest) s (.told listener event s.standing :: notes ++ more) s' := by
  obtain ⟨reached, heard, front, all⟩ := others.heard
  have active : s₁.isActive = s.isActive := first.traces.active
  refine ⟨first.trans others.course, listener :: reached, ?_,
    (List.prefix_cons_inj listener).mpr front, fun policy => ?_⟩
  · rw [heard_append, heard_told, quiet, heard, List.append_nil,
      event.round_cons _ listener reached, active]
    rfl
  · rw [all (first.config ▸ policy)]

theorem cut_short (policy : s.config.listenerFailure = .abort) (quiet : Debugger.heard notes = [])
    (first : Course s (.told listener event s.standing :: notes) s₁) :
    Delivered event (listener :: rest) s (.told listener event s.standing :: notes) s₁ := by
  refine ⟨first, [listener], ?_, List.prefix_append [listener] rest, fun other => ?_⟩
  · rw [heard_told, quiet, List.append_nil]
    rfl
  · rw [policy] at other
    contradiction

theorem tell (discreet : Discreet react) (event : Event) (position : Nat) (listeners : List ℓ)
    {s : Chronicled ε ℓ} {policy : FailurePolicy} (sound : s.standing.Sound)
    (own : s.config.listenerFailure = policy) :
    ∃ notes, Delivered event listeners s notes (tell react policy event position listeners s) := by
  induction listeners generalizing position s with
  | nil => exact ⟨[], nil event s⟩
  | cons listener rest ih =>
      obtain ⟨notes, quiet, course⟩ := discreet listener event s sound
      rw [tell_cons]
      rcases reacted : react listener event s with ⟨_ | panic, left⟩
      · rw [reacted] at course
        obtain ⟨more, others⟩ := ih (position + 1) (course.sound sound) (course.config ▸ own)
        exact ⟨_, .cons quiet course others⟩
      · rw [reacted] at course
        have noted : Course s (.told listener event s.standing :: notes)
            (Engine.note [.listenerPanicked event.name position panic] left) :=
          ⟨course.noted, course.traces, course.config, course.previews⟩
        cases policy with
        | abort => exact ⟨_, cut_short own quiet noted⟩
        | «continue» =>
            obtain ⟨more, others⟩ := ih (position + 1) (noted.sound sound) (noted.config ▸ own)
            exact ⟨_, .cons quiet noted others⟩

/-- An event goes to the listeners registered when its delivery starts. -/
theorem after (discreet : Discreet react) (event : Event) {s : Chronicled ε ℓ}
    (sound : s.standing.Sound) :
    ∃ notes, Delivered event s.listeners s notes (after react event s) := by
  rw [after_eq_tell]
  exact tell discreet event 0 s.listeners sound rfl

end Delivered

theorem Announcement.aside_course {a : Announcement} (besides : a.isAside)
    {react : Reaction (StateM (Chronicled ε ℓ)) ℓ} (discreet : Discreet react)
    {s : Chronicled ε ℓ} (sound : s.standing.Sound) :
    ∃ notes, heard notes = [] ∧ Course s notes
      (a.make (n := Id) react (s.jot (.changed s.standing (a.ready s).standing))).2 := by
  let note : Note ℓ := .changed s.standing (a.ready s).standing
  have ready (noted : List Diagnostic) :
      Course s [note] (Engine.note noted (a.ready (s.jot note))) :=
    ⟨rfl, .changed _ s.steps (.done _), rfl, rfl⟩
  rw [a.make_aside besides]
  cases told : (a.news (s.jot note).breakpoints).2 with
  | none => exact ⟨[note], rfl, ready _⟩
  | some event =>
      obtain ⟨more, delivered⟩ := Delivered.after discreet event ((ready _).sound sound)
      obtain ⟨reached, round, -⟩ := delivered.heard
      have quiet : heard more = [] := by
        rw [round, Event.round, ofRun_news besides told]
        rfl
      refine ⟨[note] ++ more, ?_, (ready _).trans delivered.course⟩
      rw [heard_append, quiet]
      rfl

namespace Conduct

theorem discreet_of_course {told : ℓ → Event → Conduct ε ℓ}
    (courses : ∀ listener event (s : Chronicled ε ℓ), s.standing.Sound →
      ∃ notes, heard notes = [] ∧ Course s notes ((told listener event).play s).2) :
    Discreet (reactions told) := by
  intro listener event s sound
  have noted : Course s [.told listener event s.standing]
      (s.jot (.told listener event s.standing)) :=
    .of_jot rfl (.told listener event (.done _)) rfl rfl
  obtain ⟨notes, quiet, course⟩ := courses listener event _ (noted.sound sound)
  exact ⟨notes, quiet, noted.trans course⟩

/-- Whatever a conduct does, its notes trace the session, and none of them is a delivery
of an event of the run. -/
theorem play_course (c : Conduct ε ℓ) {s : Chronicled ε ℓ} (sound : s.standing.Sound) :
    ∃ notes, heard notes = [] ∧ Course s notes (c.play s).2 := by
  induction c generalizing s with
  | done panic => exact ⟨[], rfl, .refl s⟩
  | look next ih => exact ih s sound
  | keep own next ih =>
      have kept : Course s [] (s.keep own) := ⟨(List.append_nil _).symm, .done _, rfl, rfl⟩
      obtain ⟨notes, quiet, course⟩ := ih (kept.sound sound)
      exact ⟨notes, quiet, kept.trans course⟩
  | use u next ih =>
      have used := u.course s sound
      obtain ⟨notes, quiet, course⟩ := ih (used.sound sound)
      refine ⟨(u.make s).1 :: notes, ?_, used.trans course⟩
      rw [← quiet]
      cases u <;> rfl
  | aside a besides told next parts ih =>
      have discreet : Discreet (reactions told) :=
        discreet_of_course fun listener event s sound => parts listener event sound
      obtain ⟨notes, quiet, course⟩ := Announcement.aside_course besides discreet sound
      obtain ⟨more, silent, rest⟩ := ih (course.sound sound)
      refine ⟨notes ++ more, ?_, course.trans rest⟩
      rw [heard_append, quiet, silent]
      rfl

theorem discreet (told : ℓ → Event → Conduct ε ℓ) : Discreet (reactions told) :=
  discreet_of_course fun listener event _ sound => (told listener event).play_course sound

end Conduct
end Debugger
