import Mathlib.Data.Finset.Basic
import Debugger.Proofs.Breakpoint.Registry
import Debugger.Proofs.Session.Reachable

/-! What listeners learn about the breakpoints. Main statement: a listener that inserts and
deletes identifiers as it is told holds the identifiers of the store after every call that
changes it, whatever the other listeners do apart from changing the breakpoints. -/
namespace Debugger
variable {ε ℓ : Type}

namespace Store
variable {s : Store} {id other : BreakpointId}

theorem mem_ids_iff : id ∈ s.ids ↔ s.contains id := by
  rw [ids, List.mem_map, contains, Option.isSome_iff_exists]
  constructor
  · rintro ⟨b, member, rfl⟩
    have held : b ∈ s.entries := (KeyOrder.sort_perm _ _).mem_iff.mp member
    exact Option.ne_none_iff_exists'.mp fun none => get?_eq_none_iff.mp none b held rfl
  · rintro ⟨b, found⟩
    exact ⟨b, (KeyOrder.sort_perm _ _).mem_iff.mpr (List.mem_of_find?_eq_some found),
      id_of_get? found⟩

theorem mem_ids_add (kind : Breakpoint.Kind) :
    other ∈ (s.add kind).2.ids ↔ other = (s.add kind).1 ∨ other ∈ s.ids := by
  rw [mem_ids_iff, mem_ids_iff, contains, get?_add, Registry.set]
  split
  case isTrue same => exact iff_of_true rfl (.inl same)
  case isFalse different => exact (or_iff_right different).symm

theorem mem_ids_remove : other ∈ (s.remove id).2.ids ↔ other ≠ id ∧ other ∈ s.ids := by
  rw [mem_ids_iff, mem_ids_iff, contains, get?_remove, Registry.set]
  split
  case isTrue same => exact iff_of_false Bool.false_ne_true fun held => held.1 same
  case isFalse different => exact (and_iff_right different).symm

theorem nodup_ids_iff : s.ids.Nodup ↔ (s.entries.map (·.id)).Nodup :=
  ((KeyOrder.sort_perm _ _).map _).nodup_iff

/-- Stores that list the same identifiers and hand out the same one next. -/
structure SameIds (s s' : Store) : Prop where
  ids : s'.ids = s.ids
  next : s'.next = s.next

theorem SameIds.trans {s₁ s₂ s₃ : Store} (one : SameIds s₁ s₂) (other : SameIds s₂ s₃) :
    SameIds s₁ s₃ :=
  ⟨other.ids.trans one.ids, other.next.trans one.next⟩

end Store

/-- Whether an event reports a change of the breakpoints. -/
def Event.ofStore : Event → Bool
  | .breakpointAdded _ | .breakpointRemoved _ => true
  | _ => false

/-- Inserts what was added and deletes what was removed. -/
def Event.follow (held : Finset BreakpointId) : Event → Finset BreakpointId
  | .breakpointAdded id => insert id held
  | .breakpointRemoved id => held.erase id
  | _ => held

/-- The identifiers that somebody holds who started with none and follows the events. -/
def Event.replay (events : List Event) : Finset BreakpointId :=
  events.foldl follow ∅

namespace Note

/-- The report that the note is of the listener being told, if it is. -/
def report? [DecidableEq ℓ] (listener : ℓ) : Note ℓ → Option Event
  | .told other event _ => if other = listener ∧ event.ofStore then some event else none
  | _ => none

/-- The note is no change of the identifiers in use, nor of the one that comes next. -/
def KeepsIds : Note ℓ → Prop
  | .changed found left => Store.SameIds found.breakpoints left.breakpoints
  | _ => True

end Note

instance : DecidablePred (Note.KeepsIds (ℓ := ℓ))
  | .changed found left =>
      decidable_of_iff (left.breakpoints.ids = found.breakpoints.ids ∧
        left.breakpoints.next = found.breakpoints.next)
        ⟨fun same => ⟨same.1, same.2⟩, fun same => ⟨same.ids, same.next⟩⟩
  | .told .. | .asked .. | .added _ | .removed _ => .isTrue trivial

/-- What the listener was told about the breakpoints. -/
def reports [DecidableEq ℓ] (listener : ℓ) (notes : List (Note ℓ)) : List Event :=
  notes.filterMap (Note.report? listener)

section Reports
variable [DecidableEq ℓ] {listener : ℓ}

@[simp] theorem reports_append (first second : List (Note ℓ)) :
    reports listener (first ++ second) = reports listener first ++ reports listener second :=
  List.filterMap_append

theorem reports_told (other : ℓ) (event : Event) (found : Standing ℓ) (rest : List (Note ℓ)) :
    reports listener (.told other event found :: rest) =
      (if other = listener then [event].filter Event.ofStore else []) ++
        reports listener rest := by
  cases reported : event.ofStore <;> by_cases here : other = listener <;>
    simp [reports, Note.report?, here, reported]

theorem Traces.sameIds {found left : Standing ℓ} {notes : List (Note ℓ)}
    (traces : Traces found notes left) (keeps : ∀ note ∈ notes, note.KeepsIds) :
    Store.SameIds found.breakpoints left.breakpoints := by
  induction traces with
  | done => exact ⟨rfl, rfl⟩
  | told _ _ _ ih | refused _ _ _ ih | granted _ _ _ ih | added _ _ ih | removed _ _ ih =>
      exact ih fun note member => keeps note (List.mem_cons_of_mem _ member)
  | changed breakpoints steps _ ih =>
      have here : Store.SameIds _ breakpoints := keeps _ List.mem_cons_self
      exact here.trans (ih fun note member => keeps note (List.mem_cons_of_mem _ member))

/-- An announcement besides the run that keeps the identifiers reports no change of them. -/
theorem Announcement.not_ofStore {a : Announcement} (besides : a.isAside) {store : Store}
    {event : Event} (told : (a.news store).2 = some event)
    (same : Store.SameIds store (a.breakpoints store)) : event.ofStore = false := by
  cases a with
  | addBreakpoint kind => exact absurd same.next (by simp [breakpoints, Store.add])
  | removeBreakpoint id =>
      cases removed : (store.remove id).1 with
      | false => simp [news, removed] at told
      | true =>
          have held : id ∈ (store.remove id).2.ids := by
            rw [show (store.remove id).2.ids = store.ids from same.ids]
            exact Store.mem_ids_iff.mpr removed
          exact absurd rfl (Store.mem_ids_remove.mp held).1
  | notifyError message snapshot =>
      obtain rfl := Option.some.inj told
      rfl
  | start | finish | paused | resumed => cases besides

/-- What a listener does when it is told is no report to this one, if it keeps the
identifiers. -/
def Silent (listener : ℓ) (react : Reaction (StateM (Chronicled ε ℓ)) ℓ) : Prop :=
  ∀ other event (s : Chronicled ε ℓ), s.standing.Sound → s.config.listenerFailure = .continue →
    ∃ notes, Course s (.told other event s.standing :: notes) (react other event s).2 ∧
      ((∀ note ∈ notes, note.KeepsIds) → reports listener notes = [])

namespace Silent
open Session
variable {react : Reaction (StateM (Chronicled ε ℓ)) ℓ} {s : Chronicled ε ℓ}

/-- An event is reported once for each registration of the listener among those told, wherever
others break off. -/
theorem tell (silent : Silent listener react) (event : Event) (position : Nat)
    (listeners : List ℓ) (sound : s.standing.Sound)
    (policy : s.config.listenerFailure = .continue) :
    ∃ notes, Course s notes (tell react .continue event position listeners s) ∧
      ((∀ note ∈ notes, note.KeepsIds) → reports listener notes =
        (List.replicate (listeners.count listener) event).filter Event.ofStore) := by
  induction listeners generalizing position s with
  | nil => exact ⟨[], .refl s, fun _ => rfl⟩
  | cons other rest ih =>
      obtain ⟨notes, course, quiet⟩ := silent other event s sound policy
      obtain ⟨s₁, first, goes⟩ : ∃ s₁, Course s (.told other event s.standing :: notes) s₁ ∧
          Session.tell react .continue event position (other :: rest) s =
            Session.tell react .continue event (position + 1) rest s₁ := by
        rw [tell_cons]
        rcases reacted : react other event s with ⟨_ | panic, left⟩ <;> rw [reacted] at course
        · exact ⟨left, course, rfl⟩
        · exact ⟨Engine.note [.listenerPanicked event.name position panic] left,
            ⟨course.noted, course.traces, course.config, course.previews⟩, rfl⟩
      obtain ⟨more, others, counted⟩ :=
        ih (position + 1) (first.sound sound) (first.config ▸ policy)
      refine ⟨_, goes ▸ first.trans others, fun keeps => ?_⟩
      obtain ⟨here, later⟩ := List.forall_mem_append.mp keeps
      rw [reports_append, reports_told, quiet (List.forall_mem_cons.mp here).2, counted later,
        List.append_nil, List.count_cons]
      by_cases same : other = listener
      · rw [if_pos same, if_pos (beq_iff_eq.mpr same), List.replicate_succ, ← List.filter_append]
        rfl
      · rw [if_neg same, if_neg (mt beq_iff_eq.mp same)]
        rfl

theorem after (silent : Silent listener react) (event : Event) (sound : s.standing.Sound)
    (policy : s.config.listenerFailure = .continue) :
    ∃ notes, Course s notes (after react event s) ∧
      ((∀ note ∈ notes, note.KeepsIds) → reports listener notes =
        (List.replicate (s.listeners.count listener) event).filter Event.ofStore) := by
  rw [after_eq_tell, policy]
  exact silent.tell event 0 s.listeners sound policy

/-- What is announced besides the run reports nothing either. -/
theorem aside (silent : Silent listener react) {a : Announcement} (besides : a.isAside)
    (sound : s.standing.Sound) (policy : s.config.listenerFailure = .continue) :
    ∃ notes, Course s notes
        (a.make (n := Id) react (s.jot (.changed s.standing (a.ready s).standing))).2 ∧
      ((∀ note ∈ notes, note.KeepsIds) → reports listener notes = []) := by
  let note : Note ℓ := .changed s.standing (a.ready s).standing
  have ready (noted : List Diagnostic) :
      Course s [note] (Engine.note noted (a.ready (s.jot note))) :=
    ⟨rfl, .changed _ s.steps (.done _), rfl, rfl⟩
  rw [a.make_aside besides]
  cases told : (a.news (s.jot note).breakpoints).2 with
  | none => exact ⟨[note], ready _, fun _ => rfl⟩
  | some event =>
      obtain ⟨more, others, counted⟩ := silent.after event ((ready _).sound sound) policy
      refine ⟨[note] ++ more, (ready _).trans others, fun keeps => ?_⟩
      obtain ⟨here, later⟩ := List.forall_mem_append.mp keeps
      have unreported : event.ofStore = false :=
        Announcement.not_ofStore besides told (here note List.mem_cons_self)
      rw [reports_append, counted later, List.filter_replicate_of_neg (by simp [unreported])]
      rfl

theorem of_plays {told : ℓ → Event → Conduct ε ℓ}
    (plays : ∀ other event (s : Chronicled ε ℓ), s.standing.Sound →
      s.config.listenerFailure = .continue →
      ∃ notes, Course s notes ((told other event).play s).2 ∧
        ((∀ note ∈ notes, note.KeepsIds) → reports listener notes = [])) :
    Silent listener (Conduct.reactions told) := by
  intro other event s sound policy
  have noted : Course s [.told other event s.standing] (s.jot (.told other event s.standing)) :=
    .of_jot rfl (.told other event (.done _)) rfl rfl
  obtain ⟨notes, course, quiet⟩ := plays other event _ (noted.sound sound) policy
  exact ⟨notes, noted.trans course, quiet⟩

end Silent

theorem Conduct.play_silent (listener : ℓ) (c : Conduct ε ℓ) {s : Chronicled ε ℓ}
    (sound : s.standing.Sound) (policy : s.config.listenerFailure = .continue) :
    ∃ notes, Course s notes (c.play s).2 ∧
      ((∀ note ∈ notes, note.KeepsIds) → reports listener notes = []) := by
  induction c generalizing s with
  | done panic => exact ⟨[], .refl s, fun _ => rfl⟩
  | look next ih => exact ih s sound policy
  | keep own next ih =>
      have kept : Course s [] (s.keep own) := ⟨(List.append_nil _).symm, .done _, rfl, rfl⟩
      obtain ⟨notes, course, quiet⟩ := ih (kept.sound sound) policy
      exact ⟨notes, kept.trans course, quiet⟩
  | use u next ih =>
      have used := u.course s sound
      obtain ⟨notes, course, quiet⟩ := ih (used.sound sound) (used.config ▸ policy)
      refine ⟨[(u.make s).1] ++ notes, used.trans course, fun keeps => ?_⟩
      have none : reports listener [(u.make s).1] = [] := by cases u <;> rfl
      rw [reports_append, none, quiet (List.forall_mem_append.mp keeps).2]
      rfl
  | aside a besides told next parts ih =>
      have silent : Silent listener (reactions told) :=
        .of_plays fun other event _ => parts other event
      obtain ⟨notes, course, quiet⟩ := silent.aside besides sound policy
      obtain ⟨more, rest, later⟩ := ih (course.sound sound) (course.config ▸ policy)
      refine ⟨notes ++ more, course.trans rest, fun keeps => ?_⟩
      obtain ⟨first, second⟩ := List.forall_mem_append.mp keeps
      rw [reports_append, quiet first, later second]
      rfl

theorem Conduct.silent (listener : ℓ) (told : ℓ → Event → Conduct ε ℓ) :
    Silent listener (reactions told) :=
  .of_plays fun other event _ => (told other event).play_silent listener

/-- The listener is registered once, and these are the identifiers in use. -/
structure Mirrors (listener : ℓ) (held : Finset BreakpointId) (s : Chronicled ε ℓ) : Prop where
  once : s.listeners.count listener = 1
  distinct : s.breakpoints.ids.Nodup
  ids : s.breakpoints.ids.toFinset = held

namespace Mirrors
variable {held : Finset BreakpointId} {s s' : Chronicled ε ℓ} {notes : List (Note ℓ)}

theorem course (mirrors : Mirrors listener held s) (course : Course s notes s')
    (harmless : ∀ note ∈ notes, note.Spares listener ∧ note.KeepsIds) :
    Mirrors listener held s' := by
  have ids : s'.breakpoints.ids = s.breakpoints.ids :=
    (course.traces.sameIds fun note member => (harmless note member).2).ids
  refine ⟨?_, ids ▸ mirrors.distinct, ids ▸ mirrors.ids⟩
  exact (course.traces.count fun note member => (harmless note member).1).trans mirrors.once

theorem added (mirrors : Mirrors listener held s) (kind : Breakpoint.Kind)
    (breakpoints : s'.breakpoints = (s.breakpoints.add kind).2)
    (listeners : s'.listeners = s.listeners) :
    Mirrors listener (insert (s.breakpoints.add kind).1 held) s' where
  once := listeners ▸ mirrors.once
  distinct := by
    have entries := Store.nodup_ids_iff.mp mirrors.distinct
    rw [breakpoints]
    exact Store.nodup_ids_iff.mpr (Store.distinct_put _ entries)
  ids := by
    ext id
    rw [breakpoints, ← mirrors.ids, Finset.mem_insert, List.mem_toFinset, List.mem_toFinset]
    exact Store.mem_ids_add kind

theorem removed (mirrors : Mirrors listener held s) (id : BreakpointId)
    (breakpoints : s'.breakpoints = (s.breakpoints.remove id).2)
    (listeners : s'.listeners = s.listeners) : Mirrors listener (held.erase id) s' where
  once := listeners ▸ mirrors.once
  distinct := by
    have entries := Store.nodup_ids_iff.mp mirrors.distinct
    rw [breakpoints]
    exact Store.nodup_ids_iff.mpr (entries.sublist (List.filter_sublist.map _))
  ids := by
    ext other
    rw [breakpoints, ← mirrors.ids, Finset.mem_erase, List.mem_toFinset, List.mem_toFinset]
    exact Store.mem_ids_remove

/-- Nothing is deleted when there was nothing to remove. -/
theorem erase_missing (mirrors : Mirrors listener held s) {id : BreakpointId}
    (missing : (s.breakpoints.remove id).1 = false) : held.erase id = held := by
  refine Finset.erase_eq_of_notMem fun member => ?_
  rw [← mirrors.ids, List.mem_toFinset, Store.mem_ids_iff] at member
  exact Bool.false_ne_true (missing.symm.trans member)

end Mirrors

/-- What is due to be reported from one session to another is reported to the listener, and it
follows the identifiers by that. -/
structure Followed (listener : ℓ) (s : Chronicled ε ℓ) (due : List Event) (notes : List (Note ℓ))
    (s' : Chronicled ε ℓ) : Prop where
  noted : s'.notes = s.notes ++ notes
  sound : s'.standing.Sound
  config : s'.config = s.config
  reports : (∀ note ∈ notes, note.Spares listener ∧ note.KeepsIds) →
    ∀ held, Mirrors listener held s →
      reports listener notes = due ∧ Mirrors listener (due.foldl Event.follow held) s'

namespace Followed
variable {s s₁ s' : Chronicled ε ℓ} {due more : List Event} {notes later : List (Note ℓ)}

theorem refl (sound : s.standing.Sound) : Followed listener s [] [] s :=
  ⟨(List.append_nil _).symm, sound, rfl, fun _ _ mirrors => ⟨rfl, mirrors⟩⟩

theorem trans (one : Followed listener s due notes s₁)
    (other : Followed listener s₁ more later s') :
    Followed listener s (due ++ more) (notes ++ later) s' where
  noted := by rw [other.noted, one.noted, List.append_assoc]
  sound := other.sound
  config := other.config.trans one.config
  reports harmless held mirrors := by
    obtain ⟨here, behind⟩ := List.forall_mem_append.mp harmless
    obtain ⟨first, mirrors⟩ := one.reports here held mirrors
    obtain ⟨second, mirrors⟩ := other.reports behind _ mirrors
    rw [reports_append, first, second, List.foldl_append]
    exact ⟨rfl, mirrors⟩

/-- A change of the breakpoints is announced to the listeners right away. -/
theorem announced {told : ℓ → Event → Conduct ε ℓ} {event : Event} (change : event.ofStore)
    (noted : s₁.notes = s.notes) (config : s₁.config = s.config) (sound : s₁.standing.Sound)
    (policy : s.config.listenerFailure = .continue)
    (follows : ∀ held, Mirrors listener held s → Mirrors listener (event.follow held) s₁) :
    ∃ notes, Followed listener s [event] notes
      (Session.after (Conduct.reactions told) event s₁) := by
  obtain ⟨notes, course, counted⟩ :=
    (Conduct.silent listener told).after event sound (config ▸ policy)
  refine ⟨notes, noted ▸ course.noted, course.sound sound, course.config.trans config,
    fun harmless held mirrors => ?_⟩
  have mirrored := follows held mirrors
  rw [counted fun note member => (harmless note member).2, mirrored.once]
  exact ⟨by simp [change], mirrored.course course harmless⟩

end Followed

/-- A client's call that changes the breakpoints, or what anybody does in between. -/
inductive Edit (ε ℓ : Type) where
  | add (kind : Breakpoint.Kind)
  | remove (id : BreakpointId)
  | meanwhile (c : Conduct ε ℓ)

namespace Edit
variable {told : ℓ → Event → Conduct ε ℓ} {s : Chronicled ε ℓ}

/-- The event that the call's answer stands for: an addition returns an identifier, and a
removal says whether there was something to remove. -/
def make (told : ℓ → Event → Conduct ε ℓ) : Edit ε ℓ → StateM (Chronicled ε ℓ) (Option Event)
  | .add kind => do
      let id ← Session.addBreakpoint (n := Id) (Conduct.reactions told) kind
      return some (.breakpointAdded id)
  | .remove id => do
      let removed ← Session.removeBreakpoint (n := Id) (Conduct.reactions told) id
      return if removed then some (.breakpointRemoved id) else none
  | .meanwhile c => fun s => (none, (c.play s).2)

/-- Makes the calls in order. -/
def makeAll (told : ℓ → Event → Conduct ε ℓ) :
    List (Edit ε ℓ) → Chronicled ε ℓ → List Event × Chronicled ε ℓ
  | [], s => ([], s)
  | edit :: rest, s =>
      let made := edit.make told s
      let others := makeAll told rest made.2
      (made.1.toList ++ others.1, others.2)

theorem makeAll_append (first second : List (Edit ε ℓ)) (s : Chronicled ε ℓ) :
    makeAll told (first ++ second) s =
      ((makeAll told first s).1 ++ (makeAll told second (makeAll told first s).2).1,
        (makeAll told second (makeAll told first s).2).2) := by
  induction first generalizing s with
  | nil => rfl
  | cons edit rest ih => simp only [List.cons_append, makeAll, ih, List.append_assoc]

theorem make_remove (told : ℓ → Event → Conduct ε ℓ) (id : BreakpointId) (s : Chronicled ε ℓ) :
    let found := (s.breakpoints.remove id).1
    let left := Engine.note [.breakpointRemoval id found]
      { s with breakpoints := (s.breakpoints.remove id).2 }
    (Edit.remove id).make told s =
      if found then (some (.breakpointRemoved id),
        Session.after (Conduct.reactions told) (.breakpointRemoved id)
          (Engine.note [.breakpointRemoved id] left))
      else (none, left) := by
  cases removed : (s.breakpoints.remove id).1 <;>
    simp only [make, Session.removeBreakpoint, bind, StateT.bind, get, getThe, MonadStateOf.get,
      StateT.get, pure, removed] <;>
    rfl

theorem make_followed (listener : ℓ) (edit : Edit ε ℓ) (sound : s.standing.Sound)
    (policy : s.config.listenerFailure = .continue) :
    ∃ notes, Followed listener s (edit.make told s).1.toList notes (edit.make told s).2 := by
  cases edit with
  | add kind =>
      exact Followed.announced rfl rfl rfl sound policy fun held mirrors =>
        mirrors.added kind rfl rfl
  | remove id =>
      have made := make_remove told id s
      cases removed : (s.breakpoints.remove id).1 with
      | true =>
          simp only [removed, if_true] at made
          rw [made]
          exact Followed.announced rfl rfl rfl sound policy fun held mirrors =>
            mirrors.removed id rfl rfl
      | false =>
          simp only [removed, Bool.false_eq_true, if_false] at made
          rw [made]
          refine ⟨[], (List.append_nil _).symm, sound, rfl, fun _ held mirrors => ⟨rfl, ?_⟩⟩
          exact mirrors.erase_missing removed ▸ mirrors.removed id rfl rfl
  | meanwhile c =>
      obtain ⟨notes, course, quiet⟩ := c.play_silent listener sound policy
      refine ⟨notes, course.noted, course.sound sound, course.config,
        fun harmless held mirrors => ⟨quiet fun note member => (harmless note member).2, ?_⟩⟩
      exact mirrors.course course harmless

theorem makeAll_followed (told : ℓ → Event → Conduct ε ℓ) (listener : ℓ)
    (edits : List (Edit ε ℓ)) (sound : s.standing.Sound)
    (policy : s.config.listenerFailure = .continue) :
    ∃ notes, Followed listener s (makeAll told edits s).1 notes (makeAll told edits s).2 := by
  induction edits generalizing s with
  | nil => exact ⟨[], .refl sound⟩
  | cons edit rest ih =>
      obtain ⟨notes, first⟩ := edit.make_followed listener sound policy
      obtain ⟨more, others⟩ := ih first.sound (first.config ▸ policy)
      exact ⟨notes ++ more, first.trans others⟩

end Edit

/-- Clients add and remove breakpoints, and others do what they like with the session in between
or when they are told, but for changes of the breakpoints; they may break off. A listener that
is registered throughout is told of every addition and of every removal that found something,
once and in the order of the calls. After each call the events so far, replayed, give the
identifiers that the store lists. -/
theorem Session.mirror_follows_store (told : ℓ → Event → Conduct ε ℓ) (listener : ℓ)
    (edits : List (Edit ε ℓ)) {s : Chronicled ε ℓ} (reachable : s.Reachable)
    (policy : s.config.listenerFailure = .continue) (once : s.listeners.count listener = 1)
    (empty : s.breakpoints.isEmpty) :
    ∃ notes, (Edit.makeAll told edits s).2.notes = s.notes ++ notes ∧
      ((∀ note ∈ notes, note.Spares listener ∧ note.KeepsIds) →
        ∀ before after, edits = before ++ after →
          ∃ due left noted, Edit.makeAll told before s = (due, left) ∧
            left.notes = s.notes ++ noted ∧ noted <+: notes ∧
            reports listener noted = due ∧
            Event.replay (reports listener noted) = left.breakpoints.ids.toFinset ∧
            left.breakpoints.ids.Nodup) := by
  obtain ⟨notes, all⟩ := Edit.makeAll_followed told listener edits reachable.sound policy
  refine ⟨notes, all.noted, fun harmless before after split => ?_⟩
  obtain ⟨first, begun⟩ := Edit.makeAll_followed told listener before reachable.sound policy
  obtain ⟨second, ended⟩ :=
    Edit.makeAll_followed told listener after begun.sound (begun.config ▸ policy)
  have whole : notes = first ++ second := by
    have noted := all.noted
    rw [split, Edit.makeAll_append, (begun.trans ended).noted] at noted
    exact (List.append_cancel_left noted).symm
  have start : Mirrors listener ∅ s := by
    have none : s.breakpoints.ids = [] := by
      rw [Store.ids, Store.list, List.isEmpty_iff.mp empty]
      rfl
    exact ⟨once, none ▸ List.nodup_nil, none ▸ rfl⟩
  obtain ⟨told, mirrors⟩ := begun.reports
    (fun note member => harmless note (whole ▸ List.mem_append_left _ member)) ∅ start
  exact ⟨_, _, first, rfl, begun.noted, ⟨second, whole.symm⟩, told, told ▸ mirrors.ids.symm,
    mirrors.distinct⟩

end Reports

/-- Listener 0 breaks off whenever it is told, listener 2 reports an error and tries to remove
what is not there, and somebody registers listener 3 in between. Listener 1 follows. The first
breakpoint is removed twice, and one that never was is removed too. -/
theorem Session.mirror_follows_store_of_three :
    let first := BreakpointId.ofSequence 0
    let second := BreakpointId.ofSequence 1
    let told : Nat → Event → Conduct Unit Nat
      | 0, _ => .done (some .payload)
      | 2, .breakpointAdded _ =>
          .aside (.notifyError "late" none) rfl (fun _ _ => .done none)
            (.aside (.removeBreakpoint ⟨"none"⟩) rfl (fun _ _ => .done none) (.done none))
      | _, _ => .done none
    let edits : List (Edit Unit Nat) :=
      [.add (.line "a" 1), .add (.function "f" false), .meanwhile (.use (.register 3) (.done none)),
        .remove first, .remove first, .remove ⟨"none"⟩]
    let s : Chronicled Unit Nat := setListeners [0, 1, 2] (Session.new {} ⟨(), []⟩)
    ∃ due left noted, Edit.makeAll told edits s = (due, left) ∧
      left.notes = s.notes ++ noted ∧ reports 1 noted = due ∧
      due = [.breakpointAdded first, .breakpointAdded second, .breakpointRemoved first] ∧
      Event.replay (reports 1 noted) = {second} ∧ left.breakpoints.ids = [second] := by
  intro first second told edits s
  have reachable : s.Reachable := .host _ (.new {} _)
  obtain ⟨notes, jotted, follows⟩ :=
    Session.mirror_follows_store told 1 edits reachable rfl rfl rfl
  have all : notes = (Edit.makeAll told edits s).2.notes := jotted.symm
  have harmless : ∀ note ∈ notes, note.Spares 1 ∧ note.KeepsIds := by
    rw [all]
    decide +kernel
  obtain ⟨due, left, noted, made, since, -, reported, replayed, -⟩ :=
    follows harmless edits [] (List.append_nil _).symm
  have dues : (Edit.makeAll told edits s).1 =
      [.breakpointAdded first, .breakpointAdded second, .breakpointRemoved first] := by
    decide +kernel
  have listed : (Edit.makeAll told edits s).2.breakpoints.ids = [second] := by decide +kernel
  rw [made] at dues listed
  refine ⟨due, left, noted, made, since, reported, dues, ?_, listed⟩
  rw [replayed, listed]
  rfl

end Debugger
