import Debugger.Proofs.Breakpoint.Conditions
import Debugger.Proofs.Session.Outlook
import Debugger.Proofs.Session.Party
import Debugger.Proofs.Session.Projections

/-! Sessions without conditions. Main statement: listeners, a controller and other threads that set
conditions get the same run as without them. What all of them see apart from conditions is a
projection of the session, so it is enough to follow what each of them does to its image. -/
namespace Debugger
variable {ε ε' ℓ : Type}

/-- What a listener is told, and what is answered about a pause. -/
inductive Saying (ℓ : Type) where
  | told (listener : ℓ) (event : Event)
  | answered (demand : Demand) (granted : Bool)
deriving DecidableEq

def Note.saying? : Note ℓ → Option (Saying ℓ)
  | .told listener event _ => some (.told listener event)
  | .asked demand granted _ _ => some (.answered demand granted)
  | .changed .. | .added _ | .removed _ => none

/-- What is kept, with the notes apart from the standings. -/
def Chronicle.sight (c : Chronicle ε ℓ) : ε × List (Saying ℓ) :=
  (c.own, c.notes.filterMap Note.saying?)

namespace Session

/-- The session without conditions, and with the listeners' own state seen in another way. -/
def unconditioned (see : ε → ε') (s : Session ε ℓ) : Session ε' ℓ :=
  { s.mapOwn see with breakpoints := s.breakpoints.unconditioned }

theorem decide_unconditioned (see : ε → ε') (expression : Expression) (depth : Nat)
    (s : Session ε ℓ) :
    Engine.decide expression depth (s.unconditioned see) =
      ((Engine.decide expression depth s).1,
        unconditioned see (Engine.decide expression depth s).2) := by
  have visited : (s.unconditioned see).breakpoints.shouldBreak expression.site = _ :=
    s.breakpoints.shouldBreak_unconditioned expression.site
  simp only [Engine.decide, visited, Option.isSome_map, StoreOperation.noteHit_unconditioned]
  rfl

/-- A session as it is seen by those who look away from conditions. -/
def bare (s : Chronicled ε ℓ) : Session (ε × List (Saying ℓ)) ℓ :=
  s.unconditioned Chronicle.sight

theorem bare_jot (note : Note ℓ) (s : Chronicled ε ℓ) :
    (s.jot note).bare = s.bare.updateOwn fun o => (o.1, o.2 ++ note.saying?.toList) := by
  have seen : (s.notes ++ [note]).filterMap Note.saying? =
      s.notes.filterMap Note.saying? ++ note.saying?.toList := by
    rw [List.filterMap_append]
    cases said : note.saying? <;> simp [said]
  exact congrArg (fun sayings => s.bare.updateOwn fun o => (o.1, sayings)) seen

theorem bare_jot_changed (found left : Standing ℓ) (s : Chronicled ε ℓ) :
    (s.jot (.changed found left)).bare = s.bare := by
  rw [bare_jot]
  exact congrArg (fun sayings => s.bare.updateOwn fun o => (o.1, sayings)) (List.append_nil _)

end Session

namespace Projection

theorem unconditioned (see : ε → ε') :
    Projection (Session.unconditioned see : Session ε ℓ → Session ε' ℓ) where
  slots _ := rfl
  listeners _ := rfl
  config _ := rfl
  pause _ _ _ _ := rfl
  reason expression depth s :=
    (Prod.ext_iff.mp (Session.decide_unconditioned see expression depth s)).1
  note _ _ := rfl
  setActive _ _ := rfl
  captured _ _ := rfl
  decided expression depth s :=
    (Prod.ext_iff.mp (Session.decide_unconditioned see expression depth s)).2.symm
  exited _ _ := rfl
  install _ _ _ _ := rfl
  leave _ _ _ := rfl

theorem bare : Projection (Session.bare : Chronicled ε ℓ → _) :=
  unconditioned Chronicle.sight

end Projection

namespace Demand
open Session

theorem make_unconditioned (see : ε → ε') (demand : Demand) (s : Session ε ℓ) :
    demand.make (s.unconditioned see) =
      ((demand.make s).1, unconditioned see (demand.make s).2) := by
  have seen : (s.unconditioned see).current = s.current := rfl
  cases current : s.current with
  | none =>
      rw [demand.make_free current, demand.make_free (seen.trans current)]
      rfl
  | some pause =>
      rw [demand.make_found current, demand.make_found (seen.trans current)]
      dsimp only
      rw [apply_ite (unconditioned see)]
      rfl

end Demand

namespace Use
open Session
variable [DecidableEq ℓ]

theorem bare_store (operation : StoreOperation) (s : Chronicled ε ℓ) :
    bare ((Use.store operation).make s).2 = { s.bare with
      breakpoints := (operation.perform s.breakpoints).2.2.unconditioned
      journal := s.bare.journal ++ (operation.perform s.breakpoints).2.1 } :=
  rfl

/-- A use comes to the same in sessions that differ in conditions only. -/
theorem make_alike (u : Use ℓ) {s t : Chronicled ε ℓ} (same : s.bare = t.bare) :
    (u.make s).1.saying? = (u.make t).1.saying? ∧ bare (u.make s).2 = bare (u.make t).2 := by
  cases u with
  | demand demand =>
      have made (s : Chronicled ε ℓ) : demand.make s.bare = _ :=
        demand.make_unconditioned Chronicle.sight s
      have both := (made s).symm.trans ((congrArg demand.make same).trans (made t))
      obtain ⟨granted, left⟩ := Prod.ext_iff.mp both
      exact ⟨congrArg (fun granted => some (Saying.answered demand granted)) granted, left⟩
  | store operation =>
      have stores : s.breakpoints.unconditioned = t.breakpoints.unconditioned :=
        congrArg (·.breakpoints) same
      obtain ⟨noted, left⟩ := operation.perform_alike stores
      refine ⟨rfl, ?_⟩
      rw [bare_store, bare_store, same, noted, left]
  | stepping operation =>
      exact ⟨rfl, congrArg (fun s => (Engine.stepping operation s).2) same⟩
  | reset => exact ⟨rfl, congrArg resetSteps same⟩
  | register listener => exact ⟨rfl, congrArg (addListener listener) same⟩
  | unregister listener => exact ⟨rfl, congrArg (fun s => (removeListener listener s).2) same⟩

theorem jot_alike (u : Use ℓ) {s t : Chronicled ε ℓ} (same : s.bare = t.bare) :
    bare (jot (u.make s).1 (u.make s).2) = bare (jot (u.make t).1 (u.make t).2) := by
  obtain ⟨said, left⟩ := u.make_alike same
  rw [bare_jot, bare_jot, said, left]

/-- Setting a condition does not show. -/
theorem bare_setCondition (id : BreakpointId) (condition : Option String) (s : Chronicled ε ℓ) :
    let u : Use ℓ := .store (.setCondition id condition)
    bare (jot (u.make s).1 (u.make s).2) = s.bare := by
  refine (bare_jot_changed _ _ _).trans ?_
  have breakpoints : ((StoreOperation.setCondition id condition).perform
      s.breakpoints).2.2.unconditioned = _ := s.breakpoints.unconditioned_setCondition id condition
  have noted : ((StoreOperation.setCondition id condition).perform s.breakpoints).2.1 = [] := rfl
  rw [bare_store, breakpoints, noted, List.append_nil]
  rfl

end Use

namespace Announcement
open Session

theorem ready_bare (a : Announcement) (s : Chronicled ε ℓ) :
    a.ready s.bare = (a.ready s).bare := by
  have breakpoints : a.breakpoints s.breakpoints.unconditioned =
      (a.breakpoints s.breakpoints).unconditioned := by
    cases a with
    | addBreakpoint kind => exact congrArg Prod.snd (s.breakpoints.add_unconditioned kind)
    | removeBreakpoint id => exact congrArg Prod.snd (s.breakpoints.remove_unconditioned id)
    | _ => rfl
  exact congrArg (fun breakpoints => { s.bare with breakpoints }) breakpoints

theorem news_unconditioned (a : Announcement) (store : Store) :
    a.news store.unconditioned = a.news store := by
  cases a with
  | addBreakpoint kind => simp only [news, store.add_unconditioned]
  | removeBreakpoint id => simp only [news, store.remove_unconditioned]
  | _ => rfl

/-- What is announced besides the run comes to the same in sessions that differ in conditions
only, if the listeners agree. -/
theorem aside_alike {a : Announcement} (besides : a.isAside)
    {react react' : Reaction (StateM (Chronicled ε ℓ)) ℓ}
    (agree : ∀ listener event, Projection.Agree bare bare (react listener event)
      (react' listener event)) {s t : Chronicled ε ℓ} (same : s.bare = t.bare) :
    bare (a.make (n := Id) react s).2 = bare (a.make (n := Id) react' t).2 := by
  have stores : s.breakpoints.unconditioned = t.breakpoints.unconditioned :=
    congrArg (·.breakpoints) same
  have news : a.news s.breakpoints = a.news t.breakpoints := by
    rw [← a.news_unconditioned, stores, a.news_unconditioned]
  have ready : (a.ready s).bare = (a.ready t).bare := by
    rw [← a.ready_bare, same, a.ready_bare]
  have noted : bare (Engine.note (a.news t.breakpoints).1 (a.ready s)) =
      bare (Engine.note (a.news t.breakpoints).1 (a.ready t)) :=
    congrArg (Engine.note (a.news t.breakpoints).1) ready
  rw [a.make_aside besides, a.make_aside besides, news]
  cases (a.news t.breakpoints).2 with
  | none => exact noted
  | some event => exact Projection.bare.after .bare (agree · event) noted

end Announcement

namespace Conduct

/-- Conducts that differ in the conditions that they set only. -/
inductive Alike : Conduct ε ℓ → Conduct ε ℓ → Prop where
  | done (panic : Option Panic) : Alike (.done panic) (.done panic)
  | look {next other : Chronicled ε ℓ → Conduct ε ℓ} :
      (∀ s t, s.bare = t.bare → Alike (next s) (other t)) → Alike (.look next) (.look other)
  | keep (own : ε) {next other : Conduct ε ℓ} : Alike next other →
      Alike (.keep own next) (.keep own other)
  | use (u : Use ℓ) {next other : Conduct ε ℓ} : Alike next other →
      Alike (.use u next) (.use u other)
  | aside (a : Announcement) (besides : a.isAside) {told told' : ℓ → Event → Conduct ε ℓ}
      {next other : Conduct ε ℓ} :
      (∀ listener event, Alike (told listener event) (told' listener event)) → Alike next other →
      Alike (.aside a besides told next) (.aside a besides told' other)
  | first (id : BreakpointId) (condition : Option String) {next other : Conduct ε ℓ} :
      Alike next other → Alike (.use (.store (.setCondition id condition)) next) other
  | second (id : BreakpointId) (condition : Option String) {next other : Conduct ε ℓ} :
      Alike next other → Alike next (.use (.store (.setCondition id condition)) other)

variable [DecidableEq ℓ]

theorem reactions_agree {told told' : ℓ → Event → Conduct ε ℓ} {listener : ℓ} {event : Event}
    (agree : Projection.Agree Session.bare Session.bare (told listener event).play
      (told' listener event).play) :
    Projection.Agree Session.bare Session.bare (reactions told listener event)
      (reactions told' listener event) := by
  intro s t same
  refine agree _ _ ?_
  rw [Session.bare_jot, Session.bare_jot, same]
  rfl

/-- Conducts that differ in the conditions that they set only come to the same in sessions that
differ in conditions only. -/
theorem Alike.agree {c d : Conduct ε ℓ} (alike : Alike c d) :
    Projection.Agree Session.bare Session.bare c.play d.play := by
  intro s t same
  induction alike generalizing s t with
  | done panic => exact ⟨rfl, same⟩
  -- Either may look at its conditions, but they go on alike whatever it finds there.
  | look _ ih => exact ih s t same s t same
  | keep own _ ih => exact ih _ _ (congrArg (Session.updateOwn fun o => (own, o.2)) same)
  | use u _ ih => exact ih _ _ (u.jot_alike same)
  | aside a besides _ _ parts ih =>
      have jotted := (Session.bare_jot_changed s.standing (a.ready s).standing s).trans
        (same.trans (Session.bare_jot_changed t.standing (a.ready t).standing t).symm)
      exact ih _ _ (Announcement.aside_alike besides
        (fun listener event => reactions_agree (parts listener event)) jotted)
  | first id condition _ ih => exact ih _ _ ((Use.bare_setCondition id condition s).trans same)
  | second id condition _ ih =>
      exact ih _ _ (same.trans (Use.bare_setCondition id condition t).symm)

end Conduct

/-- Where a call asks the store whether to stop. -/
def HookCall.site? : HookCall → Option Site
  | .enter expression _ _ => some expression.site
  | _ => none

/-- A session next to a log of what its store has answered at sites. There is an entry for each
call of the hook, each listener that was told, and each time the controller acted. -/
abbrev Audited (ε ℓ : Type) := Session (Chronicle ε ℓ × List (List Store.Check)) ℓ

namespace Audited
open Store

def session (s : Audited ε ℓ) : Chronicled ε ℓ :=
  s.mapOwn Prod.fst

def log (s : Audited ε ℓ) : List (List Check) :=
  s.host.own.2

def bare (s : Audited ε ℓ) : Session ((ε × List (Saying ℓ)) × List (List Check)) ℓ :=
  s.unconditioned (Prod.map Chronicle.sight id)

/-- Somebody who does not see the log acts. -/
def within (act : Chronicled ε ℓ → Option Panic × Chronicled ε ℓ) (s : Audited ε ℓ) :
    Option Panic × Audited ε ℓ :=
  ((act s.session).1, (act s.session).2.mapOwn (·, s.log))

/-- Other threads use the store, and its visiting order changes, as it is due by now. What the
store then answers at the site, if somebody asks, goes to the log as well. -/
def interleave (meanwhile : Nat → List Move) (asked : Option Site) (s : Audited ε ℓ) :
    Audited ε ℓ :=
  let made := Move.makeAll s.breakpoints (meanwhile s.log.length)
  let answer := asked.toList.map fun site => (site, (made.store.shouldBreak site).1.isSome)
  { s with
    breakpoints := made.store
    journal := s.journal ++ made.noted
    host := { s.host with own := (s.host.own.1, s.log ++ [made.checks ++ answer]) } }

variable {s t : Audited ε ℓ} {meanwhile meanwhile' : Nat → List Move}

theorem bare_interleave (meanwhile : Nat → List Move) (asked : Option Site) (s : Audited ε ℓ) :
    let made := Move.makeAll s.breakpoints (meanwhile s.log.length)
    let answer := asked.toList.map fun site => (site, (made.store.shouldBreak site).1.isSome)
    (interleave meanwhile asked s).bare = { s.bare with
      breakpoints := made.store.unconditioned
      journal := s.bare.journal ++ made.noted
      host := { s.bare.host with
        own := (s.bare.host.own.1, s.bare.host.own.2 ++ [made.checks ++ answer]) } } :=
  rfl

theorem interleave_alike (others : ∀ n, Move.others (meanwhile n) = Move.others (meanwhile' n))
    (asked : Option Site) (same : s.bare = t.bare) :
    (interleave meanwhile asked s).bare = (interleave meanwhile' asked t).bare := by
  have log : s.log = t.log := congrArg (·.host.own.2) same
  have stores : s.breakpoints.unconditioned = t.breakpoints.unconditioned :=
    congrArg (·.breakpoints) same
  obtain ⟨checks, noted, store⟩ : _ ∧ _ ∧ _ := by
    simpa only [Move.Outcome.unconditioned, Prod.mk.injEq] using
      Move.makeAll_of_others stores (others s.log.length)
  have answers (site : Site) := isSome_shouldBreak_alike store site
  rw [bare_interleave, bare_interleave, same, ← log, checks, noted, store]
  simp only [answers]

/-- The answer that goes to the log at an entry is the one that the engine goes by. -/
theorem log_interleave (meanwhile : Nat → List Move) (expression : Expression) (depth : Nat)
    (s : Audited ε ℓ) :
    let found := s.interleave meanwhile (some expression.site)
    let stops := decide ((Engine.decide expression depth found).1 = some .breakpoint)
    ∃ checks, found.log = s.log ++ [checks ++ [(expression.site, stops)]] := by
  intro found stops
  have answer : (found.breakpoints.shouldBreak expression.site).1.isSome = stops := by
    simp only [stops, Engine.decide]
    split
    · next fired => simp [fired]
    · next calm => split <;> simp [calm]
  rw [← answer]
  exact ⟨_, rfl⟩

theorem session_interleave_nothing (asked : Option Site) (s : Audited ε ℓ) :
    (s.interleave (fun _ => []) asked).session = s.session :=
  congrArg (fun journal => { s.session with journal }) (List.append_nil s.journal)

theorem within_alike {act act' : Chronicled ε ℓ → Option Panic × Chronicled ε ℓ}
    (agree : Projection.Agree Session.bare Session.bare act act') :
    Projection.Agree bare bare (within act) (within act') := by
  intro s t same
  have logs : log s = log t := congrArg (·.host.own.2) same
  have sessions : (session s).bare = (session t).bare := congrArg (Session.mapOwn Prod.fst) same
  obtain ⟨panics, left⟩ := agree _ _ sessions
  have seen : (act (session s)).2.bare.mapOwn (·, log s) =
      (act' (session t)).2.bare.mapOwn (·, log t) := by rw [left, logs]
  exact ⟨panics, seen⟩

end Audited

namespace Party
variable [DecidableEq ℓ]

/-- Parties that differ in the conditions that they set only. -/
structure Alike (p q : Party ε ℓ) : Prop where
  listeners : q.listeners = p.listeners
  own : q.own = p.own
  told : ∀ listener event, (p.told listener event).Alike (q.told listener event)
  controller : Option.Rel Conduct.Alike p.controller q.controller

section Audit
variable (p : Party ε ℓ) (meanwhile : Nat → List Store.Move)

def auditedReact : Reaction (StateM (Audited ε ℓ)) ℓ :=
  fun listener event s => (s.interleave meanwhile none).within (p.react listener event)

def auditedHook : Hook (Thread (Audited ε ℓ)) :=
  (Session.hook (p.auditedReact meanwhile)).preceded fun call =>
    Audited.interleave meanwhile call.site?

def controls : Option (Audited ε ℓ → Audited ε ℓ) :=
  p.controller.map fun act s => ((s.interleave meanwhile none).within act.play).2

/-- The run with other threads that use the store in the meantime. -/
def auditedRun (tree : CallTree) (s : Audited ε ℓ) :
    Run (Audited ε ℓ) (Except DebugError Nat) :=
  Session.attended (p.controls meanwhile) (tree.run (p.auditedHook meanwhile) s)

end Audit

def auditedSession (p : Party ε ℓ) (config : Config) (breakpoints : Store) (steps : Steps) :
    Audited ε ℓ :=
  (p.session config breakpoints steps).mapOwn (·, [])

/-- Without other threads it is the run of the party. -/
theorem auditedRun_alone (p : Party ε ℓ) (tree : CallTree) (s : Audited ε ℓ) :
    (p.run tree s.session).result? = (p.auditedRun (fun _ => []) tree s).result? ∧
      (p.auditedRun (fun _ => []) tree s).state.session = (p.run tree s.session).state := by
  have alone (asked : Option Site) (s : Audited ε ℓ) (t : Chronicled ε ℓ) (same : s.session = t) :
      (s.interleave (fun _ => []) asked).session = t :=
    (Audited.session_interleave_nothing asked s).trans same
  refine Projection.run (.mapOwn Prod.fst) .self ?_ (fun call => alone call.site?) ?_ tree rfl
  · intro listener event s t same
    rw [← alone none s t same]
    exact ⟨rfl, rfl⟩
  · unfold controls
    cases p.controller with
    | none => exact .none
    | some act =>
        refine .some fun s t same => ?_
        rw [← alone none s t same]
        rfl

variable {p q : Party ε ℓ} {meanwhile meanwhile' : Nat → List Store.Move}

theorem Alike.react (alike : p.Alike q) (listener : ℓ) (event : Event) :
    Projection.Agree Session.bare Session.bare (p.react listener event) (q.react listener event) :=
  Conduct.reactions_agree (alike.told listener event).agree

theorem Alike.controls (alike : p.Alike q)
    (others : ∀ n, Store.Move.others (meanwhile n) = Store.Move.others (meanwhile' n)) :
    Option.Rel (fun act act' : Audited ε ℓ → Audited ε ℓ =>
        ∀ s t : Audited ε ℓ, s.bare = t.bare → (act s).bare = (act' t).bare)
      (p.controls meanwhile) (q.controls meanwhile') := by
  have same := alike.controller
  unfold Party.controls
  generalize p.controller = controller, q.controller = controller' at same ⊢
  cases same with
  | none => exact .none
  | some alike =>
      refine .some fun s t same => ?_
      exact (Audited.within_alike alike.agree _ _ (Audited.interleave_alike others none same)).2

/-- Parties that differ in the conditions that they set only, among other threads that do too,
keep sessions alike that differ in conditions only. -/
theorem Alike.run (alike : p.Alike q)
    (others : ∀ n, Store.Move.others (meanwhile n) = Store.Move.others (meanwhile' n))
    (tree : CallTree) {s t : Audited ε ℓ} (same : s.bare = t.bare) :
    (q.auditedRun meanwhile' tree t).result? = (p.auditedRun meanwhile tree s).result? ∧
      (p.auditedRun meanwhile tree s).state.bare = (q.auditedRun meanwhile' tree t).state.bare := by
  have bare : Projection (Audited.bare : Audited ε ℓ → _) := .unconditioned _
  refine bare.run bare ?_ ?_ (alike.controls others) tree same
  · intro listener event s t same
    exact Audited.within_alike (alike.react listener event) _ _
      (Audited.interleave_alike others none same)
  · intro call s t same
    exact Audited.interleave_alike others call.site? same

end Party

open Store in
/-- Neither a disabled breakpoint nor the text of a condition has a part in a visit, and a visit
leaves what is disabled as it was. So histories of a store whose visiting order may change, and
runs of any program with listeners, a controller and other threads, come to the same if they
differ in conditions only: the same answers of the store, the same pauses for the same reasons,
and in the end the same breakpoints with their hit counts and the same step state. -/
theorem Party.conditions_leave_no_trace (ε ℓ : Type) [DecidableEq ℓ] {s t : Store}
    (stores : s.unconditioned = t.unconditioned) :
    (∀ site,
      (s.active.shouldBreak site).1 = (s.shouldBreak site).1 ∧
        (s.active.shouldBreak site).2 = (s.shouldBreak site).2.active ∧
        (s.shouldBreak site).2.entries.filter (!·.enabled) = s.entries.filter (!·.enabled) ∧
        (s.shouldBreak site).1.map Breakpoint.unconditioned =
          (t.shouldBreak site).1.map Breakpoint.unconditioned ∧
        (s.shouldBreak site).2.unconditioned = (t.shouldBreak site).2.unconditioned) ∧
      (∀ moves moves', Move.others moves = Move.others moves' →
        (Move.makeAll s moves).unconditioned = (Move.makeAll t moves').unconditioned) ∧
      ∀ (p q : Party ε ℓ) (meanwhile meanwhile' : Nat → List Move), p.Alike q →
        (∀ n, Move.others (meanwhile n) = Move.others (meanwhile' n)) →
        ∀ tree config steps,
          let run := p.auditedRun meanwhile tree (p.auditedSession config s steps)
          let other := q.auditedRun meanwhile' tree (q.auditedSession config t steps)
          other.result? = run.result? ∧ other.state.log = run.state.log ∧
            other.state.pauses = run.state.pauses ∧
            other.state.breakpoints.unconditioned = run.state.breakpoints.unconditioned ∧
            other.state.steps = run.state.steps ∧ other.state.bare = run.state.bare := by
  refine ⟨fun site => ?_, fun moves moves' => Move.makeAll_of_others stores, ?_⟩
  · obtain ⟨fired, left⟩ := Prod.ext_iff.mp (s.shouldBreak_active site)
    have disabled := Breakpoint.filter_disabled_visit site s.entries
    exact ⟨fired, left, disabled, shouldBreak_alike stores site⟩
  · intro p q meanwhile meanwhile' parties others tree config steps run other
    have began : (p.auditedSession config s steps).bare =
        (q.auditedSession config t steps).bare := by
      let began := (p.auditedSession config s steps).bare
      rw [auditedSession, auditedSession, session, session, parties.listeners, parties.own]
      exact congrArg (fun breakpoints => { began with breakpoints }) stores
    obtain ⟨result, same⟩ := parties.run others tree began
    have pauses : run.state.bare.pauses = other.state.bare.pauses := congrArg Session.pauses same
    exact ⟨result, congrArg (·.host.own.2) same.symm, pauses.symm,
      congrArg (·.breakpoints) same.symm, congrArg (·.steps) same.symm, same.symm⟩

/-- A breakpoint that waits for its second hit and a disabled one, on one function. Another
thread and the listener of one run set conditions; the other thread has the order of the visits
turned round in both runs. -/
theorem Party.conditions_leave_no_trace_of_waiting :
    let first := BreakpointId.ofSequence 0
    let second := BreakpointId.ofSequence 1
    let kind : Breakpoint.Kind := .function "leaf" false
    let s : Store := { entries := [⟨first, kind, true, some "x > 0", 0, 2⟩,
      ⟨second, kind, false, none, 7, 0⟩], next := 2 }
    let t : Store := { entries := [⟨first, kind, true, none, 0, 2⟩,
      ⟨second, kind, false, some "y", 7, 0⟩], next := 2 }
    let leaf := Call.mk (some "leaf") none none [] [] []
    let last := Call.mk (some "last") none none [] [] []
    let tree : CallTree := ⟨.mk (some "main") none none [] [] [leaf, leaf, last]⟩
    let p : Party Unit Unit := {
      listeners := [()]
      told := fun
        | _, .paused .. => .use (.store (.setCondition second (some "z")))
            (.use (.demand (.command .into)) (.done none))
        | _, _ => .done none
      own := () }
    let q : Party Unit Unit := { p with
      told := fun
        | _, .paused .. => .use (.demand (.command .into)) (.done none)
        | _, _ => .done none }
    let turn : Store.Move := .arrange ⟨⟨List.reverse, List.reverse_perm⟩, fun _ => List.map_reverse⟩
    let meanwhile : Nat → List Store.Move := fun
      | 3 => [.operate (.setCondition first (some "w")), turn, .operate (.shouldBreak ⟨none, none⟩)]
      | _ => []
    let meanwhile' : Nat → List Store.Move := fun
      | 3 => [turn, .operate (.shouldBreak ⟨none, none⟩)]
      | _ => []
    let run := p.auditedRun meanwhile tree (p.auditedSession {} s {})
    let other := q.auditedRun meanwhile' tree (q.auditedSession {} t {})
    s.unconditioned = t.unconditioned ∧ p.Alike q ∧
      (∀ n, Store.Move.others (meanwhile n) = Store.Move.others (meanwhile' n)) ∧
      other.result? = run.result? ∧ other.state.log = run.state.log ∧
      other.state.bare = run.state.bare ∧
      run.state.log.flatten.map Prod.snd = [false, false, false, true, false] ∧
      run.state.pauses.map Prod.fst = [.breakpoint, .step] ∧
      run.state.breakpoints.entries.map (fun b => (b.condition, b.hitCount)) =
        [(some "z", 7), (some "w", 2)] ∧
      other.state.breakpoints.entries.map (fun b => (b.condition, b.hitCount)) =
        [(some "y", 7), (none, 2)] := by
  intro first second kind s t leaf last tree p q turn meanwhile meanwhile' run other
  have stores : s.unconditioned = t.unconditioned := rfl
  have parties : p.Alike q := by
    refine ⟨rfl, rfl, fun listener event => ?_, .none⟩
    cases event with
    | paused => exact .first _ _ (.use _ (.done none))
    | _ => exact .done none
  have others (n : Nat) : Store.Move.others (meanwhile n) = Store.Move.others (meanwhile' n) := by
    rcases n with _ | _ | _ | _ | n <;> rfl
  obtain ⟨-, -, runs⟩ := Party.conditions_leave_no_trace Unit Unit stores
  obtain ⟨result, log, -, -, -, same⟩ := runs p q meanwhile meanwhile' parties others tree {} {}
  refine ⟨stores, parties, others, result, log, same, ?_, ?_, ?_, ?_⟩
  · decide +kernel
  · decide +kernel
  · decide +kernel
  · decide +kernel

end Debugger
