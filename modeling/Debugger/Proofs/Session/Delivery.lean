import Debugger.Session.Basic

/-! Delivery of events to listeners whose callbacks use the session: they register and
unregister, give commands, make the session tell further events, and may break off.
Main statement: an event goes to the registrations as they stand when its delivery
starts, and the registrations afterwards are those with the callbacks' changes made in
order. -/
namespace Debugger
variable {ε ℓ : Type}

theorem Engine.releaseWith_host {α : Type} (r : Release)
    (prepare : Snapshot → Engine ε → α × Engine ε)
    (keeps : ∀ snapshot e, (prepare snapshot e).2.host = e.host) (e : Engine ε) :
    (e.releaseWith r prepare).2.host = e.host := by
  rw [releaseWith]
  cases e.current with
  | none => rfl
  | some pause => exact keeps pause.snapshot { e with current := none }

/-- A use of the session that leaves the registrations and the configuration alone. -/
structure Effect (ε ℓ : Type) where
  apply : Session ε ℓ → Session ε ℓ
  listeners : ∀ s, (apply s).host.listeners = s.host.listeners
  config : ∀ s, (apply s).host.config = s.host.config

namespace Effect

def ofEngine (apply : Session ε ℓ → Session ε ℓ) (host : ∀ s, (apply s).host = s.host) :
    Effect ε ℓ where
  apply := apply
  listeners s := congrArg Front.listeners (host s)
  config s := congrArg Front.config (host s)

def resume (mode : StepMode) : Effect ε ℓ :=
  ofEngine (fun s => (Session.resume mode s).2) fun s => by
    have kept := Engine.releaseWith_host .resumed (fun snapshot (s : Session ε ℓ) =>
      ((), { s with steps := Session.command mode snapshot.depth s.steps })) (fun _ _ => rfl) s
    simp only [Session.resume]
    split <;> exact kept

def interrupt : Effect ε ℓ :=
  ofEngine (fun s => (Session.interrupt s).2) fun s => by
    have kept := Engine.releaseWith_host .interrupted (fun _ (s : Session ε ℓ) => ((), s))
      (fun _ _ => rfl) s
    simp only [Session.interrupt]
    split <;> exact kept

end Effect

/-- The uses of a session that make it tell its listeners something. -/
inductive Announcement where
  | addBreakpoint (kind : Breakpoint.Kind)
  | removeBreakpoint (id : BreakpointId)
  | notifyError (message : String) (snapshot : Option Snapshot)
  | start (function : Expression)
  | finish (function : Expression)
  | paused (expression : Expression) (reason : StopReason) (snapshot : Snapshot)
  | resumed

def Announcement.make {n : Type → Type} [Monad n] (react : Reaction (StateT (Session ε ℓ) n) ℓ) :
    Announcement → StateT (Session ε ℓ) n Unit
  | .addBreakpoint kind => do
      let _ ← Session.addBreakpoint react kind
  | .removeBreakpoint id => do
      let _ ← Session.removeBreakpoint react id
  | .notifyError message snapshot => Session.notifyError react message snapshot
  | .start function => Session.start react function
  | .finish function => Session.finish react function
  | .paused expression reason snapshot =>
      Session.dispatch react (.paused expression reason snapshot)
  | .resumed => Session.dispatch react .resumed

namespace Announcement

/-- What is noted about it, and the event that listeners are told of. A removal that finds
nothing is no event. -/
def news (store : Store) : Announcement → List Diagnostic × Option Event
  | .addBreakpoint kind =>
      ([.breakpointAdded (store.add kind).1 kind], some (.breakpointAdded (store.add kind).1))
  | .removeBreakpoint id =>
      if (store.remove id).1 then
        ([.breakpointRemoval id true, .breakpointRemoved id], some (.breakpointRemoved id))
      else ([.breakpointRemoval id false], none)
  | .notifyError message snapshot => ([.interpreterError message], some (.failed message snapshot))
  | .start function => ([.executionStarted function], some (.started function))
  | .finish function => ([.executionEnded function], some (.ended function))
  | .paused expression reason snapshot => ([], some (.paused expression reason snapshot))
  | .resumed => ([], some .resumed)

/-- The session that listeners are going to be told about, before anything is noted. -/
def prepare (s : Session ε ℓ) : Announcement → Session ε ℓ
  | .addBreakpoint kind => { s with breakpoints := (s.breakpoints.add kind).2 }
  | .removeBreakpoint id => { s with breakpoints := (s.breakpoints.remove id).2 }
  | .start _ => s.setActive true
  | .finish _ => s.setActive false
  | .notifyError .. | .paused .. | .resumed => s

variable {n : Type → Type} [Monad n] [LawfulMonad n]

/-- An announcement is at most one dispatch. -/
theorem make_eq (a : Announcement) (react : Reaction (StateT (Session ε ℓ) n) ℓ)
    (s : Session ε ℓ) :
    a.make react s =
      match (a.news s.breakpoints).2 with
      | some event =>
          Session.dispatch react event (Engine.note (a.news s.breakpoints).1 (a.prepare s))
      | none => return ((), Engine.note (a.news s.breakpoints).1 (a.prepare s)) := by
  have unnoted : Engine.note [] s = s := by simp [Engine.note]
  cases a with
  | addBreakpoint kind =>
      change (do let _ ← Session.addBreakpoint react kind : StateT _ _ _).run s =
        (Session.dispatch react _).run _
      simp only [Session.addBreakpoint, StateT.run_bind, StateT.run_get, StateT.run_set,
        StateT.run_pure, pure_bind, bind_assoc]
      exact bind_pure _
  | removeBreakpoint id =>
      have noted (e : Session ε ℓ) :
          Engine.note [.breakpointRemoved id] (Engine.note [.breakpointRemoval id true] e) =
            Engine.note [.breakpointRemoval id true, .breakpointRemoved id] e := by
        simp [Engine.note]
      change (do let _ ← Session.removeBreakpoint react id : StateT _ _ _).run s = _
      cases removed : (s.breakpoints.remove id).1 with
      | true =>
          simp only [Session.removeBreakpoint, StateT.run_bind, StateT.run_get, StateT.run_set,
            StateT.run_modify, StateT.run_pure, pure_bind, bind_assoc, removed, if_true, news,
            noted]
          exact bind_pure _
      | false =>
          simp only [Session.removeBreakpoint, StateT.run_bind, StateT.run_get, StateT.run_set,
            StateT.run_pure, pure_bind, removed, Bool.false_eq_true, if_false, news]
          rfl
  | notifyError message snapshot | start function | finish function => exact pure_bind _ _
  | paused expression reason snapshot | resumed =>
      simp only [news, prepare, unnoted]
      rfl

end Announcement

/-- What a listener does when it is told of an event. -/
inductive Callback (ε ℓ : Type) where
  | done (panic : Option Panic)
  /-- Goes on as it finds the session. -/
  | look (next : Session ε ℓ → Callback ε ℓ)
  | act (effect : Effect ε ℓ) (next : Callback ε ℓ)
  | register (listener : ℓ) (next : Callback ε ℓ)
  /-- Goes on as the removal reports. -/
  | unregister (listener : ℓ) (next : Bool → Callback ε ℓ)
  /-- Has listeners told of something else, which they meet in any way again. -/
  | announce (announcement : Announcement) (told : ℓ → Event → Callback ε ℓ)
      (next : Callback ε ℓ)

inductive Enrolment (ℓ : Type) where
  | added (listener : ℓ)
  /-- With the report whether there was such a registration. -/
  | removed (listener : ℓ) (found : Bool)

/-- One delivery of an event, with the changes made while it lasted. -/
structure Delivery (ℓ : Type) where
  listener : ℓ
  event : Event
  changes : List (Enrolment ℓ)
  panic : Option Panic

namespace Callback

structure Outcome (ε ℓ : Type) where
  panic : Option Panic
  changes : List (Enrolment ℓ)
  session : Session ε ℓ

def Outcome.after (changes : List (Enrolment ℓ)) (o : Outcome ε ℓ) : Outcome ε ℓ :=
  { o with changes := changes ++ o.changes }

/-- Listeners that play their parts, each delivery with a note of it. -/
def noted {n : Type → Type} [Monad n] (note : Delivery ℓ → n Unit)
    (play : ℓ → Event → Session ε ℓ → Outcome ε ℓ) : Reaction (StateT (Session ε ℓ) n) ℓ :=
  fun listener event s => do
    let o := play listener event s
    note ⟨listener, event, o.changes, o.panic⟩
    return (o.panic, o.session)

def record (d : Delivery ℓ) : StateM (List (Delivery ℓ)) Unit :=
  modify (· ++ [d])

def play [DecidableEq ℓ] : Callback ε ℓ → Session ε ℓ → Outcome ε ℓ
  | .done panic, s => ⟨panic, [], s⟩
  | .look next, s => (next s).play s
  | .act effect next, s => next.play (effect.apply s)
  | .register listener next, s => (next.play (s.addListener listener)).after [.added listener]
  | .unregister listener next, s =>
      let (found, left) := s.removeListener listener
      ((next found).play left).after [.removed listener found]
  | .announce announcement told next, s =>
      let (((), left), deliveries) :=
        announcement.make (noted record fun listener event => (told listener event).play) s []
      (next.play left).after (deliveries.flatMap Delivery.changes)

end Callback

/-- The registrations before and after changes that are made in order. An added listener
comes last; a removal takes the first registration of its listener out, and reports
whether there was one. -/
inductive Enrolment.Replays : List ℓ → List (Enrolment ℓ) → List ℓ → Prop where
  | done (found : List ℓ) : Replays found [] found
  | added (listener : ℓ) : Replays (found ++ [listener]) rest left →
      Replays found (.added listener :: rest) left
  | removed (listener : ℓ) : listener ∉ before → Replays (before ++ behind) rest left →
      Replays (before ++ listener :: behind) (.removed listener true :: rest) left
  | missed (listener : ℓ) : listener ∉ found → Replays found rest left →
      Replays found (.removed listener false :: rest) left

namespace Enrolment
variable {found left last : List ℓ} {first second : List (Enrolment ℓ)}

theorem Replays.append (one : Replays found first left) (other : Replays left second last) :
    Replays found (first ++ second) last := by
  induction one with
  | done => exact other
  | added listener _ ih => exact .added listener (ih other)
  | removed listener absent _ ih => exact .removed listener absent (ih other)
  | missed listener absent _ ih => exact .missed listener absent (ih other)

theorem replays_removal [DecidableEq ℓ] (listener : ℓ) (found : List ℓ) :
    Replays found [.removed listener (found.contains listener)]
      (unregister listener found) := by
  by_cases member : listener ∈ found
  · obtain ⟨before, behind, absent, split, erased⟩ := List.exists_erase_eq member
    rw [unregister, erased, split, show (before ++ listener :: behind).contains listener = true by
      simp]
    exact .removed listener absent (.done _)
  · rw [unregister, List.erase_of_not_mem member, show found.contains listener = false by
      simpa using member]
    exact .missed listener member (.done _)

end Enrolment

namespace Callback

/-- From one session to another the registrations have gone through these changes, and
the configuration stays. -/
structure Leads (s : Session ε ℓ) (changes : List (Enrolment ℓ)) (s' : Session ε ℓ) : Prop where
  replays : Enrolment.Replays s.host.listeners changes s'.host.listeners
  config : s'.host.config = s.host.config

theorem Leads.trans {s s₁ s' : Session ε ℓ} {first second : List (Enrolment ℓ)}
    (one : Leads s first s₁) (other : Leads s₁ second s') : Leads s (first ++ second) s' :=
  ⟨one.replays.append other.replays, other.config.trans one.config⟩

theorem Leads.of_same {s s' : Session ε ℓ} (listeners : s'.host.listeners = s.host.listeners)
    (config : s'.host.config = s.host.config) : Leads s [] s' :=
  ⟨listeners ▸ .done _, config⟩

/-- Who is told under a policy: every registration in order, or those up to the first one
that breaks off. -/
def Reaches (listeners : List ℓ) (deliveries : List (Delivery ℓ)) : FailurePolicy → Prop
  | .continue => deliveries.map Delivery.listener = listeners
  | .abort =>
      deliveries.map Delivery.listener = listeners ∧ (∀ d ∈ deliveries, d.panic = none) ∨
        ∃ calm last, deliveries = calm ++ [last] ∧ (∀ d ∈ calm, d.panic = none) ∧
          last.panic ≠ none ∧ deliveries.map Delivery.listener <+: listeners

theorem Reaches.cons_calm {listeners : List ℓ} {deliveries : List (Delivery ℓ)}
    {policy : FailurePolicy} {d : Delivery ℓ} (calm : d.panic = none)
    (reaches : Reaches listeners deliveries policy) :
    Reaches (d.listener :: listeners) (d :: deliveries) policy := by
  cases policy with
  | «continue» => exact congrArg (d.listener :: ·) reaches
  | abort =>
      rcases reaches with ⟨all, none⟩ | ⟨before, last, split, none, some, told⟩
      · exact .inl ⟨congrArg (d.listener :: ·) all, List.forall_mem_cons.mpr ⟨calm, none⟩⟩
      · refine .inr ⟨d :: before, last, by rw [split, List.cons_append],
          List.forall_mem_cons.mpr ⟨calm, none⟩, some, ?_⟩
        exact (List.prefix_cons_inj d.listener).mpr told

variable {n : Type → Type} [Monad n] [LawfulMonad n]

def deliverNoted (note : Delivery ℓ → n Unit) (play : ℓ → Event → Session ε ℓ → Outcome ε ℓ)
    (policy : FailurePolicy) (event : Event) : Nat → List ℓ → StateT (Session ε ℓ) n Unit :=
  deliver (noted note play) (fun diagnostic => modify (Engine.note [diagnostic])) policy event

theorem deliverNoted_cons (note : Delivery ℓ → n Unit)
    (play : ℓ → Event → Session ε ℓ → Outcome ε ℓ) (policy : FailurePolicy) (event : Event)
    (position : Nat) (listener : ℓ) (rest : List ℓ) (s : Session ε ℓ) :
    deliverNoted note play policy event position (listener :: rest) s = (do
      let o := play listener event s
      note ⟨listener, event, o.changes, o.panic⟩
      match o.panic, policy with
      | none, _ => deliverNoted note play policy event (position + 1) rest o.session
      | some panic, .abort =>
          return ((), Engine.note [.listenerPanicked event.name position panic] o.session)
      | some panic, .continue =>
          deliverNoted note play policy event (position + 1) rest
            (Engine.note [.listenerPanicked event.name position panic] o.session)) := by
  simp only [deliverNoted, deliver, noted, bind, StateT.bind, bind_assoc, pure_bind]
  refine bind_congr fun _ => ?_
  cases (play listener event s).panic with
  | none => rfl
  | some panic =>
      let noted := Engine.note [.listenerPanicked event.name position panic]
        (play listener event s).session
      cases policy with
      | abort => exact pure_bind ((), noted) _
      | «continue» => exact pure_bind ((), noted) _

/-- Each listener of the list is told in turn, as far as the policy goes, and the session
is led by what the callbacks do. -/
theorem deliverNoted_reaches {play : ℓ → Event → Session ε ℓ → Outcome ε ℓ}
    (leads : ∀ listener event s,
      Leads s (play listener event s).changes (play listener event s).session)
    (policy : FailurePolicy) (event : Event) (position : Nat) (listeners : List ℓ)
    (s : Session ε ℓ) :
    ∃ deliveries left, Reaches listeners deliveries policy ∧ (∀ d ∈ deliveries, d.event = event) ∧
      Leads s (deliveries.flatMap Delivery.changes) left ∧
      ∀ {n : Type → Type} [Monad n] [LawfulMonad n] (note : Delivery ℓ → n Unit),
        deliverNoted note play policy event position listeners s = (do
          forM deliveries note
          return ((), left)) := by
  -- The list is the one taken at the start. Only the session changes from one listener to
  -- the next, and what the callbacks have made of its registrations is never looked at.
  induction listeners generalizing position s with
  | nil =>
      refine ⟨[], s, ?_, by simp, .of_same rfl rfl, fun note => ?_⟩
      · cases policy with
        | «continue» => rfl
        | abort => exact .inl ⟨rfl, by simp⟩
      · rw [List.forM_nil, pure_bind]
        rfl
  | cons listener rest ih =>
      let o := play listener event s
      let d : Delivery ℓ := ⟨listener, event, o.changes, o.panic⟩
      have first : Leads s d.changes o.session := leads listener event s
      cases panic : o.panic with
      | none =>
          obtain ⟨deliveries, left, reaches, same, led, delivers⟩ := ih (position + 1) o.session
          refine ⟨d :: deliveries, left, reaches.cons_calm panic,
            List.forall_mem_cons.mpr ⟨rfl, same⟩, first.trans led, fun note => ?_⟩
          rw [deliverNoted_cons, List.forM_cons, bind_assoc]
          refine bind_congr fun _ => ?_
          rw [show (play listener event s).panic = none from panic]
          exact delivers note
      | some panicked =>
          let left := Engine.note [.listenerPanicked event.name position panicked] o.session
          have noted : Leads s d.changes left := ⟨first.replays, first.config⟩
          have breaks : d.panic ≠ none := by simp [d, panic]
          cases policy with
          | «continue» =>
              obtain ⟨deliveries, last, reaches, same, led, delivers⟩ := ih (position + 1) left
              refine ⟨d :: deliveries, last, congrArg (listener :: ·) reaches,
                List.forall_mem_cons.mpr ⟨rfl, same⟩, noted.trans led, fun note => ?_⟩
              rw [deliverNoted_cons, List.forM_cons, bind_assoc]
              refine bind_congr fun _ => ?_
              rw [show (play listener event s).panic = some panicked from panic]
              exact delivers note
          | abort =>
              refine ⟨[d], left, .inr ⟨[], d, rfl, by simp, breaks, ?_⟩, by simp [d],
                by simpa using noted, fun note => ?_⟩
              · exact (List.prefix_cons_inj listener).mpr List.nil_prefix
              · rw [deliverNoted_cons, List.forM_cons, List.forM_nil, bind_assoc]
                refine bind_congr fun _ => ?_
                rw [show (play listener event s).panic = some panicked from panic, pure_bind]

theorem dispatch_reaches {play : ℓ → Event → Session ε ℓ → Outcome ε ℓ}
    (leads : ∀ listener event s,
      Leads s (play listener event s).changes (play listener event s).session)
    (event : Event) (s : Session ε ℓ) :
    ∃ deliveries left, Reaches s.listeners deliveries s.config.listenerFailure ∧
      (∀ d ∈ deliveries, d.event = event) ∧
      Leads s (deliveries.flatMap Delivery.changes) left ∧
      ∀ {n : Type → Type} [Monad n] [LawfulMonad n] (note : Delivery ℓ → n Unit),
        Session.dispatch (noted note play) event s = (do
          forM deliveries note
          return ((), left)) := by
  obtain ⟨deliveries, left, reaches, same, led, delivers⟩ :=
    deliverNoted_reaches leads s.config.listenerFailure event 0 s.listeners s
  refine ⟨deliveries, left, reaches, same, led, fun note => ?_⟩
  have got : Session.dispatch (noted note play) event s =
      deliverNoted note play s.config.listenerFailure event 0 s.listeners s := by
    simp only [Session.dispatch, bind, StateT.bind, get, getThe, MonadStateOf.get, StateT.get,
      pure_bind]
    rfl
  rw [got, delivers]

theorem forM_record (deliveries kept : List (Delivery ℓ)) :
    (forM deliveries record : StateM (List (Delivery ℓ)) Unit) kept = ((), kept ++ deliveries) := by
  induction deliveries generalizing kept with
  | nil =>
      rw [List.append_nil]
      rfl
  | cons d rest ih =>
      rw [List.forM_cons]
      exact (ih (kept ++ [d])).trans (by rw [List.append_assoc, List.singleton_append])

theorem announcement_leads {play : ℓ → Event → Session ε ℓ → Outcome ε ℓ}
    (leads : ∀ listener event s,
      Leads s (play listener event s).changes (play listener event s).session)
    (a : Announcement) (s : Session ε ℓ) :
    ∃ deliveries left, a.make (noted record play) s [] = (((), left), deliveries) ∧
      Leads s (deliveries.flatMap Delivery.changes) left := by
  have prepared : Leads s [] (Engine.note (a.news s.breakpoints).1 (a.prepare s)) := by
    cases a <;> exact .of_same rfl rfl
  rw [a.make_eq]
  cases (a.news s.breakpoints).2 with
  | none => exact ⟨[], _, rfl, prepared⟩
  | some event =>
      obtain ⟨deliveries, left, -, -, led, delivers⟩ := dispatch_reaches leads event
        (Engine.note (a.news s.breakpoints).1 (a.prepare s))
      refine ⟨deliveries, left, (congrFun (delivers record) []).trans ?_, prepared.trans led⟩
      simp only [bind, StateT.bind, forM_record]
      rfl

/-- Whatever a callback does, its changes lead to the registrations it leaves. -/
theorem play_leads [DecidableEq ℓ] (c : Callback ε ℓ) (s : Session ε ℓ) :
    Leads s (c.play s).changes (c.play s).session := by
  -- For an announcement there is a hypothesis for what each listener does when it is told,
  -- so that deliveries inside deliveries need no induction of their own.
  induction c generalizing s with
  | done panic => exact .of_same rfl rfl
  | look next ih => exact ih s s
  | act effect next ih =>
      exact Leads.trans (.of_same (effect.listeners s) (effect.config s)) (ih (effect.apply s))
  | register listener next ih =>
      have added : Leads s [.added listener] (s.addListener listener) :=
        ⟨.added listener (.done _), rfl⟩
      exact added.trans (ih (s.addListener listener))
  | unregister listener next ih =>
      have removed : Leads s [.removed listener (s.removeListener listener).1]
          (s.removeListener listener).2 :=
        ⟨Enrolment.replays_removal listener s.listeners, rfl⟩
      exact removed.trans (ih _ _)
  | announce announcement told next parts ih =>
      obtain ⟨deliveries, left, made, led⟩ := announcement_leads parts announcement s
      have played : play (.announce announcement told next) s =
          (next.play left).after (deliveries.flatMap Delivery.changes) := by
        rw [play, made]
      rw [played]
      exact led.trans (ih left)

end Callback

open Callback in
/-- Delivery of an event to listeners that do anything: they are told as they are
registered when the delivery starts, each registration once and in order, up to the
first one that breaks off if the policy says so. The registrations afterwards are those
before with the changes made in order. The deliveries are the same whoever notes them. -/
theorem Session.dispatch_reaches_registered [DecidableEq ℓ] (told : ℓ → Event → Callback ε ℓ)
    (event : Event) (s : Session ε ℓ) :
    ∃ deliveries left,
      (∀ {n : Type → Type} [Monad n] [LawfulMonad n] (note : Delivery ℓ → n Unit),
        dispatch (noted note fun listener event => (told listener event).play) event s = (do
          forM deliveries note
          return ((), left))) ∧
      (∀ d ∈ deliveries, d.event = event) ∧
      Reaches s.listeners deliveries s.config.listenerFailure ∧
      Enrolment.Replays s.listeners (deliveries.flatMap Delivery.changes) left.listeners := by
  obtain ⟨deliveries, left, reaches, same, led, delivers⟩ :=
    dispatch_reaches (fun listener event => play_leads (told listener event)) event s
  exact ⟨deliveries, left, delivers, same, reaches, led.replays⟩

/-- Listener 0 replaces itself by listener 2 and resumes, twice; listener 1 adds a
breakpoint, interrupts and breaks off. Of the event only the registrations at the start
are told, and of the new breakpoint those registered by then. -/
example :
    let replace : Callback Unit Nat :=
      .unregister 0 fun _ => .act (.resume .over) (.register 2 (.done none))
    let told : Nat → Event → Callback Unit Nat
      | 0, _ => replace
      | 1, _ => .announce (.addBreakpoint (.line "a" 1)) (fun _ _ => replace)
          (.act .interrupt (.done (some .payload)))
      | _, _ => .done none
    let s : Session Unit Nat := (Session.new {} ()).setListeners [0, 1, 0]
    let dispatched := Session.dispatch (Callback.noted Callback.record fun listener event =>
      (told listener event).play) .resumed s []
    dispatched.2.map Delivery.listener = [0, 1, 0] ∧
      dispatched.1.2.listeners = [1, 2, 2, 2, 2, 2] :=
  ⟨rfl, rfl⟩

end Debugger
