import Debugger.Proofs.Session.Abreast
import Debugger.Proofs.Session.Outlook
import Debugger.Proofs.Session.Party

/-! Onlookers: listeners that read a session and may break off, but leave it as it is. Main
statement: a listener and a controller that answer the pauses of a program cannot tell whether
onlookers are registered before and behind the listener, unless the policy lets one of them
that breaks off keep an event from it. -/
namespace Debugger
variable {α π ℓ : Type}

/-- What the listener without a name, or its controller, does with what it can make out. -/
inductive Answering (α : Type) where
  | done (panic : Option Panic)
  | look (next : Outlook α → Answering α)
  | keep (own : α) (next : Answering α)
  | use (u : Use Empty) (next : Answering α)
  | aside (a : Announcement) (besides : a.isAside) (told : Event → Answering α)
      (next : Answering α)

/-- How an onlooker takes an event: whether it breaks off, and what onlookers keep. -/
abbrev Onlooking (α π ℓ : Type) := ℓ → Event → Chronicled (α × π) (Option ℓ) → Option Panic × π

namespace Onlooking

def conduct (watch : Onlooking α π ℓ) (l : ℓ) (event : Event) : Conduct (α × π) (Option ℓ) :=
  .look fun s => .keep (s.own.1, (watch l event s).2) (.done (watch l event s).1)

/-- The listener without a name among onlookers. -/
def around (watch : Onlooking α π ℓ) (told : Event → Conduct (α × π) (Option ℓ)) :
    Option ℓ → Event → Conduct (α × π) (Option ℓ)
  | none, event => told event
  | some l, event => watch.conduct l event

end Onlooking

def Answering.conduct (watch : Onlooking α π ℓ) : Answering α → Conduct (α × π) (Option ℓ)
  | .done panic => .done panic
  | .look next => .look fun s => (next s.outlook).conduct watch
  | .keep own next => .look fun s => .keep (own, s.own.2) (next.conduct watch)
  | .use u next => .use (u.among (Option ℓ)) (next.conduct watch)
  | .aside a besides told next =>
      .aside a besides (watch.around fun event => (told event).conduct watch) (next.conduct watch)

/-- A listener that answers, a controller, and onlookers of every name. -/
structure Company (α π ℓ : Type) where
  answers : Event → Answering α
  controller : Option (Answering α) := none
  watch : Onlooking α π ℓ
  own : α × π

namespace Company

/-- The listener is registered between onlookers. -/
def party (c : Company α π ℓ) (before behind : List ℓ) : Party (α × π) (Option ℓ) where
  listeners := before.map some ++ none :: behind.map some
  told := c.watch.around fun event => (c.answers event).conduct c.watch
  controller := c.controller.map (·.conduct c.watch)
  own := c.own

def run [DecidableEq ℓ] (c : Company α π ℓ) (before behind : List ℓ) (tree : CallTree)
    (config : Config) (breakpoints : Store) (steps : Steps) :
    Run (Chronicled (α × π) (Option ℓ)) (Except DebugError Nat) :=
  (c.party before behind).run tree ((c.party before behind).session config breakpoints steps)

end Company

/-- Sessions of the listener alone and among onlookers that look the same to it. -/
structure Alike (before behind : List ℓ) (policy : FailurePolicy)
    (s t : Chronicled (α × π) (Option ℓ)) : Prop where
  outlook : t.outlook = s.outlook
  alone : s.listeners = [none]
  watched : t.listeners = before.map some ++ none :: behind.map some
  policy : s.config.listenerFailure = policy

/-- The policy let one of the first `k` listeners that were told break a delivery off. -/
def CutShort (policy : FailurePolicy) (k : Nat) {ε : Type} (s : Session ε ℓ) : Prop :=
  policy = .abort ∧ ∃ position ∈ s.breaks, position < k

namespace CutShort
variable {ε : Type} {policy : FailurePolicy} {k : Nat}

theorem mono {s t : Session ε ℓ} (grows : s.journal ⊆ t.journal) (cut : CutShort policy k s) :
    CutShort policy k t := by
  obtain ⟨abort, position, broken, early⟩ := cut
  obtain ⟨d, noted, place⟩ := List.mem_filterMap.mp broken
  exact ⟨abort, position, List.mem_filterMap.mpr ⟨d, grows noted, place⟩, early⟩

theorem lasting [DecidableEq ℓ] : Lasting (CutShort policy k (ε := Chronicle ε ℓ) (ℓ := ℓ)) :=
  .of_journal fun _ _ grows => mono grows

end CutShort

theorem Use.front_among [DecidableEq ℓ] (u : Use Empty)
    (s : Chronicled (α × π) (Option ℓ)) :
    ((u.among (Option ℓ)).make s).2.listeners = s.listeners ∧
      ((u.among (Option ℓ)).make s).2.config = s.config := by
  cases u with
  | demand d =>
      cases d with
      | command mode => exact ⟨(Effect.resume mode).listeners s, (Effect.resume mode).config s⟩
      | interrupt => exact ⟨Effect.interrupt.listeners s, Effect.interrupt.config s⟩
  | store operation | stepping operation | reset => exact ⟨rfl, rfl⟩
  | register listener | unregister listener => cases listener

/-- The listener breaks off in both sessions or in neither, and leaves them alike; or the
second is cut short. -/
def Matched (before behind : List ℓ) (policy : FailurePolicy)
    (one other : Option Panic × Chronicled (α × π) (Option ℓ)) : Prop :=
  (other.1 = one.1 ∧ Alike before behind policy one.2 other.2) ∨
    CutShort policy before.length other.2

namespace Alike
open Session
variable {before behind : List ℓ} {policy : FailurePolicy} {s t : Chronicled (α × π) (Option ℓ)}

theorem config (alike : Alike before behind policy s t) : t.config = s.config :=
  congrArg (fun o : Outlook α => o.host.config) alike.outlook

/-- Sessions stay alike by what is done to both and shows in the outlook. -/
theorem both (alike : Alike before behind policy s t)
    (f : Chronicled (α × π) (Option ℓ) → Chronicled (α × π) (Option ℓ))
    (shown : Outlook α → Outlook α) (shows : ∀ s, (f s).outlook = shown s.outlook)
    (listeners : ∀ s, (f s).listeners = s.listeners) (config : ∀ s, (f s).config = s.config) :
    Alike before behind policy (f s) (f t) where
  outlook := by rw [shows, shows, alike.outlook]
  alone := (listeners s).trans alike.alone
  watched := (listeners t).trans alike.watched
  policy := by rw [config, alike.policy]

/-- Sessions stay alike by what is done to the watched one only and does not show. -/
theorem unseen (alike : Alike before behind policy s t) {t' : Chronicled (α × π) (Option ℓ)}
    (outlook : t'.outlook = t.outlook) (listeners : t'.listeners = t.listeners) :
    Alike before behind policy s t' where
  outlook := outlook.trans alike.outlook
  alone := alike.alone
  watched := listeners.trans alike.watched
  policy := alike.policy

theorem note (alike : Alike before behind policy s t) (diagnostics : List Diagnostic) :
    Alike before behind policy (Engine.note diagnostics s) (Engine.note diagnostics t) :=
  alike.both _ _ (outlook_note · diagnostics) (fun _ => rfl) fun _ => rfl

theorem panicked (alike : Alike before behind policy s t) (event : String) (position : Nat)
    (panic : Panic) :
    Alike before behind policy s (Engine.note [.listenerPanicked event position panic] t) :=
  alike.unseen (outlook_panicked t event position panic) rfl

theorem jot (alike : Alike before behind policy s t) (one other : Note (Option ℓ))
    (events : other.event? = one.event?) (answers : other.answer? = one.answer?) :
    Alike before behind policy (s.jot one) (t.jot other) where
  outlook := by rw [outlook_jot, outlook_jot, events, answers, alike.outlook]
  alone := alike.alone
  watched := alike.watched
  policy := alike.policy

theorem keep (alike : Alike before behind policy s t) (own : α) :
    Alike before behind policy (s.keep (own, s.own.2)) (t.keep (own, t.own.2)) where
  outlook := congrArg (updateOwn fun sight : Sight α => { sight with own }) alike.outlook
  alone := alike.alone
  watched := alike.watched
  policy := alike.policy

variable [DecidableEq ℓ]

theorem use (alike : Alike before behind policy s t) (u : Use Empty) :
    Alike before behind policy
      (Session.jot ((u.among (Option ℓ)).make s).1 ((u.among (Option ℓ)).make s).2)
      (Session.jot ((u.among (Option ℓ)).make t).1 ((u.among (Option ℓ)).make t).2) := by
  have used : Alike before behind policy ((u.among (Option ℓ)).make s).2
      ((u.among (Option ℓ)).make t).2 :=
    alike.both (fun s => ((u.among (Option ℓ)).make s).2) (fun o => (u.make o).2)
      (fun s => (outlook_use s u).2.2) (fun s => (u.front_among s).1) fun s => (u.front_among s).2
  obtain ⟨answer, event, -⟩ := outlook_use s u
  obtain ⟨answer', event', -⟩ := outlook_use t u
  refine used.jot _ _ (event'.trans event.symm) ?_
  rw [answer', answer, alike.outlook]

variable (watch : Onlooking α π ℓ) (told : Event → Conduct (α × π) (Option ℓ))

/-- An onlooker that is told leaves no trace that the listener could see. -/
theorem looked (alike : Alike before behind policy s t) (l : ℓ) (event : Event) :
    Alike before behind policy s
      (Conduct.reactions (watch.around told) (some l) event t).2 := by
  refine alike.unseen ?_ rfl
  have noted := outlook_jot t (.told (some l) event t.standing)
  refine noted.trans ?_
  simp only [updateOwn, Sight.see, Note.event?, Note.answer?, Option.toList, List.append_nil]

/-- Onlookers before the listener are told without its notice, unless they cut the delivery
short. -/
theorem tell_before (event : Event) (first : List ℓ) (rest : List (Option ℓ)) (position : Nat)
    (place : position + first.length = before.length) (alike : Alike before behind policy s t) :
    (∃ t₁, Alike before behind policy s t₁ ∧
      tell (Conduct.reactions (watch.around told)) policy event position
          (first.map some ++ rest) t =
        tell (Conduct.reactions (watch.around told)) policy event before.length rest t₁) ∨
    CutShort policy before.length (tell (Conduct.reactions (watch.around told)) policy event
      position (first.map some ++ rest) t) := by
  induction first generalizing position t with
  | nil =>
      obtain rfl : position = before.length := place
      exact .inl ⟨t, alike, rfl⟩
  | cons l others ih =>
      have next : position + 1 + others.length = before.length := by
        rw [← place, List.length_cons]
        omega
      have looked := alike.looked watch told l event
      rw [List.map_cons, List.cons_append, tell_cons]
      rcases reacted : Conduct.reactions (watch.around told) (some l) event t
        with ⟨_ | panic, left⟩ <;> rw [reacted] at looked
      · exact ih (position + 1) next looked
      · cases policy with
        | abort =>
            have early : position < before.length := by omega
            exact .inr ⟨rfl, position, List.mem_filterMap.mpr
              ⟨_, List.mem_append_right _ (.head _), rfl⟩, early⟩
        | «continue» => exact ih (position + 1) next (looked.panicked event.name position panic)

theorem tell_behind (event : Event) (last : List ℓ) (position : Nat)
    (alike : Alike before behind policy s t) :
    Alike before behind policy s (tell (Conduct.reactions (watch.around told)) policy event
      position (last.map some) t) := by
  induction last generalizing position t with
  | nil => exact alike
  | cons l others ih =>
      have looked := alike.looked watch told l event
      rw [List.map_cons, tell_cons]
      rcases reacted : Conduct.reactions (watch.around told) (some l) event t
        with ⟨_ | panic, left⟩ <;> rw [reacted] at looked
      · exact ih (position + 1) looked
      · have noted := looked.panicked event.name position panic
        cases policy with
        | abort => exact noted
        | «continue» => exact ih (position + 1) noted

/-- The listener is told at other positions, which shows in the diagnostics only. -/
theorem tell_between (event : Event) (position : Nat)
    (answered : Matched before behind policy
      (Conduct.reactions (watch.around told) none event s)
      (Conduct.reactions (watch.around told) none event t)) :
    Alike before behind policy
        (tell (Conduct.reactions (watch.around told)) policy event 0 [none] s)
        (tell (Conduct.reactions (watch.around told)) policy event position
          (none :: behind.map some) t) ∨
      CutShort policy before.length (tell (Conduct.reactions (watch.around told)) policy event
        position (none :: behind.map some) t) := by
  obtain ⟨same, alike⟩ | cut := answered
  · left
    rw [tell_cons, tell_cons]
    rcases reacted : Conduct.reactions (watch.around told) none event s with ⟨result, left⟩
    rcases others : Conduct.reactions (watch.around told) none event t with ⟨result', left'⟩
    rw [reacted, others] at same alike
    obtain rfl : result' = result := same
    cases result' with
    | none => exact alike.tell_behind watch told event behind _
    | some panic =>
        have noted : Alike before behind policy
            (Engine.note [.listenerPanicked event.name 0 panic] left)
            (Engine.note [.listenerPanicked event.name position panic] left') := by
          refine ⟨?_, alike.alone, alike.watched, alike.policy⟩
          rw [outlook_panicked, outlook_panicked, alike.outlook]
        cases policy with
        | abort => exact noted
        | «continue» => exact noted.tell_behind watch told event behind _
  · exact .inr (CutShort.lasting.tell_first position cut fun position _ =>
      CutShort.lasting.tell (fun listener => CutShort.lasting.reacts _ listener event) _ position _)

/-- An event is delivered to the listener alone and to it among onlookers. -/
theorem after (alike : Alike before behind policy s t) (event : Event)
    (same : ∀ s t, Alike before behind policy s t →
      Matched before behind policy ((told event).play s) ((told event).play t)) :
    Alike before behind policy (Session.after (Conduct.reactions (watch.around told)) event s)
        (Session.after (Conduct.reactions (watch.around told)) event t) ∨
      CutShort policy before.length
        (Session.after (Conduct.reactions (watch.around told)) event t) := by
  rw [after_eq_tell, after_eq_tell, alike.alone, alike.watched, alike.config, alike.policy]
  obtain ⟨t₁, alike, goes⟩ | cut := alike.tell_before watch told event before
    (none :: behind.map some) 0 (Nat.zero_add _)
  · rw [goes]
    exact tell_between watch told event before.length
      (same _ _ (alike.jot (.told none event s.standing) (.told none event t₁.standing) rfl rfl))
  · exact .inr cut

end Alike

namespace Answering
open Session
variable [DecidableEq ℓ] {before behind : List ℓ} {policy : FailurePolicy}
  {s t : Chronicled (α × π) (Option ℓ)}

/-- Whatever is done with what can be made out of a session comes to the same in sessions
that look alike. -/
theorem matched (watch : Onlooking α π ℓ) (a : Answering α)
    (alike : Alike before behind policy s t) :
    Matched before behind policy ((a.conduct watch).play s) ((a.conduct watch).play t) := by
  induction a generalizing s t with
  | done panic => exact .inl ⟨rfl, alike⟩
  | look next ih =>
      have same := ih t.outlook alike
      rw [conduct, Conduct.play, Conduct.play]
      rwa [← alike.outlook]
  | keep own next ih => exact ih (alike.keep own)
  | use u next ih => exact ih (alike.use u)
  | aside a besides told next parts ih =>
      let told' (event : Event) := (told event).conduct watch
      let react := Conduct.reactions (watch.around told')
      let s₁ := s.jot (.changed s.standing (a.ready s).standing)
      let t₁ := t.jot (.changed t.standing (a.ready t).standing)
      have jotted : Alike before behind policy s₁ t₁ := alike.jot _ _ rfl rfl
      have breakpoints : t₁.breakpoints = s₁.breakpoints := congrArg (·.breakpoints) jotted.outlook
      have ready : Alike before behind policy (a.ready s₁) (a.ready t₁) :=
        jotted.both a.ready a.ready (fun _ => rfl) (fun _ => rfl) fun _ => rfl
      have noted := ready.note (a.news s₁.breakpoints).1
      change Matched before behind policy
        ((next.conduct watch).play (a.make (n := Id) react s₁).2)
        ((next.conduct watch).play (a.make (n := Id) react t₁).2)
      rw [a.make_aside besides, a.make_aside besides, breakpoints]
      cases (a.news s₁.breakpoints).2 with
      | none => exact ih noted
      | some event =>
          obtain delivered | cut := noted.after watch told' event fun s t => parts event
          · exact ih delivered
          · exact .inr (CutShort.lasting.play _ cut)

end Answering

namespace Company
open Session
variable [DecidableEq ℓ]

/-- Alone and among onlookers the listener keeps its sessions alike. -/
theorem coupling (c : Company α π ℓ) (before behind : List ℓ) (policy : FailurePolicy) :
    Coupling (c.party before behind).react (c.party before behind).react
      (Alike before behind policy) (CutShort policy before.length) where
  lasts := CutShort.lasting.toInvariant
  reacts := CutShort.lasting.reacts _
  slots _ _ alike := congrArg (·.slots) alike.outlook
  reason expression depth _ _ alike :=
    congrArg (fun o : Outlook α => (Engine.decide expression depth o).1) alike.outlook
  pause expression reason depth _ _ alike :=
    congrArg (fun o : Outlook α => Engine.newPause expression reason depth o) alike.outlook
  note diagnostics _ _ alike := alike.note diagnostics
  setActive active _ _ alike :=
    alike.both _ (setActive active) (fun _ => rfl) (fun _ => rfl) fun _ => rfl
  captured context _ _ alike :=
    alike.both _ (Engine.captureContext context) (fun _ => rfl) (fun _ => rfl) fun _ => rfl
  decided expression depth _ _ alike :=
    alike.both (fun s => (Engine.decide expression depth s).2)
      (fun o => (Engine.decide expression depth o).2) (outlook_decide · expression depth)
      (fun _ => rfl) fun _ => rfl
  exited expression _ _ alike :=
    alike.both _ (Engine.exited expression) (fun _ => rfl) (fun _ => rfl) fun _ => rfl
  install expression reason depth _ _ alike :=
    alike.both _ _ (outlook_install · expression reason depth) (fun _ => rfl) fun _ => rfl
  leave pause r _ _ alike :=
    alike.both _ _ (outlook_leave · pause r) (fun _ => rfl) fun _ => rfl
  told event _ _ alike :=
    alike.after c.watch _ event fun _ _ alike => (c.answers event).matched c.watch alike

/-- Onlookers at any places in the list of registrations, each free to break off whenever it is
told, change nothing that the listener could see, however it and its controller answer: neither
the pauses nor the answers nor the result, nor what is left in the end. Where the policy lets a
listener that breaks off end the delivery, none before the listener may have done so. -/
theorem onlookers_are_invisible (c : Company α π ℓ) (before behind : List ℓ) (tree : CallTree)
    (config : Config) (breakpoints : Store) (steps : Steps)
    (reached : config.listenerFailure = .abort → ∀ position ∈
      (c.run before behind tree config breakpoints steps).state.breaks, before.length ≤ position) :
    let alone := c.run [] [] tree config breakpoints steps
    let watched := c.run before behind tree config breakpoints steps
    watched.state.pauses = alone.state.pauses ∧
      watched.state.notes.filterMap Note.answer? = alone.state.notes.filterMap Note.answer? ∧
      watched.result? = alone.result? ∧
      watched.state.breakpoints = alone.state.breakpoints ∧
      watched.state.steps = alone.state.steps ∧
      watched.state.isActive = alone.state.isActive ∧
      watched.state.isPaused = alone.state.isPaused ∧
      watched.state.outlook = alone.state.outlook := by
  intro alone watched
  let policy := config.listenerFailure
  have began : Alike before behind policy ((c.party [] []).session config breakpoints steps)
      ((c.party before behind).session config breakpoints steps) := ⟨rfl, rfl, rfl, rfl⟩
  have abreast := (c.coupling before behind policy).run tree began
  have ends : (watched.result? = alone.result? ∧
      Alike before behind policy alone.state watched.state) ∨
      CutShort policy before.length watched.state := by
    refine abreast.attended (fun s t alike => congrArg (·.slots) alike.outlook) ?_ ?_
    · intro answer answers s t alike
      obtain ⟨act, acts, rfl⟩ := Option.map_eq_some_iff.mp answers
      obtain ⟨a, -, rfl⟩ := Option.map_eq_some_iff.mp acts
      exact (a.matched c.watch alike).imp And.right id
    · intro answer answers t cut
      obtain ⟨act, -, rfl⟩ := Option.map_eq_some_iff.mp answers
      exact CutShort.lasting.play act cut
  obtain ⟨result, alike⟩ | ⟨abort, position, broken, early⟩ := ends
  · have same := alike.outlook
    refine ⟨?_, congrArg (fun o : Outlook α => o.host.own.answers) same, result,
      congrArg (·.breakpoints) same, congrArg (·.steps) same,
      congrArg (fun o : Outlook α => o.isActive) same,
      congrArg (fun o : Outlook α => o.isPaused) same, same⟩
    rw [← pauses_outlook, ← pauses_outlook, same]
  · exact absurd (reached abort position broken) (Nat.not_le_of_lt early)

/-- The listener steps into from the root and over from the calls below, where it interrupts
too late. An onlooker before it counts what it is told, and one that is registered twice behind
it breaks off at everything, under the policy that ends a delivery there. -/
theorem onlookers_are_invisible_that_break_off_behind :
    let leaf := Call.mk (some "leaf") none none [] [] []
    let tree : CallTree := ⟨.mk (some "main") none none [] []
      [.mk none (some "twice") none [] [] [leaf, leaf], leaf]⟩
    let config : Config := { listenerFailure := .abort }
    let c : Company Unit Nat Nat := {
      answers := fun
        | .paused _ _ ⟨_, _, 1, _⟩ => .use (.demand (.command .into)) (.done none)
        | .paused .. => .use (.demand (.command .over)) (.use (.demand .interrupt) (.done none))
        | _ => .done none
      watch := fun
        | 0, _, s => (none, s.own.2 + 1)
        | _, _, s => (some .payload, s.own.2)
      own := ((), 0) }
    let alone := c.run [] [] tree config {} { mode := .into }
    let watched := c.run [0] [1, 1] tree config {} { mode := .into }
    watched.state.breaks = [2, 2, 2, 2, 2, 2, 2, 2] ∧
      watched.result? = alone.result? ∧ watched.state.outlook = alone.state.outlook ∧
      watched.state.pauses.map (·.2.2) = [1, 2, 2] ∧
      (watched.state.notes.filterMap Note.answer?).map Prod.snd = [true, true, false, true, false] ∧
      watched.state.own.2 = 8 := by
  intro leaf tree config c alone watched
  have reached : ∀ position ∈ watched.state.breaks, [0].length ≤ position := by decide +kernel
  obtain ⟨-, -, result, -, -, -, -, outlook⟩ :=
    c.onlookers_are_invisible [0] [1, 1] tree config {} { mode := .into } fun _ => reached
  refine ⟨?_, result, outlook, ?_, ?_, ?_⟩
  · decide +kernel
  · decide +kernel
  · decide +kernel
  · decide +kernel

end Company
end Debugger
