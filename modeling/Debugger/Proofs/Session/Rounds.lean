import Debugger.Proofs.Session.Conduct

/-! Rounds of deliveries. From one session to another the events of a run are delivered in
rounds, one after the other: a round is done with all its listeners before the next one
starts. The session is active in all of them but that of the end. -/
namespace Debugger
variable {ε ℓ : Type}

/-- Whether a session is active while it tells of the event. -/
def Event.live : Event → Bool
  | .ended _ => false
  | _ => true

structure Round (ℓ : Type) where
  event : Event
  reached : List ℓ

def Round.heard (r : Round ℓ) : List (Heard ℓ) :=
  r.reached.map fun listener => ⟨listener, r.event, r.event.live⟩

variable [DecidableEq ℓ]

/-- The deliveries in the notes are rounds of these events. Unless the policy ends rounds
early, each registration that nobody takes out is reached once in every round. -/
structure Rounds (listeners : List ℓ) (policy : FailurePolicy) (events : List Event)
    (notes : List (Note ℓ)) (rounds : List (Round ℓ)) : Prop where
  events : rounds.map Round.event = events
  heard : heard notes = rounds.flatMap Round.heard
  complete : policy = .continue → ∀ listener, (∀ note ∈ notes, note.Spares listener) →
    ∀ r ∈ rounds, r.reached.count listener = listeners.count listener

namespace Rounds
variable {listeners between : List ℓ} {policy : FailurePolicy} {events more : List Event}
  {notes later : List (Note ℓ)} {rounds others : List (Round ℓ)}

theorem append (one : Rounds listeners policy events notes rounds)
    (count : ∀ listener, (∀ note ∈ notes, note.Spares listener) →
      between.count listener = listeners.count listener)
    (other : Rounds between policy more later others) :
    Rounds listeners policy (events ++ more) (notes ++ later) (rounds ++ others) where
  events := by rw [List.map_append, one.events, other.events]
  heard := by rw [heard_append, one.heard, other.heard, List.flatMap_append]
  complete policy listener spared r member := by
    rw [List.forall_mem_append] at spared
    obtain here | there := List.mem_append.mp member
    · exact one.complete policy listener spared.1 r here
    · rw [other.complete policy listener spared.2 r there, count listener spared.1]

/-- What a listener hears that stays registered: every event, as often as it is
registered. -/
theorem log (rounded : Rounds listeners .continue events notes rounds) {listener : ℓ}
    (spared : ∀ note ∈ notes, note.Spares listener) :
    (Debugger.heard notes).filter (fun h => h.listener = listener) =
      events.flatMap fun event =>
        List.replicate (listeners.count listener) ⟨listener, event, event.live⟩ := by
  rw [rounded.heard, ← rounded.events, List.flatMap_map, List.filter_flatMap, List.flatMap,
    List.flatMap]
  refine congrArg List.flatten (List.map_congr_left fun r member => ?_)
  have own : r.reached.filter (fun other => other = listener) =
      List.replicate (r.reached.count listener) listener := List.filter_beq listener
  rw [← rounded.complete rfl listener spared r member, Round.heard, List.filter_map]
  exact (congrArg _ own).trans List.map_replicate

end Rounds

/-- From one session to another these events of the run are told, and no others. -/
structure Passage (s : Chronicled ε ℓ) (events : List Event) (notes : List (Note ℓ))
    (s' : Chronicled ε ℓ) : Prop where
  noted : s'.notes = s.notes ++ notes
  config : s'.config = s.config
  previews : s'.previewLength = s.previewLength
  count : ∀ listener, (∀ note ∈ notes, note.Spares listener) →
    s'.listeners.count listener = s.listeners.count listener
  rounds : ∃ rounds, Rounds s.listeners s.config.listenerFailure events notes rounds

namespace Passage
variable {s s₁ s' : Chronicled ε ℓ} {events more : List Event} {notes later : List (Note ℓ)}

/-- The session moves on its own account. -/
theorem silent (own : s'.notes = s.notes) (config : s'.config = s.config)
    (previews : s'.previewLength = s.previewLength) (listeners : s'.listeners = s.listeners) :
    Passage s [] [] s' where
  noted := by rw [own, List.append_nil]
  config := config
  previews := previews
  count _ _ := by rw [listeners]
  rounds := ⟨[], rfl, rfl, by simp⟩

theorem trans (one : Passage s events notes s₁) (other : Passage s₁ more later s') :
    Passage s (events ++ more) (notes ++ later) s' where
  noted := by rw [other.noted, one.noted, List.append_assoc]
  config := other.config.trans one.config
  previews := other.previews.trans one.previews
  count listener spared := by
    rw [List.forall_mem_append] at spared
    exact (other.count listener spared.2).trans (one.count listener spared.1)
  rounds := by
    obtain ⟨rounds, first⟩ := one.rounds
    obtain ⟨others, second⟩ := other.rounds
    rw [one.config] at second
    exact ⟨rounds ++ others, first.append one.count second⟩

theorem of_course (course : Course s notes s') (quiet : heard notes = []) :
    Passage s [] notes s' :=
  ⟨course.noted, course.config, course.previews, fun _ spared => course.traces.count spared,
    [], rfl, quiet, by simp⟩

theorem of_delivered {event : Event} (run : event.ofRun) (active : s.isActive = event.live)
    (delivered : Delivered event s.listeners s notes s') : Passage s [event] notes s' := by
  obtain ⟨course, reached, heard, -, all⟩ := delivered
  refine ⟨course.noted, course.config, course.previews, fun _ spared =>
    course.traces.count spared, [⟨event, reached⟩], rfl, ?_, ?_⟩
  · rw [heard, Event.round, if_pos run, active, List.flatMap_singleton, Round.heard]
  · intro policy listener spared r member
    rw [List.mem_singleton.mp member, all policy]

end Passage
end Debugger
