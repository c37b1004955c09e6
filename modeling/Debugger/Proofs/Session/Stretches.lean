import Debugger.Proofs.Session.Party

/-! Runs of programs under a party, turn by turn. A program takes turns in full until
somebody interrupts it at a stop, or until nobody releases a pause. -/
namespace Debugger
variable {ε ℓ : Type}

/-- A stop with the command that ended it. -/
structure Stay where
  stop : Stop
  mode : StepMode

def Stay.events (previewLength : Nat) (st : Stay) : List Event :=
  [st.stop.event previewLength, .resumed]

def Stay.grant (previewLength : Nat) (st : Stay) : Grant :=
  st.stop.grant (.command st.mode) previewLength

namespace Session
variable {s s' : Session ε ℓ}

theorem standing_leave (pause : Pause) (r : Release) (gone : s.current = none) :
    standing (Engine.leave pause r s) = s.standing := by
  simp only [standing, Engine.leave, gone, Option.filter_none]
  rfl

theorem length_slots_install (stop : Stop) (diagnostics : List Diagnostic) (s : Session ε ℓ) :
    (standing (stop.install (passed stop.visit diagnostics s))).slots.length =
      s.slots.length + 1 :=
  List.length_append

theorem watch_settled {mode : StepMode} {depth : Nat} (breakpoints : s'.breakpoints = s.breakpoints)
    (steps : s'.steps = Session.command mode depth s.steps) :
    s'.watch = s.watch.command mode depth := by
  rw [Engine.watch, breakpoints, steps]
  cases mode <;> rfl

end Session

variable [DecidableEq ℓ]

/-- Turns that a program takes in full, with the stops it makes and the commands that end
them. -/
structure Stretch (s : Chronicled ε ℓ) (turns : List Turn) (stays : List Stay)
    (notes : List (Note ℓ)) (s' : Chronicled ε ℓ) : Prop where
  passage : Passage s (stays.flatMap (Stay.events s.previewLength)) notes s'
  active : s'.isActive = s.isActive
  free : s'.current = none
  pauses : s'.slots.length = s.slots.length + stays.length
  grants : grants notes = stays.map (Stay.grant s.previewLength)
  visits : (stays.map fun st => st.stop.visit).Sublist (Turn.visits turns)
  /-- If nobody else changes the breakpoints or the stepping, the stops are those of a fold
  that takes these commands. -/
  progress : (∀ note ∈ notes, note.Steady) → ∀ commands stops,
    (Turn.visits turns).foldl Progress.visit ⟨s.watch, stays.map Stay.mode ++ commands, stops⟩ =
      ⟨s'.watch, commands, stops ++ stays.map Stay.stop⟩
  finished : (∀ note ∈ notes, note.KeepsFinished) →
    s'.steps.lastFinished = Turn.lastExited s.steps.lastFinished turns

/-- An entry at which a program stops, and somebody interrupts it. -/
structure Break (s : Chronicled ε ℓ) (stop : Stop) (notes : List (Note ℓ))
    (s' : Chronicled ε ℓ) : Prop where
  reason : s.watch.reason stop.visit = some stop.reason
  passage : Passage s [stop.event s.previewLength] notes s'
  free : s'.current = none
  pauses : s'.slots.length = s.slots.length + 1
  grants : grants notes = [stop.grant .interrupt s.previewLength]
  /-- If nobody changes the breakpoints or the stepping, they are all along as they are in
  the end. -/
  still : (∀ note ∈ notes, note.Steady) → ∀ note ∈ notes, ∀ st ∈ note.standings,
    st.breakpoints = s'.breakpoints ∧ st.steps = s'.steps

namespace Stretch
variable {s s₁ s' : Chronicled ε ℓ} {first second : List Turn} {stays more : List Stay}
  {notes later : List (Note ℓ)}

theorem nil (free : s.current = none) : Stretch s [] [] [] s where
  passage := .silent rfl rfl rfl rfl
  active := rfl
  free := free
  pauses := rfl
  grants := rfl
  visits := .slnil
  progress _ commands stops := by rw [List.map_nil, List.map_nil, List.append_nil]; rfl
  finished _ := rfl

theorem append (one : Stretch s first stays notes s₁) (other : Stretch s₁ second more later s') :
    Stretch s (first ++ second) (stays ++ more) (notes ++ later) s' where
  passage := by
    have second := other.passage
    rw [one.passage.previews] at second
    rw [List.flatMap_append]
    exact one.passage.trans second
  active := other.active.trans one.active
  free := other.free
  pauses := by rw [other.pauses, one.pauses, List.length_append, Nat.add_assoc]
  grants := by
    rw [grants_append, one.grants, other.grants, one.passage.previews, List.map_append]
  visits := by
    rw [List.map_append, Turn.visits_append]
    exact one.visits.append other.visits
  progress steady commands stops := by
    rw [List.forall_mem_append] at steady
    rw [Turn.visits_append, List.foldl_append, List.map_append, List.append_assoc,
      one.progress steady.1, other.progress steady.2, List.map_append, List.append_assoc]
  finished kept := by
    rw [List.forall_mem_append] at kept
    rw [other.finished kept.2, one.finished kept.1, Turn.lastExited_append]

end Stretch

namespace Party
open Session

/-- What turns come to from a session on, with the calls that are made to its hook. -/
inductive Ends (p : Party ε ℓ) (s : Chronicled ε ℓ) (turns : List Turn) (calls : List HookCall) :
    Run (Chronicled ε ℓ) (Except DebugError Unit × List HookCall) → Prop where
  | finished {stays : List Stay} {notes : List (Note ℓ)} {s' : Chronicled ε ℓ} :
      Stretch s turns stays notes s' →
      Ends p s turns calls (.finished (.ok (), calls ++ turns.flatMap Turn.hookCalls) s')
  | interrupted {before behind : List Turn} {stop : Stop} {stays : List Stay}
      {notes during : List (Note ℓ)} {s₁ s' : Chronicled ε ℓ} :
      turns = before ++ Turn.enter stop.visit :: behind →
      Stretch s before stays notes s₁ → Break s₁ stop during s' →
      Ends p s turns calls (.finished (.error .interrupted,
        calls ++ (before ++ [Turn.enter stop.visit]).flatMap Turn.hookCalls) s')
  | waiting {pause : Pause} {s' : Chronicled ε ℓ} {resume} : Unanswered p pause s' →
      Ends p s turns calls (.parked pause s' resume)

variable {p : Party ε ℓ} {s s' : Chronicled ε ℓ} {notes more : List (Note ℓ)} {v : Visit}

theorem exit_stretch (call : Call) (free : s.current = none) :
    Stretch s [.exit call] [] [] (s.exited call.expression) where
  passage := .silent rfl rfl rfl rfl
  active := rfl
  free := free
  pauses := rfl
  grants := rfl
  visits := .slnil
  progress _ commands stops := by rw [List.map_nil, List.map_nil, List.append_nil]; rfl
  finished _ := rfl

theorem passed_stretch (free : s.current = none) (reason : s.watch.reason v = none)
    (noted : List Diagnostic) : Stretch s [.enter v] [] [] (passed v noted s) where
  passage := .silent rfl rfl rfl rfl
  active := rfl
  free := free
  pauses := rfl
  grants := rfl
  visits := List.nil_sublist _
  progress _ commands stops := by
    rw [Turn.visits, Turn.visits, List.foldl_cons, Progress.visit_of_none reason, List.map_nil,
      List.map_nil, List.append_nil]
    rfl
  finished _ := rfl

/-- A stop that a command ends, with the round that reports it. -/
theorem stay_stretch {stop : Stop} {mode : StepMode} {diagnostics : List Diagnostic}
    {s₁ s₂ : Chronicled ε ℓ} (active : s.isActive)
    (reason : s.watch.reason stop.visit = some stop.reason)
    (halt : Halt p stop (passed stop.visit diagnostics s) notes s₁) (gone : s₁.current = none)
    (granted : grants notes = [stop.grant (.command mode) s.previewLength])
    (resumed : Delivered .resumed s₁.listeners
      (Engine.leave (stop.pause (passed stop.visit diagnostics s)) .resumed s₁) more s₂) :
    Stretch s [.enter stop.visit] [⟨stop, mode⟩] (notes ++ more) s₂ := by
  have ready : Passage s [] [] (passed stop.visit diagnostics s) := .silent rfl rfl rfl rfl
  have left : Passage s₁ [] [] (Engine.leave
      (stop.pause (passed stop.visit diagnostics s)) .resumed s₁) := .silent rfl rfl rfl rfl
  have later := resumed.course.traces
  rw [standing_leave _ .resumed gone] at later
  have traces := halt.course.traces.append later
  -- The pause is gone by the time of the second round, so no demand is granted in it.
  obtain ⟨last, -, refused⟩ := later.free gone
  have granted : grants (notes ++ more) = [stop.grant (.command mode) s.previewLength] := by
    rw [grants_append, granted, refused]
    rfl
  have live : s₁.isActive = Event.live .resumed := halt.course.traces.active.trans active
  have depths (pause : Pause)
      (current : (stop.install (passed stop.visit diagnostics s)).current = some pause) :
      pause.snapshot.depth = stop.visit.level := by
    obtain rfl := Option.some.inj current
    rfl
  have watch (steady : ∀ note ∈ notes ++ more, note.Steady) :
      s₂.watch = (s.watch.pass stop.visit).command mode stop.visit.level := by
    obtain ⟨breakpoints, settled⟩ := traces.steady depths steady
    rw [granted] at settled
    exact watch_settled (s := passed stop.visit diagnostics s) breakpoints settled
  exact {
    passage := (ready.trans halt.passage).trans (left.trans (.of_delivered rfl live resumed))
    active := traces.active
    free := last
    pauses := traces.length_slots.trans (length_slots_install stop diagnostics s)
    grants := granted
    visits := List.Sublist.refl _
    progress := by
      intro steady commands stops
      rw [Turn.visits, Turn.visits, List.foldl_cons, Progress.visit_of_some reason, watch steady]
      rfl
    finished := traces.finished }

/-- A stop that somebody interrupts. -/
theorem stop_break {stop : Stop} {diagnostics : List Diagnostic} {s₁ : Chronicled ε ℓ}
    (reason : s.watch.reason stop.visit = some stop.reason)
    (halt : Halt p stop (passed stop.visit diagnostics s) notes s₁) (gone : s₁.current = none)
    (granted : grants notes = [stop.grant .interrupt s.previewLength]) :
    Break s stop notes
      (Engine.leave (stop.pause (passed stop.visit diagnostics s)) .interrupted s₁) := by
  have ready : Passage s [] [] (passed stop.visit diagnostics s) := .silent rfl rfl rfl rfl
  have left : Passage s₁ [] [] (Engine.leave
      (stop.pause (passed stop.visit diagnostics s)) .interrupted s₁) := .silent rfl rfl rfl rfl
  have passage := (ready.trans halt.passage).trans left
  rw [List.append_nil, List.append_nil] at passage
  have same := standing_leave (stop.pause (passed stop.visit diagnostics s)) .interrupted gone
  have traces := halt.course.traces
  rw [← same] at traces
  have interrupts : ∀ g ∈ grants notes, g.demand = .interrupt := by
    rw [granted]
    exact List.forall_mem_singleton.mpr rfl
  exact {
    reason
    passage
    free := (congrArg Standing.current same).trans gone
    pauses := traces.length_slots.trans (length_slots_install stop diagnostics s)
    grants := granted
    still := fun steady => (traces.still steady interrupts).2 }

/-- An entry is passed, or a command ends the stop, or somebody interrupts it, or nobody
releases the pause. -/
theorem enter_ends (p : Party ε ℓ) (v : Visit) (active : s.isActive) (free : s.current = none) :
    (∃ stays notes s₁, p.attend ((Turn.enter v).take p.hook s) = .finished (.ok ()) s₁ ∧
        Stretch s [.enter v] stays notes s₁) ∨
      (∃ stop notes s₁, p.attend ((Turn.enter v).take p.hook s) =
          .finished (.error .interrupted) s₁ ∧ stop.visit = v ∧ Break s stop notes s₁) ∨
      ∃ pause s₁ resume, p.attend ((Turn.enter v).take p.hook s) = .parked pause s₁ resume ∧
        Unanswered p pause s₁ := by
  obtain ⟨diagnostics, entered⟩ := take_enter p.react v s
  rw [hook, entered]
  cases reason : s.watch.reason v with
  | none => exact .inl ⟨[], [], passed v diagnostics s, rfl, passed_stretch free reason diagnostics⟩
  | some why =>
      let stop : Stop := ⟨why, v⟩
      let ready := passed v diagnostics s
      obtain ⟨notes, s₁, halt⟩ := p.halts stop (s := ready) active rfl
      obtain ⟨unanswered, resume, parked⟩ | ⟨demand, gone, granted, goes⟩ := halt.ends
      · exact .inr (.inr ⟨stop.pause ready, s₁, resume, parked, unanswered⟩)
      cases demand with
      | interrupt =>
          have broken := stop_break reason halt gone granted
          exact .inr (.inl ⟨stop, notes, _, goes, rfl, broken⟩)
      | command mode =>
          have sound : (standing (Engine.leave (stop.pause ready) .resumed s₁)).Sound := by
            rw [standing_leave _ .resumed gone]
            exact .of_free gone
          obtain ⟨more, resumed⟩ := Delivered.after (Conduct.discreet p.told) .resumed sound
          exact .inl ⟨[⟨stop, mode⟩], notes ++ more, _, goes,
            stay_stretch active reason halt gone granted resumed⟩

theorem Ends.cons {turn : Turn} {turns : List Turn} {stays : List Stay} {calls : List HookCall}
    {s₁ : Chronicled ε ℓ} {run : Run (Chronicled ε ℓ) (Except DebugError Unit × List HookCall)}
    (taken : Stretch s [turn] stays notes s₁)
    (ends : Ends p s₁ turns (calls ++ turn.hookCalls) run) :
    Ends p s (turn :: turns) calls run := by
  cases ends with
  | finished stretch =>
      rw [List.append_assoc, ← List.flatMap_cons]
      exact .finished (taken.append stretch)
  | interrupted split stretch broken =>
      rw [List.append_assoc, ← List.flatMap_cons, ← List.cons_append]
      exact .interrupted (by rw [split, List.cons_append]) (taken.append stretch) broken
  | waiting unanswered => exact .waiting unanswered

theorem takeAll_ends (p : Party ε ℓ) (turns : List Turn) (calls : List HookCall)
    {s : Chronicled ε ℓ} (active : s.isActive) (free : s.current = none) :
    Ends p s turns calls (p.attend ((Turn.takeAll p.hook.recorded turns).run calls s)) := by
  -- Each turn leaves the session active and without a pause, as it found it.
  induction turns generalizing s calls with
  | nil =>
      have ends : Ends p s [] calls (.finished (.ok (), calls ++ []) s) := .finished (.nil free)
      rwa [List.append_nil] at ends
  | cons turn rest ih =>
      rw [Turn.takeAll_recorded_cons]
      cases turn with
      | exit call => exact .cons (exit_stretch call free) (ih _ active free)
      | enter v =>
          let onward := Turn.onwardRecorded p.hook rest (calls ++ (Turn.enter v).hookCalls)
          change Ends p s _ _ (p.attend (((Turn.enter v).take p.hook s).bind onward))
          obtain ⟨stays, notes, s₁, taken, stretch⟩ | ⟨stop, notes, s₁, taken, rfl, broken⟩ |
            ⟨pause, s₁, resume, taken, unanswered⟩ := p.enter_ends v active free
          · rw [attend_bind onward taken]
            exact .cons stretch (ih _ (stretch.active.trans active) stretch.free)
          · rw [attend_bind onward taken]
            exact .interrupted (List.nil_append _).symm (.nil free) broken
          · obtain ⟨rest, parked⟩ := attend_bind_parked onward taken
            rw [parked]
            exact .waiting unanswered

end Party
end Debugger
