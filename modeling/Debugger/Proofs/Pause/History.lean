import Debugger.Proofs.Pause.Release

/-! Histories of what a client of a pause engine did and was told. Pauses are numbered
in the order of their installation. -/
namespace Debugger

/-- One record of a client's history. -/
inductive Record where
  /-- The host is told of a pause. -/
  | told (pause : Pause)
  /-- The host's callback for the pause of that number returns. -/
  | heard (number : Nat)
  /-- The host is told that the pause of that number was resumed. -/
  | resumed (number : Nat)
  /-- An operation that installs a pause of that number, or none, returns. -/
  | returned (number : Option Nat) (result : Except DebugError Unit)
  /-- A release, with the pause that is outstanding at the call, what `prepare` saw
  whenever it ran, unless there is nothing to prepare, and the answer. -/
  | released (how : Release) (outstanding : Option Pause)
      (prepared : Option (List (Snapshot × Bool))) (answer : Bool)
  /-- A look at whether a pause is outstanding and at its view. -/
  | looked (isPaused : Bool) (view : Option Snapshot)

namespace Record

/-- The pause that a record is about. -/
def number? : Record → Option Nat
  | .told pause => some pause.slot
  | .heard number | .resumed number => some number
  | .returned number _ => number
  | .released _ outstanding _ _ => outstanding.map (·.slot)
  | .looked .. => none

/-- The outstanding pause as a record leaves it. -/
def leaves (outstanding : Option Pause) : Record → Option Pause
  | .told pause => some pause
  | .released _ _ _ true => none
  | _ => outstanding

/-- What a record has to say where a pause or none is outstanding. -/
def Agrees (outstanding : Option Pause) : Record → Prop
  | .told _ | .heard _ | .resumed _ | .returned (some _) _ => outstanding = none
  | .returned none result => result = .ok ()
  | .released _ found prepared answer =>
      found = outstanding ∧ answer = outstanding.isSome ∧
        ∀ runs ∈ prepared, runs = outstanding.toList.map fun pause => (pause.snapshot, false)
  | .looked isPaused view =>
      isPaused = outstanding.isSome ∧ view = outstanding.map (·.snapshot)

/-- The pause that a record releases, if it releases one. -/
def releases? : Record → Option Nat
  | .released _ (some pause) _ true => some pause.slot
  | _ => none

theorem number_of_releases {number : Nat} {record : Record}
    (releases : record.releases? = some number) : record.number? = some number := by
  cases record with
  | released how outstanding prepared answer =>
      cases outstanding with
      | none => contradiction
      | some pause =>
          cases answer with
          | false => contradiction
          | true => exact releases
  | _ => contradiction

end Record

/-- What a client keeps of its dealings with the engine. -/
structure History where
  records : List Record := []
  /-- What the `prepare` of the present release saw, each time it ran. -/
  seen : List (Snapshot × Bool) := []

namespace History

def about (number : Nat) (records : List Record) : List Record :=
  records.filter (·.number? = some number)

/-- How the life of a pause ends: the callback returns, a resumed pause is reported,
and the operation returns what the release says. -/
def ending (pause : Pause) (how : Release) : List Record :=
  .heard pause.slot :: (if how = .resumed then [.resumed pause.slot] else []) ++
    [.returned (some pause.slot) how.verdict]

/-- The whole life of a pause: the host is told, somebody releases it, and it ends. -/
def lifetime (pause : Pause) (how : Release) (prepared : Option (List (Snapshot × Bool))) :
    List Record :=
  .told pause :: .released how (some pause) prepared true :: ending pause how

def outstandingAfter (outstanding : Option Pause) (records : List Record) : Option Pause :=
  records.foldl Record.leaves outstanding

/-- Each record agrees with what is outstanding by then. -/
def Agreeing (outstanding : Option Pause) (records : List Record) : Prop :=
  ∀ before record after, records = before ++ record :: after →
    record.Agrees (outstandingAfter outstanding before)

theorem about_append (number : Nat) (first second : List Record) :
    about number (first ++ second) = about number first ++ about number second :=
  List.filter_append ..

theorem about_eq_nil {number : Nat} {records : List Record}
    (elsewhere : ∀ record ∈ records, record.number? ≠ some number) : about number records = [] :=
  List.filter_eq_nil_iff.mpr fun record member => by simpa using elsewhere record member

theorem mem_about {number : Nat} {records : List Record} {record : Record} :
    record ∈ about number records ↔ record ∈ records ∧ record.number? = some number := by
  rw [about, List.mem_filter, decide_eq_true_iff]

theorem agreeing_nil (outstanding : Option Pause) : Agreeing outstanding [] :=
  fun before record after split => by simp at split

theorem agreeing_cons {outstanding : Option Pause} {record : Record} {records : List Record}
    (first : record.Agrees outstanding) (rest : Agreeing (record.leaves outstanding) records) :
    Agreeing outstanding (record :: records) := by
  intro before later after split
  cases before with
  | nil =>
      obtain ⟨rfl, -⟩ := List.cons.inj split
      exact first
  | cons head before =>
      obtain ⟨rfl, others⟩ := List.cons.inj split
      exact rest before later after others

theorem Agreeing.append {outstanding : Option Pause} {first second : List Record}
    (agreeing : Agreeing outstanding first)
    (others : Agreeing (outstandingAfter outstanding first) second) :
    Agreeing outstanding (first ++ second) := by
  induction first generalizing outstanding with
  | nil => exact others
  | cons record rest ih =>
      refine agreeing_cons (agreeing [] record rest rfl) (ih (fun before later after split => ?_)
        others)
      exact agreeing (record :: before) later after (congrArg (record :: ·) split)

theorem number_of_mem_ending {pause : Pause} {how : Release} {record : Record}
    (member : record ∈ ending pause how) : record.number? = some pause.slot := by
  cases how with
  | resumed =>
      simp only [ending, if_true, List.cons_append, List.nil_append, List.mem_cons,
        List.not_mem_nil, or_false] at member
      obtain rfl | rfl | rfl := member <;> rfl
  | interrupted =>
      simp only [ending, reduceCtorEq, if_false, List.cons_append, List.nil_append, List.mem_cons,
        List.not_mem_nil, or_false] at member
      obtain rfl | rfl := member <;> rfl

theorem about_ending (pause : Pause) (how : Release) :
    about pause.slot (ending pause how) = ending pause how :=
  List.filter_eq_self.mpr fun record member => by simp [number_of_mem_ending member]

theorem agreeing_ending (pause : Pause) (how : Release) : Agreeing none (ending pause how) := by
  have returns : Agreeing none [.returned (some pause.slot) how.verdict] :=
    agreeing_cons rfl (agreeing_nil none)
  cases how with
  | resumed => exact agreeing_cons rfl (agreeing_cons rfl returns)
  | interrupted => exact agreeing_cons rfl returns

theorem outstandingAfter_ending (pause : Pause) (how : Release) :
    outstandingAfter none (ending pause how) = none := by
  cases how <;> rfl

end History

abbrev Client := Engine History

namespace Client
open History

def write (record : Record) (e : Client) : Client :=
  { e with host := { e.host with records := e.host.records ++ [record] } }

/-- The outstanding pause is unreleased, and the history knows of installed pauses
only. -/
structure Sound (e : Client) : Prop where
  outstanding : ∀ pause, e.current = some pause → e.Outstanding pause
  known : ∀ record ∈ e.host.records, ∀ number ∈ record.number?, number < e.slots.length

end Client
end Debugger
