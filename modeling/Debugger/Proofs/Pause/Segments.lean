import Debugger.Proofs.Pause.History

/-! Segments of a history. A segment carries the engine from one state to another: an
older pause is released in it at most once, and a newer one lives its whole life.
Segments compose, and around the segment of a callback there is the segment of its
pause. -/
namespace Debugger.Client
open History

/-- The outstanding pause is released, and nothing else is recorded about it. -/
structure ReleasedIn (e : Client) (records : List Record) (e' : Client) (pause : Pause)
    (how : Release) (prepared : Option (List (Snapshot × Bool))) : Prop where
  current : e.current = some pause
  record : about pause.slot records = [.released how (some pause) prepared true]
  signal : e'.slots[pause.slot]? = some ⟨some how⟩
  cleared : e'.current = none

/-- The records carry the engine from one state to another. -/
structure Segment (e : Client) (records : List Record) (e' : Client) : Prop where
  written : e'.host.records = e.host.records ++ records
  agreeing : Agreeing e.current records
  current : outstandingAfter e.current records = e'.current
  /-- No newer pause is left outstanding. -/
  settled : e'.current = e.current ∨ e'.current = none
  slots : e.slots.length ≤ e'.slots.length
  older : ∀ number < e.slots.length,
    (about number records = [] ∧ e'.slots[number]? = e.slots[number]?) ∨
      ∃ pause how prepared, pause.slot = number ∧ ReleasedIn e records e' pause how prepared
  newer : ∀ number, e.slots.length ≤ number → number < e'.slots.length →
    ∃ pause how prepared, pause.slot = number ∧ about number records = lifetime pause how prepared
  known : ∀ record ∈ records, ∀ number ∈ record.number?, number < e'.slots.length

namespace Segment
variable {e e₁ e' : Client} {records more : List Record}

/-- A pause that is still outstanding is untouched. -/
theorem untouched (segment : Segment e records e') {pause : Pause}
    (sound : Sound e) (current : e'.current = some pause) :
    e.current = some pause ∧ about pause.slot records = [] ∧
      e'.slots[pause.slot]? = e.slots[pause.slot]? := by
  have before : e.current = some pause := by
    obtain same | none := segment.settled
    · rw [← same, current]
    · rw [none] at current
      contradiction
  obtain kept | ⟨_, _, _, _, released⟩ :=
    segment.older pause.slot (sound.outstanding pause before).bound
  · exact ⟨before, kept⟩
  · rw [released.cleared] at current
    contradiction

theorem sound (segment : Segment e records e') (sound : Sound e) : Sound e' where
  outstanding := by
    intro pause current
    obtain ⟨before, -, kept⟩ := segment.untouched sound current
    exact ⟨current, kept.trans (sound.outstanding pause before).unreleased⟩
  known := by
    intro record member number found
    rw [segment.written] at member
    obtain early | late := List.mem_append.mp member
    · exact Nat.lt_of_lt_of_le (sound.known record early number found) segment.slots
    · exact segment.known record late number found

/-- Nothing is recorded about pauses to come. -/
theorem about_later (segment : Segment e records e') {number : Nat}
    (later : e'.slots.length ≤ number) : about number records = [] :=
  about_eq_nil fun record member found =>
    absurd (segment.known record member number found) (Nat.not_lt.mpr later)

/-- Nothing more is recorded about a pause that was installed and ended before. -/
theorem about_ended (segment : Segment e records e') (next : Segment e₁ more e)
    (sound : Sound e₁) {number : Nat} (newer : e₁.slots.length ≤ number)
    (installed : number < e.slots.length) :
    about number records = [] := by
  obtain ⟨nothing, -⟩ | ⟨pause, how, prepared, rfl, released⟩ := segment.older number installed
  · exact nothing
  · obtain ⟨before, -, -⟩ := next.untouched sound released.current
    exact absurd (sound.outstanding pause before).bound (Nat.not_lt.mpr newer)

theorem append (first : Segment e records e₁) (second : Segment e₁ more e') (sound : Sound e) :
    Segment e (records ++ more) e' where
  written := by rw [second.written, first.written, List.append_assoc]
  agreeing := first.agreeing.append (first.current ▸ second.agreeing)
  current := by
    rw [outstandingAfter, List.foldl_append]
    exact (congrArg (outstandingAfter · more) first.current).trans second.current
  settled := by
    obtain same | none := second.settled
    · rw [same]
      exact first.settled
    · exact .inr none
  slots := Nat.le_trans first.slots second.slots
  older := by
    intro number bound
    rw [about_append]
    obtain ⟨nothing, kept⟩ | ⟨pause, how, prepared, rfl, released⟩ := first.older number bound
    · obtain ⟨nothing', kept'⟩ | ⟨pause, how, prepared, rfl, released⟩ :=
        second.older number (Nat.lt_of_lt_of_le bound first.slots)
      · exact .inl ⟨by rw [nothing, nothing', List.append_nil], kept'.trans kept⟩
      · obtain ⟨before, -, -⟩ := first.untouched sound released.current
        exact .inr ⟨pause, how, prepared, rfl, before,
          by rw [about_append, nothing, released.record, List.nil_append], released.signal,
          released.cleared⟩
    · obtain ⟨nothing, kept⟩ | ⟨again, _, _, _, released'⟩ :=
        second.older pause.slot (Nat.lt_of_lt_of_le bound first.slots)
      · have cleared : e'.current = none := by
          obtain same | none := second.settled
          · rw [same, released.cleared]
          · exact none
        exact .inr ⟨pause, how, prepared, rfl, released.current,
          by rw [about_append, nothing, released.record, List.append_nil],
          kept.trans released.signal, cleared⟩
      · have none := released.cleared
        rw [released'.current] at none
        contradiction
  newer := by
    intro number newer bound
    rw [about_append]
    by_cases early : number < e₁.slots.length
    · obtain ⟨pause, how, prepared, same, life⟩ := first.newer number newer early
      exact ⟨pause, how, prepared, same,
        by rw [life, second.about_ended first sound newer early, List.append_nil]⟩
    · have late := Nat.not_lt.mp early
      obtain ⟨pause, how, prepared, same, life⟩ := second.newer number late bound
      exact ⟨pause, how, prepared, same, by rw [life, first.about_later late, List.nil_append]⟩
  known := by
    intro record member number found
    obtain early | late := List.mem_append.mp member
    · exact Nat.lt_of_lt_of_le (first.known record early number found) second.slots
    · exact second.known record late number found

/-- A segment in which no pause is installed or released. -/
theorem still (written : e'.host.records = e.host.records ++ records)
    (agreeing : Agreeing e.current records)
    (passes : outstandingAfter e.current records = e.current)
    (nobody : ∀ record ∈ records, record.number? = none)
    (current : e'.current = e.current) (slots : e'.slots = e.slots) : Segment e records e' where
  written := written
  agreeing := agreeing
  current := passes.trans current.symm
  settled := .inl current
  slots := Nat.le_of_eq (congrArg List.length slots.symm)
  older := fun number _ =>
    .inl ⟨about_eq_nil fun record member => by simp [nobody record member], by rw [slots]⟩
  newer := by
    intro number newer bound
    rw [slots] at bound
    exact absurd bound (Nat.not_lt.mpr newer)
  known := by
    intro record member number found
    rw [nobody record member] at found
    contradiction

theorem release {pause : Pause} {how : Release} {prepared : Option (List (Snapshot × Bool))}
    (outstanding : e.Outstanding pause)
    (written : e'.host.records =
      e.host.records ++ [.released how (some pause) prepared true])
    (runs : ∀ seen ∈ prepared, seen = [(pause.snapshot, false)])
    (cleared : e'.current = none) (slots : e'.slots = e.slots.set pause.slot ⟨some how⟩) :
    Segment e [.released how (some pause) prepared true] e' where
  written := written
  agreeing := by
    rw [outstanding.current]
    exact agreeing_cons ⟨rfl, rfl, runs⟩ (agreeing_nil none)
  current := cleared.symm
  settled := .inr cleared
  slots := Nat.le_of_eq (by rw [slots, List.length_set])
  older := by
    intro number bound
    by_cases same : pause.slot = number
    · subst same
      refine .inr ⟨pause, how, prepared, rfl, outstanding.current, ?_, ?_, cleared⟩
      · simp [about, Record.number?]
      · rw [slots, List.getElem?_set_self bound]
    · refine .inl ⟨about_eq_nil fun record member => ?_, ?_⟩
      · obtain rfl := List.mem_singleton.mp member
        simpa [Record.number?] using same
      · rw [slots, List.getElem?_set_ne same]
  newer := by
    intro number newer bound
    rw [slots, List.length_set] at bound
    exact absurd bound (Nat.not_lt.mpr newer)
  known := by
    intro record member number found
    obtain rfl := List.mem_singleton.mp member
    obtain rfl := Option.some.inj found
    rw [slots, List.length_set]
    exact outstanding.bound

end Segment

/-- The engine when the host was told of the pause that it has just installed. -/
structure Telling (e : Client) (pause : Pause) (e₁ : Client) : Prop where
  free : e.current = none
  slot : pause.slot = e.slots.length
  current : e₁.current = some pause
  slots : e₁.slots = e.slots ++ [({} : Slot)]
  written : e₁.host.records = e.host.records ++ [.told pause]

namespace Telling
variable {e e₁ e₂ e' : Client} {pause : Pause} {records : List Record} {how : Release}

theorem outstanding (telling : Telling e pause e₁) : e₁.Outstanding pause where
  current := telling.current
  unreleased := by
    rw [telling.slots, telling.slot, List.getElem?_append_right (Nat.le_refl _), Nat.sub_self]
    rfl

theorem length (telling : Telling e pause e₁) : e₁.slots.length = e.slots.length + 1 := by
  rw [telling.slots, List.length_append, List.length_singleton]

theorem sound (telling : Telling e pause e₁) (sound : Sound e) : Sound e₁ where
  outstanding := by
    intro current found
    obtain rfl := Option.some.inj (telling.current.symm.trans found)
    exact telling.outstanding
  known := by
    intro record member number found
    rw [telling.written] at member
    rw [telling.length]
    obtain early | late := List.mem_append.mp member
    · exact Nat.lt_succ_of_lt (sound.known record early number found)
    · obtain rfl := List.mem_singleton.mp late
      obtain rfl := Option.some.inj found
      rw [telling.slot]
      exact Nat.lt_succ_self _

/-- If the callback leaves a signal, the pause was released in its segment. -/
theorem released (telling : Telling e pause e₁) (callback : Segment e₁ records e₂)
    (signal : (e₂.slot pause.slot).signal = some how) :
    ∃ prepared, ReleasedIn e₁ records e₂ pause how prepared := by
  have outstanding := telling.outstanding
  obtain ⟨-, kept⟩ | ⟨found, how', prepared, same, released⟩ :=
    callback.older pause.slot outstanding.bound
  · rw [Engine.slot, List.getD_eq_getElem?_getD, kept, outstanding.unreleased] at signal
    contradiction
  · obtain rfl := Option.some.inj (telling.current.symm.trans released.current)
    rw [Engine.slot, List.getD_eq_getElem?_getD, released.signal] at signal
    obtain rfl := Option.some.inj signal
    exact ⟨prepared, released⟩

/-- If the callback leaves no signal, nobody has released the pause. -/
theorem not_released (telling : Telling e pause e₁) (sound : Sound e)
    (callback : Segment e₁ records e₂) (signal : (e₂.slot pause.slot).signal = none) :
    ∀ record ∈ e₂.host.records, record.releases? ≠ some pause.slot := by
  intro record member releases
  rw [callback.written, telling.written, List.append_assoc, List.singleton_append] at member
  obtain early | late := List.mem_append.mp member
  · have bound := sound.known record early pause.slot (Record.number_of_releases releases)
    exact absurd telling.slot (Nat.ne_of_lt bound)
  · obtain rfl | inside := List.mem_cons.mp late
    · contradiction
    · obtain ⟨nothing, -⟩ | ⟨_, _, _, same, released⟩ :=
        callback.older pause.slot telling.outstanding.bound
      · have found := mem_about.mpr ⟨inside, (Record.number_of_releases releases)⟩
        rw [nothing] at found
        exact absurd found List.not_mem_nil
      · rw [Engine.slot, List.getD_eq_getElem?_getD, ← same, released.signal] at signal
        contradiction

/-- Around a callback that releases its pause there is the whole life of the pause. -/
theorem segment (telling : Telling e pause e₁) (callback : Segment e₁ records e₂)
    (signal : (e₂.slot pause.slot).signal = some how)
    (written : e'.host.records = e₂.host.records ++ ending pause how)
    (cleared : e'.current = none) (slots : e'.slots = e₂.slots) :
    Segment e (.told pause :: (records ++ ending pause how)) e' := by
  obtain ⟨prepared, released⟩ := telling.released callback signal
  have bound : pause.slot < e₂.slots.length :=
    Nat.lt_of_lt_of_le telling.outstanding.bound callback.slots
  have elsewhere {number : Nat} (other : pause.slot ≠ number) :
      about number (.told pause :: (records ++ ending pause how)) = about number records := by
    have opening : about number [.told pause] = [] := by
      simpa [about, Record.number?] using other
    have closing : about number (ending pause how) = [] :=
      about_eq_nil fun record member => by simpa [number_of_mem_ending member] using other
    rw [← List.singleton_append, about_append, about_append, opening, closing, List.append_nil,
      List.nil_append]
  have closed : outstandingAfter (some pause) records = none := by
    rw [← telling.current, callback.current, released.cleared]
  refine ⟨?_, ?_, ?_, .inr cleared, ?_, ?_, ?_, ?_⟩
  · rw [written, callback.written, telling.written]
    simp
  · have inside : Agreeing (some pause) records := telling.current ▸ callback.agreeing
    rw [telling.free]
    exact agreeing_cons rfl (inside.append (closed ▸ agreeing_ending pause how))
  · rw [cleared, outstandingAfter, List.foldl_cons, List.foldl_append]
    exact (congrArg (outstandingAfter · (ending pause how)) closed).trans
      (outstandingAfter_ending pause how)
  · rw [slots]
    exact Nat.le_trans (by rw [telling.length]; exact Nat.le_succ _) callback.slots
  · -- The pauses before this one were ended or are not outstanding, so they are untouched.
    intro number bound
    have other : pause.slot ≠ number := by
      rw [telling.slot]
      exact (Nat.ne_of_lt bound).symm
    rw [elsewhere other, slots]
    obtain ⟨nothing, kept⟩ | ⟨again, _, _, same, released'⟩ :=
      callback.older number (by rw [telling.length]; exact Nat.lt_succ_of_lt bound)
    · refine .inl ⟨nothing, kept.trans ?_⟩
      rw [telling.slots, List.getElem?_append_left bound]
    · obtain rfl := Option.some.inj (telling.current.symm.trans released'.current)
      exact absurd same other
  · intro number newer bound
    rw [slots] at bound
    by_cases same : pause.slot = number
    · subst same
      refine ⟨pause, how, prepared, rfl, ?_⟩
      have opening : about pause.slot [.told pause] = [.told pause] := by
        simp [about, Record.number?]
      rw [← List.singleton_append, about_append, about_append, opening, released.record,
        about_ending]
      rfl
    · rw [elsewhere same]
      exact callback.newer number (by rw [telling.length]; rw [telling.slot] at same; omega) bound
  · intro record member number found
    rw [slots]
    obtain rfl | later := List.mem_cons.mp member
    · obtain rfl := Option.some.inj found
      exact bound
    · obtain inside | closing := List.mem_append.mp later
      · exact callback.known record inside number found
      · obtain rfl := Option.some.inj ((number_of_mem_ending closing).symm.trans found)
        exact bound

end Telling
end Debugger.Client
