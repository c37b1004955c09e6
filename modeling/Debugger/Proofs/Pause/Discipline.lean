import Debugger.Proofs.Pause.Reentrancy

/-! Main statement: a disciplined client gets from each of its operations what the
outstanding pause calls for, and each of its pauses lives its whole life. -/
namespace Debugger.Client
open History

/-- No pause was installed while another was outstanding, and whenever a callback
returned somebody had released its pause. -/
structure Disciplined (e : Client) : Prop where
  single : .pauseReplaced ∉ e.journal
  released : ∀ before number after, e.host.records = before ++ .heard number :: after →
    ∃ record ∈ before, record.releases? = some number

theorem Disciplined.of_grows {e e' : Client} (disciplined : Disciplined e')
    (grows : Grows e e') : Disciplined e where
  single := fun member => disciplined.single (grows.journal.subset member)
  released := by
    intro before number after split
    obtain ⟨more, whole⟩ := grows.records
    refine disciplined.released before number (after ++ more) ?_
    rw [← whole, split, List.append_assoc, List.cons_append]

/-- Whether each callback returns behind a release of its pause, where some pauses are
released already. -/
def answered (released : List Nat) : List Record → Bool
  | [] => true
  | .heard number :: rest => released.contains number && answered released rest
  | record :: rest => answered (record.releases?.toList ++ released) rest

theorem releases_of_answered {released : List Nat} {before after : List Record} {number : Nat}
    (ok : answered released (before ++ .heard number :: after) = true) :
    number ∈ released ∨ ∃ record ∈ before, record.releases? = some number := by
  induction before generalizing released with
  | nil =>
      simp only [List.nil_append, answered, Bool.and_eq_true] at ok
      exact .inl (List.contains_iff_mem.mp ok.1)
  | cons record before ih =>
      have later : answered (record.releases?.toList ++ released)
          (before ++ .heard number :: after) = true := by
        cases record with
        | heard other =>
            simp only [List.cons_append, answered, Bool.and_eq_true] at ok
            exact ok.2
        | _ => exact ok
      obtain known | ⟨other, member, releases⟩ := ih later
      · obtain here | before := List.mem_append.mp known
        · exact .inr ⟨record, List.mem_cons_self, Option.mem_toList.mp here⟩
        · exact .inl before
      · exact .inr ⟨other, List.mem_cons_of_mem _ member, releases⟩

/-- From a sound state a disciplined thread finishes, and a segment of the history
tells what it did. -/
def Carried (act : Thread Client Unit) : Prop :=
  ∀ e, Sound e → Disciplined (act e).state →
    ∃ records e', act e = .finished () e' ∧ Segment e records e'

theorem carried_modify {f : Client → Client}
    (segment : ∀ e, Sound e → ∃ records, Segment e records (f e)) :
    Carried (Thread.modify f) := fun e sound _ => by
  obtain ⟨records, segment⟩ := segment e sound
  exact ⟨records, f e, rfl, segment⟩

/-- Nothing is recorded where neither pauses nor the history change. -/
theorem Segment.silent {e e' : Client} (current : e'.current = e.current)
    (slots : e'.slots = e.slots) (records : e'.host.records = e.host.records) :
    Segment e [] e' :=
  .still (by rw [records, List.append_nil]) (agreeing_nil _) rfl (by simp) current slots

theorem Segment.single {e e' : Client} {record : Record}
    (written : e'.host.records = e.host.records ++ [record]) (agrees : record.Agrees e.current)
    (passes : record.leaves e.current = e.current) (nobody : record.number? = none)
    (current : e'.current = e.current) (slots : e'.slots = e.slots) : Segment e [record] e' := by
  refine .still written (agreeing_cons agrees (agreeing_nil _)) passes ?_ current slots
  intro other member
  rwa [List.mem_singleton.mp member]

theorem segment_releaseNow (how : Release) {e : Client} (sound : Sound e) :
    ∃ records, Segment e records (releaseNow how e) := by
  cases current : e.current with
  | none =>
      rw [releaseNow, Engine.release_free current, current]
      refine ⟨_, .single rfl ?_ ?_ rfl rfl rfl⟩
      · rw [current]
        exact ⟨rfl, rfl, by simp⟩
      · rfl
  | some pause =>
      have outstanding := sound.outstanding pause current
      rw [releaseNow, Engine.release_outstanding outstanding, current]
      exact ⟨_, .release outstanding rfl (by simp) rfl rfl⟩

theorem segment_releaseThen (how : Release) (changes : Snapshot → List Change) {e : Client}
    (sound : Sound e) : ∃ records, Segment e records (releaseThen how changes e) := by
  cases current : e.current with
  | none =>
      have free : (blind e).current = none := current
      rw [releaseThen, Engine.releaseWith_free free, current]
      refine ⟨_, .single rfl ?_ ?_ rfl rfl rfl⟩
      · rw [current]
        exact ⟨rfl, rfl, by simp [Engine.note, blind]⟩
      · rfl
  | some pause =>
      have outstanding := sound.outstanding pause current
      have same : Engine.Outstanding pause (blind e) :=
        ⟨outstanding.current, outstanding.unreleased⟩
      have changed := changed_makeAll (changes pause.snapshot)
        { e with current := none, host := { e.host with seen := [(pause.snapshot, false)] } }
      rw [releaseThen, Engine.releaseWith_outstanding same how (prepare changes) changed.slots,
        current]
      refine ⟨[.released how (some pause) (some [(pause.snapshot, false)]) true],
        .release outstanding ?_ (by simp) changed.current rfl⟩
      exact congrArg (fun host => History.records host ++
        [.released how (some pause) (some (History.seen host)) true]) changed.host

/-- What an operation does behind the callback of the pause that it installed. -/
def conclude (callback : Thread Client Unit) (pause : Pause) (e : Client) : Run Client Unit :=
  (Engine.await (reentrant pause.slot callback) pause (write (.heard pause.slot) e)).bind
    fun result e => .finished () (returns pause.slot result e)

theorem grows_conclude (callback : Thread Client Unit) (pause : Pause) (e : Client) :
    Grows e (conclude callback pause e).state :=
  ((grows_write _ e).trans (grows_await _ _ _ _)).trans
    (grows_bind fun _ e _ => grows_write _ e)

/-- Where nobody has released the pause the thread parks behind the callback. -/
theorem state_conclude_of_none (callback : Thread Client Unit) {pause : Pause} {e : Client}
    (signal : (e.slot pause.slot).signal = none) :
    (conclude callback pause e).state = write (.heard pause.slot) e := by
  have waits : ((write (.heard pause.slot) e).slot pause.slot).signal = none := signal
  rw [conclude, Engine.await_of_none waits]
  rfl

/-- A released pause ends as the release says. -/
theorem conclude_of_signal (callback : Thread Client Unit) {pause : Pause} {how : Release}
    {e : Client} (installed : pause.slot < e.slots.length) (cleared : e.current = none)
    (signal : (e.slot pause.slot).signal = some how) :
    ∃ e', conclude callback pause e = .finished () e' ∧
      e'.host.records = e.host.records ++ ending pause how ∧
      e'.current = none ∧ e'.slots = e.slots := by
  have goesOn : ((write (.heard pause.slot) e).slot pause.slot).signal = some how := signal
  have number : e.slots.length ≠ pause.slot := (Nat.ne_of_lt installed).symm
  rw [conclude, Engine.await_of_signal goesOn]
  cases how with
  | interrupted =>
      refine ⟨_, rfl, ?_, ?_, rfl⟩
      · simp [returns, write, Engine.leave, ending, Release.verdict, number]
      · simp [returns, write, Engine.leave, cleared]
  | resumed =>
      refine ⟨_, rfl, ?_, ?_, rfl⟩
      · simp [returns, write, Engine.leave, ending, Release.verdict, number]
      · simp [returns, write, Engine.leave, cleared]

theorem installing_pause (callback : Thread Client Unit) (expression : Expression)
    (reason : StopReason) (depth : Nat) (e : Client) :
    installing (fun number => Engine.pause (reentrant number callback) expression reason depth) e =
      (callback (write (.told (e.newPause expression reason depth))
        (e.install expression reason depth))).bind fun _ e₁ =>
          conclude callback (e.newPause expression reason depth) e₁ := by
  have paused := Engine.pause_eq_await (reentrant e.slots.length callback) expression reason depth e
  change (Engine.pause (reentrant e.slots.length callback) expression reason depth e).bind
    (fun result e₁ => .finished () (returns e.slots.length result e₁)) = _
  rw [paused, Run.bind_assoc]
  exact Run.bind_assoc (callback _) _ _

/-- A callback that is carried out stands in the middle of the life of its pause. -/
theorem carried_pause {callback : Thread Client Unit} (carried : Carried callback)
    (growing : Growing callback) (expression : Expression) (reason : StopReason) (depth : Nat) :
    Carried (installing fun number =>
      Engine.pause (reentrant number callback) expression reason depth) := by
  intro e sound disciplined
  let pause := e.newPause expression reason depth
  let told := write (.told pause) (e.install expression reason depth)
  rw [installing_pause] at disciplined ⊢
  have inside : Disciplined (callback told).state :=
    disciplined.of_grows (grows_bind fun _ e₁ _ => grows_conclude callback pause e₁)
  have free : e.current = none := by
    cases current : e.current with
    | none => rfl
    | some other =>
        have replaced : Diagnostic.pauseReplaced ∈ told.journal := by
          simp [told, write, Engine.install, Engine.isPaused, current]
        exact absurd replaced (inside.of_grows (growing told)).single
  have telling : Telling e pause told := ⟨free, rfl, rfl, rfl, rfl⟩
  obtain ⟨records, e₁, ran, segment⟩ := carried told (telling.sound sound) inside
  rw [ran, Run.bind_finished] at disciplined ⊢
  cases signal : (e₁.slot pause.slot).signal with
  | none =>
      rw [state_conclude_of_none callback signal] at disciplined
      obtain ⟨record, member, releases⟩ :=
        disciplined.released e₁.host.records pause.slot [] rfl
      exact absurd releases (telling.not_released sound segment signal record member)
  | some how =>
      obtain ⟨_, released⟩ := telling.released segment signal
      obtain ⟨e', concluded, written, cleared, slots⟩ := conclude_of_signal callback
        (Nat.lt_of_lt_of_le telling.outstanding.bound segment.slots) released.cleared signal
      exact ⟨_, e', concluded, telling.segment segment signal written cleared slots⟩

theorem installing_enter (callback : Thread Client Unit) (expression : Expression)
    (depth : Nat) (e : Client) :
    installing (fun number => Engine.enter (reentrant number callback) expression depth) e =
      match (e.decide expression depth).1 with
      | none => .finished () (returns e.slots.length (.ok ()) (e.decide expression depth).2)
      | some reason => installing (fun number =>
          Engine.pause (reentrant number callback) expression reason depth)
            (e.decide expression depth).2 := by
  change (Engine.enter (reentrant e.slots.length callback) expression depth e).bind _ = _
  simp only [Engine.enter, bind, Thread.step]
  cases (e.decide expression depth).1 <;> rfl

theorem carried_enter {callback : Thread Client Unit} (carried : Carried callback)
    (growing : Growing callback) (expression : Expression) (depth : Nat) :
    Carried (installing fun number =>
      Engine.enter (reentrant number callback) expression depth) := by
  intro e sound disciplined
  have decided : Segment e [] (e.decide expression depth).2 := .silent rfl rfl rfl
  rw [installing_enter] at disciplined ⊢
  cases decision : (e.decide expression depth).1 with
  | none =>
      refine ⟨[.returned none (.ok ())], _, rfl, .single ?_ rfl rfl rfl rfl rfl⟩
      simp [returns, write, Engine.decide]
  | some reason =>
      simp only [decision] at disciplined
      obtain ⟨records, e', ran, segment⟩ := carried_pause carried growing expression reason depth
        (e.decide expression depth).2 (decided.sound sound) disciplined
      exact ⟨records, e', ran, decided.append segment sound⟩

theorem carried_then {first second : Thread Client Unit} (carried : Carried first)
    (others : Carried second) (growing : Growing second) :
    Carried (first >>= fun _ => second) := by
  intro e sound disciplined
  change Disciplined ((first e).bind fun _ e₁ => second e₁).state at disciplined
  have early : Disciplined (first e).state :=
    disciplined.of_grows (grows_bind fun _ e₁ _ => growing e₁)
  obtain ⟨records, e₁, ran, segment⟩ := carried e sound early
  rw [ran, Run.bind_finished] at disciplined
  obtain ⟨more, e', ran', segment'⟩ := others e₁ (segment.sound sound) disciplined
  refine ⟨records ++ more, e', ?_, segment.append segment' sound⟩
  change (first e).bind (fun _ e₁ => second e₁) = _
  rw [ran, Run.bind_finished, ran']

/-- The induction is on the program and the programs of its callbacks. -/
theorem carried_performAll (program : List Action) : Carried (performAll program) := by
  refine Action.rec_1 (motive_1 := fun action => Carried action.perform)
    (motive_2 := fun actions => Carried (performAll actions))
    ?_ ?_ ?_ ?_ ?_ ?_ ?_ ?_ ?_ ?_ program
  · intro expression depth callback ih
    rw [Action.perform]
    exact carried_enter ih (growing_performAll callback) expression depth
  · intro expression reason depth callback ih
    rw [Action.perform]
    exact carried_pause ih (growing_performAll callback) expression reason depth
  · intro expression
    rw [Action.perform]
    exact carried_modify fun e _ => ⟨[], .silent rfl rfl rfl⟩
  · intro context
    rw [Action.perform]
    exact carried_modify fun e _ => ⟨[], .silent rfl rfl rfl⟩
  · intro change
    rw [Action.perform]
    refine carried_modify fun e _ => ⟨[], ?_⟩
    have changed := change.changed e
    exact .silent changed.current changed.slots (congrArg History.records changed.host)
  · intro how
    rw [Action.perform]
    exact carried_modify fun e sound => segment_releaseNow how sound
  · intro how changes
    rw [Action.perform]
    exact carried_modify fun e sound => segment_releaseThen how changes sound
  · rw [Action.perform]
    exact carried_modify fun e _ => ⟨_, .single rfl ⟨rfl, rfl⟩ rfl rfl rfl rfl⟩
  · rw [performAll]
    exact fun e _ _ => ⟨[], e, rfl, .silent rfl rfl rfl⟩
  · intro action rest first others
    rw [performAll]
    exact carried_then first others (growing_performAll rest)

theorem performAll_append (first second : List Action) (e : Client) :
    performAll (first ++ second) e =
      (performAll first e).bind fun _ e₁ => performAll second e₁ := by
  induction first generalizing e with
  | nil =>
      rw [List.nil_append, performAll]
      rfl
  | cons action rest ih =>
      rw [List.cons_append, performAll, performAll]
      change (action.perform e).bind (fun _ e₁ => performAll (rest ++ second) e₁) =
        ((action.perform e).bind fun _ e₁ => performAll rest e₁).bind _
      rw [Run.bind_assoc]
      exact congrArg (fun next => (action.perform e).bind next) (funext fun _ => funext ih)

/-- A disciplined client's operations all return. Each release and each look finds what
is outstanding by its history: a release succeeds just if a pause is outstanding, and
then prepares once, on its view and with no pause outstanding any more. Each pause of
which the host was told lives its whole life, nothing else is recorded about pauses,
and behind each operation of the client none is outstanding. -/
theorem disciplined_history (breakpoints : Store) (steps : Steps) (context : Context)
    (previewLength : Nat) (program : List Action) :
    let fresh : Client := { breakpoints, steps, context, previewLength, host := {} }
    Disciplined (performAll program fresh).state →
      ∃ e, performAll program fresh = .finished () e ∧
        Agreeing none e.host.records ∧
        (∀ pause, .told pause ∈ e.host.records → ∃ how prepared,
          about pause.slot e.host.records = lifetime pause how prepared) ∧
        (∀ record ∈ e.host.records, ∀ number ∈ record.number?,
          ∃ pause, .told pause ∈ e.host.records ∧ pause.slot = number) ∧
        ∀ first second, program = first ++ second →
          ∃ e₁, performAll first fresh = .finished () e₁ ∧ e₁.isPaused = false := by
  intro fresh disciplined
  have sound : Sound fresh := ⟨fun _ found => by contradiction, fun _ member => by contradiction⟩
  obtain ⟨records, e, ran, segment⟩ := carried_performAll program fresh sound disciplined
  obtain rfl : records = e.host.records := segment.written.symm
  have lives {record : Record} (member : record ∈ e.host.records) {number : Nat}
      (found : number ∈ record.number?) :=
    segment.newer number (Nat.zero_le number) (segment.known record member number found)
  refine ⟨e, ran, segment.agreeing, ?_, ?_, ?_⟩
  · intro pause member
    obtain ⟨told, how, prepared, same, life⟩ := lives member rfl
    have first : Record.told pause ∈ lifetime told how prepared :=
      life ▸ mem_about.mpr ⟨member, rfl⟩
    have only : pause = told := by
      simpa [lifetime, ending] using first
    exact ⟨how, prepared, only ▸ life⟩
  · intro record member number found
    obtain ⟨told, how, prepared, same, life⟩ := lives member found
    have first : Record.told told ∈ about number e.host.records := by
      rw [life]
      exact List.mem_cons_self
    exact ⟨told, (mem_about.mp first).1, same⟩
  · rintro first second rfl
    rw [performAll_append] at disciplined
    obtain ⟨_, e₁, ran₁, segment₁⟩ := carried_performAll first fresh sound
      (disciplined.of_grows (grows_bind fun _ e₁ _ => growing_performAll second e₁))
    refine ⟨e₁, ran₁, ?_⟩
    have cleared : e₁.current = none := segment₁.settled.elim id id
    rw [Engine.isPaused, cleared]
    rfl

/-- The callback of one pause releases it, pauses again, interrupts the second pause and
then finds nothing to release. -/
theorem disciplined_history_of_nested_pauses :
    let call : Expression := ⟨none, none⟩
    let program : List Action :=
      [.pause call .breakpoint 1
        [.releaseWith .resumed fun view => [.steps (.recordDepth view.depth)],
          .pause call .step 2 [.look, .release .interrupted], .release .resumed],
        .look]
    let fresh : Client := { host := {} }
    Disciplined (performAll program fresh).state ∧
      (performAll program fresh).state.host.records.map Record.number? =
        [some 0, some 0, some 1, none, some 1, some 1, some 1, none, some 0, some 0, some 0,
          none] ∧
      ∃ e, performAll program fresh = .finished () e ∧ Agreeing none e.host.records ∧
        e.isPaused = false := by
  intro call program fresh
  have disciplined : Disciplined (performAll program fresh).state := by
    refine ⟨by decide +kernel, fun before number after split => ?_⟩
    have ok : answered [] (performAll program fresh).state.host.records = true := by
      decide +kernel
    rw [split] at ok
    exact (releases_of_answered ok).resolve_left List.not_mem_nil
  obtain ⟨e, ran, agreeing, -, -, cleared⟩ := disciplined_history {} {} {} _ program disciplined
  obtain ⟨e₁, ran₁, free⟩ := cleared program [] (List.append_nil program).symm
  obtain rfl : e₁ = e := (Run.finished.inj (ran₁.symm.trans ran)).2
  exact ⟨disciplined, by decide +kernel, e₁, ran, agreeing, free⟩

end Debugger.Client
