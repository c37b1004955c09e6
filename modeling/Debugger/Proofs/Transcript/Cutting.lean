import Debugger.Proofs.Transcript.Driving

/-! A transcript on a sink that takes only so many lines breaks off behind the last line
there is room for. Where the last line of all is the one refused, the program has run
out; with less room it is stopped at a pause, and breakpoints and steps are gone. -/
namespace Debugger

namespace Transcript
open Session

theorem Strip.lined (s : Strip) : Lined s.write :=
  .inr List.getLast?_concat

theorem Page.lined_text (p : Page) : ∀ piece ∈ p.text, Lined piece := by
  intro piece member
  obtain ⟨strip, -, rfl⟩ := List.mem_map.mp member
  exact strip.lined

theorem lined_book (book : List Page) : Lined (book.flatMap Page.text).flatten := by
  refine Lined.flatten fun piece member => ?_
  obtain ⟨page, -, piece_mem⟩ := List.mem_flatMap.mp member
  exact page.lined_text piece piece_mem

/-- A number is written without a line feed, so that the last line is one line. -/
theorem count_finishedText (count : Nat) : (finishedText count).count '\n' = 1 := by
  have digits : '\n' ∉ (toString count).toList := by
    intro member
    rw [Nat.toString_eq_ofList_toDigits, String.toList_ofList] at member
    have digit := Nat.isDigit_of_mem_toDigits (by decide) (by decide) member
    exact absurd digit (by decide)
  simp only [finishedText, line, String.toList_append, List.count_append,
    List.count_eq_zero_of_not_mem digits]
  decide

/-- Whatever the sink takes, a session is debugged to one of two ends: it has run out if
the sink takes the pages of all its stops, and otherwise is given up. -/
theorem debug_eq_ends (tree : CallTree) (config : Config) (breakpoints : Store)
    (mode : StepMode) (script : List Command) :
    let fresh : Launch.Quiet := Session.new config ()
    ∃ book, Lined book ∧ ∃ ran : Launch.Quiet, ran.current = none ∧ ran.isActive = false ∧
      ∀ sink : Sink, ∃ cut : Launch.Quiet, GivenUp cut ∧ cut.isActive = false ∧
        debug Launch.Quiet.react tree script sink
            { fresh with breakpoints, steps := fresh.steps.setMode mode } =
          let written := sink.write (book ++ finishedText tree.main.size)
          ⟨if written.1 then .ok () else .error .sinkClosed,
            if (sink.write book).1 then ran else cut, written.2⟩ := by
  intro fresh
  have start : Unattended config.previewLength
      (started Launch.Quiet.react tree.main.expression
        { fresh with breakpoints, steps := fresh.steps.setMode mode })
      ⟨breakpoints, mode, fresh.steps.recordedDepth⟩ none := by
    rw [started, after_unheard Launch.Quiet.react _ rfl]
    exact ⟨rfl, rfl, rfl, rfl, rfl⟩
  obtain ⟨stops, rest, s, -, unattended, driven⟩ :=
    drive_turns Launch.Quiet.react tree.turns
      { watch := ⟨breakpoints, mode, fresh.steps.recordedDepth⟩, commands := Script.modes script }
      script
      (fun result s => .finished (result.map fun () => tree.main.size)
        (ended Launch.Quiet.react tree.main.expression s)) rfl start
  have closed {s : Launch.Quiet} (unheard : s.listeners = []) :
      ended Launch.Quiet.react tree.main.expression s =
        Engine.note [.executionEnded tree.main.expression] (s.setActive false) :=
    after_unheard Launch.Quiet.react _ unheard
  refine ⟨_, lined_book (pages config.previewLength script stops),
    ended Launch.Quiet.react tree.main.expression s, ?_, ?_, fun sink => ?_⟩
  · rw [closed unattended.unheard]
    exact unattended.free
  · rw [closed unattended.unheard]
    rfl
  · obtain ⟨cut, givenUp, equation⟩ := driven sink
    refine ⟨ended Launch.Quiet.react tree.main.expression cut, ?_, ?_, ?_⟩
    · rw [closed givenUp.unheard]
      exact ⟨givenUp.unheard, givenUp.free, givenUp.empty, givenUp.idle⟩
    · rw [closed givenUp.unheard]
      rfl
    · rw [debug, run_eq, equation, Sink.write_append]
      rcases sink.write ((pages config.previewLength script stops).flatMap Page.text).flatten
        with ⟨taken, sink⟩
      cases taken with
      | false => rfl
      | true =>
          simp only [if_true, Except.map, drive]
          rcases sink.write (finishedText tree.main.size) with ⟨_ | _, sink⟩ <;> rfl

/-- The transcript on a sink with room for so many lines is the whole transcript as far
as there is room. -/
theorem limited_debug_eq_first_lines (tree : CallTree) (config : Config) (breakpoints : Store)
    (mode : StepMode) (script : List Command) (room : Nat) :
    let fresh : Launch.Quiet := Session.new config ()
    let start := { fresh with breakpoints, steps := fresh.steps.setMode mode }
    let full := debug Launch.Quiet.react tree script {} start
    let cut := debug Launch.Quiet.react tree script { limit := some room } start
    let lines := full.sink.written.count '\n'
    Lined full.sink.written ∧
      full.result = .ok () ∧
      (lines ≤ room → cut.result = full.result ∧ cut.session = full.session ∧
        cut.sink.written = full.sink.written) ∧
      (room < lines → cut.result = .error .sinkClosed ∧
        FirstLines room full.sink.written cut.sink.written ∧
        cut.session.isPaused = false ∧ cut.session.isActive = false) ∧
      (room + 1 = lines → cut.session = full.session) ∧
      (room + 1 < lines → cut.session.breakpoints.isEmpty = true ∧
        cut.session.steps = { mode := .continue, recordedDepth := 0, lastFinished := none }) := by
  intro fresh start full cut lines
  obtain ⟨book, lined, ran, free, inactive, ends⟩ :=
    debug_eq_ends tree config breakpoints mode script
  obtain ⟨_, -, -, full_eq⟩ := ends {}
  obtain ⟨stopped, givenUp, stopped_inactive, cut_eq⟩ := ends { limit := some room }
  have whole : Lined (book ++ finishedText tree.main.size) := lined.append (Lined.line _)
  have full_reached : full = ⟨.ok (), ran, { written := book ++ finishedText tree.main.size }⟩ :=
    full_eq
  have counted : lines = book.count '\n' + 1 := by
    simp only [lines, full_reached, List.count_append, count_finishedText]
  let written := Sink.write (book ++ finishedText tree.main.size) { limit := some room }
  let paged := Sink.write book { limit := some room }
  have cut_reached : cut = ⟨if written.1 then .ok () else .error .sinkClosed,
      if paged.1 then ran else stopped, written.2⟩ := cut_eq
  have text := Sink.write_lined whole room
  rw [List.count_append, count_finishedText, ← counted] at text
  have atRest : cut.session.isPaused = false ∧ cut.session.isActive = false := by
    rw [cut_reached]
    cases paged.1 with
    | false => exact ⟨congrArg Option.isSome givenUp.free, stopped_inactive⟩
    | true => exact ⟨congrArg Option.isSome free, inactive⟩
  have sameSession (enough : lines ≤ room + 1) : cut.session = full.session := by
    obtain ⟨-, taken, -⟩ := (Sink.write_lined lined room).resolve_right fun short => by omega
    rw [cut_reached, full_reached]
    exact if_pos taken
  refine ⟨?_, by rw [full_reached], fun fits => ?_, fun short => ?_, fun last => ?_,
    fun early => ?_⟩
  · rw [full_reached]
    exact whole
  · obtain ⟨-, taken, all⟩ := text.resolve_right fun short => by omega
    refine ⟨?_, sameSession (by omega), ?_⟩
    · rw [cut_reached, full_reached]
      exact if_pos taken
    · rw [cut_reached, full_reached]
      exact all
  · obtain ⟨-, refused, part⟩ := text.resolve_left fun fits => by omega
    refine ⟨?_, ?_, atRest⟩
    · rw [cut_reached]
      exact if_neg (by simp [written, refused])
    · rw [cut_reached, full_reached]
      exact part
  · exact sameSession (by omega)
  · obtain ⟨-, refused, -⟩ := (Sink.write_lined lined room).resolve_left fun fits => by omega
    rw [cut_reached, show paged.1 = false from refused]
    exact ⟨congrArg List.isEmpty givenUp.empty, givenUp.idle⟩

/-- One page of four lines and the last line. With room for the page the program has run
out, and with less room it has been stopped at its only call. -/
example :
    let tree : CallTree := ⟨.mk (some "main") none none [] [] []⟩
    let fresh : Launch.Quiet := Session.new {} ()
    let cut (room : Nat) := debug Launch.Quiet.react tree [] { limit := some room }
      { fresh with steps := fresh.steps.setMode .into }
    (cut 4).session.steps.lastFinished = some tree.main.expression ∧
      (cut 3).session.steps.lastFinished = none ∧
      (cut 1).sink.written = line "== Step: main (unknown location)" :=
  ⟨rfl, rfl, rfl⟩

end Transcript
end Debugger
