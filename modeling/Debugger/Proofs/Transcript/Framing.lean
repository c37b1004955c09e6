import Debugger.Proofs.Transcript.Cutting
import Debugger.Proofs.Transcript.Rows

/-! The framing of transcripts. What a transcript writes directly behind a mark may hold line
feeds, and only there can a line come from that has no mark. Main statement: every other line
is a header, an echo or indented, whatever the program's texts are. -/
namespace Debugger

namespace Transcript

namespace Mark

def marks (m : Mark) (row : List Char) : Bool :=
  m.chars.isPrefixOf row

theorem marks_append (m other : Mark) (text : List Char) :
    m.marks (other.chars ++ text) = decide (m = other) := by
  cases m <;> cases other <;> rfl

end Mark

namespace Strip

def strays (s : Strip) : List (List Char) :=
  Text.laterRows s.text

/-- The row with the mark. -/
def first (s : Strip) : List Char :=
  s.mark.chars ++ s.text.takeWhile (· != '\n')

theorem marks_first (m : Mark) (s : Strip) : m.marks s.first = decide (s.mark = m) :=
  (m.marks_append s.mark _).trans (decide_eq_decide.mpr eq_comm)

theorem first_of_no_strays {s : Strip} (whole : s.strays = []) : s.first = s.chars := by
  have unbroken : ∀ c ∈ s.text, (c != '\n') = true := fun c member =>
    bne_iff_ne.mpr fun feed => Text.laterRows_eq_nil.mp whole (feed ▸ member)
  rw [first, chars, ← List.append_nil s.text, List.takeWhile_append_of_pos unbroken]
  rfl

/-- Whatever the text, the first row of a strip has its mark. -/
theorem rows_write (s : Strip) : Text.rows s.write = s.first :: s.strays := by
  have unbroken : ∀ c ∈ s.mark.chars, (c != '\n') = true := by
    cases s.mark <;> simp [Mark.chars]
  rw [write, Text.rows_ended, chars, List.takeWhile_append_of_pos unbroken,
    Text.laterRows_append fun feed => by simpa using unbroken _ feed]
  rfl

theorem rows_strips (strips : List Strip) :
    Text.rows (strips.map write).flatten = strips.flatMap fun s => s.first :: s.strays := by
  have lined : ∀ piece ∈ strips.map write, Lined piece := by
    intro piece member
    obtain ⟨strip, -, rfl⟩ := List.mem_map.mp member
    exact strip.lined
  rw [Text.rows_flatten lined, List.flatMap_map, funext rows_write]

theorem marked_or_stray {strips : List Strip} :
    ∀ row ∈ Text.rows (strips.map write).flatten,
      (∃ m : Mark, m.marks row = true) ∨ row ∈ strips.flatMap strays := by
  intro row member
  rw [rows_strips] at member
  obtain ⟨strip, inside, member⟩ := List.mem_flatMap.mp member
  rcases List.mem_cons.mp member with rfl | stray
  · exact .inl ⟨strip.mark, (marks_first _ _).trans (decide_eq_true rfl)⟩
  · exact .inr (List.mem_flatMap.mpr ⟨strip, inside, stray⟩)

theorem countP_rows (m : Mark) (strips : List Strip) :
    (Text.rows (strips.map write).flatten).countP m.marks =
      (strips.filter (·.mark = m)).length + (strips.flatMap strays).countP m.marks := by
  rw [rows_strips]
  induction strips with
  | nil => rfl
  | cons strip rest ih =>
      rw [List.flatMap_cons, List.countP_append, List.countP_cons, ih, List.filter_cons,
        List.flatMap_cons, List.countP_append, marks_first]
      by_cases same : strip.mark = m
      · simp only [same, decide_true, if_true, List.length_cons]
        omega
      · simp only [same, decide_false, Bool.false_eq_true, if_false]
        omega

theorem filter_rows (m : Mark) {strips : List Strip} (whole : strips.flatMap strays = []) :
    (Text.rows (strips.map write).flatten).filter m.marks =
      (strips.filter (·.mark = m)).map chars := by
  rw [rows_strips]
  induction strips with
  | nil => rfl
  | cons strip rest ih =>
      rw [List.flatMap_cons, List.append_eq_nil_iff] at whole
      rw [List.flatMap_cons, whole.1, List.cons_append, List.nil_append, List.filter_cons,
        List.filter_cons, ih whole.2, marks_first, first_of_no_strays whole.1]
      by_cases same : strip.mark = m
      · simp only [same, decide_true, if_true, List.map_cons]
      · simp only [same, decide_false, Bool.false_eq_true, if_false]

end Strip

namespace Page

/-- A listing keeps its framing for every text. -/
theorem unbroken_listing (rows : List String) {remark : String} (unbroken : '\n' ∉ remark.toList) :
    ∀ strip ∈ listing rows remark, strip.mark = .indent ∧ '\n' ∉ strip.text := by
  rw [listing]
  split
  · simpa using unbroken
  · intro strip member
    obtain ⟨line, inside, rfl⟩ := List.mem_map.mp member
    exact ⟨rfl, Text.not_mem_lines line inside⟩

/-- The rows of a page that have no mark of their own. -/
def strays (p : Page) : List (List Char) :=
  Text.laterRows p.spot.toList ++ p.commands.flatMap fun
    | .inspect (.print name) =>
        Text.laterRows name.toList ++ Text.laterRows (printed p.snapshot name).toList
    | _ => []

theorem strays_listing (rows : List String) {remark : String} (unbroken : '\n' ∉ remark.toList) :
    (listing rows remark).flatMap Strip.strays = [] := by
  refine List.flatMap_eq_nil_iff.mpr fun strip member => ?_
  exact Text.laterRows_of_unbroken (unbroken_listing rows unbroken strip member).2

theorem strays_headerStrip (p : Page) :
    p.headerStrip.strays = Text.laterRows p.spot.toList := by
  have unbroken : '\n' ∉ (cause p.reason ++ ": ").toList := by
    cases p.reason <;> decide
  rw [Strip.strays, headerStrip, String.toList_append, Text.laterRows_append unbroken]

theorem strays_answered (s : Snapshot) (command : Command) :
    (echoStrip command :: shownStrips s command).flatMap Strip.strays =
      match command with
      | .inspect (.print name) =>
          Text.laterRows name.toList ++ Text.laterRows (printed s name).toList
      | _ => [] := by
  cases command with
  | resume mode => cases mode <;> rfl
  | inspect inspection =>
      rw [List.flatMap_cons]
      cases inspection with
      | stack => exact strays_listing _ (by decide)
      | vars => exact strays_listing _ (by decide)
      | print name =>
          have asked : (echoStrip (.inspect (.print name))).strays =
              Text.laterRows name.toList := by
            rw [Strip.strays, echoStrip, said, String.toList_append]
            exact Text.laterRows_append (by decide) _
          rw [asked]
          exact congrArg _ (List.append_nil _)

/-- Only where a location or a printed variable stands can a row be without a mark. -/
theorem strays_strips (p : Page) : p.strips.flatMap Strip.strays = p.strays := by
  have stack : (stackStrips p.snapshot).flatMap Strip.strays = [] :=
    strays_listing _ (by decide)
  have bindings : (variablesStrips p.snapshot).flatMap Strip.strays = [] :=
    strays_listing _ (by decide)
  rw [strips, List.flatMap_cons, List.flatMap_append, List.flatMap_append, stack, bindings,
    strays_headerStrip, List.flatMap_assoc, funext (strays_answered p.snapshot)]
  rfl

theorem filter_listing {m : Mark} (other : m ≠ .indent) (rows : List String) {remark : String}
    (unbroken : '\n' ∉ remark.toList) : (listing rows remark).filter (·.mark = m) = [] := by
  refine List.filter_eq_nil_iff.mpr fun strip member marked => other ?_
  rw [← of_decide_eq_true marked]
  exact (unbroken_listing rows unbroken strip member).1

theorem filter_answered {m : Mark} (other : m ≠ .indent) (s : Snapshot) (command : Command) :
    (echoStrip command :: shownStrips s command).filter (·.mark = m) =
      if m = .echo then [echoStrip command] else [] := by
  have shown : (shownStrips s command).filter (·.mark = m) = [] := by
    cases command with
    | resume mode => rfl
    | inspect inspection =>
        cases inspection with
        | stack => exact filter_listing other _ (by decide)
        | vars => exact filter_listing other _ (by decide)
        | print name =>
            exact List.filter_cons_of_neg (by simpa using Ne.symm other)
  rw [List.filter_cons, shown]
  cases m with
  | indent => exact absurd rfl other
  | header => rfl
  | echo => rfl

theorem filter_strips {m : Mark} (other : m ≠ .indent) (p : Page) :
    p.strips.filter (·.mark = m) =
      if m = .echo then p.commands.map echoStrip else [p.headerStrip] := by
  have stack : (stackStrips p.snapshot).filter (·.mark = m) = [] :=
    filter_listing other _ (by decide)
  have bindings : (variablesStrips p.snapshot).filter (·.mark = m) = [] :=
    filter_listing other _ (by decide)
  rw [strips, List.filter_cons, List.filter_append, List.filter_append, stack, bindings,
    List.filter_flatMap, funext (filter_answered other p.snapshot)]
  cases m with
  | indent => exact absurd rfl other
  | header => simp [headerStrip]
  | echo => simp [headerStrip, List.map_eq_flatMap]

end Page

def finishedStrip (count : Nat) : Strip :=
  ⟨.header, ("finished (" ++ toString count ++ " calls)").toList⟩

theorem finishedText_eq_strip (count : Nat) :
    finishedText count = (finishedStrip count).write := by
  simp [finishedText, line, finishedStrip, Strip.write, Strip.chars, Mark.chars]

theorem strays_finishedStrip (count : Nat) : (finishedStrip count).strays = [] := by
  refine Text.laterRows_of_unbroken fun feed => ?_
  have one := count_finishedText count
  rw [finishedText_eq_strip, Strip.write, Strip.chars, List.count_append, List.count_append,
    List.count_singleton_self] at one
  exact absurd (List.count_pos_iff.mpr feed) (by omega)

def bookStrips (book : List Page) (count : Nat) : List Strip :=
  book.flatMap Page.strips ++ [finishedStrip count]

theorem book_eq_strips (book : List Page) (count : Nat) :
    (book.flatMap Page.text).flatten ++ finishedText count =
      ((bookStrips book count).map Strip.write).flatten := by
  rw [bookStrips, List.map_append, List.flatten_append, List.map_flatMap,
    finishedText_eq_strip]
  exact congrArg _ (List.append_nil _).symm

theorem strays_bookStrips (book : List Page) (count : Nat) :
    (bookStrips book count).flatMap Strip.strays = book.flatMap Page.strays := by
  rw [bookStrips, List.flatMap_append, List.flatMap_assoc, funext Page.strays_strips,
    List.flatMap_singleton, strays_finishedStrip, List.append_nil]

theorem header_bookStrips (book : List Page) (count : Nat) :
    (bookStrips book count).filter (·.mark = .header) =
      book.map Page.headerStrip ++ [finishedStrip count] := by
  rw [bookStrips, List.filter_append, List.filter_flatMap,
    funext (Page.filter_strips (m := .header) (by decide))]
  simp [finishedStrip, List.map_eq_flatMap]

theorem echo_bookStrips (book : List Page) (count : Nat) :
    (bookStrips book count).filter (·.mark = .echo) =
      book.flatMap fun page => page.commands.map Page.echoStrip := by
  rw [bookStrips, List.filter_append, List.filter_flatMap,
    funext (Page.filter_strips (m := .echo) (by decide))]
  simp [finishedStrip]

theorem length_pages (previewLength : Nat) (script : List Command) (stops : List Stop) :
    (pages previewLength script stops).length = stops.length := by
  induction stops generalizing script with
  | nil => rfl
  | cons stop rest ih => exact congrArg (· + 1) (ih (Script.unused script))

/-- Debugging writes rows that have a mark each, but for those that a line feed in a
location or in a printed variable begins. There is one header for each stop and one behind
the last, and unless such a row has the mark of one, no other row has. Without such rows the
headers and the echoes are the ones written as such, in order. -/
theorem debug_is_framed (tree : CallTree) (config : Config) (breakpoints : Store)
    (mode : StepMode) (script : List Command) :
    let fresh : Launch.Quiet := Session.new config ()
    let outcome := debug Launch.Quiet.react tree script {}
      { fresh with breakpoints, steps := fresh.steps.setMode mode }
    let stops := (tree.progress ⟨breakpoints, mode, fresh.steps.recordedDepth⟩
      (Script.modes script)).stops
    let book := pages config.previewLength script stops
    let rows := Text.rows outcome.sink.written
    let strays := book.flatMap Page.strays
    outcome.result = .ok () ∧
      (∃ extra, book.flatMap Page.commands <+:
        script ++ List.replicate extra (.resume .continue)) ∧
      (∀ row ∈ rows, (∃ m : Mark, m.marks row = true) ∨ row ∈ strays) ∧
      rows.countP Mark.header.marks = stops.length + 1 + strays.countP Mark.header.marks ∧
      rows.countP Mark.echo.marks =
        (book.flatMap Page.commands).length + strays.countP Mark.echo.marks ∧
      (strays = [] →
        rows.filter Mark.header.marks =
          (book.map Page.headerStrip ++ [finishedStrip tree.main.size]).map Strip.chars ∧
        rows.filter Mark.echo.marks =
          ((book.flatMap Page.commands).map Page.echoStrip).map Strip.chars) := by
  intro fresh outcome stops book rows strays
  obtain ⟨ended, written⟩ := debug_eq_book tree config breakpoints mode script
  have reached : rows =
      Text.rows ((bookStrips book tree.main.size).map Strip.write).flatten := by
    rw [← book_eq_strips]
    exact congrArg (fun outcome => Text.rows outcome.sink.written) written
  have unmarked : (bookStrips book tree.main.size).flatMap Strip.strays = strays :=
    strays_bookStrips book tree.main.size
  have echoes : (bookStrips book tree.main.size).filter (·.mark = .echo) =
      (book.flatMap Page.commands).map Page.echoStrip :=
    (echo_bookStrips book tree.main.size).trans List.map_flatMap.symm
  refine ⟨congrArg Outcome.result written, commands_pages _ _ _, ?_, ?_, ?_, fun none => ⟨?_, ?_⟩⟩
  · rw [reached, ← unmarked]
    exact Strip.marked_or_stray
  · rw [reached, Strip.countP_rows, unmarked, header_bookStrips, List.length_append,
      List.length_map, length_pages]
    rfl
  · rw [reached, Strip.countP_rows, unmarked, echoes, List.length_map]
  · rw [reached, Strip.filter_rows _ (unmarked.trans none), header_bookStrips]
  · rw [reached, Strip.filter_rows _ (unmarked.trans none), echoes]

/-- Where every text keeps to its line, the headers are those of the stops and the last. -/
theorem debug_is_framed_in_steps :
    let tree : CallTree := ⟨.mk (some "main") none none [("x", .integer 1)] []
      [.mk (some "helper") none none [] [] []]⟩
    let script : List Command := [.inspect (.print "x"), .resume .into]
    let fresh : Launch.Quiet := Session.new {} ()
    let outcome := debug Launch.Quiet.react tree script {}
      { fresh with breakpoints := {}, steps := fresh.steps.setMode .into }
    let rows := Text.rows outcome.sink.written
    rows.filter Mark.header.marks =
        ["== Step: main (unknown location)".toList, "== Step: helper (unknown location)".toList,
          "== finished (2 calls)".toList] ∧
      rows.filter Mark.echo.marks =
        ["> print x".toList, "> into".toList, "> continue".toList] := by
  intro tree script
  obtain ⟨-, -, -, -, -, framed⟩ := debug_is_framed tree {} {} .into script
  obtain ⟨headers, echoes⟩ := framed (by decide +kernel)
  exact ⟨headers.trans (by decide +kernel), echoes.trans (by decide +kernel)⟩

/-- A printed string with a line feed brings a row that reads as the last header, beside the
two headers of one stop. -/
theorem printed_string_reads_as_header :
    let tree : CallTree :=
      ⟨.mk (some "main") none none [("x", .string "a\n== finished (9 calls)")] [] []⟩
    let script : List Command := [.inspect (.print "x"), .resume .continue]
    let fresh : Launch.Quiet := Session.new {} ()
    let outcome := debug Launch.Quiet.react tree script {}
      { fresh with steps := fresh.steps.setMode .into }
    let stops := (tree.progress ⟨fresh.breakpoints, .into, fresh.steps.recordedDepth⟩
      (Script.modes script)).stops
    let rows := Text.rows outcome.sink.written
    "== finished (9 calls)'".toList ∈ rows ∧
      rows.countP Mark.header.marks = 3 ∧
      rows.countP Mark.header.marks ≠ stops.length + 1 := by
  decide +kernel

end Transcript
end Debugger
