import Debugger.Snapshot
import Debugger.Proofs.Text.Lines
import Debugger.Proofs.Variable.Truncation
import Mathlib.Data.List.Basic

/-! Main statement: a paused program's variables and calls are listed in order, and each keeps to
one line exactly when none of the texts it shows has a line feed. Nothing in a listing marks a
line feed that belongs to a text. -/
namespace Debugger

/-! ### Joined texts, cut again -/

namespace Text
variable {text : String} {texts : List String}

/-- What stands between the line feeds of a text. Nothing stands in the empty one. -/
def pieces (text : String) : List String :=
  if text = "" then [] else (text.toList.splitOn '\n').map String.ofList

theorem pieces_of_ne (filled : text ≠ "") :
    pieces text = (text.toList.splitOn '\n').map String.ofList :=
  if_neg filled

theorem length_pieces (filled : text ≠ "") : (pieces text).length = text.toList.count '\n' + 1 := by
  rw [pieces_of_ne filled, List.length_map, length_splitOn]

theorem pieces_of_unbroken (filled : text ≠ "") (unbroken : '\n' ∉ text.toList) :
    pieces text = [text] := by
  rw [pieces_of_ne filled, List.splitOn_eq_singleton unbroken, List.map_singleton,
    String.ofList_toList]

theorem joinLines_cons_cons (first second : String) (rest : List String) :
    joinLines (first :: second :: rest) = first ++ "\n" ++ joinLines (second :: rest) :=
  String.intercalate_cons_cons

theorem joinLines_singleton (text : String) : joinLines [text] = text := by
  rw [joinLines, joinWith, String.intercalate_singleton]

theorem pieces_append {first second : String} (filled : first ≠ "") (more : second ≠ "") :
    pieces (first ++ "\n" ++ second) = pieces first ++ pieces second := by
  have whole : first ++ "\n" ++ second ≠ "" := fun none =>
    more (String.append_eq_empty_iff.mp none).2
  rw [pieces_of_ne whole, pieces_of_ne filled, pieces_of_ne more, ← List.map_append,
    ← List.splitOn_append_cons_self, String.toList_append, String.toList_append,
    List.append_assoc]
  rfl

theorem joinLines_ne (filled : ∀ text ∈ texts, text ≠ "") (more : texts ≠ []) :
    joinLines texts ≠ "" := by
  obtain ⟨first, rest, rfl⟩ := List.exists_cons_of_ne_nil more
  have here := filled first List.mem_cons_self
  cases rest with
  | nil => rwa [joinLines_singleton]
  | cons second rest =>
      rw [joinLines_cons_cons]
      intro none
      have ended := (String.append_eq_empty_iff.mp none).1
      exact here (String.append_eq_empty_iff.mp ended).1

/-- A line feed between two texts separates their pieces, whatever line feeds they have. -/
theorem pieces_joinLines (filled : ∀ text ∈ texts, text ≠ "") :
    pieces (joinLines texts) = texts.flatMap pieces := by
  induction texts with
  | nil => rfl
  | cons first rest ih =>
      obtain ⟨here, others⟩ := List.forall_mem_cons.mp filled
      cases rest with
      | nil => rw [joinLines_singleton, List.flatMap_singleton]
      | cons second rest =>
          rw [joinLines_cons_cons, pieces_append here (joinLines_ne others (List.cons_ne_nil _ _)),
            ih others]
          rfl

theorem length_le_pieces (filled : ∀ text ∈ texts, text ≠ "") :
    texts.length ≤ (texts.flatMap pieces).length := by
  induction texts with
  | nil => exact Nat.le_refl 0
  | cons first rest ih =>
      obtain ⟨here, others⟩ := List.forall_mem_cons.mp filled
      have more := ih others
      rw [List.flatMap_cons, List.length_append, List.length_cons, length_pieces here]
      omega

/-- One text with a line feed is enough to make the count of the pieces wrong: no other text
can make up for it. -/
theorem length_pieces_eq_iff (filled : ∀ text ∈ texts, text ≠ "") :
    (texts.flatMap pieces).length = texts.length ↔ ∀ text ∈ texts, '\n' ∉ text.toList := by
  induction texts with
  | nil => simp
  | cons first rest ih =>
      obtain ⟨here, others⟩ := List.forall_mem_cons.mp filled
      have more := length_le_pieces others
      rw [List.forall_mem_cons, ← ih others, List.flatMap_cons, List.length_append,
        List.length_cons, length_pieces here, ← List.count_eq_zero]
      omega

theorem pieces_eq_iff (filled : ∀ text ∈ texts, text ≠ "") :
    texts.flatMap pieces = texts ↔ ∀ text ∈ texts, '\n' ∉ text.toList := by
  constructor
  · exact fun same => (length_pieces_eq_iff filled).mp (congrArg List.length same)
  · intro unbroken
    have single : ∀ text ∈ texts, pieces text = [text] := fun text member =>
      pieces_of_unbroken (filled text member) (unbroken text member)
    rw [List.flatMap_congr single, List.flatMap_singleton']

end Text
/-! ### What a line shows -/

theorem Text.not_mem_repr (n : Nat) : '\n' ∉ n.repr.toList := by
  intro member
  rw [Nat.toList_repr] at member
  exact absurd (Nat.isDigit_of_mem_toDigits (by decide) (by decide) member) (by decide)

theorem Text.unbroken_append_iff {first second : String} :
    '\n' ∉ (first ++ second).toList ↔ '\n' ∉ first.toList ∧ '\n' ∉ second.toList := by
  rw [String.toList_append, List.mem_append, not_or]

namespace Binary64

theorem Decimal.not_mem_positional (d : Decimal) : '\n' ∉ d.positional.toList := by
  have digits : '\n' ∉ (Decimal.stripped (Nat.toDigits 10 d.digits) d.scale).1 := by
    intro member
    have digit := Nat.isDigit_of_mem_toDigits (by decide) (by decide) (List.mem_of_mem_take member)
    exact absurd digit (by decide)
  have zeros (count : Nat) : '\n' ∉ List.replicate count '0' := fun member =>
    absurd (List.eq_of_mem_replicate member) (by decide)
  rw [Decimal.positional]
  dsimp only
  split
  · rw [String.toList_ofList]
    exact List.not_mem_append digits (zeros _)
  · -- The point is put between two parts of the padded digits.
    rw [String.toList_ofList]
    refine List.not_mem_append (mt List.mem_of_mem_take ?_)
      (List.not_mem_cons_of_ne_of_not_mem (by decide) (mt List.mem_of_mem_drop ?_)) <;>
    exact List.not_mem_append (zeros _) digits

theorem not_mem_render (x : Binary64) : '\n' ∉ x.render.toList := by
  have magnitude : '\n' ∉ (if !x.isFinite then "inf" else if x.significand = 0 then "0"
      else x.shortest.positional).toList := by
    split
    · decide
    · split
      · decide
      · exact Decimal.not_mem_positional _
  rw [render]
  split
  · decide
  · dsimp only
    split
    · exact Text.unbroken_append_iff.mpr ⟨by decide, magnitude⟩
    · exact magnitude

end Binary64

/-- Only a text prints with a line feed. -/
theorem Value.text_of_mem_print {value : Value} (broken : '\n' ∈ value.print.toList) :
    ∃ text, (value = .string text ∨ value = .opaqueText text) ∧ '\n' ∈ text.toList := by
  cases value with
  | string text =>
      rw [print, String.toList_append, String.toList_append, List.mem_append, List.mem_append]
        at broken
      obtain (quote | member) | quote := broken
      · exact absurd quote (by decide)
      · exact ⟨text, .inl rfl, member⟩
      · exact absurd quote (by decide)
  | integer number =>
      have plain : '\n' ∉ number.repr.toList := by
        rw [Int.repr_eq_if]
        split
        · exact Text.not_mem_repr _
        · exact Text.unbroken_append_iff.mpr ⟨by decide, Text.not_mem_repr _⟩
      exact absurd broken plain
  | float number => exact absurd broken number.not_mem_render
  | boolean truth => cases truth <;> exact absurd broken (by decide)
  | opaqueText text => exact ⟨text, .inr rfl, broken⟩

/-- As much of a text as a budget leaves of it, without the ellipsis behind it. -/
def Preview.kept (budget : Nat) (text : List Char) : List Char :=
  if text.length ≤ budget then text else text.take (budget - ellipsis.length)

theorem Preview.mem_truncate_iff (budget : Nat) (text : List Char) :
    '\n' ∈ truncate budget text ↔ '\n' ∈ kept budget text := by
  rw [truncate, kept]
  split
  · rfl
  · split
    case isTrue small =>
      have dots : '\n' ∉ ellipsis.take budget := mt List.mem_of_mem_take (by decide)
      rw [Nat.sub_eq_zero_of_le (Nat.le_of_lt small), List.take_zero]
      exact iff_of_false dots List.not_mem_nil
    case isFalse =>
      rw [List.mem_append, or_iff_left (by decide)]

/-- Neither the name nor what the budget leaves of the value has a line feed. -/
structure Variable.Unbroken (v : Variable) : Prop where
  name : '\n' ∉ v.name.toList
  shown : ∀ value ∈ v.value, '\n' ∉ Preview.kept v.previewLength value.print.toList

namespace Variable

theorem render_ne (v : Variable) : v.render ≠ "" := by
  intro none
  have equals : " = " = "" :=
    (String.append_eq_empty_iff.mp (String.append_eq_empty_iff.mp none).1).2
  exact absurd equals (by decide)

theorem not_mem_typeName (v : Variable) : '\n' ∉ v.typeName.toList := by
  rw [typeName]
  split
  · decide
  case h_2 value _ => cases value <;> dsimp only [Value.typeName?, Option.getD] <;> decide

theorem not_mem_preview_iff (v : Variable) (budget : Nat) :
    '\n' ∉ (v.preview budget).toList ↔
      ∀ value ∈ v.value, '\n' ∉ Preview.kept budget value.print.toList := by
  rw [preview]
  cases v.value with
  | none =>
      have word : '\n' ∉ "nil".toList := by decide
      exact iff_of_true word fun value bound => absurd bound (Option.not_mem_none value)
  | some value =>
      rw [String.toList_ofList, Preview.mem_truncate_iff]
      simp

theorem not_mem_render_iff (v : Variable) : '\n' ∉ v.render.toList ↔ v.Unbroken := by
  simp only [render, Text.unbroken_append_iff, not_mem_preview_iff]
  constructor
  · exact fun ⟨⟨⟨⟨name, _⟩, _⟩, _⟩, shown⟩ => ⟨name, shown⟩
  · exact fun ⟨name, shown⟩ => ⟨⟨⟨⟨name, by decide⟩, v.not_mem_typeName⟩, by decide⟩, shown⟩

end Variable

/-- Neither the function's name nor the source's has a line feed. -/
structure Frame.Unbroken (f : Frame) : Prop where
  function : '\n' ∉ f.functionName.toList
  source : ∀ source ∈ f.source, '\n' ∉ source.id.toList

namespace Frame

theorem render_ne (f : Frame) : f.render ≠ "" := by
  intro none
  have mark : " " = "" :=
    (String.append_eq_empty_iff.mp (String.append_eq_empty_iff.mp none).1).2
  exact absurd mark (by decide)

theorem not_mem_location_iff (f : Frame) : '\n' ∉ f.location.toList ↔ f.Unbroken := by
  rw [location]
  split
  case h_1 source known =>
    simp only [Source.render, Text.unbroken_append_iff, Nat.toString_eq_repr]
    constructor
    · rintro ⟨⟨name, -⟩, ⟨id, -⟩, -⟩
      exact ⟨name, fun other here => Option.some.inj (known.symm.trans here) ▸ id⟩
    · intro unbroken
      exact ⟨⟨unbroken.function, by decide⟩, ⟨unbroken.source source known, by decide⟩,
        Text.not_mem_repr _⟩
  case h_2 unknown =>
    rw [Text.unbroken_append_iff]
    constructor
    · exact fun ⟨name, _⟩ => ⟨name, fun source here => nomatch unknown.symm.trans here⟩
    · exact fun unbroken => ⟨unbroken.function, by decide⟩

theorem not_mem_render_iff (f : Frame) : '\n' ∉ f.render.toList ↔ f.Unbroken := by
  simp only [render, Text.unbroken_append_iff, not_mem_location_iff, Nat.toString_eq_repr]
  exact and_iff_right ⟨⟨by decide, Text.not_mem_repr _⟩, by decide⟩

end Frame

/-- The text lists the entries: its lines are those of the renderings, in order. They are the
renderings themselves, or just as many, exactly when every entry is unbroken, and there are
none only without entries. -/
structure Text.Lists {α : Type} (text : String) (entries : List α) (render : α → String)
    (Unbroken : α → Prop) : Prop where
  pieces : Text.pieces text = (entries.map render).flatMap Text.pieces
  rows : Text.pieces text = entries.map render ↔ ∀ e ∈ entries, Unbroken e
  count : (Text.pieces text).length = entries.length ↔ ∀ e ∈ entries, Unbroken e
  empty : text = "" ↔ entries = []

theorem Text.lists_joinLines {α : Type} {entries : List α} {render : α → String}
    {Unbroken : α → Prop} (filled : ∀ e, render e ≠ "")
    (unbroken : ∀ e, '\n' ∉ (render e).toList ↔ Unbroken e) :
    Lists (joinLines (entries.map render)) entries render Unbroken := by
  have texts : ∀ text ∈ entries.map render, text ≠ "" :=
    List.forall_mem_map.mpr fun e _ => filled e
  have all : (∀ text ∈ entries.map render, '\n' ∉ text.toList) ↔ ∀ e ∈ entries, Unbroken e := by
    simp only [List.forall_mem_map, unbroken]
  refine ⟨pieces_joinLines texts, ?_, ?_, ?_⟩
  · rw [pieces_joinLines texts, pieces_eq_iff texts, all]
  · rw [pieces_joinLines texts, ← all, ← length_pieces_eq_iff texts, List.length_map]
  · constructor
    · intro none
      by_contra more
      exact joinLines_ne texts (mt List.map_eq_nil_iff.mp more) none
    · rintro rfl
      rfl

namespace Snapshot

theorem render_of_getElem? (s : Snapshot) {i : Nat} {f : Frame} (here : s.frames[i]? = some f) :
    f.render = "#" ++ toString i ++ " " ++ f.location := by
  rw [frames, List.getElem?_mapIdx, Option.map_eq_some_iff] at here
  obtain ⟨e, -, rfl⟩ := here
  rfl

/-- The variables are listed in order, and so are the frames of the call stack, each beginning
with its index. An entry breaks when a text it shows has a line feed: a name, or a value that is
text. -/
theorem listings_by_line (s : Snapshot) :
    Text.Lists s.variablesText s.visibleVariables Variable.render Variable.Unbroken ∧
    Text.Lists s.stackText s.frames Frame.render Frame.Unbroken ∧
    s.frames.length = s.context.callStack.length ∧
    (∀ (i : Nat) (f : Frame), s.frames[i]? = some f →
      f.render = "#" ++ toString i ++ " " ++ f.location) ∧
    ∀ value : Value, '\n' ∈ value.print.toList →
      ∃ text, (value = .string text ∨ value = .opaqueText text) ∧ '\n' ∈ text.toList := by
  refine ⟨Text.lists_joinLines Variable.render_ne Variable.not_mem_render_iff,
    Text.lists_joinLines Frame.render_ne Frame.not_mem_render_iff, ?_,
    fun _ _ => s.render_of_getElem?, fun _ => Value.text_of_mem_print⟩
  rw [frames, List.length_mapIdx, List.length_reverse]

/-- The one variable and the one frame take two lines each. -/
theorem texts_break_listings :
    let bindings := Scope.ofBindings [("x", .string "a\nb")]
    let call : Expression := ⟨some ⟨some "f\ng", none⟩, none⟩
    let s : Snapshot := { expression := none, context := ⟨[bindings], [call], []⟩, depth := 1 }
    s.visibleVariables.length = 1 ∧ Text.pieces s.variablesText = ["x: String = 'a", "b'"] ∧
      s.frames.length = 1 ∧ Text.pieces s.stackText = ["#0 f", "g (unknown location)"] := by
  decide

end Snapshot
end Debugger
