import Debugger.Launch
import Debugger.Proofs.Text.Trimming

/-! Main statement: the texts that name a line are a source, a colon and a number behind the
last colon, and a printed location is such a text. -/
namespace Debugger

/-! ### Decimal numbers in a text -/

namespace Text
variable {bound value n : Nat} {text : List Char}

/-- Decimal digits with that value, at least one. -/
structure Digits (digits : List Char) (n : Nat) : Prop where
  filled : digits ≠ []
  decimal : ∀ c ∈ digits, c.isDigit
  value : Nat.ofDigitChars 10 digits 0 = n

/-- Decimal digits with that value, optionally after one plus sign. -/
def Denotes (text : List Char) (n : Nat) : Prop :=
  ∃ digits, (text = digits ∨ text = '+' :: digits) ∧ Digits digits n

theorem Digits.not_mem {digits : List Char} {c : Char} (number : Digits digits n)
    (other : c.isDigit = false) : c ∉ digits := by
  intro member
  rw [number.decimal c member] at other
  cases other

theorem le_ofDigitChars (digits : List Char) (value : Nat) :
    value ≤ Nat.ofDigitChars 10 digits value := by
  rw [Nat.ofDigitChars_eq_ofDigitChars_zero]
  exact (Nat.le_mul_of_pos_left value (Nat.pow_pos (by decide))).trans (Nat.le_add_right _ _)

/-- The value only grows from left to right, so the bound is passed somewhere exactly when the
whole number is too large. -/
theorem readDigits_eq_ok_iff (small : value ≤ bound) :
    readDigits bound value text = .ok n ↔
      (∀ c ∈ text, c.isDigit) ∧ Nat.ofDigitChars 10 text value = n ∧ n ≤ bound := by
  induction text generalizing value with
  | nil =>
      rw [readDigits, Nat.ofDigitChars_nil, Except.ok.injEq]
      constructor
      · rintro rfl
        exact ⟨fun c member => absurd member List.not_mem_nil, rfl, small⟩
      · exact fun ⟨_, same, _⟩ => same
  | cons c rest ih =>
      rw [readDigits, digit?, Nat.ofDigitChars_cons, List.forall_mem_cons, Nat.mul_comm 10 value]
      by_cases digit : c.isDigit
      case neg => simp [digit]
      case pos =>
        rw [if_pos digit]
        dsimp only
        split
        case isTrue fits => rw [ih fits, and_assoc, and_iff_right digit]
        case isFalse large =>
          have grows := le_ofDigitChars rest (value * 10 + (c.toNat - '0'.toNat))
          constructor
          · exact fun refused => nomatch refused
          · rintro ⟨-, rfl, fits⟩
            exact absurd (grows.trans fits) large

theorem readDigits_zero_eq_ok_iff (filled : text ≠ []) :
    readDigits bound 0 text = .ok n ↔ Digits text n ∧ n ≤ bound := by
  rw [readDigits_eq_ok_iff (Nat.zero_le bound)]
  constructor
  · exact fun ⟨decimal, value, fits⟩ => ⟨⟨filled, decimal, value⟩, fits⟩
  · exact fun ⟨⟨_, decimal, value⟩, fits⟩ => ⟨decimal, value, fits⟩

theorem denotes_plus_iff : Denotes ('+' :: text) n ↔ Digits text n := by
  constructor
  · rintro ⟨digits, rfl | plus, number⟩
    · exact absurd List.mem_cons_self (number.not_mem (by decide))
    · rwa [(List.cons.inj plus).2]
  · exact fun number => ⟨text, .inr rfl, number⟩

theorem denotes_iff_of_unsigned (unsigned : ∀ digits, text ≠ '+' :: digits) :
    Denotes text n ↔ Digits text n := by
  constructor
  · rintro ⟨digits, rfl | plus, number⟩
    · exact number
    · exact absurd plus (unsigned digits)
  · exact fun number => ⟨text, .inl rfl, number⟩

theorem readBounded_eq_ok_iff :
    readBounded bound text = .ok n ↔ Denotes text n ∧ n ≤ bound := by
  fun_cases readBounded bound text with
  | case1 =>
      rw [denotes_iff_of_unsigned (by simp)]
      exact iff_of_false (fun refused => nomatch refused) fun number => number.1.filled rfl
  | case2 =>
      rw [denotes_plus_iff]
      exact iff_of_false (fun refused => nomatch refused) fun number => number.1.filled rfl
  | case3 digits filled => rw [readDigits_zero_eq_ok_iff filled, denotes_plus_iff]
  | case4 _ filled _ unsigned =>
      rw [readDigits_zero_eq_ok_iff filled, denotes_iff_of_unsigned unsigned]

theorem digits_toString (n : Nat) : Digits (toString n).toList n := by
  rw [Nat.toString_eq_repr, Nat.toList_repr]
  exact ⟨Nat.toDigits_ne_nil, fun _ => Nat.isDigit_of_mem_toDigits (by decide) (by decide),
    Nat.ofDigitChars_ten_toDigits⟩

theorem isBlank_of_isDigit {c : Char} (digit : c.isDigit) : isBlank c = false := by
  obtain ⟨low, high⟩ : 48 ≤ c.toNat ∧ c.toNat ≤ 57 := Char.isDigit_iff_toNat.mp digit
  simp only [isBlank, blankRanges, List.any_cons, List.any_nil, Bool.or_false, Bool.or_eq_false_iff,
    Bool.and_eq_false_iff, decide_eq_false_iff_not]
  omega

theorem Digits.trimmed {digits : List Char} (number : Digits digits n) : Trimmed digits where
  first c here := isBlank_of_isDigit (number.decimal c (List.mem_of_mem_head? here))
  last c here := isBlank_of_isDigit (number.decimal c (List.mem_of_mem_getLast? here))

theorem trim_blanks_append {blanks : List Char} (blank : ∀ c ∈ blanks, isBlank c = true) :
    trim (blanks ++ text) = trim text := by
  rw [trim, trim, trimLeft, List.dropWhile_append_of_pos blank]
  rfl

end Text

namespace LineSpec
variable {spec source rest : List Char} {line : Nat}

/-- The text is a source, a colon, and a rest without colons that denotes the line. -/
def Names (spec source : List Char) (line : Nat) : Prop :=
  source ≠ [] ∧ line ≤ lineLimit ∧
    ∃ rest, spec = source ++ ':' :: rest ∧ ':' ∉ rest ∧ Text.Denotes (Text.trim rest) line

theorem splitLast_of_not_mem (plain : ':' ∉ spec) : splitLast spec = none := by
  induction spec with
  | nil => rfl
  | cons c spec ih =>
      obtain ⟨other, plain⟩ := not_or.mp (mt List.mem_cons.mpr plain)
      rw [splitLast, ih plain]
      exact if_neg (Ne.symm other)

theorem splitLast_append (plain : ':' ∉ rest) :
    splitLast (source ++ ':' :: rest) = some (source, rest) := by
  induction source with
  | nil => rw [List.nil_append, splitLast, splitLast_of_not_mem plain, if_pos rfl]
  | cons c source ih => rw [List.cons_append, splitLast, ih]

/-- A text has no colon, or it is split at its last one. -/
theorem splits (spec : List Char) :
    ':' ∉ spec ∨ ∃ source rest, spec = source ++ ':' :: rest ∧ ':' ∉ rest := by
  induction spec with
  | nil => exact .inl List.not_mem_nil
  | cons c spec ih =>
      obtain plain | ⟨source, rest, rfl, plain⟩ := ih
      · by_cases colon : c = ':'
        · exact .inr ⟨[], spec, by rw [colon]; rfl, plain⟩
        · exact .inl (mt List.mem_cons.mp (not_or.mpr ⟨Ne.symm colon, plain⟩))
      · exact .inr ⟨c :: source, rest, rfl, plain⟩

theorem ofChars_of_not_mem (plain : ':' ∉ spec) : ofChars spec = .error .noColon := by
  rw [ofChars, splitLast_of_not_mem plain]

theorem ofChars_append (plain : ':' ∉ rest) : ofChars (source ++ ':' :: rest) =
    match Text.readBounded lineLimit (Text.trim rest) with
    | .error fault => .error (.number fault)
    | .ok line => if source.isEmpty then .error .noSource else .ok (source, line) := by
  cases number : Text.readBounded lineLimit (Text.trim rest) <;>
    simp only [ofChars, splitLast_append plain, number]

theorem ofChars_of_denotes (plain : ':' ∉ rest) (denotes : Text.Denotes (Text.trim rest) line)
    (small : line ≤ lineLimit) : ofChars (source ++ ':' :: rest) =
      if source = [] then .error .noSource else .ok (source, line) := by
  rw [ofChars_append plain, Text.readBounded_eq_ok_iff.mpr ⟨denotes, small⟩]
  simp only [List.isEmpty_iff]

/-- What does not denote a line number is refused, whatever stands before it. -/
theorem ofChars_of_not_denotes (source : List Char) (plain : ':' ∉ rest)
    (other : ∀ line ≤ lineLimit, ¬ Text.Denotes (Text.trim rest) line) :
    ∃ fault, ofChars (source ++ ':' :: rest) = .error (.number fault) := by
  rw [ofChars_append plain]
  cases read : Text.readBounded lineLimit (Text.trim rest) with
  | error fault => exact ⟨fault, rfl⟩
  | ok line =>
      obtain ⟨denotes, small⟩ := Text.readBounded_eq_ok_iff.mp read
      exact absurd denotes (other line small)

theorem ofChars_eq_ok_iff : ofChars spec = .ok (source, line) ↔ Names spec source line := by
  constructor
  · intro read
    obtain plain | ⟨before, rest, rfl, plain⟩ := splits spec
    · rw [ofChars_of_not_mem plain] at read
      cases read
    · by_cases number : ∃ line ≤ lineLimit, Text.Denotes (Text.trim rest) line
      case neg =>
        obtain ⟨fault, refused⟩ := ofChars_of_not_denotes before plain
          fun line small denotes => number ⟨line, small, denotes⟩
        rw [refused] at read
        cases read
      case pos =>
        obtain ⟨number, small, denotes⟩ := number
        rw [ofChars_of_denotes plain denotes small] at read
        split at read
        case isTrue => cases read
        case isFalse filled =>
          cases read
          exact ⟨filled, small, rest, rfl, plain, denotes⟩
  · rintro ⟨filled, small, rest, rfl, plain, denotes⟩
    rw [ofChars_of_denotes plain denotes small, if_neg filled]

theorem refused_iff :
    (∀ source line, ¬ Names spec source line) ↔ ∃ fault, ofChars spec = .error fault := by
  constructor
  · intro unnamed
    cases read : ofChars spec with
    | error fault => exact ⟨fault, rfl⟩
    | ok named => exact absurd (ofChars_eq_ok_iff.mp read) (unnamed named.1 named.2)
  · rintro ⟨fault, refused⟩ source line named
    rw [ofChars_eq_ok_iff.mpr named] at refused
    cases refused

/-- Blanks around the number do not matter. -/
theorem names_padded (before after : List Char) (filled : source ≠ []) (small : line ≤ lineLimit)
    (blank : ∀ c ∈ before ++ after, Text.isBlank c = true) :
    Names (source ++ ':' :: (before ++ (toString line).toList ++ after)) source line := by
  obtain ⟨left, right⟩ := List.forall_mem_append.mp blank
  have number := Text.digits_toString line
  refine ⟨filled, small, _, rfl, ?_, (toString line).toList, .inl ?_, number⟩
  · intro member
    obtain member | member := List.mem_append.mp member
    · obtain member | member := List.mem_append.mp member
      · exact absurd (left _ member) (by decide)
      · exact number.not_mem (by decide) member
    · exact absurd (right _ member) (by decide)
  · rw [Text.trim_append_blanks right, Text.trim_blanks_append left,
      Text.trim_of_trimmed number.trimmed]

theorem names_render {location : Source} (filled : location.id ≠ "")
    (small : location.line ≤ lineLimit) :
    Names location.render.toList location.id.toList location.line := by
  have bare := names_padded [] [] (mt String.toList_eq_nil_iff.mp filled) small
    fun c member => absurd member List.not_mem_nil
  rw [List.nil_append, List.append_nil, List.append_cons] at bare
  rw [Source.render, String.toList_append, String.toList_append]
  exact bare

theorem readLineBreaks_render {location : Source} (filled : location.id ≠ "")
    (small : location.line ≤ lineLimit) :
    Launch.readLineBreaks [location.render] = .ok [.line location.id location.line] := by
  rw [Launch.readLineBreaks, ofChars_eq_ok_iff.mpr (names_render filled small)]
  exact congrArg (fun id => Except.ok [Breakpoint.Kind.line id location.line]) String.ofList_toList

end LineSpec

/-- The texts that are read as a line of a source are the ones that name it, every other text
is refused for what it lacks, and blanks around the number are ignored. A printed location is
read as its source and the line it is reported at. The breakpoint made of it matches the calls
at that location exactly when the line lies in the location's range. -/
theorem LineSpec.reads_named_lines :
    (∀ spec source line, ofChars spec = .ok (source, line) ↔ Names spec source line) ∧
    (∀ spec, (∀ source line, ¬ Names spec source line) ↔ ∃ fault, ofChars spec = .error fault) ∧
    (∀ spec, ':' ∉ spec → ofChars spec = .error .noColon) ∧
    (∀ source rest, ':' ∉ rest → (∀ line ≤ lineLimit, ¬ Text.Denotes (Text.trim rest) line) →
      ∃ fault, ofChars (source ++ ':' :: rest) = .error (.number fault)) ∧
    (∀ rest, ∀ line ≤ lineLimit, ':' ∉ rest → Text.Denotes (Text.trim rest) line →
      ofChars (':' :: rest) = .error .noSource) ∧
    (∀ source, source ≠ [] → ∀ line ≤ lineLimit, ∀ before after,
      (∀ c ∈ before ++ after, Text.isBlank c = true) →
      ofChars (source ++ ':' :: (before ++ (toString line).toList ++ after)) =
        .ok (source, line)) ∧
    ∀ location : Source, location.id ≠ "" → location.line ≤ lineLimit →
      Launch.readLineBreaks [location.render] = .ok [.line location.id location.line] ∧
      ∀ function, (Breakpoint.Kind.line location.id location.line).matches
          ⟨some location, function⟩ = true ↔
        location.first ≤ location.line ∧ location.line ≤ location.last := by
  refine ⟨fun _ _ _ => ofChars_eq_ok_iff, fun _ => refused_iff, fun _ => ofChars_of_not_mem,
    fun source _ => ofChars_of_not_denotes source, fun rest line small plain denotes => ?_,
    fun source filled line small before after blank => ?_, fun location filled small => ⟨?_, ?_⟩⟩
  · have refused : ofChars ([] ++ ':' :: rest) = _ := ofChars_of_denotes plain denotes small
    exact refused.trans (if_pos rfl)
  · exact ofChars_eq_ok_iff.mpr (names_padded before after filled small blank)
  · exact readLineBreaks_render filled small
  · simp only [Breakpoint.Kind.matches, Source.containsLine, decide_true, Bool.true_and,
      Bool.and_eq_true, decide_eq_true_eq, implies_true]

/-- The source has a colon of its own, and the number a sign, a zero and blanks. The location
is reported at a line before its range, so the breakpoint made of it misses the location. -/
theorem LineSpec.reads_named_lines_drive_letter :
    let location : Source := ⟨"c:/x.src", 5, 3, 9⟩
    ofChars "c:/x.src: +03\t".toList = .ok ("c:/x.src".toList, 3) ∧
      ofChars "c:/x.src".toList = .error (.number .invalidDigit) ∧
      location.id ≠ "" ∧ location.line ≤ lineLimit ∧
      Launch.readLineBreaks [location.render] = .ok [.line "c:/x.src" 3] ∧
      (Breakpoint.Kind.line "c:/x.src" 3).matches ⟨some location, none⟩ = false := by
  intro location
  have filled : location.id ≠ "" := by decide
  have small : location.line ≤ lineLimit := by decide
  obtain ⟨accepted, -, -, -, -, -, printed⟩ := LineSpec.reads_named_lines
  obtain ⟨read, -⟩ := printed location filled small
  have named : Names "c:/x.src: +03\t".toList "c:/x.src".toList 3 :=
    ⟨by decide, by decide, " +03\t".toList, by decide, by decide, "03".toList,
      .inr (by decide), by decide, List.all_eq_true.mp (by decide), by decide⟩
  exact ⟨(accepted _ _ _).mpr named, by decide, filled, small, read, by decide⟩

end Debugger
