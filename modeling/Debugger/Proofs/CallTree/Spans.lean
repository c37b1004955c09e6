import Debugger.Proofs.Toml.Formats

/-! Spans as tables. Main statement: a table is read as a span exactly if it has the format of one
and names a file and a line. The span then has what is written, and nothing for an end that is
not. -/
namespace Debugger.Span
open Toml (Conforms Format Owns fill)

def format : Format :=
  [("file", Toml.Value.IsText), ("line", Toml.Value.IsNumber lineLimit),
   ("start_line", Toml.Value.IsNumber lineLimit), ("end_line", Toml.Value.IsNumber lineLimit)]

/-- A table in the format of a span, with the two keys that have to be there. -/
def WellFormed (value : Toml.Value) : Prop :=
  ∃ entries, value = .table entries ∧ Conforms format entries ∧
    "file" ∈ entries.map (·.1) ∧ "line" ∈ entries.map (·.1)

/-- The span has what the table writes, and no end of its range that is not written. -/
structure Mirrors (s : Span) (entries : List (String × Toml.Value)) : Prop where
  file : entries.lookup "file" = some (.string s.file)
  line : entries.lookup "line" = some (.integer s.line)
  first : entries.lookup "start_line" = s.first.map fun n : Nat => .integer n
  last : entries.lookup "end_line" = s.last.map fun n : Nat => .integer n

namespace Partial
variable {s taken : Partial} {key : String} {value : Toml.Value} {span : Span}

theorem add_cases (read : s.add key value = .ok taken) :
    (key = "file" ∧ ∃ file, value = .string file ∧ taken = { s with file := some file }) ∨
    (key = "line" ∧ ∃ n : Nat, n ≤ lineLimit ∧ value = .integer n ∧
      taken = { s with line := some n }) ∨
    (key = "start_line" ∧ ∃ n : Nat, n ≤ lineLimit ∧ value = .integer n ∧
      taken = { s with first := some n }) ∨
    (key = "end_line" ∧ ∃ n : Nat, n ≤ lineLimit ∧ value = .integer n ∧
      taken = { s with last := some n }) := by
  rw [add.eq_def] at read
  split at read
  · obtain ⟨file, text, rfl⟩ := Toml.ok_of_map read
    exact .inl ⟨rfl, file, Toml.Value.asText_eq_ok_iff.mp text, rfl⟩
  · obtain ⟨n, number, rfl⟩ := Toml.ok_of_map read
    obtain ⟨within, same⟩ := Toml.Value.asNumber_eq_ok_iff.mp number
    exact .inr (.inl ⟨rfl, n, within, same, rfl⟩)
  · obtain ⟨n, number, rfl⟩ := Toml.ok_of_map read
    obtain ⟨within, same⟩ := Toml.Value.asNumber_eq_ok_iff.mp number
    exact .inr (.inr (.inl ⟨rfl, n, within, same, rfl⟩))
  · obtain ⟨n, number, rfl⟩ := Toml.ok_of_map read
    obtain ⟨within, same⟩ := Toml.Value.asNumber_eq_ok_iff.mp number
    exact .inr (.inr (.inr ⟨rfl, n, within, same, rfl⟩))
  · exact nomatch read

/-- Each part of a span has a key of its own. -/
theorem owns : Owns add "file" file ∧ Owns add "line" line ∧ Owns add "start_line" first ∧
    Owns add "end_line" last := by
  refine ⟨?_, ?_, ?_, ?_⟩ <;> intro s taken key value other read <;>
    obtain ⟨here, _, -, rfl⟩ | ⟨here, _, -, -, rfl⟩ | ⟨here, _, -, -, rfl⟩ |
      ⟨here, _, -, -, rfl⟩ := add_cases read <;>
    first | rfl | exact absurd here other

/-- An entry is taken exactly if the format has its key and shape. -/
theorem exists_add_iff : (∃ taken, s.add key value = .ok taken) ↔
    ∃ shape, (key, shape) ∈ format ∧ shape value := by
  constructor
  · rintro ⟨taken, read⟩
    obtain ⟨rfl, file, same, -⟩ | ⟨rfl, n, within, same, -⟩ | ⟨rfl, n, within, same, -⟩ |
      ⟨rfl, n, within, same, -⟩ := add_cases read
    · exact ⟨Toml.Value.IsText, by simp [format], file, same⟩
    all_goals exact ⟨Toml.Value.IsNumber lineLimit, by simp [format], n, within, same⟩
  · rintro ⟨shape, known, shaped⟩
    simp only [format, List.mem_cons, Prod.mk.injEq, List.not_mem_nil, or_false] at known
    obtain ⟨rfl, rfl⟩ | ⟨rfl, rfl⟩ | ⟨rfl, rfl⟩ | ⟨rfl, rfl⟩ := known
    · obtain ⟨file, rfl⟩ := shaped
      exact ⟨{ s with file := some file }, rfl⟩
    all_goals
      obtain ⟨n, within, rfl⟩ := shaped
      have number := Toml.Value.asNumber_eq_ok_iff.mpr ⟨within, rfl⟩
      exact ⟨_, congrArg (Except.map _) number⟩

theorem finish_eq_ok_iff : s.finish = .ok span ↔
    s = ⟨some span.file, some span.line, span.first, span.last⟩ := by
  obtain ⟨_ | file, _ | line, first, last⟩ := s <;> obtain ⟨file, line, first, last⟩ := span <;>
    simp [finish]

variable {entries : List (String × Toml.Value)}

/-- The parts of a span are what is written under their keys. -/
structure WrittenIn (entries : List (String × Toml.Value)) (s : Partial) : Prop where
  file : entries.lookup "file" = s.file.map .string
  line : entries.lookup "line" = s.line.map fun n : Nat => .integer n
  first : entries.lookup "start_line" = s.first.map fun n : Nat => .integer n
  last : entries.lookup "end_line" = s.last.map fun n : Nat => .integer n

theorem writtenIn_of_fill (nodup : (entries.map (·.1)).Nodup)
    (filled : fill add {} entries = .ok s) : s.WrittenIn entries := by
  have number {key : String} {part : Partial → Option Nat} {set : Partial → Nat → Partial}
      (owns : Owns add key part) (start : part {} = none)
      (adds : ∀ before value, add before key value = (value.asNumber lineLimit).map (set before))
      (sets : ∀ before n, part (set before n) = some n) :
      entries.lookup key = (part s).map fun n : Nat => .integer n := by
    refine Toml.lookup_part
      (P := fun found given => found = given.map fun n : Nat => .integer n)
      owns nodup filled (by rw [start]; rfl) fun before after value _ taken => ?_
    rw [adds] at taken
    obtain ⟨n, read, rfl⟩ := Toml.ok_of_map taken
    rw [sets, (Toml.Value.asNumber_eq_ok_iff.mp read).2, Option.map_some]
  obtain ⟨file, line, first, last⟩ := owns
  refine ⟨?_, ?_, ?_, ?_⟩
  · refine Toml.lookup_part (P := fun found given => found = given.map .string)
      file nodup filled rfl fun before after value _ taken => ?_
    obtain ⟨text, read, rfl⟩ := Toml.ok_of_map taken
    exact congrArg some (Toml.Value.asText_eq_ok_iff.mp read)
  · exact number line rfl (fun _ _ => rfl) fun _ _ => rfl
  · exact number first rfl (fun _ _ => rfl) fun _ _ => rfl
  · exact number last rfl (fun _ _ => rfl) fun _ _ => rfl

end Partial

variable {entries : List (String × Toml.Value)} {s : Span}

theorem ofValue_table_iff : ofValue (.table entries) = .ok s ↔
    fill Partial.add {} entries = .ok ⟨some s.file, some s.line, s.first, s.last⟩ := by
  constructor
  · intro read
    obtain ⟨filled, all, finished⟩ := Toml.ok_of_bind read
    exact Partial.finish_eq_ok_iff.mp finished ▸ all
  · intro filled
    change (fill Partial.add {} entries >>= Partial.finish) = .ok s
    rw [filled]
    rfl

/-- A span that is read is the one that is written. -/
theorem mirrors_of_ofValue (nodup : (entries.map (·.1)).Nodup)
    (read : ofValue (.table entries) = .ok s) : s.Mirrors entries := by
  obtain ⟨file, line, first, last⟩ := Partial.writtenIn_of_fill nodup (ofValue_table_iff.mp read)
  exact ⟨file, line, first, last⟩

theorem exists_ofValue_iff (nodup : (entries.map (·.1)).Nodup) :
    (∃ s, ofValue (.table entries) = .ok s) ↔ WellFormed (.table entries) := by
  constructor
  · rintro ⟨s, read⟩
    refine ⟨entries, rfl, fun entry member => ?_, ?_, ?_⟩
    · obtain ⟨before, taken⟩ := Toml.taken_of_fill (ofValue_table_iff.mp read) entry member
      exact Partial.exists_add_iff.mp taken
    · rw [← Toml.isSome_lookup_iff, (mirrors_of_ofValue nodup read).file]
      rfl
    · rw [← Toml.isSome_lookup_iff, (mirrors_of_ofValue nodup read).line]
      rfl
  · rintro ⟨_, ⟨⟩, conforms, fileKey, lineKey⟩
    obtain ⟨filled, all⟩ := Toml.exists_fill
      (fun entry member _ => Partial.exists_add_iff.mpr (conforms entry member)) {}
    obtain ⟨file, line, -, -⟩ := Partial.writtenIn_of_fill nodup all
    rw [← Toml.isSome_lookup_iff, file, Option.isSome_map, Option.isSome_iff_exists] at fileKey
    rw [← Toml.isSome_lookup_iff, line, Option.isSome_map, Option.isSome_iff_exists] at lineKey
    obtain ⟨text, hasFile⟩ := fileKey
    obtain ⟨n, hasLine⟩ := lineKey
    refine ⟨⟨text, n, filled.first, filled.last⟩, ofValue_table_iff.mpr ?_⟩
    rw [all, ← hasFile, ← hasLine]

end Debugger.Span
