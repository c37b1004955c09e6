import Debugger.Config.Document
import Debugger.Proofs.Toml.Formats

/-! The preview budget of settings that are read: the one that is given, or else the default,
and never too small to show a character before the ellipsis. -/
namespace Debugger

namespace Config

/-- The text has the value for the preview budget. -/
def Gives (read : Toml.DocumentReader) (text : String) (value : Toml.Value) : Prop :=
  ∃ entries table, read text = .ok entries ∧ ("debug", table) ∈ entries ∧
    ("preview_length", value) ∈ table.fields Section.keys

namespace Section
variable {s taken : Section} {key : String} {value table : Toml.Value}

/-- Each key sets one part of the settings. -/
theorem add_cases (read : s.add key value = .ok taken) :
    (∃ listenerFailure, taken = { s with listenerFailure }) ∨ (∃ trace, taken = { s with trace }) ∨
      key = "preview_length" ∧ ∃ length, value.asNumber lengthLimit = .ok length ∧
        taken = { s with previewLength := some length } := by
  rw [add.eq_def] at read
  split at read
  · obtain ⟨length, number, rfl⟩ := Toml.ok_of_map read
    exact .inr (.inr ⟨rfl, length, number, rfl⟩)
  · obtain ⟨policy, -, rfl⟩ := Toml.ok_of_map read
    exact .inl ⟨policy, rfl⟩
  · obtain ⟨trace, -, rfl⟩ := Toml.ok_of_map read
    exact .inr (.inl ⟨trace, rfl⟩)
  · exact nomatch read

theorem owns_previewLength : Toml.Owns add "preview_length" Section.previewLength := by
  intro s taken key value other read
  obtain ⟨_, rfl⟩ | ⟨_, rfl⟩ | ⟨here, -⟩ := add_cases read
  · rfl
  · rfl
  · exact absurd here other

theorem filled_of_ofValue (read : ofValue table = .ok s) :
    Toml.fill add {} (table.fields keys) = .ok s := by
  cases table with
  | table entries => exact read
  | array items =>
      rw [ofValue] at read
      split at read
      · exact nomatch read
      · exact read
  | _ => exact nomatch read

/-- The number is the one that was written, as no key of a table stands twice. -/
theorem previewLength_of_mem (keyed : table.Keyed) (read : ofValue table = .ok s)
    (member : ("preview_length", value) ∈ table.fields keys) :
    ∃ length : Nat, value = .integer length ∧ s.previewLength = some length := by
  obtain ⟨before, after, taken, part⟩ := Toml.part_of_mem owns_previewLength
    (keyed.fields (by decide)).nodup member (filled_of_ofValue read)
  rw [add] at taken
  obtain ⟨length, number, rfl⟩ := Toml.ok_of_map taken
  exact ⟨length, (Toml.Value.asNumber_eq_ok_iff.mp number).2, part⟩

theorem previewLength_of_absent (read : ofValue table = .ok s)
    (absent : ∀ value, ("preview_length", value) ∉ table.fields keys) :
    s.previewLength = none := by
  refine Toml.part_of_absent owns_previewLength (fun member => ?_) (filled_of_ofValue read)
  obtain ⟨entry, among, same⟩ := List.mem_map.mp member
  exact absent entry.2 (same ▸ among)

theorem of_ofEntries {entries : List (String × Toml.Value)} {found : Option Section}
    (nodup : (entries.map (·.1)).Nodup) (read : ofEntries entries = .ok found) :
    (∀ table, ("debug", table) ∈ entries → ∃ s, found = some s ∧ ofValue table = .ok s) ∧
      ("debug" ∉ entries.map (·.1) → found = none) := by
  induction entries with
  | nil => exact ⟨fun _ member => absurd member List.not_mem_nil, fun _ =>
      (Except.ok.inj read).symm⟩
  | cons entry rest ih =>
      obtain ⟨key, value⟩ := entry
      rw [List.map_cons, List.nodup_cons] at nodup
      rw [ofEntries] at read
      split at read
      · rename_i here
        subst here
        obtain ⟨s, settings, read⟩ := Toml.ok_of_bind read
        obtain ⟨_, -, read⟩ := Toml.ok_of_bind read
        obtain rfl := Except.ok.inj read
        refine ⟨fun table member => ⟨s, rfl, ?_⟩, fun absent => absurd List.mem_cons_self absent⟩
        obtain same | later := List.mem_cons.mp member
        · exact (Prod.mk.inj same).2 ▸ settings
        · exact absurd (List.mem_map_of_mem later) nodup.1
      · rename_i other
        obtain ⟨_, -, read⟩ := Toml.ok_of_bind read
        obtain ⟨present, absent⟩ := ih nodup.2 read
        refine ⟨fun table member => present table ?_, fun missing => absent fun member =>
          missing (List.mem_cons_of_mem key member)⟩
        obtain same | later := List.mem_cons.mp member
        · exact absurd (Prod.mk.inj same).1.symm other
        · exact later

end Section

theorem ofSection_budget {s : Section} {config : Config} (accepted : ofSection s = .ok config) :
    config.previewLength = s.previewLength.getD Preview.defaultLength ∧
      minPreviewLength ≤ config.previewLength := by
  rw [ofSection] at accepted
  split at accepted
  · exact nomatch accepted
  · rename_i enough
    split at accepted
    · obtain rfl := Except.ok.inj accepted
      exact ⟨rfl, Nat.le_of_not_lt enough⟩
    · split at accepted
      · exact nomatch accepted
      · obtain rfl := Except.ok.inj accepted
        exact ⟨rfl, Nat.le_of_not_lt enough⟩

/-- The budget is the one that the text gives, or the default, and leaves room for a character
before the ellipsis. -/
structure Budget (read : Toml.DocumentReader) (text : String) (budget : Nat) : Prop where
  given : ∀ value, Gives read text value → value = .integer budget
  default : (∀ value, ¬ Gives read text value) → budget = Preview.defaultLength
  enough : minPreviewLength ≤ budget

theorem budget_of_ofDocument (reader : Toml.Reader) {text : String} {config : Config}
    (accepted : ofDocument reader.read text = .ok config) :
    Budget reader.read text config.previewLength := by
  rw [ofDocument] at accepted
  split at accepted
  · exact nomatch accepted
  · rename_i read
    obtain rfl := Except.ok.inj accepted
    obtain ⟨entries, document, sections⟩ := Toml.ok_of_bind read
    obtain ⟨present, -⟩ := Section.of_ofEntries (reader.distinct document).nodup sections
    refine ⟨?_, fun _ => rfl, by decide⟩
    rintro value ⟨others, table, again, debug, -⟩
    obtain rfl := Except.ok.inj (document.symm.trans again)
    obtain ⟨s, found, -⟩ := present table debug
    exact nomatch found
  · rename_i s read
    split at accepted
    · exact nomatch accepted
    · rename_i config checked
      obtain rfl := Except.ok.inj accepted
      obtain ⟨budget, enough⟩ := ofSection_budget checked
      obtain ⟨entries, document, sections⟩ := Toml.ok_of_bind read
      have distinct := reader.distinct document
      obtain ⟨present, absent⟩ := Section.of_ofEntries distinct.nodup sections
      refine ⟨?_, fun none => ?_, enough⟩
      · rintro value ⟨others, table, again, debug, length⟩
        obtain rfl := Except.ok.inj (document.symm.trans again)
        obtain ⟨s', found, settings⟩ := present table debug
        obtain rfl := Option.some.inj found
        obtain ⟨n, rfl, part⟩ :=
          Section.previewLength_of_mem (distinct.each _ debug) settings length
        rw [budget, part]
        rfl
      · by_cases missing : "debug" ∈ entries.map (·.1)
        · obtain ⟨⟨key, table⟩, debug, rfl⟩ := List.mem_map.mp missing
          obtain ⟨s', found, settings⟩ := present table debug
          obtain rfl := Option.some.inj found
          have length := Section.previewLength_of_absent settings fun value member =>
            none value ⟨entries, table, document, debug, member⟩
          rw [budget, length]
          rfl
        · exact nomatch absent missing

end Config
end Debugger
