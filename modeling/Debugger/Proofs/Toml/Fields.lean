import Debugger.Proofs.Toml.Keys

/-! Records that take up entry after entry, where each part of the record is changed by the
entries under one key only. As no key stands twice, the part is what the one entry made it. -/
namespace Debugger.Toml
variable {σ β : Type} {take : σ → String → Value → Except DocumentFault σ} {part : σ → β}
variable {key : String} {value : Value} {entries : List (String × Value)} {s filled : σ}

def fill (take : σ → String → Value → Except DocumentFault σ) (s : σ)
    (entries : List (String × Value)) : Except DocumentFault σ :=
  entries.foldlM (fun s entry => take s entry.1 entry.2) s

/-- The key that a part of a record belongs to. -/
def Owns (take : σ → String → Value → Except DocumentFault σ) (key : String) (part : σ → β) :
    Prop :=
  ∀ (s taken : σ) (other : String) (value : Value), other ≠ key →
    take s other value = .ok taken → part taken = part s

theorem fill_cons {entry : String × Value} (read : fill take s (entry :: entries) = .ok filled) :
    ∃ taken, take s entry.1 entry.2 = .ok taken ∧ fill take taken entries = .ok filled := by
  rw [fill, List.foldlM_cons] at read
  exact ok_of_bind read

theorem part_of_absent (owns : Owns take key part) (absent : key ∉ entries.map (·.1))
    (read : fill take s entries = .ok filled) : part filled = part s := by
  induction entries generalizing s with
  | nil => exact congrArg part (Except.ok.inj read).symm
  | cons entry rest ih =>
      rw [List.map_cons, List.mem_cons, not_or] at absent
      obtain ⟨taken, first, others⟩ := fill_cons read
      exact (ih absent.2 others).trans (owns s taken _ _ (Ne.symm absent.1) first)

/-- With its key written once, a part is as that entry left it. -/
theorem part_of_mem (owns : Owns take key part) (nodup : (entries.map (·.1)).Nodup)
    (member : (key, value) ∈ entries) (read : fill take s entries = .ok filled) :
    ∃ before after, take before key value = .ok after ∧ part filled = part after := by
  induction entries generalizing s with
  | nil => exact absurd member List.not_mem_nil
  | cons entry rest ih =>
      rw [List.map_cons, List.nodup_cons] at nodup
      obtain ⟨taken, first, others⟩ := fill_cons read
      obtain rfl | later := List.mem_cons.mp member
      · exact ⟨s, taken, first, part_of_absent owns nodup.1 others⟩
      · exact ih nodup.2 later others

theorem isSome_lookup_iff : (entries.lookup key).isSome ↔ key ∈ entries.map (·.1) := by
  rw [List.lookup_isSome_iff]
  refine ⟨?_, fun member => ?_⟩
  · rintro ⟨entry, member, same⟩
    exact eq_of_beq same ▸ List.mem_map_of_mem member
  · obtain ⟨entry, among, rfl⟩ := List.mem_map.mp member
    exact ⟨entry, among, beq_self_eq_true _⟩

/-- What holds of a part that was left as it was, and of one that an entry under its key set,
holds of the part and what is written for it. -/
theorem lookup_part {P : Option Value → β → Prop} (owns : Owns take key part)
    (nodup : (entries.map (·.1)).Nodup) (read : fill take s entries = .ok filled)
    (absent : P none (part s))
    (written : ∀ before after value, (key, value) ∈ entries →
      take before key value = .ok after → P (some value) (part after)) :
    P (entries.lookup key) (part filled) := by
  cases found : entries.lookup key with
  | none =>
      have missing : key ∉ entries.map (·.1) := fun member => by
        simpa [found] using isSome_lookup_iff.mpr member
      exact part_of_absent owns missing read ▸ absent
  | some value =>
      have member : (key, value) ∈ entries := by
        obtain ⟨first, rest, rfl, -⟩ := List.lookup_eq_some_iff.mp found
        exact List.mem_append_right _ List.mem_cons_self
      obtain ⟨before, after, taken, same⟩ := part_of_mem owns nodup member read
      exact same ▸ written before after value member taken

/-- Every entry was taken, at some point. -/
theorem taken_of_fill (read : fill take s entries = .ok filled) :
    ∀ entry ∈ entries, ∃ before after, take before entry.1 entry.2 = .ok after := by
  induction entries generalizing s with
  | nil => simp
  | cons entry rest ih =>
      obtain ⟨taken, first, others⟩ := fill_cons read
      exact List.forall_mem_cons.mpr ⟨⟨s, taken, first⟩, ih others⟩

theorem exists_fill (takes : ∀ entry ∈ entries, ∀ s, ∃ taken, take s entry.1 entry.2 = .ok taken)
    (s : σ) : ∃ filled, fill take s entries = .ok filled := by
  induction entries generalizing s with
  | nil => exact ⟨s, rfl⟩
  | cons entry rest ih =>
      obtain ⟨first, others⟩ := List.forall_mem_cons.mp takes
      obtain ⟨taken, read⟩ := first s
      obtain ⟨filled, more⟩ := ih others taken
      refine ⟨filled, ?_⟩
      rw [fill, List.foldlM_cons, read]
      exact more

theorem zip_keys_sublist (keys : List String) (items : List Value) :
    ((keys.zip items).map (·.1)).Sublist keys := by
  induction keys generalizing items with
  | nil => exact List.Sublist.refl []
  | cons key rest ih =>
      cases items with
      | nil => exact List.nil_sublist _
      | cons item items => exact (ih items).cons_cons key

/-- Items that take the keys of an array stand under different keys. -/
theorem distinct_zip {P : Value → Prop} {keys : List String} (nodup : keys.Nodup)
    {items : List Value} (each : ∀ item ∈ items, P item) : Distinct P (keys.zip items) where
  nodup := (zip_keys_sublist keys items).nodup nodup
  each entry member := each entry.2 (List.of_mem_zip member).2

/-- The keys of a record with what is written for them; the items of an array take the keys
from the left. -/
def Value.fields (keys : List String) : Value → List (String × Value)
  | .table entries => entries
  | .array items => keys.zip items
  | _ => []

theorem Value.Keyed.fields {keys : List String} (nodup : keys.Nodup) (keyed : value.Keyed) :
    Distinct Value.Keyed (value.fields keys) := by
  cases keyed with
  | scalar scalar =>
      have none : value.fields keys = [] := by
        cases value with
        | table | array => exact nomatch scalar
        | _ => rfl
      exact none ▸ .nil
  | array each => exact distinct_zip nodup each
  | table nodup each => exact ⟨nodup, each⟩

end Debugger.Toml
