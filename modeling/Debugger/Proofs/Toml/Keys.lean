import Debugger.Toml.Reader

/-! Main statement: in a document that is read no table has a key twice, however deep it
stands. Every way to change a table while a document is read keeps its keys apart, and
closing the tables in the end only reorders them. -/
namespace Debugger.Toml

theorem ok_of_bind {α β : Type} {found : Except DocumentFault α}
    {next : α → Except DocumentFault β} {b : β} (read : found >>= next = .ok b) :
    ∃ a, found = .ok a ∧ next a = .ok b := by
  cases found with
  | error fault => exact nomatch read
  | ok a => exact ⟨a, rfl, read⟩

theorem ok_of_map {α β : Type} {found : Except DocumentFault α} {f : α → β} {b : β}
    (read : found.map f = .ok b) : ∃ a, found = .ok a ∧ f a = b := by
  cases found with
  | error fault => exact nomatch read
  | ok a => exact ⟨a, rfl, Except.ok.inj read⟩

/-- No key stands twice, and what stands under the keys has the property. -/
structure Distinct {α : Type} (P : α → Prop) (entries : List (String × α)) : Prop where
  nodup : (entries.map (·.1)).Nodup
  each : ∀ entry ∈ entries, P entry.2

def Value.isScalar : Value → Bool
  | .array _ | .table _ => false
  | _ => true

/-- No table within the value has a key twice. -/
inductive Value.Keyed : Value → Prop
  | scalar {value : Value} (scalar : value.isScalar) : Value.Keyed value
  | array {items : List Value} (each : ∀ item ∈ items, Value.Keyed item) :
      Value.Keyed (.array items)
  | table {entries : List (String × Value)} (nodup : (entries.map (·.1)).Nodup)
      (each : ∀ entry ∈ entries, Value.Keyed entry.2) : Value.Keyed (.table entries)

inductive Draft.Keyed : Draft → Prop
  | closed {value : Value} (keyed : value.Keyed) : Draft.Keyed (.closed value)
  | table {origin : Origin} {entries : Entries} (nodup : (entries.map (·.1)).Nodup)
      (each : ∀ entry ∈ entries, Draft.Keyed entry.2) : Draft.Keyed (.table origin entries)
  | tables {elements : List Entries}
      (nodup : ∀ entries ∈ elements, (entries.map (·.1)).Nodup)
      (each : ∀ entries ∈ elements, ∀ entry ∈ entries, Draft.Keyed entry.2) :
      Draft.Keyed (.tables elements)

theorem Value.keyed_table_iff {entries : List (String × Value)} :
    Value.Keyed (.table entries) ↔ Distinct Value.Keyed entries := by
  refine ⟨fun keyed => ?_, fun distinct => .table distinct.nodup distinct.each⟩
  cases keyed with
  | scalar scalar => exact nomatch scalar
  | table nodup each => exact ⟨nodup, each⟩

theorem Draft.keyed_table_iff {origin : Origin} {entries : Entries} :
    Draft.Keyed (.table origin entries) ↔ Distinct Draft.Keyed entries := by
  refine ⟨fun keyed => ?_, fun distinct => .table distinct.nodup distinct.each⟩
  cases keyed with
  | table nodup each => exact ⟨nodup, each⟩

theorem Draft.keyed_tables_iff {elements : List Entries} :
    Draft.Keyed (.tables elements) ↔ ∀ entries ∈ elements, Distinct Draft.Keyed entries := by
  refine ⟨fun keyed entries member => ?_, fun distinct => ?_⟩
  · cases keyed with
    | tables nodup each => exact ⟨nodup entries member, each entries member⟩
  · exact .tables (fun entries member => (distinct entries member).nodup)
      fun entries member => (distinct entries member).each

namespace Distinct
variable {α : Type} {P : α → Prop} {entries : List (String × α)}

theorem nil : Distinct P [] :=
  ⟨List.nodup_nil, by simp⟩

theorem of_perm {others : List (String × α)} (distinct : Distinct P entries)
    (order : others.Perm entries) : Distinct P others where
  nodup := (order.map (·.1)).nodup_iff.mpr distinct.nodup
  each entry member := distinct.each entry (order.mem_iff.mp member)

theorem sorted (distinct : Distinct P entries) : Distinct P (Draft.sorted entries) :=
  distinct.of_perm (KeyOrder.sort_perm _ entries)

end Distinct

namespace Draft
variable {P : Draft → Prop} {key : String} {draft : Draft} {entries : Entries}

theorem of_find? (distinct : Distinct P entries) (found : find? key entries = some draft) :
    P draft := by
  obtain ⟨entry, first, rfl⟩ := Option.map_eq_some_iff.mp found
  exact distinct.each entry (List.mem_of_find?_eq_some first)

/-- Putting a draft under a key neither repeats a key nor changes another. -/
theorem distinct_put (distinct : Distinct P entries) (holds : P draft) :
    Distinct P (put key draft entries) := by
  rw [put]
  split
  · have keys : (entries.map fun entry => if entry.1 = key then (key, draft) else entry).map
        (·.1) = entries.map (·.1) := by
      rw [List.map_map]
      refine List.map_congr_left fun entry _ => ?_
      by_cases here : entry.1 = key
      · simp [here]
      · simp [here]
    refine ⟨keys ▸ distinct.nodup, fun entry member => ?_⟩
    obtain ⟨old, among, rfl⟩ := List.mem_map.mp member
    by_cases here : old.1 = key
    · rwa [if_pos here]
    · rw [if_neg here]
      exact distinct.each old among
  · rename_i missing
    simp only [List.any_eq_true, decide_eq_true_eq, not_exists, not_and] at missing
    refine ⟨?_, ?_⟩
    · rw [List.map_append, List.nodup_append]
      refine ⟨distinct.nodup, List.pairwise_singleton _ _, ?_⟩
      intro old among new last
      obtain ⟨entry, member, rfl⟩ := List.mem_map.mp among
      obtain rfl := List.mem_singleton.mp last
      exact missing entry member
    · rw [List.forall_mem_append]
      exact ⟨distinct.each, fun entry last => List.mem_singleton.mp last ▸ holds⟩

variable {origin : Origin} {last : Entries} {earlier : List Entries}
variable {inner : Except DocumentFault Entries} {made : Entries}

/-- A change inside a table is put back under the table's key. -/
theorem distinct_of_table (distinct : Distinct Draft.Keyed entries)
    (inside : ∀ changed, inner = .ok changed → Distinct Draft.Keyed changed)
    (change : (inner >>= fun inner => pure (put key (.table origin inner) entries)) = .ok made) :
    Distinct Draft.Keyed made := by
  obtain ⟨changed, read, there⟩ := ok_of_bind change
  exact Except.ok.inj there ▸ distinct_put distinct (keyed_table_iff.mpr (inside changed read))

/-- A change inside the last table of an array leaves the earlier ones as they are. -/
theorem distinct_of_tables (distinct : Distinct Draft.Keyed entries)
    (found : find? key entries = some (.tables (last :: earlier)))
    (inside : Distinct Draft.Keyed last → ∀ changed, inner = .ok changed →
      Distinct Draft.Keyed changed)
    (change : (inner >>= fun inner => pure (put key (.tables (inner :: earlier)) entries)) =
      .ok made) : Distinct Draft.Keyed made := by
  obtain ⟨changed, read, there⟩ := ok_of_bind change
  obtain ⟨newest, others⟩ := List.forall_mem_cons.mp
    (keyed_tables_iff.mp (of_find? distinct found))
  have elements := List.forall_mem_cons.mpr ⟨inside newest changed read, others⟩
  exact Except.ok.inj there ▸ distinct_put distinct (keyed_tables_iff.mpr elements)

theorem distinct_of_found (distinct : Distinct Draft.Keyed entries)
    (found : find? key entries = some (.table origin last)) : Distinct Draft.Keyed last :=
  keyed_table_iff.mp (of_find? distinct found)

variable {keys : List String}

theorem distinct_openTable (distinct : Distinct Draft.Keyed entries)
    (opened : openTable keys entries = .ok made) : Distinct Draft.Keyed made := by
  fun_induction openTable keys entries generalizing made with
  | case1 entries => exact Except.ok.inj opened ▸ distinct
  | case2 key entries missing =>
      exact Except.ok.inj opened ▸ distinct_put distinct (keyed_table_iff.mpr .nil)
  | case3 key entries inner found =>
      have inside := distinct_of_found distinct found
      exact Except.ok.inj opened ▸ distinct_put distinct (keyed_table_iff.mpr inside)
  | case5 key rest entries _ missing ih =>
      exact distinct_of_table distinct (fun _ => ih .nil) opened
  | case6 key rest entries _ origin inner found ih =>
      exact distinct_of_table distinct (fun _ => ih (distinct_of_found distinct found)) opened
  | case7 key rest entries _ last earlier found ih =>
      exact distinct_of_tables distinct found (fun newest _ => ih newest) opened
  | case4 | case8 => exact nomatch opened

theorem distinct_appendTable (distinct : Distinct Draft.Keyed entries)
    (added : appendTable keys entries = .ok made) : Distinct Draft.Keyed made := by
  fun_induction appendTable keys entries generalizing made with
  | case1 entries => exact Except.ok.inj added ▸ distinct
  | case2 key entries missing =>
      have first : Draft.Keyed (.tables [[]]) :=
        keyed_tables_iff.mpr fun entries member => List.mem_singleton.mp member ▸ .nil
      exact Except.ok.inj added ▸ distinct_put distinct first
  | case3 key entries elements found =>
      have others := keyed_tables_iff.mp (of_find? distinct found)
      have more := keyed_tables_iff.mpr (List.forall_mem_cons.mpr ⟨.nil, others⟩)
      exact Except.ok.inj added ▸ distinct_put distinct more
  | case5 key rest entries _ missing ih =>
      exact distinct_of_table distinct (fun _ => ih .nil) added
  | case6 key rest entries _ origin inner found ih =>
      exact distinct_of_table distinct (fun _ => ih (distinct_of_found distinct found)) added
  | case7 key rest entries _ last earlier found ih =>
      exact distinct_of_tables distinct found (fun newest _ => ih newest) added
  | case4 | case8 => exact nomatch added

theorem distinct_define {value : Value} {takesValue : Bool} (keyed : value.Keyed)
    (distinct : Distinct Draft.Keyed entries)
    (defined : define value takesValue keys entries = .ok made) :
    Distinct Draft.Keyed made := by
  fun_induction define value takesValue keys entries generalizing made with
  | case1 takesValue entries => exact Except.ok.inj defined ▸ distinct
  | case2 takesValue key entries free =>
      exact Except.ok.inj defined ▸ distinct_put distinct (.closed keyed)
  | case4 takesValue key rest entries _ missing ih =>
      exact distinct_of_table distinct (fun _ => ih .nil) defined
  | case6 takesValue key rest entries _ origin inner _ found ih =>
      exact distinct_of_table distinct (fun _ => ih (distinct_of_found distinct found)) defined
  | case7 takesValue key rest entries _ last earlier found ih =>
      exact distinct_of_tables distinct found (fun newest _ => ih newest) defined
  | case3 | case5 | case8 => exact nomatch defined

theorem distinct_within {change : Entries → Except DocumentFault Entries}
    (keeps : ∀ {entries made : Entries}, Distinct Draft.Keyed entries →
      change entries = .ok made → Distinct Draft.Keyed made)
    (distinct : Distinct Draft.Keyed entries)
    (changed : within change keys entries = .ok made) : Distinct Draft.Keyed made := by
  fun_induction within change keys entries generalizing made with
  | case1 entries => exact keeps distinct changed
  | case2 key rest entries origin inner found ih =>
      exact distinct_of_table distinct (fun _ => ih (distinct_of_found distinct found)) changed
  | case3 key rest entries last earlier found ih =>
      exact distinct_of_tables distinct found (fun newest _ => ih newest) changed
  | case4 => exact nomatch changed

theorem closeEntries_eq_map (entries : Entries) :
    closeEntries entries = entries.map fun entry => (entry.1, entry.2.close) := by
  induction entries with
  | nil => rfl
  | cons entry rest ih => rw [closeEntries, ih, List.map_cons]

theorem closeTables_eq_map (elements : List Entries) :
    closeTables elements = elements.map fun entries => .table (sorted (closeEntries entries)) := by
  induction elements with
  | nil => rfl
  | cons entries rest ih => rw [closeTables, ih, List.map_cons]

theorem distinct_closeEntries {P : Value → Prop} (nodup : (entries.map (·.1)).Nodup)
    (each : ∀ entry ∈ entries, P entry.2.close) : Distinct P (closeEntries entries) := by
  rw [closeEntries_eq_map]
  refine ⟨?_, fun closed member => ?_⟩
  · rwa [List.map_map]
  · obtain ⟨entry, among, rfl⟩ := List.mem_map.mp member
    exact each entry among

/-- Closing tables only reorders their entries. -/
theorem keyed_close (keyed : Draft.Keyed draft) : draft.close.Keyed := by
  induction keyed with
  | closed keyed => exact keyed
  | table nodup each ih =>
      rw [close]
      exact Value.keyed_table_iff.mpr (distinct_closeEntries nodup ih).sorted
  | tables nodup each ih =>
      rw [close, closeTables_eq_map]
      refine .array fun item member => ?_
      obtain ⟨entries, among, rfl⟩ := List.mem_map.mp (List.mem_reverse.mp member)
      exact Value.keyed_table_iff.mpr
        (distinct_closeEntries (nodup entries among) (ih entries among)).sorted

end Draft

theorem keyed_scalar {s rest : List Char} {found : Value} (read : scalar s = .ok (found, rest)) :
    found.Keyed := by
  refine .scalar ?_
  rw [scalar] at read
  repeat' split at read
  all_goals cases read
  all_goals rfl

/-- With so much fuel the readers of values keep the keys of tables apart. -/
structure ReadsKeyed (fuel : Nat) : Prop where
  value {depth : Nat} {s rest : List Char} {found : Value}
    (read : value depth fuel s = .ok (found, rest)) : found.Keyed
  items {depth : Nat} {s rest : List Char} {found : List Value}
    (read : items depth fuel s = .ok (found, rest)) : ∀ item ∈ found, item.Keyed
  pairs {depth : Nat} {s rest : List Char} {entries found : Entries}
    (distinct : Distinct Draft.Keyed entries)
    (read : pairs depth fuel entries s = .ok (found, rest)) : Distinct Draft.Keyed found

namespace ReadsKeyed
variable {fuel depth : Nat} {s rest : List Char}

theorem value_succ (inner : ReadsKeyed fuel) {found : Value}
    (read : Toml.value depth (fuel + 1) s = .ok (found, rest)) : found.Keyed := by
  rw [Toml.value.eq_def] at read
  dsimp only at read
  split at read
  · obtain ⟨⟨text, after⟩, -, same⟩ := ok_of_map read
    obtain ⟨rfl, -⟩ := Prod.mk.inj same
    exact .scalar rfl
  · split at read
    · obtain ⟨⟨items, after⟩, listed, same⟩ := ok_of_map read
      obtain ⟨rfl, -⟩ := Prod.mk.inj same
      exact .array (inner.items listed)
    · obtain ⟨⟨entries, after⟩, listed, same⟩ := ok_of_map read
      obtain ⟨rfl, -⟩ := Prod.mk.inj same
      exact Draft.keyed_close (Draft.keyed_table_iff.mpr (inner.pairs .nil listed))
    · exact keyed_scalar read

theorem items_succ (inner : ReadsKeyed fuel) {found : List Value}
    (read : Toml.items depth (fuel + 1) s = .ok (found, rest)) : ∀ item ∈ found, item.Keyed := by
  rw [Toml.items] at read
  obtain ⟨⟨⟨⟩, start⟩, -, read⟩ := ok_of_bind read
  dsimp only at read
  split at read
  · obtain ⟨rfl, -⟩ := Prod.mk.inj (Except.ok.inj read)
    simp
  · obtain ⟨⟨item, after⟩, first, read⟩ := ok_of_bind read
    obtain ⟨⟨⟨⟩, after⟩, -, read⟩ := ok_of_bind read
    dsimp only at read
    split at read
    · obtain ⟨⟨more, after⟩, others, read⟩ := ok_of_bind read
      obtain ⟨rfl, -⟩ := Prod.mk.inj (Except.ok.inj read)
      exact List.forall_mem_cons.mpr ⟨inner.value first, inner.items others⟩
    · obtain ⟨rfl, -⟩ := Prod.mk.inj (Except.ok.inj read)
      exact List.forall_mem_cons.mpr ⟨inner.value first, by simp⟩
    · exact nomatch read

theorem pairs_succ (inner : ReadsKeyed fuel) {entries found : Entries}
    (distinct : Distinct Draft.Keyed entries)
    (read : Toml.pairs depth (fuel + 1) entries s = .ok (found, rest)) :
    Distinct Draft.Keyed found := by
  rw [Toml.pairs] at read
  obtain ⟨⟨⟨⟩, start⟩, -, read⟩ := ok_of_bind read
  dsimp only at read
  split at read
  · obtain ⟨rfl, -⟩ := Prod.mk.inj (Except.ok.inj read)
    exact distinct
  · obtain ⟨⟨keys, after⟩, -, read⟩ := ok_of_bind read
    obtain ⟨⟨⟨⟩, after⟩, -, read⟩ := ok_of_bind read
    dsimp only at read
    split at read
    · obtain ⟨⟨⟨⟩, after⟩, -, read⟩ := ok_of_bind read
      obtain ⟨⟨item, after⟩, written, read⟩ := ok_of_bind read
      obtain ⟨entries, defined, read⟩ := ok_of_bind read
      have distinct := Draft.distinct_define (inner.value written) distinct defined
      obtain ⟨⟨⟨⟩, after⟩, -, read⟩ := ok_of_bind read
      dsimp only at read
      split at read
      · exact inner.pairs distinct read
      · obtain ⟨rfl, -⟩ := Prod.mk.inj (Except.ok.inj read)
        exact distinct
      · exact nomatch read
    · exact nomatch read

/-- The readers call each other with less fuel only, so the induction is on the fuel. -/
theorem all (fuel : Nat) : ReadsKeyed fuel := by
  induction fuel with
  | zero =>
      refine ⟨fun read => ?_, fun read => ?_, fun _ read => ?_⟩
      · exact nomatch read
      · exact nomatch read
      · exact nomatch read
  | succ fuel inner => exact ⟨inner.value_succ, inner.items_succ, inner.pairs_succ⟩

end ReadsKeyed

theorem distinct_statements {fuel : Nat} {path : List String} {root found : Entries}
    {s : List Char} (distinct : Distinct Draft.Keyed root)
    (read : statements fuel path root s = .ok found) : Distinct Draft.Keyed found := by
  induction fuel generalizing path root s with
  | zero => exact nomatch read
  | succ fuel ih =>
      rw [statements] at read
      obtain ⟨⟨⟨⟩, start⟩, -, read⟩ := ok_of_bind read
      dsimp only at read
      split at read
      · exact Except.ok.inj read ▸ distinct
      · obtain ⟨⟨keys, after⟩, -, read⟩ := ok_of_bind read
        dsimp only at read
        split at read
        · obtain ⟨after, -, read⟩ := ok_of_bind read
          obtain ⟨root, added, read⟩ := ok_of_bind read
          exact ih (Draft.distinct_appendTable distinct added) read
        · exact nomatch read
      · obtain ⟨⟨keys, after⟩, -, read⟩ := ok_of_bind read
        dsimp only at read
        split at read
        · obtain ⟨after, -, read⟩ := ok_of_bind read
          obtain ⟨root, opened, read⟩ := ok_of_bind read
          exact ih (Draft.distinct_openTable distinct opened) read
        · exact nomatch read
      · obtain ⟨⟨keys, after⟩, -, read⟩ := ok_of_bind read
        dsimp only at read
        split at read
        · obtain ⟨⟨item, after⟩, written, read⟩ := ok_of_bind read
          obtain ⟨after, -, read⟩ := ok_of_bind read
          obtain ⟨root, changed, read⟩ := ok_of_bind read
          refine ih (Draft.distinct_within (fun inside defined => ?_) distinct changed) read
          exact Draft.distinct_define ((ReadsKeyed.all _).value written) inside defined
        · exact nomatch read

theorem distinct_read {text : String} {entries : List (String × Value)}
    (read : Toml.read text = .ok entries) : Distinct Value.Keyed entries := by
  obtain ⟨drafts, stated, rfl⟩ := ok_of_map read
  have distinct := distinct_statements .nil stated
  exact (Draft.distinct_closeEntries distinct.nodup fun entry member =>
    Draft.keyed_close (distinct.each entry member)).sorted

/-- A reader of documents in which no table has a key twice. -/
structure Reader where
  read : DocumentReader
  distinct : ∀ {text entries}, read text = .ok entries → Distinct Value.Keyed entries

/-- The reader of this library. -/
def reader : Reader :=
  ⟨Toml.read, distinct_read⟩

@[simp] theorem read_reader : reader.read = Toml.read := rfl

end Debugger.Toml
