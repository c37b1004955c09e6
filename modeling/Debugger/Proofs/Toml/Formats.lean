import Mathlib.Data.List.Forall2
import Debugger.CallTree.Document
import Debugger.Proofs.Toml.Fields

/-! Formats of documents, said without the readers: which keys a table may have, and the shape
of what is written for each. -/
namespace Debugger.Toml

/-- The keys of a table, each with the shape of its values. -/
abbrev Format := List (String × (Value → Prop))

/-- Every key is one of the format, and every value has the shape of its key. -/
def Conforms (format : Format) (entries : List (String × Value)) : Prop :=
  ∀ entry ∈ entries, ∃ shape, (entry.1, shape) ∈ format ∧ shape entry.2

namespace Value
variable {value : Value} {entries : List (String × Value)}

def IsText (value : Value) : Prop :=
  ∃ text, value = .string text

/-- A number from 0 to the limit. -/
def IsNumber (limit : Nat) (value : Value) : Prop :=
  ∃ n : Nat, n ≤ limit ∧ value = .integer n

def IsTable (value : Value) : Prop :=
  ∃ entries, value = .table entries

def IsArray (value : Value) : Prop :=
  ∃ items, value = .array items

/-- What a value lists by name. A moment stands for a table of one text. -/
inductive Lists : Value → List (String × Value) → Prop
  | table (entries : List (String × Value)) : Lists (.table entries) entries
  | moment (text : String) : Lists (.moment text) [(momentKey, .string text)]

/-- A table with any keys and values of one shape. -/
def IsTableOf (shape : Value → Prop) (value : Value) : Prop :=
  ∃ entries, value.Lists entries ∧ ∀ entry ∈ entries, shape entry.2

/-- What a local's literal stands for. -/
inductive Denotes : Value → Debugger.Value → Prop
  | boolean (value : Bool) : Denotes (.boolean value) (.boolean value)
  | integer (n : Int) : Denotes (.integer n) (.integer n)
  | float (value : Binary64) : Denotes (.float value) (.float value)
  | string (text : String) : Denotes (.string text) (.string text)

def IsLiteral (value : Value) : Prop :=
  ∃ literal, value.Denotes literal

theorem asText_eq_ok_iff {text : String} : value.asText = .ok text ↔ value = .string text := by
  cases value <;> simp [asText]

theorem asNumber_eq_ok_iff {limit n : Nat} :
    value.asNumber limit = .ok n ↔ n ≤ limit ∧ value = .integer n := by
  constructor
  · intro read
    cases value with
    | integer written =>
        cases written with
        | ofNat m =>
            rw [asNumber] at read
            split at read
            · rename_i within
              obtain rfl := Except.ok.inj read
              exact ⟨within, rfl⟩
            · exact nomatch read
        | negSucc m => exact nomatch read
    | _ => exact nomatch read
  · rintro ⟨within, rfl⟩
    exact if_pos within

theorem asEntries_eq_ok_iff : value.asEntries = .ok entries ↔ value.Lists entries := by
  constructor
  · intro read
    cases value with
    | table => exact Except.ok.inj read ▸ .table _
    | moment => exact Except.ok.inj read ▸ .moment _
    | _ => exact nomatch read
  · intro lists
    cases lists <;> rfl

theorem isLiteral_of_asLiteral {literal : Debugger.Value} (read : value.asLiteral = .ok literal) :
    value.IsLiteral := by
  cases value with
  | boolean b => exact ⟨_, .boolean b⟩
  | integer n => exact ⟨_, .integer n⟩
  | float x => exact ⟨_, .float x⟩
  | string text => exact ⟨_, .string text⟩
  | _ => exact nomatch read

/-- Integers of a sign and 63 bits. -/
def Fits (n : Int) : Prop :=
  -0x8000000000000000 ≤ n ∧ n < 0x8000000000000000

theorem asLiteral_eq_ok_iff {literal : Debugger.Value} (fits : ∀ n, value = .integer n → Fits n) :
    value.asLiteral = .ok literal ↔ value.Denotes literal := by
  constructor
  · intro read
    cases value with
    | boolean b => exact Except.ok.inj read ▸ .boolean b
    | integer n =>
        have kept : (integer n).asLiteral = .ok (.integer n) := if_pos (fits n rfl)
        rw [kept] at read
        exact Except.ok.inj read ▸ .integer n
    | float x => exact Except.ok.inj read ▸ .float x
    | string text => exact Except.ok.inj read ▸ .string text
    | _ => exact nomatch read
  · intro denotes
    cases denotes with
    | integer n => exact if_pos (fits n rfl)
    | _ => rfl

end Value

/-- The entries of a table are bound, in order, to what the relation says of their values. -/
def Paired {β : Type} (R : Value → β → Prop) (entries : List (String × Value))
    (map : OrderedMap β) : Prop :=
  List.Forall₂ (fun entry binding => entry.1 = binding.1 ∧ R entry.2 binding.2) entries map

variable {β : Type} {R : Value → β → Prop} {entries : List (String × Value)} {map : OrderedMap β}

theorem Paired.keys (bound : Paired R entries map) : map.map (·.1) = entries.map (·.1) := by
  induction bound with
  | nil => rfl
  | cons first _ ih => rw [List.map_cons, List.map_cons, ih, first.1]

theorem Paired.exists_of_mem {name : String} {value : Value} (bound : Paired R entries map)
    (member : (name, value) ∈ entries) : ∃ b, R value b ∧ (name, b) ∈ map := by
  induction bound with
  | nil => exact absurd member List.not_mem_nil
  | @cons entry binding _ _ first _ ih =>
      obtain rfl | later := List.mem_cons.mp member
      · exact ⟨binding.2, first.2, List.mem_cons.mpr (.inl (Prod.ext first.1 rfl))⟩
      · obtain ⟨b, related, among⟩ := ih later
        exact ⟨b, related, List.mem_cons_of_mem binding among⟩

theorem Paired.imp {S : Value → β → Prop} (bound : Paired R entries map)
    (implies : ∀ entry ∈ entries, ∀ b, R entry.2 b → S entry.2 b) : Paired S entries map := by
  induction bound with
  | nil => exact .nil
  | cons first _ ih =>
      obtain ⟨here, others⟩ := List.forall_mem_cons.mp implies
      exact .cons ⟨first.1, here _ first.2⟩ (ih others)

theorem exists_paired_iff :
    (∃ map, Paired R entries map) ↔ ∀ entry ∈ entries, ∃ b, R entry.2 b := by
  induction entries with
  | nil => exact ⟨fun _ => by simp, fun _ => ⟨[], .nil⟩⟩
  | cons entry rest ih =>
      rw [List.forall_mem_cons, ← ih]
      constructor
      · rintro ⟨map, bound⟩
        cases bound with
        | cons first others => exact ⟨⟨_, first.2⟩, _, others⟩
      · rintro ⟨⟨b, first⟩, map, others⟩
        exact ⟨(entry.1, b) :: map, .cons ⟨rfl, first⟩ others⟩

theorem readEntries_eq_ok_iff {read : Value → Except DocumentFault β} :
    readEntries read entries = .ok map ↔ Paired (read · = .ok ·) entries map := by
  induction entries generalizing map with
  | nil => exact ⟨fun all => Except.ok.inj all ▸ .nil, fun bound => by cases bound; rfl⟩
  | cons entry rest ih =>
      rw [readEntries, List.mapM_cons]
      constructor
      · intro all
        obtain ⟨first, one, all⟩ := ok_of_bind all
        obtain ⟨others, more, all⟩ := ok_of_bind all
        obtain ⟨value, found, rfl⟩ := ok_of_map one
        obtain rfl := Except.ok.inj all
        exact .cons ⟨rfl, found⟩ (ih.mp more)
      · intro bound
        cases bound with
        | @cons _ binding _ others first more =>
            obtain ⟨key, value⟩ := binding
            obtain ⟨rfl, found⟩ := first
            rw [found]
            change readEntries read rest >>= (fun others => pure ((entry.1, value) :: others)) = _
            rw [ih.mpr more]
            rfl

theorem exists_readEntries_iff {read : Value → Except DocumentFault β} :
    (∃ map, readEntries read entries = .ok map) ↔ ∀ entry ∈ entries, ∃ b, read entry.2 = .ok b := by
  simp only [readEntries_eq_ok_iff]
  exact exists_paired_iff

/-- What the value under a key, if there is one, binds. -/
inductive Binds (R : Value → β → Prop) : Option Value → OrderedMap β → Prop
  | absent : Binds R none []
  | written {value : Value} {entries : List (String × Value)} {map : OrderedMap β}
      (lists : value.Lists entries) (bound : Paired R entries map) : Binds R (some value) map

end Debugger.Toml
