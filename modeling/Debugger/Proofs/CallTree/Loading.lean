import Debugger.CallTree.Document
import Debugger.Proofs.Toml.Formats

/-! Main statement: a local that is written as an integer, at whatever depth, is loaded as
that integer if it fits into 63 bits and a sign. The integers behind these up to 64 bits are
loaded as floating point numbers, and any other makes the document an error. -/
namespace Debugger

namespace Call
variable {value node : Toml.Value} {call : Call} {path : List Nat}

/-- The value written for the call that is reached by these numbers of children. -/
inductive WrittenAt : Toml.Value → List Nat → Toml.Value → Prop
  | self {value : Toml.Value} : WrittenAt value [] value
  | child {value child node : Toml.Value} {items : List Toml.Value} {i : Nat} {path : List Nat}
      (children : ("children", .array items) ∈ value.fields keys) (item : items[i]? = some child)
      (inside : WrittenAt child path node) : WrittenAt value (i :: path) node

def at? : Call → List Nat → Option Call
  | call, [] => some call
  | call, i :: path => call.children[i]?.bind (·.at? path)

/-- A local of the call is written as the integer. -/
def WritesInteger (value : Toml.Value) (name : String) (n : Int) : Prop :=
  ∃ table entries, ("locals", table) ∈ value.fields keys ∧ table.asEntries = .ok entries ∧
    (name, .integer n) ∈ entries

/-- Reads any key of a call. -/
def Partial.take (c : Partial) (key : String) (value : Toml.Value) :
    Except DocumentFault Partial :=
  if key = "children" then (childrenOf value).map fun children => { c with children }
  else c.add key value

theorem keys_nodup : keys.Nodup := by
  decide

theorem ofEntries_eq_fill (c : Partial) (entries : List (String × Toml.Value)) :
    ofEntries c entries = Toml.fill Partial.take c entries := by
  induction entries generalizing c with
  | nil => rw [ofEntries, Toml.fill, List.foldlM_nil]; rfl
  | cons entry rest ih =>
      rw [ofEntries, Toml.fill, List.foldlM_cons, Partial.take]
      split
      · cases childrenOf entry.2 with
        | error fault => rfl
        | ok children => exact ih _
      · cases c.add entry.1 entry.2 with
        | error fault => rfl
        | ok c => exact ih c

theorem ofItems_eq_fill (c : Partial) (keys : List String) (items : List Toml.Value) :
    ofItems c keys items = Toml.fill Partial.take c (keys.zip items) := by
  rw [← ofEntries_eq_fill]
  induction keys generalizing c items with
  | nil => rw [ofItems, List.zip_nil_left, ofEntries]; simp
  | cons key keys ih =>
      cases items with
      | nil => rw [ofItems, List.zip_nil_right, ofEntries]; simp
      | cons value items =>
          rw [ofItems, List.zip_cons_cons, ofEntries]
          simp only [ih]

/-- A call is what the entries of its value make of an empty one. -/
theorem filled_of_ofValue (read : ofValue value = .ok call) :
    ∃ filled, Toml.fill Partial.take {} (value.fields keys) = .ok filled ∧
      filled.finish = call := by
  cases value with
  | table entries =>
      rw [ofValue, ofEntries_eq_fill] at read
      exact Toml.ok_of_map read
  | array items =>
      rw [ofValue, ofItems_eq_fill] at read
      exact Toml.ok_of_map read
  | _ => exact nomatch read

/-- Each key sets one part of a call. -/
theorem take_cases {c taken : Partial} {key : String} (read : c.take key value = .ok taken) :
    (key = "function" ∧ ∃ name, value = .string name ∧ taken = { c with function := some name }) ∨
    (key = "lambda" ∧ ∃ name, value = .string name ∧ taken = { c with lambda := some name }) ∨
    (key = "source" ∧ ∃ span, Span.ofValue value = .ok span ∧
      taken = { c with span := some span }) ∨
    (key = "locals" ∧ ∃ entries bindings, value.Lists entries ∧
      readEntries Toml.Value.asLiteral entries = .ok bindings ∧ taken = { c with bindings }) ∨
    (key = "type_arguments" ∧ ∃ entries typeArguments, value.Lists entries ∧
      readEntries Toml.Value.asText entries = .ok typeArguments ∧
      taken = { c with typeArguments }) ∨
    key = "children" ∧ ∃ items children, value = .array items ∧ ofValues items = .ok children ∧
      taken = { c with children } := by
  rw [Partial.take] at read
  split at read
  · rename_i here
    obtain ⟨children, list, rfl⟩ := Toml.ok_of_map read
    cases value with
    | array items => exact .inr (.inr (.inr (.inr (.inr ⟨here, items, children, rfl, list, rfl⟩))))
    | _ => exact nomatch list
  · rw [Partial.add.eq_def] at read
    split at read
    · obtain ⟨name, text, rfl⟩ := Toml.ok_of_map read
      exact .inl ⟨rfl, name, Toml.Value.asText_eq_ok_iff.mp text, rfl⟩
    · obtain ⟨name, text, rfl⟩ := Toml.ok_of_map read
      exact .inr (.inl ⟨rfl, name, Toml.Value.asText_eq_ok_iff.mp text, rfl⟩)
    · obtain ⟨span, written, rfl⟩ := Toml.ok_of_map read
      exact .inr (.inr (.inl ⟨rfl, span, written, rfl⟩))
    · obtain ⟨entries, table, read⟩ := Toml.ok_of_bind read
      obtain ⟨bindings, locals, read⟩ := Toml.ok_of_bind read
      obtain rfl := Except.ok.inj read
      exact .inr (.inr (.inr (.inl ⟨rfl, entries, bindings,
        Toml.Value.asEntries_eq_ok_iff.mp table, locals, rfl⟩)))
    · obtain ⟨entries, table, read⟩ := Toml.ok_of_bind read
      obtain ⟨typeArguments, texts, read⟩ := Toml.ok_of_bind read
      obtain rfl := Except.ok.inj read
      exact .inr (.inr (.inr (.inr (.inl ⟨rfl, entries, typeArguments,
        Toml.Value.asEntries_eq_ok_iff.mp table, texts, rfl⟩))))
    · exact nomatch read

/-- Each part of a call has a key of its own. -/
theorem owns : Toml.Owns Partial.take "function" Partial.function ∧
    Toml.Owns Partial.take "lambda" Partial.lambda ∧
    Toml.Owns Partial.take "source" Partial.span ∧
    Toml.Owns Partial.take "locals" Partial.bindings ∧
    Toml.Owns Partial.take "type_arguments" Partial.typeArguments ∧
    Toml.Owns Partial.take "children" Partial.children := by
  refine ⟨?_, ?_, ?_, ?_, ?_, ?_⟩ <;> intro c taken key value other read <;>
    obtain ⟨here, _, -, rfl⟩ | ⟨here, _, -, rfl⟩ | ⟨here, _, -, rfl⟩ | ⟨here, _, _, -, -, rfl⟩ |
      ⟨here, _, _, -, -, rfl⟩ | ⟨here, _, _, -, -, rfl⟩ := take_cases read <;>
    first | rfl | exact absurd here other

theorem children_of_ofValue (keyed : value.Keyed) (read : ofValue value = .ok call)
    {children : Toml.Value} (written : ("children", children) ∈ value.fields keys) :
    childrenOf children = .ok call.children := by
  obtain ⟨filled, entries, rfl⟩ := filled_of_ofValue read
  obtain ⟨-, -, -, -, -, owns⟩ := owns
  obtain ⟨before, after, taken, part⟩ :=
    Toml.part_of_mem owns (keyed.fields keys_nodup).nodup written entries
  rw [Partial.take, if_pos rfl] at taken
  obtain ⟨calls, children, rfl⟩ := Toml.ok_of_map taken
  rw [children]
  exact congrArg Except.ok part.symm

theorem bindings_of_ofValue (keyed : value.Keyed) (read : ofValue value = .ok call)
    {table : Toml.Value} {entries : List (String × Toml.Value)}
    (written : ("locals", table) ∈ value.fields keys) (listed : table.asEntries = .ok entries) :
    readEntries Toml.Value.asLiteral entries = .ok call.bindings := by
  obtain ⟨filled, all, rfl⟩ := filled_of_ofValue read
  obtain ⟨-, -, -, owns, -, -⟩ := owns
  obtain ⟨before, after, taken, part⟩ :=
    Toml.part_of_mem owns (keyed.fields keys_nodup).nodup written all
  rw [Partial.take, if_neg (by decide), Partial.add, listed] at taken
  obtain ⟨bindings, locals, rfl⟩ := Toml.ok_of_map taken
  rw [show filled.finish.bindings = bindings from part]
  exact locals

theorem ofValues_eq_ok_iff {items : List Toml.Value} {calls : List Call} :
    ofValues items = .ok calls ↔ List.Forall₂ (ofValue · = .ok ·) items calls := by
  induction items generalizing calls with
  | nil =>
      rw [ofValues]
      exact ⟨fun all => Except.ok.inj all ▸ .nil, fun all => by cases all; rfl⟩
  | cons first rest ih =>
      rw [ofValues]
      refine ⟨fun all => ?_, fun all => ?_⟩
      · split at all
        · rename_i call others one more
          obtain rfl := Except.ok.inj all
          exact .cons one (ih.mp more)
        · exact nomatch all
        · exact nomatch all
      · cases all with
        | cons one more => rw [one, ih.mpr more]

theorem keyed_child {items : List Toml.Value} (keyed : value.Keyed)
    (children : ("children", .array items) ∈ value.fields keys) (item : node ∈ items) :
    node.Keyed := by
  cases (keyed.fields keys_nodup).each _ children with
  | scalar scalar => exact nomatch scalar
  | array each => exact each node item

/-- What is written at a path is read as the call at that path. -/
theorem at?_of_writtenAt (written : WrittenAt value path node) (keyed : value.Keyed)
    (read : ofValue value = .ok call) :
    ∃ inner, call.at? path = some inner ∧ node.Keyed ∧ ofValue node = .ok inner := by
  induction written generalizing call with
  | self => exact ⟨call, rfl, keyed, read⟩
  | child children item inside ih =>
      have list := ofValues_eq_ok_iff.mp (children_of_ofValue keyed read children)
      obtain ⟨within, rfl⟩ := List.getElem?_eq_some_iff.mp item
      have within' := list.length_eq ▸ within
      obtain ⟨found, at_path, rest⟩ :=
        ih (keyed_child keyed children (List.getElem_mem within)) (list.get within within')
      exact ⟨found, by rw [at?, List.getElem?_eq_getElem within']; exact at_path, rest⟩

end Call

/-- Of the integers only those that fit into a sign and 63 bits stay what they are. -/
inductive Toml.LiteralOf (n : Int) : Debugger.Value → Prop
  | integer (least : -0x8000000000000000 ≤ n) (greatest : n < 0x8000000000000000) :
      LiteralOf n (.integer n)
  | float (least : 0x8000000000000000 ≤ n) (greatest : n < 0x10000000000000000) :
      LiteralOf n (.float (Binary64.ofNat n.toNat))

theorem Toml.literalOf_asLiteral {n : Int} {loaded : Debugger.Value}
    (read : Toml.Value.asLiteral (.integer n) = .ok loaded) : Toml.LiteralOf n loaded := by
  rw [Toml.Value.asLiteral] at read
  split at read
  · rename_i fits
    exact Except.ok.inj read ▸ .integer fits.1 fits.2
  · rename_i wide
    split at read
    · rename_i fits
      exact Except.ok.inj read ▸ .float (by omega) fits.2
    · exact nomatch read

theorem Toml.nodup_asEntries {value : Toml.Value} {entries : List (String × Toml.Value)}
    (keyed : value.Keyed) (read : value.asEntries = .ok entries) :
    (entries.map (·.1)).Nodup := by
  cases value with
  | table => exact Except.ok.inj read ▸ (Toml.Value.keyed_table_iff.mp keyed).nodup
  | moment => exact Except.ok.inj read ▸ List.pairwise_singleton _ _
  | _ => exact nomatch read

theorem Call.integer_of_ofValue {value : Toml.Value} {call : Call} {name : String} {n : Int}
    (keyed : value.Keyed) (read : ofValue value = .ok call) (written : WritesInteger value name n) :
    ∃ loaded, call.bindings.get? name = some loaded ∧ Toml.LiteralOf n loaded := by
  obtain ⟨table, entries, locals, listed, member⟩ := written
  have bindings := Toml.readEntries_eq_ok_iff.mp (bindings_of_ofValue keyed read locals listed)
  obtain ⟨loaded, literal, among⟩ := bindings.exists_of_mem member
  have nodup : (call.bindings.map (·.1)).Nodup := by
    rw [bindings.keys]
    exact Toml.nodup_asEntries ((keyed.fields keys_nodup).each _ locals) listed
  exact ⟨loaded, OrderedMap.get?_of_mem nodup among, Toml.literalOf_asLiteral literal⟩

namespace CallTree

theorem ofEntries_cases {entries : List (String × Toml.Value)} {tree : CallTree}
    (read : ofEntries entries = .ok tree) :
    ∃ main, entries = [("main", main)] ∧ Call.ofValue main = .ok tree.main := by
  rw [ofEntries.eq_def] at read
  split at read
  · exact nomatch read
  · obtain ⟨call, main, rfl⟩ := Toml.ok_of_map read
    exact ⟨_, rfl, main⟩
  · split at read
    · exact nomatch read
    · exact nomatch read

variable {read : Toml.DocumentReader}

theorem main_of_ofDocument {text : String} {entries : List (String × Toml.Value)}
    {main : Toml.Value} {tree : CallTree} (document : read text = .ok entries)
    (entry : ("main", main) ∈ entries) (accepted : ofDocument read text = .ok tree) :
    Call.ofValue main = .ok tree.main := by
  rw [ofDocument, document] at accepted
  dsimp only at accepted
  split at accepted
  · exact nomatch accepted
  · rename_i read
    obtain rfl := Except.ok.inj accepted
    obtain ⟨value, rfl, found⟩ := ofEntries_cases read
    obtain ⟨-, rfl⟩ := Prod.mk.inj (List.mem_singleton.mp entry)
    exact found

/-- A text is refused with a fault of the program. -/
theorem refused_of_not_accepted {text : String}
    (refused : ∀ tree, ofDocument read text ≠ .ok tree) :
    ∃ fault, ofDocument read text = .error (.invalidConfig (.program fault)) := by
  rw [ofDocument] at refused ⊢
  split
  · exact ⟨_, rfl⟩
  · split
    · exact ⟨_, rfl⟩
    · rename_i read _ tree program
      exact absurd (by rw [read]; dsimp only; rw [program]) (refused tree)

/-- Whoever reads the document, an integer that is written for a local of some call is loaded
under the local's name in the call at the same place, as itself or as the nearest floating point
number. -/
theorem integer_local_of_ofDocument (reader : Toml.Reader) {text : String}
    {entries : List (String × Toml.Value)} {main node : Toml.Value} {path : List Nat}
    {name : String} {n : Int} (document : reader.read text = .ok entries)
    (entry : ("main", main) ∈ entries) (written : Call.WrittenAt main path node)
    (binding : Call.WritesInteger node name n) :
    (∀ tree, ofDocument reader.read text = .ok tree →
      ∃ call value, tree.main.at? path = some call ∧
      call.bindings.get? name = some value ∧
      (n < 0x8000000000000000 →
        value = .integer n ∧ value.print = toString n ∧ value.typeName? = some "Integer") ∧
      (0x8000000000000000 ≤ n → value = .float (Binary64.ofNat n.toNat))) ∧
    (n < -0x8000000000000000 ∨ 0x10000000000000000 ≤ n →
      ∃ fault, ofDocument reader.read text = .error (.invalidConfig (.program fault))) := by
  have keyed : main.Keyed := (reader.distinct document).each _ entry
  have loaded (tree : CallTree) (accepted : ofDocument reader.read text = .ok tree) :
      ∃ call value, tree.main.at? path = some call ∧ call.bindings.get? name = some value ∧
        Toml.LiteralOf n value := by
    obtain ⟨call, there, node_keyed, read⟩ :=
      Call.at?_of_writtenAt written keyed (main_of_ofDocument document entry accepted)
    obtain ⟨value, bound, literal⟩ := Call.integer_of_ofValue node_keyed read binding
    exact ⟨call, value, there, bound, literal⟩
  refine ⟨fun tree accepted => ?_, fun beyond => refused_of_not_accepted fun tree accepted => ?_⟩
  · obtain ⟨call, value, there, bound, literal⟩ := loaded tree accepted
    refine ⟨call, value, there, bound, ?_⟩
    cases literal with
    | integer least greatest => exact ⟨fun _ => ⟨rfl, rfl, rfl⟩, fun wide => by omega⟩
    | float least greatest => exact ⟨fun narrow => by omega, fun _ => rfl⟩
  · obtain ⟨call, value, there, bound, literal⟩ := loaded tree accepted
    cases literal with
    | integer least greatest => omega
    | float least greatest => omega

/-- The greatest integer there is, in a call inside the entry call. -/
theorem integer_local_of_inner_call :
    ∃ tree, ofText "[[main.children]]\nlocals.x = 9223372036854775807\n" = .ok tree ∧
      ∃ call, tree.main.at? [0] = some call ∧
        call.bindings.get? "x" = some (.integer 9223372036854775807) := by
  let locals : Toml.Value := .table [("x", .integer 9223372036854775807)]
  let inner : Toml.Value := .table [("locals", locals)]
  let main : Toml.Value := .table [("children", .array [inner])]
  have document : Toml.reader.read "[[main.children]]\nlocals.x = 9223372036854775807\n" =
      .ok [("main", main)] := by decide +kernel
  have written : Call.WrittenAt main [0] inner :=
    .child List.mem_cons_self (show [inner][0]? = some inner from rfl) .self
  have binding : Call.WritesInteger inner "x" 9223372036854775807 :=
    ⟨locals, _, List.mem_cons_self, rfl, List.mem_cons_self⟩
  have accepted : ofDocument Toml.reader.read
      "[[main.children]]\nlocals.x = 9223372036854775807\n" =
      .ok ⟨.mk none none none [] []
        [.mk none none none [("x", .integer 9223372036854775807)] [] []]⟩ := by
    rw [ofDocument, document]
    rfl
  obtain ⟨loads, -⟩ := integer_local_of_ofDocument Toml.reader document List.mem_cons_self written
    binding
  obtain ⟨call, value, there, bound, narrow, -⟩ := loads _ accepted
  obtain ⟨rfl, -, -⟩ := narrow (by decide)
  exact ⟨_, accepted, call, there, bound⟩

/-- The integer two behind that one is loaded as a floating point number near it. -/
theorem wide_integer_local_is_rounded :
    ∃ tree value, ofText "[main.locals]\nx = 9223372036854775809\n" = .ok tree ∧
      tree.main.bindings.get? "x" = some value ∧ value ≠ .integer 9223372036854775809 ∧
      value.print = "9223372036854776000" ∧ value.typeName? = some "Float" := by
  have document : Toml.read "[main.locals]\nx = 9223372036854775809\n" =
      .ok [("main", .table [("locals", .table [("x", .integer 9223372036854775809)])])] := by
    decide +kernel
  refine ⟨⟨.mk none none none [("x", .float (Binary64.ofNat 9223372036854775809))] [] []⟩,
    .float (Binary64.ofNat 9223372036854775809), ?_, rfl, by simp,
    by decide +kernel, rfl⟩
  rw [ofText, ofDocument, document]
  rfl

end CallTree
end Debugger
