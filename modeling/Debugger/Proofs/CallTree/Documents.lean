import Debugger.Proofs.CallTree.Loading
import Debugger.Proofs.CallTree.Refusal
import Debugger.Proofs.CallTree.Spans

/-! Main statement: a document whose calls and spans are tables is accepted exactly if `main` is its
only entry and every call, at whatever depth, is a table in the format of calls. The tree then has
a call at each place where the document has one, with what is written for it. -/
namespace Debugger

namespace Call
open Toml (Conforms Format Owns fill)

def format : Format :=
  [("function", Toml.Value.IsText), ("lambda", Toml.Value.IsText),
   ("source", Span.WellFormed), ("locals", Toml.Value.IsTableOf Toml.Value.IsLiteral),
   ("type_arguments", Toml.Value.IsTableOf Toml.Value.IsText),
   ("children", Toml.Value.IsArray)]

/-- A table in the format of a call. Of its children it is only said that they are listed. -/
def WellFormed (node : Toml.Value) : Prop :=
  ∃ entries, node = .table entries ∧ Conforms format entries

/-- The call has what the table writes, and nothing else; its children aside. -/
structure Mirrors (c : Call) (entries : List (String × Toml.Value)) : Prop where
  function : entries.lookup "function" = c.function.map .string
  lambda : entries.lookup "lambda" = c.lambda.map .string
  span : Option.Rel (fun value span => ∃ table, value = .table table ∧ Span.Mirrors span table)
    (entries.lookup "source") c.span
  bindings : Toml.Binds Toml.Value.Denotes (entries.lookup "locals") c.bindings
  typeArguments : Toml.Binds (fun value text => value = .string text)
    (entries.lookup "type_arguments") c.typeArguments

/-- Call and span are written as tables, and the integers of locals fit into 63 bits and a sign. -/
structure Tabular (node : Toml.Value) : Prop where
  call : node.IsTable
  span : ∀ span, ("source", span) ∈ node.fields keys → span.IsTable
  integers : ∀ name n, WritesInteger node name n → Toml.Value.Fits n

variable {value : Toml.Value} {entries : List (String × Toml.Value)} {c : Call}

theorem conforms_of_ofValue (keyed : Toml.Value.Keyed (.table entries))
    (tabular : Tabular (.table entries)) (read : ofValue (.table entries) = .ok c) :
    Conforms format entries := by
  obtain ⟨filled, all, -⟩ := filled_of_ofValue read
  intro entry member
  obtain ⟨before, after, taken⟩ := Toml.taken_of_fill all entry member
  obtain ⟨here, name, text, -⟩ | ⟨here, name, text, -⟩ | ⟨here, span, source, -⟩ |
    ⟨here, listed, bindings, lists, locals, -⟩ | ⟨here, listed, names, lists, texts, -⟩ |
    ⟨here, items, children, list, -⟩ := take_cases taken
  · exact ⟨Toml.Value.IsText, by simp [format, here], name, text⟩
  · exact ⟨Toml.Value.IsText, by simp [format, here], name, text⟩
  · obtain ⟨table, written⟩ := tabular.span entry.2 (here ▸ member)
    have inner := written ▸ (Toml.Value.keyed_table_iff.mp keyed).each entry member
    have nodup := (Toml.Value.keyed_table_iff.mp inner).nodup
    refine ⟨Span.WellFormed, by simp [format, here], ?_⟩
    rw [written] at source ⊢
    exact (Span.exists_ofValue_iff nodup).mp ⟨span, source⟩
  · refine ⟨Toml.Value.IsTableOf Toml.Value.IsLiteral, by simp [format, here], listed, lists,
      fun entry among => ?_⟩
    obtain ⟨literal, read⟩ := Toml.exists_readEntries_iff.mp ⟨_, locals⟩ entry among
    exact Toml.Value.isLiteral_of_asLiteral read
  · refine ⟨Toml.Value.IsTableOf Toml.Value.IsText, by simp [format, here], listed, lists,
      fun entry among => ?_⟩
    obtain ⟨text, read⟩ := Toml.exists_readEntries_iff.mp ⟨_, texts⟩ entry among
    exact ⟨text, Toml.Value.asText_eq_ok_iff.mp read⟩
  · exact ⟨Toml.Value.IsArray, by simp [format, here], items, list⟩

/-- A call that is read has what is written. -/
theorem mirrors_of_ofValue (keyed : Toml.Value.Keyed (.table entries))
    (tabular : Tabular (.table entries)) (read : ofValue (.table entries) = .ok c) :
    c.Mirrors entries := by
  obtain ⟨filled, all, rfl⟩ := filled_of_ofValue read
  have distinct := Toml.Value.keyed_table_iff.mp keyed
  obtain ⟨function, lambda, span, bindings, typeArguments, -⟩ := owns
  refine ⟨?_, ?_, ?_, ?_, ?_⟩
  · refine Toml.lookup_part (P := fun found given => found = given.map .string)
      function distinct.nodup all rfl fun before after value _ taken => ?_
    obtain ⟨name, text, rfl⟩ := Toml.ok_of_map taken
    exact congrArg some (Toml.Value.asText_eq_ok_iff.mp text)
  · refine Toml.lookup_part (P := fun found given => found = given.map .string)
      lambda distinct.nodup all rfl fun before after value _ taken => ?_
    obtain ⟨name, text, rfl⟩ := Toml.ok_of_map taken
    exact congrArg some (Toml.Value.asText_eq_ok_iff.mp text)
  · change Option.Rel _ _ filled.span
    refine Toml.lookup_part (P := Option.Rel _) span distinct.nodup all .none
      fun before after value member taken => ?_
    obtain ⟨found, source, rfl⟩ := Toml.ok_of_map taken
    obtain ⟨table, rfl⟩ := tabular.span value member
    have inner := Toml.Value.keyed_table_iff.mp (distinct.each _ member)
    exact .some ⟨table, rfl, Span.mirrors_of_ofValue inner.nodup source⟩
  · change Toml.Binds _ _ filled.bindings
    refine Toml.lookup_part (P := Toml.Binds _) bindings distinct.nodup all .absent
      fun before after value member taken => ?_
    obtain ⟨listed, table, taken⟩ := Toml.ok_of_bind taken
    obtain ⟨found, locals, taken⟩ := Toml.ok_of_bind taken
    obtain rfl := Except.ok.inj taken
    refine .written (Toml.Value.asEntries_eq_ok_iff.mp table) ?_
    refine (Toml.readEntries_eq_ok_iff.mp locals).imp fun entry among literal read => ?_
    refine (Toml.Value.asLiteral_eq_ok_iff fun n written => ?_).mp read
    exact tabular.integers entry.1 n ⟨value, listed, member, table, written ▸ among⟩
  · change Toml.Binds _ _ filled.typeArguments
    refine Toml.lookup_part (P := Toml.Binds _) typeArguments distinct.nodup all .absent
      fun before after value member taken => ?_
    obtain ⟨listed, table, taken⟩ := Toml.ok_of_bind taken
    obtain ⟨found, texts, taken⟩ := Toml.ok_of_bind taken
    obtain rfl := Except.ok.inj taken
    refine .written (Toml.Value.asEntries_eq_ok_iff.mp table) ?_
    exact (Toml.readEntries_eq_ok_iff.mp texts).imp fun _ _ _ => Toml.Value.asText_eq_ok_iff.mp

/-- Every call inside is in the format, and its integers fit. -/
def AllWellFormed (value : Toml.Value) : Prop :=
  ∀ path node, WrittenAt value path node →
    WellFormed node ∧ ∀ name n, WritesInteger node name n → Toml.Value.Fits n

theorem AllWellFormed.child {items : List Toml.Value} {child : Toml.Value}
    (formed : AllWellFormed value) (children : ("children", .array items) ∈ value.fields keys)
    (item : child ∈ items) : AllWellFormed child := by
  intro path node inside
  obtain ⟨i, there⟩ := List.getElem?_of_mem item
  exact formed (i :: path) node (.child children there inside)

theorem exists_ofValues {items : List Toml.Value}
    (each : ∀ item ∈ items, ∃ call, ofValue item = .ok call) :
    ∃ calls, ofValues items = .ok calls := by
  induction items with
  | nil => exact ⟨[], ofValues_eq_ok_iff.mpr .nil⟩
  | cons first rest ih =>
      obtain ⟨⟨call, one⟩, others⟩ := List.forall_mem_cons.mp each
      obtain ⟨calls, more⟩ := ih others
      exact ⟨call :: calls, ofValues_eq_ok_iff.mpr (.cons one (ofValues_eq_ok_iff.mp more))⟩

theorem take_map {β γ : Type} {read : Toml.Value → Except DocumentFault β}
    {listed : List (String × Toml.Value)} {map : OrderedMap β} {set : OrderedMap β → γ}
    (lists : value.Lists listed) (all : readEntries read listed = .ok map) :
    (do return set (← readEntries read (← value.asEntries))) = .ok (set map) := by
  rw [Toml.Value.asEntries_eq_ok_iff.mpr lists]
  change (readEntries read listed >>= fun map => pure (set map)) = _
  rw [all]
  rfl

/-- An entry of the format is taken, given that its integers fit and its children are read. -/
theorem exists_take {key : String} (known : ∃ shape, (key, shape) ∈ format ∧ shape value)
    (keyed : value.Keyed)
    (fits : key = "locals" → ∀ listed, value.Lists listed →
      ∀ entry ∈ listed, ∀ n, entry.2 = .integer n → Toml.Value.Fits n)
    (children : key = "children" → ∀ items, value = .array items →
      ∃ calls, ofValues items = .ok calls) (c : Partial) :
    ∃ taken, c.take key value = .ok taken := by
  obtain ⟨shape, known, shaped⟩ := known
  simp only [format, List.mem_cons, Prod.mk.injEq, List.not_mem_nil, or_false] at known
  obtain ⟨rfl, rfl⟩ | ⟨rfl, rfl⟩ | ⟨rfl, rfl⟩ | ⟨rfl, rfl⟩ | ⟨rfl, rfl⟩ | ⟨rfl, rfl⟩ := known
  · obtain ⟨name, rfl⟩ := shaped
    exact ⟨{ c with function := some name }, rfl⟩
  · obtain ⟨name, rfl⟩ := shaped
    exact ⟨{ c with lambda := some name }, rfl⟩
  · obtain ⟨table, rfl, -⟩ := id shaped
    have nodup := (Toml.Value.keyed_table_iff.mp keyed).nodup
    obtain ⟨span, read⟩ := (Span.exists_ofValue_iff nodup).mpr shaped
    exact ⟨_, congrArg (Except.map _) read⟩
  · obtain ⟨listed, lists, literals⟩ := shaped
    obtain ⟨bindings, locals⟩ : ∃ bindings,
        readEntries Toml.Value.asLiteral listed = .ok bindings := by
      refine Toml.exists_readEntries_iff.mpr fun entry among => ?_
      obtain ⟨literal, denotes⟩ := literals entry among
      have fits := fits rfl listed lists entry among
      exact ⟨literal, (Toml.Value.asLiteral_eq_ok_iff fits).mpr denotes⟩
    exact ⟨{ c with bindings }, take_map lists locals⟩
  · obtain ⟨listed, lists, texts⟩ := shaped
    obtain ⟨typeArguments, read⟩ : ∃ texts, readEntries Toml.Value.asText listed = .ok texts := by
      refine Toml.exists_readEntries_iff.mpr fun entry among => ?_
      obtain ⟨text, same⟩ := texts entry among
      exact ⟨text, Toml.Value.asText_eq_ok_iff.mpr same⟩
    exact ⟨{ c with typeArguments }, take_map lists read⟩
  · obtain ⟨items, rfl⟩ := shaped
    obtain ⟨calls, read⟩ := children rfl items rfl
    exact ⟨_, congrArg (Except.map _) read⟩

theorem exists_ofValue (keyed : value.Keyed) (formed : AllWellFormed value) :
    ∃ c, ofValue value = .ok c := by
  -- Between a call and its children stands an array that is no call itself, so the induction
  -- says of an array that its items are read.
  suffices h : (AllWellFormed value → ∃ c, ofValue value = .ok c) ∧
      ∀ items, value = .array items → ∀ item ∈ items, AllWellFormed item →
        ∃ c, ofValue item = .ok c from h.1 formed
  clear formed
  induction keyed with
  | scalar scalar =>
      constructor
      · intro formed
        obtain ⟨⟨entries, rfl, -⟩, -⟩ := formed [] _ .self
        exact nomatch scalar
      · rintro items rfl
        exact nomatch scalar
  | array each ih =>
      constructor
      · intro formed
        obtain ⟨⟨entries, same, -⟩, -⟩ := formed [] _ .self
        exact nomatch same
      · rintro items ⟨⟩ item member
        exact (ih item member).1
  | @table entries nodup each ih =>
      refine ⟨fun formed => ?_, nofun⟩
      obtain ⟨⟨_, ⟨⟩, conforms⟩, fits⟩ := formed [] _ .self
      have takes : ∀ entry ∈ entries, ∀ c : Partial, ∃ taken,
          c.take entry.1 entry.2 = .ok taken := by
        rintro ⟨key, value⟩ member
        refine exists_take (conforms _ member) (each _ member) ?_ ?_
        · rintro rfl listed lists ⟨name, literal⟩ among n rfl
          exact fits name n ⟨value, listed, member, Toml.Value.asEntries_eq_ok_iff.mpr lists, among⟩
        · rintro rfl items rfl
          exact exists_ofValues fun item inside =>
            (ih _ member).2 items rfl item inside (formed.child member inside)
      obtain ⟨filled, all⟩ := Toml.exists_fill takes {}
      refine ⟨filled.finish, ?_⟩
      rw [ofValue, ofEntries_eq_fill, all]
      rfl

theorem children_cases (keyed : value.Keyed) (read : ofValue value = .ok c) :
    c.children = [] ∨ ∃ items, ("children", .array items) ∈ value.fields keys ∧
      ofValues items = .ok c.children := by
  by_cases written : "children" ∈ (value.fields keys).map (·.1)
  · obtain ⟨⟨_, children⟩, member, rfl⟩ := List.mem_map.mp written
    have list := children_of_ofValue keyed read member
    cases children with
    | array items => exact .inr ⟨items, member, list⟩
    | _ => exact nomatch list
  · obtain ⟨filled, all, rfl⟩ := filled_of_ofValue read
    exact .inl (Toml.part_of_absent owns.2.2.2.2.2 written all)

/-- Where a tree has a call the document has one. -/
theorem exists_writtenAt {inner : Call} {path : List Nat} (keyed : value.Keyed)
    (read : ofValue value = .ok c) (there : c.at? path = some inner) :
    ∃ node, WrittenAt value path node := by
  induction path generalizing value c with
  | nil => exact ⟨value, .self⟩
  | cons i path ih =>
      obtain ⟨child, at_i, inside⟩ := Option.bind_eq_some_iff.mp there
      obtain none | ⟨items, children, list⟩ := children_cases keyed read
      · rw [none] at at_i
        exact nomatch at_i
      · have list := ofValues_eq_ok_iff.mp list
        obtain ⟨within, rfl⟩ := List.getElem?_eq_some_iff.mp at_i
        have within' := list.length_eq ▸ within
        have below := keyed_child keyed children (List.getElem_mem within')
        obtain ⟨node, written⟩ := ih below (list.get within' within) inside
        exact ⟨node, .child children (List.getElem?_eq_getElem within') written⟩

theorem hookCalls_subset_of_mem {child : Call} {calls : List Call} {above : List Call}
    (member : child ∈ calls) : child.hookCalls above ⊆ hookCallsAll above calls := by
  induction calls with
  | nil => exact absurd member List.not_mem_nil
  | cons first rest ih =>
      rw [hookCallsAll]
      obtain rfl | later := List.mem_cons.mp member
      · exact List.subset_append_left _ _
      · exact List.Subset.trans (ih later) (List.subset_append_right _ _)

/-- A run enters a call as its expression, one deeper than the calls it is inside. -/
theorem exists_enter {inner : Call} {place : List Nat} (there : c.at? place = some inner)
    (above : List Call) : ∃ parent,
      .enter inner.expression parent (above.length + place.length + 1) ∈ c.hookCalls above := by
  induction place generalizing c above with
  | nil =>
      obtain rfl := Option.some.inj there
      obtain ⟨function, lambda, span, bindings, typeArguments, children⟩ := c
      exact ⟨above.getLast?.map expression, by simp [hookCalls]⟩
  | cons i place ih =>
      obtain ⟨child, at_i, inside⟩ := Option.bind_eq_some_iff.mp there
      obtain ⟨parent, entered⟩ := ih inside (above ++ [c])
      have deeper : (above ++ [c]).length + place.length + 1 =
          above.length + (i :: place).length + 1 := by
        simp only [List.length_append, List.length_cons, List.length_nil]
        omega
      rw [deeper] at entered
      have below := hookCalls_subset_of_mem (List.mem_of_getElem? at_i) entered
      obtain ⟨function, lambda, span, bindings, typeArguments, children⟩ := c
      exact ⟨parent, .tail _ (.tail _ (List.mem_append_left _ below))⟩

end Call

namespace CallTree
variable {reader : Toml.Reader} {text : String} {entries : List (String × Toml.Value)}
  {tree : CallTree}

/-- The document has this value for the call at the path inside the entry call. -/
def Writes (entries : List (String × Toml.Value)) (path : List Nat) (node : Toml.Value) : Prop :=
  ∃ main, ("main", main) ∈ entries ∧ Call.WrittenAt main path node

/-- The entry call is all there is, and each call is in the format. -/
structure WellFormed (entries : List (String × Toml.Value)) : Prop where
  keys : entries.map (·.1) = ["main"]
  calls : ∀ path node, Writes entries path node → Call.WellFormed node

theorem ofDocument_eq_ok_iff {read : Toml.DocumentReader} (document : read text = .ok entries) :
    ofDocument read text = .ok tree ↔ ofEntries entries = .ok tree := by
  rw [ofDocument, document]
  dsimp only
  cases ofEntries entries <;> simp

/-- An accepted document has a call where its tree has one, and there a value that is read as
that call. -/
theorem read_of_writes {path : List Nat} {node : Toml.Value}
    (document : reader.read text = .ok entries)
    (accepted : ofDocument reader.read text = .ok tree) (written : Writes entries path node) :
    ∃ call, tree.main.at? path = some call ∧ node.Keyed ∧ Call.ofValue node = .ok call := by
  obtain ⟨main, entry, inside⟩ := written
  exact Call.at?_of_writtenAt inside ((reader.distinct document).each _ entry)
    (main_of_ofDocument document entry accepted)

theorem exists_writes_iff (document : reader.read text = .ok entries)
    (accepted : ofDocument reader.read text = .ok tree) (path : List Nat) :
    (∃ call, tree.main.at? path = some call) ↔ ∃ node, Writes entries path node := by
  constructor
  · rintro ⟨call, there⟩
    obtain ⟨main, rfl, read⟩ := ofEntries_cases ((ofDocument_eq_ok_iff document).mp accepted)
    have keyed := (reader.distinct document).each _ List.mem_cons_self
    obtain ⟨node, inside⟩ := Call.exists_writtenAt keyed read there
    exact ⟨node, main, List.mem_cons_self, inside⟩
  · rintro ⟨node, written⟩
    obtain ⟨call, there, -, -⟩ := read_of_writes document accepted written
    exact ⟨call, there⟩

theorem wellFormed_of_ofDocument (document : reader.read text = .ok entries)
    (tabular : ∀ path node, Writes entries path node → Call.Tabular node)
    (accepted : ofDocument reader.read text = .ok tree) : WellFormed entries where
  keys := by
    obtain ⟨main, rfl, -⟩ := ofEntries_cases ((ofDocument_eq_ok_iff document).mp accepted)
    rfl
  calls path node written := by
    obtain ⟨table, rfl⟩ := (tabular path node written).call
    obtain ⟨call, -, keyed, read⟩ := read_of_writes document accepted written
    exact ⟨table, rfl, Call.conforms_of_ofValue keyed (tabular path _ written) read⟩

theorem exists_ofDocument (document : reader.read text = .ok entries)
    (tabular : ∀ path node, Writes entries path node → Call.Tabular node)
    (formed : WellFormed entries) : ∃ tree, ofDocument reader.read text = .ok tree := by
  obtain ⟨⟨key, main⟩, rfl, rfl⟩ : ∃ entry, entries = [entry] ∧ entry.1 = "main" := by
    simpa [List.map_eq_cons_iff] using formed.keys
  have keyed := (reader.distinct document).each _ List.mem_cons_self
  obtain ⟨call, read⟩ := Call.exists_ofValue keyed fun path node inside =>
    have written := ⟨main, List.mem_cons_self, inside⟩
    ⟨formed.calls path node written, (tabular path node written).integers⟩
  refine ⟨⟨call⟩, (ofDocument_eq_ok_iff document).mpr ?_⟩
  rw [ofEntries, read]
  rfl

theorem calls_run_recording (tree : CallTree) :
    (tree.run (Recording.hook none) {}).2.calls = tree.hookCalls.toArray := by
  have run := congrFun (run_of_accepts tree Recording.accepts_hook) {}
  rw [run]
  change (HookCall.makeAll (Recording.hook none) tree.hookCalls {}).2.calls = _
  rw [Recording.makeAll_hook, Array.empty_append]

/-- Whoever reads the document: where calls and spans are tables, and the integers of locals fit, a
text is accepted exactly if it is well-formed; it is an error of the configuration otherwise. An
accepted tree has calls where the document has them, each with what is written for it, and a run
enters each with the span that is written, where the line stands for an end of the range that is
not. -/
theorem accepted_iff_well_formed (reader : Toml.Reader) (document : reader.read text = .ok entries)
    (tabular : ∀ path node, Writes entries path node → Call.Tabular node) :
    ((∃ tree, ofDocument reader.read text = .ok tree) ↔ WellFormed entries) ∧
    (¬ WellFormed entries →
      ∃ fault, ofDocument reader.read text = .error (.invalidConfig (.program fault))) ∧
    ∀ tree, ofDocument reader.read text = .ok tree →
      (∀ path, (∃ call, tree.main.at? path = some call) ↔ ∃ node, Writes entries path node) ∧
      ∀ path table call, Writes entries path (.table table) → tree.main.at? path = some call →
        call.Mirrors table ∧
        call.expression.source = call.span.map (fun span =>
          ⟨span.file, span.first.getD span.line, span.line, span.last.getD span.line⟩) ∧
        ∃ parent, .enter call.expression parent (path.length + 1) ∈
          (tree.run (Recording.hook none) {}).2.calls := by
  refine ⟨⟨?_, exists_ofDocument document tabular⟩, fun malformed => ?_,
    fun tree accepted => ⟨?_, ?_⟩⟩
  · rintro ⟨tree, accepted⟩
    exact wellFormed_of_ofDocument document tabular accepted
  · exact refused_of_not_accepted fun tree accepted =>
      malformed (wellFormed_of_ofDocument document tabular accepted)
  · exact exists_writes_iff document accepted
  · intro path table call written there
    obtain ⟨found, same, keyed, read⟩ := read_of_writes document accepted written
    obtain rfl := Option.some.inj (there.symm.trans same)
    obtain ⟨parent, entered⟩ := Call.exists_enter there []
    refine ⟨Call.mirrors_of_ofValue keyed (tabular path _ written) read, rfl, parent, ?_⟩
    rw [calls_run_recording, List.mem_toArray, hookCalls]
    rw [List.length_nil, Nat.zero_add] at entered
    exact .tail _ (List.mem_append_left _ entered)

/-- A main with one child, whose span has no first line. -/
theorem accepted_iff_well_formed_of_child :
    let text := "[[main.children]]\nlocals.x = 3\nsource = \x7bfile='a', line=4, end_line=9\x7d\n"
    ∃ entries tree, Toml.read text = .ok entries ∧ WellFormed entries ∧ ofText text = .ok tree ∧
      ∃ call parent, tree.main.at? [0] = some call ∧ call.bindings = [("x", .integer 3)] ∧
        call.expression.source = some ⟨"a", 4, 4, 9⟩ ∧
        .enter call.expression parent 2 ∈ (tree.run (Recording.hook none) {}).2.calls := by
  let span : List (String × Toml.Value) :=
    [("end_line", .integer 9), ("file", .string "a"), ("line", .integer 4)]
  let locals : List (String × Toml.Value) := [("x", .integer 3)]
  let inner : List (String × Toml.Value) := [("locals", .table locals), ("source", .table span)]
  let main : Toml.Value := .table [("children", .array [.table inner])]
  have document : Toml.read
      "[[main.children]]\nlocals.x = 3\nsource = \x7bfile='a', line=4, end_line=9\x7d\n" =
      .ok [("main", main)] := by decide +kernel
  have writes {path : List Nat} {node : Toml.Value} (written : Writes [("main", main)] path node) :
      (path = [] ∧ node = main) ∨ (path = [0] ∧ node = .table inner) := by
    obtain ⟨value, entry, inside⟩ := written
    obtain ⟨-, rfl⟩ := Prod.mk.inj (List.mem_singleton.mp entry)
    cases inside with
    | self => exact .inl ⟨rfl, rfl⟩
    | @child _ _ _ _ i _ children item inside =>
        obtain ⟨-, same⟩ := Prod.mk.inj (List.mem_singleton.mp children)
        obtain rfl := Toml.Value.array.inj same
        cases i with
        | succ i => simp at item
        | zero =>
            obtain rfl := Option.some.inj item
            cases inside with
            | self => exact .inr ⟨rfl, rfl⟩
            | child children => simp [Toml.Value.fields, inner] at children
  have tabular (path : List Nat) (node : Toml.Value) (written : Writes [("main", main)] path node) :
      Call.Tabular node := by
    obtain ⟨-, rfl⟩ | ⟨-, rfl⟩ := writes written
    · refine ⟨⟨_, rfl⟩, fun span source => ?_, ?_⟩
      · simp [main, Toml.Value.fields] at source
      · rintro name n ⟨table, entries, locals, -, -⟩
        simp [main, Toml.Value.fields] at locals
    · refine ⟨⟨_, rfl⟩, fun value source => ⟨span, ?_⟩, ?_⟩
      · simpa [inner, Toml.Value.fields] using source
      · rintro name n ⟨table, entries, written, listed, member⟩
        obtain rfl : table = .table locals := by simpa [inner, Toml.Value.fields] using written
        obtain rfl := Except.ok.inj listed
        obtain ⟨-, same⟩ := Prod.mk.inj (List.mem_singleton.mp member)
        obtain rfl := Toml.Value.integer.inj same
        exact ⟨by decide, by decide⟩
  let child := Call.mk none none (some ⟨"a", 4, none, some 9⟩) [("x", .integer 3)] [] []
  let tree : CallTree := ⟨.mk none none none [] [] [child]⟩
  have loaded : ofEntries [("main", main)] = .ok tree := rfl
  have accepted : ofText _ = .ok tree := (ofDocument_eq_ok_iff document).mpr loaded
  have known := document
  rw [← Toml.read_reader] at known
  have children : ("children", .array [.table inner]) ∈ main.fields Call.keys := List.mem_cons_self
  have written : Writes [("main", main)] [0] (.table inner) :=
    ⟨main, List.mem_cons_self, .child children rfl .self⟩
  obtain ⟨⟨formed, -⟩, -, mirrored⟩ := accepted_iff_well_formed Toml.reader known tabular
  obtain ⟨-, each⟩ := mirrored tree accepted
  obtain ⟨-, source, parent, entered⟩ := each [0] inner child written rfl
  exact ⟨_, tree, document, formed ⟨tree, accepted⟩, accepted, child, parent, rfl, rfl, source,
    entered⟩

/-- A moment is no table, and still taken for the locals of a call. -/
theorem moment_is_read_as_locals :
    Toml.read "[main]\nlocals = 1979-05-27\n" =
        .ok [("main", .table [("locals", .moment "1979-05-27")])] ∧
      ¬ (Toml.Value.moment "1979-05-27").IsTable ∧
      ∃ tree, ofText "[main]\nlocals = 1979-05-27\n" = .ok tree ∧
        tree.main.bindings = [("$__toml_private_datetime", .string "1979-05-27")] := by
  have document : Toml.read "[main]\nlocals = 1979-05-27\n" =
      .ok [("main", .table [("locals", .moment "1979-05-27")])] := by decide +kernel
  have other : ¬ (Toml.Value.moment "1979-05-27").IsTable := by
    rintro ⟨entries, same⟩
    cases same
  refine ⟨document, other,
    ⟨.mk none none none [("$__toml_private_datetime", .string "1979-05-27")] [] []⟩, ?_, rfl⟩
  exact (ofDocument_eq_ok_iff document).mpr rfl

end CallTree
end Debugger
