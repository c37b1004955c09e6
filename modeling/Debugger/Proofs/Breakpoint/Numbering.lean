import Debugger.Proofs.Breakpoint.Histories
import Debugger.Toml.Scalar

/-! The identifiers of one store, numbered by their additions. Main statement: two additions hand
out the same identifier exactly if as many sequence numbers as there are lie between them, or a
multiple of that; each identifier spells a word in eight digits, and listing is by these words. -/
namespace Debugger

namespace Text

theorem hexDigit_lt_iff {m n : Nat} (small : m < 16) (other : n < 16) :
    hexDigit m < hexDigit n ↔ m < n := by
  have digits : ∀ a b : Fin 16, hexDigit a < hexDigit b ↔ a < b := by decide
  exact digits ⟨m, small⟩ ⟨n, other⟩

theorem hexDigit?_hexDigit {n : Nat} (small : n < 16) : Toml.hexDigit? (hexDigit n) = some n := by
  have digits : ∀ a : Fin 16, Toml.hexDigit? (hexDigit a) = some a.val := by decide
  exact digits ⟨n, small⟩

theorem concat_lt_concat_iff {front other : List Char} {c d : Char}
    (same : front.length = other.length) :
    front ++ [c] < other ++ [d] ↔ front < other ∨ front = other ∧ c < d := by
  induction front generalizing other with
  | nil =>
      obtain rfl := List.length_eq_zero_iff.mp same.symm
      simp [List.cons_lt_cons_iff]
  | cons a front ih =>
      obtain ⟨b, other, rfl⟩ := List.exists_cons_of_length_eq_add_one same.symm
      rw [List.cons_append, List.cons_append, List.cons_lt_cons_iff, List.cons_lt_cons_iff,
        ih (Nat.succ.inj same), List.cons.injEq, and_or_left, or_assoc, and_assoc]

/-- Written with the same width, numbers are ordered as their texts are. -/
theorem hex_lt_iff (width : Nat) {m n : Nat} (small : m < 1 <<< (4 * width))
    (other : n < 1 <<< (4 * width)) : hex width m < hex width n ↔ m < n := by
  induction width generalizing m n with
  | zero => simp [hex, Nat.lt_one_iff.mp small, Nat.lt_one_iff.mp other]
  | succ width ih =>
      have wider := shiftLeft_digits_succ width
      have front : hex width (m / 16) = hex width (n / 16) ↔ m / 16 = n / 16 :=
        ⟨hex_inj width (by omega) (by omega), congrArg _⟩
      rw [hex, hex, concat_lt_concat_iff (by rw [length_hex, length_hex]),
        ih (by omega) (by omega), front,
        hexDigit_lt_iff (Nat.mod_lt _ (by decide)) (Nat.mod_lt _ (by decide))]
      omega

/-- Read again, the digits of a number give the number. -/
theorem valueOf_hex (width : Nat) {n : Nat} (small : n < 1 <<< (4 * width)) :
    Toml.valueOf 16 (hex width n) = n := by
  induction width generalizing n with
  | zero => exact (Nat.lt_one_iff.mp small).symm
  | succ width ih =>
      have wider := shiftLeft_digits_succ width
      have front : Toml.valueOf 16 (hex width (n / 16)) = n / 16 := ih (by omega)
      have last : Toml.hexDigit? (hexDigit (n % 16)) = some (n % 16) :=
        hexDigit?_hexDigit (Nat.mod_lt _ (by decide))
      rw [Toml.valueOf] at front ⊢
      rw [hex, List.foldl_append, front, List.foldl_cons, List.foldl_nil, last, Option.getD_some]
      omega

theorem mem_hex {c : Char} {width n : Nat} (member : c ∈ hex width n) :
    c ∈ "0123456789abcdef".toList := by
  have digits : ∀ a : Fin 16, hexDigit a ∈ "0123456789abcdef".toList := by decide
  induction width generalizing n with
  | zero => exact absurd member List.not_mem_nil
  | succ width ih =>
      rw [hex, List.mem_append, List.mem_singleton] at member
      obtain earlier | rfl := member
      · exact ih earlier
      · exact digits ⟨n % 16, Nat.mod_lt _ (by decide)⟩

end Text

namespace BreakpointId
variable {m n : UInt32}

/-- The number that an identifier spells. -/
def number (id : BreakpointId) : Nat :=
  Toml.valueOf 16 id.text.toList

theorem number_ofSequence (n : UInt32) : (ofSequence n).number = (scramble n).toNat := by
  rw [number, ofSequence, String.toList_ofList]
  exact Text.valueOf_hex 8 (UInt32.toNat_lt _)

theorem text_ofSequence_lt_iff :
    (ofSequence m).text < (ofSequence n).text ↔ (ofSequence m).number < (ofSequence n).number := by
  rw [number_ofSequence, number_ofSequence, String.lt_iff, ofSequence, ofSequence,
    String.toList_ofList, String.toList_ofList]
  exact Text.hex_lt_iff 8 (UInt32.toNat_lt _) (UInt32.toNat_lt _)

theorem toNat_scramble_ofNat (i : Nat) :
    (scramble (.ofNat i)).toNat = (i + 1) * 0x9E3779B1 % UInt32.size := by
  simp only [scramble, UInt32.toNat_mul, UInt32.toNat_add, UInt32.toNat_ofNat', UInt32.reduceToNat]
  rw [Nat.mod_add_mod, Nat.mod_mul_mod]

theorem ofSequence_ofNat_eq_iff {i j : Nat} :
    ofSequence (.ofNat i) = ofSequence (.ofNat j) ↔ i % UInt32.size = j % UInt32.size := by
  constructor
  · intro same
    have words := congrArg UInt32.toNat (ofSequence_inj same)
    rwa [UInt32.toNat_ofNat', UInt32.toNat_ofNat'] at words
  · intro same
    exact congrArg ofSequence
      (UInt32.toNat_inj.mp (by rwa [UInt32.toNat_ofNat', UInt32.toNat_ofNat']))

end BreakpointId

namespace Store

section Held
variable {past : List Deed} {s : Store}

/-- An operation leaves identifiers that were there, and the one that it hands out. -/
theorem id_mem_perform (operation : StoreOperation) {b : Breakpoint}
    (member : b ∈ (operation.perform s).2.2.entries) :
    b.id ∈ s.entries.map (·.id) ∨
      Deed.handsOut (operation, (operation.perform s).1) = some b.id := by
  have modified {id : BreakpointId} {change : Breakpoint → Breakpoint}
      (member : b ∈ (s.modify id change).2.entries)
      (kept : ∀ b, b.id = id → (change b).id = id) : b.id ∈ s.entries.map (·.id) := by
    obtain ⟨old, earlier, rfl⟩ := List.mem_map.mp member
    exact List.mem_map.mpr ⟨old, earlier, (id_modified kept old).symm⟩
  cases operation with
  | add kind =>
      obtain rfl | ⟨earlier, -⟩ := mem_put_iff.mp member
      · exact .inr rfl
      · exact .inl (List.mem_map_of_mem earlier)
  | remove id => exact .inl (List.mem_map_of_mem (List.mem_filter.mp member).1)
  | get | list | ids | size | isEmpty => exact .inl (List.mem_map_of_mem member)
  | clear => exact absurd member List.not_mem_nil
  | setEnabled id enabled => exact .inl (modified member fun _ same => same)
  | setCondition id condition => exact .inl (modified member fun _ same => same)
  | setTarget id target => exact .inl (modified member fun _ same => same)
  | shouldBreak site =>
      have visited := ids_visit site s.entries
      exact .inl (visited ▸ List.mem_map_of_mem member)

/-- What a store holds was handed out, also once sequence numbers have wrapped around. -/
theorem held_of_history (history : History past s) : ∀ b ∈ s.entries, b.id ∈ handedOut past := by
  induction history with
  | fresh => exact fun _ member => absurd member List.not_mem_nil
  | perform operation _ held =>
      intro b member
      rw [handedOut_concat, List.mem_append]
      obtain earlier | new := id_mem_perform operation member
      · obtain ⟨old, earlier, same⟩ := List.mem_map.mp earlier
        exact .inl (same ▸ held old earlier)
      · exact .inr (new ▸ List.mem_singleton.mpr rfl)
  | reorder _ order held => exact fun b member => held b (order.mem_iff.mp member)

end Held

/-- Whatever has been done to a store, every addition has handed out an identifier. The i-th and
the j-th are the same exactly if i and j are congruent modulo the number of 32-bit words. Each
has eight digits, which spell i + 1 scrambled to a word, and identifiers are ordered as these
words. In that order breakpoints are listed, each under an identifier that was handed out. -/
theorem identifiers_of_history {past : List Deed} {s : Store} (history : History past s) :
    (∀ kind answer, (.add kind, answer) ∈ past → ∃ id ∈ handedOut past, answer = .id id) ∧
    (∀ i j first second, (handedOut past)[i]? = some first → (handedOut past)[j]? = some second →
      (first = second ↔ i % UInt32.size = j % UInt32.size) ∧
      (first.text < second.text ↔ first.number < second.number)) ∧
    (∀ i id, (handedOut past)[i]? = some id →
      id.text.length = 8 ∧ (∀ c ∈ id.text.toList, c ∈ "0123456789abcdef".toList) ∧
      id.number = (i + 1) * 0x9E3779B1 % UInt32.size) ∧
    (∀ b ∈ s.list, b.id ∈ handedOut past) ∧
    s.list.Pairwise (·.id.number < ·.id.number) := by
  have numbered := Numbered.of_history history
  have held : ∀ b ∈ s.list, b.id ∈ handedOut past := fun b member =>
    held_of_history history b ((KeyOrder.sort_perm _ _).mem_iff.mp member)
  have ordered (first second : BreakpointId) (one : first ∈ handedOut past)
      (other : second ∈ handedOut past) :
      first.text < second.text ↔ first.number < second.number := by
    obtain ⟨i, one⟩ := List.mem_iff_getElem?.mp one
    obtain ⟨j, other⟩ := List.mem_iff_getElem?.mp other
    rw [numbered.getElem?_handedOut one, numbered.getElem?_handedOut other]
    exact BreakpointId.text_ofSequence_lt_iff
  refine ⟨fun kind answer member => ?_, fun i j first second one other => ⟨?_, ?_⟩,
    fun i id issued => ?_, held, ?_⟩
  · obtain ⟨before, after, split⟩ := List.append_of_mem member
    obtain ⟨earlier, -, given⟩ := history.answered split
    exact ⟨(earlier.add kind).1, List.mem_filterMap.mpr ⟨_, member, given ▸ rfl⟩, given.symm⟩
  · rw [numbered.getElem?_handedOut one, numbered.getElem?_handedOut other]
    exact BreakpointId.ofSequence_ofNat_eq_iff
  · exact ordered first second (List.mem_of_getElem? one) (List.mem_of_getElem? other)
  · rw [numbered.getElem?_handedOut issued, BreakpointId.number_ofSequence,
      BreakpointId.toNat_scramble_ofNat, BreakpointId.ofSequence, String.toList_ofList,
      String.length_ofList, Text.length_hex]
    exact ⟨rfl, fun c member => Text.mem_hex member, rfl⟩
  · refine (lists_list numbered.distinct).ascending.imp_of_mem fun one other below => ?_
    exact (ordered _ _ (held _ one) (held _ other)).mp below

/-- The second of these identifiers spells the smaller word, so its breakpoint would be listed
first. That the first one was removed gives nothing back. -/
theorem identifiers_of_history_behind_removal :
    let first : BreakpointId := ⟨"9e3779b1"⟩
    let second : BreakpointId := ⟨"3c6ef362"⟩
    let past : List Deed := [(.add (.line "a" 3), .id first), (.remove first, .flag true),
      (.add (.line "a" 3), .id second)]
    ∃ s, History past s ∧ first ≠ second ∧ second.text < first.text ∧
      second.number < first.number ∧ first.number = 0x9E3779B1 ∧ second.number = 0x3C6EF362 ∧
      s.list.Pairwise (·.id.number < ·.id.number) := by
  intro first second past
  let operations : List StoreOperation := [.add (.line "a" 3), .remove first, .add (.line "a" 3)]
  have done : operations.zip (StoreOperation.performAll {} operations).1 = past := by
    decide +kernel
  have history : History past _ := done ▸ History.fresh.performAll operations
  obtain ⟨-, pairs, spelled, -, listed⟩ := identifiers_of_history history
  obtain ⟨different, -⟩ := pairs 0 1 first second rfl rfl
  obtain ⟨-, ordered⟩ := pairs 1 0 second first rfl rfl
  obtain ⟨-, -, one⟩ := spelled 0 first rfl
  obtain ⟨-, -, other⟩ := spelled 1 second rfl
  have below : second.number < first.number := by
    rw [one, other]
    decide
  exact ⟨_, history, mt different.mp (by decide), ordered.mpr below, below, one, other, listed⟩

theorem History.additions (kind : Breakpoint.Kind) (n : Nat) :
    ∃ past s, History past s ∧ (handedOut past).length = n := by
  induction n with
  | zero => exact ⟨[], {}, .fresh, rfl⟩
  | succ n ih =>
      obtain ⟨past, s, history, few⟩ := ih
      refine ⟨_, _, history.perform (.add kind), ?_⟩
      rw [handedOut_concat, List.length_append, few]
      rfl

/-- There are histories long enough for an identifier to be handed out twice. -/
theorem identifier_handed_out_again :
    ∃ past s id, History past s ∧ (handedOut past)[0]? = some id ∧
      (handedOut past)[UInt32.size]? = some id := by
  obtain ⟨past, s, history, many⟩ := History.additions (.line "a" 3) (UInt32.size + 1)
  have numbered := Numbered.of_history history
  have one := List.getElem?_eq_getElem (show 0 < (handedOut past).length by omega)
  have other := List.getElem?_eq_getElem (show UInt32.size < (handedOut past).length by omega)
  refine ⟨past, s, _, history, one, other.trans (congrArg some ?_)⟩
  rw [numbered.getElem?_handedOut one, numbered.getElem?_handedOut other,
    BreakpointId.ofSequence_ofNat_eq_iff]
  rfl

end Store
end Debugger
