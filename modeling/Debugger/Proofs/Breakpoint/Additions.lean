import Debugger.Proofs.Breakpoint.Asking
import Debugger.Proofs.Breakpoint.Numbering

/-! Stores that are only added to, as before a program starts. Each breakpoint is there under the
identifier of its addition until another addition is handed out the same, so that a store asks for
all its kinds as long as they do not exceed the identifiers. -/
namespace Debugger
namespace Store

def addAll (s : Store) (kinds : List Breakpoint.Kind) : Store :=
  kinds.foldl (fun s kind => (s.add kind).2) s

/-- The store after additions only, one for each of these kinds in order. Each is there under
its own identifier, unless as many followed it as there are sequence numbers. -/
structure Added (kinds : List Breakpoint.Kind) (s : Store) : Prop where
  next : s.next = UInt32.ofNat kinds.length
  distinct : (s.entries.map (·.id)).Nodup
  mem_iff : ∀ b, b ∈ s.entries ↔ ∃ i kind, kinds[i]? = some kind ∧
    kinds.length ≤ i + UInt32.size ∧ b = { id := .ofSequence (.ofNat i), kind }

namespace Added
variable {kinds : List Breakpoint.Kind} {s : Store}

theorem empty : Added [] {} :=
  ⟨rfl, List.nodup_nil, by simp⟩

theorem add (added : Added kinds s) (kind : Breakpoint.Kind) :
    Added (kinds ++ [kind]) (s.add kind).2 := by
  have entries : (s.add kind).2.entries =
      put { id := .ofSequence (.ofNat kinds.length), kind } s.entries := by
    rw [← added.next]
    rfl
  refine ⟨?_, distinct_perform (.add kind) added.distinct, fun b => ?_⟩
  · rw [List.length_append, List.length_singleton, UInt32.ofNat_add, ← added.next]
    rfl
  · rw [entries, mem_put_iff, added.mem_iff, List.length_append, List.length_singleton]
    have words : UInt32.size = 4294967296 := rfl
    constructor
    · rintro (rfl | ⟨⟨i, old, held, recent, rfl⟩, different⟩)
      · exact ⟨kinds.length, kind, List.getElem?_concat_length, by omega, rfl⟩
      · obtain ⟨small, -⟩ := List.getElem?_eq_some_iff.mp held
        have apart := mt BreakpointId.ofSequence_ofNat_eq_iff.mpr different
        rw [words] at apart recent
        exact ⟨i, old, by rwa [List.getElem?_append_left small], by omega, rfl⟩
    · rintro ⟨i, old, held, recent, rfl⟩
      by_cases small : i < kinds.length
      · rw [List.getElem?_append_left small] at held
        refine .inr ⟨⟨i, old, held, by omega, rfl⟩, mt BreakpointId.ofSequence_ofNat_eq_iff.mp ?_⟩
        rw [words] at recent ⊢
        omega
      · obtain ⟨last, rfl⟩ : i = kinds.length ∧ kind = old := by
          rw [List.getElem?_append_right (Nat.le_of_not_lt small), List.getElem?_singleton] at held
          split at held
          · exact ⟨by omega, Option.some.inj held⟩
          · exact nomatch held
        exact .inl (by rw [last])

theorem addAll (added : Added kinds s) (more : List Breakpoint.Kind) :
    Added (kinds ++ more) (s.addAll more) := by
  induction more generalizing kinds s with
  | nil => rwa [List.append_nil]
  | cons kind rest ih =>
      have others := ih (added.add kind)
      rwa [List.append_assoc, List.singleton_append] at others

/-- As long as the additions do not exceed the identifiers, each kind is still asked for. -/
theorem asks (added : Added kinds s) (few : kinds.length ≤ UInt32.size) : Asks kinds s := by
  refine ⟨fun b member => ?_, fun kind => ?_⟩
  · obtain ⟨i, kind, -, -, rfl⟩ := (added.mem_iff b).mp member
    exact ⟨rfl, rfl⟩
  · rw [List.mem_map]
    constructor
    · rintro ⟨b, member, rfl⟩
      obtain ⟨i, kind, held, -, rfl⟩ := (added.mem_iff b).mp member
      exact List.mem_of_getElem? held
    · intro member
      obtain ⟨i, held⟩ := List.mem_iff_getElem?.mp member
      exact ⟨_, (added.mem_iff _).mpr ⟨i, kind, held, by omega, rfl⟩, rfl⟩

end Added

theorem asks_addAll (kinds : List Breakpoint.Kind) (few : kinds.length ≤ UInt32.size) :
    Asks kinds (addAll {} kinds) :=
  (Added.empty.addAll kinds).asks few

end Store
end Debugger
