import Debugger.Breakpoint.Basic

/-! Identifiers handed out with different sequence numbers are different. -/
namespace Debugger

namespace Text

theorem hexDigit_inj {m n : Nat} (small : m < 16) (other : n < 16)
    (same : hexDigit m = hexDigit n) : m = n := by
  have digits : ∀ a b : Fin 16, hexDigit a = hexDigit b → a = b := by decide
  exact congrArg Fin.val (digits ⟨m, small⟩ ⟨n, other⟩ same)

theorem length_hex (width n : Nat) : (hex width n).length = width := by
  induction width generalizing n with
  | zero => rfl
  | succ width ih => rw [hex, List.length_append, ih, List.length_singleton]

/-- Written equally, numbers agree in the last digit and in what stands before it. -/
theorem hex_succ_inj {width m n : Nat} (same : hex (width + 1) m = hex (width + 1) n) :
    hex width (m / 16) = hex width (n / 16) ∧ m % 16 = n % 16 := by
  obtain ⟨front, last⟩ := List.append_inj same (by rw [length_hex, length_hex])
  exact ⟨front, hexDigit_inj (Nat.mod_lt _ (by decide)) (Nat.mod_lt _ (by decide))
    (List.singleton_inj.mp last)⟩

/-- With one more digit, sixteen times as many numbers can be written. -/
theorem shiftLeft_digits_succ (width : Nat) :
    1 <<< (4 * (width + 1)) = 16 * (1 <<< (4 * width)) := by
  rw [Nat.mul_succ, Nat.shiftLeft_add, Nat.shiftLeft_eq _ 4]
  omega

/-- Numbers that have no more digits than are written are told apart. -/
theorem hex_inj (width : Nat) {m n : Nat} (small : m < 1 <<< (4 * width))
    (other : n < 1 <<< (4 * width)) (same : hex width m = hex width n) : m = n := by
  induction width generalizing m n with
  | zero => exact (Nat.lt_one_iff.mp small).trans (Nat.lt_one_iff.mp other).symm
  | succ width ih =>
      obtain ⟨front, last⟩ := hex_succ_inj same
      have wider := shiftLeft_digits_succ width
      have quotients := ih (by omega) (by omega) front
      omega

end Text

namespace BreakpointId

/-- The factor has an inverse among the 32-bit words. -/
theorem scramble_inj {first second : UInt32} (same : scramble first = scramble second) :
    first = second := by
  have unscramble (n : UInt32) : scramble n * 0x0E8B2F51 - 1 = n := by
    rw [scramble, UInt32.mul_assoc]
    simp
  rw [← unscramble first, same, unscramble]

theorem ofSequence_inj {first second : UInt32} (same : ofSequence first = ofSequence second) :
    first = second := by
  have texts := String.ofList_injective (congrArg text same)
  exact scramble_inj (UInt32.toNat_inj.mp
    (Text.hex_inj 8 (UInt32.toNat_lt _) (UInt32.toNat_lt _) texts))

theorem ofSequence_ofNat_inj {m n : Nat} (small : m < UInt32.size) (other : n < UInt32.size)
    (same : ofSequence (.ofNat m) = ofSequence (.ofNat n)) : m = n := by
  have words := congrArg UInt32.toNat (ofSequence_inj same)
  rwa [UInt32.toNat_ofNat_of_lt' small, UInt32.toNat_ofNat_of_lt' other] at words

end BreakpointId
end Debugger
