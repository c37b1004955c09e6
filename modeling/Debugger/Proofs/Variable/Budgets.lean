import Debugger.Proofs.Config.Budget
import Debugger.Proofs.Variable.Truncation

/-! Main statement: a preview keeps to its budget, and a larger budget never shows less. Only the
fixed word of an unbound variable is not cut, so that it needs a budget it fits into; every budget
of settings that are read is one. -/
namespace Debugger.Variable
variable {v : Variable} {value : Value} {m n : Nat}

theorem length_preview_of_bound (bound : v.value = some value) (n : Nat) :
    (v.preview n).length = min value.print.length n := by
  rw [preview, bound]
  dsimp only
  rw [String.length_ofList, Preview.length_truncate, String.length_toList]

theorem length_preview_of_unbound (unbound : v.value = none) (n : Nat) :
    (v.preview n).length = 3 := by
  rw [preview, unbound]
  dsimp only
  decide

theorem length_preview_le_iff (v : Variable) (n : Nat) :
    (v.preview n).length ≤ n ↔ v.value.isSome ∨ 3 ≤ n := by
  cases known : v.value with
  | none =>
      rw [length_preview_of_unbound known, Option.isSome_none]
      exact (or_iff_right Bool.false_ne_true).symm
  | some value =>
      rw [length_preview_of_bound known]
      exact iff_of_true (Nat.min_le_right _ _) (.inl rfl)

theorem length_preview_mono (v : Variable) (less : m ≤ n) :
    (v.preview m).length ≤ (v.preview n).length := by
  cases known : v.value with
  | none => exact Nat.le_of_eq (by simp only [length_preview_of_unbound known])
  | some value =>
      rw [length_preview_of_bound known, length_preview_of_bound known]
      omega

/-- A preview has at most as many characters as its budget exactly if there is a value to cut or
room for the word that stands for none, and no fewer with a larger budget. Settings that are read
never give a budget that is exceeded. -/
theorem preview_within_budget (v : Variable) (m n : Nat) :
    ((v.preview n).length ≤ n ↔ v.value.isSome ∨ 3 ≤ n) ∧
    (m ≤ n → (v.preview m).length ≤ (v.preview n).length) ∧
    ∀ text config, Config.ofText text = .ok config →
      (v.preview config.previewLength).length ≤ config.previewLength := by
  refine ⟨v.length_preview_le_iff n, v.length_preview_mono, fun text config read => ?_⟩
  have enough : 4 ≤ config.previewLength := 
    (Config.budget_of_ofDocument Toml.reader read).enough
  exact (v.length_preview_le_iff _).mpr (.inr (Nat.le_of_succ_le enough))

/-- A text of six characters is cut to two and to five, and no shorter in the larger budget. The
smallest budget that settings can give has room for it too. -/
theorem preview_within_budget_of_text :
    let v : Variable := { name := "x", value := some (.string "abcd"), isLocal := true }
    let settings := "[debug]\npreview_length = 4\n"
    let config : Config := { previewLength := 4 }
    v.preview 2 = ".." ∧ v.preview 5 = "'a..." ∧ 2 ≤ 5 ∧
      (v.preview 2).length ≤ (v.preview 5).length ∧ (v.preview 5).length ≤ 5 ∧
      Config.ofText settings = .ok config ∧ (v.preview config.previewLength).length ≤ 4 := by
  intro v settings config
  have less : 2 ≤ 5 := by decide
  have document : Toml.read settings =
      .ok [("debug", .table [("preview_length", .integer 4)])] := by
    decide +kernel
  have accepted : Config.ofText settings = .ok config := by
    rw [Config.ofText, Config.ofDocument, document]
    rfl
  obtain ⟨within, larger, configured⟩ := preview_within_budget v 2 5
  exact ⟨by decide, by decide, less, larger less, within.mpr (.inl rfl), accepted,
    configured settings config accepted⟩

/-- The word for an unbound variable is not cut to a budget of two. -/
theorem unbound_preview_exceeds_budget :
    let v : Variable := { name := "x", value := none, isLocal := true }
    v.preview 2 = "nil" ∧ ¬ (v.preview 2).length ≤ 2 := by
  decide

end Debugger.Variable
