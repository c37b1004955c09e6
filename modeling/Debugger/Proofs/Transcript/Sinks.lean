import Debugger.Transcript

/-! Sinks that take so many lines. A text that is written piece by piece is taken as if
it were written at once; of a text with more lines than there is room for, a sink takes
the first lines. -/
namespace Debugger

/-- A text of lines that all have their end. -/
def Lined (text : List Char) : Prop :=
  text = [] ∨ text.getLast? = some '\n'

/-- The first lines of a text: so many of them, and all with their end. -/
structure FirstLines (n : Nat) (text part : List Char) : Prop where
  start : part <+: text
  count : part.count '\n' = n
  whole : Lined part

namespace Lined

theorem nil : Lined [] :=
  .inl rfl

theorem line (text : String) : Lined (Transcript.line text) := by
  simp [Lined, Transcript.line]

theorem append {first second : List Char} (one : Lined first) (other : Lined second) :
    Lined (first ++ second) := by
  rcases other with rfl | ends
  · rwa [List.append_nil]
  · exact .inr (by simp [List.getLast?_append, ends])

theorem flatten {pieces : List (List Char)} (lined : ∀ piece ∈ pieces, Lined piece) :
    Lined pieces.flatten := by
  induction pieces with
  | nil => exact nil
  | cons piece rest ih =>
      obtain ⟨first, others⟩ := List.forall_mem_cons.mp lined
      exact first.append (ih others)

theorem of_cons {c : Char} {rest : List Char} (lined : Lined (c :: rest)) :
    Lined rest ∧ (c = '\n' ∨ 0 < rest.count '\n') := by
  obtain ends := lined.resolve_left (List.cons_ne_nil c rest)
  cases rest with
  | nil => exact ⟨nil, .inl (by simpa using ends)⟩
  | cons next rest =>
      rw [List.getLast?_cons_cons] at ends
      exact ⟨.inr ends, .inr (List.count_pos_iff.mpr (List.mem_of_getLast? ends))⟩

end Lined

theorem FirstLines.cons {n m : Nat} {c : Char} {text part : List Char}
    (first : FirstLines n text part) (counts : m = n + if c = '\n' then 1 else 0)
    (ends : c = '\n' ∨ 0 < n) : FirstLines m (c :: text) (c :: part) where
  start := (List.prefix_cons_inj c).mpr first.start
  count := by simp [List.count_cons, first.count, counts]
  whole := by
    rcases first.whole with rfl | last
    · have none : n = 0 := first.count.symm
      exact .inr (by simpa using ends.resolve_right (by omega))
    · exact .inr (by simp [List.getLast?_cons, last])

theorem FirstLines.eq_nil_of_append {n : Nat} {text part rest : List Char}
    (first : FirstLines n text part) (second : FirstLines n text (part ++ rest)) : rest = [] := by
  have none : '\n' ∉ rest := by
    have counts := second.count
    rw [List.count_append, first.count] at counts
    exact List.count_eq_zero.mp (by omega)
  rcases second.whole with empty | ends
  · exact (List.append_eq_nil_iff.mp empty).2
  · by_cases filled : rest = []
    · exact filled
    · rw [List.getLast?_append, List.getLast?_eq_some_getLast filled, Option.some_or] at ends
      exact absurd (Option.some.inj ends ▸ List.getLast_mem filled) none

theorem FirstLines.unique {n : Nat} {text part other : List Char}
    (first : FirstLines n text part) (second : FirstLines n text other) : part = other := by
  rcases List.prefix_or_prefix_of_prefix first.start second.start with
    ⟨rest, rfl⟩ | ⟨rest, rfl⟩
  · rw [first.eq_nil_of_append second, List.append_nil]
  · rw [second.eq_nil_of_append first, List.append_nil]

namespace Sink

theorem accepted_append (room : Nat) (first second : List Char) :
    accepted room (first ++ second) =
      if accepted room first = first then first ++ accepted (room - first.count '\n') second
      else accepted room first := by
  induction first generalizing room with
  | nil => cases room <;> simp [accepted]
  | cons c rest ih =>
      cases room with
      | zero => simp [accepted]
      | succ room =>
          simp only [List.cons_append, accepted, List.cons.injEq, true_and, ih]
          by_cases ends : c = '\n'
          · subst ends
            simp only [if_true, List.count_cons_self, Nat.add_sub_add_right]
            split <;> rfl
          · simp only [if_neg ends, List.count_cons_of_ne ends]
            split <;> rfl

theorem prefix_accepted (room : Nat) (text : List Char) : accepted room text <+: text := by
  induction text generalizing room with
  | nil => cases room <;> exact List.prefix_refl _
  | cons c rest ih =>
      cases room with
      | zero => exact List.nil_prefix
      | succ room => exact (List.prefix_cons_inj c).mpr (ih _)

theorem accepted_of_le {text : List Char} (lined : Lined text) {room : Nat}
    (fits : text.count '\n' ≤ room) : accepted room text = text := by
  induction text generalizing room with
  | nil => cases room <;> rfl
  | cons c rest ih =>
      obtain ⟨others, ends⟩ := lined.of_cons
      by_cases last : c = '\n'
      · subst last
        rw [List.count_cons_self] at fits
        obtain ⟨room, rfl⟩ := Nat.exists_eq_add_one_of_ne_zero (Nat.ne_zero_of_lt fits)
        rw [accepted, if_pos rfl, ih others (Nat.le_of_succ_le_succ fits)]
      · rw [List.count_cons_of_ne last] at fits
        have more := ends.resolve_left last
        obtain ⟨room, rfl⟩ := Nat.exists_eq_add_one_of_ne_zero (by omega : room ≠ 0)
        rw [accepted, if_neg last, ih others fits]

theorem firstLines_accepted {text : List Char} {room : Nat} (short : room < text.count '\n') :
    FirstLines room text (accepted room text) := by
  induction text generalizing room with
  | nil => exact absurd short (Nat.not_lt_zero room)
  | cons c rest ih =>
      cases room with
      | zero => exact ⟨List.nil_prefix, rfl, .inl rfl⟩
      | succ room =>
          by_cases last : c = '\n'
          · subst last
            rw [List.count_cons_self] at short
            exact (ih (Nat.lt_of_succ_lt_succ short)).cons (by simp) (.inl rfl)
          · rw [List.count_cons_of_ne last] at short
            rw [accepted, if_neg last]
            exact (ih short).cons (by simp [last]) (.inr (Nat.succ_pos room))

@[simp] theorem write_nil (s : Sink) : s.write [] = (true, s) := by
  obtain ⟨written, limit⟩ := s
  cases limit with
  | none => simp [write]
  | some room => cases room <;> simp [write, accepted]

/-- Two texts are written one after the other, unless the first one is refused. -/
theorem write_append (first second : List Char) (s : Sink) :
    s.write (first ++ second) =
      if (s.write first).1 then (s.write first).2.write second else s.write first := by
  obtain ⟨written, limit⟩ := s
  cases limit with
  | none => simp [write]
  | some room =>
      by_cases taken : accepted room first = first
      · simp [write, accepted_append, taken, List.append_assoc, Nat.sub_sub]
      · have shorter : (accepted room first).length < first.length :=
          Nat.lt_of_le_of_ne (prefix_accepted room first).length_le fun same =>
            taken ((prefix_accepted room first).eq_of_length same)
        simp [write, accepted_append, taken, Nat.ne_of_lt shorter]
        omega

/-- A fresh sink takes a text of lines exactly if there is room for them. -/
theorem write_lined {text : List Char} (lined : Lined text) (room : Nat) :
    (text.count '\n' ≤ room ∧ (write text { limit := some room }).1 = true ∧
      (write text { limit := some room }).2.written = text) ∨
    (room < text.count '\n' ∧ (write text { limit := some room }).1 = false ∧
      FirstLines room text (write text { limit := some room }).2.written) := by
  rcases Nat.lt_or_ge room (text.count '\n') with short | fits
  · have part := firstLines_accepted short
    refine .inr ⟨short, ?_, part⟩
    have cut : (accepted room text).length ≠ text.length := fun same => by
      have whole := (prefix_accepted room text).eq_of_length same
      exact absurd (whole ▸ part.count) (Nat.ne_of_gt short)
    simp [write, cut]
  · have all := accepted_of_le lined fits
    exact .inl ⟨fits, by simp [write, all], by simp [write, all]⟩

end Sink
end Debugger
