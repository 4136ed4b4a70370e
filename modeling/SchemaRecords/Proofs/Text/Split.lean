import SchemaRecords.Text.Split

/-!
# Parts of texts

Splitting at a separator gives parts without it, and joining them with the
separator gives the text back. Replacing the separator by a character that does
not occur in the text gives the same parts at the new separator.
-/

namespace SchemaRecords.Text

variable {separator : Char} {text : List Char}

theorem split_cons (separator c : Char) (text : List Char) :
    split separator (c :: text) = splitStep separator c (split separator text) := rfl

theorem split_eq_splitOn (separator : Char) (text : List Char) :
    split separator text = text.splitOn separator := by
  induction text with
  | nil => rfl
  | cons c text ih =>
    rw [split_cons, ih, List.splitOn_cons_eq_if_modifyHead]
    unfold splitStep
    by_cases hc : c = separator
    · rw [if_pos hc, if_pos (beq_iff_eq.2 hc)]
    · rw [if_neg hc, if_neg (mt beq_iff_eq.1 hc)]
      cases hparts : text.splitOn separator with
      | nil => exact absurd hparts (List.splitOn_ne_nil _ _)
      | cons part rest => rfl

theorem split_append (separator : Char) (before after : List Char) :
    split separator (before ++ separator :: after) =
      split separator before ++ split separator after := by
  simp only [split_eq_splitOn]
  exact List.splitOn_append_cons_self before after

theorem split_of_not_mem (h : separator ∉ text) : split separator text = [text] := by
  rw [split_eq_splitOn]
  exact List.splitOn_eq_singleton h

theorem split_injective {text' : List Char} (h : split separator text = split separator text') :
    text = text' := by
  rw [split_eq_splitOn, split_eq_splitOn] at h
  have hjoined := congrArg (List.intercalate [separator]) h
  rwa [List.intercalate_splitOn, List.intercalate_splitOn] at hjoined

/-- A step leaves parts as they are, starts a new one, or puts a character in front of one. -/
theorem mem_splitStep {c : Char} {parts : List (List Char)} {part : List Char}
    (h : part ∈ splitStep separator c parts) :
    part = [] ∨ part ∈ parts ∨
      c ≠ separator ∧ ∃ first, (first = [] ∨ first ∈ parts) ∧ part = c :: first := by
  unfold splitStep at h
  split at h
  · obtain rfl | h := List.mem_cons.1 h
    · exact .inl rfl
    · exact .inr (.inl h)
  · rename_i hc
    split at h
    · exact .inr (.inr ⟨hc, [], .inl rfl, List.mem_singleton.1 h⟩)
    · obtain rfl | h := List.mem_cons.1 h
      · exact .inr (.inr ⟨hc, _, .inr List.mem_cons_self, rfl⟩)
      · exact .inr (.inl (List.mem_cons_of_mem _ h))

theorem not_mem_of_mem_split {part : List Char} (h : part ∈ split separator text) :
    separator ∉ part := by
  induction text generalizing part with
  | nil =>
    obtain rfl := List.mem_singleton.1 h
    exact List.not_mem_nil
  | cons c text ih =>
    obtain rfl | h | ⟨hc, first, hfirst, rfl⟩ := mem_splitStep h
    · exact List.not_mem_nil
    · exact ih h
    · have hrest : separator ∉ first := by
        obtain rfl | hfirst := hfirst
        · exact List.not_mem_nil
        · exact ih hfirst
      simp [hrest, Ne.symm hc]

/-- Another separator divides a text in the same way. -/
theorem split_replace {other : Char} (h : other ∉ text) :
    split other (text.map fun c => if c = separator then other else c) = split separator text := by
  induction text with
  | nil => rfl
  | cons c text ih =>
    obtain ⟨hc, htext⟩ := not_or.1 (mt List.mem_cons.2 h)
    rw [List.map_cons, split_cons, split_cons, ih htext]
    unfold splitStep
    by_cases hseparator : c = separator
    · rw [if_pos hseparator, if_pos rfl, if_pos hseparator]
    · rw [if_neg hseparator, if_neg (Ne.symm hc), if_neg hseparator]

end SchemaRecords.Text
