/-!
# Splitting texts

`split` cuts a text at every separator. The parts may be empty, and there is
always at least one.
-/

namespace SchemaRecords.Text

/-- Puts a character in front of the first part, or starts a new part before a separator. -/
def splitStep (separator c : Char) (parts : List (List Char)) : List (List Char) :=
  if c = separator then [] :: parts
  else
    match parts with
    | [] => [[c]]
    | part :: rest => (c :: part) :: rest

/-- The parts of a text between separators. -/
def split (separator : Char) (text : List Char) : List (List Char) :=
  text.foldr (splitStep separator) [[]]

/-- Every character that does not divide the text is in one of its parts. -/
theorem exists_mem_split {separator c : Char} {text : List Char} (hc : c ∈ text)
    (hne : c ≠ separator) : ∃ part ∈ split separator text, c ∈ part := by
  induction text with
  | nil => cases hc
  | cons d text ih =>
    show ∃ part ∈ splitStep separator d (split separator text), c ∈ part
    unfold splitStep
    obtain rfl | hc := List.mem_cons.mp hc
    · rw [if_neg hne]
      split
      · exact ⟨_, List.mem_cons_self, List.mem_cons_self⟩
      · exact ⟨_, List.mem_cons_self, List.mem_cons_self⟩
    · obtain ⟨part, hpart, hmem⟩ := ih hc
      split
      · exact ⟨part, List.mem_cons_of_mem _ hpart, hmem⟩
      · split
        · rename_i hnil
          rw [hnil] at hpart
          cases hpart
        · rename_i first rest hcons
          rw [hcons] at hpart
          obtain rfl | hpart := List.mem_cons.mp hpart
          · exact ⟨_, List.mem_cons_self, List.mem_cons_of_mem _ hmem⟩
          · exact ⟨part, List.mem_cons_of_mem _ hpart, hmem⟩

/-- The text with one character replaced by another throughout. -/
def replaceChar (old new : Char) (text : String) : String :=
  String.ofList (text.toList.map fun c => if c = old then new else c)

end SchemaRecords.Text
