import SchemaRecords.Proofs.Machine.Concatenation
import SchemaRecords.Record.Rendering

/-!
# Expanding recipes

A recipe comes to the same text as the pieces it was made from, whatever marks
the literal pieces have in them.

* `Recipe.expands_ofPieces`: the recipe for pieces expands to their text.
* `Recipe.expands_ofRecord`: the recipe for a record expands to its string form.
* `Recipe.expand_ofRecord_iff`: it does so with any list of as many values as it shows, and with no
  other list; its constants are those parts that could not stand in it.
* `Recipe.length_constants_ofRecord`: it has few constants.
-/

namespace SchemaRecords.Record

open SchemaRecords.ClassFile
open SchemaRecords.Machine
open SchemaRecords.Machine.Concatenation (Expands)

/-! ## The text of pieces -/

/-- Pieces with texts for the values among them come to a text. -/
inductive Fills : List Piece → List String → List Char → Prop
  | nil : Fills [] [] []
  | literal {ps : List Piece} {values : List String} {rest : List Char} (text : String)
      (h : Fills ps values rest) : Fills (.literal text :: ps) values (text.toList ++ rest)
  | value {ps : List Piece} {values : List String} {rest : List Char} (text : String)
      (h : Fills ps values rest) : Fills (.value :: ps) (text :: values) (text.toList ++ rest)

theorem Fills.append {ps ps' : List Piece} {values values' : List String} {text text' : List Char}
    (h : Fills ps values text) (h' : Fills ps' values' text') :
    Fills (ps ++ ps') (values ++ values') (text ++ text') := by
  induction h with
  | nil => exact h'
  | literal t _ ih =>
    rw [List.append_assoc]
    exact .literal t ih
  | value t _ ih =>
    rw [List.append_assoc]
    exact .value t ih

namespace Recipe

/-! ## Recipes under construction -/

namespace Progress

/-- What was placed expands to the text of the pieces so far, up to the pending literal. -/
def Holds (p : Progress) (values : List String) (text : List Char) : Prop :=
  ∃ placed, Expands p.template.reverse values p.constants.reverse placed ∧
    text = placed ++ p.pending.reverse

variable {p : Progress} {values : List String} {text : List Char}

theorem holds_empty : ({} : Progress).Holds [] [] :=
  ⟨[], Expands.nil, rfl⟩

/-- The pending literal becomes a constant if it has a mark in it. -/
theorem Holds.flush (h : p.Holds values text) :
    Expands p.flush.template.reverse values p.flush.constants.reverse text := by
  obtain ⟨placed, hplaced, rfl⟩ := h
  unfold Progress.flush
  split
  · rename_i hempty
    rw [List.isEmpty_iff.mp hempty, List.reverse_nil, List.append_nil]
    exact hplaced
  · split
    · have := hplaced.append (Expands.constant (String.ofList p.pending.reverse))
      rw [String.toList_ofList, List.append_nil] at this
      rw [List.reverse_cons, List.reverse_cons]
      exact this
    · rename_i hmark
      have hplain : ∀ c ∈ p.pending.reverse, c ≠ Concatenation.argumentTag ∧
          c ≠ Concatenation.constantTag := by
        intro c hc
        have hany : ¬(c = valueMark ∨ c = constantMark) := by
          intro hc'
          refine hmark (List.any_eq_true.mpr ⟨c, List.mem_reverse.mp hc, ?_⟩)
          simpa using hc'
        exact not_or.mp hany
      have := hplaced.append (Expands.plain hplain)
      rw [List.append_nil, List.append_nil] at this
      rw [List.reverse_append]
      exact this

theorem pending_flush (p : Progress) : p.flush.pending = [] := by
  unfold Progress.flush
  split
  · rename_i hempty
    exact List.isEmpty_iff.mp hempty
  · split <;> rfl

theorem Holds.literal (h : p.Holds values text) (t : String) :
    (p.add (.literal t)).Holds values (text ++ t.toList) := by
  obtain ⟨placed, hplaced, rfl⟩ := h
  refine ⟨placed, hplaced, ?_⟩
  rw [add, List.reverse_append, List.reverse_reverse, List.append_assoc]

theorem Holds.value (h : p.Holds values text) (t : String) :
    (p.add .value).Holds (values ++ [t]) (text ++ t.toList) := by
  have hplaced := h.flush.append (Expands.argument t)
  refine ⟨text ++ t.toList, ?_, ?_⟩
  · rw [List.append_nil] at hplaced
    rw [add, List.reverse_cons]
    exact hplaced
  · rw [add, pending_flush, List.reverse_nil, List.append_nil]

/-- A run over pieces extends the text by theirs. -/
theorem Holds.foldl {ps : List Piece} {values' : List String} {text' : List Char}
    (h : p.Holds values text) (hfills : Fills ps values' text') :
    (ps.foldl add p).Holds (values ++ values') (text ++ text') := by
  induction hfills generalizing p values text with
  | nil =>
    rw [List.append_nil, List.append_nil]
    exact h
  | literal t _ ih =>
    rw [List.foldl_cons, ← List.append_assoc]
    exact ih (h.literal t)
  | @value _ values' _ t _ ih =>
    rw [List.foldl_cons, ← List.append_assoc, List.append_cons]
    exact ih (h.value t)

theorem length_constants_flush (p : Progress) :
    p.flush.constants.length ≤ p.constants.length + 1 := by
  unfold Progress.flush
  split
  · exact Nat.le_succ _
  · split
    · exact Nat.le_refl _
    · exact Nat.le_succ _

/-- A constant is placed only before a value, and at the end. -/
theorem length_constants_foldl {ps : List Piece} (h : Fills ps values text) (p : Progress) :
    (ps.foldl add p).constants.length ≤ p.constants.length + values.length := by
  induction h generalizing p with
  | nil => exact Nat.le_refl _
  | literal t _ ih => exact ih (p.add (.literal t))
  | value t _ ih =>
    have hflush := length_constants_flush p
    have hrest := ih (p.add .value)
    rw [List.foldl_cons, List.length_cons]
    simp only [add] at hrest ⊢
    omega

end Progress

/-- A recipe comes to the text of its pieces. -/
theorem expands_ofPieces {ps : List Piece} {values : List String} {text : List Char}
    (h : Fills ps values text) :
    Expands (ofPieces ps).template.toList values (ofPieces ps).constants text := by
  have hholds := (Progress.holds_empty.foldl h).flush
  rw [ofPieces, String.toList_ofList]
  exact hholds

/-! ## The string form of a record -/

/-- The text for a component, given the text of its value. An array is shown by its type. -/
def componentText (text : Component → String) (c : Component) : String :=
  c.name ++ "=" ++ (if c.type.isArray then c.type.displayName else text c)

/-- The string form of a record, given the texts of the values of its components. -/
def recordText (typeName : String) (components : List Component) (text : Component → String) :
    String :=
  typeName ++ "[" ++ ", ".intercalate (components.map (componentText text)) ++ "]"

/-- The texts of the values that are shown. -/
def shownTexts (text : Component → String) (components : List Component) : List String :=
  (components.filter fun c => !c.type.isArray).map text

/-- How many components are shown by their values. -/
def shownCount (components : List Component) : Nat :=
  components.countP fun c => !c.type.isArray

/-- The texts for components in order. Each that is not an array takes the next of the values. -/
def componentTexts : List Component → List String → List String
  | [], _ => []
  | c :: cs, values =>
    if c.type.isArray then (c.name ++ "=" ++ c.type.displayName) :: componentTexts cs values
    else
      match values with
      | [] => []
      | value :: values => (c.name ++ "=" ++ value) :: componentTexts cs values

theorem componentTexts_array {c : Component} (h : c.type.isArray = true) (cs : List Component)
    (values : List String) :
    componentTexts (c :: cs) values
      = (c.name ++ "=" ++ c.type.displayName) :: componentTexts cs values := by
  cases values <;> exact if_pos h

theorem componentTexts_value {c : Component} (h : ¬c.type.isArray = true) (cs : List Component)
    (value : String) (values : List String) :
    componentTexts (c :: cs) (value :: values)
      = (c.name ++ "=" ++ value) :: componentTexts cs values := if_neg h

/-- The string form of a record, given the values of those components that show them. -/
def textWith (typeName : String) (components : List Component) (values : List String) : String :=
  typeName ++ "[" ++ ", ".intercalate (componentTexts components values) ++ "]"

/-- The first component takes the first value, unless it is an array. -/
theorem exists_fills_componentPieces {c : Component} {cs : List Component} {values : List String}
    (h : values.length = shownCount (c :: cs)) :
    ∃ own later text, values = own ++ later ∧ later.length = shownCount cs ∧
      Fills (componentPieces c) own text.toList ∧
      componentTexts (c :: cs) values = text :: componentTexts cs later := by
  by_cases harray : c.type.isArray = true
  · refine ⟨[], values, c.name ++ "=" ++ c.type.displayName, rfl, ?_, ?_, ?_⟩
    · simpa [shownCount, harray] using h
    · have hfills := Fills.literal c.name (.literal "=" (.literal c.type.displayName .nil))
      simpa [componentPieces, harray] using hfills
    · exact componentTexts_array harray cs values
  · have hcount : values.length = shownCount cs + 1 := by simpa [shownCount, harray] using h
    obtain ⟨value, later, rfl⟩ := List.exists_cons_of_length_eq_add_one hcount
    refine ⟨[value], later, c.name ++ "=" ++ value, rfl, Nat.succ.inj hcount, ?_, ?_⟩
    · have hfills := Fills.literal c.name (.literal "=" (.value value .nil))
      simpa [componentPieces, harray] using hfills
    · exact componentTexts_value harray cs value later

/-- Each later component stands after a comma. -/
theorem fills_laterPieces {c : Component} {cs : List Component} {values : List String}
    (h : values.length = shownCount (c :: cs)) :
    Fills (componentPieces c ++ laterPieces cs) values
      (", ".intercalate (componentTexts (c :: cs) values)).toList := by
  induction cs generalizing c values with
  | nil =>
    obtain ⟨own, later, text, rfl, hlater, hfills, htexts⟩ := exists_fills_componentPieces h
    obtain rfl : later = [] := List.eq_nil_of_length_eq_zero hlater
    have hlast : componentTexts [] [] = [] := rfl
    rw [htexts, hlast, String.intercalate_singleton, laterPieces, List.flatMap_nil, List.append_nil,
      List.append_nil]
    exact hfills
  | cons d cs ih =>
    obtain ⟨own, later, text, rfl, hlater, hfills, htexts⟩ := exists_fills_componentPieces h
    obtain ⟨-, later', text', -, -, -, htexts'⟩ := exists_fills_componentPieces hlater
    have hpieces : componentPieces c ++ laterPieces (d :: cs)
        = componentPieces c ++ .literal ", " :: (componentPieces d ++ laterPieces cs) := rfl
    have htext : (", ".intercalate (text :: componentTexts (d :: cs) later)).toList
        = text.toList ++ (", ".toList
          ++ (", ".intercalate (componentTexts (d :: cs) later)).toList) := by
      rw [htexts', String.intercalate_cons_cons, String.toList_append, String.toList_append,
        List.append_assoc]
    rw [hpieces, htexts, htext]
    exact hfills.append (.literal ", " (ih hlater))

theorem fills_pieces (typeName : String) {cs : List Component} {values : List String}
    (h : values.length = shownCount cs) :
    Fills (pieces typeName cs) values (textWith typeName cs values).toList := by
  have htext : (textWith typeName cs values).toList = typeName.toList ++ ("[".toList
      ++ ((", ".intercalate (componentTexts cs values)).toList ++ ("]".toList ++ []))) := by
    simp [textWith]
  rw [htext]
  have hclosing : Fills [.literal "]"] [] ("]".toList ++ []) := .literal "]" .nil
  cases cs with
  | nil =>
    obtain rfl : values = [] := List.eq_nil_of_length_eq_zero h
    exact .literal typeName (.literal "[" hclosing)
  | cons c cs =>
    have hinner := (fills_laterPieces h).append hclosing
    rw [List.append_nil values] at hinner
    exact .literal typeName (.literal "[" hinner)

/-- With a value for each component that shows one, the recipe for a record comes to its string
form. -/
theorem expands_values (typeName : String) {cs : List Component} {values : List String}
    (h : values.length = shownCount cs) :
    Expands (ofRecord typeName cs).template.toList values (ofRecord typeName cs).constants
      (textWith typeName cs values).toList :=
  expands_ofPieces (fills_pieces typeName h)

section Texts

variable (text : Component → String)

theorem length_shownTexts (cs : List Component) :
    (shownTexts text cs).length = shownCount cs := by
  rw [shownTexts, shownCount, List.length_map, List.countP_eq_length_filter]

theorem componentTexts_shownTexts (cs : List Component) :
    componentTexts cs (shownTexts text cs) = cs.map (componentText text) := by
  induction cs with
  | nil => rfl
  | cons c cs ih =>
    by_cases harray : c.type.isArray = true
    · have hshown : shownTexts text (c :: cs) = shownTexts text cs := by simp [shownTexts, harray]
      rw [hshown, componentTexts_array harray, ih, List.map_cons, componentText, if_pos harray]
    · have hshown : shownTexts text (c :: cs) = text c :: shownTexts text cs := by
        simp [shownTexts, harray]
      rw [hshown, componentTexts_value harray, ih, List.map_cons, componentText, if_neg harray]

/-- The recipe for a record comes to its string form. -/
theorem expands_ofRecord (typeName : String) (cs : List Component) :
    Expands (ofRecord typeName cs).template.toList (shownTexts text cs)
      (ofRecord typeName cs).constants (recordText typeName cs text).toList := by
  have hexpands := expands_values typeName (length_shownTexts text cs)
  rwa [textWith, componentTexts_shownTexts] at hexpands

end Texts

theorem length_constants_ofRecord (typeName : String) (cs : List Component) :
    (ofRecord typeName cs).constants.length ≤ cs.length + 1 := by
  have hfills := fills_pieces typeName (List.length_replicate (n := shownCount cs) (a := ""))
  have hvalues : shownCount cs ≤ cs.length := List.countP_le_length
  have hplaced := Progress.length_constants_foldl hfills {}
  have hflush := Progress.length_constants_flush ((pieces typeName cs).foldl Progress.add {})
  rw [ofRecord, ofPieces, List.length_reverse]
  simp only [List.length_nil, List.length_replicate] at hplaced
  omega

/-! ## Constants -/

/-- Only text with a mark in it becomes a constant. -/
theorem Progress.hasMark_flush {p : Progress} (h : ∀ k ∈ p.constants, hasMark k.toList = true) :
    ∀ k ∈ p.flush.constants, hasMark k.toList = true := by
  unfold Progress.flush
  split
  · exact h
  · split
    · rename_i hmark
      intro k hk
      obtain rfl | hk := List.mem_cons.1 hk
      · rwa [String.toList_ofList, hasMark, List.any_reverse]
      · exact h k hk
    · exact h

theorem Progress.hasMark_foldl {ps : List Piece} {p : Progress}
    (h : ∀ k ∈ p.constants, hasMark k.toList = true) :
    ∀ k ∈ (ps.foldl add p).constants, hasMark k.toList = true := by
  induction ps generalizing p with
  | nil => exact h
  | cons piece ps ih =>
    rw [List.foldl_cons]
    cases piece with
    | literal t => exact ih (p := p.add (.literal t)) h
    | value => exact ih (p := p.add .value) (hasMark_flush h)

theorem hasMark_constants_ofPieces {ps : List Piece} :
    ∀ k ∈ (ofPieces ps).constants, hasMark k.toList = true := by
  intro k hk
  rw [ofPieces, List.mem_reverse] at hk
  exact Progress.hasMark_flush (Progress.hasMark_foldl (by simp)) k hk

/-- With its constants, the recipe for a record expands exactly if there is one argument for each
component that is not an array; it then comes to the name of the type and, in brackets, the
components with their values. Every constant has a tag in it. -/
theorem expand_ofRecord_iff (typeName : String) (cs : List Component) (values : List String) :
    (∀ text, Concatenation.expand (ofRecord typeName cs).template.toList values
          (ofRecord typeName cs).constants = some text ↔
        values.length = shownCount cs ∧ text = (textWith typeName cs values).toList) ∧
      ∀ k ∈ (ofRecord typeName cs).constants,
        k ≠ "" ∧ ∃ c ∈ k.toList, c = Concatenation.argumentTag ∨ c = Concatenation.constantTag := by
  refine ⟨fun text => ⟨fun h => ?_, ?_⟩, fun k hk => ?_⟩
  · -- the template has a tag for each component that shows its value
    have hcount : values.length = shownCount cs := by
      have harity := (expands_ofRecord (fun _ => "") typeName cs).arity
      rw [length_shownTexts] at harity
      exact (Concatenation.count_of_expand h).symm.trans harity
    rw [(expands_values typeName hcount).expand_eq] at h
    exact ⟨hcount, (Option.some.inj h).symm⟩
  · rintro ⟨hcount, rfl⟩
    exact (expands_values typeName hcount).expand_eq
  · obtain ⟨c, hc, htag⟩ := List.any_eq_true.1 (hasMark_constants_ofPieces k hk)
    rw [Bool.or_eq_true, beq_iff_eq, beq_iff_eq] at htag
    refine ⟨?_, c, hc, htag⟩
    rintro rfl
    simp at hc

/-- A mark in a name takes the literal text around it out of the template, up to the next value. -/
example : ofRecord "T" [⟨"a\x01b", "a\x01b", .int⟩, ⟨"c", "c", .int⟩] =
    ⟨"\x02\x01, c=\x01]", ["T[a\x01b="]⟩ := by decide +kernel

end Recipe

end SchemaRecords.Record
