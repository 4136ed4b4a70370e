import SchemaRecords.Proofs.Schema.Occurrence
import SchemaRecords.Proofs.Text.LetterCase

/-!
# Characters of names

Names of fields and types have no character that class files forbid. The camel
case has none, and no other character becomes one by a change of case, which
leads from letters to letters and leaves the rest alone.

* `isUnqualified_typeName`, `isUnqualified_fieldName`: class files allow the names.
* `Document.isUnqualified_of_mem_occurrences`: so they do for all types of a document.
-/

namespace SchemaRecords.Schema.Naming

open SchemaRecords.Text (IsCaseChange isAlphanumeric isCaseChange_toLower isCaseChange_toUpper)

/-- Class files allow the name for a field, a method or a type. -/
def IsUnqualified (name : String) : Prop := ∀ c ∈ name.toList, isForbidden c = false

theorem IsUnqualified.not_mem {name : String} (h : IsUnqualified name) {c : Char}
    (hc : isForbidden c = true) : c ∉ name.toList := by
  intro hmem
  rw [h c hmem] at hc
  cases hc

theorem isForbidden_of_isAlphanumeric {c : Char} (h : isAlphanumeric c = true) :
    isForbidden c = false := by
  apply Bool.eq_false_iff.2
  intro hforbidden
  simp only [isForbidden, Bool.or_eq_true, beq_iff_eq] at hforbidden
  obtain ((((rfl | rfl) | rfl) | rfl) | rfl) | rfl := hforbidden <;> exact absurd h (by decide)

theorem isForbidden_changeCase {f : Char → Char} (hf : IsCaseChange f) {c : Char}
    (h : isForbidden c = false) : isForbidden (f c) = false := by
  by_cases hword : isAlphanumeric c = true
  · exact isForbidden_of_isAlphanumeric (hf.word c hword)
  · rwa [hf.other c (Bool.eq_false_iff.2 hword)]

theorem isForbidden_of_mem_camelCase {text : List Char} {c : Char} (h : c ∈ camelCase text) :
    isForbidden c = false := by
  obtain ⟨d, -, rfl⟩ := List.mem_map.1 h
  split
  · decide
  · rename_i hd
    exact Bool.eq_false_iff.2 hd

theorem isForbidden_of_mem_mapFirst {f : Char → Char} {text : List Char} {c : Char}
    (htext : ∀ d ∈ text, isForbidden d = false)
    (hf : ∀ d, isForbidden d = false → isForbidden (f d) = false) (h : c ∈ mapFirst f text) :
    isForbidden c = false := by
  cases text with
  | nil => cases h
  | cons first rest =>
    obtain rfl | h := List.mem_cons.1 h
    · exact hf first (htext first List.mem_cons_self)
    · exact htext c (List.mem_cons_of_mem _ h)

theorem isUnqualified_typeName (title : String) : IsUnqualified (typeName title) := by
  intro c hc
  rw [typeName, String.toList_ofList] at hc
  exact isForbidden_of_mem_mapFirst (fun _ => isForbidden_of_mem_camelCase)
    (fun _ => isForbidden_changeCase isCaseChange_toUpper) hc

theorem isUnqualified_fieldName (key : String) : IsUnqualified (fieldName key) := by
  intro c hc
  rw [fieldName, String.toList_ofList] at hc
  exact isForbidden_of_mem_mapFirst (fun _ => isForbidden_of_mem_camelCase)
    (fun _ => isForbidden_changeCase isCaseChange_toLower) hc

end SchemaRecords.Schema.Naming

/-! ## Names of record types -/

namespace SchemaRecords.Schema

open SchemaRecords.Json (Node)
open SchemaRecords.Schema.Naming (IsUnqualified isUnqualified_typeName)

theorem Document.isUnqualified_nameOf (definition : Node) (fallback : String) :
    IsUnqualified (nameOf definition fallback) := by
  unfold nameOf
  exact isUnqualified_typeName _

theorem Document.isUnqualified_of_objectIn? {owner fallback name : String} {definition found : Node}
    (h : objectIn? owner fallback definition = some (name, found)) : IsUnqualified name := by
  fun_induction objectIn? owner fallback definition with
  | case1 fallback definition =>
    obtain ⟨rfl, -⟩ := Prod.mk.inj (Option.some.inj h)
    exact isUnqualified_nameOf definition fallback
  | case2 fallback definition items hform ih => exact ih h
  | case3 => cases h
  | case4 => cases h
  | case5 => cases h

theorem Occurrence.isUnqualified_of_mem_children {root : String} {o c : Occurrence}
    (h : c ∈ o.children root) : IsUnqualified c.name := by
  obtain ⟨entry, -, hchild⟩ := List.mem_filterMap.1 h
  obtain ⟨found, hfound, rfl⟩ := Option.map_eq_some_iff.1 hchild
  exact Document.isUnqualified_of_objectIn? hfound

theorem Occurrence.isUnqualified_of_mem_inside {root : String} {o o' : Occurrence}
    (ho : IsUnqualified o.name) (h : o' ∈ o.inside root) : IsUnqualified o'.name := by
  obtain rfl | ⟨c, hc, hin⟩ := mem_inside.1 h
  · exact ho
  · exact isUnqualified_of_mem_inside (isUnqualified_of_mem_children hc) hin
termination_by sizeOf o.definition
decreasing_by exact sizeOf_of_mem_children hc

theorem Document.isUnqualified_of_mem_occurrences {document : Node} {o : Occurrence}
    (h : o ∈ occurrences document) : IsUnqualified o.name := by
  have hroot : IsUnqualified (rootOf document).name :=
    isUnqualified_nameOf document Discovery.defaultTitle
  exact Occurrence.isUnqualified_of_mem_inside hroot h

end SchemaRecords.Schema
