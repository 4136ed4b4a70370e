import SchemaRecords.Output.Path
import SchemaRecords.Proofs.Text.Split

/-!
# Paths inside a directory

A path is inner if it is relative and each of its components names something.
Joined to any directory it leads below that directory: the components of the
directory come first, and then its own.

* `key_join`: the components of a joined path.
* `key_join_injective`: different inner paths lead to different places.
-/

namespace SchemaRecords.Output.Path

/-- The path is relative, and no component of it is empty, a dot or two dots. -/
structure IsInner (path : Path) : Prop where
  relative : path.toList.head? ≠ some '/'
  components : ∀ piece ∈ Text.split '/' path.toList,
    piece ≠ [] ∧ piece ≠ ['.'] ∧ piece ≠ ['.', '.']

/-- The components of a text, without those that do not count. -/
def counted (text : List Char) : List (List Char) :=
  (Text.split '/' text).filter fun piece => !isBlank piece

theorem counted_append (before after : List Char) :
    counted (before ++ '/' :: after) = counted before ++ counted after := by
  rw [counted, Text.split_append, List.filter_append]
  rfl

theorem key_eq (path : Path) :
    path.key = lead path.toList :: counted (path.toList.drop (lead path.toList).length) := rfl

theorem IsInner.counted_eq {path : Path} (h : path.IsInner) :
    counted path.toList = Text.split '/' path.toList := by
  apply List.filter_eq_self.2
  intro piece hpiece
  obtain ⟨hne, hdot, -⟩ := h.components piece hpiece
  simp [isBlank, hne, hdot]

/-- A text that ends in a slash, or is empty, needs no slash before what follows. -/
theorem counted_append_of_slash {text : List Char} (h : text = [] ∨ text.getLast? = some '/')
    (after : List Char) : counted (text ++ after) = counted text ++ counted after := by
  obtain rfl | h := h
  · rfl
  · obtain ⟨before, rfl⟩ := List.getLast?_eq_some_iff.1 h
    have hblank : counted ([] : List Char) = [] := rfl
    rw [counted_append, hblank, List.append_nil, List.append_assoc]
    exact counted_append before after

/-! ## Leads -/

theorem IsInner.lead_eq {path : Path} (h : path.IsInner) : lead path.toList = [] := by
  unfold lead
  split
  · rename_i hpath
    exact absurd (congrArg List.head? hpath) h.relative
  · rename_i hpath
    exact absurd rfl (h.components ['.'] (by rw [hpath]; decide)).2.1
  · rename_i rest hpath
    have hfirst : ['.'] ∈ Text.split '/' path.toList := by
      rw [hpath]
      exact Text.split_append '/' ['.'] rest ▸ List.mem_append_left _ List.mem_cons_self
    exact absurd rfl (h.components ['.'] hfirst).2.1
  · rfl

/-- What follows a path after a slash does not change its lead. -/
theorem lead_append {text after : List Char} (hne : text ≠ [])
    (h : after.head? = some '/' ∨ text.getLast? = some '/') : lead (text ++ after) = lead text := by
  match text with
  | [] => exact absurd rfl hne
  | [c] =>
    by_cases hslash : c = '/'
    · rw [hslash]
      rfl
    · have hafter : after.head? = some '/' := h.resolve_right (by simpa using hslash)
      obtain ⟨rest, rfl⟩ := List.head?_eq_some_iff.1 hafter
      by_cases hdot : c = '.'
      · rw [hdot]
        rfl
      · simp [lead, hslash, hdot]
  | c :: d :: rest =>
    -- the lead is decided by the first two characters
    by_cases hslash : c = '/'
    · rw [hslash]
      rfl
    · by_cases hdot : c = '.'
      · by_cases hsecond : d = '/'
        · rw [hdot, hsecond]
          rfl
        · simp [lead, hdot, hsecond]
      · simp [lead, hslash, hdot]

theorem length_lead_le (text : List Char) : (lead text).length ≤ text.length := by
  unfold lead
  split <;> simp

/-! ## Joined paths -/

theorem counted_slash (after : List Char) : counted ('/' :: after) = counted after :=
  counted_append [] after

/-- The components of a directory, then those of what follows. -/
theorem counted_drop_append {text after : List Char} (hne : text ≠ [])
    (h : after.head? = some '/' ∨ text.getLast? = some '/') :
    counted ((text ++ after).drop (lead (text ++ after)).length) =
      counted (text.drop (lead text).length) ++ counted after := by
  rw [lead_append hne h, List.drop_append_of_le_length (length_lead_le text)]
  obtain hafter | hlast := h
  · obtain ⟨rest, rfl⟩ := List.head?_eq_some_iff.1 hafter
    rw [counted_append, counted_slash]
  · apply counted_append_of_slash
    rw [List.getLast?_drop]
    by_cases hlength : text.length ≤ (lead text).length
    · exact .inl (List.drop_of_length_le hlength)
    · rw [if_neg hlength]
      exact .inr hlast

theorem key_append {root after : Path} (hne : root.toList ≠ [])
    (h : after.toList.head? = some '/' ∨ root.toList.getLast? = some '/') :
    key (root ++ after) = root.key ++ counted after.toList := by
  rw [key_eq, key_eq, String.toList_append, counted_drop_append hne h, lead_append hne h]
  rfl

/-- A path inside a directory has the components of the directory before its own. -/
theorem key_join (root : Path) {path : Path} (h : path.IsInner) :
    (root.join path).key = root.key ++ Text.split '/' path.toList := by
  rw [← h.counted_eq]
  unfold join
  split
  · rename_i hpath
    exact absurd (congrArg List.head? hpath) h.relative
  · rename_i hroot _
    have hempty : root.toList = [] := List.getLast?_eq_none_iff.1 hroot
    rw [key_eq, key_eq, h.lead_eq, hempty]
    rfl
  · rename_i hroot _
    have hne := List.ne_nil_of_mem (List.mem_of_getLast? hroot)
    exact key_append hne (.inr hroot)
  · rename_i hroot _
    have hne := List.ne_nil_of_mem (List.mem_of_getLast? hroot)
    rw [String.append_assoc, key_append hne (.inl (by simp)), String.toList_append]
    exact congrArg _ (counted_slash path.toList)

/-- Different paths lead to different places below a directory. -/
theorem key_join_injective (root : Path) {path path' : Path} (h : path.IsInner) (h' : path'.IsInner)
    (hkey : (root.join path).key = (root.join path').key) : path = path' := by
  rw [key_join root h, key_join root h'] at hkey
  exact String.toList_inj.mp (Text.split_injective (List.append_cancel_left hkey))

end SchemaRecords.Output.Path
