import SchemaRecords.ClassFile.Descriptor

/-!
# Reading descriptors

`FieldType.read?` takes one type from the front of a text; `FieldType.ofDescriptor?`
and `MethodType.read?` read whole descriptors. The name of a class ends at the first
semicolon, so only types whose class names have none can be read back
(`FieldType.IsPlain`).

* `FieldType.read?_signature`: a plain type is read from its signature, whatever follows.
* `FieldType.ofDescriptor?_descriptor_iff`: only a plain type has a descriptor that can be read.
* `MethodType.read?_descriptor`: a plain method type is read from its descriptor.
-/

namespace SchemaRecords.ClassFile

namespace FieldType

/-- No class name in the type has a semicolon. -/
def IsPlain : FieldType → Prop
  | object name => ';' ∉ name.toList
  | array element => element.IsPlain
  | _ => True

instance decidableIsPlain : (t : FieldType) → Decidable t.IsPlain
  | boolean => inferInstanceAs (Decidable True)
  | int => inferInstanceAs (Decidable True)
  | double => inferInstanceAs (Decidable True)
  | object name => inferInstanceAs (Decidable (';' ∉ name.toList))
  | array element => decidableIsPlain element

/-- The type at the front of a text, and the text after it. -/
def read? : List Char → Option (FieldType × List Char)
  | 'Z' :: rest => some (boolean, rest)
  | 'I' :: rest => some (int, rest)
  | 'D' :: rest => some (double, rest)
  | 'L' :: rest =>
    match rest.dropWhile (· ≠ ';') with
    | [] => none
    | _ :: after => some (object (String.ofList (rest.takeWhile (· ≠ ';'))), after)
  | '[' :: rest =>
    match read? rest with
    | none => none
    | some (element, after) => some (array element, after)
  | _ => none

theorem takeWhile_name {name : String} (h : ';' ∉ name.toList) (rest : List Char) :
    (name.toList ++ ';' :: rest).takeWhile (· ≠ ';') = name.toList := by
  rw [List.takeWhile_append_of_pos]
  · simp
  · intro c hc
    have : c ≠ ';' := fun e => h (e ▸ hc)
    simpa using this

theorem dropWhile_name {name : String} (h : ';' ∉ name.toList) (rest : List Char) :
    (name.toList ++ ';' :: rest).dropWhile (· ≠ ';') = ';' :: rest := by
  rw [List.dropWhile_append_of_pos]
  · simp
  · intro c hc
    have : c ≠ ';' := fun e => h (e ▸ hc)
    simpa using this

/-- A plain type is read from its signature, whatever follows. -/
theorem read?_signature {t : FieldType} (h : t.IsPlain) (rest : List Char) :
    read? (t.signature ++ rest) = some (t, rest) := by
  induction t with
  | boolean => rfl
  | int => rfl
  | double => rfl
  | object name =>
    have hsignature : (object name).signature ++ rest = 'L' :: (name.toList ++ ';' :: rest) := by
      simp [signature]
    rw [hsignature, read?, dropWhile_name h, takeWhile_name h]
    simp
  | array element ih =>
    rw [signature, List.cons_append, read?, ih h]

/-- What is read from the signature of a type that is not plain leaves something of it. -/
theorem rest_ne_nil_of_read? {t u : FieldType} {rest : List Char} (h : ¬t.IsPlain)
    (hread : read? t.signature = some (u, rest)) : rest ≠ [] := by
  induction t generalizing u with
  | boolean => exact absurd trivial h
  | int => exact absurd trivial h
  | double => exact absurd trivial h
  | object name =>
    obtain ⟨as, bs, hname, has⟩ := List.eq_append_cons_of_mem (Decidable.not_not.mp h)
    rw [← String.toList_ofList (l := as)] at hname has
    have hsignature : (object name).signature
        = 'L' :: ((String.ofList as).toList ++ ';' :: (bs ++ [';'])) := by
      simp [signature, hname]
    rw [hsignature, read?, dropWhile_name has] at hread
    cases hread
    simp
  | array element ih =>
    rw [signature, read?] at hread
    split at hread
    · cases hread
    · rename_i hread'
      cases hread
      exact ih h hread'

/-- The type of which a text is the descriptor. -/
def ofDescriptor? (descriptor : String) : Option FieldType :=
  match read? descriptor.toList with
  | some (t, []) => some t
  | _ => none

theorem ofDescriptor?_descriptor {t : FieldType} (h : t.IsPlain) :
    ofDescriptor? t.descriptor = some t := by
  have hread := read?_signature h []
  rw [List.append_nil] at hread
  rw [ofDescriptor?, descriptor, String.toList_ofList, hread]

/-- Only a plain type has a descriptor that can be read. -/
theorem ofDescriptor?_descriptor_iff {t : FieldType} :
    (∃ u, ofDescriptor? t.descriptor = some u) ↔ t.IsPlain := by
  constructor
  · rintro ⟨u, hu⟩
    refine Decidable.byContradiction fun hplain => ?_
    rw [ofDescriptor?, descriptor, String.toList_ofList] at hu
    split at hu
    · rename_i hread
      exact rest_ne_nil_of_read? hplain hread rfl
    · cases hu
  · intro h
    exact ⟨t, ofDescriptor?_descriptor h⟩

/-- Reading takes something from the text. -/
theorem length_of_read? {cs rest : List Char} {t : FieldType} (h : read? cs = some (t, rest)) :
    rest.length < cs.length := by
  induction cs using read?.induct generalizing t with
  | case1 tail => cases h; simp
  | case2 tail => cases h; simp
  | case3 tail => cases h; simp
  | case4 tail hdrop =>
    rw [read?, hdrop] at h
    cases h
  | case5 tail c after hdrop =>
    have hlength := (List.dropWhile_sublist (· ≠ ';') (l := tail)).length_le
    rw [read?, hdrop] at h
    rw [hdrop] at hlength
    cases h
    simp at hlength ⊢
    omega
  | case6 tail hread ih =>
    rw [read?, hread] at h
    cases h
  | case7 tail element after hread ih =>
    rw [read?, hread] at h
    cases h
    have := ih hread
    simp
    omega
  | case8 cs hZ hI hD hL hA =>
    rw [read?] at h
    · cases h
    all_goals assumption

end FieldType

namespace MethodType

/-- No class name in the type has a semicolon. -/
def IsPlain (m : MethodType) : Prop :=
  (∀ t ∈ m.parameters, t.IsPlain) ∧ ∀ t ∈ m.result, t.IsPlain

instance (m : MethodType) : Decidable m.IsPlain :=
  inferInstanceAs (Decidable ((∀ t ∈ m.parameters, t.IsPlain) ∧ ∀ t ∈ m.result, t.IsPlain))

/-- The types up to a closing parenthesis, and the text after it. -/
def readParameters? (cs : List Char) : Option (List FieldType × List Char) :=
  match cs with
  | ')' :: rest => some ([], rest)
  | cs =>
    match h : FieldType.read? cs with
    | none => none
    | some (t, rest) =>
      have := FieldType.length_of_read? h
      match readParameters? rest with
      | none => none
      | some (ts, after) => some (t :: ts, after)
termination_by cs.length

/-- The result type that makes up a whole text. -/
def readResult? : List Char → Option (Option FieldType)
  | ['V'] => some none
  | cs =>
    match FieldType.read? cs with
    | some (t, []) => some (some t)
    | _ => none

/-- The method type of a descriptor. -/
def read? (descriptor : String) : Option MethodType :=
  match descriptor.toList with
  | '(' :: cs =>
    match readParameters? cs with
    | none => none
    | some (parameters, rest) => (readResult? rest).map fun result => ⟨parameters, result⟩
  | _ => none

theorem readParameters?_cons {t : FieldType} (h : t.IsPlain) (cs : List Char) :
    readParameters? (t.signature ++ cs)
      = (readParameters? cs).map fun (ts, after) => (t :: ts, after) := by
  have hread := FieldType.read?_signature h cs
  have hopen : ∀ rest, t.signature ++ cs ≠ ')' :: rest := by
    cases t <;> simp [FieldType.signature]
  rw [readParameters?]
  · split
    · rename_i hnone
      rw [hread] at hnone
      cases hnone
    · rename_i t' rest hsome
      rw [hread] at hsome
      cases hsome
      cases readParameters? cs <;> rfl
  · exact hopen

theorem readParameters?_flatMap {ts : List FieldType} (h : ∀ t ∈ ts, t.IsPlain)
    (rest : List Char) :
    readParameters? (ts.flatMap FieldType.signature ++ ')' :: rest) = some (ts, rest) := by
  induction ts with
  | nil =>
    rw [List.flatMap_nil, List.nil_append, readParameters?]
  | cons t ts ih =>
    rw [List.flatMap_cons, List.append_assoc, readParameters?_cons (h t (by simp)),
      ih fun t' ht' => h t' (by simp [ht'])]
    rfl

theorem readResult?_signature {t : FieldType} (h : t.IsPlain) :
    readResult? t.signature = some (some t) := by
  have hread := FieldType.read?_signature h []
  rw [List.append_nil] at hread
  have hvoid : t.signature ≠ ['V'] := by
    cases t <;> simp [FieldType.signature]
  rw [readResult?, hread]
  exact hvoid

/-- A plain method type is read from its descriptor. -/
theorem read?_descriptor {m : MethodType} (h : m.IsPlain) : read? m.descriptor = some m := by
  obtain ⟨parameters, result⟩ := m
  rw [read?, descriptor, String.toList_ofList]
  cases result with
  | none =>
    simp only [List.cons_append, readParameters?_flatMap h.1]
    rfl
  | some t =>
    simp only [List.cons_append, readParameters?_flatMap h.1,
      readResult?_signature (h.2 t rfl)]
    rfl

end MethodType

end SchemaRecords.ClassFile
