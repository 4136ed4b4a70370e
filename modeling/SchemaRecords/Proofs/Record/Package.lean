import SchemaRecords.Proofs.ClassFile.Descriptor
import SchemaRecords.Proofs.Text.Split
import SchemaRecords.Record.Layout

/-!
# Names of types in their package

A type has a dotted name and a name inside class files, where slashes divide the
segments of the package. If the package is valid and the type's own name has
neither dots nor slashes, both names have the same segments, the last of which is
the type's own name.

* `split_internalName`: the segments.
* `internalName_eq_replaceChar`: the two names differ only in their separators.
* `simpleName_internalName`, `simpleName_binaryName`: the last segment.
* `Layout.isPlain_ofType_iff`: when the class names in descriptors have no semicolon.
-/

namespace SchemaRecords.ClassFile

/-- A name without separators is a simple name. -/
theorem takeWhile_reverse {name : String} (hslash : '/' ∉ name.toList) (hdot : '.' ∉ name.toList)
    (before : List Char) :
    (name.toList.reverse ++ before).takeWhile (fun c => c ≠ '/' ∧ c ≠ '.') =
      name.toList.reverse ++ before.takeWhile fun c => c ≠ '/' ∧ c ≠ '.' := by
  apply List.takeWhile_append_of_pos
  intro c hc
  have hmem := List.mem_reverse.1 hc
  have hne : c ≠ '/' ∧ c ≠ '.' := ⟨fun heq => hslash (heq ▸ hmem), fun heq => hdot (heq ▸ hmem)⟩
  exact decide_eq_true hne

theorem simpleName_self {name : String} (hslash : '/' ∉ name.toList) (hdot : '.' ∉ name.toList) :
    simpleName name = name := by
  have := takeWhile_reverse hslash hdot []
  rw [List.append_nil, List.takeWhile_nil, List.append_nil] at this
  rw [simpleName, this, List.reverse_reverse, String.ofList_toList]

/-- What stands before the last separator does not count. -/
theorem simpleName_append {name separator : String} (before : String) (hslash : '/' ∉ name.toList)
    (hdot : '.' ∉ name.toList) (hseparator : separator = "/" ∨ separator = ".") :
    simpleName (before ++ separator ++ name) = name := by
  have hstop : (separator.toList.reverse ++ before.toList.reverse).takeWhile
      (fun c => c ≠ '/' ∧ c ≠ '.') = [] := by
    obtain rfl | rfl := hseparator <;> rfl
  rw [simpleName, String.toList_append, String.toList_append, List.reverse_append,
    List.reverse_append, takeWhile_reverse hslash hdot, hstop, List.append_nil,
    List.reverse_reverse, String.ofList_toList]

end SchemaRecords.ClassFile

namespace SchemaRecords.Record.Settings

open SchemaRecords.ClassFile (simpleName simpleName_append simpleName_self)

variable {s : Settings} {package : String}

/-! ## Valid packages -/

theorem validSegments_package (hs : s.fault? = none) (h : s.namedPackage? = some package) :
    validSegments '.' ['/', ';', '[', '<', '>'] package.toList = true := by
  obtain ⟨hpackage, hnamed⟩ := Option.filter_eq_some_iff.mp h
  cases hvalid : isValidPackage package with
  | false =>
    rw [fault?, hpackage] at hs
    simp [hvalid] at hs
  | true =>
    rw [isValidPackage, Bool.or_eq_true] at hvalid
    exact hvalid.resolve_left (by simpa using hnamed)

/-- Every segment of a valid package is there, and has none of the forbidden characters. -/
theorem segment_of_package (hs : s.fault? = none) (h : s.namedPackage? = some package)
    {segment : List Char} (hsegment : segment ∈ Text.split '.' package.toList) :
    segment ≠ [] ∧ ∀ c ∈ ['/', ';', '[', '<', '>'], c ∉ segment := by
  have hclean := List.all_eq_true.mp (validSegments_package hs h) segment hsegment
  rw [Bool.and_eq_true, Bool.not_eq_true', Bool.not_eq_true', List.any_eq_false] at hclean
  refine ⟨by simpa using hclean.1, fun c hc hmem => hclean.2 c hmem ?_⟩
  exact List.contains_iff_mem.2 hc

/-- A valid package has no forbidden character. -/
theorem not_mem_package (hs : s.fault? = none) (h : s.namedPackage? = some package) {c : Char}
    (hc : c ∈ ['/', ';', '[', '<', '>']) : c ∉ package.toList := by
  intro hmem
  have hdot : c ≠ '.' := by
    rintro rfl
    exact absurd hc (by decide)
  obtain ⟨segment, hsegment, hchar⟩ := Text.exists_mem_split hmem hdot
  exact (segment_of_package hs h hsegment).2 c hc hchar

/-! ## Segments -/

/-- The segments of the package. -/
def segments (s : Settings) : List (List Char) :=
  match s.namedPackage? with
  | some package => Text.split '.' package.toList
  | none => []

theorem ne_nil_of_mem_segments (hs : s.fault? = none) {segment : List Char}
    (h : segment ∈ s.segments) : segment ≠ [] := by
  unfold segments at h
  split at h
  · rename_i hpackage
    exact (segment_of_package hs hpackage h).1
  · cases h

theorem not_mem_of_mem_segments {segment : List Char} (h : segment ∈ s.segments) :
    '.' ∉ segment := by
  unfold segments at h
  split at h
  · exact Text.not_mem_of_mem_split h
  · cases h

/-- The name of a type in a class file, or a text that starts with it, has the segments of the
package before the last. -/
theorem split_internalName (hs : s.fault? = none) {name : String} {ending : List Char}
    (hname : '/' ∉ name.toList ++ ending) :
    Text.split '/' ((s.internalName name).toList ++ ending) =
      s.segments ++ [name.toList ++ ending] := by
  unfold internalName segments
  cases hpackage : s.namedPackage? with
  | none => exact Text.split_of_not_mem hname
  | some package =>
    have hslash : '/' ∉ package.toList := not_mem_package hs hpackage (by decide)
    have htext : (Text.replaceChar '.' '/' package ++ "/" ++ name).toList ++ ending =
        package.toList.map (fun c => if c = '.' then '/' else c) ++ '/' :: (name.toList ++ ending) := by
      simp [Text.replaceChar]
    dsimp only
    rw [htext, Text.split_append, Text.split_replace hslash, Text.split_of_not_mem hname]

theorem internalName_eq_replaceChar (s : Settings) {name : String} (hname : '.' ∉ name.toList) :
    s.internalName name = Text.replaceChar '.' '/' (s.binaryName name) := by
  have hself : name.toList.map (fun c => if c = '.' then '/' else c) = name.toList := by
    refine (List.map_congr_left fun c hc => ?_).trans (List.map_id _)
    have hdot : c ≠ '.' := fun heq => hname (heq ▸ hc)
    exact if_neg hdot
  apply String.toList_inj.mp
  unfold internalName binaryName
  cases s.namedPackage? with
  | none => simp [Text.replaceChar, hself]
  | some package => simp [Text.replaceChar, hself]

theorem internalName_injective (s : Settings) {name name' : String}
    (h : s.internalName name = s.internalName name') : name = name' := by
  unfold internalName at h
  split at h
  · exact String.append_right_inj _ |>.1 h
  · exact h

theorem simpleName_internalName (s : Settings) {name : String} (hslash : '/' ∉ name.toList)
    (hdot : '.' ∉ name.toList) : simpleName (s.internalName name) = name := by
  unfold internalName
  split
  · exact simpleName_append _ hslash hdot (.inl rfl)
  · exact simpleName_self hslash hdot

theorem simpleName_binaryName (s : Settings) {name : String} (hslash : '/' ∉ name.toList)
    (hdot : '.' ∉ name.toList) : simpleName (s.binaryName name) = name := by
  unfold binaryName
  split
  · exact simpleName_append _ hslash hdot (.inr rfl)
  · exact simpleName_self hslash hdot

end SchemaRecords.Record.Settings

/-! ## Class names in descriptors -/

namespace SchemaRecords.Record

open SchemaRecords.ClassFile

variable {s : Settings}

theorem semicolon_mem_internalName (hs : s.fault? = none) {name : String} :
    ';' ∈ (s.internalName name).toList ↔ ';' ∈ name.toList := by
  rw [Settings.internalName]
  split
  · rename_i package hpackage
    have hnot : ';' ∉ package.toList := Settings.not_mem_package hs hpackage (by decide)
    have hreplaced : ';' ∉ (Text.replaceChar '.' '/' package).toList := by
      rw [Text.replaceChar, String.toList_ofList, List.mem_map]
      rintro ⟨c, hc, hsemicolon⟩
      split at hsemicolon
      · cases hsemicolon
      · exact hnot (hsemicolon ▸ hc)
    have hslash : ';' ∉ "/".toList := by decide
    simp only [String.toList_append, List.mem_append, hreplaced, hslash, false_or]
  · exact Iff.rfl

/-- The type of a field has no semicolon in a class name unless it refers to a type that has. -/
theorem isPlain_fieldType_iff (hs : s.fault? = none) {type : Schema.PropertyType} :
    (fieldType s type).IsPlain ↔ ∀ name ∈ type.reference?, ';' ∉ name.toList := by
  have hboxed : (boxedType s type).IsPlain ↔ ∀ name ∈ type.reference?, ';' ∉ name.toList := by
    induction type with
    | primitive kind =>
      refine iff_of_true (?_ : ';' ∉ (boxName kind).toList) nofun
      cases kind <;> decide +kernel
    | wellKnown kind =>
      refine iff_of_true (?_ : ';' ∉ (wellKnownName kind).toList) nofun
      cases kind <;> decide +kernel
    | reference name =>
      show ';' ∉ (s.internalName name).toList ↔ _
      rw [semicolon_mem_internalName hs]
      simp [Schema.PropertyType.reference?]
    | array element ih => exact ih
    | generic => exact iff_of_true (by decide +kernel : ';' ∉ FieldType.objectName.toList) nofun
  cases type with
  | primitive kind =>
    rw [fieldType]
    split
    · cases kind with
      | string => exact hboxed
      | _ => exact iff_of_true trivial nofun
    · exact hboxed
  | _ => exact hboxed

/-- No class name in the types of the components has a semicolon. -/
def Layout.IsPlain (l : Layout) : Prop := ∀ c ∈ l.components, c.type.IsPlain

theorem Layout.isPlain_ofType_iff (hs : s.fault? = none) {type : Schema.RecordType} :
    (Layout.ofType s type).IsPlain ↔
      ∀ p ∈ type.properties, ∀ name ∈ p.type.reference?, ';' ∉ name.toList := by
  rw [Layout.IsPlain, Layout.ofType, List.forall_mem_map]
  simp only [isPlain_fieldType_iff hs]

end SchemaRecords.Record
