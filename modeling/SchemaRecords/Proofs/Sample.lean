import SchemaRecords.Proofs.ClassFile.MemberAttributes
import SchemaRecords.Proofs.ClassFile.Session
import SchemaRecords.Proofs.Output.Protocol
import SchemaRecords.Proofs.Schema.Nesting
import SchemaRecords.Sample

/-!
# How deep a sample schema may be

The levels of `Sample.nested` have no titles and stand under the key `child`, each
inside the one before. So all of them have one name, and a schema with more than
one of them is refused: `nested` is meant to give a type for each level, and does
so up to depth one only.

* `ofDocument_nested_two_add`: from two levels on the schema refers to itself.
* `ofDocument_nested_zero`, `ofDocument_nested_one`: the models of the others.
* `compileInMemory_of_ok`, `compileInMemory_of_error`: all classes of a document are kept, or none.
* `compiles_nested_iff`: the depths at which there is one class for each level.
-/

namespace SchemaRecords.Sample

open SchemaRecords.Json (Node)
open SchemaRecords.Output (Machine MemorySink)
open SchemaRecords.Record (Artifact Layout Settings)
open SchemaRecords.Schema

/-! ## Names -/

theorem typeName_tree : Naming.typeName "Tree" = "Tree" := by decide +kernel

theorem typeName_child : Naming.typeName ("Tree" ++ "_" ++ "child") = "TreeChild" := by
  decide +kernel

/-- The keys of a level. -/
def keys : List String := ["child", "label", "tags", "weight"]

theorem fieldName_of_mem_keys {key : String} (h : key ∈ keys) : Naming.fieldName key = key := by
  have hfields : keys.map Naming.fieldName = keys.map id := by decide +kernel
  exact List.map_inj_left.1 hfields key h

theorem get?_title_nested (n : Nat) : (nested n).get? "title" = some (.string "Tree") := rfl

theorem isTitled_nested (n : Nat) : Document.IsTitled (nested n) := by
  rw [Document.IsTitled, get?_title_nested]
  trivial

theorem rootName_nested (n : Nat) : Document.rootName (nested n) = "Tree" := by
  rw [Document.rootName, Document.nameOf, get?_title_nested]
  exact typeName_tree

theorem nameOf_nested (n : Nat) :
    Discovery.nameOf (nested n) Discovery.defaultTitle = .ok "Tree" :=
  Discovery.nameOf_eq_ok_iff.2 ⟨isTitled_nested n, (rootName_nested n).symm, by decide⟩

/-! ## Two levels and more -/

theorem isUntitled_levels (n : Nat) : Document.IsUntitled (levels n) := by
  cases n with
  | zero => exact ⟨rfl, rfl⟩
  | succ n => exact ⟨rfl, rfl⟩

/-- From two levels on, the second one has the name of the first one around it. -/
theorem ofDocument_nested_two_add (n : Nat) :
    Model.ofDocument (nested (n + 2)) =
      .error (.circularReference ["Tree", "TreeChild", "TreeChild"]) := by
  have hdocument : Document.BeginsWith (nested (n + 2)) "child" (levels (n + 1)) := ⟨_, rfl⟩
  have houter : Document.BeginsWith (levels (n + 1)) "child" (levels n) := ⟨_, rfl⟩
  have hfield : Naming.fieldName "child" ≠ "" := by
    rw [fieldName_of_mem_keys (by decide)]
    decide
  exact Model.ofDocument_eq_error_of_repeated (nameOf_nested _) typeName_child (by decide)
    (by decide) hfield hdocument (isUntitled_levels _) houter (isUntitled_levels _)

/-! ## One level or none -/

/-- The properties of a type with no level inside it. -/
def plain : List Property :=
  [⟨"label", "label", .primitive .string⟩, ⟨"tags", "tags", .array (.primitive .string)⟩,
    ⟨"weight", "weight", .primitive .number⟩]

/-- The type with no level inside it. -/
def leaf (name : String) : RecordType := ⟨name, plain⟩

/-- The type of a root with one level inside it. -/
def stem : RecordType := ⟨"Tree", ⟨"child", "child", .reference "TreeChild"⟩ :: plain⟩

/-- A level has a property for the level inside it, and the plain ones. -/
theorem map_propertyOf_level (owner : String) (child : Option Node) :
    (levelProperties child).map (Document.propertyOf "Tree" owner) =
      (child.map fun c =>
        ⟨"child", "child", Document.typeOf owner ("Tree" ++ "_" ++ "child") c⟩).toList ++ plain := by
  have hstring (fallback : String) :
      Document.typeOf owner fallback (typed "string") = .primitive .string :=
    Document.typeOf_eq _ _ _
  have hnumber (fallback : String) :
      Document.typeOf owner fallback (typed "number") = .primitive .number :=
    Document.typeOf_eq _ _ _
  have hstrings (fallback : String) :
      Document.typeOf owner fallback strings = .array (.primitive .string) :=
    (Document.typeOf_eq _ _ _).trans (congrArg PropertyType.array (hstring _))
  have hfield (entry : String × Node) (h : entry.1 ∈ keys) :
      Document.propertyOf "Tree" owner entry =
        ⟨entry.1, entry.1, Document.typeOf owner ("Tree" ++ "_" ++ entry.1) entry.2⟩ :=
    congrArg (Property.mk entry.1 · _) (fieldName_of_mem_keys h)
  have hplain : [("label", typed "string"), ("tags", strings), ("weight", typed "number")].map
      (Document.propertyOf "Tree" owner) = plain := by
    rw [List.map_cons, List.map_cons, List.map_singleton, hfield _ (by decide : "label" ∈ keys),
      hfield _ (by decide : "tags" ∈ keys), hfield _ (by decide : "weight" ∈ keys), hstring,
      hstrings, hnumber]
    rfl
  cases child with
  | none => exact hplain
  | some c => exact congrArg₂ List.cons (hfield ("child", c) (by decide : "child" ∈ keys)) hplain

theorem typeOf_levels_zero :
    Document.typeOf "Tree" ("Tree" ++ "_" ++ "child") (levels 0) = .reference "TreeChild" :=
  (Document.typeOf_eq _ _ _).trans (congrArg PropertyType.reference typeName_child)

/-- The only occurrence that a level holds is the level inside it. -/
theorem occurrencesIn_level (above : List String) (owner : String) (child : Option Node) :
    Document.occurrencesIn "Tree" above owner (levelProperties child) =
      (child.bind (Document.occurrenceIn? above owner ("Tree" ++ "_" ++ "child"))).toList := by
  have hstring (fallback : String) : Document.objectIn? owner fallback (typed "string") = none :=
    Document.objectIn?_eq _ _ _
  have hnumber (fallback : String) : Document.objectIn? owner fallback (typed "number") = none :=
    Document.objectIn?_eq _ _ _
  have hstrings (fallback : String) : Document.objectIn? owner fallback strings = none :=
    (Document.objectIn?_eq _ _ _).trans (hstring _)
  have hplain : Document.occurrencesIn "Tree" above owner
      [("label", typed "string"), ("tags", strings), ("weight", typed "number")] = [] := by
    simp [Document.occurrencesIn, Document.occurrenceIn?, hstring, hnumber, hstrings]
  cases child with
  | none => exact hplain
  | some c =>
    refine (Document.occurrencesIn_cons _ _ _ "child" c _).trans ?_
    exact (congrArg _ hplain).trans (List.append_nil _)

theorem occurrenceIn?_levels_zero :
    Document.occurrenceIn? ["Tree"] "Tree" ("Tree" ++ "_" ++ "child") (levels 0) =
      some ⟨["Tree"], "TreeChild", levels 0⟩ := by
  have hfound : Document.objectIn? "Tree" ("Tree" ++ "_" ++ "child") (levels 0) =
      some ("TreeChild", levels 0) :=
    (Document.objectIn?_eq _ _ _).trans (congrArg (fun name => some (name, levels 0)) typeName_child)
  rw [Document.occurrenceIn?, hfound]
  rfl

/-- The keys of a level are in order, so its type lists the properties as it does. -/
theorem type_eq {o : Occurrence} {properties : List Property}
    (h : (Document.entriesOf o.definition).map (Document.propertyOf "Tree" o.name) = properties)
    (hsorted : properties.Pairwise fun p q => p.key ≤ q.key) :
    o.type "Tree" = ⟨o.name, properties⟩ := by
  rw [Occurrence.type, Occurrence.shape, h,
    List.mergeSort_of_pairwise (hsorted.imp fun hle => decide_eq_true hle)]

theorem areProperties_level {child : Option Node} (h : ∀ c ∈ child, Document.IsDefinition c) :
    Document.AreProperties (levelProperties child) := by
  have hsub : ((levelProperties child).map (·.1)).Sublist keys := by
    cases child with
    | none => exact List.sublist_cons_self _ _
    | some c => exact List.Sublist.refl _
  have hmem : ∀ entry ∈ levelProperties child, entry.1 ∈ keys :=
    fun entry hentry => hsub.subset (List.mem_map_of_mem hentry)
  have hfields : (levelProperties child).map (fun entry => Naming.fieldName entry.1) =
      (levelProperties child).map (·.1) :=
    List.map_inj_left.2 fun entry hentry => fieldName_of_mem_keys (hmem entry hentry)
  have hkeys : ((levelProperties child).map (·.1)).Nodup := hsub.nodup (by decide)
  refine ⟨hkeys, hfields ▸ hkeys, ?_, ?_⟩
  · intro entry hentry hempty
    have hkey := hmem entry hentry
    rw [fieldName_of_mem_keys hkey] at hempty
    rw [hempty] at hkey
    exact absurd hkey (by decide)
  · intro entry hentry
    obtain hchild | hplain := List.mem_append.1 hentry
    · cases child with
      | none => cases hchild
      | some c =>
        obtain rfl := List.mem_singleton.1 hchild
        exact h c rfl
    · simp only [List.mem_cons, List.not_mem_nil, or_false] at hplain
      obtain rfl | rfl | rfl := hplain <;> trivial

theorem sound_level {o : Occurrence} (child : Option Node)
    (hproperties : o.definition.get? "properties" = some (.object (levelProperties child)))
    (hchild : ∀ c ∈ child, Document.IsDefinition c) (htitled : Document.IsTitled o.definition)
    (hnamed : o.name ≠ "") (hunrepeated : o.name ∉ o.above) : o.Sound where
  titled := htitled
  named := hnamed
  properties := by
    rw [Document.ListsProperties, hproperties]
    exact areProperties_level hchild
  unrepeated := hunrepeated

theorem ofDocument_nested_zero : Model.ofDocument (nested 0) = .ok ⟨leaf "Tree", []⟩ := by
  have hroot : (Document.rootOf (nested 0)).children "Tree" = [] := occurrencesIn_level _ _ none
  have hoccurrences : Document.occurrences (nested 0) = [⟨[], "Tree", nested 0⟩] := by
    rw [Document.occurrences, rootName_nested, Occurrence.inside_eq, hroot, Document.rootOf,
      rootName_nested]
    rfl
  have htype : (⟨[], "Tree", nested 0⟩ : Occurrence).type "Tree" = leaf "Tree" :=
    type_eq (map_propertyOf_level "Tree" none) (by decide)
  refine Model.ofDocument_eq_ok_iff.2 ⟨⟨⟨_, rfl⟩, ?_, ?_⟩, ?_⟩
  · rw [hoccurrences, List.forall_mem_singleton]
    exact sound_level none rfl (by simp) (isTitled_nested 0) (by decide) List.not_mem_nil
  · rw [hoccurrences]
    simp
  · rw [Document.types, hoccurrences, rootName_nested, List.map_singleton, htype]
    rfl

theorem ofDocument_nested_one :
    Model.ofDocument (nested 1) = .ok ⟨stem, [leaf "TreeChild"]⟩ := by
  have hroot : (Document.rootOf (nested 1)).children "Tree" =
      [⟨["Tree"], "TreeChild", levels 0⟩] := by
    refine (occurrencesIn_level _ _ (some (levels 0))).trans ?_
    show (Document.occurrenceIn? [Document.rootName (nested 1)] (Document.rootName (nested 1)) _
      (levels 0)).toList = _
    rw [rootName_nested, occurrenceIn?_levels_zero]
    rfl
  have hlevel : (⟨["Tree"], "TreeChild", levels 0⟩ : Occurrence).children "Tree" = [] :=
    occurrencesIn_level _ _ none
  have hoccurrences : Document.occurrences (nested 1) =
      [⟨[], "Tree", nested 1⟩, ⟨["Tree"], "TreeChild", levels 0⟩] := by
    rw [Document.occurrences, rootName_nested, Occurrence.inside_eq, hroot, Document.rootOf,
      rootName_nested]
    simp [Occurrence.inside_eq, hlevel]
  have hproperties : (levelProperties (some (levels 0))).map (Document.propertyOf "Tree" "Tree") =
      stem.properties := by
    rw [map_propertyOf_level, Option.map_some, typeOf_levels_zero]
    rfl
  have hstem : (⟨[], "Tree", nested 1⟩ : Occurrence).type "Tree" = stem :=
    type_eq hproperties (by decide)
  have hleaf : (⟨["Tree"], "TreeChild", levels 0⟩ : Occurrence).type "Tree" = leaf "TreeChild" :=
    type_eq (map_propertyOf_level "TreeChild" none) (by decide)
  refine Model.ofDocument_eq_ok_iff.2 ⟨⟨⟨_, rfl⟩, ?_, ?_⟩, ?_⟩
  · rw [hoccurrences, List.forall_mem_cons, List.forall_mem_singleton]
    constructor
    · exact sound_level (some (levels 0)) rfl (by rintro _ ⟨⟩; trivial) (isTitled_nested 1)
        (by decide) List.not_mem_nil
    · exact sound_level none rfl (by simp) trivial (by decide) (by decide)
  · rw [hoccurrences]
    simp
  · rw [Document.types, hoccurrences, rootName_nested, List.map_cons, List.map_singleton, hstem,
      hleaf]
    decide

/-! ## Classes -/

theorem exists_compile {type : RecordType} (h : type ∈ [leaf "Tree", stem, leaf "TreeChild"]) :
    ∃ artifact, Artifact.compile {} type = .ok artifact := by
  have hsmall : ∀ type ∈ [leaf "Tree", stem, leaf "TreeChild"], (Layout.ofType {} type).IsSmall := by
    decide +kernel
  exact Artifact.exists_compile_of_small (hsmall type h)

/-- If all types of a model can be compiled, the classes are named after them. -/
theorem exists_generate_of_model {s : Settings} {document : Node} {model : Model}
    (hs : s.fault? = none) (hmodel : Model.ofDocument document = .ok model)
    (hcompile : ∀ type ∈ model.types, ∃ artifact, Artifact.compile s type = .ok artifact) :
    ∃ artifacts, generate s document = .ok artifacts ∧
      artifacts.map Artifact.typeName = model.types.map fun type => s.binaryName type.name := by
  obtain ⟨hwell, htypes⟩ := Model.ofDocument_eq_ok_iff.1 hmodel
  obtain ⟨artifacts, hartifacts⟩ := ClassFile.exists_forall₂ hcompile
  refine ⟨artifacts, generate_eq_ok_iff.2 ⟨hwell, hs, htypes ▸ hartifacts⟩, ?_⟩
  exact ClassFile.map_eq_of_forall₂ hartifacts fun _ _ h => Artifact.typeName_of_compile h

/-- Up to one level there is a class for each level. -/
theorem exists_generate_nested {n : Nat} (h : n ≤ 1) :
    ∃ artifacts, generate {} (nested n) = .ok artifacts ∧
      artifacts.map Artifact.typeName = ["Tree", "TreeChild"].take (n + 1) := by
  obtain rfl | rfl : n = 0 ∨ n = 1 := by omega
  · refine exists_generate_of_model Settings.fault?_default ofDocument_nested_zero ?_
    exact fun type htype => exists_compile (List.mem_of_mem_take (i := 1) htype)
  · refine exists_generate_of_model Settings.fault?_default ofDocument_nested_one ?_
    exact fun type htype => exists_compile (List.mem_of_mem_drop (i := 1) htype)

/-! ## Compiling into memory -/

theorem run_deliverEach (artifacts : List Artifact) (sink : MemorySink) :
    (Machine.state MemorySink).run (deliverEach MemorySink.sink artifacts) sink =
      (.ok (), { sink with pending := sink.pending ++ artifacts }) := by
  induction artifacts generalizing sink with
  | nil =>
    rw [List.append_nil]
    rfl
  | cons a artifacts ih =>
    rw [deliverEach, (Machine.state MemorySink).run_bind]
    show (Machine.state MemorySink).run (deliverEach MemorySink.sink artifacts)
      { sink with pending := sink.pending ++ [a] } = _
    rw [ih, List.append_assoc, List.singleton_append]

theorem run_deliver (artifacts : List Artifact) (sink : MemorySink) :
    (Machine.state MemorySink).run (deliver MemorySink.sink artifacts) sink =
      (.ok (), ⟨[], sink.pending ++ artifacts, true⟩) := by
  rw [deliver, (Machine.state MemorySink).run_bind, run_deliverEach]
  rfl

/-- What compiling a document with the default settings into an empty memory gives. -/
def compileInMemory (document : Node) : Except CompileError (List String) × MemorySink :=
  Id.run ((compileDocument MemorySink.sink {} document).run {})

theorem compileInMemory_of_ok {document : Node} {artifacts : List Artifact}
    (h : generate {} document = .ok artifacts) :
    compileInMemory document = (.ok (artifacts.map Artifact.typeName), ⟨[], artifacts, true⟩) := by
  show (Machine.state MemorySink).run (compileDocument MemorySink.sink {} document) {} = _
  rw [compileDocument, (Machine.state MemorySink).run_bind, h]
  show (Machine.state MemorySink).run (deliver MemorySink.sink artifacts >>= _) {} = _
  rw [(Machine.state MemorySink).run_bind, run_deliver]
  rfl

theorem compileInMemory_of_error {document : Node} {e : CompileError}
    (h : generate {} document = .error e) : compileInMemory document = (.error e, {}) := by
  show (Machine.state MemorySink).run (compileDocument MemorySink.sink {} document) {} = _
  rw [compileDocument, (Machine.state MemorySink).run_bind, h]
  rfl

/-- From two levels on nothing is compiled. -/
theorem compileInMemory_nested_two_add (n : Nat) :
    compileInMemory (nested (n + 2)) =
      (.error (.schema (.circularReference ["Tree", "TreeChild", "TreeChild"])), {}) := by
  apply compileInMemory_of_error
  rw [generate, ofDocument_nested_two_add]

/-- **How deep a sample schema may be.** A schema with `n` levels below its root gives `n + 1`
classes, that of the root first, exactly if there is at most one level. From two levels on it is
refused, as a type that contains itself, and no class is kept. -/
theorem compiles_nested_iff (n : Nat) :
    ((∃ names sink, compileInMemory (nested n) = (.ok names, sink) ∧ names.length = n + 1 ∧
        names.head? = some "Tree" ∧ sink.artifacts.map Artifact.typeName = names) ↔ n ≤ 1) ∧
      (2 ≤ n → compileInMemory (nested n) =
        (.error (.schema (.circularReference ["Tree", "TreeChild", "TreeChild"])), {})) := by
  have hdeep (h : 2 ≤ n) : compileInMemory (nested n) =
      (.error (.schema (.circularReference ["Tree", "TreeChild", "TreeChild"])), {}) := by
    obtain ⟨k, rfl⟩ := Nat.exists_eq_add_of_le' h
    exact compileInMemory_nested_two_add k
  refine ⟨⟨?_, ?_⟩, hdeep⟩
  · rintro ⟨names, sink, hcompile, -⟩
    by_contra hn
    rw [hdeep (by omega)] at hcompile
    cases hcompile
  · intro hn
    obtain ⟨artifacts, hgenerate, hnames⟩ := exists_generate_nested hn
    refine ⟨_, _, compileInMemory_of_ok hgenerate, ?_, ?_, rfl⟩
    · rw [hnames, List.length_take]
      exact Nat.min_eq_left (by simpa using hn)
    · rw [hnames]
      rfl

/-- Already a schema with two levels gives no classes. -/
theorem nested_two_is_circular :
    ¬∃ names sink, compileInMemory (nested 2) = (.ok names, sink) ∧ names.length = 3 ∧
      names.head? = some "Tree" := by
  rintro ⟨names, sink, hcompile, -⟩
  rw [compileInMemory_nested_two_add 0] at hcompile
  cases hcompile

end SchemaRecords.Sample
