import SchemaRecords.Compile
import SchemaRecords.Proofs.Record.Admissible
import SchemaRecords.Proofs.Schema.Reordering

/-!
# The classes of a document

A document gives classes exactly if it is well-formed, the settings are valid and
each of its types can be compiled; the classes are then those of its types
(`generate_eq_ok_iff`). Since a reordered document has the same types with the
same root first, it gives the same classes (`generate_reordered`).
-/

namespace SchemaRecords

open SchemaRecords.Json (Node)
open SchemaRecords.Record (Artifact Settings)
open SchemaRecords.Schema

/-- Each class is that of the type at its place. -/
theorem Record.Artifact.mapM_compile_eq_ok_iff {s : Settings} {types : List Schema.RecordType}
    {artifacts : List Artifact} :
    types.mapM (compile s) = .ok artifacts ↔
      List.Forall₂ (fun type artifact => compile s type = .ok artifact) types artifacts := by
  induction types generalizing artifacts with
  | nil =>
    rw [List.mapM_nil, List.forall₂_nil_left_iff]
    constructor
    · intro h
      cases h
      rfl
    · rintro rfl
      rfl
  | cons type types ih =>
    rw [List.mapM_cons, List.forall₂_cons_left_iff]
    constructor
    · intro h
      obtain ⟨artifact, hartifact, h⟩ := ClassFile.except_bind_eq_ok h
      obtain ⟨rest, hrest, h⟩ := ClassFile.except_bind_eq_ok h
      cases h
      exact ⟨artifact, rest, hartifact, ih.1 hrest, rfl⟩
    · rintro ⟨artifact, rest, hartifact, hrest, rfl⟩
      rw [hartifact, ih.2 hrest]
      rfl

theorem Record.Artifact.typeName_of_compile {s : Settings} {type : Schema.RecordType}
    {artifact : Artifact} (h : compile s type = .ok artifact) :
    artifact.typeName = s.binaryName type.name := by
  unfold compile at h
  dsimp only at h
  split at h
  · cases h
  · cases h
    rfl

/-- A document gives classes if it is well-formed, the settings are valid and each of its types
can be compiled. -/
theorem generate_eq_ok_iff {s : Settings} {document : Node} {artifacts : List Artifact} :
    generate s document = .ok artifacts ↔
      Document.WellFormed document ∧ s.fault? = none ∧
        List.Forall₂ (fun type artifact => Artifact.compile s type = .ok artifact)
          (Document.types document) artifacts := by
  unfold generate
  constructor
  · intro h
    split at h
    · cases h
    rename_i model hmodel
    obtain ⟨hwell, htypes⟩ := Model.ofDocument_eq_ok_iff.1 hmodel
    rw [Artifact.ofModel_eq_of_closed (Model.linked hwell htypes).closed, htypes] at h
    split at h
    · cases h
    rename_i hartifacts
    cases h
    split at hartifacts
    · cases hartifacts
    rename_i hvalid
    exact ⟨hwell, hvalid, Artifact.mapM_compile_eq_ok_iff.1 hartifacts⟩
  · rintro ⟨hwell, hvalid, hcompile⟩
    obtain ⟨first, nested, hcons⟩ := Document.exists_types_eq_cons document
    obtain ⟨model, htypes⟩ : ∃ model : Model, model.types = Document.types document :=
      ⟨⟨first, nested⟩, hcons.symm⟩
    rw [Model.ofDocument_eq_ok_iff.2 ⟨hwell, htypes⟩]
    dsimp only
    rw [Artifact.ofModel_eq_of_closed (Model.linked hwell htypes).closed, hvalid, htypes]
    dsimp only
    rw [Artifact.mapM_compile_eq_ok_iff.2 hcompile]

/-- With the default settings, a type with a small layout can be compiled. -/
theorem Record.Artifact.exists_compile_of_small {type : RecordType}
    (h : (Layout.ofType {} type).IsSmall) : ∃ artifact, compile {} type = .ok artifact := by
  obtain ⟨artifact, hartifact⟩ := exists_ofType_of_small Settings.fault?_default h
  rw [ofType, Settings.fault?_default] at hartifact
  exact ⟨artifact, hartifact⟩

/-! ## Documents in another order -/

/-- The documents give the same classes: either both fail, or both give the class of the root
first and then the same other classes in some order. -/
structure SameClasses (s : Settings) (document document' : Node) : Prop where
  success : (∃ artifacts, generate s document = .ok artifacts) ↔
    ∃ artifacts, generate s document' = .ok artifacts
  artifacts : ∀ artifacts artifacts', generate s document = .ok artifacts →
    generate s document' = .ok artifacts' →
      ∃ root rest rest', artifacts = root :: rest ∧ artifacts' = root :: rest' ∧
        rest.Perm rest' ∧ root.typeName = s.binaryName (Document.rootName document)

theorem SameClasses.exists_generate {s : Settings} {document document' : Node}
    (h : SameClasses s document document') {root : Artifact} {rest : List Artifact}
    (hartifacts : generate s document = .ok (root :: rest)) :
    ∃ rest', generate s document' = .ok (root :: rest') ∧ rest.Perm rest' := by
  obtain ⟨artifacts', hartifacts'⟩ := h.success.1 ⟨_, hartifacts⟩
  obtain ⟨_, _, rest', heq, rfl, hperm, -⟩ := h.artifacts _ _ hartifacts hartifacts'
  cases heq
  exact ⟨rest', hartifacts', hperm⟩

theorem exists_generate_of_reordered {s : Settings} {document document' : Node}
    (h : document.Reordered document') {artifacts : List Artifact}
    (hartifacts : generate s document = .ok artifacts) :
    ∃ root rest rest', artifacts = root :: rest ∧ generate s document' = .ok (root :: rest') ∧
      rest.Perm rest' ∧ root.typeName = s.binaryName (Document.rootName document) := by
  obtain ⟨hwell, hvalid, hcompile⟩ := generate_eq_ok_iff.1 hartifacts
  obtain ⟨first, nested, nested', htypes, htypes', hfirst, hperm⟩ := Document.exists_types_perm h
  rw [htypes, List.forall₂_cons_left_iff] at hcompile
  obtain ⟨root, rest, hroot, hrest, rfl⟩ := hcompile
  obtain ⟨rest', hrest', hperm'⟩ := List.perm_comp_forall₂ hperm.symm hrest
  have hname := Artifact.typeName_of_compile hroot
  rw [hfirst] at hname
  refine ⟨root, rest, rest', rfl, ?_, hperm'.symm, hname⟩
  refine generate_eq_ok_iff.2 ⟨hwell.of_reordered h, hvalid, ?_⟩
  rw [htypes']
  exact .cons hroot hrest'

theorem sameClasses_of_reordered {document document' : Node} (h : document.Reordered document')
    (s : Settings) : SameClasses s document document' where
  success := by
    constructor
    · rintro ⟨artifacts, hartifacts⟩
      obtain ⟨root, rest, rest', -, hgenerate, -⟩ := exists_generate_of_reordered h hartifacts
      exact ⟨_, hgenerate⟩
    · rintro ⟨artifacts, hartifacts⟩
      obtain ⟨root, rest, rest', -, hgenerate, -⟩ := exists_generate_of_reordered h.symm hartifacts
      exact ⟨_, hgenerate⟩
  artifacts := by
    intro artifacts artifacts' hartifacts hartifacts'
    obtain ⟨root, rest, rest', hlist, hgenerate, hperm, hname⟩ :=
      exists_generate_of_reordered h hartifacts
    rw [hgenerate] at hartifacts'
    cases hartifacts'
    exact ⟨root, rest, rest', hlist, rfl, hperm, hname⟩

/-- **The order of entries does not matter.** Documents that differ only in the order of entries
of objects without repeated keys give the same classes, the root's first. In particular, a
document that repeats no key gives the same classes as its canonical form. -/
theorem generate_reordered (s : Settings) :
    (∀ document document' : Node, document.Reordered document' →
      SameClasses s document document') ∧
    ∀ document : Node, document.Distinct → SameClasses s document document.canonical :=
  ⟨fun _ _ h => sameClasses_of_reordered h s,
    fun _ h => sameClasses_of_reordered h.reordered_canonical s⟩

namespace Schema.Delivery

theorem distinct_document : document.Distinct := by
  simp [document, entries, address, Node.Distinct.string, Node.Distinct.bool]

/-- The document with its own entries and its properties turned around. -/
def turned : Node := .object [("properties", .object entries.reverse), ("title", .string "delivery")]

theorem reordered_turned : document.Reordered turned := by
  have hproperties : (Node.object entries).Reordered (.object entries.reverse) :=
    .entries (by decide) (List.reverse_perm _).symm
  exact (Node.Reordered.value "properties" [("title", .string "delivery")] [] hproperties).trans
    (.entries (by decide) (.swap _ _ _))

theorem exists_compile {type : RecordType} (h : type ∈ model.types) :
    ∃ artifact, Artifact.compile {} type = .ok artifact := by
  have hsmall : ∀ type ∈ model.types, (Record.Layout.ofType {} type).IsSmall := by decide +kernel
  exact Artifact.exists_compile_of_small (hsmall type h)

theorem generate_document :
    ∃ root address, generate {} document = .ok [root, address] := by
  obtain ⟨root, hroot⟩ := exists_compile (List.mem_cons_self : model.root ∈ model.types)
  obtain ⟨address, haddress⟩ := exists_compile
    (List.mem_cons_of_mem _ List.mem_cons_self : model.nested.head (by decide) ∈ model.types)
  have hcompile : List.Forall₂ (fun type artifact => Artifact.compile {} type = .ok artifact)
      (Document.types document) [root, address] := by
    rw [types_document]
    exact .cons hroot (.cons haddress .nil)
  exact ⟨_, _, generate_eq_ok_iff.2 ⟨wellFormed_document, Settings.fault?_default, hcompile⟩⟩

end Schema.Delivery

theorem generate_reordered_delivery :
    Delivery.document.Reordered Delivery.turned ∧ Delivery.document.Distinct ∧
      ∃ root rest rest' rest'', generate {} Delivery.document = .ok (root :: rest) ∧
        generate {} Delivery.turned = .ok (root :: rest') ∧ rest.Perm rest' ∧
        generate {} Delivery.document.canonical = .ok (root :: rest'') ∧ rest.Perm rest'' := by
  have hturned := Delivery.reordered_turned
  have hdistinct := Delivery.distinct_document
  obtain ⟨root, address, hdocument⟩ := Delivery.generate_document
  obtain ⟨rest', hrest', hperm'⟩ :=
    ((generate_reordered {}).1 _ _ hturned).exists_generate hdocument
  obtain ⟨rest'', hrest'', hperm''⟩ :=
    ((generate_reordered {}).2 _ hdistinct).exists_generate hdocument
  exact ⟨hturned, hdistinct, root, [address], rest', rest'', hdocument, hrest', hperm', hrest'',
    hperm''⟩

end SchemaRecords
