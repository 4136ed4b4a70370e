import SchemaRecords.Output.Jar
import SchemaRecords.Proofs.Generation
import SchemaRecords.Proofs.Output.Path
import SchemaRecords.Proofs.Record.Package
import SchemaRecords.Proofs.Schema.Naming

/-!
# Where classes go

Titles, keys and packages are texts of the user. All the same, every class has a
place of its own inside any directory or jar: the segments of a valid package and
the names of types have no slash and are no dots, no two types of a document have
the same name, and a class file never takes the place of the manifest.

* `isInner_resourcePath`: the path of a class leads down from any directory.
* `nodup_resourcePaths`: no two classes of a document share a path.
* `generate_places_classes`: all of this for the classes of a document.
-/

namespace SchemaRecords

open SchemaRecords.Json (Node)
open SchemaRecords.Output (JarSink Path)
open SchemaRecords.Record (Artifact Settings)
open SchemaRecords.Schema
open SchemaRecords.Schema.Naming (IsUnqualified)

/-- The types of a document have names that class files allow. -/
theorem Schema.Document.isUnqualified_name {document : Node} {type : RecordType}
    (h : type ∈ types document) : IsUnqualified type.name := by
  obtain ⟨o, ho, rfl⟩ := mem_types.1 h
  exact isUnqualified_of_mem_occurrences ho

/-! ## One class -/

namespace Record.Artifact

variable {s : Settings} {type : Schema.RecordType} {a : Artifact}

theorem internalName_of_compile (h : compile s type = .ok a) :
    a.internalName = s.internalName type.name := by
  unfold compile at h
  dsimp only at h
  split at h
  · cases h
  · cases h
    rfl

/-- The ending of class files. -/
def ending : List Char := ".class".toList

theorem toList_resourcePath (h : compile s type = .ok a) :
    a.resourcePath.toList = (s.internalName type.name).toList ++ ending := by
  rw [resourcePath, String.toList_append, internalName_of_compile h]
  rfl

/-- The components of a path: the segments of the package, then the file. -/
theorem split_resourcePath (hs : s.fault? = none) (hname : IsUnqualified type.name)
    (h : compile s type = .ok a) :
    Text.split '/' a.resourcePath.toList = s.segments ++ [type.name.toList ++ ending] := by
  rw [toList_resourcePath h]
  apply Settings.split_internalName hs
  rw [List.mem_append, not_or]
  exact ⟨hname.not_mem (by decide), by decide⟩

/-- The path of a class leads down from any directory. -/
theorem isInner_resourcePath (hs : s.fault? = none) (hname : IsUnqualified type.name)
    (h : compile s type = .ok a) : Path.IsInner a.resourcePath := by
  have hcomponents : ∀ piece ∈ Text.split '/' a.resourcePath.toList,
      piece ≠ [] ∧ piece ≠ ['.'] ∧ piece ≠ ['.', '.'] := by
    rw [split_resourcePath hs hname h, List.forall_mem_append, List.forall_mem_singleton]
    constructor
    · intro segment hsegment
      have hdot := Settings.not_mem_of_mem_segments hsegment
      refine ⟨Settings.ne_nil_of_mem_segments hs hsegment, ?_, ?_⟩
      · rintro rfl
        exact hdot List.mem_cons_self
      · rintro rfl
        exact hdot List.mem_cons_self
    · have hlength : 6 ≤ (type.name.toList ++ ending).length := by
        rw [List.length_append]
        exact Nat.le_add_left 6 _
      refine ⟨?_, ?_, ?_⟩ <;> intro hpiece <;> rw [hpiece] at hlength <;>
        exact absurd hlength (by decide)
  refine ⟨fun hslash => ?_, hcomponents⟩
  obtain ⟨rest, hrest⟩ := List.head?_eq_some_iff.1 hslash
  have hempty : [] ∈ Text.split '/' a.resourcePath.toList := by
    rw [hrest]
    exact Text.split_append '/' [] rest ▸ List.mem_append_left _ List.mem_cons_self
  exact (hcomponents [] hempty).1 rfl

theorem resourcePath_injective {type' : Schema.RecordType} {a' : Artifact}
    (h : compile s type = .ok a) (h' : compile s type' = .ok a')
    (hpath : a.resourcePath = a'.resourcePath) : type.name = type'.name := by
  have hnames : s.internalName type.name ++ ".class" = s.internalName type'.name ++ ".class" := by
    rwa [resourcePath, resourcePath, internalName_of_compile h, internalName_of_compile h'] at hpath
  exact s.internalName_injective (String.append_left_inj _ |>.1 hnames)

/-- A class file never takes the place of the manifest. -/
theorem resourcePath_ne_manifest (a : Artifact) : a.resourcePath ≠ JarSink.manifestName := by
  intro h
  have hlast := congrArg (fun path : String => path.toList.getLast?) h
  simp only [resourcePath, String.toList_append] at hlast
  rw [List.getLast?_append_of_ne_nil _ (by decide)] at hlast
  exact absurd hlast (by decide)

/-! ## The classes of a document -/

/-- No two classes of a document share a path. -/
theorem nodup_resourcePaths {types : List Schema.RecordType} {artifacts : List Artifact}
    (hnames : (types.map Schema.RecordType.name).Nodup)
    (h : List.Forall₂ (fun type a => compile s type = .ok a) types artifacts) :
    (artifacts.map resourcePath).Nodup := by
  induction h with
  | nil => exact .nil
  | @cons type a types artifacts ha hrest ih =>
    rw [List.map_cons, List.nodup_cons] at hnames ⊢
    refine ⟨fun hmem => hnames.1 ?_, ih hnames.2⟩
    obtain ⟨a', ha', hpath⟩ := List.mem_map.1 hmem
    obtain ⟨type', htype', hcompile⟩ := ClassFile.exists_of_forall₂ hrest.flip ha'
    rw [← resourcePath_injective hcompile ha hpath]
    exact List.mem_map_of_mem htype'

/-- The names of a class are those of its type. -/
structure IsNamedAfter (a : Artifact) (type : Schema.RecordType) : Prop where
  internalName : a.internalName = Text.replaceChar '.' '/' a.typeName
  simple_internalName : ClassFile.simpleName a.internalName = type.name
  simple_typeName : ClassFile.simpleName a.typeName = type.name

theorem isNamedAfter_of_compile (hname : IsUnqualified type.name) (h : compile s type = .ok a) :
    a.IsNamedAfter type := by
  have hslash : '/' ∉ type.name.toList := hname.not_mem (by decide)
  have hdot : '.' ∉ type.name.toList := hname.not_mem (by decide)
  have hinternal := internalName_of_compile h
  have hdotted := typeName_of_compile h
  refine ⟨?_, ?_, ?_⟩
  · rw [hinternal, hdotted]
    exact s.internalName_eq_replaceChar hdot
  · rw [hinternal]
    exact s.simpleName_internalName hslash hdot
  · rw [hdotted]
    exact s.simpleName_binaryName hslash hdot

end Record.Artifact

/-- The classes of a document lead down from any directory, each to a place of its own. -/
theorem isInner_of_generate {s : Settings} {document : Node} {artifacts : List Artifact}
    (h : generate s document = .ok artifacts) :
    (∀ a ∈ artifacts, Path.IsInner a.resourcePath) ∧
      (artifacts.map Artifact.resourcePath).Nodup := by
  obtain ⟨hwell, hs, hcompile⟩ := generate_eq_ok_iff.1 h
  refine ⟨fun a ha => ?_, Artifact.nodup_resourcePaths hwell.nodup_names hcompile⟩
  obtain ⟨type, htype, ha⟩ := ClassFile.exists_of_forall₂ hcompile.flip ha
  exact Artifact.isInner_resourcePath hs (Document.isUnqualified_name htype) ha

theorem nodup_keys_of_generate {s : Settings} {document : Node} {artifacts : List Artifact}
    (h : generate s document = .ok artifacts) (root : Path) :
    (artifacts.map fun a => (root.join a.resourcePath).key).Nodup := by
  obtain ⟨hinner, hnodup⟩ := isInner_of_generate h
  have hkeys : ((artifacts.map Artifact.resourcePath).map fun path => (root.join path).key).Nodup := by
    refine List.Nodup.map_on ?_ hnodup
    intro path hpath path' hpath' hkey
    obtain ⟨a, ha, rfl⟩ := List.mem_map.1 hpath
    obtain ⟨a', ha', rfl⟩ := List.mem_map.1 hpath'
    exact Path.key_join_injective root (hinner a ha) (hinner a' ha') hkey
  rwa [List.map_map] at hkeys

theorem Schema.Model.exists_isNamedAfter {s : Settings} {document : Node}
    {artifacts : List Artifact} (h : generate s document = .ok artifacts) :
    ∃ model, Model.ofDocument document = .ok model ∧
      List.Forall₂ (fun type a => a.IsNamedAfter type) model.types artifacts := by
  obtain ⟨hwell, -, hcompile⟩ := generate_eq_ok_iff.1 h
  obtain ⟨first, nested, hcons⟩ := Document.exists_types_eq_cons document
  have htypes : (⟨first, nested⟩ : Model).types = Document.types document := hcons.symm
  refine ⟨⟨first, nested⟩, Model.ofDocument_eq_ok_iff.2 ⟨hwell, htypes⟩, ?_⟩
  rw [htypes, List.forall₂_iff_zip]
  refine ⟨hcompile.length_eq, fun {type a} hmem => ?_⟩
  have hname := Document.isUnqualified_name (List.of_mem_zip hmem).1
  exact Artifact.isNamedAfter_of_compile hname ((List.forall₂_iff_zip.1 hcompile).2 hmem)

/-- **Every class has a place of its own.** The settings and the document may be any that give
classes. The class of each type of the model is named after it. The path of each class is relative
and has no empty component and none of dots, so joined to any directory it adds components to
those of the directory. No two classes have the same path, and none has that of the manifest: a
jar of the classes has no name twice. -/
theorem generate_places_classes {s : Settings} {document : Node} {artifacts : List Artifact}
    (h : generate s document = .ok artifacts) :
    (∃ model, Model.ofDocument document = .ok model ∧
      List.Forall₂ (fun type a => a.IsNamedAfter type) model.types artifacts) ∧
    (∀ a ∈ artifacts, Path.IsInner a.resourcePath ∧
      ∀ root : Path,
        (root.join a.resourcePath).key = root.key ++ Text.split '/' a.resourcePath.toList) ∧
    ("META-INF/MANIFEST.MF" :: artifacts.map Artifact.resourcePath).Nodup := by
  obtain ⟨hinner, hnodup⟩ := isInner_of_generate h
  have hmanifest : JarSink.manifestName ∉ artifacts.map Artifact.resourcePath := by
    intro hmem
    obtain ⟨a, -, ha⟩ := List.mem_map.1 hmem
    exact a.resourcePath_ne_manifest ha
  refine ⟨Model.exists_isNamedAfter h, fun a ha => ⟨hinner a ha, fun root => ?_⟩,
    List.nodup_cons.2 ⟨hmanifest, hnodup⟩⟩
  exact Path.key_join root (hinner a ha)

theorem generate_places_delivery :
    ∃ root address, generate {} Delivery.document = .ok [root, address] ∧
      root.resourcePath ≠ address.resourcePath ∧
      Path.key (Path.join "out" root.resourcePath) =
        Path.key "out" ++ Text.split '/' root.resourcePath.toList := by
  obtain ⟨root, address, h⟩ := Delivery.generate_document
  obtain ⟨-, hpaths, hnodup⟩ := generate_places_classes h
  refine ⟨root, address, h, fun heq => ?_, (hpaths root List.mem_cons_self).2 "out"⟩
  have htwo := (List.nodup_cons.1 hnodup).2
  rw [List.map_cons, List.map_cons, heq] at htwo
  exact (List.nodup_cons.1 htwo).1 List.mem_cons_self

end SchemaRecords
