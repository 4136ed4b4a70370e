import SchemaRecords.Proofs.ClassFile.MemberAttributes
import SchemaRecords.Record.Artifact

/-!
# What is in the class file of a record type

Whenever a class file is made, parsing it gives the fields and methods of the
record class in the order in which they were added, each with what its author
said of it, and a call site for the string form that is linked from the recipe.

* `Layout.Emitted`: all that is found in the image of a record class.
* `emitted_of_ofType`: it is found in the image of every class file that is made.
-/

namespace SchemaRecords.Record

open SchemaRecords.ClassFile

/-! ## The parts of a class -/

theorem builds_ofBuild {α : Type} {step : Build α} {c : Contents}
    {Q : ConstantTable → α → Contents → Prop} (h : Builds step c Q) :
    Builds (Assemble.ofBuild step) c Q := by
  intro d d' a hd hstep
  unfold Assemble.ofBuild at hstep
  split at hstep
  · rename_i hq
    cases hstep
    exact h d d' a hd hq
  · cases hstep

theorem Accessor.add_builds (l : Layout) (c : Contents) :
    Builds (add l) c fun _ _ c' => (∀ x ∈ l.components, isReserved x = false) ∧
      c' = { c with
        fields := c.fields ++ l.components.map (field l)
        methods := c.methods ++ l.components.map (method l) } := by
  have hfields := Builds.forM (P := fun _ => True) (fun c x =>
    (builds_ofBuild (Builds.field (c := c) (field l x))).mono fun _ _ _ h => ⟨trivial, h⟩)
    l.components
  have hmethods := Builds.forM (P := fun x => ¬isReserved x = true) (fun c x =>
    Builds.guard (e := Error.reservedMember x.name (type x).descriptor)
      (builds_ofBuild (Builds.method (c := c) (method l x)))) l.components
  refine ((hfields c).bind fun _ c' => hmethods c').mono ?_
  rintro t - c' ⟨_, _, ⟨-, rfl⟩, hreserved, rfl⟩
  refine ⟨fun x hx => Bool.eq_false_iff.mpr (hreserved x hx), ?_⟩
  rw [Contents.foldl_addField, Contents.foldl_addMethod]

theorem Constructor.add_builds (l : Layout) (c : Contents) :
    Builds (add l) c fun _ _ c' => slots l ≤ maxParameterSlots ∧ c' = c.addMethod (method l) :=
  (Builds.guard (builds_ofBuild (Builds.method (method l)))).mono
    fun _ _ _ h => ⟨Nat.le_of_not_lt h.1, h.2⟩

theorem Equality.add_builds (l : Layout) (c : Contents) :
    Builds (add l) c fun _ _ c' => c' = c.addMethod (method l) :=
  builds_ofBuild (Builds.method (method l))

theorem Hashing.add_builds (l : Layout) (c : Contents) :
    Builds (add l) c fun _ _ c' => c' = c.addMethod (method l) :=
  builds_ofBuild (Builds.method (method l))

namespace Rendering

/-- What links the call site of the string form: the recipe, then the constants it refers to. -/
def linkage (l : Layout) : BootstrapInfo :=
  let recipe := Recipe.ofRecord l.typeName l.components
  ⟨.invokeStatic, ⟨factoryName, factoryMethod, factoryDescriptor⟩,
    (recipe.template :: recipe.constants).map .string⟩

theorem bootstrapArgument_of_string {t : ConstantTable} {i : UInt16} {text : String}
    (h : ∃ n, t.get i = .ok (.string n) ∧ t.utf8 n = .ok text) :
    t.bootstrapArgument i = .ok (.string text) := by
  obtain ⟨n, hget, htext⟩ := h
  rw [ConstantTable.bootstrapArgument, hget]
  simp only [bind, Except.bind]
  rw [htext]
  rfl

/-- The first call site of a class is linked by bootstrap method 0. -/
theorem callSite_builds (l : Layout) (c : Contents) :
    Builds (callSite l) c fun t site c' => c.bootstraps = [] →
      ∃ b, c' = { c with bootstraps := [b] } ∧ b.Describes t (linkage l) ∧
        t.invokeDynamic site = .ok (0, name, (callType l).descriptor) := by
  have harguments (texts : List String) := Builds.mapM (ε := ClassFile.Error) (fun c text =>
    Builds.intern (c := c) (resolves_string text)) texts
  refine ((Builds.intern (resolves_staticHandle factoryName factoryMethod factoryDescriptor)).bind
    fun handle c' => (harguments _ c').bind fun arguments c'' =>
      Builds.invokeDynamic handle arguments name (callType l)).mono ?_
  rintro t site c' ⟨handle, _, ⟨hhandle, rfl⟩, arguments, _, ⟨hargs, rfl⟩, rfl, number, hsite,
    hnumber⟩ hc
  rw [Contents.withBootstrap_of_nil hc] at hnumber ⊢
  have hzero : number = 0 := by
    obtain ⟨hlt, -⟩ := List.getElem?_eq_some_iff.mp hnumber
    exact UInt16.toNat_inj.mp (Nat.lt_one_iff.mp hlt)
  refine ⟨⟨handle, arguments⟩, rfl, ⟨hhandle, ?_⟩, hzero ▸ hsite⟩
  rw [linkage, List.forall₂_map_right_iff]
  exact (hargs.imp fun text i h => bootstrapArgument_of_string h).flip

theorem add_builds (l : Layout) (c : Contents) :
    Builds (add l) c fun t _ c' => c.bootstraps = [] →
      ∃ b site, c' = { c with methods := c.methods ++ [method l site], bootstraps := [b] } ∧
        b.Describes t (linkage l) ∧
        t.invokeDynamic site = .ok (0, name, (callType l).descriptor) := by
  refine (Builds.guard (builds_ofBuild ((callSite_builds l c).bind fun site c' =>
    Builds.method (method l site)))).mono ?_
  rintro t - c' ⟨-, site, _, hsite, rfl⟩ hc
  obtain ⟨b, rfl, hb, hsite⟩ := hsite hc
  exact ⟨b, site, rfl, hb, hsite⟩

end Rendering

/-! ## What all parts maintain -/

theorem maintains_ofBuild {α : Type} {I : Draft → Prop} {step : Build α} (h : Maintains I step) :
    Maintains I (Assemble.ofBuild step) := by
  intro d d' a hd hstep
  unfold Assemble.ofBuild at hstep
  split at hstep
  · rename_i hq
    cases hstep
    exact h d d' a hd hq
  · cases hstep

theorem Rendering.callSite_maintains {I : Draft → Prop} (hI : Draft.Invariant I) (l : Layout) :
    Maintains I (callSite l) :=
  (hI.intern (Pool.methodHandle_appends _ _ _ _)).bind fun handle =>
    (Maintains.mapM (fun text => hI.intern (Pool.string_appends text)) _).bind fun arguments =>
      hI.invokeDynamic handle arguments name (callType l)

theorem Part.maintains {I : Draft → Prop} (hI : Draft.Invariant I) (l : Layout) (part : Part) :
    Maintains I (part.add l) := by
  cases part with
  | accessors =>
    exact (Maintains.forM (fun c => maintains_ofBuild (hI.field _)) _).bind fun _ =>
      Maintains.forM (fun c => Maintains.guard (maintains_ofBuild (hI.method _))) _
  | constructor => exact Maintains.guard (maintains_ofBuild (hI.method _))
  | equality => exact maintains_ofBuild (hI.method _)
  | hashing => exact maintains_ofBuild (hI.method _)
  | rendering =>
    exact Maintains.guard (maintains_ofBuild
      ((Rendering.callSite_maintains hI l).bind fun _ => hI.method _))

/-! ## The whole class -/

namespace Layout

/-- The methods of a record class, in order. -/
def methods (l : Layout) (site : UInt16) : List Method :=
  l.components.map (Accessor.method l)
    ++ [Constructor.method l, Equality.method l, Hashing.method l, Rendering.method l site]

/-- What is found in the image of a record class, whose string form calls the call site at the
index `site`. -/
structure Emitted (l : Layout) (image : Image) (site : UInt16) : Prop where
  major : image.major = defaultMajor
  minor : image.minor = 0
  access : image.access = access
  name : image.name = l.thisName
  superName : image.superName = some recordName
  interfaces : image.interfaces = []
  fields : List.Forall₂ (Field.Describes image.constants) (l.components.map (Accessor.field l))
    image.fields
  methods : List.Forall₂ (Method.Describes image.constants) (l.methods site) image.methods
  unannotated : ∀ m ∈ image.methods, image.annotations m = .ok []
  plainFields : ∀ f ∈ image.fields, f.plainAttributes = []
  plainMethods : ∀ m ∈ image.methods, m.plainAttributes = [Code.attributeName]
  attributes : image.attributes.map (·.name) = [Bootstrap.attributeName]
  bootstraps : image.bootstraps = .ok [Rendering.linkage l]
  site : image.constants.invokeDynamic site
    = .ok (0, Rendering.name, (Rendering.callType l).descriptor)
  /-- No accessor is a method that every record class has. -/
  unreserved : ∀ c ∈ l.components, Accessor.isReserved c = false
  parameterSlots : Constructor.slots l ≤ maxParameterSlots

theorem parts_builds (l : Layout) {c : Contents} (hc : c.bootstraps = []) :
    Builds (Part.all.forM (Part.add l)) c fun t _ c' =>
      ∃ b site, (∀ x ∈ l.components, Accessor.isReserved x = false) ∧
        Constructor.slots l ≤ maxParameterSlots ∧
        c' = { c with
          fields := c.fields ++ l.components.map (Accessor.field l)
          methods := c.methods ++ l.methods site
          bootstraps := [b] } ∧
        b.Describes t (Rendering.linkage l) ∧
        t.invokeDynamic site = .ok (0, Rendering.name, (Rendering.callType l).descriptor) := by
  refine ((Accessor.add_builds l c).bind fun _ _ => (Constructor.add_builds l _).bind
    fun _ _ => (Equality.add_builds l _).bind fun _ _ => (Hashing.add_builds l _).bind
      fun _ _ => (Rendering.add_builds l _).bind fun _ _ => Builds.pure ()).mono ?_
  rintro t - c' ⟨_, _, ⟨hreserved, rfl⟩, _, _, ⟨hslots, rfl⟩, _, _, rfl, _, _, rfl, _, _,
    hrendering, -, rfl⟩
  obtain ⟨b, site, rfl, hb, hsite⟩ := hrendering hc
  refine ⟨b, site, hreserved, hslots, ?_, hb, hsite⟩
  simp [Contents.addMethod, Layout.methods]

theorem compile_eq_ok {l : Layout} {bytes : Bytes} (h : l.compile = .ok bytes) :
    ∃ d d', Draft.new l.thisName recordName access = .ok d ∧
      Part.all.forM (Part.add l) d = .ok () d' ∧ d'.build = .ok bytes := by
  unfold compile draft at h
  cases hnew : Draft.new l.thisName recordName access with
  | error e =>
    rw [hnew] at h
    cases h
  | ok d =>
    rw [hnew] at h
    simp only at h
    cases hparts : Part.all.forM (Part.add l) d with
    | error e d' =>
      rw [hparts] at h
      cases h
    | ok _ d' =>
      rw [hparts] at h
      simp only at h
      cases hbuild : d'.build with
      | error e =>
        rw [hbuild] at h
        cases h
      | ok bytes' =>
        rw [hbuild] at h
        cases h
        exact ⟨d, d', rfl, hparts, hbuild⟩

/-- The image of a compiled layout. -/
theorem emitted_of_compile {l : Layout} {bytes : Bytes} (h : l.compile = .ok bytes) :
    ∃ image site, Image.parse bytes = .ok image ∧ l.Emitted image site := by
  obtain ⟨d, d', hnew, hparts, hbuild⟩ := compile_eq_ok h
  obtain ⟨c, hc, -, hQ⟩ := parts_builds l rfl _ _ _ (Draft.holds_new hnew) hparts
  obtain ⟨image, name, pool, hparse, hname, hconstants, hstored, hdescribes⟩ :=
    exists_image_of_build hc hbuild
  have hle : d'.pool.table ≤ image.constants :=
    hconstants ▸ (Draft.attributeName_spec hc.valid hname).1.le
  have hplain := Maintains.forM (Part.maintains Draft.invariant_hasPlainMembers l) Part.all
    _ _ _ (Draft.hasPlainMembers_new hnew) hparts
  have hfields := hplain.fields_of_build hle hstored
    (by rw [hc.fields.count, hdescribes.fields.length_eq])
  have hmethods := hplain.methods_of_build hle hstored
    (by rw [hc.methods.count, hdescribes.methods.length_eq])
  obtain ⟨b, site, hreserved, hslots, rfl, hb, hsite⟩ := hQ _ hle
  have hattributes : image.attributes.map (·.name) = [Bootstrap.attributeName] := by
    rw [hstored.attributes, hc.bootstraps]
    rfl
  exact ⟨image, site, hparse, {
    major := hdescribes.major
    minor := hdescribes.minor
    access := hdescribes.access
    name := hdescribes.name
    superName := hdescribes.superName
    interfaces := hdescribes.interfaces
    fields := hdescribes.fields
    methods := hdescribes.methods
    unannotated := fun m hm => (hmethods m hm).2
    plainFields := hfields
    plainMethods := fun m hm => (hmethods m hm).1
    attributes := hattributes
    bootstraps := hdescribes.bootstraps _ (.cons hb .nil)
    site := hsite
    unreserved := hreserved
    parameterSlots := hslots }⟩

end Layout

theorem Artifact.ofType_eq_ok {s : Settings} {type : Schema.RecordType} {artifact : Artifact}
    (h : ofType s type = .ok artifact) :
    ∃ bytes, (Layout.ofType s type).compile = .ok bytes ∧
      artifact = ⟨s.binaryName type.name, (Layout.ofType s type).thisName, bytes⟩ := by
  unfold ofType compile at h
  split at h
  · cases h
  · simp only at h
    split at h
    · cases h
    · rename_i bytes hcompile
      cases h
      exact ⟨bytes, hcompile, rfl⟩

/-- Classes are made with valid settings only. -/
theorem Artifact.fault?_of_ofType {s : Settings} {type : Schema.RecordType} {artifact : Artifact}
    (h : ofType s type = .ok artifact) : s.fault? = none := by
  unfold ofType at h
  split at h
  · cases h
  · assumption

/-- The image of every class file that is made. -/
theorem emitted_of_ofType {s : Settings} {type : Schema.RecordType} {artifact : Artifact}
    (h : Artifact.ofType s type = .ok artifact) :
    ∃ image site, Image.parse artifact.bytes = .ok image ∧
      artifact.internalName = (Layout.ofType s type).thisName ∧
      (Layout.ofType s type).Emitted image site := by
  obtain ⟨bytes, hcompile, rfl⟩ := Artifact.ofType_eq_ok h
  obtain ⟨image, site, hparse, hemitted⟩ := Layout.emitted_of_compile hcompile
  exact ⟨image, site, hparse, rfl, hemitted⟩

end SchemaRecords.Record
