import SchemaRecords.Proofs.ClassFile.DraftDemand
import SchemaRecords.Proofs.Record.Emission
import SchemaRecords.Proofs.Record.Recipe
import SchemaRecords.Proofs.Record.Writable

/-!
# Which record classes can be made

A layout is admissible if no accessor is a method that every record class has
and neither the constructor nor the string form takes too many arguments. The
class of such a layout is made unless one of its texts is too long for the
format: the pool cannot become full, the code of a method cannot get too long,
and the assembler has nothing to object to.

* `Layout.compile_cases`: the class is made, or a text is too long.
* `exists_ofType`: the class of a record type whose texts fit is made.
-/

namespace SchemaRecords.Record

open SchemaRecords.ClassFile

instance : Wraps Error := ⟨.classFile⟩

theorem asksFrom_ofBuild {α : Type} {d : Draft} {step : Build α} {texts : List String} {k b : Nat}
    {Q : α → Prop} (h : AsksFrom d step texts k b Q) :
    AsksFrom d (Assemble.ofBuild step) texts k b Q := by
  unfold AsksFrom Assemble.ofBuild
  rcases h with ⟨a, d', hok, haccepted⟩ | ⟨e, d', herror, hrefused⟩
  · refine .inl ⟨a, d', ?_, haccepted⟩
    rw [hok]
  · refine .inr ⟨e, d', ?_, hrefused⟩
    rw [herror]
    rfl

theorem asks_method {m : Method} {k : Nat} (h : m.IsWritable) (hk : m.entries ≤ k) :
    Asks (Assemble.ofBuild (Draft.method m)) m.texts k 0 fun _ => True :=
  fun d => asksFrom_ofBuild ((Draft.method_asks h d).mono hk (Nat.le_refl _) fun _ h => h)

/-! ## The parts of a class -/

namespace Accessor

/-- The texts of the fields and accessors. -/
def memberTexts (l : Layout) : List String :=
  l.components.flatMap (fun c => (field l c).texts)
    ++ l.components.flatMap fun c => (method l c).texts

theorem add_asks {l : Layout} (h : ∀ c ∈ l.components, isReserved c = false) :
    Asks (add l) (memberTexts l) (l.components.length * 17) 0 fun _ => True := by
  have hfield (c : Component) : Asks (Assemble.ofBuild (Draft.field (field l c))) (field l c).texts
      6 0 fun _ => True :=
    fun d => asksFrom_ofBuild (Draft.field_asks (areFew_annotations l c) d)
  have hmethod (c : Component) (hc : c ∈ l.components) :
      Asks (addMethod l c) (method l c).texts 11 0 fun _ => True := by
    rw [addMethod, h c hc, if_neg Bool.false_ne_true]
    exact asks_method (method_isWritable l c) (entries_method l c)
  exact Asks.mono ((Asks.forM fun c _ => hfield c).bind fun _ _ => Asks.forM hmethod) (by omega)
    (by omega) fun _ h => h

end Accessor

theorem Constructor.add_asks {l : Layout} (h : slots l ≤ maxParameterSlots) :
    Asks (add l) (method l).texts (l.components.length * 9 + 11) 0 fun _ => True := by
  rw [add, if_neg (Nat.not_lt.mpr h)]
  exact asks_method (method_isWritable h) (entries_method h)

theorem Equality.add_asks {l : Layout} (h : l.components.length ≤ 254) :
    Asks (add l) (method l).texts (l.components.length * 20 + 33) 0 fun _ => True :=
  asks_method (method_isWritable h) (entries_method l)

theorem Hashing.add_asks {l : Layout} (h : l.components.length ≤ 254) :
    Asks (add l) (method l).texts (l.components.length * 30 + 6) 0 fun _ => True :=
  asks_method (method_isWritable h) (entries_method l)

namespace Rendering

/-- The texts that are given to the method that links the call. -/
def recipeTexts (l : Layout) : List String :=
  let recipe := Recipe.ofRecord l.typeName l.components
  recipe.template :: recipe.constants

/-- The texts of the string form and of what links it. -/
def memberTexts (l : Layout) : List String :=
  [factoryName, factoryMethod, factoryDescriptor] ++ recipeTexts l
    ++ [name, (callType l).descriptor] ++ (method l 0).texts

/-- The index of the call site is no text. -/
theorem texts_method (l : Layout) (site : UInt16) : (method l site).texts = (method l 0).texts := by
  simp [Method.texts, method, operations, Method.isAnnotated, Operation.texts, boundFrames]

theorem callSite_asks {l : Layout} {d : Draft} {c : Contents} (hd : d.Holds c)
    (hc : c.bootstraps = []) :
    AsksFrom d (callSite l) ([factoryName, factoryMethod, factoryDescriptor] ++ (recipeTexts l
      ++ [name, (callType l).descriptor])) (l.components.length * 2 + 15) 0 fun _ => True := by
  have hconstants := Recipe.length_constants_ofRecord l.typeName l.components
  have hlength : (recipeTexts l).length
      = (Recipe.ofRecord l.typeName l.components).constants.length + 1 := rfl
  have harguments (texts : List String) := Builds.mapM (ε := ClassFile.Error) (fun c text =>
    Builds.intern (c := c) (resolves_string text)) texts
  have hstrings (d : Draft) := Asks.mapM (fun text (_ : text ∈ recipeTexts l) =>
    Draft.intern_asks (Pool.string_asks text)) d
  rw [List.flatMap_singleton'] at hstrings
  refine AsksFrom.mono ((Draft.intern_asks (Pool.staticHandle_asks _ _ _) d).bind
    fun handle d₁ h₁ _ => (hstrings d₁).bind fun arguments d₂ h₂ _ =>
      Draft.invokeDynamic_asks ?_ handle arguments name (callType l)) (by omega) (by omega)
    fun _ h => h
  -- neither request has added a bootstrap method
  have hd₁ := (Builds.intern (resolves_staticHandle _ _ _)).holds hd h₁
  have hd₂ := (harguments _ c).holds hd₁ h₂
  have hnone : d₂.bootstraps.toList = [] := by rw [hd₂.bootstraps, hc]
  rw [← Array.length_toList, hnone]
  decide

theorem add_asks {l : Layout} (h : l.components.length ≤ 254)
    (hslots : (callType l).parameterSlots.toNat ≤ maxArgumentSlots) {d : Draft} {c : Contents}
    (hd : d.Holds c) (hc : c.bootstraps = []) :
    AsksFrom d (add l) (memberTexts l) (l.components.length * 8 + 20) 0 fun _ => True := by
  have hmethod (site : UInt16) (d : Draft) : AsksFrom d (Draft.method (method l site))
      (method l 0).texts (l.components.length * 6 + 5) 0 fun _ => True := by
    rw [← texts_method l site]
    exact (Draft.method_asks (method_isWritable h site) d).mono (entries_method h site)
      (Nat.le_refl _) fun _ h => h
  rw [add, if_neg (Nat.not_lt.mpr hslots), memberTexts, List.append_assoc [factoryName, _, _]]
  exact asksFrom_ofBuild (AsksFrom.mono ((callSite_asks hd hc).bind fun site d' _ _ =>
    hmethod site d') (by omega) (by omega) fun _ h => h)

end Rendering

/-! ## The whole class -/

namespace Layout

/-- What has to be right about a layout, apart from the lengths of its texts. -/
structure Admissible (l : Layout) : Prop where
  unreserved : ∀ c ∈ l.components, Accessor.isReserved c = false
  parameterSlots : Constructor.slots l ≤ maxParameterSlots
  argumentSlots : (Rendering.callType l).parameterSlots.toNat ≤ maxArgumentSlots

/-- The texts of all parts. -/
def partTexts (l : Layout) : List String :=
  Accessor.memberTexts l ++ ((Constructor.method l).texts ++ ((Equality.method l).texts
    ++ ((Hashing.method l).texts ++ (Rendering.memberTexts l ++ []))))

/-- The texts in the class of a layout. -/
def texts (l : Layout) : List String :=
  [l.thisName, recordName] ++ (l.partTexts ++ [Bootstrap.attributeName])

/-- The parts before the string form add no bootstrap method. -/
theorem exists_holds_of_add {l : Layout} {d d₁ d₂ d₃ d₄ : Draft} {c : Contents} (hd : d.Holds c)
    (hc : c.bootstraps = []) (h₁ : Accessor.add l d = .ok () d₁)
    (h₂ : Constructor.add l d₁ = .ok () d₂) (h₃ : Equality.add l d₂ = .ok () d₃)
    (h₄ : Hashing.add l d₃ = .ok () d₄) : ∃ c₄, d₄.Holds c₄ ∧ c₄.bootstraps = [] := by
  obtain ⟨c₁, hd₁, -, hc₁⟩ := Accessor.add_builds l c d d₁ () hd h₁
  obtain ⟨c₂, hd₂, -, hc₂⟩ := Constructor.add_builds l c₁ d₁ d₂ () hd₁ h₂
  obtain ⟨c₃, hd₃, -, hc₃⟩ := Equality.add_builds l c₂ d₂ d₃ () hd₂ h₃
  obtain ⟨c₄, hd₄, -, hc₄⟩ := Hashing.add_builds l c₃ d₃ d₄ () hd₃ h₄
  refine ⟨c₄, hd₄, ?_⟩
  rw [hc₄ _ le_rfl, hc₃ _ le_rfl, (hc₂ _ le_rfl).2, (hc₁ _ le_rfl).2]
  exact hc

theorem parts_asks {l : Layout} (h : l.Admissible) {d : Draft} {c : Contents} (hd : d.Holds c)
    (hc : c.bootstraps = []) :
    AsksFrom d (Part.all.forM (Part.add l)) l.partTexts (l.components.length * 84 + 70) 0
      fun _ => True := by
  have hlength := length_le_of_slots h.parameterSlots
  have hrendering {d₁ d₂ d₃ d₄ : Draft} (h₁ : Accessor.add l d = .ok () d₁)
      (h₂ : Constructor.add l d₁ = .ok () d₂) (h₃ : Equality.add l d₂ = .ok () d₃)
      (h₄ : Hashing.add l d₃ = .ok () d₄) : AsksFrom d₄ (Rendering.add l) (Rendering.memberTexts l)
        (l.components.length * 8 + 20) 0 fun _ => True := by
    obtain ⟨c₄, hd₄, hc₄⟩ := exists_holds_of_add hd hc h₁ h₂ h₃ h₄
    exact Rendering.add_asks hlength h.argumentSlots hd₄ hc₄
  exact AsksFrom.mono ((Accessor.add_asks h.unreserved d).bind fun _ d₁ h₁ _ =>
    (Constructor.add_asks h.parameterSlots d₁).bind fun _ d₂ h₂ _ =>
      (Equality.add_asks hlength d₂).bind fun _ d₃ h₃ _ =>
        (Hashing.add_asks hlength d₃).bind fun _ d₄ h₄ _ => (hrendering h₁ h₂ h₃ h₄).bind
          fun _ d₅ _ _ => Asks.pure (Q := fun _ => True) trivial d₅)
    (by omega) (by omega) fun _ h => h

/-- The members of the class of an admissible layout are few enough, and so are the arguments of
its bootstrap method. -/
theorem build_cases {l : Layout} (h : l.Admissible) {d d' : Draft} {c : Contents} (hd : d.Holds c)
    (hparts : Part.all.forM (Part.add l) d = .ok () d')
    (hc : c.fields = [] ∧ c.methods = [] ∧ c.bootstraps = []) :
    (∃ bytes, d'.build = .ok bytes ∧ ∀ t ∈ [Bootstrap.attributeName], Fits t) ∨
      ∃ e, d'.build = .error e ∧
        Refused [Bootstrap.attributeName] (d'.pool.size + 1) e := by
  have hlength := length_le_of_slots h.parameterSlots
  obtain ⟨hfields, hmethods, hbootstraps⟩ := hc
  obtain ⟨c', hd', -, hQ⟩ := parts_builds l hbootstraps _ _ _ hd hparts
  obtain ⟨b, site, -, -, rfl, hb, -⟩ := hQ _ le_rfl
  have harguments : b.arguments.length
      = (Recipe.ofRecord l.typeName l.components).constants.length + 1 := by
    rw [hb.arguments.length_eq, Rendering.linkage, List.length_map, List.length_cons]
  have hconstants := Recipe.length_constants_ofRecord l.typeName l.components
  have hlist : d'.bootstraps.toList = [b] := hd'.bootstraps
  rw [← Draft.buildTexts_of_singleton hlist]
  refine Draft.build_cases hd'.valid ?_ ?_ ?_ ?_
  · rw [hd'.fields.count, hfields]
    simp
    omega
  · rw [hd'.methods.count, hmethods]
    simp [Layout.methods]
    omega
  · rw [hlist, List.length_singleton]
    omega
  · rw [hlist]
    simp
    omega

/-- The class of an admissible layout is made unless a text is refused. -/
theorem compile_refused {l : Layout} (h : l.Admissible) :
    (∃ bytes, l.compile = .ok bytes ∧ ∀ t ∈ l.texts, Fits t) ∨
      ∃ e, l.compile = .error (.classFile e) ∧ Refused l.texts Pool.capacity e := by
  have hlength := length_le_of_slots h.parameterSlots
  have hcapacity : Pool.capacity = 65534 := rfl
  unfold compile draft texts
  rcases Draft.new_cases l.thisName recordName access with
    ⟨d, hnew, hsize, hnames, -⟩ | ⟨e, hnew, hrefused⟩
  · have hd := Draft.holds_new hnew
    have hentries : Sized.entries d = d.pool.size := rfl
    rcases parts_asks h hd rfl with ⟨_, d', hparts, haccepted⟩ | ⟨e, d', hparts, hrefused⟩
    · have hadded : d'.pool.size ≤ d.pool.size + (l.components.length * 84 + 70) :=
        haccepted.entries
      rcases build_cases h hd hparts ⟨rfl, rfl, rfl⟩ with
        ⟨bytes, hbuild, hattribute⟩ | ⟨e, hbuild, hrefused⟩
      · refine .inl ⟨bytes, by simp only [hnew, hparts, hbuild], ?_⟩
        exact List.forall_mem_append.mpr
          ⟨hnames, List.forall_mem_append.mpr ⟨haccepted.fits, hattribute⟩⟩
      · refine .inr ⟨e, by simp only [hnew, hparts, hbuild], hrefused.mono ?_ (by omega)⟩
        exact List.Subset.trans (List.subset_append_right _ _) (List.subset_append_right _ _)
    · refine .inr ⟨e, by simp only [hnew, hparts]; rfl, hrefused.mono ?_ (by omega)⟩
      exact List.Subset.trans (List.subset_append_left _ _) (List.subset_append_right _ _)
  · exact .inr ⟨e, by simp only [hnew],
      hrefused.mono (List.subset_append_left _ _) (by omega)⟩

/-- The class of an admissible layout is made unless a text is too long. -/
theorem compile_cases {l : Layout} (h : l.Admissible) :
    (∃ bytes, l.compile = .ok bytes ∧ ∀ t ∈ l.texts, Fits t) ∨
      ∃ t ∈ l.texts, ¬Fits t ∧
        l.compile = .error (.classFile (.textTooLong (ModifiedUtf8.encodedLength t))) := by
  rcases compile_refused h with hok | ⟨e, herror, hrefused⟩
  · exact .inl hok
  · cases hrefused with
    | text ht hfits => exact .inr ⟨_, ht, hfits, herror⟩
    | room hfull => exact absurd hfull (Nat.lt_irrefl _)

end Layout

/-- The class of a record type is made if its layout is admissible and its texts fit. -/
theorem exists_ofType {s : Settings} {type : Schema.RecordType} (hs : s.fault? = none)
    (h : (Layout.ofType s type).Admissible) (hfits : ∀ t ∈ (Layout.ofType s type).texts, Fits t) :
    ∃ artifact, Artifact.ofType s type = .ok artifact := by
  rcases Layout.compile_cases h with ⟨bytes, hbytes, -⟩ | ⟨t, ht, hlong, -⟩
  · refine ⟨⟨s.binaryName type.name, (Layout.ofType s type).thisName, bytes⟩, ?_⟩
    simp only [Artifact.ofType, hs, Artifact.compile, hbytes]
  · exact absurd (hfits t ht) hlong

/-- The layout is admissible, and its texts are so short that they fit whatever they are. -/
structure Layout.IsSmall (l : Layout) : Prop extends l.Admissible where
  sizes : ∀ t ∈ l.texts, t.utf8ByteSize ≤ 10922

instance (l : Layout) : Decidable l.IsSmall :=
  decidable_of_iff ((∀ c ∈ l.components, Accessor.isReserved c = false) ∧
      Constructor.slots l ≤ maxParameterSlots ∧
      (Rendering.callType l).parameterSlots.toNat ≤ maxArgumentSlots ∧
      ∀ t ∈ l.texts, t.utf8ByteSize ≤ 10922)
    ⟨fun h => ⟨⟨h.1, h.2.1, h.2.2.1⟩, h.2.2.2⟩,
      fun h => ⟨h.unreserved, h.parameterSlots, h.argumentSlots, h.sizes⟩⟩

theorem exists_ofType_of_small {s : Settings} {type : Schema.RecordType} (hs : s.fault? = none)
    (h : (Layout.ofType s type).IsSmall) : ∃ artifact, Artifact.ofType s type = .ok artifact :=
  exists_ofType hs h.toAdmissible fun t ht => fits_of_utf8ByteSize_le (h.sizes t ht)

theorem Settings.fault?_default : ({} : Settings).fault? = none := by decide +kernel

/-! ## Record types of every shape of field -/

namespace Measurement

/-- Settings with primitive fields. -/
def settings : Settings := { package := some "org.example", primitiveValues := true }

/-- A type with a property of every shape; the name of the last one has a mark in it. -/
def type : Schema.RecordType := ⟨"Measurement", [
  ⟨"at", "at", .wellKnown .offsetDateTime⟩,
  ⟨"count", "count", .primitive .integer⟩,
  ⟨"level", "level", .primitive .number⟩,
  ⟨"sound", "sound", .primitive .boolean⟩,
  ⟨"tags", "tags", .array (.primitive .string)⟩,
  ⟨"unit", "unit\x01", .primitive .string⟩]⟩

theorem ofType_eq_ok : ∃ artifact, Artifact.ofType settings type = .ok artifact :=
  exists_ofType_of_small (by decide +kernel) (by decide +kernel)

end Measurement

/-- A type that refers to another one, by its name. -/
def Parcel.type (recipient : String) : Schema.RecordType := ⟨"Parcel", [
  ⟨"notes", "notes", .array (.primitive .string)⟩,
  ⟨"recipient", "recipient", .reference recipient⟩]⟩

end SchemaRecords.Record
