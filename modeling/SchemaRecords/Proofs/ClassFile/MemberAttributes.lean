import SchemaRecords.Proofs.ClassFile.Contents

/-!
# The attributes of members

A field is written with its annotations, if it has any, and a method with its
code and, if some parameter is annotated, with the annotations of its
parameters. They have no other attributes, so no method carries annotations of
its own.

* `Draft.Invariant`: a property of drafts that all construction steps maintain.
* `invariant_hasPlainMembers`: that members have these attributes only is one.
* `HasPlainMembers.fields_of_build`, `HasPlainMembers.methods_of_build`: the members of an
  image that was built have no others.
-/

namespace SchemaRecords.ClassFile

/-! ## Properties that steps maintain -/

/-- Whenever the step succeeds on a draft with the property, it leaves one with the property. -/
def Maintains {ε α : Type} (I : Draft → Prop) (step : EStateM ε Draft α) : Prop :=
  ∀ d d' a, I d → step d = .ok a d' → I d'

namespace Maintains

variable {ε α β : Type} {I : Draft → Prop}

theorem pure (a : α) : Maintains I (pure a : EStateM ε Draft α) := by
  intro d d' b hd h
  obtain ⟨-, rfl⟩ := pure_eq_ok.1 h
  exact hd

theorem bind {x : EStateM ε Draft α} {f : α → EStateM ε Draft β} (hx : Maintains I x)
    (hf : ∀ a, Maintains I (f a)) : Maintains I (x >>= f) := by
  intro d d'' b hd h
  obtain ⟨a, d', hstep, hnext⟩ := bind_eq_ok.1 h
  exact hf a d' d'' b (hx d d' a hd hstep) hnext

/-- A step that is refused under a condition. -/
theorem guard {p : Prop} [Decidable p] {e : ε} {x : EStateM ε Draft α} (hx : Maintains I x) :
    Maintains I (if p then throw e else x) := by
  by_cases hp : p
  · rw [if_pos hp]
    intro d d' a _ h
    cases h
  · rw [if_neg hp]
    exact hx

theorem forM {f : α → EStateM ε Draft Unit} (hf : ∀ a, Maintains I (f a)) (as : List α) :
    Maintains I (as.forM f) := by
  induction as with
  | nil => exact pure ()
  | cons a as ih => exact (hf a).bind fun _ => ih

theorem mapM {f : α → EStateM ε Draft β} (hf : ∀ a, Maintains I (f a)) (as : List α) :
    Maintains I (as.mapM f) := by
  induction as with
  | nil =>
    rw [List.mapM_nil]
    exact pure []
  | cons a as ih =>
    rw [List.mapM_cons]
    exact (hf a).bind fun _ => ih.bind fun _ => pure _

end Maintains

/-- All steps in the construction of a class maintain the property. -/
structure Draft.Invariant (I : Draft → Prop) : Prop where
  intern : ∀ {α : Type} {r : Intern α}, Pool.Appends r → Maintains I (Draft.intern r)
  field : ∀ f, Maintains I (Draft.field f)
  method : ∀ m, Maintains I (Draft.method m)
  bootstrap : ∀ handle arguments, Maintains I (Draft.bootstrap handle arguments)

theorem Draft.Invariant.invokeDynamic {I : Draft → Prop} (hI : Draft.Invariant I) (handle : UInt16)
    (arguments : List UInt16) (name : String) (type : MethodType) :
    Maintains I (Draft.invokeDynamic handle arguments name type) :=
  (hI.bootstrap handle arguments).bind fun number =>
    hI.intern (Pool.invokeDynamic_appends number name type.descriptor)

/-! ## Lists of related elements -/

theorem exists_of_forall₂ {α β : Type} {R : α → β → Prop} {as : List α} {bs : List β}
    (h : List.Forall₂ R as bs) {a : α} (ha : a ∈ as) : ∃ b ∈ bs, R a b := by
  induction h with
  | nil => cases ha
  | @cons a' b as bs hab _ ih =>
    rcases List.mem_cons.mp ha with rfl | ha
    · exact ⟨b, by simp, hab⟩
    · obtain ⟨b', hb', hR⟩ := ih ha
      exact ⟨b', by simp [hb'], hR⟩

/-- What is read of related elements is the same list. -/
theorem map_eq_of_forall₂ {α β γ : Type} {R : α → β → Prop} {f : α → γ} {g : β → γ} {as : List α}
    {bs : List β} (h : List.Forall₂ R as bs) (hfg : ∀ a b, R a b → g b = f a) :
    bs.map g = as.map f := by
  induction h with
  | nil => rfl
  | cons hab _ ih => rw [List.map_cons, List.map_cons, hfg _ _ hab, ih]

/-! ## Attributes of one member -/

/-- The names of the attributes that are not annotations. -/
def MemberInfo.plainAttributes (m : MemberInfo) : List String :=
  (m.attributes.map (·.name)).filter fun name =>
    name ≠ AnnotationEntry.memberAttribute ∧ name ≠ AnnotationEntry.parameterAttribute

namespace Field

/-- The member is read with the attributes of the field. -/
def IsStoredAs (t : ConstantTable) (f : Field) (info : MemberInfo) : Prop :=
  f.Attributes t info.attributes

theorem write_isStoredAs (f : Field) :
    Writes f.write fun t bs => ∃ info, Reads t.readMember bs info ∧ f.IsStoredAs t info :=
  f.write_attributes.mono fun _ _ ⟨info, hread, _, hattributes⟩ => ⟨info, hread, hattributes⟩

theorem plainAttributes_of_isStoredAs {t : ConstantTable} {f : Field} {info : MemberInfo}
    (h : f.IsStoredAs t info) : info.plainAttributes = [] := by
  unfold IsStoredAs Attributes at h
  unfold MemberInfo.plainAttributes
  split at h
  · rw [h]
    rfl
  · obtain ⟨data, hattributes, -⟩ := h
    simp [hattributes]

end Field

namespace Method

/-- The member is read with the attributes of the method. -/
def IsStoredAs (t : ConstantTable) (m : Method) (info : MemberInfo) : Prop :=
  ∃ code, m.Attributes t code info.attributes

theorem write_isStoredAs (m : Method) :
    Writes m.write fun t bs => ∃ info, Reads t.readMember bs info ∧ m.IsStoredAs t info := by
  intro s s' hs h
  obtain ⟨code, bs, -, hwrote, hbs⟩ := wrote_of_write hs h
  refine ⟨bs, hwrote, fun t ht => ?_⟩
  obtain ⟨info, hinfo, -, hattributes⟩ := hbs t ht
  exact ⟨info, hinfo, code, hattributes⟩

theorem annotations_of_isStoredAs {image : Image} {m : Method} {info : MemberInfo}
    (h : m.IsStoredAs image.constants info) : image.annotations info = .ok [] := by
  obtain ⟨code, data, rest, own, hattributes, -, -, hrest⟩ := h
  unfold Image.annotations MemberInfo.attribute?
  rw [hattributes]
  by_cases hannotated : m.isAnnotated = true
  · rw [if_pos hannotated] at hrest
    obtain ⟨data', rfl, -⟩ := hrest
    rfl
  · rw [if_neg hannotated] at hrest
    rw [hrest]
    rfl

theorem plainAttributes_of_isStoredAs {t : ConstantTable} {m : Method} {info : MemberInfo}
    (h : m.IsStoredAs t info) : info.plainAttributes = [Code.attributeName] := by
  obtain ⟨code, data, rest, own, hattributes, -, -, hrest⟩ := h
  unfold MemberInfo.plainAttributes
  rw [hattributes]
  by_cases hannotated : m.isAnnotated = true
  · rw [if_pos hannotated] at hrest
    obtain ⟨data', rfl, -⟩ := hrest
    rfl
  · rw [if_neg hannotated] at hrest
    rw [hrest]
    rfl

end Method

/-! ## Tables of members -/

namespace Table.Holds

variable {α : Type} {describes : ConstantTable → α → MemberInfo → Prop} {p : Pool} {table : Table}
  {items : List α}

/-- An empty table holds no items, whatever they are. -/
theorem nil {β : Type} {describes' : ConstantTable → β → MemberInfo → Prop}
    (h : table.Holds describes p []) : table.Holds describes' p [] := by
  refine ⟨h.count, fun t ht => ?_⟩
  obtain ⟨infos, hinfos, hnone⟩ := h.entries t ht
  cases hnone
  exact ⟨[], hinfos, .nil⟩

/-- What is read from a table describes one of its items. -/
theorem exists_item (h : table.Holds describes p items) {t : ConstantTable} (hle : p.table ≤ t)
    {infos : List MemberInfo} (hreads : ReadsAll t.readMember table.bytes.toBytes infos)
    (hcount : table.count = infos.length) {info : MemberInfo} (hinfo : info ∈ infos) :
    ∃ a, describes t a info := by
  obtain ⟨infos', hinfos', hitems⟩ := h.entries _ hle
  have hlength : infos'.length = infos.length := by
    rw [← hitems.length_eq, ← h.count, hcount]
  rw [hinfos'.unique hreads hlength] at hitems
  obtain ⟨a, -, ha⟩ := exists_of_forall₂ hitems.flip hinfo
  exact ⟨a, ha⟩

end Table.Holds

namespace Draft

/-- Every entry of the tables of members is read with the attributes of a member. -/
structure HasPlainMembers (d : Draft) : Prop where
  valid : d.pool.Valid
  fields : ∃ fields, d.fields.Holds Field.IsStoredAs d.pool fields
  methods : ∃ methods, d.methods.Holds Method.IsStoredAs d.pool methods

theorem HasPlainMembers.mono {d d' : Draft} (h : d.HasPlainMembers) (hgrows : d.pool.Grows d'.pool)
    (hfields : d'.fields = d.fields) (hmethods : d'.methods = d.methods) :
    d'.HasPlainMembers := by
  obtain ⟨hvalid, ⟨fields, hholds⟩, ⟨methods, hholds'⟩⟩ := h
  exact ⟨hgrows.valid hvalid, ⟨fields, hfields ▸ hholds.mono hgrows.le⟩,
    ⟨methods, hmethods ▸ hholds'.mono hgrows.le⟩⟩

theorem hasPlainMembers_new {name superName : String} {access : UInt16} {d : Draft}
    (h : new name superName access = .ok d) : d.HasPlainMembers := by
  have hd := holds_new h
  exact ⟨hd.valid, ⟨[], hd.fields.nil⟩, ⟨[], hd.methods.nil⟩⟩

theorem invariant_hasPlainMembers : Invariant HasPlainMembers where
  intern := by
    intro α r hr d d' a hd h
    obtain ⟨header, pool, fields, methods, bootstraps⟩ := d
    unfold Draft.intern at h
    simp only at h
    split at h
    · rename_i hq
      cases h
      exact hd.mono (hr.grows hq) rfl rfl
    · cases h
  field := by
    intro f d d' a hd h
    obtain ⟨header, pool, ⟨count, bytes⟩, methods, bootstraps⟩ := d
    unfold Draft.field at h
    simp only at h
    split at h
    · rename_i q out hwrite
      cases h
      obtain ⟨fields, hholds⟩ := hd.fields
      obtain ⟨hgrows, hholds'⟩ := hholds.write hd.valid f.write_isStoredAs hwrite
      obtain ⟨methods, hmethods⟩ := hd.methods
      exact ⟨hgrows.valid hd.valid, ⟨_, hholds'⟩, ⟨methods, hmethods.mono hgrows.le⟩⟩
    · cases h
  method := by
    intro m d d' a hd h
    obtain ⟨header, pool, fields, ⟨count, bytes⟩, bootstraps⟩ := d
    unfold Draft.method at h
    simp only at h
    split at h
    · rename_i q out hwrite
      cases h
      obtain ⟨methods, hholds⟩ := hd.methods
      obtain ⟨hgrows, hholds'⟩ := hholds.write hd.valid m.write_isStoredAs hwrite
      obtain ⟨fields, hfields⟩ := hd.fields
      exact ⟨hgrows.valid hd.valid, ⟨fields, hfields.mono hgrows.le⟩, ⟨_, hholds'⟩⟩
    · cases h
  bootstrap := by
    intro handle arguments d d' a hd h
    obtain ⟨-, rfl⟩ := bootstrap_eq_ok h
    exact hd.mono (Pool.Grows.refl _) rfl rfl

namespace HasPlainMembers

variable {d : Draft} {image : Image}

/-- In the image of a draft fields have no attributes but annotations. -/
theorem fields_of_build (h : d.HasPlainMembers) (hle : d.pool.table ≤ image.constants)
    (hstored : d.IsStoredIn image) (hcount : d.fields.count = image.fields.length) :
    ∀ info ∈ image.fields, info.plainAttributes = [] := by
  obtain ⟨fields, hholds⟩ := h.fields
  intro info hinfo
  obtain ⟨f, hf⟩ := hholds.exists_item hle hstored.fields hcount hinfo
  exact Field.plainAttributes_of_isStoredAs hf

/-- In the image of a draft methods have code, and no annotations of their own. -/
theorem methods_of_build (h : d.HasPlainMembers) (hle : d.pool.table ≤ image.constants)
    (hstored : d.IsStoredIn image) (hcount : d.methods.count = image.methods.length) :
    ∀ info ∈ image.methods,
      info.plainAttributes = [Code.attributeName] ∧ image.annotations info = .ok [] := by
  obtain ⟨methods, hholds⟩ := h.methods
  intro info hinfo
  obtain ⟨m, hm⟩ := hholds.exists_item hle hstored.methods hcount hinfo
  exact ⟨Method.plainAttributes_of_isStoredAs hm, Method.annotations_of_isStoredAs hm⟩

end HasPlainMembers

end Draft

end SchemaRecords.ClassFile
