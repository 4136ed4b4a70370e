import SchemaRecords.Proofs.Record.Admissible
import SchemaRecords.Proofs.Record.Lookup
import SchemaRecords.Proofs.Record.Package
import SchemaRecords.Proofs.Record.Recipe

/-!
# String forms of records

The method `toString` of a record class, run from the bytes of its class file,
with its call site linked as the bootstrap method in the class file says.

* `toString_returns_iff`: it returns the name of the type and, in brackets, the components in
  order; the descriptor of the call site, the operands and the tags of the recipe agree. No type
  of which a value is shown may have a semicolon in its name.
* `not_returns_of_emitted`: what it comes to if the descriptor has another number of parameters.
-/

namespace SchemaRecords.Record

open SchemaRecords.ClassFile
open SchemaRecords.Machine

namespace Rendering

/-- What the call site of the string form is linked to. -/
def concatenation (l : Layout) : Concatenation :=
  ⟨(Recipe.ofRecord l.typeName l.components).template.toList,
    (Recipe.ofRecord l.typeName l.components).constants⟩

theorem link?_linkage (l : Layout) : Concatenation.link? (linkage l) = some (concatenation l) := by
  have hfactory : (⟨factoryName, factoryMethod, factoryDescriptor⟩ : MemberRef)
      = Concatenation.factory := rfl
  rw [Concatenation.link?, linkage, if_pos ⟨rfl, hfactory⟩, List.map_cons]
  simp only
  rw [Concatenation.texts?_map_string]
  rfl

theorem isPlain_callType {l : Layout} (h : ∀ c ∈ shown l, c.type.IsPlain) :
    (callType l).IsPlain := by
  have hstring : stringType.IsPlain := by decide +kernel
  refine ⟨List.forall_mem_map.mpr h, ?_⟩
  rintro t ⟨⟩
  exact hstring

/-- Values of a type that is referred to are shown, but not arrays of them. -/
theorem isPlain_of_shown {s : Settings} (hs : s.fault? = none) {type : Schema.RecordType}
    (h : ∀ p ∈ type.properties, ∀ name, p.type = .reference name → ';' ∉ name.toList) :
    ∀ c ∈ shown (Layout.ofType s type), c.type.IsPlain := by
  intro c hc
  obtain ⟨hc, hshown⟩ := List.mem_filter.mp hc
  obtain ⟨p, hp, rfl⟩ := List.mem_map.mp hc
  refine (isPlain_fieldType_iff hs).mpr fun name hname => h p hp name ?_
  cases htype : p.type with
  | reference name' =>
    rw [htype] at hname
    cases hname
    rfl
  | array element =>
    rw [htype] at hshown
    cases hshown
  | _ =>
    rw [htype] at hname
    cases hname

/-- The values that are shown, in order. -/
def operands (l : Layout) (memory : Memory) (this : Reference) : List Value :=
  (shown l).map (l.valueOf memory this)

/-- The texts of the components of a record. -/
def texts (l : Layout) (w : World) (memory : Memory) (this : Reference) (c : Component) : String :=
  w.text (l.valueOf memory this c)

section Texts

variable (l : Layout) (w : World) (memory : Memory) (this : Reference)

theorem hasType_operands :
    List.Forall₂ Value.HasType (operands l memory this) (callType l).parameters := by
  rw [operands, callType, List.forall₂_map_left_iff, List.forall₂_map_right_iff,
    List.forall₂_same]
  intro c _
  exact l.hasType_valueOf memory this c

theorem map_text_operands :
    (operands l memory this).map w.text
      = Recipe.shownTexts (texts l w memory this) l.components := by
  rw [operands, List.map_map]
  rfl

theorem arity_concatenation : (concatenation l).arity = (callType l).parameters.length := by
  have harity := (Recipe.expands_ofRecord (fun _ => "") l.typeName l.components).arity
  refine harity.trans ?_
  rw [Recipe.shownTexts, callType, List.length_map, List.length_map]
  rfl

theorem text?_concatenation :
    (concatenation l).text? ((operands l memory this).map w.text)
      = some (Recipe.recordText l.typeName l.components (texts l w memory this)) := by
  have htext := (Recipe.expands_ofRecord (texts l w memory this) l.typeName l.components).text?
  rw [String.ofList_toList] at htext
  rw [map_text_operands]
  exact htext

end Texts

/-! ## The parts of the method -/

section Parts

variable {x : Context} {l : Layout} {this : Reference}

/-- Components are pushed in order. -/
theorem run_loads {cs : List Component} (hfields : ∀ c ∈ cs, x.hasField this (l.fieldRef c))
    (ops : List Operation) (stack : List Value) (locals : List (Option Value)) (memory : Memory)
    (stores : List Store) :
    run x (cs.flatMap l.loadThis ++ ops) ⟨stack, some (.object this) :: locals, memory, stores⟩ =
      run x ops ⟨(cs.map (l.valueOf memory this)).reverse ++ stack, some (.object this) :: locals,
        memory, stores⟩ := by
  induction cs generalizing stack with
  | nil => rfl
  | cons c cs ih =>
    rw [List.flatMap_cons, List.append_assoc, run_loadThis (hfields c (by simp)),
      ih fun d hd => hfields d (by simp [hd]), List.map_cons, List.reverse_cons,
      List.append_assoc, List.singleton_append]

/-- The method with its operands pushed. -/
def loaded (l : Layout) (memory : Memory) (this : Reference) : Activation :=
  ⟨(operands l memory this).reverse, [some (.object this)], memory, []⟩

theorem run_operands (hfields : ∀ c ∈ l.components, x.hasField this (l.fieldRef c))
    (memory : Memory) :
    run x ((shown l).flatMap l.loadThis) (Activation.entry memory [.object this])
      = some (.falls (loaded l memory this)) := by
  have hshown : ∀ c ∈ shown l, x.hasField this (l.fieldRef c) := fun c hc =>
    hfields c (List.mem_filter.mp hc).1
  have hrun := run_loads hshown [] [] [] memory []
  rw [List.append_nil, List.append_nil] at hrun
  exact hrun

/-- The method once it has its operands. -/
theorem run_call {site : UInt16} (hsite : x.site? site = some ⟨callType l, concatenation l⟩)
    (memory : Memory) {answer : Value}
    (hanswer : answer = .object (x.world.string
      (Recipe.recordText l.typeName l.components (texts l x.world memory this)))) :
    run x [.invokeDynamic site (callType l), .returnValue stringType] (loaded l memory this) =
      some (.returns (some answer)
        ((Activation.entry memory [.object this]).push answer)) := by
  subst hanswer
  have hstack : (loaded l memory this).stack = (operands l memory this).reverse ++ [] :=
    (List.append_nil _).symm
  rw [run_invokeDynamic hsite rfl (hasType_operands l memory this) hstack
    (text?_concatenation l x.world memory this)]
  exact run_returnValue rfl rfl

theorem runs_operations {where? : Label → Option Nat} {m : Nat} {site : UInt16}
    (h : Located x.image.constants x.code where? (operations l site) 0 m)
    (hfields : ∀ c ∈ l.components, x.hasField this (l.fieldRef c))
    (hsite : x.site? site = some ⟨callType l, concatenation l⟩) (memory : Memory) {answer : Value}
    (hanswer : answer = .object (x.world.string
      (Recipe.recordText l.typeName l.components (texts l x.world memory this)))) :
    Runs x ⟨0, Activation.entry memory [.object this]⟩ (some answer)
      ((Activation.entry memory [.object this]).push answer) := by
  obtain ⟨k, hloads, hcall⟩ := located_append.mp h
  have hreaches : Reaches x ⟨0, Activation.entry memory [.object this]⟩ ⟨k, loaded l memory this⟩ :=
    arrives_of_run hloads (run_operands hfields memory)
  exact hreaches.runs (arrives_of_run (e := .returns _ _) hcall (run_call hsite memory hanswer))

end Parts

theorem nodup_labels (l : Layout) (site : UInt16) :
    (boundLabels (operations l site)).Nodup := by
  have hloads (cs : List Component) : boundLabels (cs.flatMap l.loadThis) = [] := by
    induction cs with
    | nil => rfl
    | cons c cs ih =>
      rw [List.flatMap_cons, boundLabels_append, ih]
      rfl
  rw [operations, boundLabels_append, hloads]
  exact List.nodup_nil

/-! ## The method in the class file -/

section Emitted

variable {l : Layout} {image : Image} {site : UInt16}

/-- The type of the call site is what is read from its descriptor. -/
theorem site?_of_emitted (h : l.Emitted image site) {type : MethodType}
    (htype : MethodType.read? (callType l).descriptor = some type) (w : World) (code : Bytes) :
    Context.site? ⟨image, [linkage l], code, w⟩ site = some ⟨type, concatenation l⟩ := by
  have hzero : [linkage l][(0 : UInt16).toNat]? = some (linkage l) := rfl
  rw [Context.site?, h.site]
  simp only [htype, hzero, Option.bind_some, link?_linkage]

theorem returns_of_emitted (h : l.Emitted image site)
    (htype : MethodType.read? (callType l).descriptor = some (callType l)) (w : World)
    (memory : Memory) {this : Reference} (hthis : w.isInstance this l.thisName) :
    Returns image w "toString" "()Ljava/lang/String;" memory [.object this]
      (some (.object (w.string
        (Recipe.recordText l.typeName l.components (texts l w memory this))))) memory [] := by
  obtain ⟨info, hfind, hinfo⟩ := h.rendering
  exact returns_of_runs (m := method l site) hfind hinfo (nodup_labels l site) h.bootstraps
    fun code where? hlocated =>
      runs_operations hlocated (fun c hc => h.hasField hc hthis)
        (site?_of_emitted h htype w code) memory rfl

theorem callsSite_of_emitted (h : l.Emitted image site) (w : World) (memory : Memory)
    {this : Reference} (hthis : w.isInstance this l.thisName) :
    CallsSite image w "toString" "()Ljava/lang/String;" memory [.object this]
      (operands l memory this) site := by
  obtain ⟨info, hfind, hinfo⟩ := h.rendering
  obtain ⟨code, where?, hcode, hlocated⟩ := hinfo.located (nodup_labels l site) image rfl
  obtain ⟨k, hloads, k', hcall, -⟩ := located_append.mp hlocated
  have hreaches := arrives_of_run (x := ⟨image, [linkage l], code.bytes, w⟩) hloads
    (run_operands (fun c hc => h.hasField hc hthis) memory)
  exact ⟨info, code, [linkage l], k, k', loaded l memory this, hfind, hcode, h.bootstraps,
    hreaches, rfl, hcall.act rfl⟩

/-- The method gets no further than the call if the descriptor of the call site is read as a type
with another number of parameters. -/
theorem not_returns_of_emitted (h : l.Emitted image site) {type : MethodType}
    (htype : MethodType.read? (callType l).descriptor = some type)
    (hlength : type.parameters.length ≠ (callType l).parameters.length) (w : World)
    (memory : Memory) {this : Reference} (hthis : w.isInstance this l.thisName)
    (result : Option Value) (after : Memory) (stores : List Store) :
    ¬Returns image w "toString" "()Ljava/lang/String;" memory [.object this] result after
      stores := by
  rintro ⟨info, code, bootstraps, locals, stack, hinfo, hcode, hbootstraps, hruns⟩
  obtain ⟨info', code', bootstraps', offset, next, a, hinfo', hcode', hbootstraps', hreaches, -,
    hfetch⟩ := callsSite_of_emitted h w memory hthis
  cases hinfo.symm.trans hinfo'
  cases hcode.symm.trans hcode'
  cases hbootstraps.symm.trans hbootstraps'
  cases hbootstraps.symm.trans h.bootstraps
  have hstuck : step ⟨image, [linkage l], code.bytes, w⟩ ⟨offset, a⟩ = none := by
    rw [← arity_concatenation] at hlength
    have hcall : concatenate? w ⟨type, concatenation l⟩ a.stack = none :=
      concatenate?_eq_none hlength a.stack
    rw [step_of_act hfetch, exec, site?_of_emitted h htype]
    simp only [hcall, Option.map_none]
  cases hreaches.runs_of_runs hruns with
  | returned hstep => cases hstuck.symm.trans hstep
  | running hstep _ => cases hstuck.symm.trans hstep

end Emitted

/-- `toString` returns the name of the type and, in brackets, the components in order, each with
the text of its value or, for an array, its type. The call it makes has an operand for each
parameter that is read from the descriptor of the call site, and for each tag of the recipe. The
types of which values are shown have no semicolons in their names. -/
theorem toString_returns_iff {s : Settings} {type : Schema.RecordType} {artifact : Artifact}
    (h : Artifact.ofType s type = .ok artifact)
    (hnames : ∀ p ∈ type.properties, ∀ name, p.type = .reference name → ';' ∉ name.toList) :
    ∃ image bootstrap linked site descriptor called,
      Image.parse artifact.bytes = .ok image ∧
      image.bootstraps = .ok [bootstrap] ∧ Concatenation.link? bootstrap = some linked ∧
      image.constants.invokeDynamic site = .ok (0, "toString", descriptor) ∧
      MethodType.read? descriptor = some called ∧
      linked.arity = called.parameters.length ∧
      ∀ (w : World) (memory : Memory) (this : Reference),
        w.isInstance this artifact.internalName →
        (∃ operands,
          CallsSite image w "toString" "()Ljava/lang/String;" memory [.object this] operands site ∧
            List.Forall₂ Value.HasType operands called.parameters) ∧
        ∀ result after stores,
          Returns image w "toString" "()Ljava/lang/String;" memory [.object this] result after
              stores ↔
            result = some (.object (w.string (Recipe.recordText type.name
                (Layout.ofType s type).components fun c =>
                  w.text ((Layout.ofType s type).valueOf memory this c)))) ∧
              after = memory ∧ stores = [] := by
  obtain ⟨image, site, hparse, hname, hemitted⟩ := emitted_of_ofType h
  have htype := MethodType.read?_descriptor
    (isPlain_callType (isPlain_of_shown (Artifact.fault?_of_ofType h) hnames))
  refine ⟨image, linkage _, concatenation _, site, _, callType _, hparse, hemitted.bootstraps,
    link?_linkage _, hemitted.site, htype, arity_concatenation _, fun w memory this hthis => ?_⟩
  rw [hname] at hthis
  constructor
  · exact ⟨_, callsSite_of_emitted hemitted w memory hthis, hasType_operands _ memory this⟩
  · intro result after stores
    exact (returns_of_emitted hemitted htype w memory hthis).iff

/-- A type that is referred to is shown like any other. -/
theorem toString_parcel :
    ∃ artifact image, Artifact.ofType {} (Parcel.type "Person") = .ok artifact ∧
      Image.parse artifact.bytes = .ok image ∧
      ∀ result after stores,
        Returns image .plain "toString" "()Ljava/lang/String;" .paired [.object 4] result after
            stores ↔
          result = some (.object (World.plain.string "Parcel[notes=String[], recipient=null]")) ∧
            after = .paired ∧ stores = [] := by
  have hsmall : (Layout.ofType {} (Parcel.type "Person")).IsSmall := by decide +kernel
  have hnames : ∀ p ∈ (Parcel.type "Person").properties, ∀ name,
      p.type = .reference name → ';' ∉ name.toList := by
    simp [Parcel.type]
  obtain ⟨artifact, hartifact⟩ := exists_ofType_of_small Settings.fault?_default hsmall
  obtain ⟨image, bootstrap, linked, site, descriptor, called, hparse, -, -, -, -, -, hreturns⟩ :=
    toString_returns_iff hartifact hnames
  have htext : Recipe.recordText (Parcel.type "Person").name
      (Layout.ofType {} (Parcel.type "Person")).components (fun c => World.plain.text
        ((Layout.ofType {} (Parcel.type "Person")).valueOf .paired 4 c))
      = "Parcel[notes=String[], recipient=null]" := by
    decide +kernel
  refine ⟨artifact, image, hartifact, hparse, fun result after stores => ?_⟩
  rw [(hreturns .plain .paired 4 rfl).2, htext]

/-- The class of a type that refers to `A;DLB` is made. Its call site has one operand and one tag,
but three parameters are read from its descriptor, and `toString` never returns. -/
theorem toString_fails_parcel :
    ∃ artifact image bootstrap linked site descriptor called,
      Artifact.ofType {} (Parcel.type "A;DLB") = .ok artifact ∧
      Image.parse artifact.bytes = .ok image ∧
      image.bootstraps = .ok [bootstrap] ∧ Concatenation.link? bootstrap = some linked ∧
      image.constants.invokeDynamic site = .ok (0, "toString", descriptor) ∧
      MethodType.read? descriptor = some called ∧
      called.parameters.length = 3 ∧ linked.arity = 1 ∧
      ∀ (w : World) (memory : Memory) (this : Reference), w.isInstance this "Parcel" →
        (∃ operands, CallsSite image w "toString" "()Ljava/lang/String;" memory [.object this]
          operands site ∧ operands.length = 1) ∧
        ∀ result after stores, ¬Returns image w "toString" "()Ljava/lang/String;" memory
          [.object this] result after stores := by
  have hsmall : (Layout.ofType {} (Parcel.type "A;DLB")).IsSmall := by decide +kernel
  obtain ⟨artifact, hartifact⟩ := exists_ofType_of_small Settings.fault?_default hsmall
  obtain ⟨image, site, hparse, -, hemitted⟩ := emitted_of_ofType hartifact
  have hread : MethodType.read? (callType (Layout.ofType {} (Parcel.type "A;DLB"))).descriptor =
      some ⟨[.object "A", .double, .object "B"], some stringType⟩ := by
    decide +kernel
  refine ⟨artifact, image, linkage _, concatenation _, site, _, _, hartifact, hparse,
    hemitted.bootstraps, link?_linkage _, hemitted.site, hread, rfl, arity_concatenation _,
    fun w memory this hthis => ⟨⟨_, callsSite_of_emitted hemitted w memory hthis, rfl⟩, ?_⟩⟩
  exact not_returns_of_emitted hemitted hread (by decide) w memory hthis

end Rendering

end SchemaRecords.Record
