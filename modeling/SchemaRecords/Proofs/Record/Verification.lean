import SchemaRecords.Proofs.Record.Admissible
import SchemaRecords.Proofs.Record.Construction
import SchemaRecords.Proofs.Record.Equality
import SchemaRecords.Proofs.Record.Hashing
import SchemaRecords.Proofs.Record.Package
import SchemaRecords.Proofs.Record.Rendering
import SchemaRecords.Proofs.Verifier.Assembly

/-!
# The methods of record classes are verified

For each method of a record class the types are followed through its operations,
from the values in the locals when it is called to its return. With
`verifies_of_flow` the verifier accepts the code of the method and its frames.

* `methods_verify_iff`: all methods of a class file that is made are verified just if no type that
  it refers to has a semicolon in its name.
-/

namespace SchemaRecords.Record

open SchemaRecords.ClassFile
open SchemaRecords.Verifier

variable {x : Scope} {declares : Label → Frame → Prop} {l : Layout}
  {locals : List (Option Operand)} {stack : List Operand} {image : Image}

/-! ## Components on the stack -/

/-- The first local holds the record. -/
structure Layout.HasThis (l : Layout) (x : Scope) (locals : List (Option Operand)) : Prop where
  roomy : x.Roomy locals
  this : locals[0]? = some (some (.typed l.thisType))

theorem Layout.HasThis.loadThis (h : l.HasThis x locals) (c : Component)
    (hstack : stack.length < operandLimit) :
    Flow x declares (some ⟨locals, stack, false⟩) (l.loadThis c)
      (some ⟨locals, .typed c.type.verification :: stack, false⟩) := by
  refine .cons (Flow.loadReference h.roomy h.this rfl hstack) ?_
  exact Flow.uses h.roomy [.typed l.thisType] rfl rfl rfl (.cons (.refl _) .nil) hstack

/-! ## Accessors -/

namespace Accessor

theorem flowsThrough (image : Image) (l : Layout) (c : Component) :
    FlowsThrough image (method l c) (some (.typed l.thisType)) := by
  intro n hn
  have h : l.HasThis ⟨image.name, image.superName, some c.type, 65535, n⟩ _ := ⟨⟨rfl, hn⟩, rfl⟩
  exact (h.loadThis c (by decide)).append (Flow.returnValue rfl (.refl _))

end Accessor

/-! ## The constructor -/

namespace Constructor

theorem family_verification (t : FieldType) : t.family = (Operand.typed t.verification).family := by
  cases t <;> rfl

/-- Where a value is among the locals, if it is known how many come before it. -/
theorem held_spread {before after : List (Option Operand)} {slot : Nat}
    {type : VerificationType} {types : List VerificationType}
    (hlocals : locals = before ++ (spread (type :: types) ++ after))
    (hbefore : before.length = slot) :
    locals[slot]? = some (some (.typed type)) ∧
      ((Operand.typed type).slots = 2 → locals[slot + 1]? = some none) := by
  subst hlocals hbefore
  constructor
  · rw [List.getElem?_append_right (Nat.le_refl _), Nat.sub_self]
    rfl
  · intro hwide
    cases type with
    | double =>
      rw [List.getElem?_append_right (Nat.le_add_right _ 1), Nat.add_sub_cancel_left]
      rfl
    | _ => cases hwide

/-- Each parameter is stored from its own locals. -/
theorem stores_flow (h : l.HasThis x locals) (cs : List Component) (slot : UInt16)
    (before after : List (Option Operand))
    (hlocals : locals = before ++ (spread (cs.map (·.type.verification)) ++ after))
    (hbefore : before.length = slot.toNat) (hsmall : slot.toNat + slotsOf cs ≤ 65535) :
    Flow x declares (some ⟨locals, [], false⟩) (stores l slot cs) (some ⟨locals, [], false⟩) := by
  induction cs generalizing slot before with
  | nil => exact .nil
  | cons c cs ih =>
    obtain ⟨hheld, hwide⟩ := held_spread hlocals hbefore
    rw [slotsOf] at hsmall
    have hslot : (slot + c.type.slots).toNat = slot.toNat + c.type.slots.toNat :=
      toNat_add_of_le (by omega)
    refine .cons (Flow.loadReference h.roomy h.this rfl (by simp [operandLimit])) ?_
    refine .cons (Flow.load h.roomy hheld (family_verification _) hwide
      (by simp [operandLimit])) ?_
    refine .cons (Flow.uses h.roomy [.typed c.type.verification, .typed l.thisType] rfl rfl rfl
      (.cons (.refl _) (.cons (.refl _) .nil)) (by simp [operandLimit])) ?_
    refine ih (slot + c.type.slots) (before ++ spread [c.type.verification]) ?_ ?_ (by omega)
    · rw [hlocals]
      simp [spread]
    · rw [List.length_append, hbefore, hslot, length_spread]
      exact congrArg (slot.toNat + ·) (congrArg UInt16.toNat (slots_verification c.type))

/-- What the constructor knows of its locals once the superclass has set up the record. -/
theorem constructed_locals (name : String) (n : Nat) (types : List VerificationType) :
    (pad n (some .uninitializedThis :: spread types)).map (·.map (Operand.constructed name)) =
      pad n (some (.typed (.object name)) :: spread types) := by
  have hspread : (spread types).map (·.map (Operand.constructed name)) = spread types := by
    induction types with
    | nil => rfl
    | cons type types ih =>
      rw [spread, List.flatMap_cons, List.map_append]
      refine congrArg₂ (· ++ ·) ?_ ih
      rw [List.map_cons, List.map_replicate]
      rfl
  rw [pad, pad, List.map_append, List.map_cons, hspread, List.map_replicate]
  rfl

/-- The constructor calls that of the superclass first. -/
theorem opening_flow {n : Nat} {types : List VerificationType}
    (hroomy : x.Roomy (pad n (some .uninitializedThis :: spread types)))
    (hsuper : x.superName = some recordName) :
    Flow x declares (some ⟨pad n (some .uninitializedThis :: spread types), [], true⟩)
      [.loadReference 0, .invoke .special recordName name .void]
      (some ⟨pad n (some (.typed (.object x.thisName)) :: spread types), [], false⟩) := by
  rw [← constructed_locals]
  refine .cons (Flow.loadReference hroomy rfl rfl (by decide)) ?_
  exact Flow.construct hroomy hsuper.symm

theorem flowsThrough (hname : image.name = l.thisName) (hsuper : image.superName = some recordName)
    (hslots : slots l ≤ maxParameterSlots) :
    FlowsThrough image (method l) (some .uninitializedThis) := by
  intro n hn
  have htypes : (type l).parameters.map FieldType.verification =
      l.components.map (·.type.verification) := List.map_map
  let x : Scope := ⟨l.thisName, image.superName, none, 65535, n⟩
  have hroomy : x.Roomy (pad n (some .uninitializedThis ::
      spread (l.components.map (·.type.verification)))) := by
    rw [← htypes]
    exact ⟨rfl, hn⟩
  have hthis : l.HasThis x (pad n (some (.typed (.object l.thisName)) ::
      spread (l.components.map (·.type.verification)))) := by
    rw [← constructed_locals]
    refine ⟨⟨rfl, (List.length_map _).trans hroomy.locals⟩, rfl⟩
  have hsmall : (1 : UInt16).toNat + slotsOf l.components ≤ 65535 := by
    rw [slots, foldl_slots, maxParameterSlots] at hslots
    show 1 + _ ≤ _
    omega
  show Flow ⟨image.name, image.superName, none, 65535, n⟩ _
    (some ⟨pad n (some .uninitializedThis :: spread ((type l).parameters.map _)), [], true⟩)
    (operations l) none
  rw [htypes, hname]
  exact ((opening_flow hroomy hsuper).append
    (stores_flow hthis l.components 1 [some (.typed l.thisType)] _ rfl rfl hsmall)).append
    (Flow.returnVoid rfl)

end Constructor

/-! ## Equality -/

namespace Equality

/-- The locals hold the record and the other object, as the frames of the labels say. -/
structure Prepared (l : Layout) (x : Scope) (declares : Label → Frame → Prop)
    (locals : List (Option Operand)) : Prop extends l.HasThis x locals where
  other : locals[1]? = some (some (.typed (.object FieldType.objectName)))
  frame : State.ofFrame x.maxLocals (frame l) = ⟨locals, [], false⟩
  equal : declares equal (Equality.frame l)
  different : declares different (Equality.frame l)
  done : declares done ((Equality.frame l).withStack [.integer])

theorem Prepared.flows (h : Prepared l x declares locals) :
    State.FlowsInto ⟨locals, [], false⟩ (.ofFrame x.maxLocals (Equality.frame l)) := by
  rw [h.frame]
  exact .refl _

/-- A test takes two values of the type. -/
theorem test_flow (h : Prepared l x declares locals) (t : FieldType) :
    Flow x declares (some ⟨locals, [.typed t.verification, .typed t.verification], false⟩) (test t)
      (some ⟨locals, [], false⟩) := by
  have hcall {op : Operation} {u : VerificationType} {o : Operand} {condition : Condition}
      (hop : ruleOf op = some (.uses [u, u] [.integer])) (ho : Assignable o (.typed u))
      (hcondition : condition ≠ .always) (htested : tested condition = [.integer]) :
      Flow x declares (some ⟨locals, [o, o], false⟩) [op, .branch condition different]
        (some ⟨locals, [], false⟩) := by
    refine .cons (Flow.uses h.roomy [o, o] hop rfl rfl (.cons ho (.cons ho .nil))
      (by simp [operandLimit])) ?_
    refine Flow.branch h.roomy [.typed .integer] hcondition rfl ?_ h.different h.flows (by decide)
    rw [htested]
    exact .cons (.refl _) .nil
  have hnumbers : Flow x declares (some ⟨locals, [.typed .integer, .typed .integer], false⟩)
      [.branch .intsDiffer different] (some ⟨locals, [], false⟩) :=
    Flow.branch h.roomy [.typed .integer, .typed .integer] (by decide) rfl
      (.cons (.refl _) (.cons (.refl _) .nil)) h.different h.flows (by decide)
  cases t with
  | boolean => exact hnumbers
  | int => exact hnumbers
  | double => exact hcall rfl (.refl _) (by decide) rfl
  | object name => exact hcall rfl (.object _) (by decide) rfl
  | array element => exact hcall rfl (.object _) (by decide) rfl

theorem compare_flow (h : Prepared l x declares locals) (c : Component) :
    Flow x declares (some ⟨locals, [], false⟩) (compare l c) (some ⟨locals, [], false⟩) := by
  refine Flow.append ((h.loadThis c (by decide)).append ?_) (test_flow h c.type)
  refine .cons (Flow.loadReference h.roomy h.other rfl (by simp [operandLimit])) ?_
  refine .cons (Flow.uses h.roomy [.typed (.object FieldType.objectName)] rfl rfl rfl
    (.cons (.refl _) .nil) (by simp [operandLimit])) ?_
  exact Flow.uses h.roomy [.typed l.thisType] rfl rfl rfl (.cons (.refl _) .nil)
    (by simp [operandLimit])

theorem opening_flow (h : Prepared l x declares locals) :
    Flow x declares (some ⟨locals, [], false⟩) (opening l) (some ⟨locals, [], false⟩) := by
  refine .cons (Flow.loadReference h.roomy h.other rfl (by decide)) ?_
  refine .cons (Flow.branch h.roomy [.typed (.object FieldType.objectName)] (by decide) rfl
    (.cons (.refl _) .nil) h.different h.flows (by decide)) ?_
  refine .cons (Flow.loadReference h.roomy h.other rfl (by decide)) ?_
  refine .cons (Flow.uses h.roomy [.typed (.object FieldType.objectName)] rfl rfl rfl
    (.cons (.refl _) .nil) (by decide)) ?_
  refine .cons (Flow.branch h.roomy [.typed .integer] (by decide) rfl (.cons (.refl _) .nil)
    h.different h.flows (by decide)) ?_
  refine .cons (Flow.loadReference h.roomy h.this rfl (by simp [operandLimit])) ?_
  refine .cons (Flow.loadReference h.roomy h.other rfl (by simp [operandLimit])) ?_
  exact Flow.branch h.roomy [.typed (.object FieldType.objectName), .typed l.thisType] (by decide)
    rfl (.cons (.refl _) (.cons (.object _) .nil)) h.equal h.flows (by decide)

/-- Both answers meet where the method returns. -/
theorem closing_flow (h : Prepared l x declares locals) (hresult : x.result = some .boolean) :
    Flow x declares (some ⟨locals, [], false⟩) (closing l) none := by
  have hframe : State.ofFrame x.maxLocals ((frame l).withStack [.integer]) =
      ⟨locals, [.typed .integer], false⟩ := congrArg (·.withStack [.typed .integer]) h.frame
  have hdone : State.FlowsInto ⟨locals, [.typed .integer], false⟩
      (.ofFrame x.maxLocals ((frame l).withStack [.integer])) := hframe ▸ .refl _
  have hconst (value : Int32) : Flow x declares (some ⟨locals, [], false⟩) [.const value]
      (some ⟨locals, [.typed .integer], false⟩) :=
    Flow.uses h.roomy [] rfl rfl rfl .nil (by decide)
  refine .cons (Flow.label h.frame (fun _ hs => by cases hs; exact .refl _)
    (h.roomy.fits (by decide) false)) ?_
  refine .cons (hconst 1) (.cons (Flow.goto h.roomy h.done hdone (by decide)) ?_)
  refine .cons (Flow.label h.frame (by simp) (h.roomy.fits (by decide) false)) ?_
  refine .cons (hconst 0) (.cons (Flow.label hframe (fun _ hs => by cases hs; exact .refl _)
    (h.roomy.fits (by decide) false)) ?_)
  exact Flow.returnValue hresult (.refl _)

theorem flowsThrough (image : Image) (l : Layout) :
    FlowsThrough image (method l) (some (.typed l.thisType)) := by
  intro n hn
  have h : Prepared l ⟨image.name, image.superName, some .boolean, 65535, n⟩
      (fun label frame => .bind label frame ∈ operations l)
      (pad n (some (.typed l.thisType) :: spread [.object FieldType.objectName])) :=
    { roomy := ⟨rfl, hn⟩
      this := rfl
      other := rfl
      frame := rfl
      equal := by simp [operations, closing]
      different := by simp [operations, closing]
      done := by simp [operations, closing] }
  exact ((opening_flow h).append (.flatMap fun c _ => compare_flow h c)).append
    (closing_flow h rfl)

end Equality

/-! ## Hash codes -/

namespace Hashing

/-- The locals hold the record, as the frames say. -/
structure Prepared (l : Layout) (x : Scope) (locals : List (Option Operand)) : Prop
    extends l.HasThis x locals where
  frame : State.ofFrame x.maxLocals (frame l) = ⟨locals, [], false⟩

theorem Prepared.withStack (h : Prepared l x locals) (stack : List VerificationType) :
    State.ofFrame x.maxLocals ((Hashing.frame l).withStack stack) =
      ⟨locals, stack.reverse.map .typed, false⟩ :=
  congrArg (·.withStack (stack.reverse.map .typed)) h.frame

theorem hashReference_flow (h : Prepared l x locals) (label : Label) (name : String)
    (hnonnull : declares label ((frame l).withStack [.integer, .object name]))
    (hdone : declares (label + 1) ((frame l).withStack [.integer, .integer])) :
    Flow x declares (some ⟨locals, [.typed (.object name), .typed .integer], false⟩)
      (hashReference l label (.object name))
      (some ⟨locals, [.typed .integer, .typed .integer], false⟩) := by
  have hreference := h.withStack [.integer, .object name]
  have hhash := h.withStack [.integer, .integer]
  refine .cons (Flow.dup h.roomy rfl (by simp [operandLimit])) ?_
  refine .cons (Flow.branch h.roomy [.typed (.object name)] (by decide) rfl
    (.cons (.object _) .nil) hnonnull (hreference ▸ .refl _) (by simp [operandLimit])) ?_
  refine .cons (Flow.pop h.roomy rfl (by decide)) ?_
  refine .cons (Flow.uses h.roomy [] rfl rfl rfl .nil (by decide)) ?_
  refine .cons (Flow.goto h.roomy hdone (hhash ▸ .refl _) (by decide)) ?_
  refine .cons (Flow.label hreference (by simp) (h.roomy.fits (by simp [operandLimit]) false)) ?_
  refine .cons (Flow.uses h.roomy [.typed (.object name)] rfl rfl rfl (.cons (.object _) .nil)
    (by decide)) ?_
  exact Flow.label hhash (fun _ hs => by cases hs; exact .refl _) (h.roomy.fits (by decide) false)

/-- An array of references is an array of objects. -/
theorem assignable_array {element : FieldType} (h : element.family = .reference) :
    Assignable (.typed (FieldType.array element).verification)
      (.typed (FieldType.array (.object FieldType.objectName)).verification) := by
  have hobjects : (FieldType.array (.object FieldType.objectName)).verification =
      .object Verifier.objectsName := by decide +kernel
  rw [hobjects]
  refine .objects ?_
  show isReferenceArray (String.ofList (FieldType.array element).signature) = true
  rw [isReferenceArray, String.toList_ofList]
  cases element with
  | object name => rfl
  | array element => rfl
  | _ => cases h

theorem hashValue_flow (h : Prepared l x locals) (label : Label) {t : FieldType}
    (hlabels : ∀ name, t = .object name →
      declares label ((frame l).withStack [.integer, .object name]) ∧
        declares (label + 1) ((frame l).withStack [.integer, .integer]))
    (harray : ∀ element, t = .array element → element.family = .reference) :
    Flow x declares (some ⟨locals, [.typed t.verification, .typed .integer], false⟩)
      (hashValue l label t) (some ⟨locals, [.typed .integer, .typed .integer], false⟩) := by
  cases t with
  | boolean => exact .nil
  | int => exact .nil
  | double =>
    exact Flow.uses h.roomy [.typed .double] rfl rfl rfl (.cons (.refl _) .nil) (by decide)
  | object name =>
    obtain ⟨hnonnull, hdone⟩ := hlabels name rfl
    exact hashReference_flow h label name hnonnull hdone
  | array element =>
    exact Flow.uses h.roomy [.typed (FieldType.array element).verification] rfl rfl rfl
      (.cons (assignable_array (harray element rfl)) .nil) (by decide)

theorem combine_flow (h : Prepared l x locals) {c : Component} {i : Nat}
    (hlabels : ∀ name, c.type = .object name →
      declares (2 * i) ((frame l).withStack [.integer, .object name]) ∧
        declares (2 * i + 1) ((frame l).withStack [.integer, .integer]))
    (harray : ∀ element, c.type = .array element → element.family = .reference) :
    Flow x declares (some ⟨locals, [.typed .integer], false⟩) (combine l c i)
      (some ⟨locals, [.typed .integer], false⟩) := by
  have hsum {op : Operation} (hop : ruleOf op = some (.uses [.integer, .integer] [.integer])) :
      Flow x declares (some ⟨locals, [.typed .integer, .typed .integer], false⟩) [op]
        (some ⟨locals, [.typed .integer], false⟩) :=
    Flow.uses h.roomy [.typed .integer, .typed .integer] hop rfl rfl
      (.cons (.refl _) (.cons (.refl _) .nil)) (by decide)
  have hscale : Flow x declares (some ⟨locals, [.typed .integer], false⟩) [.const prime, .imul]
      (some ⟨locals, [.typed .integer], false⟩) :=
    .cons (Flow.uses h.roomy [] rfl rfl rfl .nil (by decide)) (hsum rfl)
  exact ((hscale.append (h.loadThis c (by decide))).append
    (hashValue_flow h (2 * i) hlabels harray)).append (hsum rfl)

/-- The labels of a component with its own hash stand in the method. -/
theorem declares_of_mem {c : Component} {i : Nat} (hc : (c, i) ∈ l.components.zipIdx)
    {name : String} (hname : c.type = .object name) :
    .bind (2 * i) ((frame l).withStack [.integer, .object name]) ∈ operations l ∧
      .bind (2 * i + 1) ((frame l).withStack [.integer, .integer]) ∈ operations l := by
  have hmem {op : Operation} (hop : op ∈ hashReference l (2 * i) (.object name)) :
      op ∈ operations l := by
    refine List.mem_append_left _ (List.mem_append_right _ (List.mem_flatMap.mpr ⟨(c, i), hc, ?_⟩))
    show op ∈ combine l c i
    rw [combine, hname]
    exact List.mem_append_left _ (List.mem_append_right _ hop)
  exact ⟨hmem (by simp [hashReference, FieldType.verification, FieldType.className]),
    hmem (by simp [hashReference])⟩

theorem flowsThrough (image : Image)
    (harray : ∀ c ∈ l.components, ∀ element, c.type = .array element →
      element.family = .reference) :
    FlowsThrough image (method l) (some (.typed l.thisType)) := by
  intro n hn
  have h : Prepared l ⟨image.name, image.superName, some .int, 65535, n⟩
      (pad n [some (.typed l.thisType)]) :=
    { roomy := ⟨rfl, hn⟩
      this := rfl
      frame := rfl }
  refine Flow.append (.cons (Flow.uses h.roomy [] rfl rfl rfl .nil (by decide)) (.flatMap ?_))
    (Flow.returnValue rfl (.refl _))
  rintro ⟨c, i⟩ hc
  exact combine_flow h (fun name hname => declares_of_mem hc hname)
    (harray c (List.fst_mem_of_mem_zipIdx hc))

end Hashing

/-! ## String forms -/

namespace Rendering

/-- The components end up on the stack, the last on top. -/
theorem loads_flow (h : l.HasThis x locals) (cs : List Component)
    (hstack : cs.length + stack.length ≤ operandLimit) :
    Flow x declares (some ⟨locals, stack, false⟩) (cs.flatMap l.loadThis)
      (some ⟨locals, (cs.map fun c => .typed c.type.verification).reverse ++ stack, false⟩) := by
  induction cs generalizing stack with
  | nil => exact .nil
  | cons c cs ih =>
    rw [List.length_cons] at hstack
    rw [List.flatMap_cons, List.map_cons, List.reverse_cons, List.append_assoc]
    exact (h.loadThis c (by omega)).append (ih (by rw [List.length_cons]; omega))

theorem flowsThrough (image : Image) (hlength : l.components.length ≤ 254) (site : UInt16) :
    FlowsThrough image (method l site) (some (.typed l.thisType)) := by
  intro n hn
  have h : l.HasThis ⟨image.name, image.superName, some stringType, 65535, n⟩ _ :=
    ⟨⟨rfl, hn⟩, rfl⟩
  have hshown : (shown l).length + ([] : List Operand).length ≤ operandLimit :=
    Nat.le_trans (length_shown_le l) (Nat.le_trans hlength (by decide))
  have harguments : (argumentTypes (callType l)).map .typed =
      ((shown l).map fun c => Operand.typed c.type.verification).reverse := by
    simp [argumentTypes, callType, Function.comp_def]
  refine (loads_flow h (shown l) hshown).append (.cons (Flow.uses h.roomy _ rfl rfl rfl ?_ ?_)
    (Flow.returnValue rfl (.refl _)))
  · rw [harguments]
    exact assignable_refl _
  · show 1 ≤ operandLimit
    decide

end Rendering

/-! ## Types in operations -/

section Covers

variable {t : ConstantTable}

theorem Layout.loadThis_covers {c : Component} (h : c.type.IsPlain) :
    ∀ op ∈ l.loadThis c, Covers t op := by
  simp [loadThis, Covers, Operation.IsPlain, Operation.loadReference, h]

theorem Accessor.operations_covers {c : Component} (h : c.type.IsPlain) :
    ∀ op ∈ operations l c, Covers t op := by
  rw [operations, List.forall_mem_append]
  exact ⟨l.loadThis_covers h, by simp [Covers, Operation.IsPlain]⟩

theorem Constructor.stores_covers {cs : List Component} (h : ∀ c ∈ cs, c.type.IsPlain)
    (slot : UInt16) : ∀ op ∈ stores l slot cs, Covers t op := by
  induction cs generalizing slot with
  | nil => simp [stores]
  | cons c cs ih =>
    rw [List.forall_mem_cons] at h
    rw [stores, List.forall_mem_append]
    exact ⟨by simp [Covers, Operation.IsPlain, Operation.loadReference, h.1], ih h.2 _⟩

theorem Constructor.operations_covers (h : l.IsPlain) : ∀ op ∈ operations l, Covers t op := by
  have hvoid : MethodType.void.IsPlain := by decide
  simp only [operations, List.forall_mem_append]
  exact ⟨⟨by simp [Covers, Operation.IsPlain, Operation.loadReference, hvoid], stores_covers h _⟩,
    by simp [Covers, Operation.IsPlain]⟩

theorem Equality.test_covers (type : FieldType) : ∀ op ∈ test type, Covers t op := by
  have hpredicate : predicate.IsPlain := by decide +kernel
  have hcomparison : comparison.IsPlain := by decide +kernel
  cases type <;> simp [test, Covers, Operation.IsPlain, hpredicate, hcomparison]

theorem Equality.operations_covers (h : l.IsPlain) : ∀ op ∈ operations l, Covers t op := by
  simp only [operations, List.forall_mem_append, List.forall_mem_flatMap]
  refine ⟨⟨by simp [opening, Covers, Operation.IsPlain, Operation.loadReference], fun c hc => ?_⟩,
    by simp [closing, Covers, Operation.IsPlain]⟩
  simp only [compare, List.forall_mem_append]
  exact ⟨⟨l.loadThis_covers (h c hc),
    by simp [Covers, Operation.IsPlain, Operation.loadReference, h c hc]⟩, test_covers c.type⟩

theorem Hashing.hashValue_covers (label : Label) (type : FieldType) :
    ∀ op ∈ hashValue l label type, Covers t op := by
  have hdouble : (MethodType.mk [.double] (some .int)).IsPlain := by decide +kernel
  have harray : (MethodType.mk [.array (.object FieldType.objectName)] (some .int)).IsPlain := by
    decide +kernel
  have hobject : (MethodType.returning .int).IsPlain := by decide +kernel
  cases type <;> simp [hashValue, hashReference, Covers, Operation.IsPlain, hdouble, harray, hobject]

theorem Hashing.operations_covers (h : l.IsPlain) : ∀ op ∈ operations l, Covers t op := by
  simp only [operations, List.forall_mem_append, List.forall_mem_flatMap]
  refine ⟨⟨by simp [Covers, Operation.IsPlain], ?_⟩, by simp [Covers, Operation.IsPlain]⟩
  rintro ⟨c, i⟩ hc
  simp only [combine, List.forall_mem_append]
  exact ⟨⟨⟨by simp [Covers, Operation.IsPlain],
    l.loadThis_covers (h c (List.fst_mem_of_mem_zipIdx hc))⟩, hashValue_covers _ _⟩,
    by simp [Covers, Operation.IsPlain]⟩

theorem Rendering.operations_covers (h : l.IsPlain) {site : UInt16}
    (hsite : t.invokeDynamic site = .ok (0, name, (callType l).descriptor)) :
    ∀ op ∈ operations l site, Covers t op := by
  have hcall : Covers t (.invokeDynamic site (callType l)) := by
    refine ⟨isPlain_callType fun c hc => h c (List.mem_filter.mp hc).1, ?_⟩
    rintro _ _ ⟨⟩
    exact ⟨0, name, hsite, by decide⟩
  simp only [operations, List.forall_mem_append, List.forall_mem_flatMap, List.forall_mem_cons]
  exact ⟨fun c hc => l.loadThis_covers (h c (List.mem_filter.mp hc).1), hcall,
    by simp [Covers, Operation.IsPlain]⟩

end Covers

/-! ## All methods -/

theorem slotsOf_verification (cs : List Component) :
    Verifier.slotsOf (cs.map fun c => .typed c.type.verification) = slotsOf cs := by
  induction cs with
  | nil => rfl
  | cons c cs ih =>
    rw [List.map_cons, Verifier.slotsOf, ih, slotsOf]
    exact congrArg (· + slotsOf cs) (congrArg UInt16.toNat (slots_verification c.type))

theorem Constructor.argumentSlots (hslots : slots l ≤ maxParameterSlots) :
    slotsOfTypes (argumentTypes (type l)) < 65535 := by
  rw [slots, foldl_slots, maxParameterSlots] at hslots
  rw [slotsOfTypes_argumentTypes, type, List.map_map]
  exact Nat.lt_of_le_of_lt (Nat.le_of_eq (slotsOf_verification l.components)) (by omega)

section Verifies

variable {site : UInt16} {info : MemberInfo}

/-- A method with a result is no constructor, and is called on a record. -/
theorem Layout.Emitted.receiver_eq (h : l.Emitted image site) {m : Method}
    (hm : m.Describes image.constants info) (haccess : m.access &&& accStatic = 0)
    (hresult : m.type.result ≠ none) :
    receiver image info m.type = some (.typed l.thisType) := by
  rw [receiver, hm.access, if_neg (by simpa using haccess), if_neg fun h => hresult h.2, h.name]
  rfl

theorem Accessor.verifies (h : l.Emitted image site) (hl : l.IsPlain) {c : Component}
    (hc : c ∈ l.components) (hm : (method l c).Describes image.constants info) :
    Verifies image info := by
  refine verifies_of_flow hm List.nodup_nil (Nat.zero_lt_succ _) ?_ (operations_covers (hl c hc)) ?_
  · refine ⟨nofun, ?_⟩
    rintro t ⟨⟩
    exact hl c hc
  · have hpublic : accPublic &&& accStatic = 0 := by decide
    rw [h.receiver_eq hm hpublic (Option.some_ne_none _)]
    exact flowsThrough image l c

theorem Constructor.verifies (h : l.Emitted image site) (hl : l.IsPlain)
    (hm : (method l).Describes image.constants info) : Verifies image info := by
  refine verifies_of_flow hm (nodup_labels l) (argumentSlots h.parameterSlots) ?_
    (operations_covers hl) ?_
  · exact ⟨List.forall_mem_map.mpr hl, nofun⟩
  · have hpublic : ¬accPublic &&& accStatic ≠ 0 := by decide
    have hreceiver : receiver image info (method l).type = some .uninitializedThis := by
      rw [receiver, hm.access, hm.name]
      exact (if_neg hpublic).trans (if_pos ⟨rfl, rfl⟩)
    rw [hreceiver]
    exact flowsThrough h.name h.superName h.parameterSlots

theorem accFinal_and_accStatic : (accPublic ||| accFinal) &&& accStatic = 0 := by decide

theorem Equality.verifies (h : l.Emitted image site) (hl : l.IsPlain)
    (hm : (method l).Describes image.constants info) : Verifies image info := by
  have hslots : slotsOfTypes (argumentTypes type) < 65535 := by decide
  have hplain : type.IsPlain := by decide +kernel
  refine verifies_of_flow hm (nodup_labels l) hslots hplain (operations_covers hl) ?_
  rw [h.receiver_eq hm accFinal_and_accStatic (Option.some_ne_none _)]
  exact flowsThrough image l

theorem Hashing.verifies (h : l.Emitted image site) (hl : l.IsPlain)
    (harray : ∀ c ∈ l.components, ∀ element, c.type = .array element →
      element.family = .reference)
    (hm : (method l).Describes image.constants info) : Verifies image info := by
  have hplain : type.IsPlain := by decide
  refine verifies_of_flow hm (nodup_labels l) (Nat.zero_lt_succ _) hplain
    (operations_covers hl) ?_
  rw [h.receiver_eq hm accFinal_and_accStatic (Option.some_ne_none _)]
  exact flowsThrough image harray

theorem Rendering.verifies (h : l.Emitted image site) (hl : l.IsPlain)
    (hm : (method l site).Describes image.constants info) : Verifies image info := by
  have hplain : (MethodType.returning stringType).IsPlain := by decide +kernel
  refine verifies_of_flow hm (nodup_labels l site) (Nat.zero_lt_succ _) hplain
    (operations_covers hl h.site) ?_
  rw [h.receiver_eq hm accFinal_and_accStatic (Option.some_ne_none _)]
  exact flowsThrough image (length_le_of_slots h.parameterSlots) site

/-- Every method in the image of a record class is verified. -/
theorem Layout.Emitted.verifies (h : l.Emitted image site) (hl : l.IsPlain)
    (harray : ∀ c ∈ l.components, ∀ element, c.type = .array element →
      element.family = .reference) :
    ∀ info ∈ image.methods, Verifies image info := by
  intro info hinfo
  obtain ⟨m, hm, hdescribes⟩ := exists_of_forall₂ h.methods.flip hinfo
  simp only [Layout.methods, List.mem_append, List.mem_map, List.mem_cons, List.not_mem_nil,
    or_false] at hm
  obtain ⟨c, hc, rfl⟩ | rfl | rfl | rfl | rfl := hm
  · exact Accessor.verifies h hl hc hdescribes
  · exact Constructor.verifies h hl hdescribes
  · exact Equality.verifies h hl hdescribes
  · exact Hashing.verifies h hl harray hdescribes
  · exact Rendering.verifies h hl hdescribes

end Verifies

/-! ## Record types -/

/-- Elements of arrays are held by reference. -/
theorem family_of_fieldType {s : Settings} {type : Schema.PropertyType} {element : FieldType}
    (h : fieldType s type = .array element) : element.family = .reference := by
  cases type with
  | primitive kind =>
    rw [fieldType] at h
    split at h <;> cases kind <;> cases h
  | array inner =>
    cases h
    cases inner <;> rfl
  | _ => cases h

/-- All methods in the image of a record class are verified just if its types can be read. -/
theorem Layout.Emitted.verifies_iff {s : Settings} {type : Schema.RecordType} {site : UInt16}
    (h : (Layout.ofType s type).Emitted image site) :
    (∀ info ∈ image.methods, Verifies image info) ↔ (Layout.ofType s type).IsPlain := by
  constructor
  · intro hverifies c hc
    have hmethod : Accessor.method (Layout.ofType s type) c ∈ (Layout.ofType s type).methods site :=
      List.mem_append_left _ (List.mem_map_of_mem hc)
    obtain ⟨info, hinfo, hdescribes⟩ := exists_of_forall₂ h.methods hmethod
    exact isPlain_of_verifies hdescribes List.nodup_nil (hverifies info hinfo)
      (List.mem_cons_of_mem _ List.mem_cons_self)
  · intro hplain
    refine h.verifies hplain fun c hc element helement => ?_
    obtain ⟨p, -, rfl⟩ := List.mem_map.mp hc
    exact family_of_fieldType helement

/-- All methods of a class file that is made are verified against their own frames, just if no type
that the record type refers to has a semicolon in its name. -/
theorem methods_verify_iff {s : Settings} {type : Schema.RecordType} {artifact : Artifact}
    (h : Artifact.ofType s type = .ok artifact) :
    ∃ image, Image.parse artifact.bytes = .ok image ∧
      image.methods.length = type.properties.length + 4 ∧
      ((∀ m ∈ image.methods, Verifies image m) ↔
        ∀ p ∈ type.properties, ∀ name ∈ p.type.reference?, ';' ∉ name.toList) := by
  obtain ⟨image, site, hparse, -, hemitted⟩ := emitted_of_ofType h
  refine ⟨image, hparse, ?_, ?_⟩
  · rw [← hemitted.methods.length_eq]
    simp [Layout.methods, Layout.ofType]
  · rw [hemitted.verifies_iff, Layout.isPlain_ofType_iff (Artifact.fault?_of_ofType h)]

theorem methods_verify_parcel :
    ∃ artifact image, Artifact.ofType {} (Parcel.type "Person") = .ok artifact ∧
      Image.parse artifact.bytes = .ok image ∧ image.methods.length = 6 ∧
      ∀ m ∈ image.methods, Verifies image m := by
  have hsmall : (Layout.ofType {} (Parcel.type "Person")).IsSmall := by decide +kernel
  obtain ⟨artifact, h⟩ := exists_ofType_of_small Settings.fault?_default hsmall
  obtain ⟨image, hparse, hlength, hverifies⟩ := methods_verify_iff h
  exact ⟨artifact, image, h, hparse, hlength, hverifies.2 (by decide +kernel)⟩

/-- The class of a type that refers to `A;B` is made, and has a method that is not verified. -/
theorem method_refused_parcel :
    ∃ artifact image m, Artifact.ofType {} (Parcel.type "A;B") = .ok artifact ∧
      Image.parse artifact.bytes = .ok image ∧ m ∈ image.methods ∧ ¬Verifies image m := by
  have hsmall : (Layout.ofType {} (Parcel.type "A;B")).IsSmall := by decide +kernel
  obtain ⟨artifact, h⟩ := exists_ofType_of_small Settings.fault?_default hsmall
  obtain ⟨image, site, hparse, -, hemitted⟩ := emitted_of_ofType h
  have hnot : ¬(Layout.ofType {} (Parcel.type "A;B")).IsPlain := by
    rw [Layout.isPlain_ofType_iff Settings.fault?_default]
    decide +kernel
  rw [← hemitted.verifies_iff, not_forall] at hnot
  obtain ⟨m, hnot⟩ := hnot
  obtain ⟨hm, hrefused⟩ := Classical.not_imp.mp hnot
  exact ⟨artifact, image, m, h, hparse, hm, hrefused⟩

end SchemaRecords.Record
