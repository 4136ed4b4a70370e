import SchemaRecords.Proofs.ClassFile.Descriptor
import SchemaRecords.Proofs.ClassFile.Requests

/-!
# Distinct types keep distinct constants

A class file knows the type of a member by its descriptor alone, a text without
separators: a class name ends at its semicolon, an array at its element type, the
parameters at the closing parenthesis. A class name may hold any of the letters
and brackets that stand for types elsewhere, but a semicolon in it could be taken
for the end of a parameter.

* `FieldType.descriptor_injective`: a field type is known from its descriptor,
  whatever the names in it.
* `MethodType.eq_of_descriptor_eq`: so is a method type without semicolons in its names.
* `Pool.Request.eq_of_foundAt`: an index of a pool stands for one request.
* `Pool.types_share_no_index` combines them: two constants of a pool that mention
  types have the same index exactly if they mention the same type in the same way.

A class constant holds a `className` instead, which is no descriptor in the case of
a class. `FieldType.className_eq_iff` says which types share one: a type and the
class that is named by its descriptor.
-/

namespace SchemaRecords.ClassFile

/-! ## Descriptors -/

namespace FieldType

/-- The first character tells the constructors apart; within a class type all but the last
character are the name. -/
theorem signature_injective : Function.Injective signature := by
  intro s t h
  induction s generalizing t with
  | boolean | int | double => cases t <;> simp_all [signature]
  | object name =>
    cases t with
    | object name' =>
      have hnames : name.toList = name'.toList := by simpa [signature] using h
      rw [String.toList_inj.1 hnames]
    | _ => simp [signature] at h
  | array element ih =>
    cases t with
    | array element' => rw [ih (List.cons.inj h).2]
    | _ => simp [signature] at h

theorem descriptor_injective : Function.Injective descriptor :=
  fun _ _ h => signature_injective (String.ofList_injective h)

/-- Which types a class constant does not tell apart: a class that is named by the descriptor of
another type, and that type. -/
theorem className_eq_iff {s t : FieldType} :
    s.className = t.className ↔ s = t ∨
      (∀ name, t ≠ object name) ∧ s = object t.descriptor ∨
      (∀ name, s ≠ object name) ∧ t = object s.descriptor := by
  cases s <;> cases t <;> simp [className, descriptor_injective.eq_iff, eq_comm]

end FieldType

/-- The descriptor of a plain method type can be read, so it belongs to no other. -/
theorem MethodType.eq_of_descriptor_eq {m n : MethodType} (hm : m.IsPlain) (hn : n.IsPlain)
    (h : m.descriptor = n.descriptor) : m = n := by
  have hread : some m = some n := by
    rw [← read?_descriptor hm, h, read?_descriptor hn]
  exact Option.some.inj hread

-- a semicolon in a name can be taken for the end of a parameter
example : MethodType.descriptor ⟨[.object "A;LB"], none⟩ =
    MethodType.descriptor ⟨[.object "A", .object "B"], none⟩ := by decide

/-- The type of a field or of a method. -/
inductive MemberType where
  | field (type : FieldType)
  | method (type : MethodType)
deriving DecidableEq, Repr

namespace MemberType

def descriptor : MemberType → String
  | field type => type.descriptor
  | method type => type.descriptor

/-- No class name in the type has a semicolon. -/
def IsPlain : MemberType → Prop
  | field type => type.IsPlain
  | method type => type.IsPlain

/-- Only the descriptor of a method begins with a parenthesis. -/
theorem field_descriptor_ne (s : FieldType) (m : MethodType) : s.descriptor ≠ m.descriptor := by
  intro h
  have hchars := String.ofList_injective h
  cases s <;> simp [FieldType.signature] at hchars

theorem descriptor_eq_iff {s t : MemberType} (hs : s.IsPlain) (ht : t.IsPlain) :
    s.descriptor = t.descriptor ↔ s = t := by
  refine ⟨fun h => ?_, congrArg descriptor⟩
  cases s with
  | field s =>
    cases t with
    | field t => rw [FieldType.descriptor_injective h]
    | method n => exact absurd h (field_descriptor_ne s n)
  | method m =>
    cases t with
    | field t => exact absurd h.symm (field_descriptor_ne t m)
    | method n => rw [MethodType.eq_of_descriptor_eq hs ht h]

end MemberType

/-! ## Indices -/

namespace Pool

/-- The request that the entry at an index answers. -/
def requestAt (t : ConstantTable) (i : UInt16) : Except Error Request := do
  match ← t.get i with
  | .utf8 text => .ok (.utf8 text)
  | .integer value => .ok (.integer value)
  | .classRef name => .ok (.classRef (← t.utf8 name))
  | .string text => .ok (.string (← t.utf8 text))
  | .nameAndType _ _ =>
    let site ← t.nameAndType i
    .ok (.nameAndType site.1 site.2)
  | .fieldRef owner nat =>
    let member ← t.member owner nat
    .ok (.fieldRef member.owner member.name member.descriptor)
  | .methodRef owner nat =>
    let member ← t.member owner nat
    .ok (.methodRef member.owner member.name member.descriptor)
  | .methodHandle kind reference =>
    let member ← t.memberRef reference
    .ok (.methodHandle kind member.owner member.name member.descriptor)
  | .invokeDynamic bootstrap nat =>
    let site ← t.nameAndType nat
    .ok (.invokeDynamic bootstrap site.1 site.2)

variable {p q : Pool} {i j : UInt16} {t : ConstantTable}

namespace Request

/-- The request that led to an index can be told from the index: what a constant holds and what
its references lead to make up the whole request. -/
theorem requestAt_of_foundAt {r : Request} (h : r.FoundAt t i) : requestAt t i = .ok r := by
  cases r with
  | utf8 text =>
    obtain ⟨c, hc, h⟩ := except_bind_eq_ok h
    cases c <;> cases h
    rw [requestAt, hc]
    rfl
  | integer value =>
    rw [requestAt, show t.get i = .ok (.integer value) from h]
    rfl
  | classRef name =>
    obtain ⟨c, hc, h⟩ := except_bind_eq_ok h
    cases c with
    | classRef n =>
      have hname : t.utf8 n = .ok name := h
      rw [requestAt, hc]
      simp only [Bind.bind, Except.bind, hname]
    | _ => cases h
  | string text =>
    obtain ⟨c, hc, h⟩ := except_bind_eq_ok h
    cases c with
    | string n =>
      have htext : t.utf8 n = .ok text := h
      rw [requestAt, hc]
      simp only [Bind.bind, Except.bind, htext]
    | _ => cases h
  | nameAndType name descriptor =>
    have hsite : t.nameAndType i = .ok (name, descriptor) := h
    obtain ⟨c, hc, h⟩ := except_bind_eq_ok h
    cases c with
    | nameAndType n d =>
      rw [requestAt, hc]
      simp only [Bind.bind, Except.bind, hsite]
    | _ => cases h
  | fieldRef owner name descriptor =>
    obtain ⟨o, n, hget, hmember⟩ := h
    rw [requestAt, hget]
    simp only [Bind.bind, Except.bind, hmember]
  | methodRef owner name descriptor =>
    obtain ⟨o, n, hget, hmember⟩ := h
    rw [requestAt, hget]
    simp only [Bind.bind, Except.bind, hmember]
  | methodHandle kind owner name descriptor =>
    obtain ⟨c, hc, h⟩ := except_bind_eq_ok h
    cases c with
    | methodHandle kind' reference =>
      obtain ⟨member, hmember, h⟩ := except_bind_eq_ok h
      cases h
      rw [requestAt, hc]
      simp only [Bind.bind, Except.bind, hmember]
    | _ => cases h
  | invokeDynamic bootstrap name descriptor =>
    obtain ⟨c, hc, h⟩ := except_bind_eq_ok h
    cases c with
    | invokeDynamic bootstrap' nat =>
      obtain ⟨site, hsite, h⟩ := except_bind_eq_ok h
      cases h
      rw [requestAt, hc]
      simp only [Bind.bind, Except.bind, hsite]
    | _ => cases h

/-- An index stands for one request. -/
theorem eq_of_foundAt {r r' : Request} (h : r.FoundAt t i) (h' : r'.FoundAt t i) : r = r' :=
  Except.ok.inj ((requestAt_of_foundAt h).symm.trans (requestAt_of_foundAt h'))

/-- Two requests, made one after the other with any others between them, have the same index
exactly if they are the same. -/
theorem index_eq_iff {r r' : Request} (hp : p.Valid) (h : r.ask p = .ok i q)
    {later : List Request} {q' : Pool} (h' : r'.ask (q.run later) = .ok j q') :
    i = j ↔ r = r' := by
  have hq := (r.ask_appends.grows h).valid hp
  have hlater := grows_run q later
  constructor
  · -- both are found at the index in the last of the pools
    rintro rfl
    have hle := le_trans hlater.le (r'.ask_appends.grows h').le
    exact eq_of_foundAt (foundAt_of_ask hp h hle) (foundAt_of_ask (hlater.valid hq) h' le_rfl)
  · rintro rfl
    rw [r.ask_settles p q i hp h _ (hlater.valid hq) hlater.le] at h'
    cases h'
    rfl

end Request

/-! ## Constants that mention types -/

/-- How a constant mentions a type: by the descriptor alone, or as the type of a name, a member, a
handle or a call site. -/
inductive Mention where
  | text
  | nameAndType (name : String)
  | fieldRef (owner name : String)
  | methodRef (owner name : String)
  | methodHandle (kind : HandleKind) (owner name : String)
  | invokeDynamic (bootstrap : UInt16) (name : String)
deriving DecidableEq, Repr

namespace Mention

/-- The request for the constant. -/
def request (type : MemberType) : Mention → Request
  | text => .utf8 type.descriptor
  | nameAndType name => .nameAndType name type.descriptor
  | fieldRef owner name => .fieldRef owner name type.descriptor
  | methodRef owner name => .methodRef owner name type.descriptor
  | methodHandle kind owner name => .methodHandle kind owner name type.descriptor
  | invokeDynamic bootstrap name => .invokeDynamic bootstrap name type.descriptor

theorem request_eq_iff {a b : Mention} {s t : MemberType} :
    a.request s = b.request t ↔ a = b ∧ s.descriptor = t.descriptor := by
  cases a <;> cases b <;> simp [request, and_assoc]

end Mention

/-- **A descriptor determines its type**, for arrays of any depth and any number of parameters: for
all field types, and for all method types without semicolons in their class names. Therefore, in a
pool with any history, two constants that mention types have the same index exactly if they mention
the same type in the same way. -/
theorem types_share_no_index :
    (∀ s t : FieldType, s.descriptor = t.descriptor → s = t) ∧
      (∀ m n : MethodType, m.IsPlain → n.IsPlain → m.descriptor = n.descriptor → m = n) ∧
      ∀ (s t : MemberType) (a b : Mention) (earlier later : List Request) (i j : UInt16)
        (p q : Pool), s.IsPlain → t.IsPlain →
        (a.request s).ask (empty.run earlier) = .ok i p →
        (b.request t).ask (p.run later) = .ok j q →
        (i = j ↔ a = b ∧ s = t) := by
  refine ⟨fun _ _ h => FieldType.descriptor_injective h,
    fun _ _ => MethodType.eq_of_descriptor_eq, ?_⟩
  intro s t a b earlier later i j p q hs ht hi hj
  rw [Request.index_eq_iff (valid_run earlier) hi hj, Mention.request_eq_iff,
    MemberType.descriptor_eq_iff hs ht]

namespace Dial

/-- The type of a method that sets dials; the class of the dials is named by the marks of other
types. -/
def set : MethodType := ⟨[.array (.object "L(V)"), .int], none⟩

/-- The type of a method that reads dials. -/
def get : MethodType := ⟨[.array (.object "L(V)")], some .int⟩

end Dial

theorem types_share_no_index_dial :
    Dial.set.descriptor ≠ Dial.get.descriptor ∧
      ∃ i p j q,
        ((Mention.nameAndType "turn").request (.method Dial.set)).ask
          (empty.run [.classRef "Dial"]) = .ok i p ∧
        ((Mention.nameAndType "turn").request (.method Dial.get)).ask (p.run []) = .ok j q ∧
        i ≠ j := by
  obtain ⟨-, hmethods, hindices⟩ := types_share_no_index
  have hset : Dial.set.IsPlain := by decide
  have hget : Dial.get.IsPlain := by decide
  have hne : Dial.set ≠ Dial.get := by decide
  refine ⟨fun h => hne (hmethods _ _ hset hget h), ?_⟩
  have hsizes : ∀ t ∈ ["Dial", "turn", Dial.set.descriptor, Dial.get.descriptor],
      t.utf8ByteSize ≤ 10922 := by decide +kernel
  have hfits : ∀ t ∈ ["Dial", "turn", Dial.set.descriptor, Dial.get.descriptor], Fits t :=
    fun t ht => fits_of_utf8ByteSize_le (hsizes t ht)
  have hcapacity : capacity = 65534 := rfl
  obtain ⟨_, p₀, hp₀, hentries₀⟩ := (classRef_asks "Dial" empty).succeeds
    (fun t ht => hfits t (by grind)) (by decide)
  have hsize₀ : p₀.size ≤ 0 + 2 := hentries₀.entries
  have hrun : empty.run [.classRef "Dial"] = p₀ := after_of_ok hp₀
  obtain ⟨i, p, hi, hentries⟩ := (nameAndType_asks "turn" Dial.set.descriptor p₀).succeeds
    (fun t ht => hfits t (by grind)) (by show p₀.size + 3 ≤ capacity; omega)
  have hsize : p.size ≤ p₀.size + 3 := hentries.entries
  obtain ⟨j, q, hj, -⟩ := (nameAndType_asks "turn" Dial.get.descriptor p).succeeds
    (fun t ht => hfits t (by grind)) (by show p.size + 3 ≤ capacity; omega)
  rw [← hrun] at hi
  refine ⟨i, p, j, q, hi, hj, fun hij => ?_⟩
  obtain ⟨-, htypes⟩ := (hindices (.method Dial.set) (.method Dial.get) (.nameAndType "turn")
    (.nameAndType "turn") [.classRef "Dial"] [] i j p q hset hget hi hj).1 hij
  exact hne (MemberType.method.inj htypes)

end Pool

end SchemaRecords.ClassFile
