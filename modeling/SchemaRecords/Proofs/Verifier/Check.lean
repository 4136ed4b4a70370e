import SchemaRecords.Proofs.ClassFile.Descriptor
import SchemaRecords.Proofs.ClassFile.FrameTable
import SchemaRecords.Proofs.Verifier.State

/-!
# Verification of a method's code

The verifier walks over the instructions of a method once, from the first byte to
the last (`Listing.Accepts`). It starts with the state in which the method is
called. Where a frame is declared, what it knows must agree with the frame, and it
goes on with the frame; a branch must lead to a declared frame that agrees with
what is known. After a jump or a return it knows nothing, and must meet a frame
before another instruction. Code that it leaves knowing something would run off
its end.

`Verifies` says so of a method in a class file: all operands, the frames and the
code are those that are read from the class. Descriptors are read from left to
right, so a class name with a semicolon in it is not read as it was meant.
-/

namespace SchemaRecords.Verifier

open SchemaRecords.ClassFile

/-! ## Instructions -/

/-- The name of constructors. -/
def constructorName : String := "<init>"

/-- The operands for parameters, the last on top. -/
def argumentTypes (type : MethodType) : List VerificationType :=
  (type.parameters.map FieldType.verification).reverse

/-- The operands for a result. -/
def resultTypes (type : MethodType) : List VerificationType :=
  type.result.toList.map FieldType.verification

/-- The rule of an instruction that does not branch. -/
inductive HasRule (t : ConstantTable) : Action → Rule → Prop
  | push (value : Int32) : HasRule t (.push value) (.uses [] [.integer])
  | load (family : Family) (slot : Nat) : HasRule t (.load family slot) (.load family slot)
  | pop : HasRule t .pop .pop
  | dup : HasRule t .dup .dup
  | iadd : HasRule t .iadd (.uses [.integer, .integer] [.integer])
  | imul : HasRule t .imul (.uses [.integer, .integer] [.integer])
  | getField {f : MemberRef} {type : FieldType} (read : FieldType.ofDescriptor? f.descriptor = some type) :
      HasRule t (.getField f) (.uses [.object f.owner] [type.verification])
  | putField {f : MemberRef} {type : FieldType} (read : FieldType.ofDescriptor? f.descriptor = some type) :
      HasRule t (.putField f) (.uses [type.verification, .object f.owner] [])
  | invokeStatic {m : MemberRef} {type : MethodType} (read : MethodType.read? m.descriptor = some type)
      (name : m.name ≠ constructorName) :
      HasRule t (.invoke .static m) (.uses (argumentTypes type) (resultTypes type))
  | invokeVirtual {m : MemberRef} {type : MethodType} (read : MethodType.read? m.descriptor = some type)
      (name : m.name ≠ constructorName) :
      HasRule t (.invoke .virtual m)
        (.uses (argumentTypes type ++ [.object m.owner]) (resultTypes type))
  | construct {m : MemberRef} {type : MethodType} (read : MethodType.read? m.descriptor = some type)
      (name : m.name = constructorName) (void : type.result = none) :
      HasRule t (.invoke .special m) (.construct m.owner (argumentTypes type))
  | invokeDynamic {site number : UInt16} {name descriptor : String} {type : MethodType}
      (entry : t.invokeDynamic site = .ok (number, name, descriptor))
      (read : MethodType.read? descriptor = some type) (name : name ≠ constructorName) :
      HasRule t (.invokeDynamic site) (.uses (argumentTypes type) (resultTypes type))
  | checkCast (name : String) :
      HasRule t (.checkCast name) (.uses [.object FieldType.objectName] [.object name])
  | instanceOf (name : String) :
      HasRule t (.instanceOf name) (.uses [.object FieldType.objectName] [.integer])
  | returnValue (family : Family) : HasRule t (.returnValue family) (.returns (some family))
  | returnVoid : HasRule t .returnVoid (.returns none)

/-! ## The walk over the code -/

/-- The code of a method with all that its verification needs. -/
structure Listing extends Scope where
  constants : ConstantTable
  code : Bytes
  /-- The declared frames with their offsets. -/
  frames : List (Nat × Frame)

namespace Listing

/-- The state that is declared at an offset. -/
def frame? (c : Listing) (here : Nat) : Option State :=
  (c.frames.lookup here).map (State.ofFrame c.maxLocals)

/-- The instruction at an offset is reached with `incoming` from the one before, if at all, and is
then carried out in state `s`. -/
def Enters (c : Listing) (here : Nat) (incoming : Option State) (s : State) : Prop :=
  match c.frame? here with
  | none => incoming = some s
  | some declared => s = declared ∧ ∀ t ∈ incoming, t.FlowsInto declared

/-- The verifier accepts the code from an offset on, where it knows `incoming`, or nothing after a
jump or a return. The instructions start at the offsets `starts`. -/
inductive Accepts (c : Listing) : Nat → Option State → List Nat → Prop
  /-- The code ends where it cannot be reached. -/
  | done : Accepts c c.code.length none []
  | act {here next : Nat} {incoming : Option State} {s s' : State} {a : Action} {rule : Rule}
      {starts : List Nat} (enters : c.Enters here incoming s) (fits : c.Fits s)
      (fetch : fetch? c.constants c.code here = some (.act a, next))
      (hasRule : HasRule c.constants a rule) (acts : rule.Acts c.toScope s s')
      (fits' : c.Fits s') (rest : Accepts c next (some s') starts) :
      Accepts c here incoming (here :: starts)
  | leave {here next : Nat} {incoming : Option State} {s : State} {a : Action} {rule : Rule}
      {starts : List Nat} (enters : c.Enters here incoming s) (fits : c.Fits s)
      (fetch : fetch? c.constants c.code here = some (.act a, next))
      (hasRule : HasRule c.constants a rule) (returns : rule.Returns c.toScope s)
      (rest : Accepts c next none starts) : Accepts c here incoming (here :: starts)
  | jump {here next target : Nat} {incoming : Option State} {s s' declared : State}
      {condition : Condition} {starts : List Nat} (enters : c.Enters here incoming s)
      (fits : c.Fits s)
      (fetch : fetch? c.constants c.code here = some (.jump condition target, next))
      (acts : (Rule.uses (tested condition) []).Acts c.toScope s s')
      (frame : c.frame? target = some declared) (flows : s'.FlowsInto declared)
      (rest : Accepts c next (if condition = .always then none else some s') starts) :
      Accepts c here incoming (here :: starts)

end Listing

/-! ## Methods of a class -/

/-- The flag of methods that are not called on an object. -/
def accStatic : UInt16 := 0x0008

/-- What is known of the object that a method is called on. A constructor is called on an object
that its superclass has not yet set up. -/
def receiver (image : Image) (info : MemberInfo) (type : MethodType) : Option Operand :=
  if info.access &&& accStatic ≠ 0 then none
  else if info.name = constructorName ∧ type.result = none then some .uninitializedThis
  else some (.typed (.object image.name))

/-- The code of a method of the class, with the frames declared for it. -/
def listing (image : Image) (type : MethodType) (code : CodeInfo)
    (frames : List (Nat × Frame)) : Listing where
  thisName := image.name
  superName := image.superName
  result := type.result
  maxStack := code.maxStack.toNat
  maxLocals := code.maxLocals.toNat
  constants := image.constants
  code := code.bytes
  frames := frames

/-- The method has code, and the verifier accepts it with the frames that the class declares for
it. Frames are declared where instructions start. -/
def Verifies (image : Image) (info : MemberInfo) : Prop :=
  ∃ type code frames starts, MethodType.read? info.descriptor = some type ∧
    image.code info = .ok (some code) ∧ image.frames code = .ok frames ∧
    (listing image type code frames).Accepts 0
      (some (.entry code.maxLocals.toNat (receiver image info type) type.parameters)) starts ∧
    ∀ f ∈ frames, f.1 ∈ starts

end SchemaRecords.Verifier
