import SchemaRecords.ClassFile.Constant
import SchemaRecords.ClassFile.Cursor

/-!
# Constants of a class file that is read

`ConstantTable.read` reads a constant pool. The other functions resolve an index
to what it stands for; each says which index is at fault if there is no entry at
it or one of another kind.
-/

namespace SchemaRecords.ClassFile

/-- A field or method of a class, by name. -/
structure MemberRef where
  owner : String
  name : String
  descriptor : String
deriving DecidableEq, Repr

/-- The entries of a pool; the first has index 1. -/
structure ConstantTable where
  entries : Array Constant := #[]
deriving DecidableEq, Repr

namespace ConstantTable

/-- The entry at an index. -/
def get (t : ConstantTable) (i : UInt16) : Except Error Constant :=
  match i.toNat with
  | 0 => .error (.entry i .missing)
  | n + 1 =>
    match t.entries[n]? with
    | some c => .ok c
    | none => .error (.entry i .missing)

/-- The text at an index. -/
def utf8 (t : ConstantTable) (i : UInt16) : Except Error String := do
  match ← t.get i with
  | .utf8 text => .ok text
  | _ => .error (.entry i .notUtf8)

/-- The name of the class at an index. -/
def className (t : ConstantTable) (i : UInt16) : Except Error String := do
  match ← t.get i with
  | .classRef name => t.utf8 name
  | _ => .error (.entry i .notClass)

/-- The string literal at an index. -/
def string (t : ConstantTable) (i : UInt16) : Except Error String := do
  match ← t.get i with
  | .string text => t.utf8 text
  | _ => .error (.entry i .notString)

/-- The name and descriptor at an index. -/
def nameAndType (t : ConstantTable) (i : UInt16) : Except Error (String × String) := do
  match ← t.get i with
  | .nameAndType name descriptor =>
    let name ← t.utf8 name
    let descriptor ← t.utf8 descriptor
    .ok (name, descriptor)
  | _ => .error (.entry i .notNameAndType)

/-- The member with a class and a name given by their indices. -/
def member (t : ConstantTable) (owner nat : UInt16) : Except Error MemberRef := do
  let (name, descriptor) ← t.nameAndType nat
  let owner ← t.className owner
  .ok ⟨owner, name, descriptor⟩

/-- The field or method at an index. -/
def memberRef (t : ConstantTable) (i : UInt16) : Except Error MemberRef := do
  match ← t.get i with
  | .fieldRef owner nat => t.member owner nat
  | .methodRef owner nat => t.member owner nat
  | _ => .error (.entry i .notMember)

/-- The call site at an index: the number of its bootstrap method, its name and descriptor. -/
def invokeDynamic (t : ConstantTable) (i : UInt16) :
    Except Error (UInt16 × String × String) := do
  match ← t.get i with
  | .invokeDynamic bootstrap nat =>
    let (name, descriptor) ← t.nameAndType nat
    .ok (bootstrap, name, descriptor)
  | _ => .error (.entry i .notInvokeDynamic)

/-- The method handle at an index. -/
def methodHandle (t : ConstantTable) (i : UInt16) : Except Error (HandleKind × MemberRef) := do
  match ← t.get i with
  | .methodHandle kind reference =>
    let member ← t.memberRef reference
    .ok (kind, member)
  | _ => .error (.entry i .notMethodHandle)

/-- Reads the entry that gets index `i`. -/
def readEntry (i : UInt16) : Read Constant := do
  let tag ← Read.u8
  if tag = 1 then
    let length ← Read.u16
    let start ← Read.position
    let bytes ← Read.bytes length.toNat
    let text ← Read.ofExcept (ModifiedUtf8.decode bytes start)
    pure (.utf8 text)
  else if tag = 3 then
    let value ← Read.i32
    pure (.integer value)
  else if tag = 7 then
    let name ← Read.u16
    pure (.classRef name)
  else if tag = 8 then
    let text ← Read.u16
    pure (.string text)
  else if tag = 9 then
    let owner ← Read.u16
    let nat ← Read.u16
    pure (.fieldRef owner nat)
  else if tag = 10 then
    let owner ← Read.u16
    let nat ← Read.u16
    pure (.methodRef owner nat)
  else if tag = 12 then
    let name ← Read.u16
    let descriptor ← Read.u16
    pure (.nameAndType name descriptor)
  else if tag = 15 then
    let code ← Read.u8
    match HandleKind.ofCode? code with
    | none => Read.fail (.entry i .handleKind)
    | some kind =>
      let reference ← Read.u16
      pure (.methodHandle kind reference)
  else if tag = 18 then
    let bootstrap ← Read.u16
    let nat ← Read.u16
    pure (.invokeDynamic bootstrap nat)
  else Read.fail (.entryTag tag i)

/-- Reads another `n` entries after those in `done`. -/
def readFrom : Nat → Array Constant → Cursor → Except Error (Array Constant × Cursor)
  | 0, done, c => .ok (done, c)
  | n + 1, done, c =>
    match readEntry (done.size + 1).toUInt16 c with
    | .error e => .error e
    | .ok (entry, c) => readFrom n (done.push entry) c

/-- Reads a pool: one more than the number of entries, then the entries. -/
def read : Read ConstantTable := do
  let count ← Read.u16
  let entries ← readFrom (count.toNat - 1) #[]
  pure ⟨entries⟩

end ConstantTable

end SchemaRecords.ClassFile
