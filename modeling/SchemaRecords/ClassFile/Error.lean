import SchemaRecords.Text.Quoted

/-!
# What can go wrong with a class file

One inductive type lists the causes for which building or reading a class file
stops; `Error.message` is the only place that words them.
-/

namespace SchemaRecords.ClassFile

/-- The things a class file counts in a field of limited width. -/
inductive Countable where
  | attributeBytes
  | localSlots
  | frameLocals
  | frameStack
  | frames
  | annotationElements
  | annotations
  | annotatedParameters
  | bootstrapMethods
  | bootstrapArguments
  | fields
  | methods
deriving DecidableEq, Repr

namespace Countable

/-- The plural noun for the things counted. -/
def noun : Countable → String
  | attributeBytes => "attribute bytes"
  | localSlots => "local variable slots"
  | frameLocals => "frame locals"
  | frameStack => "frame stack items"
  | frames => "stack map frames"
  | annotationElements => "annotation elements"
  | annotations => "annotations"
  | annotatedParameters => "annotated parameters"
  | bootstrapMethods => "bootstrap methods"
  | bootstrapArguments => "bootstrap arguments"
  | fields => "fields"
  | methods => "methods"

end Countable

/-- Why the pool entry at an index cannot be used where the index stands. -/
inductive EntryFault where
  | missing
  | notUtf8
  | notClass
  | notString
  | notNameAndType
  | notMember
  | notInvokeDynamic
  | notMethodHandle
  | bootstrapArgument
  | handleKind
deriving DecidableEq, Repr

namespace EntryFault

/-- The reason in words. -/
def reason : EntryFault → String
  | missing => "no such entry"
  | notUtf8 => "expected Utf8"
  | notClass => "expected Class"
  | notString => "expected String"
  | notNameAndType => "expected NameAndType"
  | notMember => "expected Fieldref or Methodref"
  | notInvokeDynamic => "expected InvokeDynamic"
  | notMethodHandle => "expected MethodHandle"
  | bootstrapArgument => "unsupported bootstrap argument"
  | handleKind => "unsupported method handle kind"

end EntryFault

/-- Why a class file cannot be built or read. -/
inductive Error where
  /-- The input ends before byte `required`; it has only `available` bytes. -/
  | truncated (required available : Nat)
  /-- The first word is not the class-file signature. -/
  | signature (found : UInt32)
  /-- The constant pool already holds its `limit` entries. -/
  | poolFull (limit : Nat)
  /-- The entry at `index` is not what the reference needs. -/
  | entry (index : UInt16) (fault : EntryFault)
  /-- The entry at `index` has a tag this reader does not know. -/
  | entryTag (tag : UInt8) (index : UInt16)
  /-- A text needs more encoded bytes than a pool entry can hold. -/
  | textTooLong (length : Nat)
  /-- The bytes at `offset` are not modified UTF-8. -/
  | invalidText (offset : Nat)
  /-- A method has more code bytes than fit. -/
  | codeTooLarge (length : Nat)
  /-- A branch spans more bytes than a signed 16-bit operand can. -/
  | branchTooFar (offset : Int)
  /-- A branch names a label that was never bound. -/
  | unboundLabel (label : Nat)
  /-- Two different frames are declared at one offset. -/
  | conflictingFrames (offset : Nat)
  /-- The instruction that ends at `offset` takes more operands than the stack holds. -/
  | stackUnderflow (offset : Nat)
  /-- A count does not fit in its field. -/
  | tooMany (what : Countable) (count : Nat)
  /-- Anything else that makes the file ill formed. -/
  | malformed (reason : String)
deriving DecidableEq, Repr

namespace Error

/-- The wording of an error. -/
def message : Error → String
  | truncated required available =>
    s!"buffer too short: required {required} bytes, available {available} bytes"
  | signature found => "invalid magic number: 0x" ++ Text.Hex.upper 8 found.toNat
  | poolFull limit => s!"constant pool overflow: more than {limit} entries"
  | entry index fault => s!"invalid constant pool index {index}: {fault.reason}"
  | entryTag tag index => s!"unsupported constant pool tag {tag} at index {index}"
  | textTooLong length =>
    s!"string of {length} encoded bytes exceeds the constant pool limit of 65535"
  | invalidText offset => s!"invalid modified UTF-8 at offset {offset}"
  | codeTooLarge length => s!"method code of {length} bytes exceeds the maximum of 65535"
  | branchTooFar offset => s!"branch offset {offset} out of range"
  | unboundLabel label => s!"label {label} was never bound"
  | conflictingFrames offset => s!"conflicting stack map frames at offset {offset}"
  | stackUnderflow offset => s!"operand stack underflow at offset {offset}"
  | tooMany what count => s!"too many {what.noun}: {count}"
  | malformed reason => s!"malformed class file: {reason}"

end Error

/-- A count as the 16-bit number a class file stores, if it fits. -/
def count16 (what : Countable) (n : Nat) : Except Error UInt16 :=
  if n < 65536 then .ok n.toUInt16 else .error (.tooMany what n)

end SchemaRecords.ClassFile
