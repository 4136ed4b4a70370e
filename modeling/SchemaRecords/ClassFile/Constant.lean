import SchemaRecords.ClassFile.Bytes
import SchemaRecords.ClassFile.ModifiedUtf8

/-!
# Constant pool entries

The kinds of entry that record classes need. Entries refer to each other by
their 1-based index in the pool. `Constant.encode` gives an entry's bytes.
-/

namespace SchemaRecords.ClassFile

/-- What a method handle does with the member it refers to. -/
inductive HandleKind where
  | getField
  | invokeVirtual
  | invokeStatic
  | invokeSpecial
deriving DecidableEq, Hashable, Repr

namespace HandleKind

/-- The number a class file uses for the kind. -/
def code : HandleKind → UInt8
  | getField => 1
  | invokeVirtual => 5
  | invokeStatic => 6
  | invokeSpecial => 7

/-- The kind a number stands for. -/
def ofCode? (n : UInt8) : Option HandleKind :=
  if n = 1 then some getField
  else if n = 5 then some invokeVirtual
  else if n = 6 then some invokeStatic
  else if n = 7 then some invokeSpecial
  else none

/-- The kind's name in summaries. -/
def name : HandleKind → String
  | getField => "GetField"
  | invokeVirtual => "InvokeVirtual"
  | invokeStatic => "InvokeStatic"
  | invokeSpecial => "InvokeSpecial"

end HandleKind

/-- An entry of the constant pool. -/
inductive Constant where
  | utf8 (text : String)
  | integer (value : Int32)
  | classRef (name : UInt16)
  | string (text : UInt16)
  | fieldRef (owner nameAndType : UInt16)
  | methodRef (owner nameAndType : UInt16)
  | nameAndType (name descriptor : UInt16)
  | methodHandle (kind : HandleKind) (reference : UInt16)
  | invokeDynamic (bootstrap nameAndType : UInt16)
deriving DecidableEq, Hashable, Repr

namespace Constant

/-- The byte that tells the kinds of entry apart. -/
def tag : Constant → UInt8
  | utf8 _ => 1
  | integer _ => 3
  | classRef _ => 7
  | string _ => 8
  | fieldRef _ _ => 9
  | methodRef _ _ => 10
  | nameAndType _ _ => 12
  | methodHandle _ _ => 15
  | invokeDynamic _ _ => 18

/-- The bytes after the tag. -/
def body : Constant → Bytes
  | utf8 text =>
    let bytes := ModifiedUtf8.encode text
    Bytes.ofUInt16 bytes.length.toUInt16 ++ bytes
  | integer value => Bytes.ofUInt32 value.toUInt32
  | classRef name => Bytes.ofUInt16 name
  | string text => Bytes.ofUInt16 text
  | fieldRef owner nat => Bytes.ofUInt16 owner ++ Bytes.ofUInt16 nat
  | methodRef owner nat => Bytes.ofUInt16 owner ++ Bytes.ofUInt16 nat
  | nameAndType name descriptor => Bytes.ofUInt16 name ++ Bytes.ofUInt16 descriptor
  | methodHandle kind reference => kind.code :: Bytes.ofUInt16 reference
  | invokeDynamic bootstrap nat => Bytes.ofUInt16 bootstrap ++ Bytes.ofUInt16 nat

/-- The bytes of an entry. -/
def encode (c : Constant) : Bytes := c.tag :: c.body

end Constant

end SchemaRecords.ClassFile
