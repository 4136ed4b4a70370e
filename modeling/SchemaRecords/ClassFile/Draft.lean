import SchemaRecords.ClassFile.Member

/-!
# Classes under construction

A `Draft` collects the constants, fields, methods and bootstrap methods of a
class; `Draft.build` gives its bytes. Members are written when they are added,
so every constant they mention is in the pool before the pool is written.

Adding something may fail. The constants it had asked for stay, and so do bytes
of a table entry that was begun; the entry is not counted.
-/

namespace SchemaRecords.ClassFile

/-- The word at the start of every class file. -/
def signature : UInt32 := 0xCAFEBABE

/-- The version written unless another is asked for. -/
def defaultMajor : UInt16 := 61

/-- A method that links call sites: its handle and the fixed arguments it is given, all as pool
indices. -/
structure Bootstrap where
  handle : UInt16
  arguments : List UInt16
deriving Repr

namespace Bootstrap

/-- Handles are compared first, since they mostly differ. -/
@[inline] instance : DecidableEq Bootstrap := fun a b =>
  decidable_of_iff (a.handle = b.handle ∧ a.arguments = b.arguments) <| by
    cases a
    cases b
    simp

/-- The number of a bootstrap method in a table, or the size of the table if it is not there. -/
def numberIn (b : Bootstrap) (table : Array Bootstrap) : Nat :=
  if table.contains b then table.toList.idxOf b else table.size

/-- The attribute that holds a class's bootstrap methods. -/
def attributeName : String := "BootstrapMethods"

/-- Writes one bootstrap method. -/
def write (b : Bootstrap) : Write Unit := do
  Write.emit (Bytes.ofUInt16 b.handle)
  Write.count .bootstrapArguments b.arguments.length
  Write.emit (b.arguments.flatMap Bytes.ofUInt16)

/-- Writes a table of bootstrap methods. -/
def writeAll (bs : List Bootstrap) : Write Unit := do
  Write.count .bootstrapMethods bs.length
  bs.forM write

end Bootstrap

/-- Written table entries and how many there are. -/
structure Table where
  count : Nat := 0
  bytes : Buffer := {}

/-- What the start of a class file says about the class. -/
structure Header where
  major : UInt16
  minor : UInt16
  access : UInt16
  /-- The internal name of the class. -/
  name : String
  thisIndex : UInt16
  superIndex : UInt16
deriving DecidableEq, Repr

/-- A class under construction. -/
structure Draft where
  header : Header
  pool : Pool
  fields : Table := {}
  methods : Table := {}
  bootstraps : Array Bootstrap := #[]

/-- A step in the construction of a class. What a failed step did to the draft stays. -/
abbrev Build (α : Type) := EStateM Error Draft α

namespace Draft

/-- A class with nothing in it but its own name and that of its superclass. -/
def new (name superName : String) (access : UInt16) : Except Error Draft :=
  let request : Intern (UInt16 × UInt16) := do
    let thisIndex ← Pool.classRef name
    let superIndex ← Pool.classRef superName
    pure (thisIndex, superIndex)
  match request Pool.empty with
  | .error e _ => .error e
  | .ok (thisIndex, superIndex) pool =>
    .ok {
      header := { major := defaultMajor, minor := 0, access, name, thisIndex, superIndex }
      pool }

/-- The draft with another class-file version. -/
def withVersion (d : Draft) (major minor : UInt16) : Draft :=
  { d with header := { d.header with major, minor } }

/-- Asks the class's pool for a constant. -/
def intern {α : Type} (request : Intern α) : Build α := fun d =>
  match d with
  | ⟨header, pool, fields, methods, bootstraps⟩ =>
    match request pool with
    | .ok a pool => .ok a ⟨header, pool, fields, methods, bootstraps⟩
    | .error e pool => .error e ⟨header, pool, fields, methods, bootstraps⟩

/-- Adds a field. -/
def field (f : Field) : Build Unit := fun d =>
  match d with
  | ⟨header, pool, ⟨count, bytes⟩, methods, bootstraps⟩ =>
    match f.write ⟨pool, bytes⟩ with
    | .ok _ ⟨pool, bytes⟩ => .ok () ⟨header, pool, ⟨count + 1, bytes⟩, methods, bootstraps⟩
    | .error e ⟨pool, bytes⟩ => .error e ⟨header, pool, ⟨count, bytes⟩, methods, bootstraps⟩

/-- Adds a method. -/
def method (m : Method) : Build Unit := fun d =>
  match d with
  | ⟨header, pool, fields, ⟨count, bytes⟩, bootstraps⟩ =>
    match m.write ⟨pool, bytes⟩ with
    | .ok _ ⟨pool, bytes⟩ => .ok () ⟨header, pool, fields, ⟨count + 1, bytes⟩, bootstraps⟩
    | .error e ⟨pool, bytes⟩ => .error e ⟨header, pool, fields, ⟨count, bytes⟩, bootstraps⟩

/-- The number of a bootstrap method, which is added if it is new. -/
def bootstrap (handle : UInt16) (arguments : List UInt16) : Build UInt16 := fun d =>
  match d with
  | ⟨header, pool, fields, methods, bootstraps⟩ =>
    let entry : Bootstrap := ⟨handle, arguments⟩
    let n := entry.numberIn bootstraps
    let bootstraps := if n < bootstraps.size then bootstraps else bootstraps.push entry
    match count16 .bootstrapMethods n with
    | .ok i => .ok i ⟨header, pool, fields, methods, bootstraps⟩
    | .error e => .error e ⟨header, pool, fields, methods, bootstraps⟩

/-- The pool index of a call site that a bootstrap method links. -/
def invokeDynamic (handle : UInt16) (arguments : List UInt16) (name : String)
    (type : MethodType) : Build UInt16 := do
  let number ← bootstrap handle arguments
  intern (Pool.invokeDynamic number name type.descriptor)

/-- The result of writing to an empty buffer after the constants in `pool`. -/
def written (pool : Pool) (w : Write Unit) : Except Error Bytes :=
  match w ⟨pool, Buffer.empty⟩ with
  | .ok _ ⟨_, out⟩ => .ok out.toBytes
  | .error e _ => .error e

/-- The index of the name of the bootstrap attribute, if the class has bootstrap methods, and
the pool with that name. -/
def attributeName (d : Draft) : Except Error (Option UInt16 × Pool) :=
  if d.bootstraps.isEmpty then .ok (none, d.pool)
  else
    match Pool.utf8 Bootstrap.attributeName d.pool with
    | .ok name pool => .ok (some name, pool)
    | .error e _ => .error e

/-- Writes the attributes of the class. -/
def writeAttributes (bootstraps : List Bootstrap) : Option UInt16 → Write Unit
  | none => Write.emit (Bytes.ofUInt16 0)
  | some name => do
    Write.emit (Bytes.ofUInt16 1)
    Write.inAttribute name (Bootstrap.writeAll bootstraps)

/-- The bytes of the class. It implements no interfaces. -/
def build (d : Draft) : Except Error Bytes := do
  let (name, pool) ← d.attributeName
  let fieldCount ← count16 .fields d.fields.count
  let methodCount ← count16 .methods d.methods.count
  let attributes ← written pool (writeAttributes d.bootstraps.toList name)
  let h := d.header
  pure
    (Bytes.ofUInt32 signature ++ Bytes.ofUInt16 h.minor ++ Bytes.ofUInt16 h.major
      ++ pool.encode
      ++ Bytes.ofUInt16 h.access ++ Bytes.ofUInt16 h.thisIndex ++ Bytes.ofUInt16 h.superIndex
      ++ Bytes.ofUInt16 0
      ++ Bytes.ofUInt16 fieldCount ++ d.fields.bytes.toBytes
      ++ Bytes.ofUInt16 methodCount ++ d.methods.bytes.toBytes
      ++ attributes)

end Draft

end SchemaRecords.ClassFile
