import SchemaRecords.ClassFile.Annotations
import SchemaRecords.Text.Split

/-!
# Settings for record classes

Which package the classes are in, whether members carry the keys of their
properties as annotations, and whether scalar fields are primitive. A package
is a dotted name; inside class files its segments are divided by slashes.
-/

namespace SchemaRecords.Record

open SchemaRecords.ClassFile (AnnotationEntry)

/-- How record classes are made. -/
structure Settings where
  /-- The package of all classes; none and the empty name are the package without a name. -/
  package : Option String := none
  /-- Whether fields and constructor parameters are annotated with the keys. -/
  keepKeys : Bool := true
  /-- The descriptor of the annotation's type. -/
  annotationType : String := "Lcom/fasterxml/jackson/annotation/JsonProperty;"
  /-- Whether integers, numbers and booleans have primitive fields. -/
  primitiveValues : Bool := false
deriving DecidableEq, Repr

/-- Settings that no class can be made with. -/
inductive SettingsFault where
  | package (name : String)
  | annotationType (descriptor : String)
deriving DecidableEq, Repr

namespace Settings

/-- Whether every segment is there and has no forbidden character. -/
def validSegments (separator : Char) (forbidden : List Char) (name : List Char) : Bool :=
  (Text.split separator name).all fun segment =>
    !segment.isEmpty && !segment.any forbidden.contains

/-- Whether a text is a dotted name, or empty. -/
def isValidPackage (package : String) : Bool :=
  package.isEmpty || validSegments '.' ['/', ';', '[', '<', '>'] package.toList

/-- Whether a text is the descriptor of a class. -/
def isClassDescriptor (descriptor : String) : Bool :=
  match descriptor.toList with
  | 'L' :: rest =>
    match rest.reverse with
    | ';' :: name =>
      !name.isEmpty && validSegments '/' ['.', ';', '[', '<', '>'] name.reverse
    | _ => false
  | _ => false

/-- What is wrong with the settings: the package comes first. -/
def fault? (s : Settings) : Option SettingsFault :=
  if s.package.any fun package => !isValidPackage package then s.package.map .package
  else if isClassDescriptor s.annotationType then none
  else some (.annotationType s.annotationType)

/-- The package, if it has a name. -/
def namedPackage? (s : Settings) : Option String :=
  s.package.filter fun package => !package.isEmpty

/-- The name of a type inside class files. -/
def internalName (s : Settings) (typeName : String) : String :=
  match s.namedPackage? with
  | some package => Text.replaceChar '.' '/' package ++ "/" ++ typeName
  | none => typeName

/-- The dotted name of a type. -/
def binaryName (s : Settings) (typeName : String) : String :=
  match s.namedPackage? with
  | some package => package ++ "." ++ typeName
  | none => typeName

/-- The element of the annotation that holds the key. -/
def annotationElement : String := "value"

/-- The annotation that holds a key, if keys are kept. -/
def keyEntry? (s : Settings) (key : String) : Option AnnotationEntry :=
  if s.keepKeys then some ⟨s.annotationType, [(annotationElement, key)]⟩ else none

end Settings

end SchemaRecords.Record
