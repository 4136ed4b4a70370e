import SchemaRecords.Text.Alphanumeric
import SchemaRecords.Text.LetterCase

/-!
# Names for fields and types

Keys and titles are arbitrary texts; names of fields and types are their camel
case. A run of separators is dropped before a small ASCII letter, which becomes
a capital, and kept otherwise. The characters that no class file allows in such
a name become underscores. Last, the first character is made small for a field
and large for a type.
-/

namespace SchemaRecords.Schema.Naming

/-- Whether a character separates words. -/
def isSeparator (c : Char) : Bool := c == '_' || !Text.isAlphanumeric c

/-- Whether class files forbid a character in names. -/
def isForbidden (c : Char) : Bool :=
  c == '.' || c == ';' || c == '[' || c == '/' || c == '<' || c == '>'

/-- Whether a character is a small ASCII letter. -/
def isSmall (c : Char) : Bool := 'a' ≤ c && c ≤ 'z'

/-- Joins words. `done` holds what came before and `run` the separators just met, both in
reverse. -/
def joinFrom (done run : List Char) : List Char → List Char
  | [] => (run ++ done).reverse
  | c :: rest =>
    if isSeparator c then joinFrom done (c :: run) rest
    else if !run.isEmpty && isSmall c then joinFrom (c.toUpper :: done) [] rest
    else joinFrom (c :: (run ++ done)) [] rest

/-- The camel case of a text, without forbidden characters. -/
def camelCase (text : List Char) : List Char :=
  (joinFrom [] [] text).map fun c => if isForbidden c then '_' else c

/-- Changes the first character. -/
def mapFirst (f : Char → Char) : List Char → List Char
  | [] => []
  | c :: rest => f c :: rest

/-- The name of the field for a key. -/
def fieldName (key : String) : String :=
  String.ofList (mapFirst Text.toLower (camelCase key.toList))

/-- The name of the type for a title. -/
def typeName (title : String) : String :=
  String.ofList (mapFirst Text.toUpper (camelCase title.toList))

end SchemaRecords.Schema.Naming
