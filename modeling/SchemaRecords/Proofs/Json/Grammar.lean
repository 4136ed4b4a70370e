import SchemaRecords.Json.Node

/-!
# The texts of JSON values

A relation between values and the texts that stand for them, given by the rules
of JSON and without a reader: blanks may stand around every token, a character
of a string may be written in several ways, and the entries of an object are
listed in the order in which the value has them, with repetitions.

* `ValueText`, `DocumentText`: the texts of a value, without and with blanks
  around it.
* `Node.IsExact`: values whose numbers are integers of 64 bits.
* `Node.depth`: how many arrays and objects of a value are nested.
* `exists_documentText`: every exact value has a text.
-/

namespace SchemaRecords.Json

namespace Grammar

/-! ## Tokens -/

/-- Only characters that may stand between tokens. -/
def IsBlank (text : List Char) : Prop := ∀ c ∈ text, c ∈ [' ', '\t', '\n', '\r']

/-- A digit in base sixteen with the value `n`; letters are small or capital. -/
def IsHexDigit (n : Nat) (c : Char) : Prop :=
  c = Nat.digitChar n ∨ c = (Nat.digitChar n).toUpper

/-- The escape of a 16-bit code unit. -/
inductive UnitText (n : Nat) : List Char → Prop where
  | digits {a b c d : Char} (ha : IsHexDigit (n / 4096 % 16) a) (hb : IsHexDigit (n / 256 % 16) b)
      (hc : IsHexDigit (n / 16 % 16) c) (hd : IsHexDigit (n % 16) d) :
      UnitText n ['\\', 'u', a, b, c, d]

/-- The letters of short escapes, each with the character that it stands for. -/
def shortEscapes : List (Char × Char) :=
  [('"', '"'), ('\\', '\\'), ('/', '/'), ('b', '\x08'), ('f', '\x0c'), ('n', '\n'), ('r', '\r'),
    ('t', '\t')]

/-- The ways to write a character of a string. -/
inductive CharText (c : Char) : List Char → Prop where
  | plain (hquote : c ≠ '"') (hslash : c ≠ '\\') (hcontrol : 32 ≤ c.toNat) : CharText c [c]
  | short {letter : Char} (h : (letter, c) ∈ shortEscapes) : CharText c ['\\', letter]
  | unit {text : List Char} (hsmall : c.toNat < 0x10000) (h : UnitText c.toNat text) :
      CharText c text
  /-- The two halves of a surrogate pair. -/
  | pair {high low : List Char} (hlarge : 0x10000 ≤ c.toNat)
      (hhigh : UnitText (0xD800 + (c.toNat - 0x10000) / 1024) high)
      (hlow : UnitText (0xDC00 + (c.toNat - 0x10000) % 1024) low) : CharText c (high ++ low)

/-- Characters that are written one after the other. -/
inductive CharsText : List Char → List Char → Prop where
  | nil : CharsText [] []
  | cons {c : Char} {cs text rest : List Char} (h : CharText c text) (hrest : CharsText cs rest) :
      CharsText (c :: cs) (text ++ rest)

/-- A string in quotes. -/
inductive StringText (s : String) : List Char → Prop where
  | quoted {text : List Char} (h : CharsText s.toList text) : StringText s ('"' :: text ++ ['"'])

/-! ## Lists -/

section Lists

variable {α : Type} (Item : α → List Char → Prop)

/-- At least one item, with commas between items and blanks around them. -/
inductive Listed : List α → List Char → Prop where
  | one {a : α} {before text after : List Char} (hbefore : IsBlank before) (h : Item a text)
      (hafter : IsBlank after) : Listed [a] (before ++ text ++ after)
  | more {a : α} {as : List α} {before text after rest : List Char} (hbefore : IsBlank before)
      (h : Item a text) (hafter : IsBlank after) (hrest : Listed as rest) :
      Listed (a :: as) (before ++ text ++ after ++ ',' :: rest)

/-- What stands between the brackets of a list. -/
inductive Enclosed : List α → List Char → Prop where
  | empty {blank : List Char} (h : IsBlank blank) : Enclosed [] blank
  | listed {as : List α} {text : List Char} (h : Listed Item as text) : Enclosed as text

variable {Item} in
/-- There is a comma between any two items. -/
theorem Listed.length_le {as : List α} {text : List Char} (h : Listed Item as text) :
    as.length ≤ text.length + 1 := by
  induction h with
  | one => simp
  | more _ _ _ _ ih =>
    simp only [List.length_cons, List.length_append]
    omega

end Lists

/-- A key and a value, with a colon between them. -/
inductive EntryText (Value : Node → List Char → Prop) : String × Node → List Char → Prop where
  | mk {key : String} {node : Node} {name before after text : List Char}
      (hkey : StringText key name) (hbefore : IsBlank before) (hafter : IsBlank after)
      (h : Value node text) :
      EntryText Value (key, node) (name ++ before ++ ':' :: (after ++ text))

/-! ## Values -/

/-- The texts of a value. -/
inductive ValueText : Node → List Char → Prop where
  | null : ValueText .null ['n', 'u', 'l', 'l']
  | true : ValueText (.bool true) ['t', 'r', 'u', 'e']
  | false : ValueText (.bool false) ['f', 'a', 'l', 's', 'e']
  | natural (n : UInt64) : ValueText (.number (.natural n)) (Nat.toDigits 10 n.toNat)
  | negative {v : Int64} (h : v < 0) :
      ValueText (.number (.negative v)) ('-' :: Nat.toDigits 10 v.toInt.natAbs)
  | string {s : String} {text : List Char} (h : StringText s text) : ValueText (.string s) text
  | array {items : List Node} {text : List Char} (h : Enclosed ValueText items text) :
      ValueText (.array items) ('[' :: text ++ [']'])
  | object {entries : List (String × Node)} {text : List Char}
      (h : Enclosed (EntryText ValueText) entries text) :
      ValueText (.object entries) ('{' :: text ++ ['}'])

/-- The texts of a document, which is a value with blanks around it. -/
inductive DocumentText (node : Node) : List Char → Prop where
  | padded {before text after : List Char} (hbefore : IsBlank before) (h : ValueText node text)
      (hafter : IsBlank after) : DocumentText node (before ++ text ++ after)

end Grammar

namespace Node

/-- A value without numbers other than integers of 64 bits. -/
inductive IsExact : Node → Prop where
  | null : IsExact null
  | bool (value : Bool) : IsExact (bool value)
  | natural (n : UInt64) : IsExact (number (.natural n))
  | negative {v : Int64} (h : v < 0) : IsExact (number (.negative v))
  | string (text : String) : IsExact (string text)
  | array {items : List Node} (h : ∀ item ∈ items, IsExact item) : IsExact (array items)
  | object {entries : List (String × Node)} (h : ∀ entry ∈ entries, IsExact entry.2) :
      IsExact (object entries)

mutual

/-- How many arrays and objects are nested in the value, itself included. -/
def depth : Node → Nat
  | array items => depthItems items + 1
  | object entries => depthEntries entries + 1
  | _ => 0

/-- The depth of the deepest item. -/
def depthItems : List Node → Nat
  | [] => 0
  | item :: rest => max item.depth (depthItems rest)

/-- The depth of the deepest value. -/
def depthEntries : List (String × Node) → Nat
  | [] => 0
  | (_, value) :: rest => max value.depth (depthEntries rest)

end

end Node

namespace Grammar

/-! ## Every exact value has a text -/

theorem isBlank_nil : IsBlank [] := by simp [IsBlank]

theorem exists_unitText (n : Nat) : ∃ text, UnitText n text :=
  ⟨_, .digits (.inl rfl) (.inl rfl) (.inl rfl) (.inl rfl)⟩

theorem exists_charText (c : Char) : ∃ text, CharText c text := by
  obtain ⟨text, htext⟩ := exists_unitText c.toNat
  obtain ⟨high, hhigh⟩ := exists_unitText (0xD800 + (c.toNat - 0x10000) / 1024)
  obtain ⟨low, hlow⟩ := exists_unitText (0xDC00 + (c.toNat - 0x10000) % 1024)
  by_cases h : c.toNat < 0x10000
  · exact ⟨text, .unit h htext⟩
  · exact ⟨high ++ low, .pair (Nat.le_of_not_lt h) hhigh hlow⟩

theorem exists_charsText (cs : List Char) : ∃ text, CharsText cs text := by
  induction cs with
  | nil => exact ⟨[], .nil⟩
  | cons c cs ih =>
    obtain ⟨text, htext⟩ := exists_charText c
    obtain ⟨rest, hrest⟩ := ih
    exact ⟨text ++ rest, .cons htext hrest⟩

theorem exists_enclosed {α : Type} {Item : α → List Char → Prop} {as : List α}
    (h : ∀ a ∈ as, ∃ text, Item a text) : ∃ text, Enclosed Item as text := by
  cases as with
  | nil => exact ⟨[], .empty isBlank_nil⟩
  | cons a as =>
    suffices hlisted : ∃ text, Listed Item (a :: as) text by
      obtain ⟨text, htext⟩ := hlisted
      exact ⟨text, .listed htext⟩
    induction as generalizing a with
    | nil =>
      obtain ⟨text, htext⟩ := h a (by simp)
      exact ⟨_, .one isBlank_nil htext isBlank_nil⟩
    | cons b as ih =>
      obtain ⟨text, htext⟩ := h a (by simp)
      obtain ⟨rest, hrest⟩ := ih b fun c hc => h c (by simp [List.mem_cons.1 hc])
      exact ⟨_, .more isBlank_nil htext isBlank_nil hrest⟩

theorem exists_valueText {node : Node} (h : node.IsExact) : ∃ text, ValueText node text := by
  induction h with
  | null => exact ⟨_, .null⟩
  | bool value =>
    cases value with
    | true => exact ⟨_, .true⟩
    | false => exact ⟨_, .false⟩
  | natural n => exact ⟨_, .natural n⟩
  | negative h => exact ⟨_, .negative h⟩
  | string s =>
    obtain ⟨text, htext⟩ := exists_charsText s.toList
    exact ⟨_, .string (.quoted htext)⟩
  | array _ ih =>
    obtain ⟨text, htext⟩ := exists_enclosed ih
    exact ⟨_, .array htext⟩
  | @object entries _ ih =>
    have hentries : ∀ entry ∈ entries, ∃ text, EntryText ValueText entry text := by
      intro entry hentry
      obtain ⟨value, hvalue⟩ := ih entry hentry
      obtain ⟨name, hname⟩ := exists_charsText entry.1.toList
      exact ⟨_, .mk (.quoted hname) isBlank_nil isBlank_nil hvalue⟩
    obtain ⟨text, htext⟩ := exists_enclosed hentries
    exact ⟨_, .object htext⟩

theorem exists_documentText {node : Node} (h : node.IsExact) :
    ∃ text : String, DocumentText node text.toList := by
  obtain ⟨text, htext⟩ := exists_valueText h
  refine ⟨String.ofList text, ?_⟩
  rw [String.toList_ofList, ← List.append_nil text, ← List.nil_append text]
  exact .padded isBlank_nil htext isBlank_nil

end Grammar

end SchemaRecords.Json
