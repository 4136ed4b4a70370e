import SchemaRecords.ClassFile.Image

/-!
# Concatenations that are linked at run time

A call site may be linked to a concatenation of texts. What it concatenates is
said by a recipe, the first of the fixed arguments of its bootstrap method: each
U+0001 in the recipe takes the next argument of the call, each U+0002 the next
of the other fixed arguments, and every other character stands for itself. All
arguments have to be used.

* `Expands`: a part of a recipe takes some arguments and constants and comes to a text; parts are
  put together by `Expands.append`.
* `Expands.text?`, `Expands.arity`: what this says of a whole recipe.
-/

namespace SchemaRecords.Machine

open SchemaRecords.ClassFile

/-- A recipe and the texts of its constants. -/
structure Concatenation where
  recipe : List Char
  constants : List String
deriving DecidableEq, Repr

namespace Concatenation

/-- Takes the next argument of the call. -/
def argumentTag : Char := '\x01'

/-- Takes the next constant. -/
def constantTag : Char := '\x02'

/-- The method that links concatenations. -/
def factory : MemberRef where
  owner := "java/lang/invoke/StringConcatFactory"
  name := "makeConcatWithConstants"
  descriptor :=
    "(Ljava/lang/invoke/MethodHandles$Lookup;Ljava/lang/String;Ljava/lang/invoke/MethodType;" ++
      "Ljava/lang/String;[Ljava/lang/Object;)Ljava/lang/invoke/CallSite;"

/-- The texts of constants; only strings have one here. -/
def texts? : List BootstrapArgument → Option (List String)
  | [] => some []
  | .string text :: rest => (texts? rest).map (text :: ·)
  | _ :: _ => none

/-- The concatenation that a bootstrap method links to. -/
def link? (b : BootstrapInfo) : Option Concatenation :=
  if b.kind = .invokeStatic ∧ b.method = factory then
    match b.arguments with
    | .string recipe :: constants => (texts? constants).map fun texts => ⟨recipe.toList, texts⟩
    | _ => none
  else none

/-- How many arguments a call has to have. -/
def arity (c : Concatenation) : Nat := c.recipe.count argumentTag

/-- Expands a recipe. -/
def expand : List Char → List String → List String → Option (List Char)
  | [], arguments, constants =>
    if arguments.isEmpty && constants.isEmpty then some [] else none
  | c :: rest, arguments, constants =>
    if c = argumentTag then
      arguments.head?.bind fun text =>
        (expand rest arguments.tail constants).map (text.toList ++ ·)
    else if c = constantTag then
      constants.head?.bind fun text =>
        (expand rest arguments constants.tail).map (text.toList ++ ·)
    else (expand rest arguments constants).map (c :: ·)

/-- The text of a call with the given texts of its arguments. -/
def text? (c : Concatenation) (arguments : List String) : Option String :=
  (expand c.recipe arguments c.constants).map String.ofList

theorem texts?_map_string (texts : List String) : texts? (texts.map .string) = some texts := by
  induction texts with
  | nil => rfl
  | cons text texts ih => rw [List.map_cons, texts?, ih]; rfl

/-! ## Parts of recipes -/

/-- A part of a recipe takes these arguments and constants, whatever follows, and comes to the
text. -/
def Expands (part : List Char) (arguments constants : List String) (text : List Char) : Prop :=
  ∀ rest arguments' constants',
    expand (part ++ rest) (arguments ++ arguments') (constants ++ constants')
      = (expand rest arguments' constants').map (text ++ ·)

namespace Expands

theorem nil : Expands [] [] [] [] := by
  intro rest arguments' constants'
  simp

theorem append {p p' : List Char} {a a' c c' : List String} {t t' : List Char}
    (h : Expands p a c t) (h' : Expands p' a' c' t') :
    Expands (p ++ p') (a ++ a') (c ++ c') (t ++ t') := by
  intro rest arguments' constants'
  rw [List.append_assoc, List.append_assoc, List.append_assoc, h, h', Option.map_map]
  congr 1
  funext text
  exact (List.append_assoc t t' text).symm

theorem argument (text : String) : Expands [argumentTag] [text] [] text.toList := by
  intro rest arguments' constants'
  rw [List.singleton_append, expand, if_pos rfl]
  rfl

theorem constant (text : String) : Expands [constantTag] [] [text] text.toList := by
  intro rest arguments' constants'
  rw [List.singleton_append, expand, if_neg (by decide), if_pos rfl]
  rfl

/-- Text without tags stands for itself. -/
theorem plain {text : List Char} (h : ∀ c ∈ text, c ≠ argumentTag ∧ c ≠ constantTag) :
    Expands text [] [] text := by
  induction text with
  | nil => exact nil
  | cons c text ih =>
    have hc := h c (by simp)
    have hsingle : Expands [c] [] [] [c] := by
      intro rest arguments' constants'
      rw [List.singleton_append, expand, if_neg hc.1, if_neg hc.2]
      rfl
    exact hsingle.append (ih fun d hd => h d (by simp [hd]))

variable {recipe : List Char} {arguments constants : List String} {text : List Char}

theorem expand_eq (h : Expands recipe arguments constants text) :
    expand recipe arguments constants = some text := by
  have := h [] [] []
  simpa [expand] using this

theorem text? (h : Expands recipe arguments constants text) :
    Concatenation.text? ⟨recipe, constants⟩ arguments = some (String.ofList text) := by
  rw [Concatenation.text?, h.expand_eq]
  rfl

end Expands

/-- A recipe has a tag for each argument. -/
theorem count_of_expand {recipe : List Char} {arguments constants : List String}
    {text : List Char} (h : expand recipe arguments constants = some text) :
    recipe.count argumentTag = arguments.length := by
  induction recipe generalizing arguments constants text with
  | nil =>
    cases arguments with
    | nil => rfl
    | cons _ _ => cases h
  | cons c recipe ih =>
    rw [expand] at h
    split at h
    · rename_i hc
      cases arguments with
      | nil => cases h
      | cons _ arguments =>
        obtain ⟨rest, hrest, -⟩ := Option.map_eq_some_iff.mp h
        rw [hc, List.count_cons_self, ih hrest, List.tail_cons, List.length_cons]
    · rename_i hc
      rw [List.count_cons_of_ne hc]
      split at h
      · cases constants with
        | nil => cases h
        | cons _ constants =>
          obtain ⟨rest, hrest, -⟩ := Option.map_eq_some_iff.mp h
          exact ih hrest
      · obtain ⟨rest, hrest, -⟩ := Option.map_eq_some_iff.mp h
        exact ih hrest

theorem Expands.arity {recipe : List Char} {arguments constants : List String} {text : List Char}
    (h : Expands recipe arguments constants text) :
    Concatenation.arity ⟨recipe, constants⟩ = arguments.length :=
  count_of_expand h.expand_eq

end Concatenation

end SchemaRecords.Machine
