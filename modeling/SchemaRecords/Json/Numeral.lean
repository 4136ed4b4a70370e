import SchemaRecords.Json.Failure
import SchemaRecords.Json.Node

/-!
# Numbers in JSON texts

An integer that fits in 64 bits keeps its value. Every other number is read as
decimal digits times a power of ten: as many leading digits as fit in 64 bits,
and an exponent that accounts for the point and for the digits left out. That
product is computed in binary64 with one rounding for the digits and one for
each multiplication or division by a power of ten.
-/

namespace SchemaRecords.Json.Numeral

/-- The largest number that 64 bits hold. -/
def maxDigits : Nat := 18446744073709551615

/-- The largest exponent that is computed. -/
def maxExponent : Nat := 2147483647

/-- Whether a character is a decimal digit. -/
def isDigit (c : Char) : Bool := '0' ≤ c && c ≤ '9'

/-- The value of a decimal digit. -/
def digit (c : Char) : Nat := c.toNat - 48

/-- Appends digits to `n` while the result is at most `limit`. Gives the result and the digits
that were left out: the first that did not fit and all after it. -/
def absorb (limit n : Nat) : List Char → Nat × List Char
  | [] => (n, [])
  | c :: rest =>
    let m := n * 10 + digit c
    if m ≤ limit then absorb limit m rest else (n, c :: rest)

/-- A power of ten in binary64. -/
def power (e : Nat) : Float := Float.ofScientific 1 false e

/-- Divides by a power of ten. Beyond 308 there is no such power, so the division is done in
steps; it stops when nothing is left. -/
def scaleDown (f : Float) (e : Nat) : Float :=
  if e ≤ 308 then f / power e
  else if f == 0.0 then f
  else scaleDown (f / power 308) (e - 308)
termination_by e

/-- The product of a number and a power of ten, unless it is infinite. -/
def scale? (n : Nat) (exponent : Int) : Option Float :=
  let f := n.toUInt64.toFloat
  if 0 ≤ exponent then
    if exponent ≤ 308 then
      let g := f * power exponent.toNat
      if g.isInf then none else some g
    else if n = 0 then some f
    else none
  else some (scaleDown f (-exponent).toNat)

/-- The bits of a number with a sign. -/
def signed (negative : Bool) (f : Float) : Number :=
  .float (if negative then (-f).toBits else f.toBits)

/-- The number `n · 10 ^ exponent`, which ends before `rest`. -/
def scaled (negative : Bool) (n : Nat) (exponent : Int) (rest : List Char) :
    Except Failure (Number × List Char) :=
  match scale? n exponent with
  | some f => .ok (signed negative f, rest)
  | none => .error (.before .numberOutOfRange rest)

/-- Reads the exponent of a number, after its sign. An exponent too large to be computed gives
zero or is out of range. -/
def exponentDigits (negative : Bool) (n : Nat) (start : Int) (down : Bool) (text : List Char) :
    Except Failure (Number × List Char) :=
  let digits := text.takeWhile isDigit
  let rest := text.dropWhile isDigit
  match text with
  | [] => .error (.before .endInValue [])
  | c :: _ =>
    if isDigit c then
      match absorb maxExponent 0 digits with
      | (e, []) => scaled negative n (if down then start - e else start + e) rest
      | (_, _ :: left) =>
        if n ≠ 0 ∧ down = false then .error (.before .numberOutOfRange (left ++ rest))
        else .ok (signed negative 0.0, rest)
    else .error (.after .invalidNumber text)

/-- Reads the exponent of a number, after its mark. -/
def exponent (negative : Bool) (n : Nat) (start : Int) :
    List Char → Except Failure (Number × List Char)
  | '+' :: rest => exponentDigits negative n start false rest
  | '-' :: rest => exponentDigits negative n start true rest
  | rest => exponentDigits negative n start false rest

/-- Reads the exponent of a number if there is one. -/
def optionalExponent (negative : Bool) (n : Nat) (start : Int) :
    List Char → Except Failure (Number × List Char)
  | 'e' :: rest => exponent negative n start rest
  | 'E' :: rest => exponent negative n start rest
  | rest => scaled negative n start rest

/-- Reads the digits after the point, and the exponent. -/
def fraction (negative : Bool) (n : Nat) (start : Int) (text : List Char) :
    Except Failure (Number × List Char) :=
  let digits := text.takeWhile isDigit
  let rest := text.dropWhile isDigit
  match digits, rest with
  | [], [] => .error (.before .endInValue [])
  | [], _ :: _ => .error (.after .invalidNumber rest)
  | _ :: _, _ =>
    let (m, left) := absorb maxDigits n digits
    optionalExponent negative m (start - (digits.length - left.length : Nat)) rest

/-- An integer of at most 64 bits. Negative zero and what is below the 64-bit range are not
integers. -/
def integer (negative : Bool) (n : Nat) : Number :=
  if negative then
    if 0 < n ∧ n ≤ 9223372036854775808 then .negative (Int64.ofInt (-n))
    else signed true n.toUInt64.toFloat
  else .natural n.toUInt64

/-- Reads what follows the integer digits. Of them `n` was kept and `dropped` were left out. -/
def afterDigits (negative : Bool) (n dropped : Nat) :
    List Char → Except Failure (Number × List Char)
  | '.' :: rest => fraction negative n dropped rest
  | 'e' :: rest => exponent negative n dropped rest
  | 'E' :: rest => exponent negative n dropped rest
  | rest =>
    if dropped = 0 then .ok (integer negative n, rest) else scaled negative n dropped rest

/-- Reads a number after its sign. -/
def read (negative : Bool) (text : List Char) : Except Failure (Number × List Char) :=
  match text with
  | [] => .error (.before .endInValue [])
  | '0' :: rest =>
    match rest with
    | c :: _ =>
      if isDigit c then .error (.after .invalidNumber rest) else afterDigits negative 0 0 rest
    | [] => afterDigits negative 0 0 rest
  | c :: _ =>
    if isDigit c then
      let (n, left) := absorb maxDigits 0 (text.takeWhile isDigit)
      afterDigits negative n left.length (text.dropWhile isDigit)
    else .error (.after .invalidNumber text)

end SchemaRecords.Json.Numeral
