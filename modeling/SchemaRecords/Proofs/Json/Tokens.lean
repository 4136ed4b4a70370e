import Mathlib.Tactic.IntervalCases
import SchemaRecords.Json.Parse
import SchemaRecords.Proofs.Json.Grammar
import SchemaRecords.Proofs.Text.Utf16

/-!
# Reading strings and numbers

The readers of tokens undo the rules of the grammar, whatever comes after the
token.

* `Quoted.readFrom_charText`: one character of a string, however it is written;
  `Quoted.read_charsText`: a whole string.
* `Numeral.read_toDigits`: an integer, if the next character cannot be part of
  a number (`Ends`).
-/

namespace SchemaRecords.Json

open Grammar

/-! ## Blanks -/

namespace Parse

theorem isBlank_iff (c : Char) : isBlank c = true ↔ c ∈ [' ', '\t', '\n', '\r'] := by
  simp [isBlank, or_assoc, or_left_comm]

theorem skip_append {blank : List Char} (h : IsBlank blank) (text : List Char) :
    skip (blank ++ text) = skip text := by
  induction blank with
  | nil => rfl
  | cons c blank ih =>
    have hc : isBlank c = true := (isBlank_iff c).2 (h c (by simp))
    rw [List.cons_append, skip, List.dropWhile_cons_of_pos hc]
    exact ih fun c hc => h c (by simp [hc])

theorem skip_of_isBlank {blank : List Char} (h : IsBlank blank) : skip blank = [] := by
  rw [← List.append_nil blank, skip_append h]
  rfl

theorem skip_cons {c : Char} (h : isBlank c = false) (text : List Char) :
    skip (c :: text) = c :: text := by
  rw [skip, List.dropWhile_cons_of_neg (by simp [h])]

end Parse

/-! ## Strings -/

namespace Quoted

theorem hexDigit?_eq {n : Nat} {c : Char} (h : IsHexDigit (n % 16) c) :
    hexDigit? c = some (n % 16).toUInt16 := by
  have hlt := Nat.mod_lt n (show 0 < 16 by omega)
  generalize n % 16 = m at h hlt
  obtain rfl | rfl := h <;> interval_cases m <;> rfl

theorem unit?_eq {n : Nat} {a b c d : Char} (hn : n < 65536)
    (ha : IsHexDigit (n / 4096 % 16) a) (hb : IsHexDigit (n / 256 % 16) b)
    (hc : IsHexDigit (n / 16 % 16) c) (hd : IsHexDigit (n % 16) d) :
    unit? a b c d = some n.toUInt16 := by
  rw [unit?, hexDigit?_eq ha, hexDigit?_eq hb, hexDigit?_eq hc, hexDigit?_eq hd]
  show some _ = some _
  congr 1
  rw [← UInt16.toNat_inj]
  simp
  omega

/-- A character is read in each of the ways in which it can be written. -/
theorem readFrom_charText {c : Char} {text : List Char} (h : CharText c text)
    (done rest : List Char) : readFrom done (text ++ rest) = readFrom (c :: done) rest := by
  cases h with
  | plain hquote hslash hcontrol =>
    show readFrom done (c :: rest) = _
    rw [readFrom.eq_def]
    split <;> simp_all
  | short h =>
    simp only [shortEscapes, List.mem_cons, Prod.mk.injEq, List.not_mem_nil, or_false] at h
    rcases h with ⟨rfl, rfl⟩ | ⟨rfl, rfl⟩ | ⟨rfl, rfl⟩ | ⟨rfl, rfl⟩ | ⟨rfl, rfl⟩ | ⟨rfl, rfl⟩ |
      ⟨rfl, rfl⟩ | ⟨rfl, rfl⟩ <;> rfl
  | unit hsmall h =>
    obtain ⟨ha, hb, hc, hd⟩ := h
    obtain ⟨hhigh, hlow, hchar⟩ := Text.Utf16.units_of_small hsmall
    simp only [List.cons_append, List.nil_append]
    rw [readFrom, unit?_eq (by omega) ha hb hc hd]
    simp only [hlow, hhigh, Bool.false_eq_true, if_false, hchar]
  | pair hlarge hhigh hlow =>
    -- the second escape is read because the first is the high half of a pair
    obtain ⟨ha, hb, hc, hd⟩ := hhigh
    obtain ⟨ha', hb', hc', hd'⟩ := hlow
    obtain ⟨hhigh, hlow, hchar⟩ := Text.Utf16.units_of_large hlarge
    have hvalid := (Text.Utf16.toNat_cases c).1
    simp only [List.cons_append, List.nil_append]
    rw [readFrom, unit?_eq (by omega) ha hb hc hd]
    simp only [Text.Utf16.isLow_of_isHigh hhigh, hhigh, Bool.false_eq_true, if_false, if_true]
    rw [unit?_eq (by omega) ha' hb' hc' hd']
    simp only [hlow, if_true, hchar]

/-- Characters are read up to the closing quote. -/
theorem readFrom_charsText {cs text : List Char} (h : CharsText cs text) (done rest : List Char) :
    readFrom done (text ++ '"' :: rest) = .ok (String.ofList (done.reverse ++ cs), rest) := by
  induction h generalizing done with
  | nil =>
    rw [List.append_nil]
    rfl
  | cons h _ ih =>
    rw [List.append_assoc, readFrom_charText h, ih]
    simp

theorem read_charsText {s : String} {text : List Char} (h : CharsText s.toList text)
    (rest : List Char) : read (text ++ '"' :: rest) = .ok (s, rest) := by
  rw [read, readFrom_charsText h, List.reverse_nil, List.nil_append, String.ofList_toList]

end Quoted

/-! ## Numbers -/

/-- The text cannot go on with a number that was begun. -/
def Ends (rest : List Char) : Prop :=
  ∀ c ∈ rest.head?, c ∈ [' ', '\t', '\n', '\r', ',', ']', '}']

namespace Numeral

theorem le_ofDigitChars (n : Nat) (digits : List Char) : n ≤ Nat.ofDigitChars 10 digits n := by
  induction digits generalizing n with
  | nil => exact Nat.le_refl n
  | cons c digits ih =>
    rw [Nat.ofDigitChars_cons]
    exact Nat.le_trans (by omega) (ih _)

/-- Digits are absorbed if their value is within the limit. -/
theorem absorb_eq {limit n : Nat} {digits : List Char}
    (h : Nat.ofDigitChars 10 digits n ≤ limit) :
    absorb limit n digits = (Nat.ofDigitChars 10 digits n, []) := by
  induction digits generalizing n with
  | nil => rfl
  | cons c digits ih =>
    have hstep : n * 10 + digit c = 10 * n + (c.toNat - '0'.toNat) := by
      rw [Nat.mul_comm]
      rfl
    rw [Nat.ofDigitChars_cons] at h ⊢
    rw [absorb, hstep, if_pos (Nat.le_trans (le_ofDigitChars _ digits) h), ih h]

/-- A positive number does not begin with zero. -/
theorem exists_toDigits {n : Nat} (h : 0 < n) :
    ∃ c digits, Nat.toDigits 10 n = c :: digits ∧ c ≠ '0' := by
  induction n using Nat.strongRecOn with
  | ind n ih =>
    rw [Nat.toDigits_eq_if (by omega)]
    split
    · rename_i hlt
      refine ⟨_, [], rfl, ?_⟩
      interval_cases n <;> decide
    · obtain ⟨c, digits, hdigits, hc⟩ := ih (n / 10) (by omega) (by omega)
      exact ⟨c, digits ++ [(n % 10).digitChar], by rw [hdigits]; rfl, hc⟩

/-- What ends a number is no digit and no mark of a fraction or an exponent. -/
theorem not_isDigit_of_ends {c : Char} {rest : List Char} (h : Ends (c :: rest)) :
    isDigit c = false ∧ c ≠ '.' ∧ c ≠ 'e' ∧ c ≠ 'E' := by
  have hc : c ∈ [' ', '\t', '\n', '\r', ',', ']', '}'] := h c rfl
  simp only [List.mem_cons, List.not_mem_nil, or_false] at hc
  rcases hc with rfl | rfl | rfl | rfl | rfl | rfl | rfl <;> decide

theorem span_toDigits (n : Nat) {rest : List Char} (hrest : Ends rest) :
    (Nat.toDigits 10 n ++ rest).takeWhile isDigit = Nat.toDigits 10 n ∧
      (Nat.toDigits 10 n ++ rest).dropWhile isDigit = rest := by
  have hdigits : ∀ c ∈ Nat.toDigits 10 n, isDigit c = true := fun c hc =>
    Nat.isDigit_of_mem_toDigits (by omega) (by omega) hc
  rw [List.takeWhile_append_of_pos hdigits, List.dropWhile_append_of_pos hdigits]
  cases rest with
  | nil => simp
  | cons c rest => simp [(not_isDigit_of_ends hrest).1]

theorem afterDigits_of_ends (negative : Bool) (n : Nat) {rest : List Char} (hrest : Ends rest) :
    afterDigits negative n 0 rest = .ok (integer negative n, rest) := by
  unfold afterDigits
  split
  · exact absurd rfl (not_isDigit_of_ends hrest).2.1
  · exact absurd rfl (not_isDigit_of_ends hrest).2.2.1
  · exact absurd rfl (not_isDigit_of_ends hrest).2.2.2
  · exact if_pos rfl

/-- An integer that 64 bits can hold is read without loss. -/
theorem read_toDigits (negative : Bool) {n : Nat} (hn : n ≤ maxDigits) {rest : List Char}
    (hrest : Ends rest) :
    read negative (Nat.toDigits 10 n ++ rest) = .ok (integer negative n, rest) := by
  obtain rfl | hpos := Nat.eq_zero_or_pos n
  · cases rest with
    | nil => exact afterDigits_of_ends negative 0 hrest
    | cons c rest =>
      show (if isDigit c then _ else afterDigits negative 0 0 (c :: rest)) = _
      rw [(not_isDigit_of_ends hrest).1]
      exact afterDigits_of_ends negative 0 hrest
  · obtain ⟨c, digits, hdigits, hzero⟩ := exists_toDigits hpos
    have hc : isDigit c = true :=
      Nat.isDigit_of_mem_toDigits (b := 10) (n := n) (by omega) (by omega) (by simp [hdigits])
    obtain ⟨htake, hdrop⟩ := span_toDigits n hrest
    have habsorb : absorb maxDigits 0 (Nat.toDigits 10 n) = (n, []) := by
      rw [absorb_eq] <;> rw [Nat.ofDigitChars_ten_toDigits]
      exact hn
    rw [hdigits, List.cons_append] at htake hdrop ⊢
    unfold read
    split
    · rename_i h
      cases h
    · rename_i h
      cases h
      exact absurd rfl hzero
    · rename_i h
      cases h
      rw [hc, htake, hdrop, ← hdigits, habsorb]
      exact afterDigits_of_ends negative n hrest

theorem read_natural (n : UInt64) {rest : List Char} (hrest : Ends rest) :
    read false (Nat.toDigits 10 n.toNat ++ rest) = .ok (.natural n, rest) := by
  have hn : n.toNat ≤ maxDigits := Nat.le_of_lt_succ n.toNat_lt
  rw [read_toDigits false hn hrest]
  simp [integer]

theorem read_negative {v : Int64} (hv : v < 0) {rest : List Char} (hrest : Ends rest) :
    read true (Nat.toDigits 10 v.toInt.natAbs ++ rest) = .ok (.negative v, rest) := by
  have hneg : v.toInt < 0 := Int64.lt_iff_toInt_lt.1 hv
  have hmin : -9223372036854775808 ≤ v.toInt := v.le_toInt
  have hn : v.toInt.natAbs ≤ maxDigits := by
    show _ ≤ 18446744073709551615
    omega
  rw [read_toDigits true hn hrest, integer, if_pos rfl, if_pos (by omega)]
  have hv : -(v.toInt.natAbs : Int) = v.toInt := by omega
  rw [hv, Int64.ofInt_toInt]

end Numeral

end SchemaRecords.Json
