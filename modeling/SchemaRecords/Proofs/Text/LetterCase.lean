import SchemaRecords.Proofs.Text.Utf16
import SchemaRecords.Text.Alphanumeric
import SchemaRecords.Text.LetterCase

/-!
# Laws of the case mappings

A change of case does nothing the second time, leads from letters and numbers to
letters and numbers, and leaves all other characters alone. Both mappings obey
these laws because of what their tables list. Sets of code points are compared as
numbers that have a bit for each member, so that the tables are checked in a few
operations on large numbers.

* `isCaseChange_toUpper`, `isCaseChange_toLower`: the laws hold.
-/

namespace SchemaRecords.Text

/-- What names rely on in a change of case. -/
structure IsCaseChange (f : Char → Char) : Prop where
  idem : ∀ c, f (f c) = f c
  word : ∀ c, isAlphanumeric c = true → isAlphanumeric (f c) = true
  other : ∀ c, isAlphanumeric c = false → f c = c

/-! ## Sets of numbers -/

namespace Bits

/-- The union of sets, each given by its bits. -/
def union {α : Type} (bits : α → Nat) (xs : List α) : Nat :=
  xs.foldr (fun x all => bits x ||| all) 0

theorem testBit_union {α : Type} {bits : α → Nat} {xs : List α} {n : Nat} :
    (union bits xs).testBit n = true ↔ ∃ x ∈ xs, (bits x).testBit n = true := by
  induction xs with
  | nil => simp [union]
  | cons x xs ih =>
    have hunion : union bits (x :: xs) = bits x ||| union bits xs := rfl
    rw [hunion, Nat.testBit_or, Bool.or_eq_true, ih]
    simp

/-- The numbers of a list. -/
def ofList (ns : List Nat) : Nat := union (1 <<< ·) ns

theorem testBit_ofList {ns : List Nat} {n : Nat} :
    (ofList ns).testBit n = true ↔ n ∈ ns := by
  simp [ofList, testBit_union, Nat.one_shiftLeft, Nat.testBit_two_pow]

/-- The numbers of ranges. -/
def ofRanges (ranges : List (Nat × Nat)) : Nat :=
  union (fun r => (1 <<< (r.2 + 1 - r.1) - 1) <<< r.1) ranges

theorem testBit_ofRanges {ranges : List (Nat × Nat)} {n : Nat} :
    (ofRanges ranges).testBit n = true ↔ ∃ r ∈ ranges, r.1 ≤ n ∧ n ≤ r.2 := by
  have hrange : ∀ r : Nat × Nat,
      ((1 <<< (r.2 + 1 - r.1) - 1) <<< r.1).testBit n = true ↔ r.1 ≤ n ∧ n ≤ r.2 := by
    intro r
    rw [Nat.testBit_shiftLeft, Nat.one_shiftLeft, Nat.testBit_two_pow_sub_one, Bool.and_eq_true,
      decide_eq_true_eq, decide_eq_true_eq]
    omega
  simp only [ofRanges, testBit_union, hrange]

theorem testBit_of_or_eq {a b n : Nat} (h : a ||| b = b) (hn : a.testBit n = true) :
    b.testBit n = true := by
  rw [← h, Nat.testBit_or, hn, Bool.true_or]

theorem testBit_of_and_eq_zero {a b n : Nat} (h : a &&& b = 0) (ha : a.testBit n = true) :
    ¬b.testBit n = true := by
  intro hb
  have hboth : (a &&& b).testBit n = true := by rw [Nat.testBit_and, ha, hb, Bool.and_self]
  rw [h, Nat.zero_testBit] at hboth
  cases hboth

end Bits

/-! ## Letters and numbers -/

@[elab_as_elim]
theorem of_forall_ascii {P : Char → Prop} (c : Char) (hc : c.toNat < 128)
    (h : ∀ n : Fin 128, P (Char.ofNat n)) : P c := by
  have hchar := h ⟨c.toNat, hc⟩
  rwa [Char.ofNat_toNat] at hchar

/-- The ranges of all letters and numbers. -/
def wordRanges : List (Nat × Nat) := Alphanumeric.basicRanges ++ Alphanumeric.supplementaryRanges

/-- No range of the first table goes beyond U+FFFF or has surrogates in it, and those of ASCII
characters are in accord with the rule for them. -/
theorem basicRanges_valid : ∀ r ∈ Alphanumeric.basicRanges,
    (r.2 < 0xD800 ∨ 0xDFFF < r.1 ∧ r.2 < 0x10000) ∧
      (128 ≤ r.1 ∨ ∀ n : Fin 128, r.1 ≤ n → n ≤ r.2 → (Char.ofNat n).isAlphanum) := by
  decide +kernel

theorem supplementaryRanges_valid : ∀ r ∈ Alphanumeric.supplementaryRanges,
    0x10000 ≤ r.1 ∧ r.2 < 0x110000 := by
  decide +kernel

theorem inRanges_of_mem {ranges : List (Nat × Nat)} {r : Nat × Nat} {n : Nat} (hr : r ∈ ranges)
    (hn : r.1 ≤ n ∧ n ≤ r.2) : inRanges ranges n = true := by
  refine List.any_eq_true.2 ⟨r, hr, ?_⟩
  simpa using hn

/-- A number in one of the ranges is that of a letter or number. -/
theorem isAlphanumeric_of_mem {r : Nat × Nat} {n : Nat} (hr : r ∈ wordRanges)
    (hn : r.1 ≤ n ∧ n ≤ r.2) :
    (Char.ofNat n).toNat = n ∧ isAlphanumeric (Char.ofNat n) = true := by
  obtain hbasic | hsupplementary := List.mem_append.1 hr
  · obtain ⟨hvalid, hascii⟩ := basicRanges_valid r hbasic
    have htoNat : (Char.ofNat n).toNat = n := Utf16.toNat_ofNat (by omega)
    refine ⟨htoNat, ?_⟩
    unfold isAlphanumeric
    simp only [htoNat]
    split
    · rename_i hsmall
      obtain hlarge | hascii := hascii
      · omega
      · exact hascii ⟨n, hsmall⟩ hn.1 hn.2
    · rw [if_pos (by omega)]
      exact inRanges_of_mem hbasic hn
  · obtain ⟨hfirst, hlast⟩ := supplementaryRanges_valid r hsupplementary
    have htoNat : (Char.ofNat n).toNat = n := Utf16.toNat_ofNat (by omega)
    refine ⟨htoNat, ?_⟩
    unfold isAlphanumeric
    simp only [htoNat]
    rw [if_neg (by omega), if_neg (by omega)]
    exact inRanges_of_mem hsupplementary hn

/-! ## Tables of runs -/

namespace LetterCase

/-- The members of a run. -/
def Run.members (r : Run) : List Nat :=
  List.range' r.first ((r.last - r.first) / r.step + 1) r.step

theorem Run.mem_members {r : Run} {n : Nat} (h : r.contains n = true) : n ∈ r.members := by
  simp only [contains, Bool.and_eq_true, decide_eq_true_eq, beq_iff_eq] at h
  obtain ⟨⟨hfirst, hlast⟩, hstep⟩ := h
  refine List.mem_range'.2 ⟨(n - r.first) / r.step, ?_, ?_⟩
  · exact Nat.lt_succ_of_le (Nat.div_le_div_right (by omega))
  · rw [Nat.mul_div_cancel' (Nat.dvd_of_mod_eq_zero hstep)]
    omega

/-- All numbers that a table maps. -/
def listed (runs : List Run) : List Nat := runs.flatMap Run.members

/-- All numbers that it maps to. -/
def reached (runs : List Run) : List Nat := runs.flatMap fun r => r.members.map r.apply

theorem mem_listed {runs : List Run} {r : Run} (hr : r ∈ runs) {n : Nat}
    (hn : r.contains n = true) : n ∈ listed runs :=
  List.mem_flatMap.2 ⟨r, hr, r.mem_members hn⟩

theorem mem_reached {runs : List Run} {r : Run} (hr : r ∈ runs) {n : Nat}
    (hn : r.contains n = true) : r.apply n ∈ reached runs :=
  List.mem_flatMap.2 ⟨r, hr, List.mem_map_of_mem (r.mem_members hn)⟩

/-- A number is mapped by a run that contains it, or there is none and it stays as it is. -/
theorem mapped_cases (runs : List Run) (n : Nat) :
    (∃ r ∈ runs, r.contains n = true ∧ mapped runs n = r.apply n) ∨
      (∀ r ∈ runs, r.contains n = false) ∧ mapped runs n = n := by
  unfold mapped
  split
  · rename_i r hr
    have hcontains := List.find?_some hr
    exact .inl ⟨r, List.mem_of_find?_eq_some hr, hcontains, rfl⟩
  · rename_i hnone
    exact .inr ⟨fun r hr => Bool.eq_false_iff.2 (List.find?_eq_none.1 hnone r hr), rfl⟩

/-- A change of case, by a rule for ASCII and by a table for the rest. -/
def change (rule : Char → Char) (runs : List Run) (c : Char) : Char :=
  if c.toNat < 128 then rule c else Char.ofNat (mapped runs c.toNat)

/-- What is checked of a rule for ASCII and a table. -/
structure IsSound (rule : Char → Char) (runs : List Run) : Prop where
  ascii : ∀ n : Fin 128, (rule (Char.ofNat n)).toNat < 128 ∧
    rule (rule (Char.ofNat n)) = rule (Char.ofNat n) ∧
    if (Char.ofNat n).isAlphanum then (rule (Char.ofNat n)).isAlphanum = true
    else rule (Char.ofNat n) = Char.ofNat n
  /-- Only single numbers are mapped into ASCII, to characters that the rule leaves alone. -/
  small : ∀ r ∈ runs, 128 ≤ r.target ∨
    r.first = r.last ∧ rule (Char.ofNat r.target) = Char.ofNat r.target
  words : Bits.ofList (listed runs) ||| Bits.ofRanges wordRanges = Bits.ofRanges wordRanges
  images : Bits.ofList (reached runs) ||| Bits.ofRanges wordRanges = Bits.ofRanges wordRanges
  apart : Bits.ofList (reached runs) &&& Bits.ofList (listed runs) = 0

namespace IsSound

variable {rule : Char → Char} {runs : List Run}

theorem isAlphanumeric_of_contains (h : IsSound rule runs) {r : Run} (hr : r ∈ runs) {n : Nat}
    (hn : r.contains n = true) : isAlphanumeric (Char.ofNat n) = true := by
  have hword := Bits.testBit_of_or_eq h.words (Bits.testBit_ofList.2 (mem_listed hr hn))
  obtain ⟨s, hs, hin⟩ := Bits.testBit_ofRanges.1 hword
  exact (isAlphanumeric_of_mem hs hin).2

theorem isAlphanumeric_apply (h : IsSound rule runs) {r : Run} (hr : r ∈ runs) {n : Nat}
    (hn : r.contains n = true) :
    (Char.ofNat (r.apply n)).toNat = r.apply n ∧
      isAlphanumeric (Char.ofNat (r.apply n)) = true := by
  have hword := Bits.testBit_of_or_eq h.images (Bits.testBit_ofList.2 (mem_reached hr hn))
  obtain ⟨s, hs, hin⟩ := Bits.testBit_ofRanges.1 hword
  exact isAlphanumeric_of_mem hs hin

/-- What a number is mapped to is not mapped further. -/
theorem mapped_apply (h : IsSound rule runs) {r : Run} (hr : r ∈ runs) {n : Nat}
    (hn : r.contains n = true) : mapped runs (r.apply n) = r.apply n := by
  obtain ⟨s, hs, hcontains, -⟩ | ⟨-, heq⟩ := mapped_cases runs (r.apply n)
  · have hnot := Bits.testBit_of_and_eq_zero h.apart (Bits.testBit_ofList.2 (mem_reached hr hn))
    exact absurd (Bits.testBit_ofList.2 (mem_listed hs hcontains)) hnot
  · exact heq

theorem change_apply (h : IsSound rule runs) {r : Run} (hr : r ∈ runs) {n : Nat}
    (hn : r.contains n = true) :
    change rule runs (Char.ofNat (r.apply n)) = Char.ofNat (r.apply n) := by
  rw [change, (h.isAlphanumeric_apply hr hn).1, h.mapped_apply hr hn]
  split
  · rename_i hsmall
    simp only [Run.contains, Bool.and_eq_true, decide_eq_true_eq] at hn
    obtain hlarge | ⟨hsingle, hrule⟩ := h.small r hr
    · unfold Run.apply at hsmall
      omega
    · have happly : r.apply n = r.target := by
        unfold Run.apply
        omega
      rw [happly, hrule]
  · rfl

/-- The rule for an ASCII character. -/
theorem ascii_of_lt (h : IsSound rule runs) {c : Char} (hc : c.toNat < 128) :
    change rule runs c = rule c ∧ (rule c).toNat < 128 ∧ rule (rule c) = rule c ∧
      if c.isAlphanum then (rule c).isAlphanum = true else rule c = c :=
  ⟨if_pos hc, of_forall_ascii c hc h.ascii⟩

theorem isAlphanumeric_of_lt {c : Char} (hc : c.toNat < 128) : isAlphanumeric c = c.isAlphanum :=
  if_pos hc

variable (rule runs) in
/-- A character beyond ASCII is mapped by a run, or stays as it is. -/
theorem change_cases {c : Char} (hc : ¬c.toNat < 128) :
    (∃ r ∈ runs, r.contains c.toNat = true ∧
      change rule runs c = Char.ofNat (r.apply c.toNat)) ∨ change rule runs c = c := by
  rw [change, if_neg hc]
  obtain ⟨r, hr, hn, heq⟩ | ⟨-, heq⟩ := mapped_cases runs c.toNat
  · exact .inl ⟨r, hr, hn, congrArg Char.ofNat heq⟩
  · rw [heq, Char.ofNat_toNat]
    exact .inr rfl

theorem isCaseChange (h : IsSound rule runs) : IsCaseChange (change rule runs) where
  idem c := by
    by_cases hc : c.toNat < 128
    · obtain ⟨hchange, hsmall, hidem, -⟩ := h.ascii_of_lt hc
      rw [hchange, (h.ascii_of_lt hsmall).1, hidem]
    · obtain ⟨r, hr, hn, heq⟩ | heq := change_cases rule runs hc
      · rw [heq, h.change_apply hr hn]
      · rw [heq, heq]
  word c hword := by
    by_cases hc : c.toNat < 128
    · obtain ⟨hchange, hsmall, -, hkind⟩ := h.ascii_of_lt hc
      rw [isAlphanumeric_of_lt hc] at hword
      rw [hchange, isAlphanumeric_of_lt hsmall]
      rwa [if_pos hword] at hkind
    · obtain ⟨r, hr, hn, heq⟩ | heq := change_cases rule runs hc
      · rw [heq]
        exact (h.isAlphanumeric_apply hr hn).2
      · rwa [heq]
  other c hother := by
    by_cases hc : c.toNat < 128
    · obtain ⟨hchange, -, -, hkind⟩ := h.ascii_of_lt hc
      rw [isAlphanumeric_of_lt hc] at hother
      rw [hchange]
      rwa [if_neg (Bool.eq_false_iff.1 hother)] at hkind
    · obtain ⟨r, hr, hn, -⟩ | heq := change_cases rule runs hc
      · have hword := h.isAlphanumeric_of_contains hr hn
        rw [Char.ofNat_toNat, hother] at hword
        cases hword
      · exact heq

end IsSound

theorem isSound_upper : IsSound Char.toUpper upperRuns where
  ascii := by decide
  small := by decide +kernel
  words := by decide +kernel
  images := by decide +kernel
  apart := by decide +kernel

theorem isSound_lower : IsSound Char.toLower lowerRuns where
  ascii := by decide
  small := by decide +kernel
  words := by decide +kernel
  images := by decide +kernel
  apart := by decide +kernel

end LetterCase

theorem isCaseChange_toUpper : IsCaseChange toUpper := LetterCase.isSound_upper.isCaseChange

theorem isCaseChange_toLower : IsCaseChange toLower := LetterCase.isSound_lower.isCaseChange

end SchemaRecords.Text
