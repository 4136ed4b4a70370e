import SchemaRecords.Text.Utf16

/-!
# UTF-16 can be read back

* `units_of_small`, `units_of_large`: the code units of a character can be told
  apart and stand for the character.
* `decode?_encode`: text survives the way to code units and back.
* `decode?_eq_some_iff`: only the code units of a text are read as that text.
* `decode?_eq_none_iff`: units are refused where a half of a pair stands alone.
-/

namespace SchemaRecords.Text.Utf16

/-- A unit that is half of a pair has a number from 0xD800 to 0xDFFF. -/
theorem isHigh_iff (u : UInt16) : isHigh u = true ↔ 0xD800 ≤ u.toNat ∧ u.toNat < 0xDC00 := by
  simp [isHigh, UInt16.le_iff_toNat_le, UInt16.lt_iff_toNat_lt]

theorem isLow_iff (u : UInt16) : isLow u = true ↔ 0xDC00 ≤ u.toNat ∧ u.toNat < 0xE000 := by
  simp [isLow, UInt16.le_iff_toNat_le, UInt16.lt_iff_toNat_lt]

theorem isLow_of_isHigh {u : UInt16} (h : isHigh u = true) : isLow u = false := by
  rw [isHigh_iff] at h
  rw [← Bool.not_eq_true, isLow_iff]
  omega

/-- Characters are not surrogates. -/
theorem toNat_cases (c : Char) : c.toNat < 0x110000 ∧ (c.toNat < 0xD800 ∨ 0xDFFF < c.toNat) := by
  have := c.valid
  simp only [UInt32.isValidChar, Nat.isValidChar] at this
  simp only [Char.toNat]
  omega

theorem units_of_small {c : Char} (h : c.toNat < 0x10000) :
    isHigh c.toNat.toUInt16 = false ∧ isLow c.toNat.toUInt16 = false ∧
      Char.ofNat c.toNat.toUInt16.toNat = c := by
  have hc := toNat_cases c
  have hu : c.toNat.toUInt16.toNat = c.toNat := by simp; omega
  refine ⟨?_, ?_, ?_⟩
  · rw [← Bool.not_eq_true, isHigh_iff, hu]
    omega
  · rw [← Bool.not_eq_true, isLow_iff, hu]
    omega
  · rw [hu, Char.ofNat_toNat]

theorem units_of_large {c : Char} (h : 0x10000 ≤ c.toNat) :
    isHigh (0xD800 + (c.toNat - 0x10000) / 1024).toUInt16 = true ∧
      isLow (0xDC00 + (c.toNat - 0x10000) % 1024).toUInt16 = true ∧
      pair (0xD800 + (c.toNat - 0x10000) / 1024).toUInt16
        (0xDC00 + (c.toNat - 0x10000) % 1024).toUInt16 = c := by
  have hc := toNat_cases c
  have hu : (0xD800 + (c.toNat - 0x10000) / 1024).toUInt16.toNat
      = 0xD800 + (c.toNat - 0x10000) / 1024 := by simp; omega
  have hv : (0xDC00 + (c.toNat - 0x10000) % 1024).toUInt16.toNat
      = 0xDC00 + (c.toNat - 0x10000) % 1024 := by simp; omega
  refine ⟨?_, ?_, ?_⟩
  · rw [isHigh_iff, hu]
    omega
  · rw [isLow_iff, hv]
    omega
  · have hp : 0x10000 + (0xD800 + (c.toNat - 0x10000) / 1024 - 0xD800) * 1024
        + (0xDC00 + (c.toNat - 0x10000) % 1024 - 0xDC00) = c.toNat := by omega
    rw [pair, hu, hv, hp, Char.ofNat_toNat]

theorem decodeFrom_single (done : List Char) {u : UInt16} (rest : List UInt16)
    (hh : isHigh u = false) (hl : isLow u = false) :
    decodeFrom done (u :: rest) = decodeFrom (Char.ofNat u.toNat :: done) rest := by
  cases rest <;> simp [decodeFrom, hh, hl]

theorem decodeFrom_pair (done : List Char) {u v : UInt16} (rest : List UInt16)
    (hh : isHigh u = true) (hl : isLow v = true) :
    decodeFrom done (u :: v :: rest) = decodeFrom (pair u v :: done) rest := by
  simp [decodeFrom, hh, hl]

theorem decodeFrom_units (done : List Char) (c : Char) (rest : List UInt16) :
    decodeFrom done (units c ++ rest) = decodeFrom (c :: done) rest := by
  unfold units
  split
  · rename_i h
    obtain ⟨hh, hl, hc⟩ := units_of_small h
    rw [List.singleton_append, decodeFrom_single done rest hh hl, hc]
  · rename_i h
    obtain ⟨hh, hl, hc⟩ := units_of_large (Nat.le_of_not_lt h)
    simp only [List.cons_append, List.nil_append]
    rw [decodeFrom_pair done rest hh hl, hc]

theorem decodeFrom_encode (done text : List Char) :
    decodeFrom done (encode text) = some (done.reverse ++ text) := by
  induction text generalizing done with
  | nil => simp [encode, decodeFrom]
  | cons c text ih =>
    show decodeFrom done (units c ++ encode text) = _
    rw [decodeFrom_units, ih]
    simp

/-- Text survives the way to code units and back. -/
theorem decode?_encode (text : List Char) : decode? (encode text) = some text := by
  rw [decode?, decodeFrom_encode]
  rfl

/-! ## What can be read -/

theorem toNat_ofNat {n : Nat} (h : n < 0xD800 ∨ 0xDFFF < n ∧ n < 0x110000) :
    (Char.ofNat n).toNat = n := by
  have hchar : Char.ofNat n = Char.ofNatAux n h := dif_pos h
  rw [hchar]
  rfl

/-- A unit that is no half of a pair is the character of its number. -/
theorem units_ofNat {u : UInt16} (hh : isHigh u = false) (hl : isLow u = false) :
    units (Char.ofNat u.toNat) = [u] := by
  have hu := u.toNat_lt
  rw [← Bool.not_eq_true, isHigh_iff] at hh
  rw [← Bool.not_eq_true, isLow_iff] at hl
  have hc : (Char.ofNat u.toNat).toNat = u.toNat := toNat_ofNat (by omega)
  rw [units, hc, if_pos (by omega)]
  simp

theorem units_pair {u v : UInt16} (hh : isHigh u = true) (hl : isLow v = true) :
    units (pair u v) = [u, v] := by
  rw [isHigh_iff] at hh
  rw [isLow_iff] at hl
  have hc : (pair u v).toNat = 0x10000 + (u.toNat - 0xD800) * 1024 + (v.toNat - 0xDC00) :=
    toNat_ofNat (by omega)
  have hhigh : 0xD800 + ((pair u v).toNat - 0x10000) / 1024 = u.toNat := by omega
  have hlow : 0xDC00 + ((pair u v).toNat - 0x10000) % 1024 = v.toNat := by omega
  rw [units, if_neg (by omega)]
  dsimp only
  rw [hhigh, hlow]
  simp

theorem exists_of_decodeFrom {done text : List Char} {us : List UInt16}
    (h : decodeFrom done us = some text) :
    ∃ rest, text = done.reverse ++ rest ∧ us = encode rest := by
  fun_induction decodeFrom done us with
  | case1 done =>
    cases h
    exact ⟨[], (List.append_nil _).symm, rfl⟩
  | case2 => cases h
  | case3 done u hh v rest hl ih =>
    obtain ⟨tail, rfl, rfl⟩ := ih h
    refine ⟨pair u v :: tail, by simp, ?_⟩
    show _ = units (pair u v) ++ encode tail
    rw [units_pair hh hl]
    rfl
  | case4 => cases h
  | case5 => cases h
  | case6 done u rest hh hl ih =>
    obtain ⟨tail, rfl, rfl⟩ := ih h
    refine ⟨Char.ofNat u.toNat :: tail, by simp, ?_⟩
    show _ = units (Char.ofNat u.toNat) ++ encode tail
    rw [units_ofNat (Bool.eq_false_iff.2 hh) (Bool.eq_false_iff.2 hl)]
    rfl

/-- Only the code units of a text are read as that text. -/
theorem decode?_eq_some_iff {us : List UInt16} {text : List Char} :
    decode? us = some text ↔ us = encode text := by
  constructor
  · intro h
    obtain ⟨rest, rfl, rfl⟩ := exists_of_decodeFrom h
    rfl
  · rintro rfl
    exact decode?_encode text

/-! ## What cannot be read -/

/-- The unit is half of a pair, and the units `rest` after it do not begin with its partner. -/
def IsAlone (u : UInt16) (rest : List UInt16) : Prop :=
  isLow u = true ∨ isHigh u = true ∧ ∀ v ∈ rest.head?, isLow v = false

theorem decodeFrom_append (done text : List Char) (rest : List UInt16) :
    decodeFrom done (encode text ++ rest) = decodeFrom (text.reverse ++ done) rest := by
  induction text generalizing done with
  | nil => rfl
  | cons c text ih =>
    show decodeFrom done ((units c ++ encode text) ++ rest) = _
    rw [List.append_assoc, decodeFrom_units, ih]
    simp

theorem decodeFrom_alone (done : List Char) {u : UInt16} {rest : List UInt16}
    (h : IsAlone u rest) : decodeFrom done (u :: rest) = none := by
  obtain hl | ⟨hh, hnext⟩ := h
  · have hh : isHigh u = false := by
      rw [← Bool.not_eq_true]
      intro hh
      rw [isLow_of_isHigh hh] at hl
      cases hl
    cases rest <;> simp [decodeFrom, hh, hl]
  · cases rest with
    | nil => simp [decodeFrom, hh]
    | cons v rest => simp [decodeFrom, hh, hnext v rfl]

theorem exists_alone_of_decodeFrom {done : List Char} {us : List UInt16}
    (h : decodeFrom done us = none) :
    ∃ text u rest, us = encode text ++ u :: rest ∧ IsAlone u rest := by
  fun_induction decodeFrom done us with
  | case1 => cases h
  | case2 done u hh => exact ⟨[], u, [], rfl, .inr ⟨hh, by simp⟩⟩
  | case3 done u hh v rest hl ih =>
    obtain ⟨text, w, tail, rfl, halone⟩ := ih h
    refine ⟨pair u v :: text, w, tail, ?_, halone⟩
    show _ = (units (pair u v) ++ encode text) ++ w :: tail
    rw [units_pair hh hl]
    rfl
  | case4 done u hh v rest hl => exact ⟨[], u, v :: rest, rfl, .inr ⟨hh, by simpa using hl⟩⟩
  | case5 done u rest hh hl => exact ⟨[], u, rest, rfl, .inl hl⟩
  | case6 done u rest hh hl ih =>
    obtain ⟨text, w, tail, rfl, halone⟩ := ih h
    refine ⟨Char.ofNat u.toNat :: text, w, tail, ?_, halone⟩
    show _ = (units (Char.ofNat u.toNat) ++ encode text) ++ w :: tail
    rw [units_ofNat (Bool.eq_false_iff.2 hh) (Bool.eq_false_iff.2 hl)]
    rfl

/-- Units are refused exactly if, after those of some text, a half of a pair stands alone. -/
theorem decode?_eq_none_iff {us : List UInt16} :
    decode? us = none ↔ ∃ text u rest, us = encode text ++ u :: rest ∧ IsAlone u rest := by
  constructor
  · exact exists_alone_of_decodeFrom
  · rintro ⟨text, u, rest, rfl, halone⟩
    rw [decode?, decodeFrom_append, decodeFrom_alone _ halone]

/-- The units of a character do not begin with one that stands alone. -/
theorem not_isAlone_units {c : Char} {us rest : List UInt16} {u : UInt16}
    (h : units c ++ us = u :: rest) : ¬IsAlone u rest := by
  unfold units at h
  split at h
  · rename_i hc
    obtain ⟨hh, hl, -⟩ := units_of_small hc
    obtain ⟨rfl, -⟩ := List.cons.inj h
    simp [IsAlone, hh, hl]
  · rename_i hc
    obtain ⟨hh, hl, -⟩ := units_of_large (Nat.le_of_not_lt hc)
    obtain ⟨rfl, rfl⟩ := List.cons.inj h
    rintro (hlow | ⟨-, hnext⟩)
    · rw [isLow_of_isHigh hh] at hlow
      cases hlow
    · have hlow := hnext _ rfl
      rw [hl] at hlow
      cases hlow

/-- Which character units begin with can be told from them. -/
theorem units_append_inj {c c' : Char} {us us' : List UInt16}
    (h : units c ++ us = units c' ++ us') : c = c' ∧ us = us' := by
  unfold units at h
  split at h
  · rename_i hc
    obtain ⟨hh, -, hchar⟩ := units_of_small hc
    split at h
    · rename_i hc'
      obtain ⟨-, -, hchar'⟩ := units_of_small hc'
      obtain ⟨hu, hus⟩ := List.cons.inj h
      exact ⟨hchar.symm.trans ((congrArg (fun u => Char.ofNat u.toNat) hu).trans hchar'), hus⟩
    · rename_i hc'
      obtain ⟨hu, -⟩ := List.cons.inj h
      rw [hu, (units_of_large (Nat.le_of_not_lt hc')).1] at hh
      cases hh
  · rename_i hc
    obtain ⟨hh, -, hchar⟩ := units_of_large (Nat.le_of_not_lt hc)
    split at h
    · rename_i hc'
      obtain ⟨hu, -⟩ := List.cons.inj h
      rw [hu, (units_of_small hc').1] at hh
      cases hh
    · rename_i hc'
      obtain ⟨-, -, hchar'⟩ := units_of_large (Nat.le_of_not_lt hc')
      obtain ⟨hu, hrest⟩ := List.cons.inj h
      obtain ⟨hv, hus⟩ := List.cons.inj hrest
      rw [hu, hv] at hchar
      exact ⟨hchar.symm.trans hchar', hus⟩

/-- There is only one text before the first unit that stands alone. -/
theorem text_eq_of_isAlone {text text' : List Char} {u u' : UInt16} {rest rest' : List UInt16}
    (h : encode text ++ u :: rest = encode text' ++ u' :: rest') (hu : IsAlone u rest)
    (hu' : IsAlone u' rest') : text = text' := by
  induction text generalizing text' with
  | nil =>
    cases text' with
    | nil => rfl
    | cons c text' =>
      have h : u :: rest = units c ++ (encode text' ++ u' :: rest') := by
        rw [← List.append_assoc]
        exact h
      exact absurd hu (not_isAlone_units h.symm)
  | cons c text ih =>
    replace h : units c ++ (encode text ++ u :: rest) = encode text' ++ u' :: rest' := by
      rw [← List.append_assoc]
      exact h
    cases text' with
    | nil => exact absurd hu' (not_isAlone_units h)
    | cons c' text' =>
      replace h : units c ++ (encode text ++ u :: rest) =
          units c' ++ (encode text' ++ u' :: rest') := by
        rw [← List.append_assoc (units c')]
        exact h
      obtain ⟨rfl, htail⟩ := units_append_inj h
      rw [ih htail]

end SchemaRecords.Text.Utf16
