import SchemaRecords.Proofs.ClassFile.ByteGroups
import SchemaRecords.Proofs.Text.Utf16

/-!
# The language of modified UTF-8

* `encodedLength_eq`: the length of the bytes is known without writing them.
* `decode_recognises_groups`: the decoder accepts exactly the sequences of groups whose
  payloads are the code units of a text, and else finds fault inside the bytes.
* `encode_is_lossless`: what is written is read back, and some bytes never occur in it.
-/

namespace SchemaRecords.ClassFile.ModifiedUtf8

/-! ## Lengths -/

theorem length_encodeUnit (u : UInt16) : (encodeUnit u).length = unitLength u := by
  unfold encodeUnit unitLength
  split
  · rfl
  · split <;> rfl

theorem encodedLength_eq (text : String) : encodedLength text = (encode text).length := by
  have h : ∀ (us : List UInt16) (n : Nat),
      us.foldl (fun n u => n + unitLength u) n = n + (us.flatMap encodeUnit).length := by
    intro us
    induction us with
    | nil => simp
    | cons u us ih =>
      intro n
      rw [List.foldl_cons, ih, List.flatMap_cons, List.length_append, length_encodeUnit]
      omega
  rw [encodedLength, h, encode]
  omega

theorem length_encodeUnit_le (u : UInt16) : (encodeUnit u).length ≤ 3 := by
  rw [length_encodeUnit, unitLength]
  split
  · omega
  · split <;> omega

/-- A character has at most two units. -/
theorem length_encode_units_le (c : Char) :
    ((Text.Utf16.units c).flatMap encodeUnit).length ≤ 6 := by
  unfold Text.Utf16.units
  split
  · have := length_encodeUnit_le c.toNat.toUInt16
    rw [List.flatMap_singleton]
    omega
  · have := length_encodeUnit_le (0xD800 + (c.toNat - 0x10000) / 1024).toUInt16
    have := length_encodeUnit_le (0xDC00 + (c.toNat - 0x10000) % 1024).toUInt16
    simp only [List.flatMap_cons, List.flatMap_nil, List.length_append, List.length_nil]
    omega

/-- A text takes at most six times the bytes that it takes in plain UTF-8. -/
theorem encodedLength_le (text : String) : encodedLength text ≤ text.utf8ByteSize * 6 := by
  rw [encodedLength_eq, encode, ← String.ofList_toList (s := text), String.toList_ofList]
  induction text.toList with
  | nil => exact Nat.zero_le _
  | cons c cs ih =>
    have hsplit : String.ofList (c :: cs) = String.singleton c ++ String.ofList cs := by
      rw [String.singleton_eq_ofList, ← String.ofList_append]
      rfl
    have hsize := c.utf8Size_pos
    have hchar := length_encode_units_le c
    rw [Text.Utf16.encode] at ih ⊢
    rw [hsplit, String.utf8ByteSize_append, String.utf8ByteSize_singleton, List.flatMap_cons,
      List.flatMap_append, List.length_append]
    omega

/-! ## What is accepted -/

/-- Bytes are decoded to a text exactly if they are groups of its code units. -/
theorem decode_eq_ok_iff {bytes : Bytes} {offset : Nat} {text : String} :
    decode bytes offset = .ok text ↔ Groups bytes (Text.Utf16.encode text.toList) := by
  constructor
  · intro h
    unfold decode at h
    have houtcome := outcome_unitsFrom offset [] bytes
    cases hunits : unitsFrom offset [] bytes with
    | error e =>
      rw [hunits] at h
      cases h
    | ok units =>
      rw [hunits] at h houtcome
      cases houtcome with
      | @read units hgroups =>
        dsimp only at h
        split at h
        · rename_i chars hchars
          cases h
          rw [String.toList_ofList, ← Text.Utf16.decode?_eq_some_iff.1 hchars]
          exact hgroups
        · cases h
  · intro h
    rw [decode, unitsFrom_groups h]
    dsimp only
    rw [List.reverse_nil, List.nil_append, Text.Utf16.decode?_encode]
    simp

/-- If bytes are not decoded, the fault is inside them or at their end. -/
theorem exists_fault_of_decode {bytes : Bytes} {offset : Nat} {e : Error}
    (h : decode bytes offset = .error e) :
    ∃ place, e = .invalidText place ∧ offset ≤ place ∧ place ≤ offset + bytes.length := by
  unfold decode at h
  have houtcome := outcome_unitsFrom offset [] bytes
  cases hunits : unitsFrom offset [] bytes with
  | error e' =>
    rw [hunits] at h houtcome
    cases h
    cases houtcome with
    | fault h =>
      have := h.le
      exact ⟨_, rfl, by omega, by omega⟩
  | ok units =>
    rw [hunits] at h
    dsimp only at h
    split at h
    · cases h
    · -- a surrogate without its partner is reported at the first byte
      cases h
      exact ⟨offset, rfl, Nat.le_refl _, Nat.le_add_right _ _⟩

/-- Text survives the way to bytes and back, wherever the bytes stand. -/
theorem decode_encode (text : String) (offset : Nat) : decode (encode text) offset = .ok text :=
  decode_eq_ok_iff.2 (groups_flatMap _)

/-- **What the decoder accepts.** It gives a text exactly if the bytes are groups whose payloads
are the code units of that text in order, and in every other case it reports a place that is not
before the bytes and not beyond their end. -/
theorem decode_recognises_groups (bytes : Bytes) (offset : Nat) :
    (∀ text : String,
      decode bytes offset = .ok text ↔ Groups bytes (Text.Utf16.encode text.toList)) ∧
    ((¬∃ text : String, Groups bytes (Text.Utf16.encode text.toList)) →
      ∃ place, decode bytes offset = .error (.invalidText place) ∧ offset ≤ place ∧
        place ≤ offset + bytes.length) := by
  refine ⟨fun text => decode_eq_ok_iff, fun hnone => ?_⟩
  cases hdecode : decode bytes offset with
  | ok text => exact absurd ⟨text, decode_eq_ok_iff.1 hdecode⟩ hnone
  | error e =>
    obtain ⟨place, rfl, hlow, hhigh⟩ := exists_fault_of_decode hdecode
    exact ⟨place, rfl, hlow, hhigh⟩

/-- **What the encoder writes.** Every text is read back from its bytes, wherever they stand; their
number is the one computed without writing them; and none of them is zero or above `0xEF`. -/
theorem encode_is_lossless (text : String) (offset : Nat) :
    decode (encode text) offset = .ok text ∧ (encode text).length = encodedLength text ∧
      ∀ b ∈ encode text, b ≠ 0 ∧ b ≤ 0xEF :=
  ⟨decode_encode text offset, (encodedLength_eq text).symm, (groups_flatMap _).byte_bounds⟩

end SchemaRecords.ClassFile.ModifiedUtf8
