/-!
# The order of texts is that of their UTF-8 bytes

Texts are compared character by character, and characters by their code points.
UTF-8 keeps this order: `utf8_lt_of_lt`.
-/

namespace SchemaRecords.Text

/-- The bytes of a text in UTF-8. -/
def utf8 (s : String) : List UInt8 := s.toByteArray.data.toList

theorem utf8_eq (s : String) : utf8 s = s.toList.flatMap String.utf8EncodeChar := by
  rw [utf8, ← String.utf8Encode_toList, List.utf8Encode]
  simp

/-- The encodings of two characters differ in a byte, and the first such byte decides. -/
theorem utf8EncodeChar_append_lt {c d : Char} (h : c < d) (s t : List UInt8) :
    String.utf8EncodeChar c ++ s < String.utf8EncodeChar d ++ t := by
  have hcd : c.val.toNat < d.val.toNat := h
  have hd : d.val.toNat < 0x110000 := by
    have := d.valid
    simp only [UInt32.isValidChar, Nat.isValidChar] at this
    omega
  unfold String.utf8EncodeChar
  generalize c.val.toNat = m at *
  generalize d.val.toNat = n at *
  -- no byte overflows, and the first byte of four holds all the highest bits
  have hlast : ∀ k, (k % 64 + 128) % 256 = k % 64 + 128 := by omega
  have htwo : ∀ k, (k % 32 + 192) % 256 = k % 32 + 192 := by omega
  have hthree : ∀ k, (k % 16 + 224) % 256 = k % 16 + 224 := by omega
  have hm : (m / 262144 % 8 + 240) % 256 = m / 262144 + 240 := by omega
  have hn : (n / 262144 % 8 + 240) % 256 = n / 262144 + 240 := by omega
  dsimp only
  repeat' split
  all_goals
    simp only [List.cons_append, List.nil_append, List.cons_lt_cons_iff, UInt8.lt_iff_toNat_lt,
      UInt8.toNat_ofNat', ← UInt8.toNat_inj, Nat.reducePow, hlast, htwo, hthree, hm, hn]
    omega

theorem append_lt_append_left (s : List UInt8) {t u : List UInt8} (h : t < u) : s ++ t < s ++ u := by
  induction s with
  | nil => exact h
  | cons b s ih => exact List.cons_lt_cons_iff.2 (.inr ⟨rfl, ih⟩)

theorem flatMap_utf8EncodeChar_lt {cs ds : List Char} (h : cs < ds) :
    cs.flatMap String.utf8EncodeChar < ds.flatMap String.utf8EncodeChar := by
  induction cs generalizing ds with
  | nil =>
    cases ds with
    | nil => exact absurd h (List.lt_irrefl _)
    | cons d ds =>
      rw [List.flatMap_nil, List.flatMap_cons]
      cases hd : String.utf8EncodeChar d with
      | nil => exact absurd hd (String.utf8EncodeChar_ne_nil)
      | cons b rest => exact List.nil_lt_cons _ _
  | cons c cs ih =>
    cases ds with
    | nil => exact absurd h (List.not_lt_nil _)
    | cons d ds =>
      rw [List.flatMap_cons, List.flatMap_cons]
      obtain hlt | ⟨rfl, hrest⟩ := List.cons_lt_cons_iff.1 h
      · exact utf8EncodeChar_append_lt hlt _ _
      · exact append_lt_append_left _ (ih hrest)

/-- UTF-8 keeps the order of texts. -/
theorem utf8_lt_of_lt {s t : String} (h : s < t) : utf8 s < utf8 t := by
  rw [utf8_eq, utf8_eq]
  exact flatMap_utf8EncodeChar_lt (String.lt_iff.1 h)

end SchemaRecords.Text
