import SchemaRecords.Proofs.ClassFile.Pool
import SchemaRecords.Proofs.ClassFile.Reading

/-!
# A constant pool can be read back

* `reads_readEntry`: the bytes of a constant are read as that constant.
* `reads_encode`: the bytes of a valid pool are read as its entries, at the same indices.
-/

namespace SchemaRecords.ClassFile

/-- What a read gives may not depend on where it starts. -/
theorem Reads.position_bind {α : Type} {f : Nat → Read α} {bs : Bytes} {a : α}
    (h : ∀ n, Reads (f n) bs a) : Reads (Read.position >>= f) bs a := by
  intro position rest
  exact h position position rest

theorem HandleKind.ofCode?_code (kind : HandleKind) : ofCode? kind.code = some kind := by
  cases kind <;> rfl

namespace ConstantTable

/-- Two words that a constant is made from. -/
theorem reads_pair (f : UInt16 → UInt16 → Constant) (m n : UInt16) :
    Reads (do let a ← Read.u16; let b ← Read.u16; pure (f a b))
      (Bytes.ofUInt16 m ++ Bytes.ofUInt16 n) (f m n) :=
  (reads_u16 m).bind (reads_u16 n).map

theorem reads_text {text : String} (h : ModifiedUtf8.encodedLength text ≤ 65535) :
    Reads (do
        let length ← Read.u16
        let start ← Read.position
        let bytes ← Read.bytes length.toNat
        let text ← Read.ofExcept (ModifiedUtf8.decode bytes start)
        pure (Constant.utf8 text))
      (Constant.utf8 text).body (.utf8 text) := by
  rw [ModifiedUtf8.encodedLength_eq] at h
  have hlength : (ModifiedUtf8.encode text).length.toUInt16.toNat
      = (ModifiedUtf8.encode text).length := by
    simp
    omega
  refine (reads_u16 _).bind (Reads.position_bind fun start => ?_)
  rw [hlength]
  have htext := Reads.ofExcept (ModifiedUtf8.decode_encode text start)
  have h := (reads_bytes (ModifiedUtf8.encode text)).bind
    (f := fun bytes => do
      let text ← Read.ofExcept (ModifiedUtf8.decode bytes start)
      pure (Constant.utf8 text)) (htext.map (f := Constant.utf8))
  rwa [List.append_nil] at h

/-- The bytes of a constant are read as that constant. -/
theorem reads_readEntry {c : Constant} (hc : Pool.Writable c) (i : UInt16) :
    Reads (readEntry i) c.encode c := by
  unfold readEntry Constant.encode
  refine reads_cons ?_
  cases c with
  | utf8 text => exact reads_text hc
  | integer value => exact (reads_i32 value).map
  | classRef name => exact (reads_u16 name).map
  | string text => exact (reads_u16 text).map
  | fieldRef owner nat => exact reads_pair .fieldRef owner nat
  | methodRef owner nat => exact reads_pair .methodRef owner nat
  | nameAndType name descriptor => exact reads_pair .nameAndType name descriptor
  | methodHandle kind reference =>
    refine reads_cons ?_
    rw [HandleKind.ofCode?_code]
    exact (reads_u16 reference).map
  | invokeDynamic bootstrap nat => exact reads_pair .invokeDynamic bootstrap nat

/-- The entries that are read come after those already there. -/
theorem readFrom_eq_ok (entries : List Constant) (h : ∀ c ∈ entries, Pool.Writable c)
    (before : Array Constant) (position : Nat) (rest : Bytes) :
    readFrom entries.length before ⟨position, entries.flatMap Constant.encode ++ rest⟩
      = .ok (before ++ entries,
          ⟨position + (entries.flatMap Constant.encode).length, rest⟩) := by
  induction entries generalizing before position with
  | nil => simp [readFrom]
  | cons c entries ih =>
    rw [List.length_cons, readFrom, List.flatMap_cons, List.append_assoc,
      reads_readEntry (h c (by simp))]
    simp only
    rw [ih (fun d hd => h d (by simp [hd])), List.length_append, Nat.add_assoc]
    simp

/-- The bytes of a valid pool are read as its entries. -/
theorem reads_encode {p : Pool} (hp : p.Valid) : Reads read p.encode p.table := by
  have hsize := hp.size_le
  unfold Pool.capacity at hsize
  have hcount : (p.entries.size + 1).toUInt16.toNat - 1 = p.entries.toList.length := by
    simp
    omega
  have hentries : Reads (readFrom p.entries.toList.length #[])
      (p.entries.toList.flatMap Constant.encode) p.entries := by
    intro position rest
    rw [readFrom_eq_ok]
    · simp
    · intro c hc
      cases c with
      | utf8 text => exact hp.fits text (by simpa using hc)
      | _ => trivial
  refine (reads_u16 _).bind ?_
  rw [hcount]
  exact hentries.map (f := ConstantTable.mk)

end ConstantTable

end SchemaRecords.ClassFile
