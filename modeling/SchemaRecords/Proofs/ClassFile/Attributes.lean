import SchemaRecords.ClassFile.Image
import SchemaRecords.Proofs.ClassFile.Writing

/-!
# Attributes that are read back

What an index was asked for is read from it, and an attribute that was written is
read with its name and its body. Tables of items with their count are read back
item by item (`Writes.list`), attributes by the name that was asked for
(`Writes.named`).
-/

namespace SchemaRecords.ClassFile

/-! ## Names and attributes -/

section Attributes

variable {t : ConstantTable} {i : UInt16} {name : String} {data : Bytes}

theorem reads_readUtf8 (h : t.utf8 i = .ok name) :
    Reads t.readUtf8 (Bytes.ofUInt16 i) name := by
  have := (reads_u16 i).bind (f := fun i => Read.ofExcept (t.utf8 i)) (Reads.ofExcept h)
  rwa [List.append_nil] at this

theorem reads_readClassName (h : t.className i = .ok name) :
    Reads t.readClassName (Bytes.ofUInt16 i) name := by
  have := (reads_u16 i).bind (f := fun i => Read.ofExcept (t.className i)) (Reads.ofExcept h)
  rwa [List.append_nil] at this

theorem reads_readAttribute (hname : t.utf8 i = .ok name) (hdata : data.length < 4294967296) :
    Reads t.readAttribute
      (Bytes.ofUInt16 i ++ Bytes.ofUInt32 data.length.toUInt32 ++ data) ⟨name, data⟩ := by
  have hlength : data.length.toUInt32.toNat = data.length := by
    simp
    omega
  rw [List.append_assoc]
  refine (reads_readUtf8 hname).bind ((reads_u32 _).bind ?_)
  rw [hlength]
  exact (reads_bytes data).map

theorem reads_readAttributes_nil : Reads t.readAttributes (Bytes.ofUInt16 0) [] := by
  have := reads_list (r := t.readAttribute) (n := 0) .nil rfl
  rwa [List.append_nil] at this

theorem reads_readAttributes_one {a : RawAttribute} (h : Reads t.readAttribute data a) :
    Reads t.readAttributes (Bytes.ofUInt16 1 ++ data) [a] :=
  reads_list (.single h) rfl

theorem reads_readMember {access nameIndex descriptorIndex : UInt16} {descriptor : String}
    {attributes : List RawAttribute} (hname : t.utf8 nameIndex = .ok name)
    (hdescriptor : t.utf8 descriptorIndex = .ok descriptor)
    (h : Reads t.readAttributes data attributes) :
    Reads t.readMember
      (Bytes.ofUInt16 access ++ Bytes.ofUInt16 nameIndex ++ Bytes.ofUInt16 descriptorIndex ++ data)
      ⟨access, name, descriptor, attributes⟩ := by
  rw [List.append_assoc, List.append_assoc]
  exact (reads_u16 access).bind
    ((reads_readUtf8 hname).bind ((reads_readUtf8 hdescriptor).bind h.map))

/-- An item read from the start of an attribute's body is the body's content. -/
theorem readFrom_of_reads {α : Type} {item : Read α} {a : α} (h : Reads item data a) :
    Image.readFrom ⟨name, data⟩ item = .ok a := by
  have := h 0 []
  rw [List.append_nil] at this
  unfold Image.readFrom
  rw [Cursor.ofBytes, this]

end Attributes

namespace Writes

/-- Items are read back after their count. -/
theorem list {α : Type} {f : α → Write Unit} {r : ConstantTable → Read α} (what : Countable)
    (hf : ∀ a, Writes (f a) fun t bs => Reads (r t) bs a) (as : List α) :
    Writes (do Write.count what as.length; as.forM f)
      fun t bs => Reads (Read.list (r t)) bs as := by
  refine ((count what as.length).bind (forM hf as)).mono ?_
  rintro t bs ⟨b, c, rfl, ⟨rfl, hlt⟩, pieces, rfl, hpieces⟩
  refine reads_list (.flatten hpieces) ?_
  simp
  omega

/-- An attribute of a name that was asked for is read with that name. -/
theorem named {w : Write Unit} {Q : ConstantTable → Bytes → Prop} (i : UInt16)
    (hw : Writes w Q) :
    Writes (Write.inAttribute i w) fun t bs => ∀ name, t.utf8 i = .ok name →
      ∃ data, Reads t.readAttribute bs ⟨name, data⟩ ∧ data.length < 4294967296 ∧ Q t data := by
  refine (inAttribute i hw).mono ?_
  rintro t bs ⟨data, rfl, hlt, hQ⟩ name hname
  exact ⟨data, reads_readAttribute hname hlt, hlt, hQ⟩

end Writes

end SchemaRecords.ClassFile
