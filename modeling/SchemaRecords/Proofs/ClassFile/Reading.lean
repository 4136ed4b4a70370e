import Mathlib.Data.List.Forall2
import SchemaRecords.ClassFile.Cursor

/-!
# Reads that undo writes

`Reads r bs a` says that the read `r`, started where the bytes `bs` begin, gives
`a` and takes exactly `bs`, whatever stands before and after. The statement is
closed under sequencing (`Reads.bind`), so the reader of a table is related to
the bytes of the table piece by piece.

* `reads_u16`, `reads_u32`, `reads_i32`: words are read back as they were written.
* `reads_times`, `reads_list`: so are sequences of items, with or without their count.
-/

namespace SchemaRecords.ClassFile

namespace Bytes

@[simp]
theorem length_ofUInt16 (n : UInt16) : (ofUInt16 n).length = 2 := rfl

@[simp]
theorem length_ofUInt32 (n : UInt32) : (ofUInt32 n).length = 4 := rfl

theorem toNat_ofUInt16 (n : UInt16) : toNat (ofUInt16 n) = n.toNat := by
  have := n.toNat_lt
  simp [toNat, ofUInt16, Nat.shiftRight_eq_div_pow]
  omega

theorem toNat_ofUInt32 (n : UInt32) : toNat (ofUInt32 n) = n.toNat := by
  have := n.toNat_lt
  simp [toNat, ofUInt32, Nat.shiftRight_eq_div_pow]
  omega

end Bytes

/-- The read `r` takes exactly the bytes `bs` and gives `a`. -/
def Reads {α : Type} (r : Read α) (bs : Bytes) (a : α) : Prop :=
  ∀ position rest, r ⟨position, bs ++ rest⟩ = .ok (a, ⟨position + bs.length, rest⟩)

namespace Reads

variable {α β : Type}

theorem pure (a : α) : Reads (pure a) [] a := by
  intro position rest
  rfl

theorem bind {r : Read α} {f : α → Read β} {bs cs : Bytes} {a : α} {b : β}
    (hr : Reads r bs a) (hf : Reads (f a) cs b) : Reads (r >>= f) (bs ++ cs) b := by
  intro position rest
  show (r ⟨position, bs ++ cs ++ rest⟩ >>= fun x => f x.1 x.2) = _
  rw [List.append_assoc, hr position (cs ++ rest)]
  show f a ⟨position + bs.length, cs ++ rest⟩ = _
  rw [hf, List.length_append, Nat.add_assoc]

/-- A read that takes nothing may stand before another. -/
theorem bind_nil {r : Read α} {f : α → Read β} {cs : Bytes} {a : α} {b : β}
    (hr : Reads r [] a) (hf : Reads (f a) cs b) : Reads (r >>= f) cs b :=
  hr.bind hf

/-- The last step of a sequence only rearranges what was read. -/
theorem map {r : Read α} {f : α → β} {bs : Bytes} {a : α} (hr : Reads r bs a) :
    Reads (r >>= fun x => Pure.pure (f x)) bs (f a) := by
  have h := hr.bind (f := fun x => Pure.pure (f x)) (Reads.pure (f a))
  rwa [List.append_nil] at h

theorem ofExcept {x : Except Error α} {a : α} (h : x = .ok a) :
    Reads (Read.ofExcept x) [] a := by
  intro position rest
  rw [h]
  rfl

end Reads

/-! ## Words -/

theorem reads_bytes (bs : Bytes) : Reads (Read.bytes bs.length) bs bs := by
  intro position rest
  simp [Read.bytes]

theorem reads_u8 (b : UInt8) : Reads Read.u8 [b] b := by
  have h := (reads_bytes [b]).map (f := fun bs => (Bytes.toNat bs).toUInt8)
  have hb : (Bytes.toNat [b]).toUInt8 = b := by simp [Bytes.toNat]
  rwa [hb] at h

/-- The first byte is read before the others. -/
theorem reads_cons {β : Type} {f : UInt8 → Read β} {x : UInt8} {bs : Bytes} {b : β}
    (hf : Reads (f x) bs b) : Reads (Read.u8 >>= f) (x :: bs) b :=
  (reads_u8 x).bind hf

theorem reads_u16 (n : UInt16) : Reads Read.u16 (Bytes.ofUInt16 n) n := by
  have h := (reads_bytes (Bytes.ofUInt16 n)).map (f := fun bs => (Bytes.toNat bs).toUInt16)
  have hn : (Bytes.toNat (Bytes.ofUInt16 n)).toUInt16 = n := by
    rw [Bytes.toNat_ofUInt16]
    simp
  rwa [hn] at h

theorem reads_u32 (n : UInt32) : Reads Read.u32 (Bytes.ofUInt32 n) n := by
  have h := (reads_bytes (Bytes.ofUInt32 n)).map (f := fun bs => (Bytes.toNat bs).toUInt32)
  have hn : (Bytes.toNat (Bytes.ofUInt32 n)).toUInt32 = n := by
    rw [Bytes.toNat_ofUInt32]
    simp
  rwa [hn] at h

theorem reads_i32 (n : Int32) : Reads Read.i32 (Bytes.ofUInt32 n.toUInt32) n := by
  have h := (reads_u32 n.toUInt32).map (f := UInt32.toInt32)
  have hn : n.toUInt32.toInt32 = n := by simp
  rwa [hn] at h

/-! ## Sequences -/

/-- Items that stand one after the other, each with its own bytes. -/
inductive ReadsAll {α : Type} (r : Read α) : Bytes → List α → Prop
  | nil : ReadsAll r [] []
  | cons {bs cs : Bytes} {a : α} {as : List α} (head : Reads r bs a) (tail : ReadsAll r cs as) :
      ReadsAll r (bs ++ cs) (a :: as)

namespace ReadsAll

variable {α : Type} {r : Read α}

theorem append {bs cs : Bytes} {as as' : List α} (h : ReadsAll r bs as)
    (h' : ReadsAll r cs as') : ReadsAll r (bs ++ cs) (as ++ as') := by
  induction h with
  | nil => exact h'
  | cons head _ ih =>
    rw [List.append_assoc]
    exact .cons head ih

theorem single {bs : Bytes} {a : α} (h : Reads r bs a) : ReadsAll r bs [a] := by
  have := ReadsAll.cons h .nil
  rwa [List.append_nil] at this

/-- Pieces that are each read as an item are read as all items. -/
theorem flatten {as : List α} {pieces : List Bytes}
    (h : List.Forall₂ (fun a bs => Reads r bs a) as pieces) : ReadsAll r pieces.flatten as := by
  induction h with
  | nil => exact .nil
  | cons head _ ih => exact .cons head ih

end ReadsAll

/-- The items that are read come after those already there. -/
theorem timesFrom_eq_ok {α : Type} {r : Read α} {bs : Bytes} {as : List α}
    (h : ReadsAll r bs as) (before : Array α) (position : Nat) (rest : Bytes) :
    Read.timesFrom r as.length before ⟨position, bs ++ rest⟩
      = .ok (before ++ as, ⟨position + bs.length, rest⟩) := by
  induction h generalizing before position with
  | nil => simp [Read.timesFrom]
  | @cons bs cs a as head tail ih =>
    rw [List.length_cons, Read.timesFrom, List.append_assoc, head]
    simp only
    rw [ih, List.length_append, Nat.add_assoc]
    simp

theorem reads_times {α : Type} {r : Read α} {bs : Bytes} {as : List α} {n : Nat}
    (h : ReadsAll r bs as) (hn : as.length = n) : Reads (Read.times n r) bs as := by
  intro position rest
  unfold Read.times
  rw [← hn, timesFrom_eq_ok h]
  simp

/-- Bytes are read as one list of items of a given length only. -/
theorem ReadsAll.unique {α : Type} {r : Read α} {bs : Bytes} {as as' : List α}
    (h : ReadsAll r bs as) (h' : ReadsAll r bs as') (hlength : as.length = as'.length) :
    as = as' := by
  have heq := (reads_times h hlength 0 []).symm.trans (reads_times h' rfl 0 [])
  cases heq
  rfl

theorem reads_list {α : Type} {r : Read α} {bs : Bytes} {as : List α} {n : UInt16}
    (h : ReadsAll r bs as) (hn : as.length = n.toNat) :
    Reads (Read.list r) (Bytes.ofUInt16 n ++ bs) as :=
  (reads_u16 n).bind (reads_times h hn)

end SchemaRecords.ClassFile
