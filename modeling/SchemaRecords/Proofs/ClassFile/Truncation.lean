import SchemaRecords.ClassFile.Image
import SchemaRecords.Proofs.ClassFile.Reading

/-!
# Class files that end early or go on

A class file is accepted only as a whole. This rests on a property of every read
that the parser is made of: it takes bytes in order, its result depends on no byte
that it does not take, and if the input ends inside what it takes, it asks for
bytes that are not there. `Sequential` states this; it is kept by everything that
reads are put together with, so it holds of the parser.

* `Consumes.bind`: the bytes of two reads, one after the other.
* `Image.sequential_read`: the parser is sequential.
* `Image.parse_only_whole`: no other file than an accepted one begins or ends like it.
-/

namespace SchemaRecords.ClassFile

/-- Started at `position`, the read takes the bytes `taken` and gives `a`, whatever follows them.
If the input ends inside them, the read asks for more bytes than there are, but not for bytes
beyond `taken`. -/
structure Consumes {α : Type} (r : Read α) (position : Nat) (taken : Bytes) (a : α) : Prop where
  whole : ∀ rest, r ⟨position, taken ++ rest⟩ = .ok (a, ⟨position + taken.length, rest⟩)
  cut : ∀ front missing, front ++ missing = taken → missing ≠ [] →
    ∃ required, r ⟨position, front⟩ = .error (.truncated required (position + front.length)) ∧
      position + front.length < required ∧ required ≤ position + taken.length

namespace Consumes

variable {α β : Type}

theorem bind {r : Read α} {f : α → Read β} {position : Nat} {taken taken' : Bytes} {a : α} {b : β}
    (hr : Consumes r position taken a) (hf : Consumes (f a) (position + taken.length) taken' b) :
    Consumes (r >>= f) position (taken ++ taken') b where
  whole rest := by
    show (r ⟨position, taken ++ taken' ++ rest⟩ >>= fun x => f x.1 x.2) = _
    rw [List.append_assoc, hr.whole]
    show f a ⟨position + taken.length, taken' ++ rest⟩ = _
    rw [hf.whole, List.length_append, Nat.add_assoc]
  cut front missing hsplit hmissing := by
    -- the input ends inside what the second read takes
    have hsecond : ∀ front', front = taken ++ front' → front' ++ missing = taken' →
        ∃ required, (r >>= f) ⟨position, front⟩
            = .error (.truncated required (position + front.length)) ∧
          position + front.length < required ∧
          required ≤ position + (taken ++ taken').length := by
      rintro front' rfl hfront'
      obtain ⟨required, herror, hlow, hhigh⟩ := hf.cut front' missing hfront' hmissing
      simp only [List.length_append]
      refine ⟨required, ?_, by omega, by omega⟩
      show (r ⟨position, taken ++ front'⟩ >>= fun x => f x.1 x.2) = _
      rw [hr.whole, ← Nat.add_assoc, ← herror]
      rfl
    obtain ⟨missing', hfront, hmissing'⟩ | ⟨front', hfront, hfront'⟩ :=
      List.append_eq_append_iff.1 hsplit
    · by_cases hnil : missing' = []
      · subst hnil
        exact hsecond [] (by simpa using hfront.symm) (by simpa using hmissing')
      · obtain ⟨required, herror, hlow, hhigh⟩ := hr.cut front missing' hfront.symm hnil
        rw [List.length_append]
        refine ⟨required, ?_, hlow, by omega⟩
        show (r ⟨position, front⟩ >>= fun x => f x.1 x.2) = _
        rw [herror]
        rfl
    · exact hsecond front' hfront hfront'.symm

/-- A read that takes nothing. -/
theorem nil {r : Read α} {position : Nat} {a : α}
    (h : ∀ rest, r ⟨position, rest⟩ = .ok (a, ⟨position, rest⟩)) : Consumes r position [] a where
  whole := h
  cut _ _ hsplit hmissing := absurd (List.append_eq_nil_iff.1 hsplit).2 hmissing

end Consumes

/-- Wherever the read succeeds, it consumes the bytes between the two places. -/
def Sequential {α : Type} (r : Read α) : Prop :=
  ∀ position bytes a c, r ⟨position, bytes⟩ = .ok (a, c) →
    ∃ taken rest, bytes = taken ++ rest ∧ c = ⟨position + taken.length, rest⟩ ∧
      Consumes r position taken a

namespace Sequential

variable {α β : Type}

theorem pure (a : α) : Sequential (Pure.pure a) := by
  intro position bytes _ _ h
  cases h
  exact ⟨[], bytes, rfl, rfl, .nil fun _ => rfl⟩

theorem fail (e : Error) : Sequential (Read.fail e : Read α) := by
  intro position bytes a c h
  cases h

theorem ofExcept (x : Except Error α) : Sequential (Read.ofExcept x) := by
  cases x with
  | error e => exact fail e
  | ok a => exact pure a

theorem position : Sequential Read.position := by
  intro position bytes _ _ h
  cases h
  exact ⟨[], bytes, rfl, rfl, .nil fun _ => rfl⟩

theorem bind {r : Read α} {f : α → Read β} (hr : Sequential r) (hf : ∀ a, Sequential (f a)) :
    Sequential (r >>= f) := by
  intro position bytes b c h
  change (r ⟨position, bytes⟩ >>= fun x => f x.1 x.2) = _ at h
  cases hfirst : r ⟨position, bytes⟩ with
  | error e =>
    rw [hfirst] at h
    cases h
  | ok first =>
    rw [hfirst] at h
    obtain ⟨taken, rest, rfl, hplace, hconsumes⟩ := hr _ _ _ _ hfirst
    obtain ⟨a, _⟩ := first
    subst hplace
    obtain ⟨taken', rest', rfl, rfl, hconsumes'⟩ := hf a _ _ _ _ h
    refine ⟨taken ++ taken', rest', (List.append_assoc _ _ _).symm, ?_, hconsumes.bind hconsumes'⟩
    rw [List.length_append, Nat.add_assoc]

theorem ite {p : Prop} [Decidable p] {r r' : Read α} (hr : Sequential r) (hr' : Sequential r') :
    Sequential (if p then r else r') := by
  split
  · exact hr
  · exact hr'

/-! ### Words -/

theorem bytes (n : Nat) : Sequential (Read.bytes n) := by
  intro position bytes a c h
  unfold Read.bytes at h
  dsimp only at h
  split at h
  · cases h
  rename_i hlength
  cases h
  have htaken : (bytes.take n).length = n := by
    rw [List.length_take] at hlength ⊢
    omega
  refine ⟨bytes.take n, bytes.drop n, (List.take_append_drop _ _).symm, by rw [htaken], ?_, ?_⟩
  · intro rest
    have hfront : (bytes.take n ++ rest).take n = bytes.take n := by
      rw [List.take_append_of_le_length (by omega), List.take_take, Nat.min_self]
    have hrest : (bytes.take n ++ rest).drop n = rest := List.drop_left' htaken
    unfold Read.bytes
    dsimp only
    rw [hfront, hrest, htaken, if_neg (Nat.lt_irrefl n)]
  · intro front missing hsplit hmissing
    have hfewer : front.length < n := by
      have htotal := congrArg List.length hsplit
      have hpos := List.length_pos_of_ne_nil hmissing
      rw [List.length_append, htaken] at htotal
      omega
    refine ⟨position + n, ?_, by omega, by omega⟩
    unfold Read.bytes
    dsimp only
    rw [List.take_of_length_le (by omega), if_pos hfewer]

theorem u8 : Sequential Read.u8 := bind (bytes 1) fun _ => pure _

theorem u16 : Sequential Read.u16 := bind (bytes 2) fun _ => pure _

theorem u32 : Sequential Read.u32 := bind (bytes 4) fun _ => pure _

theorem i32 : Sequential Read.i32 := bind u32 fun _ => pure _

/-! ### Sequences -/

theorem timesFrom {item : Read α} (h : Sequential item) (n : Nat) (done : Array α) :
    Sequential (Read.timesFrom item n done) := by
  induction n generalizing done with
  | zero => exact pure done
  | succ n ih =>
    have hstep : Read.timesFrom item (n + 1) done
        = (item >>= fun a => Read.timesFrom item n (done.push a) : Read (Array α)) := by
      funext c
      show _ = item c >>= fun x => Read.timesFrom item n (done.push x.1) x.2
      rw [Read.timesFrom]
      cases item c <;> rfl
    rw [hstep]
    exact bind h fun a => ih _

theorem times {item : Read α} (h : Sequential item) (n : Nat) : Sequential (Read.times n item) := by
  have hall : Read.times n item
      = (Read.timesFrom item n #[] >>= fun items => Pure.pure items.toList : Read (List α)) := by
    funext c
    show _ = Read.timesFrom item n #[] c >>= fun x => Except.ok (x.1.toList, x.2)
    unfold Read.times
    cases Read.timesFrom item n #[] c <;> rfl
  rw [hall]
  exact bind (timesFrom h n _) fun _ => pure _

theorem list {item : Read α} (h : Sequential item) : Sequential (Read.list item) :=
  bind u16 fun n => times h n.toNat

end Sequential

/-! ## Constants -/

namespace ConstantTable

theorem sequential_readEntry (i : UInt16) : Sequential (readEntry i) := by
  have hword (f : UInt16 → Constant) : Sequential (Read.u16 >>= fun n => pure (f n)) :=
    .bind .u16 fun _ => .pure _
  have hwords (f : UInt16 → UInt16 → Constant) :
      Sequential (Read.u16 >>= fun n => Read.u16 >>= fun k => pure (f n k)) :=
    .bind .u16 fun n => hword (f n)
  refine .bind .u8 fun tag => ?_
  refine .ite ?_ (.ite ?_ (.ite (hword _) (.ite (hword _) (.ite (hwords _) (.ite (hwords _)
    (.ite (hwords _) (.ite ?_ (.ite (hwords _) (.fail _)))))))))
  · exact .bind .u16 fun _ => .bind .position fun _ => .bind (.bytes _) fun _ =>
      .bind (.ofExcept _) fun _ => .pure _
  · exact .bind .i32 fun _ => .pure _
  · refine .bind .u8 fun code => ?_
    split
    · exact .fail _
    · exact hword _

theorem sequential_readFrom (n : Nat) (done : Array Constant) : Sequential (readFrom n done) := by
  induction n generalizing done with
  | zero => exact .pure done
  | succ n ih =>
    have hstep : readFrom (n + 1) done
        = (readEntry (done.size + 1).toUInt16 >>= fun entry => readFrom n (done.push entry) :
          Read (Array Constant)) := by
      funext c
      show _ = readEntry (done.size + 1).toUInt16 c >>= fun x => readFrom n (done.push x.1) x.2
      rw [readFrom]
      cases readEntry (done.size + 1).toUInt16 c <;> rfl
    rw [hstep]
    exact .bind (sequential_readEntry _) fun entry => ih _

theorem sequential_read : Sequential read :=
  .bind .u16 fun _ => .bind (sequential_readFrom _ _) fun _ => .pure _

/-! ## Members and attributes -/

theorem sequential_readUtf8 (t : ConstantTable) : Sequential t.readUtf8 :=
  .bind .u16 fun _ => .ofExcept _

theorem sequential_readClassName (t : ConstantTable) : Sequential t.readClassName :=
  .bind .u16 fun _ => .ofExcept _

theorem sequential_readAttributes (t : ConstantTable) : Sequential t.readAttributes :=
  .list (.bind t.sequential_readUtf8 fun _ => .bind .u32 fun _ => .bind (.bytes _) fun _ => .pure _)

theorem sequential_readMember (t : ConstantTable) : Sequential t.readMember :=
  .bind .u16 fun _ => .bind t.sequential_readUtf8 fun _ => .bind t.sequential_readUtf8 fun _ =>
    .bind t.sequential_readAttributes fun _ => .pure _

end ConstantTable

/-! ## Class files -/

namespace Image

/-- The parser is sequential. -/
theorem sequential_read : Sequential read := by
  refine .bind .u32 fun word => ?_
  dsimp only
  split
  · -- nothing is read after a wrong signature
    exact .fail (.signature word)
  · exact .bind .u16 fun _ => .bind .u16 fun _ => .bind ConstantTable.sequential_read fun t =>
      .bind .u16 fun _ => .bind t.sequential_readClassName fun _ => .bind .u16 fun _ =>
        .bind (.ofExcept _) fun _ => .bind (.list t.sequential_readClassName) fun _ =>
          .bind (.list t.sequential_readMember) fun _ => .bind (.list t.sequential_readMember)
            fun _ => .bind t.sequential_readAttributes fun _ => .pure _

/-- The bytes of an accepted class file are exactly those that the parser consumes. -/
theorem consumes_of_parse {bytes : Bytes} {image : Image} (h : parse bytes = .ok image) :
    Consumes read 0 bytes image := by
  unfold parse at h
  split at h
  · cases h
  rename_i c hread
  split at h
  · rename_i hexhausted
    cases h
    obtain ⟨taken, rest, rfl, rfl, hconsumes⟩ := sequential_read _ _ _ _ hread
    have hrest : rest = [] := List.isEmpty_iff.1 hexhausted
    rwa [hrest, List.append_nil]
  · cases h

/-- **A class file is accepted only as a whole.** If bytes are accepted, then every part that
leaves out bytes at their end is refused for being too short: the reader asks for bytes that the
part lacks, but that the whole has. And whatever follows them makes them be refused for as many
trailing bytes as follow. -/
theorem parse_only_whole {bytes : Bytes} {image : Image} (h : parse bytes = .ok image) :
    (∀ front, front <+: bytes → front ≠ bytes →
      ∃ required, parse front = .error (.truncated required front.length) ∧
        front.length < required ∧ required ≤ bytes.length) ∧
    ∀ extra, extra ≠ [] → parse (bytes ++ extra) =
      .error (.malformed s!"{extra.length} trailing bytes after class attributes") := by
  have hconsumes := consumes_of_parse h
  constructor
  · rintro front ⟨missing, hsplit⟩ hproper
    have hmissing : missing ≠ [] := by
      rintro rfl
      exact hproper (by simpa using hsplit)
    obtain ⟨required, herror, hlow, hhigh⟩ := hconsumes.cut front missing hsplit hmissing
    rw [Nat.zero_add] at herror hlow hhigh
    refine ⟨required, ?_, hlow, hhigh⟩
    rw [parse, Cursor.ofBytes, herror]
  · intro extra hextra
    have hleft : Cursor.isExhausted ⟨0 + bytes.length, extra⟩ = false := by
      rw [Cursor.isExhausted, List.isEmpty_eq_false_iff]
      exact hextra
    rw [parse, Cursor.ofBytes, hconsumes.whole]
    dsimp only
    rw [if_neg (Bool.eq_false_iff.1 hleft)]
    rfl

namespace Switch

/-- A class `A` with a field `x`, which has an attribute of two bytes. -/
def bytes : Bytes :=
  [0xCA, 0xFE, 0xBA, 0xBE, 0, 0, 0, 61, 0, 5, 1, 0, 1, 65, 7, 0, 1, 1, 0, 1, 120, 1, 0, 1, 73,
    0, 1, 0, 2, 0, 0, 0, 0, 0, 1, 0, 2, 0, 3, 0, 4, 0, 1, 0, 3, 0, 0, 0, 2, 7, 9, 0, 0, 0, 0]

/-- What the bytes say. -/
def image : Image where
  major := 61
  minor := 0
  constants := ⟨#[.utf8 "A", .classRef 1, .utf8 "x", .utf8 "I"]⟩
  access := 1
  name := "A"
  superName := none
  interfaces := []
  fields := [⟨2, "x", "I", [⟨"x", [7, 9]⟩]⟩]
  methods := []
  attributes := []

theorem parse_bytes : parse bytes = .ok image := by decide +kernel

end Switch

theorem parse_only_whole_switch :
    parse Switch.bytes = .ok Switch.image ∧
      (∃ required, parse (Switch.bytes.take 50) = .error (.truncated required 50) ∧
        50 < required ∧ required ≤ Switch.bytes.length) ∧
      parse (Switch.bytes ++ [0, 0]) =
        .error (.malformed "2 trailing bytes after class attributes") := by
  obtain ⟨hshort, hlong⟩ := parse_only_whole Switch.parse_bytes
  exact ⟨Switch.parse_bytes, hshort _ (List.take_prefix 50 _) (by decide), hlong [0, 0] (by decide)⟩

end Image

end SchemaRecords.ClassFile
