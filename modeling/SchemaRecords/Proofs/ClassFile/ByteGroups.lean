import SchemaRecords.ClassFile.ModifiedUtf8

/-!
# Groups of bytes

A group is one, two or three bytes in which some bits are fixed and the others
spell a code unit, its payload. The forms are stated with numbers here, so that
no shift or mask of the encoder or the decoder is taken for granted.

* `group_encodeUnit`: the encoder writes a group for each code unit.
* `outcome_unitsFrom`: the decoder takes group after group, also where a shorter form
  would do, and stops at the first byte with which a group can no longer be completed.
-/

namespace SchemaRecords.ClassFile.ModifiedUtf8

/-- The bytes are one group, and its payload is the code unit. -/
inductive Group : Bytes → UInt16 → Prop
  /-- The form `0xxxxxxx`, where the payload is not zero. -/
  | one {x : Nat} (hpos : 0 < x) (hx : x < 128) : Group [x.toUInt8] x.toUInt16
  /-- The form `110xxxxx 10yyyyyy`. -/
  | two {x y : Nat} (hx : x < 32) (hy : y < 64) :
      Group [(0xC0 + x).toUInt8, (0x80 + y).toUInt8] (x * 64 + y).toUInt16
  /-- The form `1110xxxx 10yyyyyy 10zzzzzz`. -/
  | three {x y z : Nat} (hx : x < 16) (hy : y < 64) (hz : z < 64) :
      Group [(0xE0 + x).toUInt8, (0x80 + y).toUInt8, (0x80 + z).toUInt8]
        (x * 4096 + y * 64 + z).toUInt16

/-- The bytes are groups, and their payloads are the code units in order. -/
inductive Groups : Bytes → List UInt16 → Prop
  | nil : Groups [] []
  | cons {bs cs : Bytes} {u : UInt16} {us : List UInt16} (head : Group bs u) (tail : Groups cs us) :
      Groups (bs ++ cs) (u :: us)

/-! ## Marks and payloads -/

theorem toNat_toUInt8 {n : Nat} (h : n < 256) : n.toUInt8.toNat = n := by
  simp
  omega

/-- Which bytes have the fixed bits `mark` under `mask` is known from all vectors of eight bits. -/
theorem and_eq_iff {mask mark : UInt8} {low high : Nat}
    (h : ∀ b : BitVec 8, b &&& mask.toBitVec = mark.toBitVec ↔ low ≤ b.toNat ∧ b.toNat < high)
    (b : UInt8) : b &&& mask = mark ↔ low ≤ b.toNat ∧ b.toNat < high := by
  rw [← UInt8.toBitVec_inj]
  exact h b.toBitVec

theorem isSingle_iff (b : UInt8) : b &&& 0x80 = 0 ↔ 0 ≤ b.toNat ∧ b.toNat < 0x80 :=
  and_eq_iff (by decide) b

theorem leadsTwo_iff (b : UInt8) : b &&& 0xE0 = 0xC0 ↔ 0xC0 ≤ b.toNat ∧ b.toNat < 0xE0 :=
  and_eq_iff (by decide) b

theorem leadsThree_iff (b : UInt8) : b &&& 0xF0 = 0xE0 ↔ 0xE0 ≤ b.toNat ∧ b.toNat < 0xF0 :=
  and_eq_iff (by decide) b

theorem isContinuation_iff (b : UInt8) :
    isContinuation b = true ↔ 0x80 ≤ b.toNat ∧ b.toNat < 0xC0 := by
  rw [isContinuation, beq_iff_eq]
  exact and_eq_iff (by decide) b

theorem toNat_unit2 (b c : UInt8) : (unit2 b c).toNat = b.toNat % 32 * 64 + c.toNat % 64 := by
  have hb : b.toNat &&& 31 = b.toNat % 32 := Nat.and_two_pow_sub_one_eq_mod _ 5
  have hc : c.toNat &&& 63 = c.toNat % 64 := Nat.and_two_pow_sub_one_eq_mod _ 6
  have hshift : (b.toNat % 32) <<< 6 % 65536 = (b.toNat % 32) <<< 6 := by
    rw [Nat.shiftLeft_eq]
    omega
  simp only [unit2, UInt8.toUInt16_and, Nat.reduceLT, UInt8.toUInt16_ofNat, UInt16.toNat_or,
    UInt16.toNat_shiftLeft, UInt16.toNat_and, UInt8.toNat_toUInt16, UInt16.reduceToNat,
    Nat.reduceMod, Nat.reducePow]
  rw [hb, hc, hshift, ← Nat.shiftLeft_add_eq_or_of_lt (by omega), Nat.shiftLeft_eq]

theorem toNat_unit3 (b c d : UInt8) :
    (unit3 b c d).toNat = b.toNat % 16 * 4096 + c.toNat % 64 * 64 + d.toNat % 64 := by
  have hb : b.toNat &&& 15 = b.toNat % 16 := Nat.and_two_pow_sub_one_eq_mod _ 4
  have hc : c.toNat &&& 63 = c.toNat % 64 := Nat.and_two_pow_sub_one_eq_mod _ 6
  have hd : d.toNat &&& 63 = d.toNat % 64 := Nat.and_two_pow_sub_one_eq_mod _ 6
  have hshift : (b.toNat % 16) <<< 12 % 65536 = (b.toNat % 16) <<< 12 := by
    rw [Nat.shiftLeft_eq]
    omega
  have hshift' : (c.toNat % 64) <<< 6 % 65536 = (c.toNat % 64) <<< 6 := by
    rw [Nat.shiftLeft_eq]
    omega
  have hlow : (c.toNat % 64) <<< 6 ||| d.toNat % 64 = c.toNat % 64 * 64 + d.toNat % 64 := by
    rw [← Nat.shiftLeft_add_eq_or_of_lt (by omega), Nat.shiftLeft_eq]
  simp only [unit3, UInt8.toUInt16_and, Nat.reduceLT, UInt8.toUInt16_ofNat, UInt16.toNat_or,
    UInt16.toNat_shiftLeft, UInt16.toNat_and, UInt8.toNat_toUInt16, UInt16.reduceToNat,
    Nat.reduceMod, Nat.reducePow]
  rw [hb, hc, hd, hshift, hshift', Nat.or_assoc, hlow, ← Nat.shiftLeft_add_eq_or_of_lt (by omega),
    Nat.shiftLeft_eq]
  omega

theorem unit2_eq {x y : Nat} (hx : x < 32) (hy : y < 64) :
    unit2 (0xC0 + x).toUInt8 (0x80 + y).toUInt8 = (x * 64 + y).toUInt16 := by
  apply UInt16.toNat_inj.1
  rw [toNat_unit2, toNat_toUInt8 (by omega), toNat_toUInt8 (by omega)]
  simp
  omega

theorem unit3_eq {x y z : Nat} (hx : x < 16) (hy : y < 64) (hz : z < 64) :
    unit3 (0xE0 + x).toUInt8 (0x80 + y).toUInt8 (0x80 + z).toUInt8
      = (x * 4096 + y * 64 + z).toUInt16 := by
  apply UInt16.toNat_inj.1
  rw [toNat_unit3, toNat_toUInt8 (by omega), toNat_toUInt8 (by omega), toNat_toUInt8 (by omega)]
  simp
  omega

/-! ## Groups by their bytes -/

namespace Group

/-- A byte is its mark and a payload. -/
theorem byte_eq {b : UInt8} {mark : Nat} (h : mark ≤ b.toNat) :
    b = (mark + (b.toNat - mark)).toUInt8 := by
  rw [Nat.add_sub_cancel' h]
  simp

theorem of_single {b : UInt8} (hpos : b ≠ 0) (hb : b &&& 0x80 = 0) : Group [b] b.toUInt16 := by
  have hnat : b.toNat ≠ 0 := fun h => hpos (UInt8.toNat_inj.1 h)
  have h := Group.one (Nat.pos_of_ne_zero hnat) ((isSingle_iff b).1 hb).2
  simpa using h

theorem of_two {b c : UInt8} (hb : b &&& 0xE0 = 0xC0) (hc : isContinuation c = true) :
    Group [b, c] (unit2 b c) := by
  rw [leadsTwo_iff] at hb
  rw [isContinuation_iff] at hc
  rw [byte_eq hb.1, byte_eq hc.1, unit2_eq (by omega) (by omega)]
  exact .two (by omega) (by omega)

theorem of_three {b c d : UInt8} (hb : b &&& 0xF0 = 0xE0) (hc : isContinuation c = true)
    (hd : isContinuation d = true) : Group [b, c, d] (unit3 b c d) := by
  rw [leadsThree_iff] at hb
  rw [isContinuation_iff] at hc hd
  rw [byte_eq hb.1, byte_eq hc.1, byte_eq hd.1, unit3_eq (by omega) (by omega) (by omega)]
  exact .three (by omega) (by omega) (by omega)

/-- No byte of a group is zero or has four bits set before a bit that is not. -/
theorem byte_bounds {bs : Bytes} {u : UInt16} (h : Group bs u) :
    ∀ b ∈ bs, b ≠ 0 ∧ b ≤ 0xEF := by
  have hbyte {n : Nat} (hpos : 0 < n) (hn : n < 0xF0) : n.toUInt8 ≠ 0 ∧ n.toUInt8 ≤ 0xEF := by
    have hnat := toNat_toUInt8 (n := n) (by omega)
    refine ⟨fun hzero => ?_, ?_⟩
    · rw [hzero] at hnat
      simp at hnat
      omega
    · rw [UInt8.le_iff_toNat_le, hnat]
      simp
      omega
  cases h with
  | one hpos hx =>
    simp only [List.mem_singleton, forall_eq]
    exact hbyte hpos (by omega)
  | two hx hy =>
    simp only [List.forall_mem_cons]
    exact ⟨hbyte (by omega) (by omega), hbyte (by omega) (by omega), by simp⟩
  | three hx hy hz =>
    simp only [List.forall_mem_cons]
    exact ⟨hbyte (by omega) (by omega), hbyte (by omega) (by omega), hbyte (by omega) (by omega),
      by simp⟩

end Group

theorem Groups.byte_bounds {bs : Bytes} {us : List UInt16} (h : Groups bs us) :
    ∀ b ∈ bs, b ≠ 0 ∧ b ≤ 0xEF := by
  induction h with
  | nil => simp
  | cons head _ ih => exact List.forall_mem_append.2 ⟨head.byte_bounds, ih⟩

/-! ## Writing -/

/-- The bytes after the first one hold six bits each. -/
theorem continuation_eq (u : UInt16) :
    (u &&& 0x3F).toUInt8 ||| 0x80 = (0x80 + u.toNat % 64).toUInt8 := by
  have hmark : ∀ x : Fin 64, x.val.toUInt8 ||| 0x80 = (0x80 + x.val).toUInt8 := by decide
  have hpayload : (u &&& 0x3F).toUInt8 = (u.toNat % 64).toUInt8 := by
    have hmask : u.toNat &&& 63 = u.toNat % 64 := Nat.and_two_pow_sub_one_eq_mod _ 6
    apply UInt8.toNat_inj.1
    rw [UInt16.toNat_toUInt8, UInt16.toNat_and, toNat_toUInt8 (by omega)]
    show (u.toNat &&& 63) % 256 = _
    rw [hmask]
    omega
  rw [hpayload]
  exact hmark ⟨u.toNat % 64, Nat.mod_lt _ (by decide)⟩

/-- The first byte of two holds what is above six bits. -/
theorem leadTwo_eq {u : UInt16} (h : u.toNat < 2048) :
    (u >>> 6).toUInt8 ||| 0xC0 = (0xC0 + u.toNat / 64).toUInt8 := by
  have hmark : ∀ x : Fin 32, x.val.toUInt8 ||| 0xC0 = (0xC0 + x.val).toUInt8 := by decide
  have hpayload : (u >>> 6).toUInt8 = (u.toNat / 64).toUInt8 := by
    apply UInt8.toNat_inj.1
    simp [Nat.shiftRight_eq_div_pow]
  rw [hpayload]
  exact hmark ⟨u.toNat / 64, by omega⟩

/-- The first byte of three holds what is above twelve bits. -/
theorem leadThree_eq (u : UInt16) :
    (u >>> 12).toUInt8 ||| 0xE0 = (0xE0 + u.toNat / 4096).toUInt8 := by
  have hu := u.toNat_lt
  have hmark : ∀ x : Fin 16, x.val.toUInt8 ||| 0xE0 = (0xE0 + x.val).toUInt8 := by decide
  have hpayload : (u >>> 12).toUInt8 = (u.toNat / 4096).toUInt8 := by
    apply UInt8.toNat_inj.1
    simp [Nat.shiftRight_eq_div_pow]
  rw [hpayload]
  exact hmark ⟨u.toNat / 4096, by omega⟩

/-- The encoder writes a group for each code unit. -/
theorem group_encodeUnit (u : UInt16) : Group (encodeUnit u) u := by
  have hu := u.toNat_lt
  unfold encodeUnit
  split
  case isTrue h =>
    have hx : 1 ≤ u.toNat ∧ u.toNat ≤ 127 := by
      simpa [UInt16.le_iff_toNat_le] using h
    have hgroup := Group.one (x := u.toNat) (by omega) (by omega)
    simpa using hgroup
  case isFalse h =>
    split
    case isTrue h =>
      have hx : u.toNat ≤ 0x7FF := by simpa [UInt16.le_iff_toNat_le] using h
      have hgroup := Group.two (x := u.toNat / 64) (y := u.toNat % 64) (by omega) (by omega)
      have hunit : u.toNat / 64 * 64 + u.toNat % 64 = u.toNat := by omega
      rw [hunit] at hgroup
      rw [leadTwo_eq (by omega), continuation_eq]
      simpa using hgroup
    case isFalse h =>
      have hgroup := Group.three (x := u.toNat / 4096) (y := u.toNat / 64 % 64)
        (z := u.toNat % 64) (by omega) (by omega) (by omega)
      have hunit : u.toNat / 4096 * 4096 + u.toNat / 64 % 64 * 64 + u.toNat % 64 = u.toNat := by
        omega
      have hmiddle : (u >>> 6).toNat = u.toNat / 64 := by simp [Nat.shiftRight_eq_div_pow]
      rw [hunit] at hgroup
      rw [leadThree_eq, continuation_eq, continuation_eq, hmiddle]
      simpa using hgroup

theorem groups_flatMap (us : List UInt16) : Groups (us.flatMap encodeUnit) us := by
  induction us with
  | nil => exact .nil
  | cons u us ih => exact .cons (group_encodeUnit u) ih

/-! ## Beginnings of groups -/

/-- The bytes of a group by their marks. -/
theorem Group.form {bs : Bytes} {u : UInt16} (h : Group bs u) :
    (∃ b, bs = [b] ∧ b ≠ 0 ∧ b &&& 0x80 = 0) ∨
      (∃ b c, bs = [b, c] ∧ b &&& 0xE0 = 0xC0 ∧ isContinuation c = true) ∨
      ∃ b c d, bs = [b, c, d] ∧ b &&& 0xF0 = 0xE0 ∧ isContinuation c = true ∧
        isContinuation d = true := by
  cases h with
  | @one x hpos hx =>
    have hb := toNat_toUInt8 (n := x) (by omega)
    refine .inl ⟨_, rfl, fun hzero => ?_, (isSingle_iff _).2 (by omega)⟩
    rw [hzero] at hb
    simp at hb
    omega
  | @two x y hx hy =>
    have hb := toNat_toUInt8 (n := 0xC0 + x) (by omega)
    have hc := toNat_toUInt8 (n := 0x80 + y) (by omega)
    exact .inr (.inl ⟨_, _, rfl, (leadsTwo_iff _).2 (by omega), (isContinuation_iff _).2 (by omega)⟩)
  | @three x y z hx hy hz =>
    have hb := toNat_toUInt8 (n := 0xE0 + x) (by omega)
    have hc := toNat_toUInt8 (n := 0x80 + y) (by omega)
    have hd := toNat_toUInt8 (n := 0x80 + z) (by omega)
    exact .inr (.inr ⟨_, _, _, rfl, (leadsThree_iff _).2 (by omega),
      (isContinuation_iff _).2 (by omega), (isContinuation_iff _).2 (by omega)⟩)

/-- The bytes are a group or can be continued to one. -/
def Begins (bs : Bytes) : Prop := ∃ more u, Group (bs ++ more) u

namespace Begins

variable {b c d : UInt8} {bs : Bytes}

theorem of_group {u : UInt16} (h : Group bs u) : Begins bs := ⟨[], u, by rwa [List.append_nil]⟩

theorem nil : Begins [] := ⟨_, _, group_encodeUnit 0⟩

theorem lead (h : Begins (b :: bs)) :
    (b ≠ 0 ∧ b &&& 0x80 = 0) ∨ b &&& 0xE0 = 0xC0 ∨ b &&& 0xF0 = 0xE0 := by
  obtain ⟨more, u, hgroup⟩ := h
  obtain ⟨_, heq, hb⟩ | ⟨_, _, heq, hb, -⟩ | ⟨_, _, _, heq, hb, -⟩ := hgroup.form
  · obtain ⟨rfl, -⟩ := List.cons.inj heq
    exact .inl hb
  · obtain ⟨rfl, -⟩ := List.cons.inj heq
    exact .inr (.inl hb)
  · obtain ⟨rfl, -⟩ := List.cons.inj heq
    exact .inr (.inr hb)

theorem second (h : Begins (b :: c :: bs)) : isContinuation c = true := by
  obtain ⟨more, u, hgroup⟩ := h
  obtain ⟨_, heq, -⟩ | ⟨_, _, heq, -, hc⟩ | ⟨_, _, _, heq, -, hc, -⟩ := hgroup.form
  · simp at heq
  · simp only [List.cons_append, List.cons.injEq] at heq
    exact heq.2.1 ▸ hc
  · simp only [List.cons_append, List.cons.injEq] at heq
    exact heq.2.1 ▸ hc

theorem third (h : Begins (b :: c :: d :: bs)) : isContinuation d = true := by
  obtain ⟨more, u, hgroup⟩ := h
  obtain ⟨_, heq, -⟩ | ⟨_, _, heq, -⟩ | ⟨_, _, _, heq, -, -, hd⟩ := hgroup.form
  · simp at heq
  · simp at heq
  · simp only [List.cons_append, List.cons.injEq] at heq
    exact heq.2.2.1 ▸ hd

end Begins

/-- No group stands at the front of the bytes, and the longest piece there that begins a group has
`k` bytes. -/
structure Broken (bytes : Bytes) (k : Nat) : Prop where
  nonempty : bytes ≠ []
  none : ∀ bs u, bs <+: bytes → ¬Group bs u
  begun : ∃ bs, bs <+: bytes ∧ Begins bs ∧ bs.length = k
  longest : ∀ bs, bs <+: bytes → Begins bs → bs.length ≤ k

namespace Broken

variable {b c : UInt8} {bytes : Bytes} {k k' : Nat}

theorem unique (h : Broken bytes k) (h' : Broken bytes k') : k = k' := by
  obtain ⟨bs, hbs, hbegins, rfl⟩ := h.begun
  obtain ⟨bs', hbs', hbegins', rfl⟩ := h'.begun
  have hle := h'.longest bs hbs hbegins
  have hle' := h.longest bs' hbs' hbegins'
  omega

/-- The first byte begins no group. -/
theorem lead (hone : ¬(b ≠ 0 ∧ b &&& 0x80 = 0)) (htwo : ¬b &&& 0xE0 = 0xC0)
    (hthree : ¬b &&& 0xF0 = 0xE0) : Broken (b :: bytes) 0 := by
  have hbegins {bs : Bytes} (hbs : bs <+: b :: bytes) (h : Begins bs) : bs = [] := by
    cases bs with
    | nil => rfl
    | cons b' bs =>
      obtain ⟨rfl, -⟩ := List.cons_prefix_cons.1 hbs
      obtain hb | hb | hb := h.lead
      · exact absurd hb hone
      · exact absurd hb htwo
      · exact absurd hb hthree
  refine ⟨by simp, fun bs u hbs hgroup => ?_, ⟨[], by simp, .nil, rfl⟩, fun bs hbs h => ?_⟩
  · cases hbegins hbs (.of_group hgroup)
    cases hgroup
  · simp [hbegins hbs h]

/-- The first byte begins a longer group, but no byte that continues it follows. -/
theorem second (hb : b &&& 0xE0 = 0xC0 ∨ b &&& 0xF0 = 0xE0)
    (hrest : ∀ c ∈ bytes.head?, isContinuation c = false) : Broken (b :: bytes) 1 := by
  have hbegins {bs : Bytes} (hbs : bs <+: b :: bytes) (h : Begins bs) : bs.length ≤ 1 := by
    rcases bs with _ | ⟨_, _ | ⟨c, bs⟩⟩
    · simp
    · simp
    · obtain ⟨-, htail⟩ := List.cons_prefix_cons.1 hbs
      have hc := hrest c (by cases bytes <;> simp_all [List.cons_prefix_cons])
      rw [h.second] at hc
      cases hc
  have hcontinued : Begins [b] := by
    obtain hb | hb := hb
    · exact ⟨[0x80], _, .of_two hb rfl⟩
    · exact ⟨[0x80, 0x80], _, .of_three hb rfl rfl⟩
  refine ⟨by simp, fun bs u hbs hgroup => ?_, ⟨[b], by simp, hcontinued, rfl⟩,
    fun bs hbs h => hbegins hbs h⟩
  have hlength := hbegins hbs (.of_group hgroup)
  obtain ⟨b', rfl, -, hone⟩ | ⟨_, _, rfl, -⟩ | ⟨_, _, _, rfl, -⟩ := hgroup.form
  · obtain ⟨rfl, -⟩ := List.cons_prefix_cons.1 hbs
    rw [isSingle_iff] at hone
    rw [leadsTwo_iff, leadsThree_iff] at hb
    omega
  · simp at hlength
  · simp at hlength

/-- Two bytes begin a group of three, but no byte that continues it follows. -/
theorem third (hb : b &&& 0xF0 = 0xE0) (hc : isContinuation c = true)
    (hrest : ∀ d ∈ bytes.head?, isContinuation d = false) : Broken (b :: c :: bytes) 2 := by
  have hbegins {bs : Bytes} (hbs : bs <+: b :: c :: bytes) (h : Begins bs) : bs.length ≤ 2 := by
    rcases bs with _ | ⟨_, _ | ⟨_, _ | ⟨d, bs⟩⟩⟩
    · simp
    · simp
    · simp
    · obtain ⟨-, htail⟩ := List.cons_prefix_cons.1 (List.cons_prefix_cons.1 hbs).2
      have hd := hrest d (by cases bytes <;> simp_all [List.cons_prefix_cons])
      rw [h.third] at hd
      cases hd
  refine ⟨by simp, fun bs u hbs hgroup => ?_,
    ⟨[b, c], by simp, ⟨[0x80], _, .of_three hb hc rfl⟩, rfl⟩, fun bs hbs h => hbegins hbs h⟩
  have hlength := hbegins hbs (.of_group hgroup)
  rw [leadsThree_iff] at hb
  obtain ⟨b', rfl, -, hone⟩ | ⟨b', _, rfl, htwo, -⟩ | ⟨_, _, _, rfl, -⟩ := hgroup.form
  · obtain ⟨rfl, -⟩ := List.cons_prefix_cons.1 hbs
    rw [isSingle_iff] at hone
    omega
  · obtain ⟨rfl, -⟩ := List.cons_prefix_cons.1 hbs
    rw [leadsTwo_iff] at htwo
    omega
  · simp at hlength

end Broken

/-- The bytes before place `i` are groups, none stands there, and `k` bytes from there on could begin
one. -/
inductive Malformed : Bytes → Nat → Nat → Prop
  | after {good bytes : Bytes} {us : List UInt16} {k : Nat} (before : Groups good us)
      (here : Broken bytes k) : Malformed (good ++ bytes) good.length k

theorem Malformed.cons {bs bytes : Bytes} {u : UInt16} {i k : Nat} (head : Group bs u)
    (h : Malformed bytes i k) : Malformed (bs ++ bytes) (bs.length + i) k := by
  cases h with
  | after before here =>
    rw [← List.append_assoc, ← List.length_append]
    exact .after (.cons head before) here

/-- The bytes are faulty from the start. -/
theorem Broken.malformed {bytes : Bytes} {k : Nat} (h : Broken bytes k) : Malformed bytes 0 k :=
  .after .nil h

theorem Malformed.le {bytes : Bytes} {i k : Nat} (h : Malformed bytes i k) :
    i + k ≤ bytes.length := by
  cases h with
  | after before here =>
    obtain ⟨bs, hbs, -, rfl⟩ := here.begun
    rw [List.length_append]
    have := hbs.length_le
    omega

/-! ## Reading -/

/-- What may come of reading groups in `bytes`, of which the first stands at `offset`, after the
code units in `done`: all of `bytes` are groups, or the first that is none is reported at the byte
that breaks it. -/
inductive Outcome (offset : Nat) (done : List UInt16) (bytes : Bytes) :
    Except Error (List UInt16) → Prop
  | read {us : List UInt16} (h : Groups bytes us) :
      Outcome offset done bytes (.ok (done.reverse ++ us))
  | fault {i k : Nat} (h : Malformed bytes i k) :
      Outcome offset done bytes (.error (.invalidText (offset + i + k)))

theorem Outcome.cons {offset : Nat} {done : List UInt16} {bs rest : Bytes} {u : UInt16}
    {result : Except Error (List UInt16)} (head : Group bs u)
    (h : Outcome (offset + bs.length) (u :: done) rest result) :
    Outcome offset done (bs ++ rest) result := by
  cases h with
  | read h =>
    rw [List.reverse_cons, List.append_assoc, List.singleton_append]
    exact .read (.cons head h)
  | fault h =>
    rw [Nat.add_assoc offset]
    exact .fault (h.cons head)

/-- The decoder takes group after group, and stops inside the bytes where there is none. -/
theorem outcome_unitsFrom (offset : Nat) (done : List UInt16) (bytes : Bytes) :
    Outcome offset done bytes (unitsFrom offset done bytes) := by
  have hfault {offset : Nat} {done : List UInt16} {bytes : Bytes} {k : Nat} (h : Broken bytes k) :
      Outcome offset done bytes (.error (.invalidText (offset + k))) := .fault h.malformed
  fun_induction unitsFrom offset done bytes with
  | case1 offset done =>
    have h : Outcome offset done [] (.ok (done.reverse ++ [])) := .read .nil
    rwa [List.append_nil] at h
  | case2 offset done b rest hb ih => exact .cons (.of_single hb.1 hb.2) ih
  | case3 offset done b hb h2 => exact hfault (.second (.inl h2) (by simp))
  | case4 offset done b hb h2 c rest hc ih => exact .cons (.of_two h2 hc) ih
  | case5 offset done b hb h2 c rest hc => exact hfault (.second (.inl h2) (by simpa using hc))
  | case6 offset done b hb h2 h3 => exact hfault (.second (.inr h3) (by simp))
  | case7 offset done b hb h2 h3 c =>
    split
    · rename_i hc
      exact hfault (.third h3 hc (by simp))
    · rename_i hc
      exact hfault (.second (.inr h3) (by simpa using hc))
  | case8 offset done b hb h2 h3 c d rest hc hd ih => exact .cons (.of_three h3 hc hd) ih
  | case9 offset done b hb h2 h3 c d rest hc hd => exact hfault (.third h3 hc (by simpa using hd))
  | case10 offset done b hb h2 h3 c d rest hc => exact hfault (.second (.inr h3) (by simpa using hc))
  | case11 offset done b rest hb h2 h3 => exact hfault (.lead hb h2 h3)

/-- Groups are taken as a whole. -/
theorem unitsFrom_group (offset : Nat) (done : List UInt16) {bs : Bytes} {u : UInt16}
    (h : Group bs u) (rest : Bytes) :
    unitsFrom offset done (bs ++ rest) = unitsFrom (offset + bs.length) (u :: done) rest := by
  cases h with
  | @one x hpos hx =>
    have hb := toNat_toUInt8 (n := x) (by omega)
    have hzero : x.toUInt8 ≠ 0 := fun h => by
      rw [h] at hb
      simp at hb
      omega
    have hunit : x.toUInt8.toUInt16 = x.toUInt16 := by
      apply UInt16.toNat_inj.1
      simp
      omega
    rw [List.singleton_append, unitsFrom.eq_def]
    dsimp only
    rw [if_pos ⟨hzero, (isSingle_iff _).2 (by omega)⟩, hunit]
    rfl
  | @two x y hx hy =>
    have hb := toNat_toUInt8 (n := 0xC0 + x) (by omega)
    have hc := toNat_toUInt8 (n := 0x80 + y) (by omega)
    rw [List.cons_append, List.singleton_append, unitsFrom.eq_def]
    dsimp only
    rw [if_neg fun h => absurd ((isSingle_iff _).1 h.2) (by omega),
      if_pos ((leadsTwo_iff _).2 (by omega)), if_pos ((isContinuation_iff _).2 (by omega)),
      unit2_eq hx hy]
    rfl
  | @three x y z hx hy hz =>
    have hb := toNat_toUInt8 (n := 0xE0 + x) (by omega)
    have hc := toNat_toUInt8 (n := 0x80 + y) (by omega)
    have hd := toNat_toUInt8 (n := 0x80 + z) (by omega)
    rw [List.cons_append, List.cons_append, List.singleton_append, unitsFrom.eq_def]
    dsimp only
    rw [if_neg fun h => absurd ((isSingle_iff _).1 h.2) (by omega),
      if_neg fun h => absurd ((leadsTwo_iff _).1 h) (by omega),
      if_pos ((leadsThree_iff _).2 (by omega)), if_pos ((isContinuation_iff _).2 (by omega)),
      if_pos ((isContinuation_iff _).2 (by omega)), unit3_eq hx hy hz]
    rfl

theorem unitsFrom_groups {offset : Nat} {done us : List UInt16} {bytes : Bytes}
    (h : Groups bytes us) : unitsFrom offset done bytes = .ok (done.reverse ++ us) := by
  induction h generalizing offset done with
  | nil => simp [unitsFrom]
  | cons head _ ih =>
    rw [unitsFrom_group _ _ head, ih]
    simp

end SchemaRecords.ClassFile.ModifiedUtf8
