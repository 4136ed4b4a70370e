import Mathlib.Logic.ExistsUnique
import SchemaRecords.Proofs.ClassFile.ModifiedUtf8

/-!
# Where text that cannot be decoded is at fault

Bytes are no text from the first place where no group stands, or, if they are
groups throughout, from the first group whose payload is half of a pair and has
no partner. There is just one such place (`InvalidFrom.unique`), but it is not
always the one that the decoder reports: of a group that begins well it reports
the byte that breaks it, and of half a pair the start of all bytes
(`decode_reports`).
-/

namespace SchemaRecords.ClassFile.ModifiedUtf8

open SchemaRecords.Text

variable {bs cs rest rest' bytes : Bytes} {us vs : List UInt16} {u v : UInt16} {i j k : Nat}

/-! ## Groups at the front of bytes -/

/-- How many bytes a group has that begins with a byte. -/
def groupLength (b : UInt8) : Nat :=
  if b.toNat < 0x80 then 1 else if b.toNat < 0xE0 then 2 else 3

theorem Group.exists_cons (h : Group bs u) :
    ∃ b tail, bs = b :: tail ∧ bs.length = groupLength b := by
  obtain ⟨b, rfl, -, hb⟩ | ⟨b, c, rfl, hb, -⟩ | ⟨b, c, d, rfl, hb, -⟩ := h.form
  · rw [isSingle_iff] at hb
    exact ⟨b, [], rfl, by simp [groupLength, hb.2]⟩
  · rw [leadsTwo_iff] at hb
    have hmany : ¬b.toNat < 0x80 := by omega
    exact ⟨b, [c], rfl, by simp [groupLength, hmany, hb.2]⟩
  · rw [leadsThree_iff] at hb
    have hmany : ¬b.toNat < 0x80 := by omega
    have hthree : ¬b.toNat < 0xE0 := by omega
    exact ⟨b, [c, d], rfl, by simp [groupLength, hmany, hthree]⟩

/-- Where a group ends is known from its first byte. -/
theorem Group.append_inj (h : Group bs u) (h' : Group cs v) (heq : bs ++ rest = cs ++ rest') :
    bs = cs ∧ rest = rest' := by
  refine List.append_inj heq ?_
  obtain ⟨b, tail, rfl, hlength⟩ := h.exists_cons
  obtain ⟨b', tail', rfl, hlength'⟩ := h'.exists_cons
  obtain ⟨rfl, -⟩ := List.cons.inj heq
  rw [hlength, hlength']

/-- Of two sequences of groups at the front of the same bytes one extends the other. -/
theorem Groups.comparable {good good' : Bytes} (h : Groups good us) (h' : Groups good' vs)
    (heq : good ++ rest = good' ++ rest') :
    (∃ more ws, good' = good ++ more ∧ rest = more ++ rest' ∧ Groups more ws ∧
        vs.length = us.length + ws.length) ∨
      ∃ more ws, good = good' ++ more ∧ rest' = more ++ rest ∧ Groups more ws ∧
        us.length = vs.length + ws.length := by
  induction h generalizing good' vs with
  | nil => exact .inl ⟨good', vs, rfl, heq, h', by simp⟩
  | @cons bs cs u us head tail ih =>
    cases h' with
    | nil => exact .inr ⟨bs ++ cs, u :: us, rfl, heq.symm, .cons head tail, by simp⟩
    | cons head' tail' =>
      rw [List.append_assoc, List.append_assoc] at heq
      obtain ⟨rfl, htails⟩ := head.append_inj head' heq
      obtain ⟨more, ws, rfl, hrest, hmore, hlength⟩ | ⟨more, ws, rfl, hrest, hmore, hlength⟩ :=
        ih tail' htails
      · refine .inl ⟨more, ws, by rw [List.append_assoc], hrest, hmore, ?_⟩
        rw [List.length_cons, List.length_cons, hlength]
        omega
      · refine .inr ⟨more, ws, by rw [List.append_assoc], hrest, hmore, ?_⟩
        rw [List.length_cons, List.length_cons, hlength]
        omega

/-- Groups can be divided as their payloads are. -/
theorem Groups.exists_append (h : Groups bytes (us ++ vs)) :
    ∃ good rest, bytes = good ++ rest ∧ Groups good us ∧ Groups rest vs := by
  induction us generalizing bytes with
  | nil => exact ⟨[], bytes, rfl, .nil, h⟩
  | cons u us ih =>
    cases h with
    | @cons bs _ _ _ head tail =>
      obtain ⟨good, rest, rfl, hgood, hrest⟩ := ih tail
      exact ⟨bs ++ good, rest, by rw [List.append_assoc], .cons head hgood, hrest⟩

theorem Groups.append {good : Bytes} (h : Groups good us) (h' : Groups rest vs) :
    Groups (good ++ rest) (us ++ vs) := by
  induction h with
  | nil => exact h'
  | cons head _ ih =>
    rw [List.append_assoc]
    exact .cons head ih

/-- Where no group stands, no groups do. -/
theorem Broken.eq_nil_of_groups (h : Broken bytes k) {more : Bytes} (hmore : Groups more us)
    (heq : bytes = more ++ rest) : more = [] := by
  cases hmore with
  | nil => rfl
  | @cons bs cs u us head tail =>
    refine absurd head (h.none bs u ?_)
    rw [heq, List.append_assoc]
    exact List.prefix_append _ _

/-! ## The first invalid place -/

/-- All bytes are groups; those before place `i` are groups of a text, and the payload of the one
that stands there is half of a pair without its partner. -/
inductive Unpaired : Bytes → Nat → Prop
  | after {good rest : Bytes} {text : List Char} {u : UInt16} {us : List UInt16}
      (before : Groups good (Utf16.encode text)) (here : Groups rest (u :: us))
      (alone : Utf16.IsAlone u us) : Unpaired (good ++ rest) good.length

/-- The first sequence of bytes that is not text starts at place `i`. -/
def InvalidFrom (bytes : Bytes) (i : Nat) : Prop := (∃ k, Malformed bytes i k) ∨ Unpaired bytes i

/-- A group that is broken is found where it breaks. -/
theorem unitsFrom_of_broken (h : Broken bytes k) (offset : Nat) (done : List UInt16) :
    unitsFrom offset done bytes = .error (.invalidText (offset + k)) := by
  have houtcome := outcome_unitsFrom offset done bytes
  cases hunits : unitsFrom offset done bytes with
  | ok units =>
    rw [hunits] at houtcome
    cases houtcome with
    | read hgroups => exact absurd (h.eq_nil_of_groups hgroups (List.append_nil _).symm) h.nonempty
  | error e =>
    rw [hunits] at houtcome
    cases houtcome with
    | fault hmalformed =>
      generalize hbytes : bytes = bytes' at hmalformed
      cases hmalformed with
      | after before here =>
        cases h.eq_nil_of_groups before hbytes
        rw [List.nil_append] at hbytes
        subst hbytes
        rw [h.unique here]
        rfl

theorem unitsFrom_append {good : Bytes} (h : Groups good us) (offset : Nat) (done : List UInt16) :
    unitsFrom offset done (good ++ rest) =
      unitsFrom (offset + good.length) (us.reverse ++ done) rest := by
  induction h generalizing offset done with
  | nil => rfl
  | cons head _ ih =>
    rw [List.append_assoc, unitsFrom_group _ _ head, ih, List.length_append, Nat.add_assoc]
    simp

theorem Malformed.unitsFrom_eq (h : Malformed bytes i k) (offset : Nat) (done : List UInt16) :
    unitsFrom offset done bytes = .error (.invalidText (offset + i + k)) := by
  cases h with
  | after before here => rw [unitsFrom_append before, unitsFrom_of_broken here]

theorem Malformed.decode_eq (h : Malformed bytes i k) (offset : Nat) :
    decode bytes offset = .error (.invalidText (offset + i + k)) := by
  rw [decode, h.unitsFrom_eq]

theorem Unpaired.exists_groups (h : Unpaired bytes i) :
    ∃ text u rest, Groups bytes (Utf16.encode text ++ u :: rest) ∧ Utf16.IsAlone u rest := by
  cases h with
  | after before here alone => exact ⟨_, _, _, before.append here, alone⟩

theorem Unpaired.decode_eq (h : Unpaired bytes i) (offset : Nat) :
    decode bytes offset = .error (.invalidText offset) := by
  obtain ⟨text, u, rest, hgroups, halone⟩ := h.exists_groups
  rw [decode, unitsFrom_groups hgroups]
  dsimp only
  rw [List.reverse_nil, List.nil_append, Utf16.decode?_eq_none_iff.2 ⟨text, u, rest, rfl, halone⟩]

theorem exists_invalidFrom {offset : Nat} {e : Error} (h : decode bytes offset = .error e) :
    ∃ i, InvalidFrom bytes i := by
  unfold decode at h
  have houtcome := outcome_unitsFrom offset [] bytes
  cases hunits : unitsFrom offset [] bytes with
  | error e' =>
    rw [hunits] at houtcome
    cases houtcome with
    | fault hmalformed => exact ⟨_, .inl ⟨_, hmalformed⟩⟩
  | ok units =>
    rw [hunits] at h houtcome
    cases houtcome with
    | @read units hgroups =>
      dsimp only at h
      split at h
      · cases h
      · rename_i hnone
        obtain ⟨text, u, us, heq, halone⟩ := Utf16.decode?_eq_none_iff.1 hnone
        rw [List.reverse_nil, List.nil_append] at heq
        rw [heq] at hgroups
        obtain ⟨good, rest, rfl, hgood, hrest⟩ := hgroups.exists_append
        exact ⟨_, .inr (.after hgood hrest halone)⟩

/-! ## There is only one -/

theorem Malformed.unique {k' : Nat} (h : Malformed bytes i k) (h' : Malformed bytes j k') :
    i = j := by
  generalize hbytes : bytes = bytes' at h'
  cases h with
  | after before here =>
    cases h' with
    | after before' here' =>
      obtain ⟨more, ws, rfl, hrest, hmore, -⟩ | ⟨more, ws, rfl, hrest, hmore, -⟩ :=
        before.comparable before' hbytes
      · rw [here.eq_nil_of_groups hmore hrest, List.append_nil]
      · rw [here'.eq_nil_of_groups hmore hrest, List.append_nil]

theorem Groups.unique (h : Groups bytes us) (h' : Groups bytes vs) : us = vs := by
  have hread : unitsFrom 0 [] bytes = .ok us := unitsFrom_groups h
  rw [unitsFrom_groups h'] at hread
  exact (Except.ok.inj hread).symm

theorem Unpaired.unique (h : Unpaired bytes i) (h' : Unpaired bytes j) : i = j := by
  generalize hbytes : bytes = bytes' at h'
  cases h with
  | after before here alone =>
    cases h' with
    | after before' here' alone' =>
      have hunits := (before.append here).unique (hbytes ▸ before'.append here')
      have htext := Utf16.text_eq_of_isAlone hunits alone alone'
      -- as many groups stand before the one place as before the other
      rw [← htext] at before'
      obtain ⟨more, ws, rfl, -, hmore, hlength⟩ | ⟨more, ws, rfl, -, hmore, hlength⟩ :=
        before.comparable before' hbytes
      · have hnone : ws = [] := List.length_eq_zero_iff.1 (by omega)
        subst hnone
        cases hmore
        rw [List.append_nil]
      · have hnone : ws = [] := List.length_eq_zero_iff.1 (by omega)
        subst hnone
        cases hmore
        rw [List.append_nil]

theorem Malformed.not_unpaired (h : Malformed bytes i k) : ¬Unpaired bytes j := by
  intro h'
  obtain ⟨text, u, rest, hgroups, -⟩ := h'.exists_groups
  have hread : unitsFrom 0 [] bytes = .ok _ := unitsFrom_groups hgroups
  rw [h.unitsFrom_eq] at hread
  cases hread

theorem InvalidFrom.unique (h : InvalidFrom bytes i) (h' : InvalidFrom bytes j) : i = j := by
  obtain ⟨k, h⟩ | h := h
  · obtain ⟨k', h'⟩ | h' := h'
    · exact h.unique h'
    · exact absurd h' h.not_unpaired
  · obtain ⟨k', h'⟩ | h' := h'
    · exact absurd h h'.not_unpaired
    · exact h.unique h'

/-! ## What is reported -/

/-- **Which place the decoder reports.** It fails exactly if the bytes are invalid from some place
on, and there is only one such place. A malformed group is reported at the byte that breaks it, and
half a pair at the start of all bytes; so the place from which the bytes are invalid is reported
just if no byte of the group there is right, or if half a pair stands at the start. -/
theorem decode_reports (bytes : Bytes) (offset : Nat) :
    ((∃ e, decode bytes offset = .error e) ↔ ∃! i, InvalidFrom bytes i) ∧
    (∀ i k, Malformed bytes i k →
      decode bytes offset = .error (.invalidText (offset + i + k))) ∧
    (∀ i, Unpaired bytes i → decode bytes offset = .error (.invalidText offset)) ∧
    ∀ i, InvalidFrom bytes i → (decode bytes offset = .error (.invalidText (offset + i)) ↔
      Malformed bytes i 0 ∨ Unpaired bytes i ∧ i = 0) := by
  refine ⟨⟨fun ⟨e, he⟩ => ?_, fun ⟨i, hi, _⟩ => ?_⟩, fun i k h => h.decode_eq offset,
    fun i h => h.decode_eq offset, fun i hi => ?_⟩
  · obtain ⟨i, hi⟩ := exists_invalidFrom he
    exact ⟨i, hi, fun j hj => hj.unique hi⟩
  · obtain ⟨k, h⟩ | h := hi
    · exact ⟨_, h.decode_eq offset⟩
    · exact ⟨_, h.decode_eq offset⟩
  · obtain ⟨k, h⟩ | h := hi
    · rw [h.decode_eq]
      constructor
      · intro hplace
        have hk : k = 0 := by
          simpa using hplace
        exact .inl (hk ▸ h)
      · rintro (h' | ⟨h', -⟩)
        · have hsame := (h.decode_eq 0).symm.trans (h'.decode_eq 0)
          simp at hsame
          simp [hsame]
        · exact absurd h' h.not_unpaired
    · rw [h.decode_eq]
      constructor
      · intro hplace
        exact .inr ⟨h, by simpa using hplace⟩
      · rintro (h' | ⟨-, rfl⟩)
        · exact absurd h h'.not_unpaired
        · rfl

/-- After a letter, a group that is broken off is reported behind its start, and half a pair is
reported before its start. -/
theorem decode_reports_elsewhere :
    (InvalidFrom [0x61, 0xC3, 0x28] 1 ∧
        decode [0x61, 0xC3, 0x28] 0 = .error (.invalidText 2)) ∧
      InvalidFrom [0x61, 0xED, 0xA0, 0x80] 1 ∧
        decode [0x61, 0xED, 0xA0, 0x80] 0 = .error (.invalidText 0) := by
  have hletter : Group [0x61] 0x61 := .of_single (by decide) (by decide)
  have hbroken : Broken [0xC3, 0x28] 1 := .second (.inl (by decide)) (by rintro c ⟨⟩; rfl)
  have hhalf : Group [0xED, 0xA0, 0x80] 0xD800 := .of_three (by decide) (by decide) (by decide)
  have hunpaired : Unpaired ([0x61] ++ [0xED, 0xA0, 0x80]) 1 :=
    @Unpaired.after _ _ ['a'] _ _ (.cons hletter .nil) (.cons hhalf .nil)
      (.inr ⟨by decide, nofun⟩)
  exact ⟨⟨.inl ⟨1, hbroken.malformed.cons hletter⟩, rfl⟩, .inr hunpaired, rfl⟩

end SchemaRecords.ClassFile.ModifiedUtf8
