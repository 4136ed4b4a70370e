import Mathlib.Data.List.Forall2
import SchemaRecords.ClassFile.Member
import SchemaRecords.Proofs.ClassFile.Pool
import SchemaRecords.Proofs.ClassFile.Reading

/-!
# What a table holds after a write

`Writes w Q` says of a write `w` that, whenever it succeeds, the pool has only
grown, the bytes that were there are still there, and the bytes put after them
satisfy `Q` in every constant table that starts with the pool's entries. Such
statements are put together along the sequence of writes (`Writes.bind`,
`Writes.intern_bind`, `Writes.forM`); an attribute, whose length is filled in
afterwards, is treated by `Writes.inAttribute`.
-/

namespace SchemaRecords.ClassFile

/-! ## Replacing bytes -/

/-- Bytes that were written are replaced by as many others. -/
theorem toList_overwrite (before old after new : Bytes) (h : old.length = new.length) :
    (Buffer.overwrite (before ++ old ++ after).toArray before.length new).toList
      = before ++ new ++ after := by
  induction new generalizing before old with
  | nil =>
    rw [List.eq_nil_of_length_eq_zero h]
    simp [Buffer.overwrite]
  | cons x new ih =>
    obtain ⟨y, old, rfl⟩ := List.exists_cons_of_length_eq_add_one h
    have hset : (before ++ y :: old ++ after).toArray.setIfInBounds before.length x
        = (before ++ [x] ++ old ++ after).toArray := by
      simp
    have hlength : before.length + 1 = (before ++ [x]).length := by simp
    rw [Buffer.overwrite, hset, hlength, ih (before ++ [x]) old (by simpa using h)]
    simp

/-- Closing an attribute puts the number of bytes after the length field into the field. -/
theorem close_eq_ok {lengthAt : Nat} {s s' : Writer} (h : Write.close lengthAt s = .ok () s') :
    s.out.size - (lengthAt + 4) < 4294967296 ∧
      s' = ⟨s.pool, s.out.setLength lengthAt (s.out.size - (lengthAt + 4)).toUInt32⟩ := by
  unfold Write.close Buffer.attributeLength at h
  simp only at h
  split at h
  · rename_i length hlength
    split at hlength
    · rename_i hlt
      cases hlength
      cases h
      exact ⟨hlt, rfl⟩
    · cases hlength
  · cases h

theorem count16_eq_ok {what : Countable} {n : Nat} {k : UInt16} (h : count16 what n = .ok k) :
    k = n.toUInt16 ∧ n < 65536 := by
  unfold count16 at h
  split at h
  · cases h
    exact ⟨rfl, by assumption⟩
  · cases h

/-- A write that begins with a request goes on after the request's constants. -/
theorem intern_bind_eq_ok {α β : Type} {r : Intern α} {f : α → Write β} {s s' : Writer} {b : β}
    (h : (Write.intern r >>= f) s = .ok b s') :
    ∃ a q, r s.pool = .ok a q ∧ f a ⟨q, s.out⟩ = .ok b s' := by
  obtain ⟨a, s₁, h₁, h₂⟩ := bind_eq_ok.1 h
  obtain ⟨pool, out⟩ := s
  unfold Write.intern at h₁
  simp only at h₁
  split at h₁
  · rename_i q hq
    cases h₁
    exact ⟨a, q, hq, h₂⟩
  · cases h₁

/-! ## Successful writes -/

/-- Between two states of a writer the pool grew and `bs` was written. -/
structure Wrote (s s' : Writer) (bs : Bytes) : Prop where
  grows : s.pool.Grows s'.pool
  bytes : s'.out.toBytes = s.out.toBytes ++ bs

theorem Wrote.trans {s s' s'' : Writer} {bs cs : Bytes} (h : Wrote s s' bs)
    (h' : Wrote s' s'' cs) : Wrote s s'' (bs ++ cs) :=
  ⟨h.grows.trans h'.grows, by rw [h'.bytes, h.bytes, List.append_assoc]⟩

/-- Whenever `w` succeeds, it has written bytes that satisfy `Q` in all later tables. -/
def Writes (w : Write Unit) (Q : ConstantTable → Bytes → Prop) : Prop :=
  ∀ s s', s.pool.Valid → w s = .ok () s' →
    ∃ bs, Wrote s s' bs ∧ ∀ t, s'.pool.table ≤ t → Q t bs

/-- A request whose answer satisfies `P` in all later tables. -/
def Resolves {α : Type} (r : Intern α) (P : ConstantTable → α → Prop) : Prop :=
  ∀ p q a, p.Valid → r p = .ok a q → p.Grows q ∧ ∀ t, q.table ≤ t → P t a

theorem resolves_utf8 (text : String) : Resolves (Pool.utf8 text) fun t i => t.utf8 i = .ok text :=
  fun _ _ _ hp h => ⟨(Pool.utf8_appends text).grows h, fun _ ht => Pool.utf8_resolves hp h ht⟩

theorem resolves_classRef (name : String) :
    Resolves (Pool.classRef name) fun t i => t.className i = .ok name :=
  fun _ _ _ hp h =>
    ⟨(Pool.classRef_appends name).grows h, fun _ ht => Pool.classRef_resolves hp h ht⟩

theorem resolves_string (text : String) :
    Resolves (Pool.string text) fun t i => ∃ n, t.get i = .ok (.string n) ∧ t.utf8 n = .ok text :=
  fun _ _ _ hp h => ⟨(Pool.string_appends text).grows h, fun _ ht => Pool.string_resolves hp h ht⟩

theorem resolves_staticHandle (owner name descriptor : String) :
    Resolves (Pool.methodHandle .invokeStatic owner name descriptor) fun t i =>
      t.methodHandle i = .ok (.invokeStatic, ⟨owner, name, descriptor⟩) :=
  fun _ _ _ hp h => ⟨(Pool.methodHandle_appends _ _ _ _).grows h,
    fun _ ht => Pool.methodHandle_resolves hp h ht⟩

theorem resolves_invokeDynamic (bootstrap : UInt16) (name descriptor : String) :
    Resolves (Pool.invokeDynamic bootstrap name descriptor) fun t i =>
      t.invokeDynamic i = .ok (bootstrap, name, descriptor) :=
  fun _ _ _ hp h => ⟨(Pool.invokeDynamic_appends _ _ _).grows h,
    fun _ ht => Pool.invokeDynamic_resolves hp h ht⟩

namespace Writes

variable {w v : Write Unit} {Q R : ConstantTable → Bytes → Prop}

theorem mono (h : Writes w Q) (hQ : ∀ t bs, Q t bs → R t bs) : Writes w R := by
  intro s s' hs hw
  obtain ⟨bs, hwrote, hbs⟩ := h s s' hs hw
  exact ⟨bs, hwrote, fun t ht => hQ t bs (hbs t ht)⟩

theorem pure : Writes (pure ()) fun _ bs => bs = [] := by
  intro s s' _ h
  obtain ⟨-, rfl⟩ := pure_eq_ok.1 h
  exact ⟨[], ⟨Pool.Grows.refl _, by simp⟩, fun _ _ => rfl⟩

theorem bind (hw : Writes w Q) (hv : Writes v R) :
    Writes (do w; v) fun t bs => ∃ b c, bs = b ++ c ∧ Q t b ∧ R t c := by
  intro s s'' hs h
  obtain ⟨_, s', h₁, h₂⟩ := bind_eq_ok.1 h
  obtain ⟨b, hb, hQ⟩ := hw s s' hs h₁
  obtain ⟨c, hc, hR⟩ := hv s' s'' (hb.grows.valid hs) h₂
  refine ⟨b ++ c, hb.trans hc, fun t ht => ⟨b, c, rfl, ?_, hR t ht⟩⟩
  exact hQ t (le_trans hc.grows.le ht)

theorem ite {c : Bool} (hw : c = true → Writes w Q) (hv : c = false → Writes v Q) :
    Writes (if c then w else v) Q := by
  cases c with
  | true => exact hw rfl
  | false => exact hv rfl

theorem emit (bs : Bytes) : Writes (Write.emit bs) fun _ cs => cs = bs := by
  intro s s' _ h
  obtain ⟨pool, out⟩ := s
  cases h
  refine ⟨bs, ⟨Pool.Grows.refl _, ?_⟩, fun _ _ => rfl⟩
  obtain ⟨data⟩ := out
  simp [Buffer.toBytes, Buffer.append]

/-- A count that is written fits in its field. -/
theorem count (what : Countable) (n : Nat) :
    Writes (Write.count what n) fun _ cs => cs = Bytes.ofUInt16 n.toUInt16 ∧ n < 65536 := by
  intro s s' hs h
  unfold Write.count at h
  split at h
  · rename_i k hk
    obtain ⟨rfl, hn⟩ := count16_eq_ok hk
    obtain ⟨bs, hwrote, hbs⟩ := emit _ s s' hs h
    exact ⟨bs, hwrote, fun t ht => ⟨hbs t ht, hn⟩⟩
  · cases h

theorem intern_bind {α : Type} {r : Intern α} {f : α → Write Unit}
    {P : ConstantTable → α → Prop} {Q : α → ConstantTable → Bytes → Prop} (hr : Resolves r P)
    (hf : ∀ a, Writes (f a) (Q a)) :
    Writes (Write.intern r >>= f) fun t bs => ∃ a, P t a ∧ Q a t bs := by
  intro s s' hs h
  obtain ⟨a, q, hq, h⟩ := intern_bind_eq_ok h
  obtain ⟨hgrows, hP⟩ := hr s.pool q a hs hq
  obtain ⟨bs, hwrote, hQ⟩ := hf a _ s' (hgrows.valid hs) h
  refine ⟨bs, ⟨hgrows.trans hwrote.grows, hwrote.bytes⟩, fun t ht => ⟨a, ?_, hQ t ht⟩⟩
  exact hP t (le_trans hwrote.grows.le ht)

/-- Items that are written one after the other stand one after the other. -/
theorem forM {α : Type} {f : α → Write Unit} {Q : α → ConstantTable → Bytes → Prop}
    (hf : ∀ a, Writes (f a) (Q a)) (as : List α) :
    Writes (as.forM f) fun t bs =>
      ∃ pieces, bs = pieces.flatten ∧ List.Forall₂ (fun a b => Q a t b) as pieces := by
  induction as with
  | nil =>
    refine pure.mono fun t bs h => ⟨[], by simpa using h, .nil⟩
  | cons a as ih =>
    refine ((hf a).bind ih).mono fun t bs h => ?_
    obtain ⟨b, c, rfl, hb, pieces, rfl, hpieces⟩ := h
    exact ⟨b :: pieces, by simp, .cons hb hpieces⟩

/-- An attribute has its name, the length of its body and its body. -/
theorem inAttribute (name : UInt16) (hw : Writes w Q) :
    Writes (Write.inAttribute name w) fun t bs =>
      ∃ data, bs = Bytes.ofUInt16 name ++ Bytes.ofUInt32 data.length.toUInt32 ++ data
        ∧ data.length < 4294967296 ∧ Q t data := by
  intro s s'' hs h
  obtain ⟨pool, ⟨out⟩⟩ := s
  unfold Write.inAttribute at h
  simp only at h
  split at h
  · rename_i s' hbody
    obtain ⟨data, hwrote, hQ⟩ := hw ⟨pool, Buffer.openAttribute ⟨out⟩ name⟩ s' hs hbody
    obtain ⟨pool', ⟨out'⟩⟩ := s'
    have hout : out' = (out.toList ++ Bytes.ofUInt16 name ++ Bytes.ofUInt32 0 ++ data).toArray := by
      have := hwrote.bytes
      simp only [Buffer.toBytes, Buffer.openAttribute, Buffer.append] at this
      rw [← Array.toList_inj]
      simp [this]
    have hsize : (Buffer.mk out').size - (out.size + 2 + 4) = data.length := by
      rw [hout]
      simp [Buffer.size]
      omega
    obtain ⟨hlt, rfl⟩ := close_eq_ok h
    simp only [Buffer.size] at hlt hsize ⊢
    rw [hsize] at hlt ⊢
    refine ⟨_, ⟨hwrote.grows, ?_⟩, fun t ht => ⟨data, rfl, hlt, hQ t ht⟩⟩
    have hat : out.size + 2 = (out.toList ++ Bytes.ofUInt16 name).length := by simp
    have hlength : (Bytes.ofUInt32 0).length
        = (Bytes.ofUInt32 data.length.toUInt32).length := rfl
    simp only [Buffer.toBytes, Buffer.setLength]
    rw [hout, hat, toList_overwrite _ _ data _ hlength]
    simp
  · cases h

end Writes

end SchemaRecords.ClassFile
