import SchemaRecords.ClassFile.Draft
import SchemaRecords.Proofs.ClassFile.Pool

/-!
# What a step asks of the pool

`Asks step texts k b Q` says of a step in making a class file that it stores the
texts `texts`, needs at most `k` new entries of the pool and writes at most `b`
bytes. It succeeds, with a result that satisfies `Q`, unless one of the texts is
too long for an entry or the pool has no room left; there is no other error. If
it does succeed, all the texts did fit, and they are the only texts that the pool
has more than before. `AsksFrom` says so of one state only.

Such statements are put together along the sequence of steps (`Asks.bind`,
`AsksFrom.bind`, `Asks.forM`), and `AsksFrom.succeeds` says when a step is certain
to succeed.
-/

namespace SchemaRecords.ClassFile

/-- A text that an entry of the pool can hold. -/
def Fits (text : String) : Prop := ModifiedUtf8.encodedLength text ≤ 65535

instance (text : String) : Decidable (Fits text) :=
  inferInstanceAs (Decidable (ModifiedUtf8.encodedLength text ≤ 65535))

theorem fits_of_utf8ByteSize_le {text : String} (h : text.utf8ByteSize ≤ 10922) : Fits text := by
  have := ModifiedUtf8.encodedLength_le text
  unfold Fits
  omega

namespace Pool

/-- The pool holds a text. -/
def HasText (p : Pool) (text : String) : Prop := Constant.utf8 text ∈ p.entries

/-- Constants that have an index are in the pool. -/
def Listed (p : Pool) : Prop := ∀ c i, p.index[c]? = some i → c ∈ p.entries

/-- From one pool to the other the texts were stored, and no others. -/
def Stores (p p' : Pool) (texts : List String) : Prop :=
  p.Listed → p'.Listed ∧ ∀ text, p'.HasText text ↔ p.HasText text ∨ text ∈ texts

theorem Stores.refl (p : Pool) : p.Stores p [] :=
  fun h => ⟨h, fun _ => by simp⟩

theorem Stores.trans {p q r : Pool} {texts texts' : List String} (h : p.Stores q texts)
    (h' : q.Stores r texts') : p.Stores r (texts ++ texts') := by
  intro hp
  obtain ⟨hq, hpq⟩ := h hp
  obtain ⟨hr, hqr⟩ := h' hq
  refine ⟨hr, fun text => ?_⟩
  rw [hqr, hpq, List.mem_append, or_assoc]

end Pool

/-- A state with a pool and with bytes already written. -/
class Sized (σ : Type) where
  pool : σ → Pool
  /-- How many bytes are written. -/
  bytes : σ → Nat

/-- How many entries the pool has. -/
def Sized.entries {σ : Type} [Sized σ] (s : σ) : Nat := (Sized.pool s).size

instance : Sized Pool := ⟨id, fun _ => 0⟩

instance : Sized Writer := ⟨Writer.pool, fun w => w.out.size⟩

instance : Sized Draft := ⟨Draft.pool, fun _ => 0⟩

/-- Errors that an error of the class file may be the cause of. -/
class Wraps (ε : Type) where
  wrap : Error → ε

instance : Wraps Error := ⟨id⟩

/-- Why a step can fail that stores texts in a pool of up to `size` entries. -/
inductive Refused (texts : List String) (size : Nat) : Error → Prop
  | text {t : String} (ht : t ∈ texts) (h : ¬Fits t) :
      Refused texts size (.textTooLong (ModifiedUtf8.encodedLength t))
  | room (h : Pool.capacity < size) : Refused texts size (.poolFull Pool.capacity)

theorem Refused.mono {texts texts' : List String} {size size' : Nat} {e : Error}
    (h : Refused texts size e) (htexts : texts ⊆ texts') (hsize : size ≤ size') :
    Refused texts' size' e := by
  cases h with
  | text ht h => exact .text (htexts ht) h
  | room h => exact .room (Nat.lt_of_lt_of_le h hsize)

/-- A step that stores texts and adds at most `k` entries and `b` bytes went well. -/
structure Accepted {σ α : Type} [Sized σ] (texts : List String) (k b : Nat) (Q : α → Prop) (s : σ)
    (a : α) (s' : σ) : Prop where
  fits : ∀ t ∈ texts, Fits t
  entries : Sized.entries s' ≤ Sized.entries s + k
  bytes : Sized.bytes s' ≤ Sized.bytes s + b
  result : Q a
  stores : (Sized.pool s).Stores (Sized.pool s') texts

/-- From state `s` the step stores the texts, adds at most `k` entries and `b` bytes, and fails only
for lack of room. -/
def AsksFrom {ε σ α : Type} [Wraps ε] [Sized σ] (s : σ) (step : EStateM ε σ α)
    (texts : List String) (k b : Nat) (Q : α → Prop) : Prop :=
  (∃ a s', step s = .ok a s' ∧ Accepted texts k b Q s a s') ∨
    ∃ e s', step s = .error (Wraps.wrap e) s' ∧ Refused texts (Sized.entries s + k) e

/-- From every state the step stores the texts, adds at most `k` entries and `b` bytes, and fails
only for lack of room. -/
def Asks {ε σ α : Type} [Wraps ε] [Sized σ] (step : EStateM ε σ α) (texts : List String)
    (k b : Nat) (Q : α → Prop) : Prop :=
  ∀ s, AsksFrom s step texts k b Q

namespace AsksFrom

variable {ε σ α β : Type} [Wraps ε] [Sized σ] {s : σ} {step : EStateM ε σ α}
  {texts texts' : List String} {k k' b b' : Nat} {Q : α → Prop}

/-- With room for all it asks, a step succeeds. -/
theorem succeeds (h : AsksFrom s step texts k b Q) (htexts : ∀ t ∈ texts, Fits t)
    (hroom : Sized.entries s + k ≤ Pool.capacity) :
    ∃ a s', step s = .ok a s' ∧ Accepted texts k b Q s a s' := by
  rcases h with hok | ⟨e, s', -, hrefused⟩
  · exact hok
  · cases hrefused with
    | text ht hfits => exact absurd (htexts _ ht) hfits
    | room hfull => exact absurd hroom (Nat.not_le.mpr hfull)

theorem accepted (h : AsksFrom s step texts k b Q) {s' : σ} {a : α} (hstep : step s = .ok a s') :
    Accepted texts k b Q s a s' := by
  rcases h with ⟨_, _, hok, haccepted⟩ | ⟨_, _, herror, -⟩
  · cases hok.symm.trans hstep
    exact haccepted
  · cases herror.symm.trans hstep

theorem mono {R : α → Prop} (h : AsksFrom s step texts k b Q) (hk : k ≤ k') (hb : b ≤ b')
    (hQ : ∀ a, Q a → R a) : AsksFrom s step texts k' b' R := by
  rcases h with ⟨a, s', hok, ha⟩ | ⟨e, s', herror, he⟩
  · refine .inl ⟨a, s', hok, ha.fits, ?_, ?_, hQ a ha.result, ha.stores⟩
    · exact Nat.le_trans ha.entries (Nat.add_le_add_left hk _)
    · exact Nat.le_trans ha.bytes (Nat.add_le_add_left hb _)
  · exact .inr ⟨e, s', herror, he.mono (List.Subset.refl _) (Nat.add_le_add_left hk _)⟩

theorem bind {f : α → EStateM ε σ β} {R : β → Prop} (h : AsksFrom s step texts k b Q)
    (hf : ∀ a s', step s = .ok a s' → Q a → AsksFrom s' (f a) texts' k' b' R) :
    AsksFrom s (step >>= f) (texts ++ texts') (k + k') (b + b') R := by
  rcases h with ⟨a, s', hok, ha⟩ | ⟨e, s', herror, he⟩
  · have hentries := ha.entries
    have hbytes := ha.bytes
    rcases hf a s' hok ha.result with ⟨c, s'', hok', hc⟩ | ⟨e, s'', herror, he⟩
    · have hentries' := hc.entries
      have hbytes' := hc.bytes
      refine .inl ⟨c, s'', bind_eq_ok.mpr ⟨a, s', hok, hok'⟩, ?_, by omega, by omega, hc.result,
        ha.stores.trans hc.stores⟩
      intro t ht
      rcases List.mem_append.mp ht with ht | ht
      · exact ha.fits t ht
      · exact hc.fits t ht
    · refine .inr ⟨e, s'', bind_eq_error.mpr (.inr ⟨a, s', hok, herror⟩), ?_⟩
      exact he.mono (List.subset_append_right _ _) (by omega)
  · refine .inr ⟨e, s', bind_eq_error.mpr (.inl herror), ?_⟩
    exact he.mono (List.subset_append_left _ _) (by omega)

end AsksFrom

namespace Asks

variable {ε σ α β : Type} [Wraps ε] [Sized σ] {step : EStateM ε σ α} {texts texts' : List String}
  {k k' b b' : Nat} {Q : α → Prop}

theorem mono {R : α → Prop} (h : Asks step texts k b Q) (hk : k ≤ k') (hb : b ≤ b')
    (hQ : ∀ a, Q a → R a) : Asks step texts k' b' R :=
  fun s => (h s).mono hk hb hQ

theorem pure {a : α} (ha : Q a) : Asks (ε := ε) (σ := σ) (pure a) [] 0 0 Q := by
  intro s
  exact .inl ⟨a, s, rfl, by simp, Nat.le_refl _, Nat.le_refl _, ha, .refl _⟩

theorem bind {f : α → EStateM ε σ β} {R : β → Prop} (h : Asks step texts k b Q)
    (hf : ∀ a, Q a → Asks (f a) texts' k' b' R) :
    Asks (step >>= f) (texts ++ texts') (k + k') (b + b') R :=
  fun s => (h s).bind fun a s' _ ha => hf a ha s'

theorem ite {c : Bool} {step' : EStateM ε σ α} (h : c = true → Asks step texts k b Q)
    (h' : c = false → Asks step' texts' k b Q) :
    Asks (if c then step else step') (if c then texts else texts') k b Q := by
  cases c with
  | true => exact h rfl
  | false => exact h' rfl

/-- Items that each ask for at most as much. -/
theorem forM {f : β → EStateM ε σ PUnit} {texts : β → List String} {xs : List β}
    (h : ∀ x ∈ xs, Asks (f x) (texts x) k b fun _ => True) :
    Asks (xs.forM f) (xs.flatMap texts) (xs.length * k) (xs.length * b) fun _ => True := by
  induction xs with
  | nil =>
    rw [List.flatMap_nil, List.length_nil, Nat.zero_mul, Nat.zero_mul]
    exact pure trivial
  | cons x xs ih =>
    have hrest := ih fun y hy => h y (by simp [hy])
    have hall := (h x (by simp)).bind fun _ _ => hrest
    refine hall.mono ?_ ?_ fun _ _ => trivial
    · rw [List.length_cons, Nat.succ_mul]
      omega
    · rw [List.length_cons, Nat.succ_mul]
      omega

/-- There is a result for each item. -/
theorem mapM {f : β → EStateM ε σ α} {texts : β → List String} {xs : List β}
    (h : ∀ x ∈ xs, Asks (f x) (texts x) k b fun _ => True) :
    Asks (xs.mapM f) (xs.flatMap texts) (xs.length * k) (xs.length * b)
      fun ys => ys.length = xs.length := by
  induction xs with
  | nil =>
    rw [List.mapM_nil, List.flatMap_nil, List.length_nil, Nat.zero_mul, Nat.zero_mul]
    exact pure rfl
  | cons x xs ih =>
    have hrest := ih fun y hy => h y (by simp [hy])
    have hall := (h x (by simp)).bind fun y _ =>
      hrest.bind (R := fun ys => ys.length = (x :: xs).length) fun ys hys =>
        pure (a := y :: ys) (by rw [List.length_cons, hys, List.length_cons])
    rw [List.append_nil] at hall
    rw [List.mapM_cons, List.flatMap_cons]
    refine hall.mono ?_ ?_ fun _ h => h
    · rw [List.length_cons, Nat.succ_mul]
      omega
    · rw [List.length_cons, Nat.succ_mul]
      omega

/-- A step that, on every state, does what another does on a state with the same pool. -/
theorem lift {ε' τ : Type} [Wraps ε'] [Sized τ] {step' : EStateM ε' τ β} {R : β → Prop}
    (h : Asks step texts k b Q)
    (hlift : ∀ t, ∃ s, Sized.pool s = Sized.pool t ∧
      (∀ a s', step s = .ok a s' → ∃ c t', step' t = .ok c t' ∧
        Sized.pool t' = Sized.pool s' ∧ Sized.bytes t' ≤ Sized.bytes t + b' ∧ (Q a → R c)) ∧
      ∀ e s', step s = .error (Wraps.wrap e) s' → ∃ t', step' t = .error (Wraps.wrap e) t') :
    Asks step' texts k b' R := by
  intro t
  obtain ⟨s, hpool, hok, herror⟩ := hlift t
  rcases h s with ⟨a, s', hstep, ha⟩ | ⟨e, s', hstep, he⟩
  · obtain ⟨c, t', hstep', hpool', hbytes, hR⟩ := hok a s' hstep
    refine .inl ⟨c, t', hstep', ha.fits, ?_, hbytes, hR ha.result, ?_⟩
    · rw [Sized.entries, Sized.entries, hpool', ← hpool]
      exact ha.entries
    · rw [hpool', ← hpool]
      exact ha.stores
  · obtain ⟨t', hstep'⟩ := herror e s' hstep
    refine .inr ⟨e, t', hstep', ?_⟩
    rw [Sized.entries, ← hpool]
    exact he

end Asks

/-! ## Constants -/

/-- The constant is no text. -/
class Constant.NoText (c : Constant) : Prop where
  ne : ∀ text, c ≠ .utf8 text

instance (value : Int32) : (Constant.integer value).NoText := ⟨nofun⟩

instance (name : UInt16) : (Constant.classRef name).NoText := ⟨nofun⟩

instance (text : UInt16) : (Constant.string text).NoText := ⟨nofun⟩

instance (owner nat : UInt16) : (Constant.fieldRef owner nat).NoText := ⟨nofun⟩

instance (owner nat : UInt16) : (Constant.methodRef owner nat).NoText := ⟨nofun⟩

instance (name descriptor : UInt16) : (Constant.nameAndType name descriptor).NoText := ⟨nofun⟩

instance (kind : HandleKind) (reference : UInt16) :
    (Constant.methodHandle kind reference).NoText := ⟨nofun⟩

instance (bootstrap nat : UInt16) : (Constant.invokeDynamic bootstrap nat).NoText := ⟨nofun⟩

namespace Pool

/-- An inserted constant is listed, and is all that is new. -/
theorem listed_insert {p : Pool} (hp : p.Listed) (c : Constant) {i : UInt16} {q : Pool}
    (h : insert c p = .ok i q) : q.Listed ∧ ∀ d, d ∈ q.entries ↔ d ∈ p.entries ∨ d = c := by
  unfold insert at h
  split at h
  · rename_i j hj
    cases h
    refine ⟨hp, fun d => ?_⟩
    constructor
    · exact .inl
    · rintro (hd | rfl)
      · exact hd
      · exact hp _ _ hj
  · split at h
    · cases h
    · obtain ⟨entries, index⟩ := p
      cases h
      refine ⟨fun d j hd => ?_, fun d => ?_⟩
      · rw [Std.HashMap.getElem?_insert] at hd
        split at hd
        · rename_i hsame
          rw [← eq_of_beq hsame]
          exact Array.mem_push_self
        · exact Array.mem_push_of_mem _ (hp d j hd)
      · exact Array.mem_push

/-- Inserting succeeds unless the pool is full. -/
theorem insert_fills (c : Constant) (p : Pool) :
    (∃ i q, insert c p = .ok i q ∧ q.size ≤ p.size + 1) ∨
      ∃ e, insert c p = .error e p ∧ Refused [] (p.size + 1) e := by
  unfold insert
  split
  · rename_i i _
    exact .inl ⟨i, p, rfl, Nat.le_succ _⟩
  · split
    · rename_i hfull
      exact .inr ⟨_, rfl, .room (Nat.lt_succ_of_le hfull)⟩
    · obtain ⟨entries, index⟩ := p
      exact .inl ⟨_, _, rfl, Nat.le_of_eq (Array.size_push c)⟩

theorem insert_asks (c : Constant) [c.NoText] : Asks (insert c) [] 1 0 fun _ => True := by
  intro p
  rcases insert_fills c p with ⟨i, q, hok, hsize⟩ | ⟨e, herror, he⟩
  · refine .inl ⟨i, q, hok, by simp, hsize, Nat.le_refl _, trivial, fun hp => ?_⟩
    obtain ⟨hq, hmem⟩ := listed_insert hp c hok
    refine ⟨hq, fun text => ?_⟩
    have hne : Constant.utf8 text ≠ c := fun h => Constant.NoText.ne text h.symm
    exact (hmem _).trans (by simp [hne, HasText, Sized.pool])
  · exact .inr ⟨e, p, herror, he⟩

theorem utf8_asks (text : String) : Asks (utf8 text) [text] 1 0 fun _ => True := by
  intro p
  unfold AsksFrom utf8
  simp only
  split
  · rename_i hlength
    exact .inr ⟨_, p, rfl, .text (List.mem_singleton.mpr rfl) (Nat.not_le.mpr hlength)⟩
  · rename_i hlength
    rcases insert_fills (.utf8 text) p with ⟨i, q, hok, hsize⟩ | ⟨e, herror, he⟩
    · refine .inl ⟨i, q, hok, ?_, hsize, Nat.le_refl _, trivial, fun hp => ?_⟩
      · intro t ht
        rw [List.mem_singleton.mp ht]
        exact Nat.not_lt.mp hlength
      · obtain ⟨hq, hmem⟩ := listed_insert hp (.utf8 text) hok
        exact ⟨hq, fun t => (hmem _).trans (by simp [HasText, Sized.pool])⟩
    · exact .inr ⟨e, p, herror, he.mono (List.nil_subset _) (Nat.le_refl _)⟩

theorem classRef_asks (name : String) : Asks (classRef name) [name] 2 0 fun _ => True :=
  (utf8_asks name).bind fun _ _ => insert_asks _

theorem string_asks (text : String) : Asks (string text) [text] 2 0 fun _ => True :=
  (utf8_asks text).bind fun _ _ => insert_asks _

theorem nameAndType_asks (name descriptor : String) :
    Asks (nameAndType name descriptor) [name, descriptor] 3 0 fun _ => True :=
  (utf8_asks name).bind fun _ _ => (utf8_asks descriptor).bind fun _ _ => insert_asks _

theorem fieldRef_asks (owner name descriptor : String) :
    Asks (fieldRef owner name descriptor) [owner, name, descriptor] 6 0 fun _ => True :=
  (classRef_asks owner).bind fun _ _ => (nameAndType_asks name descriptor).bind fun _ _ =>
    insert_asks _

theorem methodRef_asks (owner name descriptor : String) :
    Asks (methodRef owner name descriptor) [owner, name, descriptor] 6 0 fun _ => True :=
  (classRef_asks owner).bind fun _ _ => (nameAndType_asks name descriptor).bind fun _ _ =>
    insert_asks _

theorem staticHandle_asks (owner name descriptor : String) :
    Asks (methodHandle .invokeStatic owner name descriptor) [owner, name, descriptor] 7 0
      fun _ => True :=
  (methodRef_asks owner name descriptor).bind fun _ _ => insert_asks _

theorem invokeDynamic_asks (bootstrap : UInt16) (name descriptor : String) :
    Asks (invokeDynamic bootstrap name descriptor) [name, descriptor] 4 0 fun _ => True :=
  (nameAndType_asks name descriptor).bind fun _ _ => insert_asks _

end Pool

/-! ## Tables -/

namespace Write

variable {texts : List String} {k b : Nat}

theorem size_append (data : Array UInt8) (bytes : Bytes) :
    (data ++ bytes).size = data.size + bytes.length := by
  rw [← Array.length_toList, Array.toList_appendList, List.length_append, Array.length_toList]

theorem emit_asks {bytes : Bytes} (n : Nat) (h : bytes.length = n) :
    Asks (emit bytes) [] 0 n fun _ => True := by
  intro w
  obtain ⟨pool, ⟨data⟩⟩ := w
  refine .inl ⟨(), ⟨pool, ⟨data ++ bytes⟩⟩, rfl, by simp, Nat.le_refl _, ?_, trivial, .refl _⟩
  rw [← h]
  exact Nat.le_of_eq (size_append data bytes)

theorem count_asks (what : Countable) {n : Nat} (hn : n < 65536) :
    Asks (count what n) [] 0 2 fun _ => True := by
  have hcount : count what n = emit (Bytes.ofUInt16 n.toUInt16) := by
    funext w
    rw [count, count16, if_pos hn]
  rw [hcount]
  exact emit_asks 2 rfl

theorem intern_asks {α : Type} {r : Intern α} {Q : α → Prop} (h : Asks r texts k b Q) :
    Asks (intern r) texts k 0 Q := by
  refine h.lift fun w => ?_
  obtain ⟨pool, out⟩ := w
  refine ⟨pool, rfl, fun a q hq => ?_, fun e q hq => ?_⟩
  · refine ⟨a, ⟨q, out⟩, ?_, rfl, Nat.le_refl _, id⟩
    simp only [intern, hq]
  · refine ⟨⟨q, out⟩, ?_⟩
    simp only [intern, hq]

theorem size_overwrite (data : Array UInt8) (offset : Nat) (bytes : Bytes) :
    (Buffer.overwrite data offset bytes).size = data.size := by
  induction bytes generalizing data offset with
  | nil => rfl
  | cons x bytes ih => rw [Buffer.overwrite, ih, Array.size_setIfInBounds]

/-- Closing an attribute writes nothing new, if the attribute is not too long. -/
theorem close_eq {w : Writer} (lengthAt : Nat) (h : w.out.size - (lengthAt + 4) < 4294967296) :
    ∃ w', close lengthAt w = .ok () w' ∧ w'.pool = w.pool ∧ w'.out.size = w.out.size := by
  obtain ⟨pool, ⟨data⟩⟩ := w
  have hlength : (Buffer.mk data).attributeLength lengthAt
      = .ok (data.size - (lengthAt + 4)).toUInt32 := if_pos h
  refine ⟨⟨pool, (Buffer.mk data).setLength lengthAt (data.size - (lengthAt + 4)).toUInt32⟩, ?_,
    rfl, size_overwrite _ _ _⟩
  rw [close]
  simp only [hlength]

theorem size_openAttribute (out : Buffer) (name : UInt16) :
    (out.openAttribute name).size = out.size + 6 :=
  size_append out.data _

/-- An attribute is written if its body is, which may not be too long. -/
theorem inAttribute_asks (name : UInt16) {body : Write Unit}
    (h : Asks body texts k b fun _ => True) (hb : b < 4294967296) :
    Asks (inAttribute name body) texts k (b + 6) fun _ => True := by
  refine h.lift fun w => ?_
  obtain ⟨pool, out⟩ := w
  refine ⟨⟨pool, out.openAttribute name⟩, rfl, fun _ w'' hbody => ?_, fun e w'' hbody => ?_⟩
  · -- the length of the attribute is that of its body
    have hsize : w''.out.size ≤ (out.openAttribute name).size + b := ((h _).accepted hbody).bytes
    rw [size_openAttribute] at hsize
    obtain ⟨w', hclose, hpool, hout⟩ := close_eq (w := w'') (out.size + 2) (by omega)
    refine ⟨(), w', ?_, hpool, ?_, fun _ => trivial⟩
    · simp only [inAttribute, hbody]
      exact hclose
    · show w'.out.size ≤ out.size + (b + 6)
      omega
  · refine ⟨w'', ?_⟩
    simp only [inAttribute, hbody]

end Write

end SchemaRecords.ClassFile
