import Mathlib.Order.Defs.PartialOrder
import SchemaRecords.ClassFile.ConstantTable
import SchemaRecords.ClassFile.Pool
import SchemaRecords.Proofs.ClassFile.ModifiedUtf8

/-!
# What a request to the pool leaves behind

A pool that began empty is `Valid`: its index map knows every entry by its
position and nothing else, it has no more entries than fit, every text in it
can be written, and every entry refers to entries before it, of the kinds it
needs. Requests keep a pool valid and only append to it (`Pool.Grows`), also
when they fail.

An index that a request gave resolves, in every constant table that starts with
the pool's entries, to what was asked for. Tables are ordered by "starts with",
so these statements (`utf8_resolves`, `classRef_resolves`, and so on) stay true
while the pool goes on growing.
-/

namespace SchemaRecords.ClassFile

/-- Two steps succeed in a row if the first does and the second does after it. -/
theorem bind_eq_ok {ε σ α β : Type} {x : EStateM ε σ α} {f : α → EStateM ε σ β} {s s'' : σ}
    {b : β} :
    (x >>= f) s = .ok b s'' ↔ ∃ a s', x s = .ok a s' ∧ f a s' = .ok b s'' := by
  show EStateM.bind x f s = _ ↔ _
  unfold EStateM.bind
  cases x s with
  | ok a s' =>
    constructor
    · intro h
      exact ⟨a, s', rfl, h⟩
    · rintro ⟨a, s', h, h'⟩
      cases h
      exact h'
  | error e s' => simp

theorem bind_eq_error {ε σ α β : Type} {x : EStateM ε σ α} {f : α → EStateM ε σ β} {s s'' : σ}
    {e : ε} :
    (x >>= f) s = .error e s'' ↔
      x s = .error e s'' ∨ ∃ a s', x s = .ok a s' ∧ f a s' = .error e s'' := by
  show EStateM.bind x f s = _ ↔ _
  unfold EStateM.bind
  cases x s with
  | ok a s' =>
    constructor
    · intro h
      exact .inr ⟨a, s', rfl, h⟩
    · rintro (h | ⟨a, s', h, h'⟩)
      · cases h
      · cases h
        exact h'
  | error e' s' => simp

theorem pure_eq_ok {ε σ α : Type} {a b : α} {s s' : σ} :
    (pure a : EStateM ε σ α) s = .ok b s' ↔ a = b ∧ s = s' := by
  show EStateM.Result.ok a s = _ ↔ _
  simp

theorem except_bind_eq_ok {ε α β : Type} {x : Except ε α} {f : α → Except ε β} {b : β}
    (h : x >>= f = .ok b) : ∃ a, x = .ok a ∧ f a = .ok b := by
  cases x with
  | error e => cases h
  | ok a => exact ⟨a, rfl, h⟩

/-! ## Tables by what they start with -/

/-- A table is below another if the other starts with its entries. -/
instance : Preorder ConstantTable where
  le s t := s.entries.toList <+: t.entries.toList
  le_refl s := List.prefix_refl s.entries.toList
  le_trans _ _ _ h h' := List.IsPrefix.trans h h'

namespace ConstantTable

theorem le_iff {s t : ConstantTable} : s ≤ t ↔ s.entries.toList <+: t.entries.toList := Iff.rfl

/-- The entry at an index, by its position. -/
theorem get_of_getElem? {t : ConstantTable} {i : UInt16} {n : Nat} {c : Constant}
    (hi : i.toNat = n + 1) (hc : t.entries[n]? = some c) : t.get i = .ok c := by
  unfold get
  rw [hi]
  simp only
  rw [hc]

theorem getElem?_of_le {s t : ConstantTable} (h : s ≤ t) {n : Nat} {c : Constant}
    (hc : s.entries[n]? = some c) : t.entries[n]? = some c := by
  obtain ⟨rest, hrest⟩ := le_iff.1 h
  rw [← Array.getElem?_toList] at hc ⊢
  rw [← hrest, List.getElem?_append_left]
  · exact hc
  · exact (List.getElem?_eq_some_iff.1 hc).1

variable {s t : ConstantTable} {i : UInt16}

theorem getElem?_of_get {c : Constant} (h : t.get i = .ok c) :
    ∃ n, i.toNat = n + 1 ∧ t.entries[n]? = some c := by
  unfold get at h
  split at h
  · cases h
  · rename_i n hn
    split at h
    · rename_i hc
      cases h
      exact ⟨n, hn, hc⟩
    · cases h

/-! What an index stands for is the same in every table that starts with the first. -/

theorem get_mono (hle : s ≤ t) {c : Constant} (h : s.get i = .ok c) : t.get i = .ok c := by
  obtain ⟨n, hn, hc⟩ := getElem?_of_get h
  exact get_of_getElem? hn (getElem?_of_le hle hc)

theorem utf8_mono (hle : s ≤ t) {text : String} (h : s.utf8 i = .ok text) :
    t.utf8 i = .ok text := by
  obtain ⟨c, hc, h⟩ := except_bind_eq_ok h
  rw [utf8, get_mono hle hc]
  exact h

theorem className_mono (hle : s ≤ t) {name : String} (h : s.className i = .ok name) :
    t.className i = .ok name := by
  obtain ⟨c, hc, h⟩ := except_bind_eq_ok h
  rw [className, get_mono hle hc]
  cases c with
  | classRef n => exact utf8_mono hle h
  | _ => cases h

theorem nameAndType_mono (hle : s ≤ t) {site : String × String}
    (h : s.nameAndType i = .ok site) : t.nameAndType i = .ok site := by
  obtain ⟨c, hc, h⟩ := except_bind_eq_ok h
  rw [nameAndType, get_mono hle hc]
  cases c with
  | nameAndType n d =>
    obtain ⟨name, hname, h⟩ := except_bind_eq_ok h
    obtain ⟨descriptor, hdescriptor, h⟩ := except_bind_eq_ok h
    simp only [Bind.bind, Except.bind]
    rw [utf8_mono hle hname, utf8_mono hle hdescriptor]
    exact h
  | _ => cases h

theorem member_mono (hle : s ≤ t) {owner nat : UInt16} {member : MemberRef}
    (h : s.member owner nat = .ok member) : t.member owner nat = .ok member := by
  obtain ⟨site, hsite, h⟩ := except_bind_eq_ok h
  obtain ⟨name, hname, h⟩ := except_bind_eq_ok h
  rw [ConstantTable.member, nameAndType_mono hle hsite]
  simp only [Bind.bind, Except.bind]
  rw [className_mono hle hname]
  exact h

end ConstantTable

/-- What the constant refers to is in the table. -/
def Constant.GroundedIn (t : ConstantTable) : Constant → Prop
  | utf8 _ => True
  | integer _ => True
  | classRef name => ∃ text, t.utf8 name = .ok text
  | string text => ∃ literal, t.utf8 text = .ok literal
  | fieldRef owner nat => ∃ member, t.member owner nat = .ok member
  | methodRef owner nat => ∃ member, t.member owner nat = .ok member
  | nameAndType name descriptor =>
    (∃ text, t.utf8 name = .ok text) ∧ ∃ text, t.utf8 descriptor = .ok text
  | methodHandle kind reference => ∃ owner nat member, t.member owner nat = .ok member ∧
    t.get reference =
      .ok (if kind = .getField then .fieldRef owner nat else .methodRef owner nat)
  | invokeDynamic _ nat => ∃ site, t.nameAndType nat = .ok site

theorem Constant.GroundedIn.mono {s t : ConstantTable} (hle : s ≤ t) {c : Constant}
    (h : c.GroundedIn s) : c.GroundedIn t := by
  cases c with
  | utf8 text => trivial
  | integer value => trivial
  | classRef name => exact h.imp fun _ => ConstantTable.utf8_mono hle
  | string text => exact h.imp fun _ => ConstantTable.utf8_mono hle
  | fieldRef owner nat => exact h.imp fun _ => ConstantTable.member_mono hle
  | methodRef owner nat => exact h.imp fun _ => ConstantTable.member_mono hle
  | nameAndType name descriptor =>
    exact ⟨h.1.imp fun _ => ConstantTable.utf8_mono hle,
      h.2.imp fun _ => ConstantTable.utf8_mono hle⟩
  | methodHandle kind reference =>
    obtain ⟨owner, nat, member, hmember, hget⟩ := h
    exact ⟨owner, nat, member, ConstantTable.member_mono hle hmember,
      ConstantTable.get_mono hle hget⟩
  | invokeDynamic bootstrap nat => exact h.imp fun _ => ConstantTable.nameAndType_mono hle

namespace Pool

/-- The table with the entries of the pool. -/
def table (p : Pool) : ConstantTable := ⟨p.entries⟩

/-- What is true of every pool that began empty. -/
structure Valid (p : Pool) : Prop where
  /-- The index of a constant is one more than its position. -/
  index_iff : ∀ c i, p.index[c]? = some i ↔ ∃ n, p.entries[n]? = some c ∧ i.toNat = n + 1
  size_le : p.entries.size ≤ capacity
  /-- The length of every text fits in the two bytes before it. -/
  fits : ∀ text, Constant.utf8 text ∈ p.entries → ModifiedUtf8.encodedLength text ≤ 65535
  /-- An entry refers to entries before it. -/
  grounded : ∀ n (c : Constant), p.entries[n]? = some c → c.GroundedIn ⟨p.entries.take n⟩

/-- What the constants of a valid pool refer to is in the pool. -/
theorem Valid.groundedIn {p : Pool} (hp : p.Valid) {i : UInt16} {c : Constant}
    (h : p.table.get i = .ok c) : c.GroundedIn p.table := by
  obtain ⟨n, -, hc⟩ := ConstantTable.getElem?_of_get h
  refine (hp.grounded n c hc).mono ?_
  rw [ConstantTable.le_iff]
  simpa [table] using List.take_prefix n p.entries.toList

theorem valid_empty : empty.Valid where
  index_iff c i := by simp [empty]
  size_le := by simp [empty, capacity]
  fits text h := by simp [empty] at h
  grounded n c h := by simp [empty] at h

/-- Requests keep a pool valid and only append to it. -/
structure Grows (p q : Pool) : Prop where
  valid : p.Valid → q.Valid
  le : p.table ≤ q.table

theorem Grows.refl (p : Pool) : p.Grows p := ⟨id, le_refl _⟩

theorem Grows.trans {p q r : Pool} (h : p.Grows q) (h' : q.Grows r) : p.Grows r :=
  ⟨fun hp => h'.valid (h.valid hp), le_trans h.le h'.le⟩

/-- The constant can be written. -/
def Writable : Constant → Prop
  | .utf8 text => ModifiedUtf8.encodedLength text ≤ 65535
  | _ => True

/-- A new entry at the end keeps the pool valid. -/
theorem Valid.push {p : Pool} (hp : p.Valid) {c : Constant} (hc : Writable c)
    (hg : c.GroundedIn p.table) (hnew : p.index[c]? = none) (hroom : p.entries.size < capacity) :
    Valid ⟨p.entries.push c, p.index.insert c (p.entries.size + 1).toUInt16⟩ where
  index_iff d i := by
    have hsize : (p.entries.size + 1).toUInt16.toNat = p.entries.size + 1 := by
      unfold capacity at hroom
      simp
      omega
    simp only [Std.HashMap.getElem?_insert, beq_iff_eq]
    split
    case isTrue h =>
      subst h
      constructor
      · intro hi
        cases hi
        exact ⟨p.entries.size, by simp, hsize⟩
      · rintro ⟨n, hn, hi⟩
        rw [Array.getElem?_push] at hn
        split at hn
        case isTrue hn' =>
          congr 1
          apply UInt16.toNat_inj.1
          rw [hsize, hi, hn']
        case isFalse =>
          have := (hp.index_iff c i).2 ⟨n, hn, hi⟩
          rw [hnew] at this
          cases this
    case isFalse h =>
      rw [hp.index_iff]
      constructor
      · rintro ⟨n, hn, hi⟩
        refine ⟨n, ?_, hi⟩
        have := (Array.getElem?_eq_some_iff.1 hn).1
        rw [Array.getElem?_push, if_neg (by omega)]
        exact hn
      · rintro ⟨n, hn, hi⟩
        rw [Array.getElem?_push] at hn
        split at hn
        case isTrue => exact absurd (Option.some.inj hn) h
        case isFalse => exact ⟨n, hn, hi⟩
  size_le := by
    simp
    omega
  fits text h := by
    rw [Array.mem_push] at h
    rcases h with h | h
    · exact hp.fits text h
    · rw [← h] at hc
      exact hc
  grounded n d hd := by
    rw [Array.getElem?_push] at hd
    split at hd
    case isTrue hn =>
      cases hd
      subst hn
      simpa [Array.take_eq_extract, table] using hg
    case isFalse =>
      have hlt := (Array.getElem?_eq_some_iff.1 hd).1
      rw [Array.take_eq_extract, Array.extract_push_of_le (Nat.le_of_lt hlt)]
      exact hp.grounded n d hd

theorem le_push (p : Pool) (c : Constant) (index : Std.HashMap Constant UInt16) :
    p.table ≤ table ⟨p.entries.push c, index⟩ := by
  rw [ConstantTable.le_iff]
  simp [table]

/-! ## Requests only append -/

/-- The pool that a request leaves, whether it succeeds or fails. -/
def after {α : Type} (r : Intern α) (p : Pool) : Pool :=
  match r p with
  | .ok _ q => q
  | .error _ q => q

theorem after_of_ok {α : Type} {r : Intern α} {p q : Pool} {a : α} (h : r p = .ok a q) :
    after r p = q := by
  rw [after, h]

/-- A request that keeps every pool valid and only appends to it. -/
def Appends {α : Type} (r : Intern α) : Prop := ∀ p : Pool, p.Grows (after r p)

theorem Appends.grows {α : Type} {r : Intern α} (hr : Appends r) {p q : Pool} {a : α}
    (h : r p = .ok a q) : p.Grows q := by
  have := hr p
  rwa [after_of_ok h] at this

/-- A request after another one, of which only the answers to the first matter. -/
theorem Appends.bind {α β : Type} {r : Intern α} {f : α → Intern β} (hr : Appends r)
    (hle : ∀ a p, p.table ≤ (after (f a) p).table)
    (hvalid : ∀ p q a, p.Valid → r p = .ok a q → q.Valid → (after (f a) q).Valid) :
    Appends (r >>= f) := by
  intro p
  have hp := hr p
  show p.Grows (match EStateM.bind r f p with | .ok _ q => q | .error _ q => q)
  unfold EStateM.bind
  unfold after at hp
  cases h : r p with
  | ok a q =>
    rw [h] at hp
    exact ⟨fun hp' => hvalid p q a hp' h (hp.valid hp'), le_trans hp.le (hle a q)⟩
  | error e q =>
    rw [h] at hp
    exact hp

/-- A request after another one, where the answers do not matter. -/
theorem Appends.followed {α β : Type} {r : Intern α} {f : α → Intern β} (hr : Appends r)
    (hf : ∀ a, Appends (f a)) : Appends (r >>= f) :=
  hr.bind (fun a p => (hf a p).le) fun _ q a _ _ hq => (hf a q).valid hq

theorem pure_appends {α : Type} (a : α) : Appends (pure a) := fun p => .refl p

theorem valid_after_bind {α β : Type} {r : Intern α} {f : α → Intern β} {p : Pool}
    (hr : (after r p).Valid) (hf : ∀ a q, r p = .ok a q → q.Valid → (after (f a) q).Valid) :
    (after (r >>= f) p).Valid := by
  show Valid (match EStateM.bind r f p with | .ok _ q => q | .error _ q => q)
  unfold EStateM.bind
  unfold after at hr
  cases h : r p with
  | ok a q =>
    rw [h] at hr
    exact hf a q h hr
  | error e q =>
    rw [h] at hr
    exact hr

theorem le_after_bind {α β : Type} {r : Intern α} {f : α → Intern β} (hr : Appends r)
    (hf : ∀ a p, p.table ≤ (after (f a) p).table) (p : Pool) :
    p.table ≤ (after (r >>= f) p).table := by
  have hp := (hr p).le
  show p.table ≤ table (match EStateM.bind r f p with | .ok _ q => q | .error _ q => q)
  unfold EStateM.bind
  unfold after at hp
  cases h : r p with
  | ok a q =>
    rw [h] at hp
    exact le_trans hp (hf a q)
  | error e q =>
    rw [h] at hp
    exact hp

theorem insert_cases (c : Constant) (p : Pool) :
    after (insert c) p = p ∨ p.index[c]? = none ∧ p.entries.size < capacity ∧
      after (insert c) p = ⟨p.entries.push c, p.index.insert c (p.entries.size + 1).toUInt16⟩ := by
  unfold after insert
  cases hindex : p.index[c]? with
  | some i => exact .inl rfl
  | none =>
    by_cases hroom : capacity ≤ p.entries.size
    · rw [if_pos hroom]
      exact .inl rfl
    · rw [if_neg hroom]
      exact .inr ⟨rfl, by omega, rfl⟩

theorem le_insert (c : Constant) (p : Pool) : p.table ≤ (after (insert c) p).table := by
  obtain h | ⟨-, -, h⟩ := insert_cases c p
  · rw [h]
  · rw [h]
    exact le_push p c _

/-- A constant that refers to what is there can be put into the pool. -/
theorem Valid.insert {p : Pool} (hp : p.Valid) {c : Constant} (hc : Writable c)
    (hg : c.GroundedIn p.table) : (after (insert c) p).Valid := by
  obtain h | ⟨hnew, hroom, h⟩ := insert_cases c p
  · rwa [h]
  · rw [h]
    exact hp.push hc hg hnew hroom

/-- A constant that refers to nothing can be put into every pool. -/
theorem insert_appends {c : Constant} (hc : Writable c) (hg : ∀ t, c.GroundedIn t) :
    Appends (insert c) :=
  fun p => ⟨fun hp => hp.insert hc (hg _), le_insert c p⟩

/-! ## Indices resolve to what was asked for -/

section Resolves

variable {p q : Pool} {t : ConstantTable} {i : UInt16}

theorem insert_resolves {c : Constant} (hp : p.Valid) (h : insert c p = .ok i q)
    (ht : q.table ≤ t) : t.get i = .ok c := by
  unfold Pool.insert at h
  split at h
  · rename_i hi
    cases h
    obtain ⟨n, hn, hi⟩ := (hp.index_iff c i).1 hi
    exact ConstantTable.get_of_getElem? hi (ConstantTable.getElem?_of_le ht hn)
  · split at h
    · cases h
    · rename_i hroom
      cases h
      have hi : (p.entries.size + 1).toUInt16.toNat = p.entries.size + 1 := by
        unfold capacity at hroom
        simp
        omega
      exact ConstantTable.get_of_getElem? hi
        (ConstantTable.getElem?_of_le ht (by simp [table]))

/-- What is put into the pool stays before what comes after. -/
theorem le_of_insert {c : Constant} (h : insert c p = .ok i q) : p.table ≤ q.table := by
  have := le_insert c p
  rwa [after_of_ok h] at this

theorem utf8_appends (text : String) : Appends (utf8 text) := by
  intro p
  by_cases hlong : 65535 < ModifiedUtf8.encodedLength text
  · have h : utf8 text p = .error (.textTooLong (ModifiedUtf8.encodedLength text)) p := if_pos hlong
    rw [after, h]
    exact Grows.refl p
  · have h : utf8 text p = insert (.utf8 text) p := if_neg hlong
    rw [after, h]
    exact insert_appends (c := .utf8 text) (Nat.le_of_not_lt hlong) (fun _ => trivial) p

theorem utf8_resolves {text : String} (hp : p.Valid) (h : utf8 text p = .ok i q)
    (ht : q.table ≤ t) : t.utf8 i = .ok text := by
  unfold utf8 at h
  simp only at h
  split at h
  · cases h
  · rw [ConstantTable.utf8, insert_resolves hp h ht]
    rfl

theorem integer_appends (value : Int32) : Appends (integer value) :=
  insert_appends trivial fun _ => trivial

theorem integer_resolves {value : Int32} (hp : p.Valid) (h : integer value p = .ok i q)
    (ht : q.table ≤ t) : t.get i = .ok (.integer value) :=
  insert_resolves hp h ht

theorem classRef_appends (name : String) : Appends (classRef name) :=
  (utf8_appends name).bind (fun _ => le_insert _) fun _ _ _ hp hn hq =>
    hq.insert trivial ⟨name, utf8_resolves hp hn le_rfl⟩

theorem classRef_resolves {name : String} (hp : p.Valid) (h : classRef name p = .ok i q)
    (ht : q.table ≤ t) : t.className i = .ok name := by
  obtain ⟨n, p', hn, hi⟩ := bind_eq_ok.1 h
  have hp' := ((utf8_appends name).grows hn).valid hp
  rw [ConstantTable.className, insert_resolves hp' hi ht]
  exact utf8_resolves hp hn (le_trans (le_of_insert hi) ht)

theorem string_appends (text : String) : Appends (string text) :=
  (utf8_appends text).bind (fun _ => le_insert _) fun _ _ _ hp hn hq =>
    hq.insert trivial ⟨text, utf8_resolves hp hn le_rfl⟩

theorem string_resolves {text : String} (hp : p.Valid) (h : string text p = .ok i q)
    (ht : q.table ≤ t) : ∃ n, t.get i = .ok (.string n) ∧ t.utf8 n = .ok text := by
  obtain ⟨n, p', hn, hi⟩ := bind_eq_ok.1 h
  have hp' := ((utf8_appends text).grows hn).valid hp
  exact ⟨n, insert_resolves hp' hi ht, utf8_resolves hp hn (le_trans (le_of_insert hi) ht)⟩

theorem nameAndType_appends (name descriptor : String) : Appends (nameAndType name descriptor) := by
  refine (utf8_appends name).bind
    (fun _ => le_after_bind (utf8_appends descriptor) fun _ => le_insert _) ?_
  intro p q n hp hn hq
  refine valid_after_bind ((utf8_appends descriptor q).valid hq) fun d q' hd hq' => ?_
  have hle := ((utf8_appends descriptor).grows hd).le
  exact hq'.insert trivial ⟨⟨name, utf8_resolves hp hn hle⟩, descriptor, utf8_resolves hq hd le_rfl⟩

theorem nameAndType_resolves {name descriptor : String} (hp : p.Valid)
    (h : nameAndType name descriptor p = .ok i q) (ht : q.table ≤ t) :
    t.nameAndType i = .ok (name, descriptor) := by
  obtain ⟨n, p₁, hn, h⟩ := bind_eq_ok.1 h
  obtain ⟨d, p₂, hd, hi⟩ := bind_eq_ok.1 h
  have hg₁ := (utf8_appends name).grows hn
  have hg₂ := (utf8_appends descriptor).grows hd
  have hle := le_of_insert hi
  have hp₁ := hg₁.valid hp
  rw [ConstantTable.nameAndType, insert_resolves (hg₂.valid hp₁) hi ht]
  simp only [Bind.bind, Except.bind]
  rw [utf8_resolves hp hn (le_trans hg₂.le (le_trans hle ht)),
    utf8_resolves hp₁ hd (le_trans hle ht)]

/-- A class and a name with a descriptor, asked for in this order, make a member. -/
theorem member_resolves {owner name descriptor : String} {p₁ p₂ : Pool} {o n : UInt16}
    (hp : p.Valid) (ho : classRef owner p = .ok o p₁)
    (hn : nameAndType name descriptor p₁ = .ok n p₂) (ht : p₂.table ≤ t) :
    t.member o n = .ok ⟨owner, name, descriptor⟩ := by
  have hg₁ := (classRef_appends owner).grows ho
  have hg₂ := (nameAndType_appends name descriptor).grows hn
  rw [ConstantTable.member, nameAndType_resolves (hg₁.valid hp) hn ht]
  simp only [Bind.bind, Except.bind]
  rw [classRef_resolves hp ho (le_trans hg₂.le ht)]

/-- A request for a class, then for a name with a descriptor, then for what they make. -/
theorem member_appends {owner name descriptor : String} {c : UInt16 → UInt16 → Constant}
    (hc : ∀ o n, Writable (c o n))
    (hg : ∀ o n t, (∃ member, t.member o n = .ok member) → (c o n).GroundedIn t) :
    Appends (do
      let o ← classRef owner
      let n ← nameAndType name descriptor
      insert (c o n)) := by
  refine (classRef_appends owner).bind
    (fun _ => le_after_bind (nameAndType_appends name descriptor) fun _ => le_insert _) ?_
  intro p q o hp ho hq
  refine valid_after_bind ((nameAndType_appends name descriptor q).valid hq) fun n q' hn hq' => ?_
  exact hq'.insert (hc o n) (hg o n _ ⟨_, member_resolves hp ho hn le_rfl⟩)

theorem fieldRef_appends (owner name descriptor : String) :
    Appends (fieldRef owner name descriptor) :=
  member_appends (fun _ _ => trivial) fun _ _ _ h => h

theorem methodRef_appends (owner name descriptor : String) :
    Appends (methodRef owner name descriptor) :=
  member_appends (fun _ _ => trivial) fun _ _ _ h => h

theorem exists_member_resolves {owner name descriptor : String} {c : UInt16 → UInt16 → Constant}
    (hp : p.Valid)
    (h : (do
      let o ← classRef owner
      let n ← nameAndType name descriptor
      insert (c o n)) p = .ok i q)
    (ht : q.table ≤ t) :
    ∃ o n, t.get i = .ok (c o n) ∧ t.member o n = .ok ⟨owner, name, descriptor⟩ := by
  obtain ⟨o, p₁, ho, h⟩ := bind_eq_ok.1 h
  obtain ⟨n, p₂, hn, hi⟩ := bind_eq_ok.1 h
  have hg₁ := (classRef_appends owner).grows ho
  have hg₂ := (nameAndType_appends name descriptor).grows hn
  exact ⟨o, n, insert_resolves (hg₂.valid (hg₁.valid hp)) hi ht,
    member_resolves hp ho hn (le_trans (le_of_insert hi) ht)⟩

theorem fieldRef_resolves {owner name descriptor : String} (hp : p.Valid)
    (h : fieldRef owner name descriptor p = .ok i q) (ht : q.table ≤ t) :
    ∃ o n, t.get i = .ok (.fieldRef o n) ∧ t.member o n = .ok ⟨owner, name, descriptor⟩ :=
  exists_member_resolves hp h ht

theorem methodRef_resolves {owner name descriptor : String} (hp : p.Valid)
    (h : methodRef owner name descriptor p = .ok i q) (ht : q.table ≤ t) :
    ∃ o n, t.get i = .ok (.methodRef o n) ∧ t.member o n = .ok ⟨owner, name, descriptor⟩ :=
  exists_member_resolves hp h ht

theorem methodHandle_appends (kind : HandleKind) (owner name descriptor : String) :
    Appends (methodHandle kind owner name descriptor) := by
  have hmethod (hkind : kind ≠ .getField) :=
    (methodRef_appends owner name descriptor).bind
      (f := fun r => insert (.methodHandle kind r)) (fun _ => le_insert _) fun p q r hp hr hq => by
      obtain ⟨o, n, hget, hmember⟩ := methodRef_resolves hp hr le_rfl
      exact hq.insert trivial ⟨o, n, _, hmember, by rw [hget, if_neg hkind]⟩
  cases kind with
  | getField =>
    refine (fieldRef_appends owner name descriptor).bind (fun _ => le_insert _) ?_
    intro p q r hp hr hq
    obtain ⟨o, n, hget, hmember⟩ := fieldRef_resolves hp hr le_rfl
    exact hq.insert trivial ⟨o, n, _, hmember, by rw [hget, if_pos rfl]⟩
  | invokeVirtual => exact hmethod nofun
  | invokeStatic => exact hmethod nofun
  | invokeSpecial => exact hmethod nofun

/-- A handle is found with the member that was asked for before it. -/
theorem handle_resolves {kind : HandleKind} {request : Intern UInt16} {member : MemberRef}
    (hrequest : Appends request)
    (hmember : ∀ r p₁, request p = .ok r p₁ → p₁.table ≤ t → t.memberRef r = .ok member)
    (hp : p.Valid) (h : (request >>= fun r => insert (.methodHandle kind r)) p = .ok i q)
    (ht : q.table ≤ t) : t.methodHandle i = .ok (kind, member) := by
  obtain ⟨r, p₁, hr, hi⟩ := bind_eq_ok.1 h
  rw [ConstantTable.methodHandle, insert_resolves ((hrequest.grows hr).valid hp) hi ht]
  simp only [Bind.bind, Except.bind]
  rw [hmember r p₁ hr (le_trans (le_of_insert hi) ht)]

/-- A handle resolves to the field or method it is on. -/
theorem methodHandle_resolves {kind : HandleKind} {owner name descriptor : String} (hp : p.Valid)
    (h : methodHandle kind owner name descriptor p = .ok i q) (ht : q.table ≤ t) :
    t.methodHandle i = .ok (kind, ⟨owner, name, descriptor⟩) := by
  have hmethod (h : (methodRef owner name descriptor >>= fun r => insert (.methodHandle kind r)) p
      = .ok i q) : t.methodHandle i = .ok (kind, ⟨owner, name, descriptor⟩) := by
    refine handle_resolves (methodRef_appends owner name descriptor) (fun r p₁ hr hle => ?_) hp h ht
    obtain ⟨o, n, hget, hmember⟩ := methodRef_resolves hp hr hle
    rw [ConstantTable.memberRef, hget]
    exact hmember
  cases kind with
  | getField =>
    refine handle_resolves (fieldRef_appends owner name descriptor) (fun r p₁ hr hle => ?_) hp h ht
    obtain ⟨o, n, hget, hmember⟩ := fieldRef_resolves hp hr hle
    rw [ConstantTable.memberRef, hget]
    exact hmember
  | invokeVirtual => exact hmethod h
  | invokeStatic => exact hmethod h
  | invokeSpecial => exact hmethod h

theorem invokeDynamic_appends (bootstrap : UInt16) (name descriptor : String) :
    Appends (invokeDynamic bootstrap name descriptor) :=
  (nameAndType_appends name descriptor).bind (fun _ => le_insert _) fun _ _ _ hp hn hq =>
    hq.insert trivial ⟨_, nameAndType_resolves hp hn le_rfl⟩

theorem invokeDynamic_resolves {bootstrap : UInt16} {name descriptor : String} (hp : p.Valid)
    (h : invokeDynamic bootstrap name descriptor p = .ok i q) (ht : q.table ≤ t) :
    t.invokeDynamic i = .ok (bootstrap, name, descriptor) := by
  obtain ⟨n, p₁, hn, hi⟩ := bind_eq_ok.1 h
  have hg₁ := (nameAndType_appends name descriptor).grows hn
  rw [ConstantTable.invokeDynamic, insert_resolves (hg₁.valid hp) hi ht]
  simp only [Bind.bind, Except.bind]
  rw [nameAndType_resolves hp hn (le_trans (le_of_insert hi) ht)]

end Resolves

end Pool

end SchemaRecords.ClassFile
