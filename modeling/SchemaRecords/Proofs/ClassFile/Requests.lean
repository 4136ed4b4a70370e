import SchemaRecords.Proofs.ClassFile.ConstantTable
import SchemaRecords.Proofs.ClassFile.Demand

/-!
# Any sequence of requests to a pool

`Pool.run` follows a sequence of requests, each of which may fail and leave part
of what it needs behind. A pool is at every time `Sound`: it holds each constant
once, its index map knows the constants by their positions, and a constant refers
to constants before it, of the kinds it needs.

A request that has succeeded is settled (`Settles`): in every later pool it has
the same answer and adds nothing, since all it needs is there. This is closed
under sequencing, as is `Appends`, so it is shown for compound requests piece by
piece.

* `Pool.run_sound`: all of this, for every sequence of requests.
* `ConstantTable.read_encode_run`: the bytes of such a pool are read as its entries.
-/

namespace SchemaRecords.ClassFile

namespace Constant

/-- The kinds of constants. -/
inductive Kind where
  | utf8
  | integer
  | classRef
  | string
  | fieldRef
  | methodRef
  | nameAndType
  | methodHandle
  | invokeDynamic
deriving DecidableEq, Repr

/-- The kind of a constant. -/
def kind : Constant → Kind
  | utf8 _ => .utf8
  | integer _ => .integer
  | classRef _ => .classRef
  | string _ => .string
  | fieldRef _ _ => .fieldRef
  | methodRef _ _ => .methodRef
  | nameAndType _ _ => .nameAndType
  | methodHandle _ _ => .methodHandle
  | invokeDynamic _ _ => .invokeDynamic

/-- The indices in a constant, each with the kind of constant that it has to lead to. -/
def references : Constant → List (UInt16 × Kind)
  | utf8 _ => []
  | integer _ => []
  | classRef name => [(name, .utf8)]
  | string text => [(text, .utf8)]
  | fieldRef owner nat => [(owner, .classRef), (nat, .nameAndType)]
  | methodRef owner nat => [(owner, .classRef), (nat, .nameAndType)]
  | nameAndType name descriptor => [(name, .utf8), (descriptor, .utf8)]
  | methodHandle kind reference =>
    [(reference, if kind = .getField then .fieldRef else .methodRef)]
  | invokeDynamic _ nat => [(nat, .nameAndType)]

end Constant

namespace ConstantTable

variable {t : ConstantTable} {i : UInt16}

/-- A constant of the kind can be looked up at the index. -/
def Resolves (t : ConstantTable) (i : UInt16) : Constant.Kind → Prop
  | .utf8 => ∃ text, t.utf8 i = .ok text
  | .classRef => ∃ name, t.className i = .ok name
  | .nameAndType => ∃ site, t.nameAndType i = .ok site
  | kind => ∃ c, t.get i = .ok c ∧ c.kind = kind

/-- What resolves has an entry of its kind. -/
theorem Resolves.exists_get (kind : Constant.Kind) (h : t.Resolves i kind) :
    ∃ c, t.get i = .ok c ∧ c.kind = kind := by
  -- a lookup gets the entry, and refuses those of other kinds
  have entry {α : Type} {f : Constant → Except Error α}
      (hf : ∀ c a, f c = .ok a → c.kind = kind) :
      (∃ a, (t.get i >>= f) = .ok a) → ∃ c, t.get i = .ok c ∧ c.kind = kind := by
    rintro ⟨a, ha⟩
    obtain ⟨c, hc, ha⟩ := except_bind_eq_ok ha
    exact ⟨c, hc, hf c a ha⟩
  cases kind with
  | utf8 => exact entry (fun c a ha => by cases c <;> first | rfl | cases ha) h
  | classRef => exact entry (fun c a ha => by cases c <;> first | rfl | cases ha) h
  | nameAndType => exact entry (fun c a ha => by cases c <;> first | rfl | cases ha) h
  | _ => exact h

theorem kinds_of_member {owner nat : UInt16} {member : MemberRef}
    (h : t.member owner nat = .ok member) :
    (∃ c, t.get owner = .ok c ∧ c.kind = .classRef) ∧
      ∃ c, t.get nat = .ok c ∧ c.kind = .nameAndType := by
  obtain ⟨site, hsite, h⟩ := except_bind_eq_ok h
  obtain ⟨name, hname, -⟩ := except_bind_eq_ok h
  exact ⟨Resolves.exists_get .classRef ⟨name, hname⟩,
    Resolves.exists_get .nameAndType ⟨site, hsite⟩⟩

end ConstantTable

/-- A constant whose references resolve refers to constants of the kinds it needs. -/
theorem Constant.GroundedIn.kinds {t : ConstantTable} {c : Constant} (h : c.GroundedIn t) :
    ∀ r ∈ c.references, ∃ d, t.get r.1 = .ok d ∧ d.kind = r.2 := by
  cases c with
  | utf8 text => exact fun r hr => absurd hr List.not_mem_nil
  | integer value => exact fun r hr => absurd hr List.not_mem_nil
  | classRef name => simpa [references] using ConstantTable.Resolves.exists_get .utf8 h
  | string text => simpa [references] using ConstantTable.Resolves.exists_get .utf8 h
  | fieldRef owner nat =>
    obtain ⟨member, hmember⟩ := h
    simpa [references] using ConstantTable.kinds_of_member hmember
  | methodRef owner nat =>
    obtain ⟨member, hmember⟩ := h
    simpa [references] using ConstantTable.kinds_of_member hmember
  | nameAndType name descriptor =>
    simpa [references] using And.intro (ConstantTable.Resolves.exists_get .utf8 h.1)
      (ConstantTable.Resolves.exists_get .utf8 h.2)
  | methodHandle kind reference =>
    obtain ⟨owner, nat, member, -, hget⟩ := h
    refine List.forall_mem_singleton.2 ⟨_, hget, ?_⟩
    split <;> rfl
  | invokeDynamic bootstrap nat =>
    simpa [references] using ConstantTable.Resolves.exists_get .nameAndType h

namespace Pool

/-- What is true of a pool at every time. -/
structure Sound (p : Pool) : Prop where
  size_le : p.size ≤ 65534
  nodup : p.entries.toList.Nodup
  /-- The index of a constant is where it is found. -/
  index_iff : ∀ c i, p.index[c]? = some i ↔ p.get? i = some c
  /-- A constant refers to earlier ones. -/
  backward : ∀ i c, p.get? i = some c → ∀ r ∈ c.references,
    r.1 < i ∧ ∃ d, p.get? r.1 = some d ∧ d.kind = r.2

variable {p q : Pool} {i : UInt16} {c : Constant}

theorem get?_eq_some_iff : p.get? i = some c ↔ ∃ n, p.entries[n]? = some c ∧ i.toNat = n + 1 := by
  unfold get?
  cases i.toNat with
  | zero => simp
  | succ n =>
    constructor
    · intro h
      exact ⟨n, h, rfl⟩
    · rintro ⟨m, hm, heq⟩
      obtain rfl : n = m := Nat.succ.inj heq
      exact hm

theorem table_get_eq_ok_iff : p.table.get i = .ok c ↔ p.get? i = some c := by
  rw [get?_eq_some_iff]
  constructor
  · intro h
    obtain ⟨n, hn, hc⟩ := ConstantTable.getElem?_of_get h
    exact ⟨n, hc, hn⟩
  · rintro ⟨n, hc, hn⟩
    exact ConstantTable.get_of_getElem? hn hc

/-- The positions of a valid pool hold different constants. -/
theorem Valid.nodup (hp : p.Valid) : p.entries.toList.Nodup := by
  have hsize : p.entries.size ≤ 65534 := hp.size_le
  rw [List.nodup_iff_pairwise_ne, List.pairwise_iff_getElem]
  intro m n hm hn hlt heq
  rw [Array.length_toList] at hm hn
  simp only [Array.getElem_toList] at heq
  have hposition : ∀ k, k < p.entries.size → (k + 1).toUInt16.toNat = k + 1 := by
    intro k hk
    simp
    omega
  have hindex := (hp.index_iff p.entries[n] _).2
    ⟨m, by rw [Array.getElem?_eq_getElem hm, heq], hposition m hm⟩
  rw [(hp.index_iff p.entries[n] _).2 ⟨n, Array.getElem?_eq_getElem hn, hposition n hn⟩] at hindex
  have := congrArg UInt16.toNat (Option.some.inj hindex)
  rw [hposition m hm, hposition n hn] at this
  omega

theorem Valid.sound (hp : p.Valid) : p.Sound where
  size_le := hp.size_le
  nodup := hp.nodup
  index_iff c i := by rw [get?_eq_some_iff, hp.index_iff]
  backward i c hc r hr := by
    obtain ⟨n, hn, hi⟩ := get?_eq_some_iff.1 hc
    obtain ⟨d, hd, hkind⟩ := (hp.grounded n c hn).kinds r hr
    obtain ⟨m, hm, hentry⟩ := ConstantTable.getElem?_of_get hd
    -- the entries before position `n` are entries of the pool
    rw [Array.take_eq_extract, Array.getElem?_extract] at hentry
    split at hentry
    · rename_i hlt
      refine ⟨?_, d, get?_eq_some_iff.2 ⟨m, by simpa using hentry, hm⟩, hkind⟩
      rw [UInt16.lt_iff_toNat_lt]
      omega
    · cases hentry

/-! ## Settled requests -/

/-- A request that has succeeded has the same answer in every later pool and adds nothing. -/
def Settles {α : Type} (r : Intern α) : Prop :=
  ∀ p q a, p.Valid → r p = .ok a q → ∀ q', q'.Valid → q.table ≤ q'.table → r q' = .ok a q'

theorem Settles.bind {α β : Type} {r : Intern α} {f : α → Intern β} (hr : Settles r)
    (happends : Appends r) (hf : ∀ a, Settles (f a))
    (hle : ∀ a p, p.table ≤ (after (f a) p).table) : Settles (r >>= f) := by
  intro p q b hp h q' hq' hqq'
  obtain ⟨a, q₁, hr₁, hf₁⟩ := bind_eq_ok.1 h
  have hle₁ : q₁.table ≤ q.table := by
    have := hle a q₁
    rwa [after_of_ok hf₁] at this
  exact bind_eq_ok.2 ⟨a, q', hr p q₁ a hp hr₁ q' hq' (le_trans hle₁ hqq'),
    hf a q₁ q b ((happends.grows hr₁).valid hp) hf₁ q' hq' hqq'⟩

theorem insert_settles (c : Constant) : Settles (insert c) := by
  intro p q i hp h q' hq' hle
  have hi : q'.index[c]? = some i :=
    (hq'.sound.index_iff c i).2 (table_get_eq_ok_iff.1 (insert_resolves hp h hle))
  unfold insert
  rw [hi]

theorem utf8_settles (text : String) : Settles (utf8 text) := by
  intro p q i hp h q' hq' hle
  unfold utf8 at h ⊢
  simp only at h ⊢
  split at h
  · cases h
  · rename_i hlength
    rw [if_neg hlength]
    exact insert_settles _ p q i hp h q' hq' hle

/-- A request for a text, then for what is made of it. -/
theorem text_settles (text : String) (c : UInt16 → Constant) :
    Settles (do
      let i ← utf8 text
      insert (c i)) :=
  (utf8_settles text).bind (utf8_appends text) (fun _ => insert_settles _) fun _ => le_insert _

theorem nameAndType_settles (name descriptor : String) : Settles (nameAndType name descriptor) :=
  (utf8_settles name).bind (utf8_appends name)
    (fun _ => (utf8_settles descriptor).bind (utf8_appends descriptor) (fun _ => insert_settles _)
      fun _ => le_insert _)
    fun _ => le_after_bind (utf8_appends descriptor) fun _ => le_insert _

/-- A request for a class, then for a name with a descriptor, then for what they make. -/
theorem member_settles (owner name descriptor : String) (c : UInt16 → UInt16 → Constant) :
    Settles (do
      let o ← classRef owner
      let n ← nameAndType name descriptor
      insert (c o n)) :=
  (text_settles owner .classRef).bind (classRef_appends owner)
    (fun _ => (nameAndType_settles name descriptor).bind (nameAndType_appends name descriptor)
      (fun _ => insert_settles _) fun _ => le_insert _)
    fun _ => le_after_bind (nameAndType_appends name descriptor) fun _ => le_insert _

theorem methodHandle_settles (kind : HandleKind) (owner name descriptor : String) :
    Settles (methodHandle kind owner name descriptor) := by
  have hmethod := (member_settles owner name descriptor .methodRef).bind
    (methodRef_appends owner name descriptor) (fun r => insert_settles (.methodHandle kind r))
    fun _ => le_insert _
  cases kind with
  | getField =>
    exact (member_settles owner name descriptor .fieldRef).bind
      (fieldRef_appends owner name descriptor) (fun _ => insert_settles _) fun _ => le_insert _
  | invokeVirtual => exact hmethod
  | invokeStatic => exact hmethod
  | invokeSpecial => exact hmethod

theorem invokeDynamic_settles (bootstrap : UInt16) (name descriptor : String) :
    Settles (invokeDynamic bootstrap name descriptor) :=
  (nameAndType_settles name descriptor).bind (nameAndType_appends name descriptor)
    (fun _ => insert_settles _) fun _ => le_insert _

/-! ## Requests -/

/-- A request for a constant. -/
inductive Request where
  | utf8 (text : String)
  | integer (value : Int32)
  | classRef (name : String)
  | string (text : String)
  | nameAndType (name descriptor : String)
  | fieldRef (owner name descriptor : String)
  | methodRef (owner name descriptor : String)
  | methodHandle (kind : HandleKind) (owner name descriptor : String)
  | invokeDynamic (bootstrap : UInt16) (name descriptor : String)
deriving DecidableEq, Repr

namespace Request

/-- The request as it is made. -/
def ask : Request → Intern UInt16
  | utf8 text => Pool.utf8 text
  | integer value => Pool.integer value
  | classRef name => Pool.classRef name
  | string text => Pool.string text
  | nameAndType name descriptor => Pool.nameAndType name descriptor
  | fieldRef owner name descriptor => Pool.fieldRef owner name descriptor
  | methodRef owner name descriptor => Pool.methodRef owner name descriptor
  | methodHandle kind owner name descriptor => Pool.methodHandle kind owner name descriptor
  | invokeDynamic bootstrap name descriptor => Pool.invokeDynamic bootstrap name descriptor

/-- What was asked for is at the index. -/
def FoundAt (t : ConstantTable) (i : UInt16) : Request → Prop
  | utf8 text => t.utf8 i = .ok text
  | integer value => t.get i = .ok (.integer value)
  | classRef name => t.className i = .ok name
  | string text => t.string i = .ok text
  | nameAndType name descriptor => t.nameAndType i = .ok (name, descriptor)
  | fieldRef owner name descriptor =>
    ∃ o n, t.get i = .ok (.fieldRef o n) ∧ t.member o n = .ok ⟨owner, name, descriptor⟩
  | methodRef owner name descriptor =>
    ∃ o n, t.get i = .ok (.methodRef o n) ∧ t.member o n = .ok ⟨owner, name, descriptor⟩
  | methodHandle kind owner name descriptor =>
    t.methodHandle i = .ok (kind, ⟨owner, name, descriptor⟩)
  | invokeDynamic bootstrap name descriptor =>
    t.invokeDynamic i = .ok (bootstrap, name, descriptor)

theorem ask_appends (r : Request) : Appends r.ask := by
  cases r with
  | utf8 text => exact utf8_appends text
  | integer value => exact integer_appends value
  | classRef name => exact classRef_appends name
  | string text => exact string_appends text
  | nameAndType name descriptor => exact nameAndType_appends name descriptor
  | fieldRef owner name descriptor => exact fieldRef_appends owner name descriptor
  | methodRef owner name descriptor => exact methodRef_appends owner name descriptor
  | methodHandle kind owner name descriptor =>
    exact methodHandle_appends kind owner name descriptor
  | invokeDynamic bootstrap name descriptor =>
    exact invokeDynamic_appends bootstrap name descriptor

theorem ask_settles (r : Request) : Settles r.ask := by
  cases r with
  | utf8 text => exact utf8_settles text
  | integer value => exact insert_settles _
  | classRef name => exact text_settles name .classRef
  | string text => exact text_settles text .string
  | nameAndType name descriptor => exact nameAndType_settles name descriptor
  | fieldRef owner name descriptor => exact member_settles owner name descriptor _
  | methodRef owner name descriptor => exact member_settles owner name descriptor _
  | methodHandle kind owner name descriptor =>
    exact methodHandle_settles kind owner name descriptor
  | invokeDynamic bootstrap name descriptor =>
    exact invokeDynamic_settles bootstrap name descriptor

/-- An index that a request gave resolves, in every later table, to what was asked for. -/
theorem foundAt_of_ask {r : Request} (hp : p.Valid) (h : r.ask p = .ok i q) {t : ConstantTable}
    (ht : q.table ≤ t) : r.FoundAt t i := by
  cases r with
  | utf8 text => exact utf8_resolves hp h ht
  | integer value => exact integer_resolves hp h ht
  | classRef name => exact classRef_resolves hp h ht
  | string text =>
    obtain ⟨n, hget, hn⟩ := string_resolves hp h ht
    show t.string i = .ok text
    rw [ConstantTable.string, hget]
    exact hn
  | nameAndType name descriptor => exact nameAndType_resolves hp h ht
  | fieldRef owner name descriptor => exact fieldRef_resolves hp h ht
  | methodRef owner name descriptor => exact methodRef_resolves hp h ht
  | methodHandle kind owner name descriptor => exact methodHandle_resolves hp h ht
  | invokeDynamic bootstrap name descriptor => exact invokeDynamic_resolves hp h ht

end Request

/-! ## Sequences of requests -/

/-- The pool after a sequence of requests, of which some may have failed. -/
def run (p : Pool) (requests : List Request) : Pool :=
  requests.foldl (fun p r => after r.ask p) p

theorem grows_run (p : Pool) (requests : List Request) : p.Grows (p.run requests) := by
  induction requests generalizing p with
  | nil => exact Grows.refl p
  | cons r requests ih => exact (r.ask_appends p).trans (ih _)

theorem valid_run (requests : List Request) : (empty.run requests).Valid :=
  (grows_run empty requests).valid valid_empty

/-- **A pool is sound at every time.** Every further request, whether it succeeds or fails, only
appends. What a request gave is at its index from then on, and to ask again gives the same index
and changes nothing. -/
theorem run_sound (requests : List Request) :
    (empty.run requests).Sound ∧
      ∀ r : Request,
        (empty.run requests).entries.toList <+: (after r.ask (empty.run requests)).entries.toList ∧
          ∀ i q, r.ask (empty.run requests) = .ok i q → ∀ later,
            r.FoundAt (q.run later).table i ∧ r.ask (q.run later) = .ok i (q.run later) := by
  have hvalid := valid_run requests
  refine ⟨hvalid.sound, fun r => ⟨(r.ask_appends _).le, fun i q h later => ?_⟩⟩
  have hlater := grows_run q later
  have hq := (r.ask_appends.grows h).valid hvalid
  exact ⟨Request.foundAt_of_ask hvalid h hlater.le,
    r.ask_settles _ q i hvalid h _ (hlater.valid hq) hlater.le⟩

theorem run_sound_handle :
    ∃ i q, (Request.methodHandle .invokeStatic "Lamp" "isLit" "()Z").ask
        (empty.run [.classRef "Lamp"]) = .ok i q ∧
      (empty.run [.classRef "Lamp"]).Sound ∧
      ∀ later, (Request.methodHandle .invokeStatic "Lamp" "isLit" "()Z").FoundAt
          (q.run later).table i ∧
        (Request.methodHandle .invokeStatic "Lamp" "isLit" "()Z").ask (q.run later) =
          .ok i (q.run later) := by
  have hsizes : ∀ t ∈ ["Lamp", "isLit", "()Z"], t.utf8ByteSize ≤ 10922 := by decide +kernel
  have hfits : ∀ t ∈ ["Lamp", "isLit", "()Z"], Fits t :=
    fun t ht => fits_of_utf8ByteSize_le (hsizes t ht)
  have hcapacity : capacity = 65534 := rfl
  obtain ⟨_, p, hp, hentries⟩ := (classRef_asks "Lamp" empty).succeeds
    (List.forall_mem_singleton.2 (hfits "Lamp" (by simp))) (by decide)
  have hsize : p.size ≤ 0 + 2 := hentries.entries
  have hrun : empty.run [.classRef "Lamp"] = p := after_of_ok hp
  obtain ⟨i, q, hq, -⟩ := (staticHandle_asks "Lamp" "isLit" "()Z" p).succeeds hfits
    (by show p.size + 7 ≤ capacity; omega)
  obtain ⟨hsound, hask⟩ := run_sound [.classRef "Lamp"]
  have hi : (Request.methodHandle .invokeStatic "Lamp" "isLit" "()Z").ask
      (empty.run [.classRef "Lamp"]) = .ok i q := hrun ▸ hq
  exact ⟨i, q, hi, hsound, (hask _).2 i q hi⟩

/-- The indices of a pool go from 1 to its size. -/
theorem exists_get?_iff : (∃ c, p.get? i = some c) ↔ 1 ≤ i.toNat ∧ i.toNat ≤ p.size := by
  constructor
  · rintro ⟨c, hc⟩
    obtain ⟨n, hn, hi⟩ := get?_eq_some_iff.1 hc
    have hlt : n < p.size := (Array.getElem?_eq_some_iff.1 hn).1
    omega
  · rintro ⟨hpos, hle⟩
    have hlt : i.toNat - 1 < p.entries.size := by
      unfold size at hle
      omega
    exact ⟨_, get?_eq_some_iff.2 ⟨i.toNat - 1, Array.getElem?_eq_getElem hlt, by omega⟩⟩

end Pool

/-- **A pool is read back from its bytes**, whatever follows them: nothing is at index 0, the
indices from 1 to the size of the pool hold its own entries, and there are no others. -/
theorem ConstantTable.read_encode_run (requests : List Pool.Request) (position : Nat)
    (rest : Bytes) :
    ∃ t, read ⟨position, (Pool.empty.run requests).encode ++ rest⟩ =
        .ok (t, ⟨position + (Pool.empty.run requests).encode.length, rest⟩) ∧
      t.get 0 = .error (.entry 0 .missing) ∧
      t.entries.size = (Pool.empty.run requests).size ∧
      ∀ i : UInt16, (∃ c, (Pool.empty.run requests).get? i = some c ∧ t.get i = .ok c) ↔
        1 ≤ i.toNat ∧ i.toNat ≤ (Pool.empty.run requests).size := by
  refine ⟨_, reads_encode (Pool.valid_run requests) position rest, rfl, rfl, fun i => ?_⟩
  rw [← Pool.exists_get?_iff]
  simp only [Pool.table_get_eq_ok_iff, and_self]

end SchemaRecords.ClassFile
