import SchemaRecords.Proofs.ClassFile.ConstantTable
import SchemaRecords.Proofs.ClassFile.Members

/-!
# A class that is built and read again

`Contents` is what a class is to contain, as its author sees it. A draft holds
contents (`Draft.Holds`) when reading its tables gives them back; an image has
contents (`Contents.Describes`) when all that was asked for is found in it.

* `Builds`: what a construction step adds to the contents; the rules follow the
  steps (`Builds.bind`, `Builds.forM`, `Builds.mapM`).
* `exists_image_of_build`: the bytes of a draft are parsed to an image with its contents.
-/

namespace SchemaRecords.ClassFile

/-- What a class contains. -/
structure Contents where
  major : UInt16
  minor : UInt16
  access : UInt16
  name : String
  superName : String
  fields : List Field := []
  methods : List Method := []
  bootstraps : List Bootstrap := []

namespace Contents

/-- The contents with another field. -/
def addField (c : Contents) (f : Field) : Contents := { c with fields := c.fields ++ [f] }

/-- The contents with another method. -/
def addMethod (c : Contents) (m : Method) : Contents := { c with methods := c.methods ++ [m] }

theorem foldl_addField {α : Type} (f : α → Field) (as : List α) (c : Contents) :
    as.foldl (fun c a => c.addField (f a)) c = { c with fields := c.fields ++ as.map f } := by
  induction as generalizing c with
  | nil => simp
  | cons a as ih =>
    rw [List.foldl_cons, ih, addField]
    simp

theorem foldl_addMethod {α : Type} (f : α → Method) (as : List α) (c : Contents) :
    as.foldl (fun c a => c.addMethod (f a)) c = { c with methods := c.methods ++ as.map f } := by
  induction as generalizing c with
  | nil => simp
  | cons a as ih =>
    rw [List.foldl_cons, ih, addMethod]
    simp

/-- The contents with a bootstrap method, which is added if it is new. -/
def withBootstrap (c : Contents) (b : Bootstrap) : Contents :=
  if b ∈ c.bootstraps then c else { c with bootstraps := c.bootstraps ++ [b] }

theorem withBootstrap_of_nil {c : Contents} (h : c.bootstraps = []) (b : Bootstrap) :
    c.withBootstrap b = { c with bootstraps := [b] } := by
  unfold withBootstrap
  rw [h]
  simp

theorem getElem?_withBootstrap (c : Contents) (b : Bootstrap) :
    (c.withBootstrap b).bootstraps[c.bootstraps.idxOf b]? = some b := by
  unfold withBootstrap
  by_cases hmem : b ∈ c.bootstraps
  · rw [if_pos hmem]
    exact List.getElem?_idxOf hmem
  · rw [if_neg hmem, List.idxOf_eq_length hmem]
    simp

end Contents

/-! ## Drafts -/

/-- A bootstrap method that is not in the table has the number after the last. -/
theorem Bootstrap.numberIn_eq (b : Bootstrap) (table : Array Bootstrap) :
    b.numberIn table = table.toList.idxOf b := by
  unfold numberIn
  split
  · rfl
  · rename_i hnew
    rw [List.idxOf_eq_length (by simpa using hnew), Array.length_toList]

/-- The entries of the table are read as descriptions of the items. -/
structure Table.Holds {α : Type} (describes : ConstantTable → α → MemberInfo → Prop) (p : Pool)
    (table : Table) (items : List α) : Prop where
  count : table.count = items.length
  entries : ∀ t, p.table ≤ t → ∃ infos, ReadsAll t.readMember table.bytes.toBytes infos ∧
    List.Forall₂ (describes t) items infos

namespace Table.Holds

variable {α : Type} {describes : ConstantTable → α → MemberInfo → Prop} {p q : Pool}
  {table : Table} {items : List α}

theorem mono (h : table.Holds describes p items) (hle : p.table ≤ q.table) :
    table.Holds describes q items :=
  ⟨h.count, fun t ht => h.entries t (le_trans hle ht)⟩

/-- A written entry comes after all others. -/
theorem write {w : Write Unit} {a : α} {out : Buffer} (h : table.Holds describes p items)
    (hp : p.Valid)
    (hw : Writes w fun t bs => ∃ info, Reads t.readMember bs info ∧ describes t a info)
    (hwrite : w ⟨p, table.bytes⟩ = .ok () ⟨q, out⟩) :
    p.Grows q ∧ Table.Holds describes q ⟨table.count + 1, out⟩ (items ++ [a]) := by
  obtain ⟨bs, hwrote, hbs⟩ := hw _ _ hp hwrite
  refine ⟨hwrote.grows, by simp [h.count], fun t ht => ?_⟩
  obtain ⟨infos, hinfos, hitems⟩ := h.entries t (le_trans hwrote.grows.le ht)
  obtain ⟨info, hinfo, ha⟩ := hbs t ht
  have hbytes : out.toBytes = table.bytes.toBytes ++ bs := hwrote.bytes
  refine ⟨infos ++ [info], hbytes ▸ hinfos.append (.single hinfo), ?_⟩
  exact List.rel_append hitems (.cons ha .nil)

end Table.Holds

namespace Draft

/-- The draft is one of a class with the contents `c`. -/
structure Holds (d : Draft) (c : Contents) : Prop where
  valid : d.pool.Valid
  major : d.header.major = c.major
  minor : d.header.minor = c.minor
  access : d.header.access = c.access
  name : ∀ t, d.pool.table ≤ t → t.className d.header.thisIndex = .ok c.name
  superName : ∀ t, d.pool.table ≤ t → t.className d.header.superIndex = .ok c.superName
  fields : d.fields.Holds Field.Describes d.pool c.fields
  methods : d.methods.Holds Method.Describes d.pool c.methods
  bootstraps : d.bootstraps.toList = c.bootstraps

/-- A larger pool changes nothing. -/
theorem Holds.mono {d : Draft} {c : Contents} (h : d.Holds c) {p : Pool}
    (hgrows : d.pool.Grows p) : Holds { d with pool := p } c where
  valid := hgrows.valid h.valid
  major := h.major
  minor := h.minor
  access := h.access
  name t ht := h.name t (le_trans hgrows.le ht)
  superName t ht := h.superName t (le_trans hgrows.le ht)
  fields := h.fields.mono hgrows.le
  methods := h.methods.mono hgrows.le
  bootstraps := h.bootstraps

theorem holds_new {name superName : String} {access : UInt16} {d : Draft}
    (h : new name superName access = .ok d) :
    d.Holds ⟨defaultMajor, 0, access, name, superName, [], [], []⟩ := by
  unfold new at h
  simp only at h
  split at h
  · cases h
  · rename_i i j p hrequest
    cases h
    obtain ⟨i', p₁, hi, hrequest⟩ := bind_eq_ok.1 hrequest
    obtain ⟨j', p₂, hj, hrequest⟩ := bind_eq_ok.1 hrequest
    obtain ⟨hpair, rfl⟩ := pure_eq_ok.1 hrequest
    cases hpair
    obtain ⟨hg₁, hname⟩ := resolves_classRef name _ _ _ Pool.valid_empty hi
    have hvalid := hg₁.valid Pool.valid_empty
    obtain ⟨hg₂, hsuper⟩ := resolves_classRef superName _ _ _ hvalid hj
    exact {
      valid := hg₂.valid hvalid
      major := rfl
      minor := rfl
      access := rfl
      name := fun t ht => hname t (le_trans hg₂.le ht)
      superName := hsuper
      fields := ⟨rfl, fun _ _ => ⟨[], .nil, .nil⟩⟩
      methods := ⟨rfl, fun _ _ => ⟨[], .nil, .nil⟩⟩
      bootstraps := rfl }

/-- A bootstrap method that has been registered is numbered by its first place in the table. -/
theorem bootstrap_eq_ok {d d' : Draft} {handle i : UInt16} {arguments : List UInt16}
    (h : bootstrap handle arguments d = .ok i d') :
    i.toNat = d.bootstraps.toList.idxOf ⟨handle, arguments⟩ ∧
      d' = { d with bootstraps :=
        if ⟨handle, arguments⟩ ∈ d.bootstraps.toList then d.bootstraps
        else d.bootstraps.push ⟨handle, arguments⟩ } := by
  obtain ⟨header, pool, fields, methods, bootstraps⟩ := d
  unfold bootstrap at h
  simp only [Bootstrap.numberIn_eq, ← Array.length_toList, List.idxOf_lt_length_iff] at h
  split at h
  · rename_i k hk
    cases h
    obtain ⟨rfl, hlt⟩ := count16_eq_ok hk
    refine ⟨?_, rfl⟩
    simp
    omega
  · cases h

end Draft

/-! ## Construction steps -/

/-- Whenever the step succeeds on a draft of `c`, it leaves a draft of contents that satisfy `Q`
in all later tables, together with the step's answer. -/
def Builds {ε α : Type} (step : EStateM ε Draft α) (c : Contents)
    (Q : ConstantTable → α → Contents → Prop) : Prop :=
  ∀ d d' a, d.Holds c → step d = .ok a d' →
    ∃ c', d'.Holds c' ∧ d.pool.Grows d'.pool ∧ ∀ t, d'.pool.table ≤ t → Q t a c'

namespace Builds

variable {ε α β : Type} {c : Contents}

theorem mono {x : EStateM ε Draft α} {Q R : ConstantTable → α → Contents → Prop}
    (h : Builds x c Q) (hQ : ∀ t a c', Q t a c' → R t a c') : Builds x c R := by
  intro d d' a hd hx
  obtain ⟨c', hc', hgrows, ha⟩ := h d d' a hd hx
  exact ⟨c', hc', hgrows, fun t ht => hQ t a c' (ha t ht)⟩

/-- A step that adds nothing leaves a draft of the same contents. -/
theorem holds {x : EStateM ε Draft α} {P : ConstantTable → α → Prop} {d d' : Draft} {a : α}
    (h : Builds x c fun t a c' => P t a ∧ c' = c) (hd : d.Holds c) (hx : x d = .ok a d') :
    d'.Holds c := by
  obtain ⟨c', hc', -, hQ⟩ := h d d' a hd hx
  exact (hQ _ le_rfl).2 ▸ hc'

theorem pure (a : α) : Builds (pure a : EStateM ε Draft α) c fun _ b c' => b = a ∧ c' = c := by
  intro d d' b hd h
  obtain ⟨rfl, rfl⟩ := pure_eq_ok.1 h
  exact ⟨c, hd, Pool.Grows.refl _, fun _ _ => ⟨rfl, rfl⟩⟩

theorem bind {x : EStateM ε Draft α} {f : α → EStateM ε Draft β}
    {Q : ConstantTable → α → Contents → Prop}
    {R : α → Contents → ConstantTable → β → Contents → Prop} (hx : Builds x c Q)
    (hf : ∀ a c', Builds (f a) c' (R a c')) :
    Builds (x >>= f) c fun t b c'' => ∃ a c', Q t a c' ∧ R a c' t b c'' := by
  intro d d'' b hd h
  obtain ⟨a, d', h₁, h₂⟩ := bind_eq_ok.1 h
  obtain ⟨c', hc', hgrows, hQ⟩ := hx d d' a hd h₁
  obtain ⟨c'', hc'', hgrows', hR⟩ := hf a c' d' d'' b hc' h₂
  refine ⟨c'', hc'', hgrows.trans hgrows', fun t ht => ⟨a, c', ?_, hR t ht⟩⟩
  exact hQ t (le_trans hgrows'.le ht)

/-- A step that is refused under a condition. -/
theorem guard {p : Prop} [Decidable p] {e : ε} {x : EStateM ε Draft α}
    {Q : ConstantTable → α → Contents → Prop} (hx : Builds x c Q) :
    Builds (if p then throw e else x) c fun t a c' => ¬p ∧ Q t a c' := by
  by_cases hp : p
  · rw [if_pos hp]
    intro d d' a _ h
    cases h
  · rw [if_neg hp]
    exact hx.mono fun _ _ _ h => ⟨hp, h⟩

/-- Steps that each add to the contents add one after the other. -/
theorem forM {f : α → EStateM ε Draft Unit} {g : Contents → α → Contents} {P : α → Prop}
    (hf : ∀ c a, Builds (f a) c fun _ _ c' => P a ∧ c' = g c a) (as : List α) (c : Contents) :
    Builds (as.forM f) c fun _ _ c' => (∀ a ∈ as, P a) ∧ c' = as.foldl g c := by
  induction as generalizing c with
  | nil => exact (pure ()).mono fun _ _ _ h => ⟨by simp, h.2⟩
  | cons a as ih =>
    refine ((hf c a).bind fun _ c' => ih c').mono ?_
    rintro t - c'' ⟨_, c', ⟨ha, rfl⟩, has, rfl⟩
    exact ⟨List.forall_mem_cons.mpr ⟨ha, has⟩, rfl⟩

/-- Requests give their answers in order. -/
theorem mapM {f : α → EStateM ε Draft β} {P : ConstantTable → α → β → Prop}
    (hf : ∀ c a, Builds (f a) c fun t b c' => P t a b ∧ c' = c) (as : List α) (c : Contents) :
    Builds (as.mapM f) c fun t bs c' => List.Forall₂ (P t) as bs ∧ c' = c := by
  induction as generalizing c with
  | nil =>
    rw [List.mapM_nil]
    refine (pure []).mono ?_
    rintro t bs c' ⟨rfl, rfl⟩
    exact ⟨.nil, rfl⟩
  | cons a as ih =>
    rw [List.mapM_cons]
    refine ((hf c a).bind fun b c' => (ih c').bind fun bs c'' => pure (b :: bs)).mono ?_
    rintro t - c' ⟨b, _, ⟨hb, rfl⟩, bs, _, ⟨hbs, rfl⟩, rfl, rfl⟩
    exact ⟨.cons hb hbs, rfl⟩

theorem intern {r : Intern α} {P : ConstantTable → α → Prop} (hr : Resolves r P) :
    Builds (Draft.intern r) c fun t a c' => P t a ∧ c' = c := by
  intro d d' a hd h
  obtain ⟨header, pool, fields, methods, bootstraps⟩ := d
  unfold Draft.intern at h
  simp only at h
  split at h
  · rename_i q hq
    cases h
    obtain ⟨hgrows, hP⟩ := hr _ _ _ hd.valid hq
    exact ⟨c, hd.mono hgrows, hgrows, fun t ht => ⟨hP t ht, rfl⟩⟩
  · cases h

theorem field (f : Field) :
    Builds (Draft.field f) c fun _ _ c' => c' = c.addField f := by
  intro d d' a hd h
  obtain ⟨header, pool, ⟨count, bytes⟩, methods, bootstraps⟩ := d
  unfold Draft.field at h
  simp only at h
  split at h
  · rename_i q out hwrite
    cases h
    obtain ⟨hgrows, hfields⟩ := hd.fields.write hd.valid f.write_spec hwrite
    refine ⟨_, ?_, hgrows, fun t _ => rfl⟩
    exact { hd.mono hgrows with fields := hfields }
  · cases h

theorem method (m : Method) :
    Builds (Draft.method m) c fun _ _ c' => c' = c.addMethod m := by
  intro d d' a hd h
  obtain ⟨header, pool, fields, ⟨count, bytes⟩, bootstraps⟩ := d
  unfold Draft.method at h
  simp only at h
  split at h
  · rename_i q out hwrite
    cases h
    obtain ⟨hgrows, hmethods⟩ := hd.methods.write hd.valid m.write_spec hwrite
    refine ⟨_, ?_, hgrows, fun t _ => rfl⟩
    exact { hd.mono hgrows with methods := hmethods }
  · cases h

/-- The number of a bootstrap method is its place. -/
theorem bootstrap (handle : UInt16) (arguments : List UInt16) :
    Builds (Draft.bootstrap handle arguments) c fun _ i c' =>
      c' = c.withBootstrap ⟨handle, arguments⟩ ∧
        c'.bootstraps[i.toNat]? = some ⟨handle, arguments⟩ := by
  intro d d' i hd h
  obtain ⟨hi, rfl⟩ := Draft.bootstrap_eq_ok h
  rw [hd.bootstraps] at hi
  refine ⟨c.withBootstrap ⟨handle, arguments⟩, ?_, Pool.Grows.refl _, fun t _ => ⟨rfl, ?_⟩⟩
  · unfold Contents.withBootstrap
    rw [hd.bootstraps]
    by_cases hmem : ⟨handle, arguments⟩ ∈ c.bootstraps
    · rw [if_pos hmem, if_pos hmem]
      exact hd
    · rw [if_neg hmem, if_neg hmem]
      exact { hd with bootstraps := by rw [Array.toList_push, hd.bootstraps] }
  · rw [hi]
    exact c.getElem?_withBootstrap _

theorem invokeDynamic (handle : UInt16) (arguments : List UInt16) (name : String)
    (type : MethodType) :
    Builds (Draft.invokeDynamic handle arguments name type) c fun t site c' =>
      c' = c.withBootstrap ⟨handle, arguments⟩ ∧
        ∃ number, t.invokeDynamic site = .ok (number, name, type.descriptor) ∧
          c'.bootstraps[number.toNat]? = some ⟨handle, arguments⟩ := by
  refine ((bootstrap handle arguments).bind fun number c' =>
    intern (resolves_invokeDynamic number name type.descriptor)).mono ?_
  rintro t site c' ⟨number, _, ⟨rfl, hnumber⟩, hsite, rfl⟩
  exact ⟨rfl, number, hsite, hnumber⟩

end Builds

/-! ## Bootstrap methods -/

namespace Bootstrap

/-- The bootstrap method is resolved to `info`. -/
structure Describes (t : ConstantTable) (b : Bootstrap) (info : BootstrapInfo) : Prop where
  handle : t.methodHandle b.handle = .ok (info.kind, info.method)
  arguments : List.Forall₂ (fun i a => t.bootstrapArgument i = .ok a) b.arguments info.arguments

/-- The bytes of a bootstrap method. -/
def encode (b : Bootstrap) : Bytes :=
  Bytes.ofUInt16 b.handle ++ (Bytes.ofUInt16 b.arguments.length.toUInt16
    ++ b.arguments.flatMap Bytes.ofUInt16)

theorem write_spec (b : Bootstrap) :
    Writes b.write fun _ bs => bs = b.encode ∧ b.arguments.length < 65536 := by
  refine ((Writes.emit _).bind ((Writes.count _ _).bind (Writes.emit _))).mono ?_
  rintro t bs ⟨_, _, rfl, rfl, _, _, rfl, ⟨rfl, hlt⟩, rfl⟩
  exact ⟨rfl, hlt⟩

theorem readsAll_arguments {t : ConstantTable} {is : List UInt16} {as : List BootstrapArgument}
    (h : List.Forall₂ (fun i a => t.bootstrapArgument i = .ok a) is as) :
    ReadsAll (do let i ← Read.u16; Read.ofExcept (t.bootstrapArgument i))
      (is.flatMap Bytes.ofUInt16) as := by
  induction h with
  | nil => exact .nil
  | @cons i a is as hi _ ih =>
    have hread := (reads_u16 i).bind (f := fun i => Read.ofExcept (t.bootstrapArgument i))
      (Reads.ofExcept hi)
    rw [List.append_nil] at hread
    exact .cons hread ih

theorem reads_readBootstrap {t : ConstantTable} {b : Bootstrap} {info : BootstrapInfo}
    (h : b.Describes t info) (hlt : b.arguments.length < 65536) :
    Reads t.readBootstrap b.encode info := by
  have hcount : info.arguments.length = b.arguments.length.toUInt16.toNat := by
    rw [← h.arguments.length_eq]
    simp
    omega
  refine (reads_u16 b.handle).bind (Reads.bind_nil (Reads.ofExcept h.handle) ?_)
  exact (reads_list (readsAll_arguments h.arguments) hcount).map

theorem reads_pieces {t : ConstantTable} {bs : List Bootstrap} {pieces : List Bytes}
    {infos : List BootstrapInfo}
    (hpieces : List.Forall₂ (fun b out => out = b.encode ∧ b.arguments.length < 65536) bs pieces)
    (hinfos : List.Forall₂ (Describes t) bs infos) :
    List.Forall₂ (fun info out => Reads t.readBootstrap out info) infos pieces := by
  induction hpieces generalizing infos with
  | nil =>
    cases hinfos
    exact .nil
  | cons hpiece _ ih =>
    cases hinfos with
    | cons hinfo hinfos =>
      obtain ⟨rfl, hlt⟩ := hpiece
      exact .cons (reads_readBootstrap hinfo hlt) (ih hinfos)

/-- A table of bootstrap methods is read as what they are resolved to. -/
theorem writeAll_spec (bs : List Bootstrap) :
    Writes (writeAll bs) fun _ out => ∀ t infos, List.Forall₂ (Describes t) bs infos →
      Reads (Read.list t.readBootstrap) out infos := by
  refine ((Writes.count _ _).bind (Writes.forM write_spec bs)).mono ?_
  rintro _ out ⟨_, _, rfl, ⟨rfl, hlt⟩, pieces, rfl, hpieces⟩ t infos hinfos
  have hcount : infos.length = bs.length.toUInt16.toNat := by
    rw [← hinfos.length_eq]
    simp
    omega
  exact reads_list (ReadsAll.flatten (reads_pieces hpieces hinfos)) hcount

end Bootstrap

/-! ## Images -/

/-- The image is that of a class with the contents `c`. -/
structure Contents.Describes (c : Contents) (image : Image) : Prop where
  major : image.major = c.major
  minor : image.minor = c.minor
  access : image.access = c.access
  name : image.name = c.name
  superName : image.superName = some c.superName
  interfaces : image.interfaces = []
  fields : List.Forall₂ (Field.Describes image.constants) c.fields image.fields
  methods : List.Forall₂ (Method.Describes image.constants) c.methods image.methods
  bootstraps : ∀ infos, List.Forall₂ (Bootstrap.Describes image.constants) c.bootstraps infos →
    image.bootstraps = .ok infos

/-! ## Building and parsing -/

namespace Draft

/-- The name of the bootstrap attribute is in the pool if there are bootstrap methods. -/
theorem attributeName_spec {d : Draft} {name : Option UInt16} {pool : Pool} (hd : d.pool.Valid)
    (h : d.attributeName = .ok (name, pool)) :
    d.pool.Grows pool ∧ ((name = none ∧ d.bootstraps.toList = []) ∨
      ∃ i, name = some i ∧ d.bootstraps.toList ≠ [] ∧
        pool.table.utf8 i = .ok Bootstrap.attributeName) := by
  unfold attributeName at h
  split at h
  · rename_i hempty
    cases h
    exact ⟨Pool.Grows.refl _, .inl ⟨rfl, by simpa using hempty⟩⟩
  · rename_i hsome
    split at h
    · rename_i i q hi
      cases h
      obtain ⟨hgrows, hname⟩ := resolves_utf8 _ _ _ _ hd hi
      exact ⟨hgrows, .inr ⟨i, rfl, by simpa using hsome, hname _ le_rfl⟩⟩
    · cases h

/-- The attributes of a class are read as at most one, the table of bootstrap methods. -/
theorem writeAttributes_spec (bootstraps : List Bootstrap) (name : Option UInt16) :
    Writes (writeAttributes bootstraps name) fun _ out => ∀ t : ConstantTable,
      (name = none → Reads t.readAttributes out []) ∧
      ∀ i text, name = some i → t.utf8 i = .ok text →
        ∃ data, Reads t.readAttributes out [⟨text, data⟩] ∧
          ∀ infos, List.Forall₂ (Bootstrap.Describes t) bootstraps infos →
            Reads (Read.list t.readBootstrap) data infos := by
  cases name with
  | none =>
    refine (Writes.emit (Bytes.ofUInt16 0)).mono ?_
    rintro _ out rfl t
    exact ⟨fun _ => reads_readAttributes_nil, nofun⟩
  | some i =>
    refine ((Writes.emit (Bytes.ofUInt16 1)).bind
      (Writes.inAttribute i (Bootstrap.writeAll_spec bootstraps))).mono ?_
    rintro _ out ⟨_, _, rfl, rfl, data, rfl, hlt, hread⟩ t
    refine ⟨nofun, fun j text h htext => ?_⟩
    cases h
    exact ⟨data, reads_readAttributes_one (reads_readAttribute htext hlt), hread t⟩

theorem written_eq_ok {pool : Pool} {w : Write Unit} {bytes : Bytes} {Q : Bytes → Prop}
    (hpool : pool.Valid) (hw : Writes w fun _ bs => Q bs) (h : written pool w = .ok bytes) :
    Q bytes := by
  unfold written at h
  split at h
  · rename_i q out hout
    cases h
    obtain ⟨bs, hwrote, hQ⟩ := hw _ _ hpool hout
    have hbytes : out.toBytes = bs := hwrote.bytes
    exact hbytes ▸ hQ _ le_rfl
  · cases h

theorem build_eq_ok {d : Draft} {bytes : Bytes} (h : d.build = .ok bytes) :
    ∃ name pool attributes, d.attributeName = .ok (name, pool) ∧
      d.fields.count < 65536 ∧ d.methods.count < 65536 ∧
      written pool (writeAttributes d.bootstraps.toList name) = .ok attributes ∧
      bytes = Bytes.ofUInt32 signature ++ Bytes.ofUInt16 d.header.minor
        ++ Bytes.ofUInt16 d.header.major ++ pool.encode
        ++ Bytes.ofUInt16 d.header.access ++ Bytes.ofUInt16 d.header.thisIndex
        ++ Bytes.ofUInt16 d.header.superIndex ++ Bytes.ofUInt16 0
        ++ Bytes.ofUInt16 d.fields.count.toUInt16 ++ d.fields.bytes.toBytes
        ++ Bytes.ofUInt16 d.methods.count.toUInt16 ++ d.methods.bytes.toBytes ++ attributes := by
  unfold build at h
  obtain ⟨⟨name, pool⟩, hname, h⟩ := except_bind_eq_ok h
  obtain ⟨fieldCount, hfields, h⟩ := except_bind_eq_ok h
  obtain ⟨methodCount, hmethods, h⟩ := except_bind_eq_ok h
  obtain ⟨attributes, hattributes, h⟩ := except_bind_eq_ok h
  obtain ⟨rfl, hfieldCount⟩ := count16_eq_ok hfields
  obtain ⟨rfl, hmethodCount⟩ := count16_eq_ok hmethods
  cases h
  exact ⟨name, pool, attributes, hname, hfieldCount, hmethodCount, hattributes, rfl⟩

end Draft

namespace Image

theorem ne_zero_of_className {t : ConstantTable} {i : UInt16} {name : String}
    (h : t.className i = .ok name) : i ≠ 0 := by
  rintro rfl
  cases h

/-- The sections of a class file are read one after the other. -/
theorem reads_read {t : ConstantTable} (minor major access : UInt16)
    {thisIndex superIndex fieldCount methodCount : UInt16} {name superName : String}
    {pool fieldBytes methodBytes attributeBytes : Bytes} {fields methods : List MemberInfo}
    {attributes : List RawAttribute} (hpool : Reads ConstantTable.read pool t)
    (hname : t.className thisIndex = .ok name) (hsuper : t.className superIndex = .ok superName)
    (hfields : ReadsAll t.readMember fieldBytes fields)
    (hfieldCount : fields.length = fieldCount.toNat)
    (hmethods : ReadsAll t.readMember methodBytes methods)
    (hmethodCount : methods.length = methodCount.toNat)
    (hattributes : Reads t.readAttributes attributeBytes attributes) :
    Reads read
      (Bytes.ofUInt32 signature ++ Bytes.ofUInt16 minor ++ Bytes.ofUInt16 major ++ pool
        ++ Bytes.ofUInt16 access ++ Bytes.ofUInt16 thisIndex ++ Bytes.ofUInt16 superIndex
        ++ Bytes.ofUInt16 0 ++ Bytes.ofUInt16 fieldCount ++ fieldBytes
        ++ Bytes.ofUInt16 methodCount ++ methodBytes ++ attributeBytes)
      ⟨major, minor, t, access, name, some superName, [], fields, methods, attributes⟩ := by
  have hinterfaces : Reads (Read.list t.readClassName) (Bytes.ofUInt16 0) [] := by
    have := reads_list (r := t.readClassName) (n := 0) .nil rfl
    rwa [List.append_nil] at this
  have hsuper' : (if superIndex = 0 then .ok none else (t.className superIndex).map some)
      = .ok (some superName) := by
    rw [if_neg (ne_zero_of_className hsuper), hsuper]
    rfl
  simp only [List.append_assoc]
  refine (reads_u32 signature).bind ?_
  simp only [ne_eq, not_true_eq_false, if_false]
  refine (reads_u16 minor).bind ((reads_u16 major).bind (hpool.bind ((reads_u16 access).bind
    ((reads_readClassName hname).bind ((reads_u16 superIndex).bind
      (Reads.bind_nil (Reads.ofExcept hsuper') (hinterfaces.bind ?_)))))))
  rw [← List.append_assoc, ← List.append_assoc (Bytes.ofUInt16 methodCount)]
  exact (reads_list hfields hfieldCount).bind
    ((reads_list hmethods hmethodCount).bind hattributes.map)

/-- A whole class file is parsed to what is read from it. -/
theorem parse_of_reads {bytes : Bytes} {image : Image} (h : Reads read bytes image) :
    parse bytes = .ok image := by
  have := h 0 []
  rw [List.append_nil] at this
  unfold parse
  rw [Cursor.ofBytes, this]
  rfl

end Image

/-- The image has the members that are read from the tables of the draft, and an attribute if
there are bootstrap methods. -/
structure Draft.IsStoredIn (d : Draft) (image : Image) : Prop where
  fields : ReadsAll image.constants.readMember d.fields.bytes.toBytes image.fields
  methods : ReadsAll image.constants.readMember d.methods.bytes.toBytes image.methods
  attributes : image.attributes.map (·.name)
    = if d.bootstraps.toList = [] then [] else [Bootstrap.attributeName]

/-- The bytes of a draft are parsed to an image with the contents of the draft. Its constants are
those of the pool that the bytes were made from. -/
theorem exists_image_of_build {d : Draft} {c : Contents} {bytes : Bytes} (hd : d.Holds c)
    (h : d.build = .ok bytes) :
    ∃ image name pool, Image.parse bytes = .ok image ∧ d.attributeName = .ok (name, pool) ∧
      image.constants = pool.table ∧ d.IsStoredIn image ∧ c.Describes image := by
  obtain ⟨name, pool, out, hname, hfieldCount, hmethodCount, hout, rfl⟩ := Draft.build_eq_ok h
  obtain ⟨hgrows, hcases⟩ := Draft.attributeName_spec hd.valid hname
  have hpool := hgrows.valid hd.valid
  have hle := hgrows.le
  obtain ⟨hnone, hsome⟩ :=
    Draft.written_eq_ok hpool (Draft.writeAttributes_spec _ name) hout pool.table
  obtain ⟨fields, hfields, hfields'⟩ := hd.fields.entries _ hle
  obtain ⟨methods, hmethods, hmethods'⟩ := hd.methods.entries _ hle
  have hfieldCount' : fields.length = d.fields.count.toUInt16.toNat := by
    rw [← hfields'.length_eq, ← hd.fields.count]
    simp
    omega
  have hmethodCount' : methods.length = d.methods.count.toUInt16.toNat := by
    rw [← hmethods'.length_eq, ← hd.methods.count]
    simp
    omega
  have hread {attributes : List RawAttribute}
      (hattributes : Reads pool.table.readAttributes out attributes) :=
    Image.parse_of_reads (Image.reads_read d.header.minor d.header.major d.header.access
      (ConstantTable.reads_encode hpool) (hd.name _ hle) (hd.superName _ hle) hfields hfieldCount'
      hmethods hmethodCount' hattributes)
  obtain ⟨rfl, hempty⟩ | ⟨i, rfl, hbootstraps, hi⟩ := hcases
  · refine ⟨_, none, pool, hread (hnone rfl), hname, rfl, ⟨hfields, hmethods, ?_⟩, ?_⟩
    · rw [if_pos hempty]
      rfl
    refine ⟨hd.major, hd.minor, hd.access, rfl, rfl, rfl, hfields', hmethods', ?_⟩
    intro infos hinfos
    rw [← hd.bootstraps, hempty] at hinfos
    cases hinfos
    rfl
  · obtain ⟨data, hdata, hinfos⟩ := hsome i _ rfl hi
    refine ⟨_, some i, pool, hread hdata, hname, rfl, ⟨hfields, hmethods, ?_⟩, ?_⟩
    · rw [if_neg hbootstraps]
      rfl
    refine ⟨hd.major, hd.minor, hd.access, rfl, rfl, rfl, hfields', hmethods', ?_⟩
    intro infos h
    exact readFrom_of_reads (hinfos infos (hd.bootstraps ▸ h))

end SchemaRecords.ClassFile
