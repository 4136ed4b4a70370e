import SchemaRecords.Proofs.ClassFile.Contents
import SchemaRecords.Proofs.ClassFile.MemberDemand

/-!
# What making a class asks of the pool

Steps that make a class, from an empty draft to its bytes, fail only if the pool
refuses one of their texts or is full, as long as the tables do not get too long.

* `Draft.new_cases`, `Draft.build_cases`: the first and the last step.
* `Draft.intern_asks`, `Draft.field_asks`, `Draft.method_asks`,
  `Draft.invokeDynamic_asks`: the steps between them.
-/

namespace SchemaRecords.ClassFile

namespace Draft

variable {texts : List String} {k b : Nat}

/-! ## Constants and members -/

theorem intern_asks {α : Type} {r : Intern α} {Q : α → Prop} (h : Asks r texts k b Q) :
    Asks (intern r) texts k 0 Q := by
  refine h.lift fun d => ?_
  obtain ⟨header, pool, fields, methods, bootstraps⟩ := d
  refine ⟨pool, rfl, fun a q hq => ?_, fun e q hq => ?_⟩
  · refine ⟨a, ⟨header, q, fields, methods, bootstraps⟩, ?_, rfl, Nat.le_refl _, id⟩
    simp only [intern, hq]
  · refine ⟨⟨header, q, fields, methods, bootstraps⟩, ?_⟩
    simp only [intern, hq]

theorem field_asks {f : Field} (h : AnnotationEntry.AreFew f.annotations) :
    Asks (field f) f.texts 6 0 fun _ => True := by
  refine (Field.write_asks h).lift fun d => ?_
  obtain ⟨header, pool, ⟨count, bytes⟩, methods, bootstraps⟩ := d
  refine ⟨⟨pool, bytes⟩, rfl, fun _ w hw => ?_, fun e w hw => ?_⟩
  · refine ⟨(), ⟨header, w.pool, ⟨count + 1, w.out⟩, methods, bootstraps⟩, ?_, rfl, Nat.le_refl _,
      fun _ => trivial⟩
    simp only [field, hw]
  · refine ⟨⟨header, w.pool, ⟨count, w.out⟩, methods, bootstraps⟩, ?_⟩
    simp only [field, hw]

theorem method_asks {m : Method} (h : m.IsWritable) :
    Asks (method m) m.texts m.entries 0 fun _ => True := by
  refine (Method.write_asks h).lift fun d => ?_
  obtain ⟨header, pool, fields, ⟨count, bytes⟩, bootstraps⟩ := d
  refine ⟨⟨pool, bytes⟩, rfl, fun _ w hw => ?_, fun e w hw => ?_⟩
  · refine ⟨(), ⟨header, w.pool, fields, ⟨count + 1, w.out⟩, bootstraps⟩, ?_, rfl, Nat.le_refl _,
      fun _ => trivial⟩
    simp only [method, hw]
  · refine ⟨⟨header, w.pool, fields, ⟨count, w.out⟩, bootstraps⟩, ?_⟩
    simp only [method, hw]

/-! ## Call sites -/

/-- A bootstrap method has a number if there are not too many of them. -/
theorem bootstrap_asks {d : Draft} (h : d.bootstraps.size < 65536) (handle : UInt16)
    (arguments : List UInt16) :
    AsksFrom d (bootstrap handle arguments) [] 0 0 fun _ => True := by
  obtain ⟨header, pool, fields, methods, bootstraps⟩ := d
  have hnumber : bootstraps.toList.idxOf ⟨handle, arguments⟩ < 65536 :=
    Nat.lt_of_le_of_lt List.idxOf_le_length h
  have hok : ∃ bs, bootstrap handle arguments ⟨header, pool, fields, methods, bootstraps⟩
      = .ok (bootstraps.toList.idxOf ⟨handle, arguments⟩).toUInt16
          ⟨header, pool, fields, methods, bs⟩ := by
    simp only [bootstrap, Bootstrap.numberIn_eq, count16, if_pos hnumber]
    exact ⟨_, rfl⟩
  obtain ⟨bs, hok⟩ := hok
  exact .inl ⟨_, _, hok, by simp, Nat.le_refl _, Nat.le_refl _, trivial, .refl _⟩

theorem invokeDynamic_asks {d : Draft} (h : d.bootstraps.size < 65536) (handle : UInt16)
    (arguments : List UInt16) (name : String) (type : MethodType) :
    AsksFrom d (invokeDynamic handle arguments name type) [name, type.descriptor] 4 0
      fun _ => True :=
  AsksFrom.mono ((bootstrap_asks h handle arguments).bind fun _ d' _ _ =>
    intern_asks (Pool.invokeDynamic_asks _ name type.descriptor) d') (by omega) (by omega)
    fun _ _ => trivial

end Draft

namespace Bootstrap

theorem length_encode_arguments (arguments : List UInt16) :
    (arguments.flatMap Bytes.ofUInt16).length = arguments.length * 2 := by
  induction arguments with
  | nil => rfl
  | cons i arguments ih =>
    rw [List.flatMap_cons, List.length_append, ih, List.length_cons, Bytes.length_ofUInt16]
    omega

theorem write_asks {b : Bootstrap} (h : b.arguments.length < 65536) :
    Asks b.write [] 0 131074 fun _ => True :=
  Asks.mono ((Write.emit_asks 2 (by rfl)).bind fun _ _ => (Write.count_asks _ h).bind fun _ _ =>
    Write.emit_asks _ (length_encode_arguments b.arguments)) (by omega) (by omega)
    fun _ _ => trivial

theorem writeAll_asks {bs : List Bootstrap} (hlength : bs.length < 65536)
    (h : ∀ b ∈ bs, b.arguments.length < 65536) :
    Asks (writeAll bs) (bs.flatMap fun _ => []) 0 (bs.length * 131074 + 2) fun _ => True :=
  Asks.mono ((Write.count_asks _ hlength).bind fun _ _ => Asks.forM fun b hb => write_asks (h b hb))
    (by omega) (by omega) fun _ _ => trivial

end Bootstrap

/-! ## The first and the last step -/

namespace Draft

/-- There is a draft with at most four constants, and with the names as its texts, unless one of
the names is too long. -/
theorem new_cases (name superName : String) (access : UInt16) :
    (∃ d, new name superName access = .ok d ∧ d.pool.size ≤ 4 ∧
        (∀ t ∈ [name, superName], Fits t) ∧ Pool.empty.Stores d.pool [name, superName]) ∨
      ∃ e, new name superName access = .error e ∧ Refused [name, superName] 4 e := by
  have hrequest := (Pool.classRef_asks name).bind fun i _ => (Pool.classRef_asks superName).bind
    fun j _ => Asks.pure (a := (i, j)) (Q := fun _ => True) trivial
  rcases hrequest Pool.empty with ⟨⟨i, j⟩, p, hok, haccepted⟩ | ⟨e, p, herror, hrefused⟩
  · have hnew : new name superName access
        = .ok { header := ⟨defaultMajor, 0, access, name, i, j⟩, pool := p } := by
      simp only [new, hok]
    exact .inl ⟨_, hnew, haccepted.entries, haccepted.fits, haccepted.stores⟩
  · refine .inr ⟨e, ?_, hrefused⟩
    simp only [new, herror]
    rfl

/-- The texts that a draft stores when it is built. -/
def buildTexts (d : Draft) : List String :=
  if d.bootstraps.isEmpty then [] else [Bootstrap.attributeName]

theorem buildTexts_of_singleton {d : Draft} {b : Bootstrap} (h : d.bootstraps.toList = [b]) :
    d.buildTexts = [Bootstrap.attributeName] := by
  rw [buildTexts, ← Array.isEmpty_toList, h]
  rfl

theorem attributeName_cases (d : Draft) :
    (∃ name pool, d.attributeName = .ok (name, pool) ∧ (∀ t ∈ d.buildTexts, Fits t) ∧
        d.pool.Stores pool d.buildTexts) ∨
      ∃ e, d.attributeName = .error e ∧ Refused d.buildTexts (d.pool.size + 1) e := by
  unfold attributeName buildTexts
  cases d.bootstraps.isEmpty with
  | true => exact .inl ⟨none, d.pool, rfl, by simp, .refl _⟩
  | false =>
    rcases Pool.utf8_asks Bootstrap.attributeName d.pool with
      ⟨i, p, hok, haccepted⟩ | ⟨e, p, herror, hrefused⟩
    · refine .inl ⟨some i, p, ?_, haccepted.fits, haccepted.stores⟩
      simp [hok]
    · refine .inr ⟨e, ?_, hrefused⟩
      rw [if_neg Bool.false_ne_true, herror]
      rfl

/-- The attributes of a class are written without new constants. -/
theorem written_writeAttributes {pool : Pool} (hpool : pool.Valid) {bootstraps : List Bootstrap}
    (hlength : bootstraps.length < 32768) (h : ∀ b ∈ bootstraps, b.arguments.length < 65536)
    (name : Option UInt16) : ∃ out, written pool (writeAttributes bootstraps name) = .ok out := by
  have hasks : ∃ texts b, (∀ t ∈ texts, Fits t) ∧
      Asks (writeAttributes bootstraps name) texts 0 b fun _ => True := by
    cases name with
    | none => exact ⟨[], 2, by simp, Write.emit_asks 2 rfl⟩
    | some i =>
      refine ⟨_, _, ?_, (Write.emit_asks 2 rfl).bind fun _ _ =>
        Write.inAttribute_asks i (Bootstrap.writeAll_asks (by omega) h) (by omega)⟩
      simp
  obtain ⟨texts, b, hfits, hasks⟩ := hasks
  obtain ⟨_, ⟨q, out⟩, hok, -⟩ := (hasks ⟨pool, Buffer.empty⟩).succeeds hfits hpool.size_le
  refine ⟨out.toBytes, ?_⟩
  rw [written, hok]

/-- A draft without too many members has bytes unless the pool refuses the name of an attribute. -/
theorem build_cases {d : Draft} (hpool : d.pool.Valid) (hfields : d.fields.count < 65536)
    (hmethods : d.methods.count < 65536) (hbootstraps : d.bootstraps.toList.length < 32768)
    (harguments : ∀ b ∈ d.bootstraps.toList, b.arguments.length < 65536) :
    (∃ bytes, d.build = .ok bytes ∧ ∀ t ∈ d.buildTexts, Fits t) ∨
      ∃ e, d.build = .error e ∧ Refused d.buildTexts (d.pool.size + 1) e := by
  rcases d.attributeName_cases with ⟨name, pool, hname, hfits, -⟩ | ⟨e, hname, hrefused⟩
  · have hvalid := (attributeName_spec hpool hname).1.valid hpool
    obtain ⟨out, hout⟩ := written_writeAttributes hvalid hbootstraps harguments name
    have hok : ∃ bytes, d.build = .ok bytes := by
      unfold build
      rw [hname, count16, if_pos hfields, count16, if_pos hmethods]
      simp only [bind, Except.bind, hout]
      exact ⟨_, rfl⟩
    exact .inl (hok.imp fun bytes hbytes => ⟨hbytes, hfits⟩)
  · refine .inr ⟨e, ?_, hrefused⟩
    unfold build
    rw [hname]
    rfl

end Draft

end SchemaRecords.ClassFile
