import SchemaRecords.Proofs.ClassFile.Assembly
import SchemaRecords.Proofs.ClassFile.FrameTable

/-!
# Fields and methods that are read back

A table entry that was written is read back, in every constant table that starts
with the entries the pool then had.

* `Field.write_spec`: a field is read with its flags, name, descriptor and annotations.
* `Code.write_spec`: code is read with its sizes and bytes, and with its frames if it has any.
* `Method.write_spec`: a method is read with its flags, name, descriptor, the code that its body
  was assembled to, and the annotations of its parameters.
-/

namespace SchemaRecords.ClassFile

/-! ## Annotations -/

namespace AnnotationEntry

theorem writeElement_spec (element : String × String) :
    Writes (writeElement element) fun t bs => Reads t.readElement bs element := by
  obtain ⟨name, value⟩ := element
  refine (Writes.intern_bind (resolves_utf8 name) fun i =>
    (Writes.emit (Bytes.ofUInt16 i)).bind ((Writes.emit [115]).bind
      (Writes.intern_bind (resolves_utf8 value) fun j => Writes.emit (Bytes.ofUInt16 j)))).mono ?_
  rintro t bs ⟨i, hi, _, _, rfl, rfl, _, _, rfl, rfl, j, hj, rfl⟩
  exact (reads_readUtf8 hi).bind (reads_cons (reads_readUtf8 hj).map)

theorem write_spec (a : AnnotationEntry) :
    Writes a.write fun t bs => Reads t.readAnnotationEntry bs a := by
  refine (Writes.intern_bind (resolves_utf8 a.type) fun i =>
    (Writes.emit (Bytes.ofUInt16 i)).bind
      (Writes.list .annotationElements writeElement_spec a.elements)).mono ?_
  rintro t bs ⟨i, hi, _, c, rfl, rfl, hc⟩
  exact (reads_readUtf8 hi).bind hc.map

theorem writeAll_spec (annotations : List AnnotationEntry) :
    Writes (writeAll annotations) fun t bs => Reads t.readAnnotations bs annotations :=
  Writes.list .annotations write_spec annotations

theorem writeParameters_spec (parameters : List (List AnnotationEntry)) :
    Writes (writeParameters parameters) fun t bs =>
      Reads t.readParameterAnnotations bs parameters := by
  intro s s' hs h
  unfold writeParameters at h
  simp only at h
  split at h
  · rename_i hlt
    refine ((Writes.emit [parameters.length.toUInt8]).bind
      (Writes.forM writeAll_spec parameters)).mono ?_ s s' hs h
    rintro t bs ⟨_, c, rfl, rfl, pieces, rfl, hpieces⟩
    refine reads_cons (reads_times (.flatten hpieces) ?_)
    simp
    omega
  · cases h

end AnnotationEntry

/-! ## Fields -/

namespace Field

/-- `m` is read with the content of the field. -/
structure Describes (t : ConstantTable) (f : Field) (m : MemberInfo) : Prop where
  access : m.access = f.access
  name : m.name = f.name
  descriptor : m.descriptor = f.type.descriptor
  annotations : ∀ image : Image, image.constants = t → image.annotations m = .ok f.annotations

/-- The attributes hold the annotations, if there are any. -/
def Attributes (t : ConstantTable) (f : Field) (attributes : List RawAttribute) : Prop :=
  if f.annotations.isEmpty then attributes = []
  else ∃ data, attributes = [⟨AnnotationEntry.memberAttribute, data⟩] ∧
    Reads t.readAnnotations data f.annotations

theorem annotations_of_attributes {image : Image} {f : Field} {m : MemberInfo}
    (h : f.Attributes image.constants m.attributes) :
    image.annotations m = .ok f.annotations := by
  unfold Attributes at h
  unfold Image.annotations MemberInfo.attribute?
  by_cases hempty : f.annotations.isEmpty = true
  · rw [if_pos hempty] at h
    rw [h, List.isEmpty_iff.mp hempty]
    rfl
  · rw [if_neg hempty] at h
    obtain ⟨data, hattributes, hread⟩ := h
    rw [hattributes]
    exact readFrom_of_reads hread

/-- A field is read back from its table entry, with the attributes that were written. -/
theorem write_attributes (f : Field) :
    Writes f.write fun t bs =>
      ∃ m, Reads t.readMember bs m ∧ f.Describes t m ∧ f.Attributes t m.attributes := by
  -- what the attributes must say, whether or not there is one
  have hattributes := Writes.ite (c := f.annotations.isEmpty)
    (Q := fun t bs => ∃ attributes, Reads t.readAttributes bs attributes ∧
      f.Attributes t attributes)
    (fun hempty => (Writes.emit (Bytes.ofUInt16 0)).mono fun t bs h => by
      refine ⟨[], h ▸ reads_readAttributes_nil, ?_⟩
      rw [Attributes, if_pos hempty])
    (fun hsome => (Writes.intern_bind (resolves_utf8 AnnotationEntry.memberAttribute) fun i =>
        (Writes.emit (Bytes.ofUInt16 1)).bind
          (Writes.named i (AnnotationEntry.writeAll_spec f.annotations))).mono fun t bs h => by
      obtain ⟨i, hi, _, c, rfl, rfl, hc⟩ := h
      obtain ⟨data, hdata, -, hread⟩ := hc _ hi
      refine ⟨_, reads_readAttributes_one hdata, ?_⟩
      rw [Attributes, if_neg (by simp [hsome])]
      exact ⟨data, rfl, hread⟩)
  refine (Writes.intern_bind (resolves_utf8 f.name) fun i =>
    Writes.intern_bind (resolves_utf8 f.type.descriptor) fun j =>
      (Writes.emit _).bind hattributes).mono ?_
  rintro t bs ⟨i, hi, j, hj, _, c, rfl, rfl, attributes, hc, hattributes⟩
  refine ⟨_, reads_readMember hi hj hc, ⟨rfl, rfl, rfl, ?_⟩, hattributes⟩
  rintro image rfl
  exact annotations_of_attributes hattributes

/-- A field is read back from its table entry. -/
theorem write_spec (f : Field) :
    Writes f.write fun t bs => ∃ m, Reads t.readMember bs m ∧ f.Describes t m :=
  f.write_attributes.mono fun _ _ ⟨m, hread, hm, _⟩ => ⟨m, hread, hm⟩

end Field

/-! ## Code -/

namespace Code

/-- `info` is read with the content of the code. -/
structure Describes (t : ConstantTable) (c : Code) (info : CodeInfo) : Prop where
  maxStack : info.maxStack = c.maxStack
  maxLocals : info.maxLocals = c.maxLocals
  bytes : info.bytes = c.bytes
  /-- The only attribute is for the frames, and there is none without frames. -/
  attributes : info.attributes.map (·.name) = if c.frames.isEmpty then [] else [framesAttribute]
  frames : ∀ image : Image, image.constants = t → image.frames info = .ok c.frames

/-- `bs` is read as an attribute that holds the code. -/
def Stored (t : ConstantTable) (c : Code) (bs : Bytes) : Prop :=
  ∃ data info, Reads t.readAttribute bs ⟨attributeName, data⟩ ∧ Reads t.readCode data info ∧
    c.Describes t info

theorem reads_readCode {t : ConstantTable} {c : Code} {bs : Bytes}
    {attributes : List RawAttribute} (hc : c.bytes.length < 4294967296)
    (h : Reads t.readAttributes bs attributes) :
    Reads t.readCode
      (Bytes.ofUInt16 c.maxStack ++ Bytes.ofUInt16 c.maxLocals
        ++ Bytes.ofUInt32 c.bytes.length.toUInt32 ++ c.bytes ++ Bytes.ofUInt16 0 ++ bs)
      ⟨c.maxStack, c.maxLocals, c.bytes, attributes⟩ := by
  have hlength : c.bytes.length.toUInt32.toNat = c.bytes.length := by
    simp
    omega
  rw [List.append_assoc, List.append_assoc, List.append_assoc, List.append_assoc]
  refine (reads_u16 _).bind ((reads_u16 _).bind ((reads_u32 _).bind ?_))
  rw [hlength]
  exact (reads_bytes _).bind ((reads_u16 0).bind (Reads.bind_nil (reads_bytes []) h.map))

theorem writeBody_spec (c : Code) :
    Writes c.writeBody fun _ bs => bs = Bytes.ofUInt16 c.maxStack ++ Bytes.ofUInt16 c.maxLocals
      ++ Bytes.ofUInt32 c.bytes.length.toUInt32 ++ c.bytes ++ Bytes.ofUInt16 0 :=
  Writes.emit _

/-- A body followed by attributes is stored code. -/
theorem stored_of_attributes {t : ConstantTable} {c : Code} {bs data : Bytes}
    {attributes : List RawAttribute}
    (h : Reads t.readAttribute bs
      ⟨attributeName, Bytes.ofUInt16 c.maxStack ++ Bytes.ofUInt16 c.maxLocals
        ++ Bytes.ofUInt32 c.bytes.length.toUInt32 ++ c.bytes ++ Bytes.ofUInt16 0 ++ data⟩)
    (hlt : (Bytes.ofUInt16 c.maxStack ++ Bytes.ofUInt16 c.maxLocals
        ++ Bytes.ofUInt32 c.bytes.length.toUInt32 ++ c.bytes ++ Bytes.ofUInt16 0
        ++ data).length < 4294967296)
    (hdata : Reads t.readAttributes data attributes)
    (hc : c.Describes t ⟨c.maxStack, c.maxLocals, c.bytes, attributes⟩) : Stored t c bs := by
  refine ⟨_, _, h, reads_readCode ?_ hdata, hc⟩
  simp only [List.length_append] at hlt
  omega

/-- Code is read back from its attribute. -/
theorem write_spec {c : Code} (h : FrameTable.Ordered c.frames) : Writes c.write (Stored · c) := by
  have hplain (i : UInt16) :=
    Writes.named i (c.writeBody_spec.bind (Writes.emit (Bytes.ofUInt16 0)))
  have hframes (i : UInt16) := Writes.intern_bind (resolves_utf8 framesAttribute) fun j =>
    Writes.named i (c.writeBody_spec.bind ((Writes.emit (Bytes.ofUInt16 1)).bind
      (Writes.named j (FrameTable.write_spec h))))
  refine (Writes.intern_bind (resolves_utf8 attributeName) fun i => Writes.ite
    (fun hempty => (hplain i).mono fun t bs h => ?_)
    (fun hsome => (hframes i).mono fun t bs h => ?_)).mono
    (Q := fun t bs => ∃ i, t.utf8 i = .ok attributeName ∧
      (t.utf8 i = .ok attributeName → Stored t c bs)) ?_
  · intro hi
    obtain ⟨_, hdata, hlt, _, _, rfl, rfl, rfl⟩ := h _ hi
    refine stored_of_attributes hdata hlt reads_readAttributes_nil ⟨rfl, rfl, rfl, ?_, ?_⟩
    · rw [if_pos hempty]
      rfl
    · intro image _
      rw [List.isEmpty_iff.mp hempty]
      rfl
  · intro hi
    obtain ⟨j, hj, h⟩ := h
    obtain ⟨_, hdata, hlt, _, _, rfl, rfl, _, frames, rfl, rfl, hframes⟩ := h _ hi
    obtain ⟨frameData, hframeData, -, hread⟩ := hframes _ hj
    refine stored_of_attributes hdata hlt (reads_readAttributes_one hframeData)
      ⟨rfl, rfl, rfl, ?_, ?_⟩
    · rw [if_neg (by simp [hsome])]
      rfl
    · rintro image rfl
      exact readFrom_of_reads hread
  · rintro t bs ⟨i, hi, h⟩
    exact h hi

/-- The code of the method `info` is read with the content of `c`. -/
def IsOf (t : ConstantTable) (c : Code) (info : MemberInfo) : Prop :=
  ∃ own, c.Describes t own ∧
    ∀ image : Image, image.constants = t → image.code info = .ok (some own)

end Code

/-! ## Methods -/

namespace Body

theorem ordered_of_assemble {b : Body} {locals : UInt16} {p q : Pool} {code : Code}
    (h : b.assemble locals p = .ok code q) : FrameTable.Ordered code.frames :=
  Assembler.ordered_of_finish (assemble_eq_ok h).1

end Body

namespace Method

/-- The finished code of a method that is declared after the constants in `p`: its name and its
descriptor are put into the pool before the constants of the body. -/
def code? (m : Method) (p : Pool) : Option Code :=
  let request : Intern Code := do
    let _ ← Pool.utf8 m.name
    let _ ← Pool.utf8 m.type.descriptor
    m.body.assemble (1 + m.type.parameterSlots)
  match request p with
  | .ok code _ => some code
  | .error _ _ => none

/-- `info` is read with the content of the method. -/
structure Describes (t : ConstantTable) (m : Method) (info : MemberInfo) : Prop where
  access : info.access = m.access
  name : info.name = m.name
  descriptor : info.descriptor = m.type.descriptor
  /-- The code is what the body was assembled to. -/
  code : ∃ code, (∃ p q : Pool, p.Valid ∧
      m.body.assemble (1 + m.type.parameterSlots) p = .ok code q ∧ q.table ≤ t) ∧
    code.IsOf t info
  parameterAnnotations : ∀ image : Image, image.constants = t →
    image.parameterAnnotations info = .ok (if m.isAnnotated then m.parameterAnnotations else [])

theorem Describes.located {t : ConstantTable} {m : Method} {info : MemberInfo}
    (h : m.Describes t info) (hnodup : (boundLabels m.body.operations).Nodup) (image : Image)
    (himage : image.constants = t) :
    ∃ code where?, image.code info = .ok (some code) ∧
      Located t code.bytes where? m.body.operations 0 code.bytes.length := by
  obtain ⟨code, ⟨p, q, hp, hq, ht⟩, own, hown, hread⟩ := h.code
  obtain ⟨where?, hlocated⟩ := Body.located_of_assemble hq hp hnodup ht
  exact ⟨own, where?, hread image himage, hown.bytes ▸ hlocated⟩

/-- The attributes hold the code and, if there are any, the annotations of the parameters. -/
def Attributes (t : ConstantTable) (m : Method) (code : Code)
    (attributes : List RawAttribute) : Prop :=
  ∃ data rest own, attributes = ⟨Code.attributeName, data⟩ :: rest ∧
    Reads t.readCode data own ∧ code.Describes t own ∧
    if m.isAnnotated then ∃ data', rest = [⟨AnnotationEntry.parameterAttribute, data'⟩] ∧
      Reads t.readParameterAnnotations data' m.parameterAnnotations
    else rest = []

theorem writeAttributes_spec (m : Method) {code : Code} (h : FrameTable.Ordered code.frames) :
    Writes (do
        code.write
        if m.isAnnotated then
          let attributeName ← Write.intern (Pool.utf8 AnnotationEntry.parameterAttribute)
          Write.inAttribute attributeName
            (AnnotationEntry.writeParameters m.parameterAnnotations))
      fun t bs => ∃ attributes, attributes.length = m.attributeCount.toNat ∧
        ReadsAll t.readAttribute bs attributes ∧ m.Attributes t code attributes := by
  unfold Attributes attributeCount
  by_cases hannotated : m.isAnnotated = true
  · simp only [hannotated, if_true]
    refine ((Code.write_spec h).bind (Writes.intern_bind (resolves_utf8 _) fun i =>
      Writes.named i (AnnotationEntry.writeParameters_spec _))).mono ?_
    rintro t bs ⟨b, c, rfl, ⟨data, own, hdata, hcode⟩, i, hi, h⟩
    obtain ⟨data', hdata', -, hparameters⟩ := h _ hi
    exact ⟨_, rfl, .cons hdata (.single hdata'), data, _, own, rfl, hcode.1, hcode.2, data', rfl,
      hparameters⟩
  · simp only [hannotated]
    refine ((Code.write_spec h).bind Writes.pure).mono ?_
    rintro t bs ⟨b, c, rfl, ⟨data, own, hdata, hcode⟩, rfl⟩
    exact ⟨_, rfl, .cons hdata .nil, data, [], own, rfl, hcode.1, hcode.2, by simp⟩

theorem parameterAnnotations_of_attributes {image : Image} {m : Method} {code : Code}
    {info : MemberInfo} (h : m.Attributes image.constants code info.attributes) :
    image.parameterAnnotations info
      = .ok (if m.isAnnotated then m.parameterAnnotations else []) := by
  obtain ⟨data, rest, own, hattributes, -, -, hrest⟩ := h
  unfold Image.parameterAnnotations MemberInfo.attribute?
  rw [hattributes]
  by_cases hannotated : m.isAnnotated = true
  · rw [if_pos hannotated] at hrest ⊢
    obtain ⟨data', rfl, hread⟩ := hrest
    exact readFrom_of_reads hread
  · rw [if_neg hannotated] at hrest ⊢
    rw [hrest]
    rfl

theorem isOf_of_attributes {t : ConstantTable} {m : Method} {code : Code} {info : MemberInfo}
    (h : m.Attributes t code info.attributes) : code.IsOf t info := by
  obtain ⟨data, rest, own, hattributes, hread, hown, -⟩ := h
  refine ⟨own, hown, ?_⟩
  rintro image rfl
  unfold Image.code MemberInfo.attribute?
  rw [hattributes]
  show (Image.readFrom ⟨Code.attributeName, data⟩ image.constants.readCode).map some = _
  rw [readFrom_of_reads hread]
  rfl

/-- A method is read back from its table entry, with the code that it was declared with and with
the attributes that were written. -/
theorem wrote_of_write {m : Method} {s s' : Writer} (hs : s.pool.Valid)
    (h : m.write s = .ok () s') :
    ∃ code bs, m.code? s.pool = some code ∧ Wrote s s' bs ∧
      ∀ t, s'.pool.table ≤ t → ∃ info, Reads t.readMember bs info ∧ m.Describes t info ∧
        m.Attributes t code info.attributes := by
  unfold write at h
  cases hfault : m.listFault? with
  | some e =>
    rw [hfault] at h
    cases h
  | none =>
    rw [hfault] at h
    obtain ⟨i, p₁, hi, h⟩ := intern_bind_eq_ok h
    obtain ⟨j, p₂, hj, h⟩ := intern_bind_eq_ok h
    obtain ⟨code, q, hcode, h⟩ := intern_bind_eq_ok h
    obtain ⟨hg₁, hname⟩ := resolves_utf8 m.name _ _ _ hs hi
    have hp₁ := hg₁.valid hs
    obtain ⟨hg₂, hdescriptor⟩ := resolves_utf8 m.type.descriptor _ _ _ hp₁ hj
    have hp₂ := hg₂.valid hp₁
    have hg₃ := Body.grows_of_assemble hcode
    obtain ⟨bs, hwrote, hbs⟩ := (Writes.emit _).bind
      (writeAttributes_spec m (Body.ordered_of_assemble hcode)) _ s' (hg₃.valid hp₂) h
    have hle := hwrote.grows.le
    refine ⟨code, bs, ?_, ⟨(hg₁.trans hg₂).trans (hg₃.trans hwrote.grows), hwrote.bytes⟩, ?_⟩
    · have hrequest : (do
          let _ ← Pool.utf8 m.name
          let _ ← Pool.utf8 m.type.descriptor
          m.body.assemble (1 + m.type.parameterSlots) : Intern Code) s.pool = .ok code q :=
        bind_eq_ok.2 ⟨i, p₁, hi, bind_eq_ok.2 ⟨j, p₂, hj, hcode⟩⟩
      rw [code?, hrequest]
    · intro t ht
      obtain ⟨_, c, rfl, rfl, attributes, hlength, hc, hattributes⟩ := hbs t ht
      have hqt := le_trans hle ht
      have hi' := hname t (le_trans hg₂.le (le_trans hg₃.le hqt))
      have hj' := hdescriptor t (le_trans hg₃.le hqt)
      rw [List.append_assoc _ _ c]
      refine ⟨_, reads_readMember hi' hj' (reads_list hc hlength),
        ⟨rfl, rfl, rfl, ⟨code, ⟨p₂, q, hp₂, hcode, hqt⟩, isOf_of_attributes hattributes⟩, ?_⟩,
        hattributes⟩
      rintro image rfl
      exact parameterAnnotations_of_attributes hattributes

/-- A method is read back from its table entry. -/
theorem write_spec (m : Method) :
    Writes m.write fun t bs => ∃ info, Reads t.readMember bs info ∧ m.Describes t info := by
  intro s s' hs h
  obtain ⟨code, bs, -, hwrote, hbs⟩ := wrote_of_write hs h
  refine ⟨bs, hwrote, fun t ht => ?_⟩
  obtain ⟨info, hinfo, hm, -⟩ := hbs t ht
  exact ⟨info, hinfo, hm⟩

end Method

end SchemaRecords.ClassFile
