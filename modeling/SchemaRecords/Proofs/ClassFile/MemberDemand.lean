import SchemaRecords.Proofs.ClassFile.Assemblable

/-!
# What fields and methods ask of the pool

The texts of a field and of a method, and that writing either fails only if the
pool refuses one of them. Annotations and frames are taken to be as small as
those of record classes: at most one annotation with one element for a member or
parameter, and at most two locals and two operands in a frame.

* `Field.write_asks`, `Method.write_asks`: members that are written.
-/

namespace SchemaRecords.ClassFile

/-! ## Annotations -/

namespace AnnotationEntry

/-- The texts of an annotation. -/
def texts (a : AnnotationEntry) : List String :=
  a.type :: a.elements.flatMap fun element => [element.1, element.2]

/-- At most one annotation with at most one element. -/
def AreFew (annotations : List AnnotationEntry) : Prop :=
  annotations.length ≤ 1 ∧ ∀ a ∈ annotations, a.elements.length ≤ 1

theorem writeElement_asks (element : String × String) :
    Asks (writeElement element) [element.1, element.2] 2 5 fun _ => True :=
  Asks.mono ((Write.intern_asks (Pool.utf8_asks _)).bind fun _ _ =>
    (Write.emit_asks 2 (by rfl)).bind fun _ _ => (Write.emit_asks 1 (by rfl)).bind fun _ _ =>
      (Write.intern_asks (Pool.utf8_asks _)).bind fun _ _ => Write.emit_asks 2 (by rfl))
    (by omega) (by omega) fun _ _ => trivial

theorem write_asks {a : AnnotationEntry} (h : a.elements.length ≤ 1) :
    Asks a.write a.texts 3 9 fun _ => True :=
  Asks.mono ((Write.intern_asks (Pool.utf8_asks a.type)).bind fun _ _ =>
    (Write.emit_asks 2 (by rfl)).bind fun _ _ => (Write.count_asks _ (by omega)).bind fun _ _ =>
      Asks.forM fun element _ => writeElement_asks element)
    (by omega) (by omega) fun _ _ => trivial

theorem writeAll_asks {annotations : List AnnotationEntry} (h : AreFew annotations) :
    Asks (writeAll annotations) (annotations.flatMap texts) 3 11 fun _ => True := by
  have hlength := h.1
  exact Asks.mono ((Write.count_asks _ (by omega)).bind fun _ _ =>
    Asks.forM fun a ha => write_asks (h.2 a ha)) (by omega) (by omega) fun _ _ => trivial

theorem writeParameters_asks {parameters : List (List AnnotationEntry)}
    (hlength : parameters.length < 256) (h : ∀ annotations ∈ parameters, AreFew annotations) :
    Asks (writeParameters parameters) (parameters.flatMap (·.flatMap texts))
      (parameters.length * 3) (parameters.length * 11 + 1) fun _ => True := by
  have hwrite : writeParameters parameters
      = (do Write.emit [parameters.length.toUInt8]; parameters.forM writeAll : Write Unit) := by
    funext w
    rw [writeParameters, if_pos hlength]
  rw [hwrite]
  exact Asks.mono ((Write.emit_asks 1 (by rfl)).bind fun _ _ =>
    Asks.forM fun annotations hmem => writeAll_asks (h annotations hmem)) (by omega) (by omega)
    fun _ _ => trivial

end AnnotationEntry

/-! ## Frames -/

namespace VerificationType

/-- The texts of a type that a frame names. -/
def texts : VerificationType → List String
  | object name => [name]
  | _ => []

theorem write_asks (t : VerificationType) : Asks t.write t.texts 2 3 fun _ => True := by
  cases t with
  | object name =>
    exact Asks.mono ((Write.intern_asks (Pool.classRef_asks name)).bind fun _ _ =>
      Write.emit_asks 3 (by rfl)) (by omega) (by omega) fun _ _ => trivial
  | _ => exact (Write.emit_asks 1 (by rfl)).mono (by omega) (by omega) fun _ _ => trivial

end VerificationType

namespace Frame

/-- The texts of a frame. -/
def texts (f : Frame) : List String :=
  f.locals.flatMap VerificationType.texts ++ f.stack.flatMap VerificationType.texts

/-- Whether there are at most two locals and two operands. -/
def isSmall (f : Frame) : Bool := f.locals.length ≤ 2 && f.stack.length ≤ 2

theorem write_asks {f : Frame} (h : f.isSmall) (delta : UInt16) :
    Asks (f.write delta) f.texts 8 19 fun _ => True := by
  simp only [isSmall, Bool.and_eq_true, decide_eq_true_eq] at h
  obtain ⟨hlocals, hstack⟩ := h
  exact Asks.mono ((Write.emit_asks 3 (by rfl)).bind fun _ _ =>
    (Write.count_asks _ (by omega)).bind fun _ _ => (Asks.forM fun t _ => t.write_asks).bind
      fun _ _ => (Write.count_asks _ (by omega)).bind fun _ _ => Asks.forM fun t _ => t.write_asks)
    (by omega) (by omega) fun _ _ => trivial

end Frame

namespace FrameTable

theorem writeFrom_asks {frames : List (Nat × Frame)} (h : ∀ q ∈ frames, q.2.isSmall)
    (previous : Option Nat) :
    Asks (writeFrom previous frames) ((frames.map Prod.snd).flatMap Frame.texts)
      (frames.length * 8) (frames.length * 19) fun _ => True := by
  induction frames generalizing previous with
  | nil =>
    rw [List.map_nil, List.flatMap_nil, List.length_nil, Nat.zero_mul]
    exact Asks.pure trivial
  | cons q frames ih =>
    obtain ⟨offset, frame⟩ := q
    have hframe := Frame.write_asks (h (offset, frame) (by simp))
    have hrest := ih fun q hq => h q (by simp [hq])
    refine ((hframe _).bind fun _ _ => hrest _).mono ?_ ?_ fun _ _ => trivial
    · rw [List.length_cons]
      omega
    · rw [List.length_cons]
      omega

theorem write_asks {frames : List (Nat × Frame)} (hlength : frames.length < 65536)
    (h : ∀ q ∈ frames, q.2.isSmall) :
    Asks (write frames) ((frames.map Prod.snd).flatMap Frame.texts) (frames.length * 8)
      (frames.length * 19 + 2) fun _ => True := by
  refine ((Write.count_asks .frames hlength).bind fun _ _ => writeFrom_asks h none).mono ?_ ?_
    fun _ _ => trivial
  · omega
  · omega

end FrameTable

/-! ## Members -/

namespace Field

/-- The texts of a field. -/
def texts (f : Field) : List String :=
  [f.name, f.type.descriptor]
    ++ if f.annotations.isEmpty then []
      else AnnotationEntry.memberAttribute :: f.annotations.flatMap AnnotationEntry.texts

theorem write_asks {f : Field} (h : AnnotationEntry.AreFew f.annotations) :
    Asks f.write f.texts 6 27 fun _ => True := by
  have hplain : Asks (Write.emit (Bytes.ofUInt16 0)) [] 4 19 fun _ => True :=
    (Write.emit_asks 2 (by rfl)).mono (by omega) (by omega) fun _ _ => trivial
  exact Asks.mono ((Write.intern_asks (Pool.utf8_asks f.name)).bind fun _ _ =>
    (Write.intern_asks (Pool.utf8_asks f.type.descriptor)).bind fun _ _ =>
      (Write.emit_asks 6 (by rfl)).bind fun _ _ => Asks.ite (fun _ => hplain) fun _ =>
        (Write.intern_asks (Pool.utf8_asks _)).bind fun i _ =>
          (Write.emit_asks 2 (by rfl)).bind fun _ _ =>
            Write.inAttribute_asks i (AnnotationEntry.writeAll_asks h) (by omega))
    (by omega) (by omega) fun _ _ => trivial

end Field

namespace Code

/-- The texts of code with the given frames. -/
def texts (frames : List Frame) : List String :=
  attributeName :: if frames.isEmpty then [] else framesAttribute :: frames.flatMap Frame.texts

theorem write_asks {c : Code} (hbytes : c.bytes.length < 65536) (hframes : c.frames.length < 65536)
    (h : ∀ f ∈ c.frames.map Prod.snd, f.isSmall) :
    Asks c.write (texts (c.frames.map Prod.snd)) (c.frames.length * 8 + 2)
      (c.bytes.length + c.frames.length * 19 + 26) fun _ => True := by
  have hsmall : ∀ q ∈ c.frames, q.2.isSmall := fun q hq => h q.2 (List.mem_map_of_mem hq)
  have hbody : Asks c.writeBody [] 0 (c.bytes.length + 10) fun _ => True :=
    Write.emit_asks _ (by simp; omega)
  have hplain (i : UInt16) :
      Asks (Write.inAttribute i do c.writeBody; Write.emit (Bytes.ofUInt16 0)) []
        (c.frames.length * 8 + 1) (c.bytes.length + c.frames.length * 19 + 26) fun _ => True :=
    Asks.mono (Write.inAttribute_asks i (hbody.bind fun _ _ => Write.emit_asks 2 (by rfl))
      (by omega)) (by omega) (by omega) fun _ _ => trivial
  have hone : Asks (Write.emit (Bytes.ofUInt16 1)) [] 0 2 fun _ => True := Write.emit_asks 2 rfl
  have htable (i : UInt16) := (Write.intern_asks (Pool.utf8_asks framesAttribute)).bind fun j _ =>
    Write.inAttribute_asks i (hbody.bind fun _ _ => hone.bind fun _ _ =>
      Write.inAttribute_asks j (FrameTable.write_asks hframes hsmall) (by omega)) (by omega)
  unfold texts
  rw [List.isEmpty_map]
  exact Asks.mono ((Write.intern_asks (Pool.utf8_asks attributeName)).bind fun i _ =>
    Asks.ite (fun _ => hplain i) fun _ =>
      (htable i).mono (by omega) (by omega) fun _ _ => trivial)
    (by omega) (by omega) fun _ _ => trivial

end Code

namespace Method

/-- The texts of a method. -/
def texts (m : Method) : List String :=
  [m.name, m.type.descriptor] ++ m.body.operations.flatMap Operation.texts
    ++ Code.texts (boundFrames m.body.operations)
    ++ if m.isAnnotated then
        AnnotationEntry.parameterAttribute
          :: m.parameterAnnotations.flatMap (·.flatMap AnnotationEntry.texts)
      else []

/-- The entries that a method takes at most. -/
def entries (m : Method) : Nat :=
  constantEntries m.body.operations + (boundFrames m.body.operations).length * 8
    + m.parameterAnnotations.length * 3 + 5

/-- A method that can be written, as far as it does not depend on the pool. -/
structure IsWritable (m : Method) : Prop where
  operations : Assemblable m.body.operations
  refusal : m.body.refusal = none
  frames : ∀ f ∈ boundFrames m.body.operations, f.isSmall
  lists : m.listFault? = none
  parameters : m.parameterAnnotations.length < 256
  annotations : ∀ annotations ∈ m.parameterAnnotations, AnnotationEntry.AreFew annotations

theorem length_boundFrames_le (ops : List Operation) : (boundFrames ops).length ≤ ops.length :=
  List.length_filterMap_le _ _

/-- The code of a method is written once it is assembled. -/
theorem writeCode_asks {m : Method} (h : m.IsWritable) {code : Code}
    (hcode : code.bytes.length ≤ 5 * m.body.operations.length ∧
      code.frames.map Prod.snd = boundFrames m.body.operations) :
    Asks code.write (Code.texts (boundFrames m.body.operations))
      ((boundFrames m.body.operations).length * 8 + 2) 157300 fun _ => True := by
  have hsize := h.operations.size
  have hcount := length_boundFrames_le m.body.operations
  have hlength : code.frames.length = (boundFrames m.body.operations).length := by
    rw [← hcode.2, List.length_map]
  have hwrite := Code.write_asks (c := code) (by omega) (by omega) (by
    rw [hcode.2]
    exact h.frames)
  rw [hcode.2] at hwrite
  exact hwrite.mono (by omega) (by omega) fun _ _ => trivial

theorem write_asks {m : Method} (h : m.IsWritable) :
    Asks m.write m.texts m.entries 200000 fun _ => True := by
  have hlength := h.parameters
  have hparameters (i : UInt16) := Write.inAttribute_asks i
    (AnnotationEntry.writeParameters_asks h.parameters h.annotations) (by omega)
  have hannotated := (Write.intern_asks (Pool.utf8_asks AnnotationEntry.parameterAttribute)).bind
    fun i _ => hparameters i
  unfold write texts entries
  rw [h.lists]
  dsimp only
  rw [List.append_assoc, List.append_assoc]
  exact Asks.mono ((Write.intern_asks (Pool.utf8_asks m.name)).bind fun _ _ =>
    (Write.intern_asks (Pool.utf8_asks m.type.descriptor)).bind fun _ _ =>
      (Write.intern_asks (Body.assemble_asks h.operations h.refusal _)).bind fun code hcode =>
        (Write.emit_asks 8 (by rfl)).bind fun _ _ => (writeCode_asks h hcode).bind fun _ _ =>
          Asks.ite (fun _ => hannotated) fun _ =>
            Asks.mono (Asks.pure (Q := fun _ => True) trivial) (by omega) (by omega)
              fun _ _ => trivial)
    (by omega) (by omega) fun _ _ => trivial

end Method

end SchemaRecords.ClassFile
