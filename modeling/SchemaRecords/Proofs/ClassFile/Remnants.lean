import SchemaRecords.Proofs.ClassFile.Session

/-!
# What a failed member leaves behind

A member is written to its table while it is added, so a member that cannot be
added may have left bytes there. The entry is not counted, but the next entry is
written after these bytes.

* `Extends`: whatever comes of a write, it only adds constants and bytes. The
  rules follow the writes, as those of `Writes` do for writes that succeed.
* `Write.after_entry`: bytes of an entry are left exactly if its heading, the
  constants that its first bytes mention, could be had.
* `Draft.tables_after_failures`: a failed member changes the tables exactly if
  its entry was begun. If no entry was, the class is read with the members that
  were added. `Draft.field_leaves_bytes` is a field whose entry was begun.
-/

namespace SchemaRecords.ClassFile

/-- Bytes before the ones that are replaced stay. -/
theorem Buffer.isPrefix_overwrite {before : Bytes} {data : Array UInt8} {offset : Nat}
    (h : before <+: data.toList) (hoffset : before.length ≤ offset) (bytes : Bytes) :
    before <+: (overwrite data offset bytes).toList := by
  induction bytes generalizing data offset with
  | nil => exact h
  | cons x bytes ih =>
    refine ih ?_ (by omega)
    obtain ⟨rest, hrest⟩ := h
    rw [Array.toList_setIfInBounds, ← hrest, List.set_append_right _ _ hoffset]
    exact List.prefix_append _ _

theorem Buffer.toBytes_append (b : Buffer) (bytes : Bytes) :
    (b.append bytes).toBytes = b.toBytes ++ bytes := by
  obtain ⟨data⟩ := b
  simp [Buffer.toBytes, Buffer.append]

/-! ## Writes that may fail -/

namespace Write

/-- The state that a write leaves, whether it succeeds or fails. -/
def after {α : Type} (w : Write α) (s : Writer) : Writer :=
  match w s with
  | .ok _ s' => s'
  | .error _ s' => s'

theorem after_of_error {α : Type} {w : Write α} {s s' : Writer} {e : Error}
    (h : w s = .error e s') : after w s = s' := by
  rw [after, h]

theorem after_bind {α β : Type} (w : Write α) (f : α → Write β) (s : Writer) :
    after (w >>= f) s = match w s with
      | .ok a s' => after (f a) s'
      | .error _ s' => s' := by
  show (match EStateM.bind w f s with | .ok _ q => q | .error _ q => q) = _
  unfold EStateM.bind
  cases w s <;> rfl

theorem after_intern {α : Type} (r : Intern α) (s : Writer) :
    after (intern r) s = ⟨Pool.after r s.pool, s.out⟩ := by
  obtain ⟨pool, out⟩ := s
  unfold after intern Pool.after
  simp only
  cases r pool <;> rfl

theorem intern_bind {α β : Type} (r : Intern α) (g : α → Intern β) :
    intern (r >>= g) = intern r >>= fun a => intern (g a) := by
  funext s
  obtain ⟨pool, out⟩ := s
  show intern (EStateM.bind r g) _ = EStateM.bind (intern r) (fun a => intern (g a)) _
  unfold intern EStateM.bind
  simp only
  cases r pool <;> rfl

end Write

/-- From `s` to `s'` the pool grew and bytes were put after those that were there. -/
structure Writer.Extended (s s' : Writer) : Prop where
  grows : s.pool.Grows s'.pool
  bytes : s.out.toBytes <+: s'.out.toBytes

theorem Writer.Extended.refl (s : Writer) : s.Extended s := ⟨.refl _, List.prefix_rfl⟩

theorem Writer.Extended.trans {s s' s'' : Writer} (h : s.Extended s') (h' : s'.Extended s'') :
    s.Extended s'' :=
  ⟨h.grows.trans h'.grows, h.bytes.trans h'.bytes⟩

/-- Whether it succeeds or fails, the write only adds constants and bytes. -/
def Extends {α : Type} (w : Write α) : Prop := ∀ s : Writer, s.Extended (Write.after w s)

namespace Extends

variable {α β : Type} {w v : Write α}

theorem pure (a : α) : Extends (pure a) := fun s => .refl s

theorem emit (bytes : Bytes) : Extends (Write.emit bytes) := by
  intro s
  refine ⟨.refl _, ?_⟩
  show s.out.toBytes <+: (s.out.append bytes).toBytes
  rw [Buffer.toBytes_append]
  exact List.prefix_append _ _

theorem intern {r : Intern α} (hr : Pool.Appends r) : Extends (Write.intern r) := by
  intro s
  rw [Write.after_intern]
  exact ⟨hr s.pool, List.prefix_rfl⟩

theorem count (what : Countable) (n : Nat) : Extends (Write.count what n) := by
  intro s
  unfold Write.after Write.count
  cases count16 what n with
  | ok k => exact emit _ s
  | error e => exact .refl s

theorem bind {f : α → Write β} (hw : Extends w) (hf : ∀ a, Extends (f a)) :
    Extends (w >>= f) := by
  intro s
  have hs := hw s
  rw [Write.after_bind]
  unfold Write.after at hs
  cases h : w s with
  | ok a s' =>
    rw [h] at hs
    exact hs.trans (hf a s')
  | error e s' =>
    rw [h] at hs
    exact hs

theorem ite {c : Bool} (hw : Extends w) (hv : Extends v) : Extends (if c then w else v) := by
  cases c with
  | true => exact hw
  | false => exact hv

theorem forM {f : β → Write Unit} (hf : ∀ b, Extends (f b)) (bs : List β) :
    Extends (bs.forM f) := by
  induction bs with
  | nil => exact pure ()
  | cons b bs ih => exact (hf b).bind fun _ => ih

theorem close {before : Writer} {lengthAt : Nat} (h : before.out.size ≤ lengthAt) {s : Writer}
    (hs : before.Extended s) : before.Extended (Write.after (Write.close lengthAt) s) := by
  obtain ⟨pool, ⟨data⟩⟩ := s
  unfold Write.after Write.close
  simp only
  cases Buffer.attributeLength ⟨data⟩ lengthAt with
  | ok length => exact ⟨hs.grows, Buffer.isPrefix_overwrite hs.bytes h _⟩
  | error e => exact hs

/-- The length that is filled in stands after the bytes that were there. -/
theorem inAttribute (name : UInt16) {body : Write Unit} (hbody : Extends body) :
    Extends (Write.inAttribute name body) := by
  intro s
  have hopen : s.Extended ⟨s.pool, s.out.openAttribute name⟩ := emit _ s
  have hs := hopen.trans (hbody _)
  obtain ⟨pool, out⟩ := s
  unfold Write.after at hs ⊢
  unfold Write.inAttribute
  simp only at hs ⊢
  cases h : body ⟨pool, out.openAttribute name⟩ with
  | ok _ s' =>
    rw [h] at hs
    exact close (Nat.le_add_right _ 2) hs
  | error e s' =>
    rw [h] at hs
    exact hs

end Extends

/-! ## Attributes of members -/

namespace AnnotationEntry

theorem writeElement_extends (element : String × String) : Extends (writeElement element) :=
  (Extends.intern (Pool.utf8_appends _)).bind fun _ => (Extends.emit _).bind fun _ =>
    (Extends.emit _).bind fun _ => (Extends.intern (Pool.utf8_appends _)).bind fun _ =>
      Extends.emit _

theorem write_extends (a : AnnotationEntry) : Extends a.write :=
  (Extends.intern (Pool.utf8_appends _)).bind fun _ => (Extends.emit _).bind fun _ =>
    (Extends.count _ _).bind fun _ => Extends.forM writeElement_extends _

theorem writeAll_extends (annotations : List AnnotationEntry) : Extends (writeAll annotations) :=
  (Extends.count _ _).bind fun _ => Extends.forM write_extends _

theorem writeParameters_extends (parameters : List (List AnnotationEntry)) :
    Extends (writeParameters parameters) := by
  intro s
  unfold Write.after writeParameters
  by_cases h : parameters.length < 256
  · simp only [h, if_true]
    exact (Extends.emit _).bind (fun _ => Extends.forM writeAll_extends parameters) s
  · simp only [h, if_false]
    exact .refl s

end AnnotationEntry

theorem VerificationType.write_extends (t : VerificationType) : Extends t.write := by
  cases t with
  | integer => exact Extends.emit _
  | double => exact Extends.emit _
  | object name =>
    exact (Extends.intern (Pool.classRef_appends name)).bind fun _ => Extends.emit _

theorem Frame.write_extends (f : Frame) (delta : UInt16) : Extends (f.write delta) :=
  (Extends.emit _).bind fun _ => (Extends.count _ _).bind fun _ =>
    (Extends.forM VerificationType.write_extends _).bind fun _ => (Extends.count _ _).bind fun _ =>
      Extends.forM VerificationType.write_extends _

theorem FrameTable.writeFrom_extends (previous : Option Nat) (frames : List (Nat × Frame)) :
    Extends (writeFrom previous frames) := by
  induction frames generalizing previous with
  | nil => exact Extends.pure ()
  | cons entry frames ih => exact (entry.2.write_extends _).bind fun _ => ih _

theorem Code.write_extends (c : Code) : Extends c.write := by
  have hbody : Extends c.writeBody := Extends.emit _
  have hframes : Extends (FrameTable.write c.frames) :=
    (Extends.count _ _).bind fun _ => FrameTable.writeFrom_extends none _
  refine (Extends.intern (Pool.utf8_appends _)).bind fun name => Extends.ite ?_ ?_
  · exact Extends.inAttribute _ (hbody.bind fun _ => Extends.emit _)
  · exact (Extends.intern (Pool.utf8_appends _)).bind fun _ => Extends.inAttribute _
      (hbody.bind fun _ => (Extends.emit _).bind fun _ => Extends.inAttribute _ hframes)

/-! ## Table entries -/

/-- A write that asks for constants, begins an entry with bytes that mention them and goes on. -/
def Write.entry {α : Type} (heading : Intern α) (first : α → Bytes) (rest : α → Write Unit) :
    Write Unit := do
  let a ← Write.intern heading
  Write.emit (first a)
  rest a

section Entry

variable {α : Type} {heading : Intern α} {first : α → Bytes} {rest : α → Write Unit} {s : Writer}

/-- An entry without its heading is not written. -/
theorem Write.entry_of_error {e : Error} {q : Pool} (h : heading s.pool = .error e q) :
    Write.entry heading first rest s = .error e ⟨q, s.out⟩ := by
  obtain ⟨pool, out⟩ := s
  show EStateM.bind (Write.intern heading) _ _ = _
  unfold EStateM.bind Write.intern
  simp only at h ⊢
  rw [h]

/-- Writing an entry leaves bytes exactly if the entry has its heading. -/
theorem Write.after_entry (hheading : Pool.Appends heading) (hfirst : ∀ a, first a ≠ [])
    (hrest : ∀ a, Extends (rest a)) (s : Writer) :
    s.Extended (Write.after (Write.entry heading first rest) s) ∧
      ((Write.after (Write.entry heading first rest) s).out = s.out ↔
        ¬ ∃ a q, heading s.pool = .ok a q) := by
  have hextends : Extends (Write.entry heading first rest) :=
    (Extends.intern hheading).bind fun a => (Extends.emit _).bind fun _ => hrest a
  refine ⟨hextends s, ?_⟩
  cases h : heading s.pool with
  | error e q =>
    rw [after_of_error (entry_of_error h)]
    simp
  | ok a q =>
    have hbegun : Write.after (Write.entry heading first rest) s
        = Write.after (rest a) ⟨q, s.out.append (first a)⟩ := by
      obtain ⟨pool, out⟩ := s
      rw [Write.entry, after_bind, Write.intern]
      simp only at h ⊢
      rw [h]
      rfl
    -- the first bytes are written, and what comes after them does not take them away
    have hbytes := (hrest a ⟨q, s.out.append (first a)⟩).bytes
    rw [← hbegun, Buffer.toBytes_append] at hbytes
    refine iff_of_false (fun hout => ?_) (not_not_intro ⟨a, q, rfl⟩)
    rw [hout] at hbytes
    have hlength := hbytes.length_le
    rw [List.length_append] at hlength
    exact hfirst a (List.eq_nil_of_length_eq_zero (by omega))

end Entry

namespace Field

/-- What is asked for before the table entry of a field is begun: its name and its descriptor. -/
def heading (f : Field) : Intern (UInt16 × UInt16) := do
  let name ← Pool.utf8 f.name
  let descriptor ← Pool.utf8 f.type.descriptor
  pure (name, descriptor)

/-- Writes the attributes of the field. -/
def writeAttributes (f : Field) : Write Unit :=
  if f.annotations.isEmpty then
    Write.emit (Bytes.ofUInt16 0)
  else do
    let attributeName ← Write.intern (Pool.utf8 AnnotationEntry.memberAttribute)
    Write.emit (Bytes.ofUInt16 1)
    Write.inAttribute attributeName (AnnotationEntry.writeAll f.annotations)

theorem write_eq (f : Field) :
    f.write = Write.entry f.heading
      (fun i => Bytes.ofUInt16 f.access ++ Bytes.ofUInt16 i.1 ++ Bytes.ofUInt16 i.2)
      fun _ => f.writeAttributes := by
  unfold Write.entry heading
  simp only [Write.intern_bind, bind_assoc]
  rfl

theorem heading_appends (f : Field) : Pool.Appends f.heading :=
  (Pool.utf8_appends f.name).followed fun _ => (Pool.utf8_appends f.type.descriptor).followed
    fun _ => Pool.pure_appends _

theorem writeAttributes_extends (f : Field) : Extends f.writeAttributes :=
  Extends.ite (Extends.emit _) ((Extends.intern (Pool.utf8_appends _)).bind fun _ =>
    (Extends.emit _).bind fun _ =>
      Extends.inAttribute _ (AnnotationEntry.writeAll_extends f.annotations))

theorem after_write (f : Field) (s : Writer) :
    s.Extended (Write.after f.write s) ∧
      ((Write.after f.write s).out = s.out ↔ ¬ ∃ i q, f.heading s.pool = .ok i q) := by
  rw [write_eq]
  refine Write.after_entry f.heading_appends (fun i => ?_) (fun _ => f.writeAttributes_extends) s
  exact List.append_ne_nil_of_right_ne_nil _ (List.cons_ne_nil _ _)

theorem write_of_error {f : Field} {s : Writer} {e : Error} {q : Pool}
    (h : f.heading s.pool = .error e q) : f.write s = .error e ⟨q, s.out⟩ := by
  rw [write_eq]
  exact Write.entry_of_error h

/-- The entry of a field is begun if there is room for its name and its descriptor. -/
theorem exists_heading {f : Field} {p : Pool} (hfits : ∀ t ∈ [f.name, f.type.descriptor], Fits t)
    (hroom : p.size + 2 ≤ Pool.capacity) : ∃ i q, f.heading p = .ok i q := by
  have hasks := (Pool.utf8_asks f.name).bind fun i _ =>
    (Pool.utf8_asks f.type.descriptor).bind fun j _ =>
      Asks.pure (a := (i, j)) (Q := fun _ => True) trivial
  obtain ⟨i, q, hq, -⟩ := (hasks p).succeeds hfits hroom
  exact ⟨i, q, hq⟩

/-- The annotations of a field that is written can be counted. -/
theorem length_of_write {f : Field} {s s' : Writer} (h : f.write s = .ok () s') :
    f.annotations.length < 65536 := by
  rw [write_eq] at h
  obtain ⟨i, q, -, h⟩ := intern_bind_eq_ok h
  obtain ⟨_, s₁, -, h⟩ := bind_eq_ok.1 h
  unfold writeAttributes at h
  split at h
  · rename_i hempty
    rw [List.isEmpty_iff.1 hempty]
    exact Nat.zero_lt_succ _
  · obtain ⟨name, q, -, h⟩ := intern_bind_eq_ok h
    obtain ⟨_, s₂, -, h⟩ := bind_eq_ok.1 h
    unfold Write.inAttribute at h
    simp only at h
    split at h
    · rename_i hwrite
      obtain ⟨_, s₃, hcount, -⟩ := bind_eq_ok.1 hwrite
      unfold Write.count at hcount
      split at hcount
      · rename_i hk
        exact (count16_eq_ok hk).2
      · cases hcount
    · cases h

end Field

namespace Method

/-- What has to succeed before the table entry of a method is begun: its lists of annotations
match its parameters, its name and its descriptor are in the pool, its body is assembled. -/
def heading (m : Method) : Intern (UInt16 × UInt16 × Code) :=
  match m.listFault? with
  | some e => throw e
  | none => do
    let name ← Pool.utf8 m.name
    let descriptor ← Pool.utf8 m.type.descriptor
    let code ← m.body.assemble (1 + m.type.parameterSlots)
    pure (name, descriptor, code)

/-- Writes the attributes of the method. -/
def writeAttributes (m : Method) (code : Code) : Write Unit := do
  code.write
  if m.isAnnotated then
    let attributeName ← Write.intern (Pool.utf8 AnnotationEntry.parameterAttribute)
    Write.inAttribute attributeName (AnnotationEntry.writeParameters m.parameterAnnotations)

theorem write_eq (m : Method) :
    m.write = Write.entry m.heading
      (fun i => Bytes.ofUInt16 m.access ++ Bytes.ofUInt16 i.1 ++ Bytes.ofUInt16 i.2.1
        ++ Bytes.ofUInt16 m.attributeCount)
      fun i => m.writeAttributes i.2.2 := by
  unfold Write.entry heading write
  cases m.listFault? with
  | some e => rfl
  | none =>
    simp only [Write.intern_bind, bind_assoc]
    rfl

theorem heading_appends (m : Method) : Pool.Appends m.heading := by
  unfold heading
  cases m.listFault? with
  | some e => exact fun p => .refl p
  | none =>
    exact (Pool.utf8_appends m.name).followed fun _ =>
      (Pool.utf8_appends m.type.descriptor).followed fun _ =>
        (Body.assemble_appends m.body _).followed fun _ => Pool.pure_appends _

theorem writeAttributes_extends (m : Method) (code : Code) : Extends (m.writeAttributes code) :=
  code.write_extends.bind fun _ => Extends.ite
    ((Extends.intern (Pool.utf8_appends _)).bind fun _ =>
      Extends.inAttribute _ (AnnotationEntry.writeParameters_extends _))
    (Extends.pure ())

theorem after_write (m : Method) (s : Writer) :
    s.Extended (Write.after m.write s) ∧
      ((Write.after m.write s).out = s.out ↔ ¬ ∃ i q, m.heading s.pool = .ok i q) := by
  rw [write_eq]
  refine Write.after_entry m.heading_appends (fun i => ?_)
    (fun i => m.writeAttributes_extends i.2.2) s
  exact List.append_ne_nil_of_right_ne_nil _ (List.cons_ne_nil _ _)

theorem write_of_error {m : Method} {s : Writer} {e : Error} {q : Pool}
    (h : m.heading s.pool = .error e q) : m.write s = .error e ⟨q, s.out⟩ := by
  rw [write_eq]
  exact Write.entry_of_error h

end Method

/-! ## Members -/

/-- A field or a method that is to be added to a class. -/
inductive Member where
  | field (f : Field)
  | method (m : Method)

/-- What a call that failed may have done to a draft: nothing is counted, and constants and bytes
have only been added. -/
structure Draft.Litters (d d' : Draft) : Prop where
  header : d'.header = d.header
  bootstraps : d'.bootstraps = d.bootstraps
  fieldCount : d'.fields.count = d.fields.count
  methodCount : d'.methods.count = d.methods.count
  pool : d.pool.Grows d'.pool
  fields : d.fields.bytes.toBytes <+: d'.fields.bytes.toBytes
  methods : d.methods.bytes.toBytes <+: d'.methods.bytes.toBytes

namespace Member

/-- The call that adds the member. -/
def add : Member → Build Unit
  | field f => Draft.field f
  | method m => Draft.method m

/-- The step that adds the member. -/
def step : Member → Step
  | field f => .field f
  | method m => .method m

/-- The table entry of the member is begun after the constants in `p`. -/
def Begins (p : Pool) : Member → Prop
  | field f => ∃ i q, f.heading p = .ok i q
  | method m => ∃ i q, m.heading p = .ok i q

variable {d d' : Draft} {e : Error}

/-- A member that cannot be added changes the tables exactly if its entry was begun. -/
theorem litters_of_error {member : Member} (h : member.add d = .error e d') :
    d.Litters d' ∧ (d' = { d with pool := d'.pool } ↔ ¬ member.Begins d.pool) := by
  cases member with
  | field f =>
    obtain ⟨header, pool, ⟨count, bytes⟩, methods, bootstraps⟩ := d
    obtain ⟨hextended, hout⟩ := f.after_write ⟨pool, bytes⟩
    simp only [add, Draft.field] at h
    split at h
    · cases h
    · rename_i q out hwrite
      cases h
      rw [Write.after_of_error hwrite] at hextended hout
      refine ⟨⟨rfl, rfl, rfl, rfl, hextended.grows, hextended.bytes, List.prefix_rfl⟩, ?_⟩
      exact Iff.trans (by simp) hout
  | method m =>
    obtain ⟨header, pool, fields, ⟨count, bytes⟩, bootstraps⟩ := d
    obtain ⟨hextended, hout⟩ := m.after_write ⟨pool, bytes⟩
    simp only [add, Draft.method] at h
    split at h
    · cases h
    · rename_i q out hwrite
      cases h
      rw [Write.after_of_error hwrite] at hextended hout
      refine ⟨⟨rfl, rfl, rfl, rfl, hextended.grows, List.prefix_rfl, hextended.bytes⟩, ?_⟩
      exact Iff.trans (by simp) hout

/-- A member whose entry is not begun is not added. -/
theorem exists_error {member : Member} (h : ¬ member.Begins d.pool) :
    ∃ e d', member.add d = .error e d' := by
  cases member with
  | field f =>
    obtain ⟨header, pool, ⟨count, bytes⟩, methods, bootstraps⟩ := d
    cases hheading : f.heading pool with
    | ok i q => exact absurd ⟨i, q, hheading⟩ h
    | error e q =>
      have hwrite := Field.write_of_error (s := ⟨pool, bytes⟩) hheading
      simp only [add, Draft.field, hwrite]
      exact ⟨e, _, rfl⟩
  | method m =>
    obtain ⟨header, pool, fields, ⟨count, bytes⟩, bootstraps⟩ := d
    cases hheading : m.heading pool with
    | ok i q => exact absurd ⟨i, q, hheading⟩ h
    | error e q =>
      have hwrite := Method.write_of_error (s := ⟨pool, bytes⟩) hheading
      simp only [add, Draft.method, hwrite]
      exact ⟨e, _, rfl⟩

end Member

/-! ## Sequences of steps -/

namespace Step

/-- The step is a member that cannot be added. -/
def isRefused (d : Draft) : Step → Bool
  | field f => match Draft.field f d with
    | .ok _ _ => false
    | .error _ _ => true
  | method m => match Draft.method m d with
    | .ok _ _ => false
    | .error _ _ => true
  | _ => false

/-- The step succeeds, or it is a member whose table entry is not begun. -/
def Passes (d : Draft) (step : Step) : Prop :=
  step.Succeeds d ∨ ∃ member : Member, step = member.step ∧ ¬ member.Begins d.pool

theorem isRefused_of_succeeds {d : Draft} {step : Step} (h : step.Succeeds d) :
    step.isRefused d = false := by
  cases step with
  | field f =>
    obtain ⟨d', hd'⟩ := h
    simp only [isRefused, hd']
  | method m =>
    obtain ⟨d', hd'⟩ := h
    simp only [isRefused, hd']
  | _ => rfl

end Step

namespace Member

theorem apply_step (member : Member) (d : Draft) :
    member.step.apply d = Draft.after member.add d := by
  cases member <;> rfl

theorem isRefused_step (member : Member) (d : Draft) :
    member.step.isRefused d = match member.add d with
      | .ok _ _ => false
      | .error _ _ => true := by
  cases member <;> rfl

end Member

namespace Draft

/-- The steps of a sequence without the members that cannot be added. -/
def added : Draft → List Step → List Step
  | _, [] => []
  | d, step :: steps =>
    if step.isRefused d then added (step.apply d) steps else step :: added (step.apply d) steps

/-- No step of a sequence begins a table entry that it does not finish. -/
def Tolerates : Draft → List Step → Prop
  | _, [] => True
  | d, step :: steps => step.Passes d ∧ Tolerates (step.apply d) steps

theorem Accepts.tolerates {d : Draft} {steps : List Step} (h : d.Accepts steps) :
    d.Tolerates steps := by
  induction steps generalizing d with
  | nil => trivial
  | cons step steps ih => exact ⟨.inl h.1, ih h.2⟩

theorem Accepts.added_eq {d : Draft} {steps : List Step} (h : d.Accepts steps) :
    d.added steps = steps := by
  induction steps generalizing d with
  | nil => rfl
  | cons step steps ih =>
    have hstep : step.isRefused d = false := Step.isRefused_of_succeeds h.1
    rw [added, hstep, ih h.2]
    rfl

variable {d : Draft} {c : Contents} {codes : List Code}

/-- A member whose entry is not begun is passed over. -/
theorem apply_of_not_begins {member : Member} (h : ¬ member.Begins d.pool) :
    ∃ q, d.pool.Grows q ∧ member.step.apply d = { d with pool := q } ∧
      member.step.isRefused d = true := by
  obtain ⟨e, d', hd'⟩ := Member.exists_error h
  obtain ⟨hlitters, hsame⟩ := Member.litters_of_error hd'
  refine ⟨d'.pool, hlitters.pool, ?_, ?_⟩
  · rw [← hsame.2 h, Member.apply_step, after, hd']
  · rw [Member.isRefused_step, hd']

/-- The contents that steps put into a class are those of the members that were added. -/
theorem Keeps.takeAdded (h : d.Keeps c codes) {steps : List Step} (hsteps : d.Tolerates steps) :
    ∃ codes', (d.take steps).Keeps ((d.added steps).foldl Step.addTo c) codes' := by
  induction steps generalizing d c codes with
  | nil => exact ⟨codes, h⟩
  | cons step steps ih =>
    obtain ⟨hstep | ⟨member, rfl, hbegins⟩, hsteps⟩ := hsteps
    · have hkept : step.isRefused d = false := Step.isRefused_of_succeeds hstep
      rw [added, hkept]
      exact ih (h.apply hstep) hsteps
    · -- only the pool has grown, which no table that is in the draft can notice
      obtain ⟨q, hgrows, happly, hrefused⟩ := apply_of_not_begins hbegins
      rw [added, hrefused]
      have hkeeps : (member.step.apply d).Keeps c codes := by
        rw [happly]
        exact ⟨h.holds.mono hgrows, h.codes.mono hgrows.le⟩
      exact ih hkeeps hsteps

end Draft

namespace Lamp

/-- A method without parameters that has a list of annotations for one. -/
def mislisted : Method := { method with parameterAnnotations := [[]] }

theorem not_begins_mislisted (p : Pool) : ¬ (Member.method mislisted).Begins p := by
  rintro ⟨i, q, h⟩
  cases h

/-- A field with more annotations than can be counted. -/
def crowded : Field := { field with annotations := List.replicate 65536 ⟨"LKey;", []⟩ }

theorem begins_crowded {p : Pool} (h : p.size ≤ 4) : (Member.field crowded).Begins p := by
  refine Field.exists_heading (fun t ht => ?_) ?_
  · have hsizes : ∀ t ∈ [field.name, field.type.descriptor], t.utf8ByteSize ≤ 10922 := by
      decide +kernel
    exact fits_of_utf8ByteSize_le (hsizes t ht)
  · have hcapacity : Pool.capacity = 65534 := rfl
    omega

theorem exists_error_crowded (d : Draft) : ∃ e d', (Member.field crowded).add d = .error e d' := by
  cases h : (Member.field crowded).add d with
  | error e d' => exact ⟨e, d', rfl⟩
  | ok _ d' =>
    obtain ⟨header, pool, ⟨count, bytes⟩, methods, bootstraps⟩ := d
    simp only [Member.add, Draft.field] at h
    split at h
    · rename_i hwrite
      have hlength := Field.length_of_write hwrite
      have hcrowded : crowded.annotations.length = 65536 := List.length_replicate
      omega
    · cases h

end Lamp

namespace Draft

/-- A failed member counts nothing and changes the tables exactly if its entry was begun. After
steps that each succeed or begin no entry, the class is read with the members that were added. -/
theorem tables_after_failures {name superName : String} {access : UInt16} {d : Draft}
    (hnew : new name superName access = .ok d) (steps : List Step) :
    (∀ (member : Member) (e : Error) (d' : Draft), member.add (d.take steps) = .error e d' →
      (d.take steps).Litters d' ∧
        (d' = { d.take steps with pool := d'.pool } ↔ ¬ member.Begins (d.take steps).pool)) ∧
    (d.Tolerates steps → ∀ bytes, (d.take steps).build = .ok bytes →
      ∃ image, Image.parse bytes = .ok image ∧
        (Contents.after name superName access (d.added steps)).Describes image) := by
  refine ⟨fun member e d' h => Member.litters_of_error h, fun hsteps bytes hbuild => ?_⟩
  obtain ⟨codes, hkeeps⟩ := (keeps_new hnew).takeAdded hsteps
  obtain ⟨image, hparse, himage⟩ := hkeeps.exists_image hbuild
  exact ⟨image, hparse, himage.contents⟩

/-- A method that cannot be added, before a whole class. -/
theorem tables_after_failures_lamp : ∃ d e d' bytes image,
    new "Lamp" FieldType.objectName 33 = .ok d ∧
      method Lamp.mislisted d = .error e d' ∧ d' = { d with pool := d'.pool } ∧
      (d.take (.method Lamp.mislisted :: Lamp.steps)).build = .ok bytes ∧
      Image.parse bytes = .ok image ∧
      (Contents.after "Lamp" FieldType.objectName 33 Lamp.steps).Describes image := by
  obtain ⟨d, bytes, hnew, hsteps, hbuild⟩ := Lamp.exists_build
  have hbegins := Lamp.not_begins_mislisted d.pool
  obtain ⟨e, d', hd'⟩ := Member.exists_error hbegins
  obtain ⟨-, hsame⟩ := (tables_after_failures hnew []).1 _ e d' hd'
  have happly : (Step.method Lamp.mislisted).apply d = d := by
    obtain ⟨header, pool, fields, ⟨count, bytes⟩, bootstraps⟩ := d
    rfl
  have hrefused : (Step.method Lamp.mislisted).isRefused d = true := by
    obtain ⟨-, -, -, h⟩ := apply_of_not_begins hbegins
    exact h
  have hadded : d.added (.method Lamp.mislisted :: Lamp.steps) = Lamp.steps := by
    rw [added, hrefused, happly, hsteps.added_eq]
    rfl
  have htolerates : d.Tolerates (.method Lamp.mislisted :: Lamp.steps) := by
    refine ⟨.inr ⟨.method Lamp.mislisted, rfl, hbegins⟩, ?_⟩
    rw [happly]
    exact hsteps.tolerates
  have htake : (d.take (.method Lamp.mislisted :: Lamp.steps)).build = .ok bytes := by
    rw [take, List.foldl_cons, happly]
    exact hbuild
  obtain ⟨image, hparse, himage⟩ := (tables_after_failures hnew _).2 htolerates bytes htake
  exact ⟨d, e, d', bytes, image, hnew, hd', hsame.2 hbegins, htake, hparse, hadded ▸ himage⟩

/-- A field whose annotations cannot be counted leaves bytes in its table. -/
theorem field_leaves_bytes : ∃ d e d',
    new "Lamp" FieldType.objectName 33 = .ok d ∧ field Lamp.crowded d = .error e d' ∧
      ¬ (d'.fields = d.fields ∧ d'.methods = d.methods) := by
  obtain ⟨d, hnew, hsize⟩ := Lamp.exists_new
  obtain ⟨e, d', hd'⟩ := Lamp.exists_error_crowded d
  obtain ⟨hlitters, hsame⟩ := Member.litters_of_error hd'
  refine ⟨d, e, d', hnew, hd', fun ⟨hfields, hmethods⟩ => ?_⟩
  refine hsame.1 ?_ (Lamp.begins_crowded hsize)
  obtain ⟨header, pool, fields, methods, bootstraps⟩ := d
  obtain ⟨header', pool', fields', methods', bootstraps'⟩ := d'
  obtain rfl : header' = header := hlitters.header
  obtain rfl : bootstraps' = bootstraps := hlitters.bootstraps
  obtain rfl : fields' = fields := hfields
  obtain rfl : methods' = methods := hmethods
  rfl

end Draft

end SchemaRecords.ClassFile
