import SchemaRecords.Proofs.ClassFile.DraftDemand
import SchemaRecords.Proofs.ClassFile.Passage
import SchemaRecords.Proofs.ClassFile.Requests

/-!
# Any sequence of construction steps

A class is made by calls that set its version, add members and bootstrap methods
and ask the pool for constants, in any order. `Draft.take` follows such a
sequence; a request that the pool refuses is passed over, with what it left in
the pool. `Contents.after` is what the author has then put into the class, and
`Draft.codes` lists the finished code of its methods.

`parse_take` is the main result: if all members and bootstrap methods could be
added, the bytes of the class are parsed to an image with exactly these
contents. One step keeps the draft and the contents in agreement
(`Keeps.apply`), hence so does a whole sequence (`Keeps.take`).
-/

namespace SchemaRecords.ClassFile

/-! ## Steps -/

namespace Pool

/-- A text that is asked for is put after all entries unless it is one of them. -/
theorem entries_of_utf8 {p q : Pool} {text : String} {i : UInt16} (hp : p.Valid)
    (h : utf8 text p = .ok i q) :
    q.entries = if .utf8 text ∈ p.entries then p.entries else p.entries.push (.utf8 text) := by
  have hinsert : insert (.utf8 text) p = .ok i q := by
    unfold utf8 at h
    simp only at h
    split at h
    · cases h
    · exact h
  unfold insert at hinsert
  split at hinsert
  · rename_i hindex
    cases hinsert
    obtain ⟨n, hn, -⟩ := (hp.index_iff _ _).1 hindex
    rw [if_pos (Array.mem_of_getElem? hn)]
  · rename_i hindex
    have hnew : .utf8 text ∉ p.entries := by
      intro hmem
      obtain ⟨n, hn⟩ := Array.getElem?_of_mem hmem
      have hlt := (Array.getElem?_eq_some_iff.1 hn).1
      have hsize : p.entries.size ≤ 65534 := hp.size_le
      have hposition : (n + 1).toUInt16.toNat = n + 1 := by
        simp
        omega
      have := (hp.index_iff _ _).2 ⟨n, hn, hposition⟩
      rw [hindex] at this
      cases this
    split at hinsert
    · cases hinsert
    · cases hinsert
      rw [if_neg hnew]

end Pool

/-- A call in the construction of a class. -/
inductive Step where
  | version (major minor : UInt16)
  | field (f : Field)
  | method (m : Method)
  | bootstrap (handle : UInt16) (arguments : List UInt16)
  | invokeDynamic (handle : UInt16) (arguments : List UInt16) (name : String) (type : MethodType)
  | constant (request : Pool.Request)

/-- The draft that a call leaves, whether it succeeds or fails. -/
def Draft.after {α : Type} (call : Build α) (d : Draft) : Draft :=
  match call d with
  | .ok _ d' => d'
  | .error _ d' => d'

namespace Step

/-- The draft after a step. -/
def apply (d : Draft) : Step → Draft
  | version major minor => d.withVersion major minor
  | field f => Draft.after (Draft.field f) d
  | method m => Draft.after (Draft.method m) d
  | bootstrap handle arguments => Draft.after (Draft.bootstrap handle arguments) d
  | invokeDynamic handle arguments name type =>
    Draft.after (Draft.invokeDynamic handle arguments name type) d
  | constant request => Draft.after (Draft.intern request.ask) d

/-- A member or bootstrap method is added without an error. Requests to the pool may fail. -/
def Succeeds (d : Draft) : Step → Prop
  | version _ _ => True
  | field f => ∃ d', Draft.field f d = .ok () d'
  | method m => ∃ d', Draft.method m d = .ok () d'
  | bootstrap handle arguments => ∃ i d', Draft.bootstrap handle arguments d = .ok i d'
  | invokeDynamic handle arguments _ _ => ∃ i d', Draft.bootstrap handle arguments d = .ok i d'
  | constant _ => True

/-- The finished code of a method that is added. -/
def code? (d : Draft) : Step → Option Code
  | method m => m.code? d.pool
  | _ => none

/-- What the step puts into the class. -/
def addTo (c : Contents) : Step → Contents
  | version major minor => { c with major, minor }
  | field f => c.addField f
  | method m => c.addMethod m
  | bootstrap handle arguments => c.withBootstrap ⟨handle, arguments⟩
  | invokeDynamic handle arguments _ _ => c.withBootstrap ⟨handle, arguments⟩
  | constant _ => c

end Step

namespace Draft

/-- The draft after a sequence of steps. -/
def take (d : Draft) (steps : List Step) : Draft := steps.foldl Step.apply d

/-- All members and bootstrap methods of a sequence of steps can be added. -/
def Accepts : Draft → List Step → Prop
  | _, [] => True
  | d, step :: steps => step.Succeeds d ∧ Accepts (step.apply d) steps

/-- The finished code of the methods that a sequence of steps adds, in order. -/
def codes : Draft → List Step → List Code
  | _, [] => []
  | d, step :: steps => (step.code? d).toList ++ codes (step.apply d) steps

/-- The constants in the bytes of a draft: those of its pool and, if there are bootstrap methods,
the name of their attribute. -/
def constants (d : Draft) : Array Constant :=
  if d.bootstraps.isEmpty ∨ .utf8 Bootstrap.attributeName ∈ d.pool.entries then d.pool.entries
  else d.pool.entries.push (.utf8 Bootstrap.attributeName)

end Draft

/-- What a sequence of steps puts into a class that has just been begun. -/
def Contents.after (name superName : String) (access : UInt16) (steps : List Step) : Contents :=
  steps.foldl Step.addTo ⟨defaultMajor, 0, access, name, superName, [], [], []⟩

/-! ## What one step keeps -/

/-- The draft is one of a class with the contents `c`, whose methods have the code `codes`. -/
structure Draft.Keeps (d : Draft) (c : Contents) (codes : List Code) : Prop where
  holds : d.Holds c
  codes : d.methods.Holds Code.IsOf d.pool codes

namespace Draft

variable {d d' : Draft} {c : Contents} {codes : List Code}

theorem after_of_ok {α : Type} {call : Build α} {a : α} (h : call d = .ok a d') :
    after call d = d' := by
  rw [after, h]

/-- A call after one that succeeds. -/
theorem after_bind {α β : Type} {call : Build α} {f : α → Build β} {a : α}
    (h : call d = .ok a d') : after (call >>= f) d = after (f a) d' := by
  show (match EStateM.bind call f d with | .ok _ q => q | .error _ q => q) = _
  unfold EStateM.bind
  rw [h]
  rfl

theorem after_intern {α : Type} (r : Intern α) (d : Draft) :
    after (intern r) d = { d with pool := Pool.after r d.pool } := by
  obtain ⟨header, pool, fields, methods, bootstraps⟩ := d
  unfold after intern Pool.after
  simp only
  cases r pool <;> rfl

theorem methods_of_field {f : Field} (h : field f d = .ok () d') : d'.methods = d.methods := by
  obtain ⟨header, pool, ⟨count, bytes⟩, methods, bootstraps⟩ := d
  unfold field at h
  simp only at h
  split at h <;> cases h
  rfl

theorem methods_of_bootstrap {handle i : UInt16} {arguments : List UInt16}
    (h : bootstrap handle arguments d = .ok i d') : d'.methods = d.methods := by
  rw [(bootstrap_eq_ok h).2]

/-- A method is added together with its finished code. -/
theorem Keeps.method (h : d.Keeps c codes) {m : Method} (hm : Draft.method m d = .ok () d') :
    d'.Keeps (c.addMethod m) (codes ++ (m.code? d.pool).toList) := by
  obtain ⟨_, hd', hgrows, hQ⟩ := Builds.method m d d' () h.holds hm
  obtain rfl := hQ _ le_rfl
  refine ⟨hd', ?_⟩
  obtain ⟨header, pool, fields, ⟨count, bytes⟩, bootstraps⟩ := d
  unfold Draft.method at hm
  simp only at hm
  split at hm
  · rename_i q out hwrite
    cases hm
    obtain ⟨code, bs, hcode, hwrote, hbs⟩ := Method.wrote_of_write h.holds.valid hwrite
    have hbytes : out.toBytes = bytes.toBytes ++ bs := hwrote.bytes
    have hcount : count = codes.length := h.codes.count
    rw [hcode]
    refine ⟨by simp [hcount], fun t ht => ?_⟩
    obtain ⟨infos, hinfos, hcodes⟩ := h.codes.entries t (le_trans hgrows.le ht)
    obtain ⟨info, hinfo, -, hattributes⟩ := hbs t ht
    refine ⟨infos ++ [info], hbytes ▸ hinfos.append (.single hinfo), ?_⟩
    exact List.rel_append hcodes (.cons (Method.isOf_of_attributes hattributes) .nil)
  · cases hm

/-- A larger pool changes nothing. -/
theorem Keeps.intern (h : d.Keeps c codes) {α : Type} {r : Intern α} (hr : Pool.Appends r) :
    (after (Draft.intern r) d).Keeps c codes := by
  rw [after_intern]
  exact ⟨h.holds.mono (hr d.pool), h.codes.mono (hr d.pool).le⟩

theorem Keeps.bootstrap (h : d.Keeps c codes) {handle i : UInt16} {arguments : List UInt16}
    (hb : Draft.bootstrap handle arguments d = .ok i d') :
    d'.Keeps (c.withBootstrap ⟨handle, arguments⟩) codes := by
  obtain ⟨_, hd', hgrows, hQ⟩ := Builds.bootstrap handle arguments d d' i h.holds hb
  obtain ⟨rfl, -⟩ := hQ _ le_rfl
  refine ⟨hd', ?_⟩
  rw [methods_of_bootstrap hb]
  exact h.codes.mono hgrows.le

/-- A step that succeeds puts into the draft what it puts into the class. -/
theorem Keeps.apply (h : d.Keeps c codes) {step : Step} (hstep : step.Succeeds d) :
    (step.apply d).Keeps (step.addTo c) (codes ++ (step.code? d).toList) := by
  cases step with
  | version major minor =>
    show (d.withVersion major minor).Keeps _ (codes ++ [])
    rw [List.append_nil]
    exact ⟨{ h.holds with major := rfl, minor := rfl }, h.codes⟩
  | field f =>
    obtain ⟨d', hf⟩ := hstep
    obtain ⟨_, hd', hgrows, hQ⟩ := Builds.field f d d' () h.holds hf
    obtain rfl := hQ _ le_rfl
    show (after (Draft.field f) d).Keeps _ (codes ++ [])
    rw [after_of_ok hf, List.append_nil]
    refine ⟨hd', ?_⟩
    rw [methods_of_field hf]
    exact h.codes.mono hgrows.le
  | method m =>
    obtain ⟨d', hm⟩ := hstep
    show (after (Draft.method m) d).Keeps _ _
    rw [after_of_ok hm]
    exact h.method hm
  | bootstrap handle arguments =>
    obtain ⟨i, d', hb⟩ := hstep
    show (after (Draft.bootstrap handle arguments) d).Keeps _ (codes ++ [])
    rw [after_of_ok hb, List.append_nil]
    exact h.bootstrap hb
  | invokeDynamic handle arguments name type =>
    obtain ⟨i, d', hb⟩ := hstep
    show (after (Draft.invokeDynamic handle arguments name type) d).Keeps _ (codes ++ [])
    rw [Draft.invokeDynamic, after_bind hb, List.append_nil]
    exact (h.bootstrap hb).intern (Pool.invokeDynamic_appends i name type.descriptor)
  | constant request =>
    show (after (Draft.intern request.ask) d).Keeps _ (codes ++ [])
    rw [List.append_nil]
    exact h.intern request.ask_appends

/-! ## What a sequence of steps keeps -/

theorem Keeps.take (h : d.Keeps c codes) {steps : List Step} (hsteps : d.Accepts steps) :
    (d.take steps).Keeps (steps.foldl Step.addTo c) (codes ++ d.codes steps) := by
  induction steps generalizing d c codes with
  | nil =>
    rw [Draft.codes, List.append_nil]
    exact h
  | cons step steps ih =>
    obtain ⟨hstep, hsteps⟩ := hsteps
    rw [Draft.codes, ← List.append_assoc]
    exact ih (h.apply hstep) hsteps

theorem keeps_new {name superName : String} {access : UInt16}
    (h : new name superName access = .ok d) :
    d.Keeps ⟨defaultMajor, 0, access, name, superName, [], [], []⟩ [] := by
  have hd := holds_new h
  refine ⟨hd, hd.methods.count, fun t ht => ?_⟩
  obtain ⟨infos, hinfos, hnone⟩ := hd.methods.entries t ht
  cases hnone
  exact ⟨[], hinfos, .nil⟩

/-- The constants in the bytes are those of the pool with the name of the attribute. -/
theorem entries_of_attributeName (hd : d.pool.Valid) {name : Option UInt16} {pool : Pool}
    (h : d.attributeName = .ok (name, pool)) : pool.entries = d.constants := by
  unfold attributeName at h
  unfold constants
  split at h
  · rename_i hempty
    cases h
    rw [if_pos (.inl hempty)]
  · rename_i hsome
    split at h
    · rename_i i q hq
      cases h
      rw [Pool.entries_of_utf8 hd hq]
      simp only [hsome, Bool.false_eq_true, false_or]
    · cases h

end Draft

/-! ## Bootstrap methods -/

/-- The constant can be a fixed argument of a bootstrap method. -/
def Constant.IsArgument : Constant → Prop
  | string _ => True
  | integer _ => True
  | classRef _ => True
  | _ => False

/-- The handle of the bootstrap method is a method handle, and its arguments are strings, numbers
and classes. -/
structure Bootstrap.IsLinkable (t : ConstantTable) (b : Bootstrap) : Prop where
  handle : ∃ kind reference, t.get b.handle = .ok (.methodHandle kind reference)
  arguments : ∀ i ∈ b.arguments, ∃ c : Constant, t.get i = .ok c ∧ c.IsArgument

namespace Pool

variable {p : Pool}

theorem Valid.exists_methodHandle (hp : p.Valid) {i reference : UInt16} {kind : HandleKind}
    (h : p.table.get i = .ok (.methodHandle kind reference)) :
    ∃ member, p.table.methodHandle i = .ok (kind, member) := by
  obtain ⟨owner, nat, member, hmember, hget⟩ := hp.groundedIn h
  refine ⟨member, ?_⟩
  have href : p.table.memberRef reference = .ok member := by
    rw [ConstantTable.memberRef, hget]
    split <;> exact hmember
  rw [ConstantTable.methodHandle, h]
  simp only [Bind.bind, Except.bind]
  rw [href]

theorem Valid.exists_bootstrapArgument (hp : p.Valid) {i : UInt16} {c : Constant}
    (h : p.table.get i = .ok c) (hc : c.IsArgument) :
    ∃ a, p.table.bootstrapArgument i = .ok a := by
  have hground := hp.groundedIn h
  rw [ConstantTable.bootstrapArgument, h]
  cases c with
  | string text =>
    obtain ⟨literal, hliteral⟩ := hground
    simp only [Bind.bind, Except.bind, hliteral]
    exact ⟨_, rfl⟩
  | integer value => exact ⟨_, rfl⟩
  | classRef name =>
    obtain ⟨text, htext⟩ := hground
    simp only [Bind.bind, Except.bind, htext]
    exact ⟨_, rfl⟩
  | _ => exact hc.elim

end Pool

/-- Every element of the list is related to something. -/
theorem exists_forall₂ {α β : Type} {R : α → β → Prop} {as : List α}
    (h : ∀ a ∈ as, ∃ b, R a b) : ∃ bs, List.Forall₂ R as bs := by
  induction as with
  | nil => exact ⟨[], .nil⟩
  | cons a as ih =>
    obtain ⟨b, hb⟩ := h a (by simp)
    obtain ⟨bs, hbs⟩ := ih fun a ha => h a (by simp [ha])
    exact ⟨b :: bs, .cons hb hbs⟩

theorem Bootstrap.IsLinkable.exists_info {p : Pool} (hp : p.Valid) {b : Bootstrap}
    (h : b.IsLinkable p.table) : ∃ info, b.Describes p.table info := by
  obtain ⟨kind, reference, hhandle⟩ := h.handle
  obtain ⟨member, hmember⟩ := hp.exists_methodHandle hhandle
  obtain ⟨arguments, harguments⟩ := exists_forall₂ fun i hi => by
    obtain ⟨c, hget, hc⟩ := h.arguments i hi
    exact hp.exists_bootstrapArgument hget hc
  exact ⟨⟨kind, member, arguments⟩, hmember, harguments⟩

/-! ## Reading a class again -/

/-- Everything that was put into the draft is found in the image. -/
structure Draft.IsReadAs (d : Draft) (c : Contents) (codes : List Code) (image : Image) : Prop where
  contents : c.Describes image
  codes : List.Forall₂ (Code.IsOf image.constants) codes image.methods
  constants : image.constants.entries = d.constants
  bootstraps : (∀ b ∈ c.bootstraps, b.IsLinkable image.constants) →
    ∃ infos, image.bootstraps = .ok infos ∧
      List.Forall₂ (Bootstrap.Describes image.constants) c.bootstraps infos

theorem Draft.Keeps.exists_image {d : Draft} {c : Contents} {codes : List Code} {bytes : Bytes}
    (h : d.Keeps c codes) (hbuild : d.build = .ok bytes) :
    ∃ image, Image.parse bytes = .ok image ∧ d.IsReadAs c codes image := by
  obtain ⟨image, name, pool, hparse, hname, hconstants, hstored, hc⟩ :=
    exists_image_of_build h.holds hbuild
  have hgrows := (Draft.attributeName_spec h.holds.valid hname).1
  refine ⟨image, hparse, hc, ?_, ?_, ?_⟩
  · obtain ⟨infos, hinfos, hcodes⟩ := h.codes.entries _ (hconstants ▸ hgrows.le)
    have hlength : infos.length = image.methods.length := by
      rw [← hcodes.length_eq, ← h.codes.count, h.holds.methods.count, hc.methods.length_eq]
    rwa [hinfos.unique hstored.methods hlength] at hcodes
  · rw [hconstants]
    exact Draft.entries_of_attributeName h.holds.valid hname
  · intro hlinkable
    rw [hconstants] at hlinkable ⊢
    obtain ⟨infos, hinfos⟩ := exists_forall₂ fun b hb =>
      (hlinkable b hb).exists_info (hgrows.valid h.holds.valid)
    exact ⟨infos, hc.bootstraps infos (hconstants ▸ hinfos), hinfos⟩

namespace Lamp

/-- An annotated field. -/
def field : Field := ⟨accPrivate, "lit", .boolean, [⟨"Lorg/example/Key;", [("value", "lit")]⟩]⟩

/-- A branch over a frame. -/
def operations : List Operation := [
  .loadReference 0, .getField "Lamp" "lit" .boolean, .branch .nonzero 0,
  .const 1, .returnValue .boolean,
  .bind 0 ⟨[.object "Lamp"], []⟩, .const 0, .returnValue .boolean]

def method : Method := ⟨accPublic, "isDark", .returning .boolean, [], { operations }⟩

/-- The construction of a class with a field, a method and a bootstrap method. -/
def steps : List Step := [.version 65 3, .bootstrap 7 [3], .field field, .method method]

theorem method_isWritable : method.IsWritable := by
  have hpassage : Passage 0 0 [0] 8 16 operations :=
    .of_check (by cbv) (by simp [operations, branchTargets, Operation.loadReference]) fun _ => rfl
  exact hpassage.isWritable (by simp [operations, boundLabels, Operation.loadReference])
    (by decide) _ _ _

/-- The texts of the class. -/
def texts : List String :=
  ["Lamp", FieldType.objectName] ++ (field.texts ++ (method.texts ++ [Bootstrap.attributeName]))

theorem fits_texts : ∀ t ∈ texts, Fits t := by
  have hsizes : ∀ t ∈ texts, t.utf8ByteSize ≤ 10922 := by decide +kernel
  exact fun t ht => fits_of_utf8ByteSize_le (hsizes t ht)

theorem exists_new : ∃ d, Draft.new "Lamp" FieldType.objectName 33 = .ok d ∧ d.pool.size ≤ 4 := by
  obtain ⟨d, hnew, hsize, -⟩ | ⟨e, -, hrefused⟩ := Draft.new_cases "Lamp" FieldType.objectName 33
  · exact ⟨d, hnew, hsize⟩
  · cases hrefused with
    | text ht hlong => exact absurd (fits_texts _ (List.mem_append_left _ ht)) hlong
    | room hfull => exact absurd hfull (by decide)

theorem exists_build : ∃ d bytes, Draft.new "Lamp" FieldType.objectName 33 = .ok d ∧
    d.Accepts steps ∧ (d.take steps).build = .ok bytes := by
  have hfits := fits_texts
  rw [texts, List.forall_mem_append, List.forall_mem_append, List.forall_mem_append] at hfits
  obtain ⟨-, hfield, hmethod, hattribute⟩ := hfits
  have hcapacity : Pool.capacity = 65534 := rfl
  have hentries : method.entries = 21 := by cbv
  have hfew : AnnotationEntry.AreFew field.annotations := ⟨Nat.le_refl 1, by simp [field]⟩
  -- every step finds room in the pool
  obtain ⟨d, hnew, hsize⟩ := exists_new
  have hd := Draft.keeps_new hnew
  have hnone : (d.withVersion 65 3).bootstraps.size < 65536 := by
    rw [← Array.length_toList, Draft.withVersion, hd.holds.bootstraps]
    decide
  obtain ⟨i, d₁, h₁, hd₁⟩ := (Draft.bootstrap_asks hnone 7 [3]).succeeds (by simp)
    (by show d.pool.size + 0 ≤ _; omega)
  have hsize₁ : d₁.pool.size ≤ d.pool.size + 0 := hd₁.entries
  obtain ⟨_, d₂, h₂, hd₂⟩ := (Draft.field_asks hfew d₁).succeeds hfield
    (by show d₁.pool.size + 6 ≤ _; omega)
  have hsize₂ : d₂.pool.size ≤ d₁.pool.size + 6 := hd₂.entries
  obtain ⟨_, d₃, h₃, hd₃⟩ := (Draft.method_asks method_isWritable d₂).succeeds hmethod
    (by show d₂.pool.size + _ ≤ _; omega)
  have hsize₃ : d₃.pool.size ≤ d₂.pool.size + method.entries := hd₃.entries
  have happly₁ : (Step.bootstrap 7 [3]).apply (d.withVersion 65 3) = d₁ := Draft.after_of_ok h₁
  have happly₂ : (Step.field field).apply d₁ = d₂ := Draft.after_of_ok h₂
  have happly₃ : (Step.method method).apply d₂ = d₃ := Draft.after_of_ok h₃
  have hsteps : d.Accepts steps := by
    refine ⟨trivial, ⟨i, d₁, h₁⟩, ?_⟩
    show Draft.Accepts ((Step.bootstrap 7 [3]).apply (d.withVersion 65 3)) _
    rw [happly₁]
    refine ⟨⟨d₂, h₂⟩, ?_⟩
    rw [happly₂]
    exact ⟨⟨d₃, h₃⟩, trivial⟩
  have htake : d.take steps = d₃ := by
    show (Step.method method).apply ((Step.field field).apply
      ((Step.bootstrap 7 [3]).apply (d.withVersion 65 3))) = d₃
    rw [happly₁, happly₂, happly₃]
  -- the draft that is left has few members
  have hkeeps := htake ▸ hd.take hsteps
  have hbootstraps : d₃.bootstraps.toList = [⟨7, [3]⟩] := hkeeps.holds.bootstraps
  have hfields : d₃.fields.count = 1 := hkeeps.holds.fields.count
  have hmethods : d₃.methods.count = 1 := hkeeps.holds.methods.count
  have htexts : d₃.buildTexts = [Bootstrap.attributeName] := by
    rw [Draft.buildTexts, ← Array.isEmpty_toList, hbootstraps]
    rfl
  obtain ⟨bytes, hbytes, -⟩ | ⟨e, -, hrefused⟩ := Draft.build_cases hkeeps.holds.valid
    (by omega) (by omega) (by simp [hbootstraps]) (by simp [hbootstraps])
  · exact ⟨d, bytes, hnew, hsteps, htake ▸ hbytes⟩
  · rw [htexts] at hrefused
    cases hrefused with
    | text ht hlong => exact absurd (hattribute _ ht) hlong
    | room hfull => omega

end Lamp

/-- What was put into a class by any sequence of steps is read from its bytes. -/
theorem parse_take {name superName : String} {access : UInt16} {d : Draft} {steps : List Step}
    {bytes : Bytes} (hnew : Draft.new name superName access = .ok d) (hsteps : d.Accepts steps)
    (hbuild : (d.take steps).build = .ok bytes) :
    ∃ image, Image.parse bytes = .ok image ∧
      (d.take steps).IsReadAs (.after name superName access steps) (d.codes steps) image :=
  ((Draft.keeps_new hnew).take hsteps).exists_image hbuild

theorem parse_take_lamp : ∃ d bytes image,
    Draft.new "Lamp" FieldType.objectName 33 = .ok d ∧ d.Accepts Lamp.steps ∧
      (d.take Lamp.steps).build = .ok bytes ∧ Image.parse bytes = .ok image ∧
      (d.take Lamp.steps).IsReadAs (.after "Lamp" FieldType.objectName 33 Lamp.steps)
        (d.codes Lamp.steps) image := by
  obtain ⟨d, bytes, hnew, hsteps, hbuild⟩ := Lamp.exists_build
  obtain ⟨image, hparse, himage⟩ := parse_take hnew hsteps hbuild
  exact ⟨d, bytes, image, hnew, hsteps, hbuild, hparse, himage⟩

end SchemaRecords.ClassFile
