import SchemaRecords.Proofs.ClassFile.Remnants

/-!
# The table of bootstrap methods

Bootstrap methods are numbered in the order in which they are first asked for,
and call sites refer to them by number. `Draft.Registers` follows calls that ask
for bootstrap methods and call sites, with other steps between them, and keeps
what they answered.

When a bootstrap method is added, its number must fit into 16 bits; when the
class is built, the number of bootstrap methods must. So a table can be filled
with 65536 entries, one more than a class file holds: the last number to be given
is 65535, and a class whose table has an entry of that number is never built.

* `Registration.call_spec`: what one call does to the table.
* `Registers.numbered`: after any sequence of calls, every number that was given
  is the first place of its bootstrap method in the table.
* `Registers.size_le_iff`: the table has outgrown a class file exactly if it had
  before or the number 65535 was given.
* `Draft.registered_then_built`: these for a class that was begun and worked on in
  any way. `Draft.crowded_table` is a table that was filled to its end.
-/

namespace SchemaRecords.ClassFile

/-! ## What steps do to the pool and the table -/

namespace Draft

theorem after_field (f : Field) (d : Draft) :
    (after (field f) d).pool = (Write.after f.write ⟨d.pool, d.fields.bytes⟩).pool ∧
      (after (field f) d).bootstraps = d.bootstraps := by
  obtain ⟨header, pool, ⟨count, bytes⟩, methods, bootstraps⟩ := d
  unfold after field Write.after
  simp only
  cases f.write ⟨pool, bytes⟩ <;> exact ⟨rfl, rfl⟩

theorem after_method (m : Method) (d : Draft) :
    (after (method m) d).pool = (Write.after m.write ⟨d.pool, d.methods.bytes⟩).pool ∧
      (after (method m) d).bootstraps = d.bootstraps := by
  obtain ⟨header, pool, fields, ⟨count, bytes⟩, bootstraps⟩ := d
  unfold after method Write.after
  simp only
  cases m.write ⟨pool, bytes⟩ <;> exact ⟨rfl, rfl⟩

theorem pool_after_bootstrap (handle : UInt16) (arguments : List UInt16) (d : Draft) :
    (after (bootstrap handle arguments) d).pool = d.pool := by
  obtain ⟨header, pool, fields, methods, bootstraps⟩ := d
  unfold after bootstrap
  simp only
  split
  · rename_i heq
    split at heq <;> cases heq
    rfl
  · rename_i heq
    split at heq <;> cases heq
    rfl

theorem grows_after_invokeDynamic (handle : UInt16) (arguments : List UInt16) (name : String)
    (type : MethodType) (d : Draft) :
    d.pool.Grows (after (invokeDynamic handle arguments name type) d).pool := by
  have hpool := pool_after_bootstrap handle arguments d
  cases hcall : bootstrap handle arguments d with
  | ok number d₁ =>
    rw [after_of_ok hcall] at hpool
    rw [invokeDynamic, after_bind hcall, after_intern, ← hpool]
    exact Pool.invokeDynamic_appends number name type.descriptor d₁.pool
  | error e d₁ =>
    have hfailed : invokeDynamic handle arguments name type d = .error e d₁ :=
      bind_eq_error.2 (.inl hcall)
    rw [after, hcall] at hpool
    rw [after, hfailed, hpool]
    exact .refl _

end Draft

namespace Step

/-- The step asks for a bootstrap method. -/
def isRegistration : Step → Bool
  | bootstrap _ _ => true
  | invokeDynamic _ _ _ _ => true
  | _ => false

/-- Whether or not it succeeds, a step only adds to the pool. -/
theorem grows (step : Step) (d : Draft) : d.pool.Grows (step.apply d).pool := by
  cases step with
  | version major minor => exact .refl _
  | field f =>
    show d.pool.Grows (Draft.after (Draft.field f) d).pool
    rw [(Draft.after_field f d).1]
    exact (f.after_write ⟨d.pool, d.fields.bytes⟩).1.grows
  | method m =>
    show d.pool.Grows (Draft.after (Draft.method m) d).pool
    rw [(Draft.after_method m d).1]
    exact (m.after_write ⟨d.pool, d.methods.bytes⟩).1.grows
  | bootstrap handle arguments =>
    show d.pool.Grows (Draft.after (Draft.bootstrap handle arguments) d).pool
    rw [Draft.pool_after_bootstrap]
    exact .refl _
  | invokeDynamic handle arguments name type =>
    exact Draft.grows_after_invokeDynamic handle arguments name type d
  | constant request =>
    show d.pool.Grows (Draft.after (Draft.intern request.ask) d).pool
    rw [Draft.after_intern]
    exact request.ask_appends d.pool

theorem bootstraps_apply {step : Step} (h : step.isRegistration = false) (d : Draft) :
    (step.apply d).bootstraps = d.bootstraps := by
  cases step with
  | version major minor => rfl
  | field f => exact (Draft.after_field f d).2
  | method m => exact (Draft.after_method m d).2
  | bootstrap handle arguments => cases h
  | invokeDynamic handle arguments name type => cases h
  | constant request =>
    show (Draft.after (Draft.intern request.ask) d).bootstraps = d.bootstraps
    rw [Draft.after_intern]

end Step

theorem Draft.grows_take (d : Draft) (steps : List Step) : d.pool.Grows (d.take steps).pool := by
  induction steps generalizing d with
  | nil => exact .refl _
  | cons step steps ih => exact (step.grows d).trans (ih _)

/-! ## Calls that register bootstrap methods -/

/-- A call for a bootstrap method, or for a call site that it links. -/
inductive Registration where
  | method (entry : Bootstrap)
  | site (entry : Bootstrap) (name : String) (type : MethodType)

namespace Registration

/-- The bootstrap method that the call is about. -/
def entry : Registration → Bootstrap
  | method entry => entry
  | site entry _ _ => entry

def call : Registration → Build UInt16
  | method entry => Draft.bootstrap entry.handle entry.arguments
  | site entry name type => Draft.invokeDynamic entry.handle entry.arguments name type

/-- The number that an answer to the call gives to the bootstrap method: the answer itself, or the
number in the call site that the answer is the index of. -/
def number? (t : ConstantTable) (answer : UInt16) : Registration → Option UInt16
  | method _ => some answer
  | site _ _ _ => (t.invokeDynamic answer).toOption.map Prod.fst

variable {d d' : Draft} {r : Registration} {answer : UInt16}

/-- A call that succeeds gives the place of the bootstrap method, which is added if it is new. -/
theorem call_spec (hvalid : d.pool.Valid) (h : r.call d = .ok answer d') :
    ∃ number, (∀ t, d'.pool.table ≤ t → r.number? t answer = some number) ∧
      number.toNat = d.bootstraps.toList.idxOf r.entry ∧ d.pool.Grows d'.pool ∧
      d'.bootstraps
        = if r.entry ∈ d.bootstraps.toList then d.bootstraps else d.bootstraps.push r.entry := by
  cases r with
  | method entry =>
    obtain ⟨hnumber, rfl⟩ := Draft.bootstrap_eq_ok h
    exact ⟨answer, fun _ _ => rfl, hnumber, .refl _, rfl⟩
  | site entry name type =>
    obtain ⟨number, d₁, hcall, hsite⟩ := bind_eq_ok.1 h
    obtain ⟨hnumber, rfl⟩ := Draft.bootstrap_eq_ok hcall
    unfold Draft.intern at hsite
    simp only at hsite
    split at hsite
    · rename_i q hq
      cases hsite
      obtain ⟨hgrows, hresolves⟩ :=
        resolves_invokeDynamic number name type.descriptor _ _ _ hvalid hq
      refine ⟨number, fun t ht => ?_, hnumber, hgrows, rfl⟩
      rw [number?, hresolves t ht]
      rfl
    · cases hsite

end Registration

/-- From `d` to `d'` the calls in `log` were made and gave their answers, with steps between them
that do not ask for bootstrap methods. -/
inductive Draft.Registers : Draft → List (Registration × UInt16) → Draft → Prop
  | done {d : Draft} : Registers d [] d
  | call {d d₁ d' : Draft} {r : Registration} {answer : UInt16}
      {log : List (Registration × UInt16)} (h : r.call d = .ok answer d₁)
      (hlog : Registers d₁ log d') : Registers d ((r, answer) :: log) d'
  | other {d d' : Draft} {step : Step} {log : List (Registration × UInt16)}
      (h : step.isRegistration = false) (hlog : Registers (step.apply d) log d') :
      Registers d log d'

namespace Draft.Registers

variable {d d' : Draft} {log : List (Registration × UInt16)}

/-- One more call. -/
theorem concat (h : d.Registers log d') {r : Registration} {answer : UInt16} {d'' : Draft}
    (hcall : r.call d' = .ok answer d'') : d.Registers (log ++ [(r, answer)]) d'' := by
  induction h with
  | done => exact .call hcall .done
  | call h _ ih => exact .call h (ih hcall)
  | other h _ ih => exact .other h (ih hcall)

/-! ## What a sequence of calls does -/

theorem idxOf_of_isPrefix {bs bs' : List Bootstrap} (h : bs <+: bs') {b : Bootstrap} (hb : b ∈ bs) :
    bs'.idxOf b = bs.idxOf b := by
  obtain ⟨rest, rfl⟩ := h
  exact List.idxOf_append_of_mem hb

theorem isPrefix_of_call {r : Registration} {answer : UInt16} (hvalid : d.pool.Valid)
    (h : r.call d = .ok answer d') :
    d.bootstraps.toList <+: d'.bootstraps.toList ∧ r.entry ∈ d'.bootstraps.toList ∧
      d'.bootstraps.toList.idxOf r.entry = d.bootstraps.toList.idxOf r.entry := by
  obtain ⟨number, -, -, -, htable⟩ := Registration.call_spec hvalid h
  rw [htable]
  by_cases hmem : r.entry ∈ d.bootstraps.toList
  · rw [if_pos hmem]
    exact ⟨List.prefix_rfl, hmem, rfl⟩
  · rw [if_neg hmem, Array.toList_push]
    refine ⟨List.prefix_append _ _, by simp, ?_⟩
    rw [List.idxOf_append_of_notMem hmem, List.idxOf_eq_length hmem, List.idxOf_cons_self]
    rfl

/-- Calls only add to the pool and to the table. -/
theorem grows (h : d.Registers log d') (hvalid : d.pool.Valid) :
    d.pool.Grows d'.pool ∧ d.bootstraps.toList <+: d'.bootstraps.toList := by
  induction h with
  | done => exact ⟨.refl _, List.prefix_rfl⟩
  | @call d d₁ d' r answer log h _ ih =>
    obtain ⟨number, -, -, hgrows, -⟩ := Registration.call_spec hvalid h
    obtain ⟨hgrows', htable⟩ := ih (hgrows.valid hvalid)
    exact ⟨hgrows.trans hgrows', (isPrefix_of_call hvalid h).1.trans htable⟩
  | @other d d' step log h _ ih =>
    have hgrows := step.grows d
    obtain ⟨hgrows', htable⟩ := ih (hgrows.valid hvalid)
    exact ⟨hgrows.trans hgrows', step.bootstraps_apply h d ▸ htable⟩

/-- Every number is the first place of its bootstrap method in the table that is left. -/
theorem numbered (h : d.Registers log d') (hvalid : d.pool.Valid) :
    ∀ r answer, (r, answer) ∈ log → ∃ number, r.number? d'.pool.table answer = some number ∧
      r.entry ∈ d'.bootstraps.toList ∧ number.toNat = d'.bootstraps.toList.idxOf r.entry := by
  induction h with
  | done => simp
  | @call d d₁ d' r answer log h hlog ih =>
    obtain ⟨number, hnumber, hplace, hgrows, -⟩ := Registration.call_spec hvalid h
    obtain ⟨-, hmem, hidx⟩ := isPrefix_of_call hvalid h
    obtain ⟨hgrows', htable⟩ := hlog.grows (hgrows.valid hvalid)
    intro r' answer' hr'
    rcases List.mem_cons.mp hr' with heq | hr'
    · cases heq
      refine ⟨number, hnumber _ hgrows'.le, htable.subset hmem, ?_⟩
      rw [idxOf_of_isPrefix htable hmem, hidx, hplace]
    · exact ih (hgrows.valid hvalid) r' answer' hr'
  | @other d d' step log h _ ih => exact ih ((step.grows d).valid hvalid)

/-- The table fits into a class file exactly if it did and the last number was not given. -/
theorem size_le_iff (h : d.Registers log d') (hvalid : d.pool.Valid) :
    d'.bootstraps.size ≤ 65535 ↔ d.bootstraps.size ≤ 65535 ∧
      ∀ r answer, (r, answer) ∈ log → r.number? d'.pool.table answer ≠ some 65535 := by
  constructor
  · intro hsize
    have hle := (h.grows hvalid).2.length_le
    rw [Array.length_toList, Array.length_toList] at hle
    refine ⟨by omega, fun r answer hr heq => ?_⟩
    obtain ⟨number, hnumber, hmem, hplace⟩ := h.numbered hvalid r answer hr
    have hlt := List.idxOf_lt_length_of_mem hmem
    rw [heq] at hnumber
    cases hnumber
    rw [← hplace, Array.length_toList] at hlt
    have : (65535 : UInt16).toNat = 65535 := rfl
    omega
  · rintro ⟨hsize, hnumbers⟩
    induction h with
    | done => exact hsize
    | @call d d₁ d' r answer log h hlog ih =>
      obtain ⟨number, hnumber, hplace, hgrows, htable⟩ := Registration.call_spec hvalid h
      have hle := (hlog.grows (hgrows.valid hvalid)).1.le
      refine ih (hgrows.valid hvalid) ?_ fun r' answer' hr' => ?_
      · rw [htable]
        by_cases hmem : r.entry ∈ d.bootstraps.toList
        · rw [if_pos hmem]
          exact hsize
        · -- a new entry has the number after the last
          rw [if_neg hmem, Array.size_push]
          rw [List.idxOf_eq_length hmem, Array.length_toList] at hplace
          have hlast : number ≠ 65535 := by
            rintro rfl
            exact hnumbers r answer (by simp) (hnumber _ hle)
          have : number.toNat ≠ 65535 := fun heq => hlast (UInt16.toNat_inj.mp heq)
          omega
      · exact hnumbers r' answer' (List.mem_cons_of_mem _ hr')
    | @other d d' step log h _ ih =>
      refine ih ((step.grows d).valid hvalid) ?_ hnumbers
      rw [step.bootstraps_apply h d]
      exact hsize

end Draft.Registers

/-! ## Building a class with many bootstrap methods -/

theorem except_bind_eq_error {ε α β : Type} {x : Except ε α} {f : α → Except ε β} {e : ε}
    (h : x >>= f = .error e) : x = .error e ∨ ∃ a, x = .ok a ∧ f a = .error e := by
  cases x with
  | error e' =>
    cases h
    exact .inl rfl
  | ok a => exact .inr ⟨a, rfl, h⟩

theorem count16_eq_error {what : Countable} {n : Nat} {e : Error} (h : count16 what n = .error e) :
    e = .tooMany what n := by
  unfold count16 at h
  split at h <;> cases h
  rfl

/-- The write does not complain about the number of bootstrap methods. -/
def Spares {α : Type} (w : Write α) : Prop :=
  ∀ s s' n, w s ≠ .error (.tooMany .bootstrapMethods n) s'

namespace Spares

theorem emit (bytes : Bytes) : Spares (Write.emit bytes) := by
  rintro ⟨pool, out⟩ s' n h
  cases h

theorem bind {α β : Type} {w : Write α} {f : α → Write β} (hw : Spares w)
    (hf : ∀ a, Spares (f a)) : Spares (w >>= f) := by
  intro s s' n h
  rcases bind_eq_error.1 h with h | ⟨a, s₁, -, h⟩
  · exact hw _ _ _ h
  · exact hf _ _ _ _ h

theorem count (what : Countable) {k : Nat} (h : what = .bootstrapMethods → k < 65536) :
    Spares (Write.count what k) := by
  intro s s' n hcount
  unfold Write.count count16 at hcount
  by_cases hk : k < 65536
  · rw [if_pos hk] at hcount
    exact emit _ _ _ _ hcount
  · rw [if_neg hk] at hcount
    cases hcount
    exact hk (h rfl)

theorem forM {α : Type} {f : α → Write Unit} (hf : ∀ a, Spares (f a)) (as : List α) :
    Spares (as.forM f) := by
  induction as with
  | nil =>
    intro s s' n h
    cases h
  | cons a as ih => exact (hf a).bind fun _ => ih

theorem close (lengthAt : Nat) : Spares (Write.close lengthAt) := by
  rintro ⟨pool, out⟩ s' n h
  unfold Write.close Buffer.attributeLength at h
  simp only at h
  by_cases hlength : out.size - (lengthAt + 4) < 4294967296
  · rw [if_pos hlength] at h
    cases h
  · rw [if_neg hlength] at h
    cases h

theorem inAttribute (i : UInt16) {body : Write Unit} (hbody : Spares body) :
    Spares (Write.inAttribute i body) := by
  rintro ⟨pool, out⟩ s' n h
  unfold Write.inAttribute at h
  simp only at h
  split at h
  · exact close _ _ _ _ h
  · rename_i hfail
    cases h
    exact hbody _ _ _ hfail

end Spares

theorem Bootstrap.write_spares (b : Bootstrap) : Spares b.write :=
  (Spares.emit _).bind fun _ => (Spares.count .bootstrapArguments nofun).bind
    fun _ => Spares.emit _

theorem Bootstrap.writeAll_spares {bs : List Bootstrap} (h : bs.length ≤ 65535) :
    Spares (writeAll bs) :=
  (Spares.count .bootstrapMethods fun _ => by omega).bind fun _ => Spares.forM write_spares bs

namespace Draft

theorem written_ne_of_spares {w : Write Unit} (hw : Spares w) (pool : Pool) (n : Nat) :
    written pool w ≠ .error (.tooMany .bootstrapMethods n) := by
  intro h
  unfold written at h
  split at h
  · cases h
  · rename_i hfail
    cases h
    exact hw _ _ _ hfail

theorem writeAttributes_spares {bs : List Bootstrap} (h : bs.length ≤ 65535)
    (name : Option UInt16) : Spares (writeAttributes bs name) := by
  cases name with
  | none => exact Spares.emit _
  | some i => exact (Spares.emit _).bind fun _ => Spares.inAttribute i (Bootstrap.writeAll_spares h)

/-- The attributes cannot be written if there are too many bootstrap methods. -/
theorem written_of_crowded {bs : List Bootstrap} (h : 65535 < bs.length) (pool : Pool)
    (i : UInt16) :
    written pool (writeAttributes bs (some i))
      = .error (.tooMany .bootstrapMethods bs.length) := by
  have hcount : ∀ s, Bootstrap.writeAll bs s = .error (.tooMany .bootstrapMethods bs.length) s := by
    intro s
    refine bind_eq_error.2 (.inl ?_)
    simp only [Write.count, count16, if_neg (show ¬ bs.length < 65536 by omega)]
  have hattribute : ∀ s, ∃ s', Write.inAttribute i (Bootstrap.writeAll bs) s
      = .error (.tooMany .bootstrapMethods bs.length) s' := by
    rintro ⟨pool, out⟩
    simp only [Write.inAttribute, hcount]
    exact ⟨_, rfl⟩
  obtain ⟨s', hs'⟩ := hattribute ⟨pool, Buffer.empty.append (Bytes.ofUInt16 1)⟩
  have hwrite : writeAttributes bs (some i) ⟨pool, Buffer.empty⟩
      = .error (.tooMany .bootstrapMethods bs.length) s' :=
    bind_eq_error.2 (.inr ⟨(), _, rfl, hs'⟩)
  rw [written, hwrite]

/-- A class with few enough bootstrap methods is not refused for their number. -/
theorem build_ne_of_size_le {d : Draft} (h : d.bootstraps.size ≤ 65535) (n : Nat) :
    d.build ≠ .error (.tooMany .bootstrapMethods n) := by
  intro hbuild
  unfold build at hbuild
  rcases except_bind_eq_error hbuild with hname | ⟨⟨name, pool⟩, -, hbuild⟩
  · rcases d.attributeName_cases with ⟨name, pool, hname', -⟩ | ⟨e, hname', hrefused⟩
    · cases hname.symm.trans hname'
    · cases hname.symm.trans hname'
      cases hrefused
  rcases except_bind_eq_error hbuild with hfields | ⟨_, -, hbuild⟩
  · cases count16_eq_error hfields
  rcases except_bind_eq_error hbuild with hmethods | ⟨_, -, hbuild⟩
  · cases count16_eq_error hmethods
  rcases except_bind_eq_error hbuild with hwritten | ⟨_, -, hbuild⟩
  · exact written_ne_of_spares (writeAttributes_spares (by simpa using h) name) pool n hwritten
  · cases hbuild

theorem attributeName_of_crowded {d : Draft} (h : 65535 < d.bootstraps.size) {name : Option UInt16}
    {pool : Pool} (hname : d.attributeName = .ok (name, pool)) : ∃ i, name = some i := by
  unfold attributeName at hname
  split at hname
  · rename_i hempty
    rw [Array.isEmpty_iff] at hempty
    rw [hempty] at h
    simp at h
  · split at hname
    · cases hname
      exact ⟨_, rfl⟩
    · cases hname

/-- A class with too many bootstrap methods is not built. -/
theorem build_ne_of_crowded {d : Draft} (h : 65535 < d.bootstraps.size) (bytes : Bytes) :
    d.build ≠ .ok bytes := by
  intro hbuild
  obtain ⟨name, pool, attributes, hname, -, -, hwritten, -⟩ := build_eq_ok hbuild
  obtain ⟨i, rfl⟩ := attributeName_of_crowded h hname
  rw [written_of_crowded (by simpa using h)] at hwritten
  cases hwritten

/-- It is refused for their number if nothing else is wrong. -/
theorem build_of_crowded {d : Draft} (h : 65535 < d.bootstraps.size)
    (hfields : d.fields.count ≤ 65535) (hmethods : d.methods.count ≤ 65535)
    (hroom : d.pool.size < Pool.capacity) :
    d.build = .error (.tooMany .bootstrapMethods d.bootstraps.size) := by
  obtain ⟨name, pool, hname, -⟩ | ⟨e, hname, hrefused⟩ := d.attributeName_cases
  · obtain ⟨i, rfl⟩ := attributeName_of_crowded h hname
    have hlength : 65535 < d.bootstraps.toList.length := by simpa using h
    have hwritten := written_of_crowded hlength pool i
    rw [Array.length_toList] at hwritten
    unfold build
    simp only [hname, count16, if_pos (show d.fields.count < 65536 by omega),
      if_pos (show d.methods.count < 65536 by omega), hwritten, bind, Except.bind]
  · have hsome : d.bootstraps.isEmpty = false := by
      rw [Array.isEmpty_eq_false_iff]
      rintro hempty
      rw [hempty] at h
      simp at h
    rw [buildTexts, hsome] at hrefused
    cases hrefused with
    | text ht hlong =>
      cases List.mem_singleton.mp ht
      exact absurd (by decide) hlong
    | room hfull => omega

/-! ## The main result -/

/-- Every number that was given points at its bootstrap method, equal methods share one number,
and the class can be built as far as the table is concerned unless the number 65535 was given. -/
theorem registered_then_built {name superName : String} {access : UInt16} {d d' : Draft}
    {earlier : List Step} {log : List (Registration × UInt16)}
    (hnew : new name superName access = .ok d) (h : (d.take earlier).Registers log d') :
    (∀ r answer, (r, answer) ∈ log → ∃ number, r.number? d'.pool.table answer = some number ∧
        d'.bootstraps[number.toNat]? = some r.entry) ∧
      (∀ r answer r' answer', (r, answer) ∈ log → (r', answer') ∈ log →
        (r.number? d'.pool.table answer = r'.number? d'.pool.table answer' ↔
          r.entry = r'.entry)) ∧
      (d'.bootstraps.size ≤ 65535 ↔ (d.take earlier).bootstraps.size ≤ 65535 ∧
        ∀ r answer, (r, answer) ∈ log → r.number? d'.pool.table answer ≠ some 65535) ∧
      (d'.bootstraps.size ≤ 65535 → ∀ n, d'.build ≠ .error (.tooMany .bootstrapMethods n)) ∧
      (65535 < d'.bootstraps.size → (∀ bytes, d'.build ≠ .ok bytes) ∧
        (d'.fields.count ≤ 65535 → d'.methods.count ≤ 65535 → d'.pool.size < Pool.capacity →
          d'.build = .error (.tooMany .bootstrapMethods d'.bootstraps.size))) := by
  have hvalid := (d.grows_take earlier).valid (holds_new hnew).valid
  have hnumbered := h.numbered hvalid
  refine ⟨fun r answer hr => ?_, fun r answer r' answer' hr hr' => ?_, h.size_le_iff hvalid,
    build_ne_of_size_le, fun hcrowded => ⟨build_ne_of_crowded hcrowded, build_of_crowded hcrowded⟩⟩
  · obtain ⟨number, hnumber, hmem, hplace⟩ := hnumbered r answer hr
    refine ⟨number, hnumber, ?_⟩
    rw [hplace, ← Array.getElem?_toList]
    exact List.getElem?_idxOf hmem
  · obtain ⟨number, hnumber, hmem, hplace⟩ := hnumbered r answer hr
    obtain ⟨number', hnumber', hmem', hplace'⟩ := hnumbered r' answer' hr'
    rw [hnumber, hnumber']
    constructor
    · intro heq
      cases heq
      exact (List.idxOf_inj hmem).mp (hplace.symm.trans hplace')
    · intro heq
      rw [heq, ← hplace'] at hplace
      rw [UInt16.toNat_inj.mp hplace]

/-! ## A table that is filled to its end -/

/-- The first `k` of the bootstrap methods that have their number as their handle. -/
def sequence (k : Nat) : List Bootstrap := (List.range k).map fun n => ⟨n.toUInt16, []⟩

theorem bootstrap_sequence (d : Draft) {k : Nat} (hk : k < 65536) :
    bootstrap k.toUInt16 [] { d with bootstraps := (sequence k).toArray }
      = .ok k.toUInt16 { d with bootstraps := (sequence (k + 1)).toArray } := by
  have hnew : ⟨k.toUInt16, []⟩ ∉ sequence k := by
    intro hmem
    obtain ⟨n, hn, heq⟩ := List.mem_map.mp hmem
    have hlt := List.mem_range.mp hn
    have hhandle : n.toUInt16.toNat = k.toUInt16.toNat := by
      rw [(Bootstrap.mk.inj heq).1]
    simp at hhandle
    omega
  have hlength : (sequence k).length = k := by simp [sequence]
  have hnext : sequence (k + 1) = sequence k ++ [⟨k.toUInt16, []⟩] := by
    simp [sequence, List.range_succ]
  simp only [bootstrap, Bootstrap.numberIn_eq, List.idxOf_eq_length hnew, List.size_toArray,
    hlength, Nat.lt_irrefl, if_false, count16, if_pos hk, hnext, List.push_toArray]

theorem registers_sequence {d : Draft} (h : d.bootstraps = #[]) {k : Nat} (hk : k ≤ 65536) :
    d.Registers ((List.range k).map fun n => (.method ⟨n.toUInt16, []⟩, n.toUInt16))
      { d with bootstraps := (sequence k).toArray } := by
  induction k with
  | zero =>
    have : { d with bootstraps := (sequence 0).toArray } = d := by
      cases d
      cases h
      rfl
    rw [this]
    exact .done
  | succ k ih =>
    rw [List.range_succ, List.map_append]
    exact (ih (by omega)).concat (bootstrap_sequence d (by omega))

/-- To ask again for one of two bootstrap methods changes nothing. -/
theorem bootstrap_again (d : Draft) :
    bootstrap 0 [] { d with bootstraps := (sequence 2).toArray }
      = .ok 0 { d with bootstraps := (sequence 2).toArray } := by
  have hfound : (sequence 2).idxOf ⟨0, []⟩ = 0 := by decide
  have hlength : (sequence 2).length = 2 := by decide
  simp only [bootstrap, Bootstrap.numberIn_eq, hfound, List.size_toArray, hlength]
  rfl

/-- Two bootstrap methods, the first of them once more, and a call site that the second one links. -/
def repeating (site : UInt16) : List (Registration × UInt16) := [
  (.method ⟨0, []⟩, 0), (.method ⟨1, []⟩, 1), (.method ⟨0, []⟩, 0),
  (.site ⟨1, []⟩ "isLit" (.returning .boolean), site)]

theorem exists_registers_repeating {d : Draft} (h : d.bootstraps = #[]) (hroom : d.pool.size ≤ 4) :
    ∃ site d', d.Registers (repeating site) d' := by
  have hsizes : ∀ t ∈ ["isLit", (MethodType.returning .boolean).descriptor],
      t.utf8ByteSize ≤ 10922 := by decide +kernel
  have hcapacity : Pool.capacity = 65534 := rfl
  have hthrice := (registers_sequence h (k := 2) (by omega)).concat (r := .method ⟨0, []⟩)
    (bootstrap_again d)
  have hfew : { d with bootstraps := (sequence 2).toArray }.bootstraps.size < 65536 :=
    show (sequence 2).toArray.size < 65536 by decide
  obtain ⟨site, d', hsite, -⟩ :=
    (invokeDynamic_asks hfew 1 [] "isLit" (.returning .boolean)).succeeds
      (fun t ht => fits_of_utf8ByteSize_le (hsizes t ht))
      (by show d.pool.size + 4 ≤ Pool.capacity; omega)
  exact ⟨site, d', hthrice.concat (r := .site ⟨1, []⟩ "isLit" (.returning .boolean)) hsite⟩

theorem registered_then_built_lamp : ∃ (d d' : Draft) (site : UInt16),
    new "Lamp" FieldType.objectName 33 = .ok d ∧ (d.take []).Registers (repeating site) d' ∧
      d'.bootstraps[0]? = some ⟨0, []⟩ ∧ d'.bootstraps[1]? = some ⟨1, []⟩ ∧
      (d'.pool.table.invokeDynamic site).toOption.map Prod.fst = some 1 ∧
      ∀ n, d'.build ≠ .error (.tooMany .bootstrapMethods n) := by
  obtain ⟨d, hnew, hroom⟩ := Lamp.exists_new
  have hnone : d.bootstraps = #[] := Array.toList_inj.mp (holds_new hnew).bootstraps
  obtain ⟨site, d', hlog⟩ := exists_registers_repeating hnone hroom
  obtain ⟨hplaces, hshared, hsize, hbuild, -⟩ := @registered_then_built _ _ _ _ _ [] _ hnew hlog
  obtain ⟨number, hnumber, hfirst⟩ := hplaces (.method ⟨0, []⟩) 0 (by simp [repeating])
  cases hnumber
  obtain ⟨number, hnumber, hsecond⟩ := hplaces (.method ⟨1, []⟩) 1 (by simp [repeating])
  cases hnumber
  have hsite : (d'.pool.table.invokeDynamic site).toOption.map Prod.fst = some 1 :=
    (hshared (.site ⟨1, []⟩ "isLit" (.returning .boolean)) site (.method ⟨1, []⟩) 1
      (by simp [repeating]) (by simp [repeating])).mpr rfl
  have hfits : d'.bootstraps.size ≤ 65535 := by
    refine hsize.mpr ⟨by show d.bootstraps.size ≤ 65535; simp [hnone], fun r answer hr => ?_⟩
    simp only [repeating, List.mem_cons, Prod.mk.injEq, List.not_mem_nil, or_false] at hr
    obtain ⟨rfl, rfl⟩ | ⟨rfl, rfl⟩ | ⟨rfl, rfl⟩ | ⟨rfl, rfl⟩ := hr
    · simp [Registration.number?]
    · simp [Registration.number?]
    · simp [Registration.number?]
    · exact fun hlast => absurd (hsite.symm.trans hlast) (by decide)
  exact ⟨d, d', site, hnew, hlog, hfirst, hsecond, hsite, hbuild hfits⟩

/-- All of 65536 bootstrap methods are given a number, the last one 65535, but the class with them
is refused. -/
theorem crowded_table : ∃ d d' : Draft, new "Lamp" FieldType.objectName 33 = .ok d ∧
    d.Registers ((List.range 65536).map fun n => (.method ⟨n.toUInt16, []⟩, n.toUInt16)) d' ∧
    d'.build = .error (.tooMany .bootstrapMethods 65536) := by
  obtain ⟨d, hnew, hroom⟩ := Lamp.exists_new
  have hd := holds_new hnew
  have hnone : d.bootstraps = #[] := Array.toList_inj.mp hd.bootstraps
  have hsize : (sequence 65536).toArray.size = 65536 := by simp [sequence]
  refine ⟨d, _, hnew, registers_sequence hnone (Nat.le_refl _), ?_⟩
  have hcapacity : Pool.capacity = 65534 := rfl
  have hfields : d.fields.count = 0 := hd.fields.count
  have hmethods : d.methods.count = 0 := hd.methods.count
  rw [build_of_crowded (by show 65535 < (sequence 65536).toArray.size; omega) (by simp [hfields])
    (by simp [hmethods]) (by show d.pool.size < _; omega)]
  exact congrArg (fun n => Except.error (Error.tooMany .bootstrapMethods n)) hsize

end Draft

end SchemaRecords.ClassFile
