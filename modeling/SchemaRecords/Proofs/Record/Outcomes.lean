import SchemaRecords.Proofs.ClassFile.Requests
import SchemaRecords.Proofs.Record.Admissible
import SchemaRecords.Proofs.Record.SlotSums

/-!
# How making a record class ends

The class of a record type is made, or it is refused for a reason that can be seen
in the type: an accessor is a method that every record class has, there are too
many parameters or arguments, or a text is too long. With very many properties the
pool can also become full before the parameters are counted. The code of the
methods is never at fault (`RefusesFrom`), whatever the type.

* `Layout.admissible_of_compile`: a class is made of an admissible layout only.
* `Layout.utf8_iff_of_compile`: the texts in a class file are those of its layout.
* `ofType_outcomes`: when a class is made, and what it is refused for otherwise.
-/

namespace SchemaRecords.ClassFile

/-- A text was too long, or the pool full. -/
def Error.IsRefusal : Error → Prop
  | textTooLong _ => True
  | poolFull _ => True
  | _ => False

theorem Error.isRefusal_iff {e : Error} :
    e.IsRefusal ↔ (∃ length, e = .textTooLong length) ∨ ∃ limit, e = .poolFull limit := by
  cases e <;> simp [IsRefusal]

theorem Refused.isRefusal {texts : List String} {size : Nat} {e : Error}
    (h : Refused texts size e) : e.IsRefusal := by
  cases h with
  | text ht hfits => trivial
  | room hfull => trivial

theorem Pool.listed_empty : Pool.empty.Listed := by
  intro c i h
  simp [Pool.empty] at h

theorem Pool.not_hasText_empty (text : String) : ¬Pool.empty.HasText text := by
  simp [Pool.HasText, Pool.empty]

/-- A text of a pool has an index in its table. -/
theorem Pool.exists_utf8_iff {p : Pool} (hp : p.Valid) {text : String} :
    (∃ i, p.table.utf8 i = .ok text) ↔ p.HasText text := by
  constructor
  · rintro ⟨i, hi⟩
    obtain ⟨c, hc, hi⟩ := except_bind_eq_ok hi
    obtain ⟨n, hn, -⟩ := get?_eq_some_iff.mp (table_get_eq_ok_iff.mp hc)
    cases c with
    | utf8 text =>
      cases hi
      exact Array.mem_of_getElem? hn
    | _ => cases hi
  · intro h
    obtain ⟨n, hn, hentry⟩ := Array.mem_iff_getElem.mp h
    have hcapacity : p.entries.size ≤ 65534 := hp.size_le
    have hindex : (n + 1).toUInt16.toNat = n + 1 := by
      simp
      omega
    have hget : p.table.get (n + 1).toUInt16 = .ok (.utf8 text) :=
      table_get_eq_ok_iff.mpr
        (get?_eq_some_iff.mpr ⟨n, hentry ▸ Array.getElem?_eq_getElem hn, hindex⟩)
    refine ⟨(n + 1).toUInt16, ?_⟩
    rw [ConstantTable.utf8, hget]
    rfl

end SchemaRecords.ClassFile

namespace SchemaRecords.Record

open SchemaRecords.ClassFile

/-! ## Faults of the class file -/

/-- From the state `d` the step fails for no other fault of the class file than a refusal. -/
def RefusesFrom {α : Type} (d : Draft) (step : Assemble α) : Prop :=
  ∀ e d', step d = .error (.classFile e) d' → e.IsRefusal

namespace RefusesFrom

variable {α β : Type} {d : Draft} {step : Assemble α}

theorem of_asksFrom {texts : List String} {k b : Nat} {Q : α → Prop}
    (h : AsksFrom d step texts k b Q) : RefusesFrom d step := by
  intro e d' herror
  obtain ⟨a, d'', hok, -⟩ | ⟨e', d'', herror', hrefused⟩ := h
  · cases hok.symm.trans herror
  · cases herror'.symm.trans herror
    exact hrefused.isRefusal

/-- A step that is not taken for a reason of the record type. -/
theorem guard {condition : Prop} [Decidable condition] {e : Error}
    (he : ∀ cause, e ≠ .classFile cause) (h : ¬condition → RefusesFrom d step) :
    RefusesFrom d (if condition then throw e else step) := by
  intro cause d' herror
  split at herror
  · cases herror
    exact absurd rfl (he cause)
  · rename_i hcondition
    exact h hcondition cause d' herror

theorem bind {f : α → Assemble β} (h : RefusesFrom d step)
    (hf : ∀ a d', step d = .ok a d' → RefusesFrom d' (f a)) : RefusesFrom d (step >>= f) := by
  intro e d' herror
  obtain herror | ⟨a, d'', hok, herror⟩ := bind_eq_error.mp herror
  · exact h e d' herror
  · exact hf a d'' hok e d' herror

theorem forM {f : β → Assemble PUnit} {xs : List β} (h : ∀ x ∈ xs, ∀ d, RefusesFrom d (f x))
    (d : Draft) : RefusesFrom d (xs.forM f) := by
  induction xs generalizing d with
  | nil =>
    intro e d' herror
    cases herror
  | cons x xs ih =>
    obtain ⟨hx, hxs⟩ := List.forall_mem_cons.mp h
    exact (hx d).bind fun _ d' _ => ih hxs d'

end RefusesFrom

theorem Accessor.add_refuses (l : Layout) (d : Draft) : RefusesFrom d (add l) := by
  refine (RefusesFrom.forM (fun c _ d => ?_) d).bind fun _ d' _ =>
    RefusesFrom.forM (fun c _ d => ?_) d'
  · exact .of_asksFrom (asksFrom_ofBuild (Draft.field_asks (areFew_annotations l c) d))
  · refine .guard (fun _ h => by cases h) fun _ => ?_
    exact .of_asksFrom (asks_method (method_isWritable l c) (entries_method l c) d)

theorem Constructor.add_refuses (l : Layout) (d : Draft) : RefusesFrom d (add l) := by
  refine .guard (fun _ h => by cases h) fun hslots => ?_
  have hle := Nat.not_lt.mp hslots
  exact .of_asksFrom (asks_method (method_isWritable hle) (entries_method hle) d)

theorem Rendering.add_refuses {l : Layout} (h : l.components.length ≤ 254) {d : Draft}
    {c : Contents} (hd : d.Holds c) (hc : c.bootstraps = []) : RefusesFrom d (add l) := by
  intro e d' herror
  by_cases hslots : maxArgumentSlots < (callType l).parameterSlots.toNat
  · rw [add] at herror
    simp only [if_pos hslots] at herror
    cases herror
  · exact RefusesFrom.of_asksFrom (add_asks h (Nat.not_lt.mp hslots) hd hc) e d' herror

theorem Rendering.slots_le_of_add {l : Layout} {d d' : Draft} (h : add l d = .ok () d') :
    (callType l).parameterSlots.toNat ≤ maxArgumentSlots := by
  unfold add at h
  split at h
  · cases h
  · rename_i hslots
    exact Nat.not_lt.mp hslots

namespace Layout

theorem parts_refuse {l : Layout} {d : Draft} {c : Contents} (hd : d.Holds c)
    (hc : c.bootstraps = []) : RefusesFrom d (Part.all.forM (Part.add l)) := by
  refine (Accessor.add_refuses l d).bind fun _ d₁ h₁ => (Constructor.add_refuses l d₁).bind
    fun _ d₂ h₂ => ?_
  -- once there is a constructor, there are few components
  have hlength := length_le_of_slots (Constructor.slots_le_of_add h₂)
  refine (RefusesFrom.of_asksFrom (Equality.add_asks hlength d₂)).bind fun _ d₃ h₃ =>
    (RefusesFrom.of_asksFrom (Hashing.add_asks hlength d₃)).bind fun _ d₄ h₄ => ?_
  obtain ⟨c₄, hd₄, hc₄⟩ := exists_holds_of_add hd hc h₁ h₂ h₃ h₄
  refine (Rendering.add_refuses hlength hd₄ hc₄).bind fun _ d₅ _ => ?_
  intro e d' herror
  cases herror

/-! ## Classes that are made -/

theorem parts_eq_ok {l : Layout} {d d' : Draft} (h : Part.all.forM (Part.add l) d = .ok () d') :
    ∃ d₁ d₂ d₃ d₄, Accessor.add l d = .ok () d₁ ∧ Constructor.add l d₁ = .ok () d₂ ∧
      Equality.add l d₂ = .ok () d₃ ∧ Hashing.add l d₃ = .ok () d₄ ∧
      Rendering.add l d₄ = .ok () d' := by
  obtain ⟨_, d₁, h₁, h⟩ := bind_eq_ok.mp h
  obtain ⟨_, d₂, h₂, h⟩ := bind_eq_ok.mp h
  obtain ⟨_, d₃, h₃, h⟩ := bind_eq_ok.mp h
  obtain ⟨_, d₄, h₄, h⟩ := bind_eq_ok.mp h
  obtain ⟨_, d₅, h₅, h⟩ := bind_eq_ok.mp h
  cases h
  exact ⟨d₁, d₂, d₃, d₄, h₁, h₂, h₃, h₄, h₅⟩

/-- Parts are made of an admissible layout only. -/
theorem admissible_of_parts {l : Layout} {d d' : Draft} {c : Contents} (hd : d.Holds c)
    (h : Part.all.forM (Part.add l) d = .ok () d') : l.Admissible := by
  obtain ⟨d₁, d₂, d₃, d₄, h₁, h₂, -, -, h₅⟩ := parts_eq_ok h
  obtain ⟨_, -, -, hc₁⟩ := Accessor.add_builds l c d d₁ () hd h₁
  exact ⟨(hc₁ _ le_rfl).1, Constructor.slots_le_of_add h₂, Rendering.slots_le_of_add h₅⟩

/-- A class is made of an admissible layout only. -/
theorem admissible_of_compile {l : Layout} {bytes : Bytes} (h : l.compile = .ok bytes) :
    l.Admissible := by
  obtain ⟨d, d', hnew, hparts, -⟩ := compile_eq_ok h
  exact admissible_of_parts (Draft.holds_new hnew) hparts

/-- No other fault of the class file is met than a refusal, whatever the layout. -/
theorem isRefusal_of_compile {l : Layout} {e : ClassFile.Error}
    (h : l.compile = .error (.classFile e)) : e.IsRefusal := by
  by_cases hadmissible : l.Admissible
  · obtain ⟨bytes, hok, -⟩ | ⟨e', herror, hrefused⟩ := compile_refused hadmissible
    · cases hok.symm.trans h
    · cases herror.symm.trans h
      exact hrefused.isRefusal
  · unfold compile draft at h
    obtain ⟨d, hnew, -⟩ | ⟨e', hnew, hrefused⟩ := Draft.new_cases l.thisName recordName access
    · rw [hnew] at h
      simp only at h
      have hd := Draft.holds_new hnew
      cases hparts : Part.all.forM (Part.add l) d with
      | error e' d' =>
        rw [hparts] at h
        cases h
        exact parts_refuse hd rfl e d' hparts
      | ok _ d' => exact absurd (admissible_of_parts hd hparts) hadmissible
    · rw [hnew] at h
      cases h
      exact hrefused.isRefusal

/-- The texts in a class file are those of its layout. -/
theorem utf8_iff_of_compile {l : Layout} {bytes : Bytes} (h : l.compile = .ok bytes) :
    ∃ image, Image.parse bytes = .ok image ∧
      ∀ text, (∃ i, image.constants.utf8 i = .ok text) ↔ text ∈ l.texts := by
  have hadmissible := admissible_of_compile h
  obtain ⟨d, d', hnew, hparts, hbuild⟩ := compile_eq_ok h
  have hd := Draft.holds_new hnew
  obtain ⟨c', hd', -, hQ⟩ := parts_builds l rfl _ _ _ hd hparts
  obtain ⟨b, site, -, -, rfl, -⟩ := hQ _ le_rfl
  obtain ⟨image, name, pool, hparse, hname, hconstants, -⟩ := exists_image_of_build hd' hbuild
  have hvalid := (Draft.attributeName_spec hd'.valid hname).1.valid hd'.valid
  -- the pool is filled in three steps
  have hfirst : Pool.empty.Stores d.pool [l.thisName, recordName] := by
    obtain ⟨d₀, hnew₀, -, -, hstores⟩ | ⟨e, hnew₀, -⟩ :=
      Draft.new_cases l.thisName recordName access
    · cases hnew.symm.trans hnew₀
      exact hstores
    · cases hnew.symm.trans hnew₀
  have hsecond : d.pool.Stores d'.pool l.partTexts :=
    ((parts_asks hadmissible hd rfl).accepted hparts).stores
  have hthird : d'.pool.Stores pool [Bootstrap.attributeName] := by
    have hlist : d'.bootstraps.toList = [b] := hd'.bootstraps
    obtain ⟨_, _, hname', -, hstores⟩ | ⟨e, hname', -⟩ := d'.attributeName_cases
    · cases hname.symm.trans hname'
      exact Draft.buildTexts_of_singleton hlist ▸ hstores
    · cases hname.symm.trans hname'
  obtain ⟨-, hall⟩ := (hfirst.trans (hsecond.trans hthird)) Pool.listed_empty
  refine ⟨image, hparse, fun text => ?_⟩
  rw [hconstants, Pool.exists_utf8_iff hvalid, hall]
  simp [Pool.not_hasText_empty, texts]

end Layout

/-- The slots of the arguments are counted without loss if those of the parameters are few. -/
theorem Rendering.toNat_parameterSlots_callType {l : Layout}
    (h : Constructor.slots l ≤ maxParameterSlots) :
    (callType l).parameterSlots.toNat = slotsOf (shown l) := by
  have htotal (cs : List Component) :
      total ((cs.map (·.type)).map FieldType.slots) = slotsOf cs := by
    induction cs with
    | nil => rfl
    | cons c cs ih => rw [List.map_cons, List.map_cons, total, ih, slotsOf]
  have hexact := (List.forall_mem_append.mp (Part.isExact_additions h .rendering)).1
  rw [MethodType.toNat_parameterSlots_of_exact hexact]
  exact htotal (shown l)

theorem Accessor.isReserved_eq_false_iff {c : Component} :
    isReserved c = false ↔ (c.name, (type c).descriptor) ≠ ("toString", "()Ljava/lang/String;") ∧
      (c.name, (type c).descriptor) ≠ ("hashCode", "()I") := by
  simp [isReserved, reserved]

theorem compile_of_ofType_error {s : Settings} {type : Schema.RecordType} {e : ClassFile.Error}
    (h : Artifact.ofType s type = .error (.classFile e)) :
    (Layout.ofType s type).compile = .error (.classFile e) := by
  unfold Artifact.ofType Artifact.compile at h
  split at h
  · cases h
  · simp only at h
    split at h
    · rename_i hcompile
      cases h
      exact hcompile
    · cases h

/-- A layout with few parameters is admissible if the string form has few arguments and no accessor
is a method that every record class has. -/
theorem Layout.admissible_iff {l : Layout} (h : Constructor.slots l ≤ maxParameterSlots) :
    l.Admissible ↔ (∀ c ∈ l.components, Accessor.isReserved c = false) ∧
      slotsOf (Rendering.shown l) ≤ maxArgumentSlots := by
  rw [← Rendering.toNat_parameterSlots_callType h]
  constructor
  · intro hadmissible
    exact ⟨hadmissible.unreserved, hadmissible.argumentSlots⟩
  · rintro ⟨hunreserved, harguments⟩
    exact ⟨hunreserved, h, harguments⟩

/-- With valid settings, the class of a record type is made exactly if its layout is admissible and
its texts fit. -/
theorem exists_ofType_iff {s : Settings} {type : Schema.RecordType} (hs : s.fault? = none) :
    (∃ artifact, Artifact.ofType s type = .ok artifact) ↔
      (Layout.ofType s type).Admissible ∧ ∀ text ∈ (Layout.ofType s type).texts, Fits text := by
  constructor
  · rintro ⟨artifact, h⟩
    obtain ⟨bytes, hcompile, -⟩ := Artifact.ofType_eq_ok h
    have hadmissible := Layout.admissible_of_compile hcompile
    obtain ⟨_, -, hfits⟩ | ⟨_, -, -, herror⟩ := Layout.compile_cases hadmissible
    · exact ⟨hadmissible, hfits⟩
    · cases hcompile.symm.trans herror
  · rintro ⟨hadmissible, hfits⟩
    exact exists_ofType hs hadmissible hfits

/-- **How making a record class ends.** It never fails for a fault of the class file other than a
text that is too long or a pool that is full, and no sum of slots is too large for its word, whatever
the settings and the type. With valid settings and at most 254 slots of parameters, the class is
made exactly if no accessor is one of the methods that every record class has, the components that
are not arrays take at most 200 slots, and every text is short enough to be stored; and the texts
are those in the pool of the class that is made. -/
theorem ofType_outcomes (s : Settings) (type : Schema.RecordType) :
    (∀ e, Artifact.ofType s type = .error (.classFile e) →
      (∃ length, e = .textTooLong length) ∨ ∃ limit, e = .poolFull limit) ∧
    (∀ a ∈ (Layout.ofType s type).additions, a.IsExact) ∧
    (s.fault? = none → slotsOf (Layout.ofType s type).components ≤ 254 →
      ((∃ artifact, Artifact.ofType s type = .ok artifact) ↔
        (∀ c ∈ (Layout.ofType s type).components,
          (c.name, (Accessor.type c).descriptor) ≠ ("toString", "()Ljava/lang/String;") ∧
          (c.name, (Accessor.type c).descriptor) ≠ ("hashCode", "()I")) ∧
        slotsOf ((Layout.ofType s type).components.filter fun c => !c.type.isArray) ≤ 200 ∧
        ∀ text ∈ (Layout.ofType s type).texts, ModifiedUtf8.encodedLength text ≤ 65535)) ∧
    ∀ artifact, Artifact.ofType s type = .ok artifact →
      ∃ image, Image.parse artifact.bytes = .ok image ∧
        ∀ text, (∃ i, image.constants.utf8 i = .ok text) ↔
          text ∈ (Layout.ofType s type).texts := by
  refine ⟨fun e herror => ?_, Layout.isExact_additions _, fun hs hslots => ?_,
    fun artifact hartifact => ?_⟩
  · exact Error.isRefusal_iff.mp (Layout.isRefusal_of_compile (compile_of_ofType_error herror))
  · have hparameters : Constructor.slots (Layout.ofType s type) ≤ maxParameterSlots := by
      rw [Constructor.slots, foldl_slots, Nat.zero_add]
      exact hslots
    rw [exists_ofType_iff hs, Layout.admissible_iff hparameters, and_assoc]
    simp only [Accessor.isReserved_eq_false_iff]
    exact Iff.rfl
  · obtain ⟨bytes, hcompile, rfl⟩ := Artifact.ofType_eq_ok hartifact
    exact Layout.utf8_iff_of_compile hcompile

/-- A class with every shape of field is made. -/
theorem ofType_outcomes_measurement :
    Measurement.settings.fault? = none ∧
      slotsOf (Layout.ofType Measurement.settings Measurement.type).components ≤ 254 ∧
      ∃ artifact image, Artifact.ofType Measurement.settings Measurement.type = .ok artifact ∧
        Image.parse artifact.bytes = .ok image ∧
        (∃ i, image.constants.utf8 i = .ok "unit\x01") ∧
        ¬∃ i, image.constants.utf8 i = .ok "Measurement" := by
  obtain ⟨-, -, hmade, htexts⟩ := ofType_outcomes Measurement.settings Measurement.type
  have hs : Measurement.settings.fault? = none := by decide +kernel
  have hslots : slotsOf (Layout.ofType Measurement.settings Measurement.type).components ≤ 254 := by
    decide +kernel
  have hsizes : ∀ t ∈ (Layout.ofType Measurement.settings Measurement.type).texts,
      t.utf8ByteSize ≤ 10922 := by
    decide +kernel
  obtain ⟨artifact, hartifact⟩ := (hmade hs hslots).mpr ⟨by decide +kernel, by decide +kernel,
    fun text htext => fits_of_utf8ByteSize_le (hsizes text htext)⟩
  obtain ⟨image, hparse, himage⟩ := htexts artifact hartifact
  refine ⟨hs, hslots, artifact, image, hartifact, hparse, ?_, ?_⟩
  · exact (himage _).mpr (by decide +kernel)
  · exact fun h => absurd ((himage _).mp h) (by decide +kernel)

end SchemaRecords.Record
