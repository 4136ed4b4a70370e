import SchemaRecords.Proofs.Schema.Occurrence
import SchemaRecords.Proofs.Schema.Registration

/-!
# The model of a document is what the document spells out

The walk over a document keeps a registry, and stops at the first fault. Its
result is nevertheless determined by the occurrences alone: the walk over a part
of a document succeeds exactly if the occurrences in that part are sound and
agree with what the registry holds, and then it adds their types to the
registry. That is `Takes`, and `record_eq_ok_iff`, `properties_eq_ok_iff` and
`resolve_eq_ok_iff` say so of each part of the walk. For a whole document it is
`Model.ofDocument_reads_occurrences`.
-/

namespace SchemaRecords.Schema

open SchemaRecords.Json (Node)

/-! ## Single definitions -/

namespace Discovery

theorem typeName_eq_ok_iff {title name : String} :
    typeName title = .ok name ↔ name = Naming.typeName title ∧ name ≠ "" := by
  unfold typeName
  dsimp only
  split
  · rename_i hempty
    constructor
    · intro h
      cases h
    · rintro ⟨rfl, hname⟩
      exact absurd (String.isEmpty_iff.1 hempty) hname
  · rename_i hname
    constructor
    · intro h
      cases h
      exact ⟨rfl, fun h => hname (String.isEmpty_iff.2 h)⟩
    · rintro ⟨rfl, -⟩
      rfl

theorem nameOf_eq_ok_iff {definition : Node} {fallback name : String} :
    nameOf definition fallback = .ok name ↔
      Document.IsTitled definition ∧ name = Document.nameOf definition fallback ∧ name ≠ "" := by
  unfold nameOf title? Document.nameOf Document.IsTitled
  cases definition.get? "title" with
  | none => simpa using typeName_eq_ok_iff
  | some title => cases title <;> simp [Node.text?, typeName_eq_ok_iff]

theorem fieldOf_eq_ok_iff {owner key field : String} {before : List Property} :
    fieldOf owner key before = .ok field ↔
      field = Naming.fieldName key ∧ field ≠ "" ∧
        ∀ p ∈ before, p.key ≠ key ∧ p.field ≠ field := by
  unfold fieldOf
  dsimp only
  split
  · rename_i hkey
    obtain ⟨p, hp, hsame⟩ := List.any_eq_true.1 hkey
    constructor
    · intro h
      cases h
    · rintro ⟨-, -, hapart⟩
      exact absurd (beq_iff_eq.1 hsame) (hapart p hp).1
  rename_i hkeys
  split
  · rename_i hempty
    constructor
    · intro h
      cases h
    · rintro ⟨rfl, hname, -⟩
      exact absurd (String.isEmpty_iff.1 hempty) hname
  rename_i hname
  split
  · rename_i hfield
    obtain ⟨p, hp, hsame⟩ := List.any_eq_true.1 hfield
    constructor
    · intro h
      cases h
    · rintro ⟨rfl, -, hapart⟩
      exact absurd (beq_iff_eq.1 hsame) (hapart p hp).2
  · rename_i hfields
    simp only [Bool.not_eq_true, List.any_eq_false, beq_iff_eq] at hkeys hfields
    constructor
    · intro h
      cases h
      exact ⟨rfl, fun h => hname (String.isEmpty_iff.2 h), fun p hp => ⟨hkeys p hp, hfields p hp⟩⟩
    · rintro ⟨rfl, -, -⟩
      rfl

/-- How a definition is resolved depends on its form. -/
theorem resolve_eq (root owner fallback : String) (definition : Node) (r : Registry) :
    resolve root owner fallback definition r =
      match Document.formOf definition with
      | .object =>
        match nameOf definition fallback with
        | .error e => .error e
        | .ok name => (record root name definition r).map fun r => (.reference name, r)
      | .arrayOf items =>
        (resolve root owner s!"{owner}_item" (.object items) r).map fun found =>
          (.array found.1, found.2)
      | .array => .ok (.array .generic, r)
      | .scalar kind => .ok (.scalar kind ((definition.get? "format").bind Node.text?), r)
      | .other => .ok (.generic, r) := by
  rw [resolve]
  split
  · rename_i htype
    have hform : Document.formOf definition = .object := by simp [Document.formOf, htype]
    rw [hform]
    dsimp only
    cases nameOf definition fallback with
    | error e => rfl
    | ok name =>
      dsimp only
      cases record root name definition r <;> rfl
  · rename_i htype
    split
    · rename_i items hitems
      have hform : Document.formOf definition = .arrayOf items := by
        simp [Document.formOf, htype, hitems]
      rw [hform]
      dsimp only
      cases resolve root owner s!"{owner}_item" (.object items) r <;> rfl
    · rename_i hitems
      have hform : Document.formOf definition = .array := by
        simp only [Document.formOf, htype]
      rw [hform]
  · rename_i kind hobject harray htype
    have hform : Document.formOf definition = .scalar kind := by
      simp [Document.formOf, htype]
    rw [hform]
  · rename_i hobject harray hkind
    have hform : Document.formOf definition = .other := by
      simp only [Document.formOf]
    rw [hform]

/-- A property is resolved if it has a definition. -/
theorem property_eq_ok_iff {root owner key : String} {definition : Node} {r : Registry}
    {found : PropertyType × Registry} :
    property root owner key definition r = .ok found ↔
      Document.IsDefinition definition ∧
        resolve root owner s!"{root}_{key}" definition r = .ok found := by
  rw [property.eq_def]
  cases definition with
  | null => simp [Document.IsDefinition]
  | bool value =>
    rw [resolve_eq]
    simp [Document.IsDefinition, Document.formOf, Node.get?]
  | number value => simp [Document.IsDefinition]
  | string text => simp [Document.IsDefinition]
  | array items => simp [Document.IsDefinition]
  | object entries => simp [Document.IsDefinition]

theorem finish_eq_ok_iff {name : String} {found : List Property} {r r' : Registry} :
    finish name found r = .ok r' ↔
      ∃ done, r.complete (.ofProperties name found) = (.ok done, r') := by
  unfold finish
  split
  · rename_i done r'' heq
    simp [heq]
  · rename_i heq
    simp [heq]

/-- A record type is entered, then its properties are read, and then it is completed. -/
theorem record_eq_ok_iff_properties {root name : String} {definition : Node} {r r' : Registry} :
    record root name definition r = .ok r' ↔
      name ∉ r.inProgress ∧ Document.HasPropertyList definition ∧
        ∃ found r'', properties root name (Document.entriesOf definition) [] (r.opened name) =
          .ok (found, r'') ∧ finish name found r'' = .ok r' := by
  rw [record]
  by_cases hname : name ∈ r.inProgress
  · rw [Registry.enter_of_mem hname]
    simp [hname]
  · rw [Registry.enter_of_not_mem hname]
    dsimp only
    split
    · rename_i hnone
      simp [hname, Document.HasPropertyList, Document.entriesOf, hnone, properties, and_assoc]
    · rename_i hnull
      simp [hname, Document.HasPropertyList, Document.entriesOf, hnull, properties, and_assoc]
    · rename_i entries hentries
      simp only [hname, Document.HasPropertyList, Document.entriesOf, hentries, not_false_eq_true,
        true_and]
      cases properties root name entries [] (r.opened name) with
      | error e => simp
      | ok out => simp [Prod.ext_iff, and_assoc]
    · rename_i other hnull hobject hother
      simp [Document.HasPropertyList, hother]

end Discovery

/-! ## Taking in occurrences -/

/-- The registry takes in occurrences, in order. -/
structure Takes (root : String) (r : Registry) (found : List Occurrence) (r' : Registry) : Prop where
  sound : ∀ o ∈ found, o.Sound
  agreeing : Agreeing (r.types ++ found.map (·.type root))
  result : r' = r.add (found.map (·.type root))

theorem Registry.Proper.agreeing {r : Registry} (h : r.Proper) : Agreeing r.types := by
  intro t ht t' ht' hsame
  obtain ⟨name, ht⟩ := h.mem_types.1 ht
  obtain ⟨name', ht'⟩ := h.mem_types.1 ht'
  rw [← h.named _ _ ht] at ht
  rw [← h.named _ _ ht', ← hsame, ht] at ht'
  exact Option.some.inj ht'

theorem agreeing_insert {types types' : List RecordType} {type : RecordType} :
    Agreeing (types ++ type :: types') ↔
      Agreeing (types ++ types') ∧ ∀ t ∈ types ++ types', t.name = type.name → t = type := by
  have hmem : ∀ {t}, t ∈ types ++ type :: types' ↔ t = type ∨ t ∈ types ++ types' := by
    intro t
    simp only [List.mem_append, List.mem_cons]
    exact or_left_comm
  constructor
  · intro h
    exact ⟨h.mono fun t ht => hmem.2 (.inr ht),
      fun t ht => h t (hmem.2 (.inr ht)) type (hmem.2 (.inl rfl))⟩
  · rintro ⟨h, htype⟩ t ht t' ht' hsame
    obtain heq | hold := hmem.1 ht
    · obtain heq' | hold' := hmem.1 ht'
      · rw [heq, heq']
      · rw [heq, htype t' hold' (hsame.symm.trans (heq ▸ rfl))]
    · obtain heq' | hold' := hmem.1 ht'
      · rw [heq', htype t hold (hsame.trans (heq' ▸ rfl))]
      · exact h t hold t' hold' hsame

section Takes

variable {root : String} {r r' : Registry}

theorem takes_nil (h : r.Proper) : Takes root r [] r' ↔ r' = r := by
  refine ⟨fun ht => ht.result, fun hr => ⟨by simp, ?_, hr⟩⟩
  simpa using h.agreeing

theorem Takes.proper {found : List Occurrence} (ht : Takes root r found r') (h : r.Proper) :
    r'.Proper :=
  ht.result ▸ h.add _

theorem Takes.inProgress {found : List Occurrence} (ht : Takes root r found r') :
    r'.inProgress = r.inProgress := by
  rw [ht.result, Registry.add_inProgress]

/-- Names of occurrences below those being built are not being built. -/
theorem name_not_mem_inProgress {found : List Occurrence} (hsound : ∀ o ∈ found, o.Sound)
    (hbelow : ∀ o ∈ found, r.inProgress ⊆ o.above) :
    ∀ t ∈ found.map (·.type root), t.name ∉ r.inProgress := by
  intro t ht
  obtain ⟨o, ho, rfl⟩ := List.mem_map.1 ht
  exact fun hname => (hsound o ho).unrepeated (hbelow o ho hname)

theorem takes_append (h : r.Proper) {found found' : List Occurrence}
    (hbelow : ∀ o ∈ found, r.inProgress ⊆ o.above) :
    Takes root r (found ++ found') r' ↔
      ∃ r'', Takes root r found r'' ∧ Takes root r'' found' r' := by
  constructor
  · rintro ⟨hsound, hagree, rfl⟩
    have hsound' : ∀ o ∈ found, o.Sound := fun o ho => hsound o (List.mem_append_left _ ho)
    rw [List.map_append, h.agreeing_append_iff (name_not_mem_inProgress hsound' hbelow)] at hagree
    refine ⟨_, ⟨hsound', hagree.1, rfl⟩, fun o ho => hsound o (List.mem_append_right _ ho),
      hagree.2, ?_⟩
    rw [List.map_append, Registry.add_append]
  · rintro ⟨_, ⟨hsound, hagree, rfl⟩, hsound', hagree', rfl⟩
    refine ⟨?_, ?_, ?_⟩
    · intro o ho
      exact (List.mem_append.1 ho).elim (hsound o) (hsound' o)
    · rw [List.map_append, h.agreeing_append_iff (name_not_mem_inProgress hsound hbelow)]
      exact ⟨hagree, hagree'⟩
    · rw [List.map_append, Registry.add_append]

/-- A record type is taken in after it was entered, all inside it was taken in, and it was
completed. -/
theorem takes_cons_iff (h : r.Proper) {o : Occurrence} {inner : List Occurrence}
    (ho : o.above = r.inProgress) (hbelow : ∀ c ∈ inner, o.path ⊆ c.above)
    (htitled : Document.IsTitled o.definition) (hnamed : o.name ≠ "") :
    Takes root r (o :: inner) r' ↔
      o.name ∉ r.inProgress ∧ Document.ListsProperties o.definition ∧
        ∃ r'', Takes root (r.opened o.name) inner r'' ∧
          ∃ done, r''.complete (o.type root) = (.ok done, r') := by
  constructor
  · rintro ⟨hsound, hagree, rfl⟩
    have hself := hsound o List.mem_cons_self
    have hopen : o.name ∉ r.inProgress := ho ▸ hself.unrepeated
    rw [List.map_cons, agreeing_insert] at hagree
    refine ⟨hopen, hself.properties, _,
      ⟨fun c hc => hsound c (List.mem_cons_of_mem _ hc), ?_, rfl⟩, ?_⟩
    · rw [Registry.types_opened]
      exact hagree.1
    · apply (h.exists_complete_iff hopen).2
      exact ⟨fun t ht => hagree.2 t (List.mem_append_left _ ht), rfl⟩
  · rintro ⟨hopen, hproperties, _, ⟨hsound, hagree, rfl⟩, hcomplete⟩
    obtain ⟨hfits, rfl⟩ := (h.exists_complete_iff hopen).1 hcomplete
    rw [Registry.types_opened] at hagree
    refine ⟨?_, ?_, rfl⟩
    · intro c hc
      obtain rfl | hc := List.mem_cons.1 hc
      · exact ⟨htitled, hnamed, hproperties, ho ▸ hopen⟩
      · exact hsound c hc
    · rw [List.map_cons, agreeing_insert]
      refine ⟨hagree, fun t ht hsame => ?_⟩
      obtain ht | ht := List.mem_append.1 ht
      · exact hfits t ht hsame
      · -- what is inside has another name
        obtain ⟨c, hc, rfl⟩ := List.mem_map.1 ht
        have hmem : c.name ∈ o.path := List.mem_append_right _ (List.mem_singleton.2 hsame)
        exact absurd (hbelow c hc hmem) (hsound c hc).unrepeated

end Takes

/-! ## The walk -/

theorem Occurrence.type_eq_ofProperties (root : String) (o : Occurrence) :
    .ofProperties o.name ((Document.entriesOf o.definition).map (Document.propertyOf root o.name)) =
      o.type root := by
  unfold RecordType.ofProperties Occurrence.type Occurrence.shape
  congr 1
  congr 1
  funext p q
  simp only [← String.not_lt, decide_not]

namespace Discovery

/-- The properties have other keys and fields than the entries. -/
def Apart (before : List Property) (entries : List (String × Node)) : Prop :=
  ∀ p ∈ before, ∀ entry ∈ entries, p.key ≠ entry.1 ∧ p.field ≠ Naming.fieldName entry.1

theorem apart_cons {before : List Property} {key field : String} {type : PropertyType}
    {definition : Node} {rest : List (String × Node)} (hfield : field = Naming.fieldName key) :
    (Document.AreProperties ((key, definition) :: rest) ∧ Apart before ((key, definition) :: rest)) ↔
      (field ≠ "" ∧ ∀ p ∈ before, p.key ≠ key ∧ p.field ≠ field) ∧ Document.IsDefinition definition ∧
        Document.AreProperties rest ∧ Apart (⟨key, field, type⟩ :: before) rest := by
  subst hfield
  simp only [Document.areProperties_cons, Apart, List.forall_mem_cons]
  constructor
  · rintro ⟨⟨hname, hdefined, hapart, hrest⟩, hbefore⟩
    exact ⟨⟨hname, fun p hp => (hbefore p hp).1⟩, hdefined, hrest, hapart,
      fun p hp => (hbefore p hp).2⟩
  · rintro ⟨⟨hname, hbefore⟩, hdefined, hrest, hapart, hbefore'⟩
    exact ⟨⟨hname, hdefined, hapart, hrest⟩, fun p hp => ⟨hbefore p hp, hbefore' p hp⟩⟩

theorem map_eq_ok_iff {α β ε : Type} {f : α → β} {x : Except ε α} {b : β} :
    x.map f = .ok b ↔ ∃ a, x = .ok a ∧ f a = b := by
  cases x <;> simp [Except.map]

/-- What occurs in a definition is below all that is being built. -/
theorem above_of_mem_toList {above : List String} {root owner fallback : String} {definition : Node}
    {o : Occurrence}
    (h : o ∈ (Document.occurrenceIn? above owner fallback definition).toList.flatMap
      (Occurrence.inside root)) : above ⊆ o.above := by
  obtain ⟨c, hc, ho⟩ := List.mem_flatMap.1 h
  rw [← Document.above_of_occurrenceIn? (Option.mem_toList.1 hc)]
  exact Occurrence.above_subset_of_mem ho

theorem ok_iff_takes_nil {root : String} {r r' : Registry} (h : r.Proper) {type type' : PropertyType} :
    (.ok (type', r) : Except Error (PropertyType × Registry)) = .ok (type, r') ↔
      type = type' ∧ Takes root r [] r' := by
  rw [takes_nil h, Except.ok.injEq, Prod.mk.injEq]
  exact and_congr eq_comm eq_comm

-- The induction is on the size of the document, as the walk is.
mutual

theorem record_eq_ok_iff {root name : String} {definition : Node} {r r' : Registry} (h : r.Proper)
    (htitled : Document.IsTitled definition) (hnamed : name ≠ "") :
    record root name definition r = .ok r' ↔
      Takes root r ((⟨r.inProgress, name, definition⟩ : Occurrence).inside root) r' := by
  rw [record_eq_ok_iff_properties, Occurrence.inside_eq,
    takes_cons_iff h rfl (fun c hc => Occurrence.path_subset_of_mem hc) htitled hnamed,
    Document.listsProperties_iff]
  constructor
  · rintro ⟨hname, hlist, found, r'', hfound, hfinish⟩
    obtain ⟨⟨hare, -⟩, rfl, htakes⟩ := (properties_eq_ok_iff (h.opened name)).1 hfound
    refine ⟨hname, ⟨hlist, hare⟩, r'', htakes, ?_⟩
    rw [← Occurrence.type_eq_ofProperties]
    exact finish_eq_ok_iff.1 hfinish
  · rintro ⟨hname, ⟨hlist, hare⟩, r'', htakes, hcomplete⟩
    rw [← Occurrence.type_eq_ofProperties] at hcomplete
    refine ⟨hname, hlist, _, r'', (properties_eq_ok_iff (h.opened name)).2 ⟨⟨hare, ?_⟩, rfl, htakes⟩,
      finish_eq_ok_iff.2 hcomplete⟩
    exact fun p hp => absurd hp List.not_mem_nil
termination_by (sizeOf definition, 1)
decreasing_by
  all_goals
    obtain hlt | heq := Nat.lt_or_eq_of_le (Document.sizeOf_entriesOf_le definition)
    · exact Prod.Lex.left _ _ hlt
    · rw [heq]
      exact Prod.Lex.right _ (by omega)

theorem properties_eq_ok_iff {root owner : String} {entries : List (String × Node)}
    {before found : List Property} {r r' : Registry} (h : r.Proper) :
    properties root owner entries before r = .ok (found, r') ↔
      (Document.AreProperties entries ∧ Apart before entries) ∧
        found = before.reverse ++ entries.map (Document.propertyOf root owner) ∧
        Takes root r ((Document.occurrencesIn root r.inProgress owner entries).flatMap
          (Occurrence.inside root)) r' := by
  match entries with
  | [] =>
    have hapart : Document.AreProperties [] ∧ Apart before [] :=
      ⟨Document.areProperties_nil, fun p _ entry hentry => absurd hentry List.not_mem_nil⟩
    rw [properties, and_iff_right hapart]
    show _ ↔ _ ∧ Takes root r [] r'
    rw [takes_nil h, List.map_nil, List.append_nil, Except.ok.injEq, Prod.mk.injEq]
    exact and_congr eq_comm eq_comm
  | (key, definition) :: rest =>
    rw [properties, Document.occurrencesIn_cons, List.flatMap_append,
      takes_append h fun o ho => above_of_mem_toList ho, apart_cons rfl]
    constructor
    · intro hok
      split at hok
      · cases hok
      rename_i field hfield
      split at hok
      · cases hok
      rename_i type r'' hproperty
      obtain ⟨rfl, hfield⟩ := fieldOf_eq_ok_iff.1 hfield
      obtain ⟨hdefined, hresolve⟩ := property_eq_ok_iff.1 hproperty
      obtain ⟨rfl, htakes⟩ := (resolve_eq_ok_iff h).1 hresolve
      obtain ⟨happart, rfl, hrest⟩ := (properties_eq_ok_iff (htakes.proper h)).1 hok
      rw [htakes.inProgress] at hrest
      exact ⟨⟨hfield, hdefined, happart⟩, by simp [Document.propertyOf], r'', htakes, hrest⟩
    · rintro ⟨⟨hfield, hdefined, hapart⟩, rfl, r'', htakes, hrest⟩
      rw [fieldOf_eq_ok_iff.2 ⟨rfl, hfield⟩]
      dsimp only
      rw [property_eq_ok_iff.2 ⟨hdefined, (resolve_eq_ok_iff h).2 ⟨rfl, htakes⟩⟩]
      dsimp only
      rw [← htakes.inProgress] at hrest
      exact (properties_eq_ok_iff (htakes.proper h)).2
        ⟨hapart, by simp [Document.propertyOf], hrest⟩
termination_by (sizeOf entries, 0)
decreasing_by
  · exact Prod.Lex.left _ _ (by simp only [List.cons.sizeOf_spec, Prod.mk.sizeOf_spec]; omega)
  · exact Prod.Lex.left _ _ (by simp only [List.cons.sizeOf_spec]; omega)
  · exact Prod.Lex.left _ _ (by simp only [List.cons.sizeOf_spec, Prod.mk.sizeOf_spec]; omega)
  · exact Prod.Lex.left _ _ (by simp only [List.cons.sizeOf_spec]; omega)

theorem resolve_eq_ok_iff {root owner fallback : String} {definition : Node} {r r' : Registry}
    (h : r.Proper) {type : PropertyType} :
    resolve root owner fallback definition r = .ok (type, r') ↔
      type = Document.typeOf owner fallback definition ∧
        Takes root r ((Document.occurrenceIn? r.inProgress owner fallback definition).toList.flatMap
          (Occurrence.inside root)) r' := by
  rw [resolve_eq, Document.typeOf_eq, Document.occurrenceIn?, Document.objectIn?_eq]
  cases hform : Document.formOf definition with
  | object =>
    dsimp only
    rw [Option.map_some, Option.toList_some, List.flatMap_singleton]
    constructor
    · intro hok
      split at hok
      · cases hok
      rename_i name hname
      obtain ⟨r'', hrecord, heq⟩ := map_eq_ok_iff.1 hok
      obtain ⟨rfl, rfl⟩ := Prod.mk.inj heq
      obtain ⟨htitled, rfl, hnamed⟩ := nameOf_eq_ok_iff.1 hname
      exact ⟨rfl, (record_eq_ok_iff h htitled hnamed).1 hrecord⟩
    · rintro ⟨rfl, htakes⟩
      have hself := htakes.sound _ (Occurrence.mem_inside_self root _)
      rw [nameOf_eq_ok_iff.2 ⟨hself.titled, rfl, hself.named⟩]
      exact map_eq_ok_iff.2 ⟨r', (record_eq_ok_iff h hself.titled hself.named).2 htakes, rfl⟩
  | arrayOf items =>
    dsimp only
    rw [map_eq_ok_iff]
    constructor
    · rintro ⟨⟨element, r''⟩, hitems, heq⟩
      obtain ⟨rfl, rfl⟩ := Prod.mk.inj heq
      obtain ⟨rfl, htakes⟩ := (resolve_eq_ok_iff h).1 hitems
      exact ⟨rfl, htakes⟩
    · rintro ⟨rfl, htakes⟩
      exact ⟨_, (resolve_eq_ok_iff h).2 ⟨rfl, htakes⟩, rfl⟩
  | array => exact ok_iff_takes_nil h
  | scalar kind => exact ok_iff_takes_nil h
  | other => exact ok_iff_takes_nil h
termination_by (sizeOf definition, 2)
decreasing_by
  · exact Prod.Lex.right _ (by omega)
  · exact Prod.Lex.right _ (by omega)
  · exact Prod.Lex.left _ _ (Document.sizeOf_items hform)
  · exact Prod.Lex.left _ _ (Document.sizeOf_items hform)

end

end Discovery

/-! ## Models -/

namespace Document

/-- The first type is that of the root. -/
theorem exists_types_eq_root_cons (document : Node) :
    ∃ nested, types document = (rootOf document).type (rootName document) :: nested := by
  rw [types, occurrences, Occurrence.inside_eq, List.map_cons, List.eraseDups_cons]
  exact ⟨_, rfl⟩

theorem exists_types_eq_cons (document : Node) :
    ∃ first nested, types document = first :: nested :=
  ⟨_, exists_types_eq_root_cons document⟩

theorem agreeing_types_iff {root : String} {found : List Occurrence} :
    Agreeing (found.map (·.type root)) ↔
      ∀ o ∈ found, ∀ o' ∈ found, o.name = o'.name → o.shape root = o'.shape root := by
  unfold Agreeing
  simp only [List.forall_mem_map]
  constructor
  · intro h o ho o' ho' hsame
    exact congrArg RecordType.properties (h o ho o' ho' hsame)
  · intro h o ho o' ho' hsame
    have hname : o.name = o'.name := hsame
    rw [Occurrence.type, Occurrence.type, h o ho o' ho' hname, hname]

/-- A well-formed document is one whose occurrences an empty registry takes in. -/
theorem wellFormed_iff {document : Node} :
    WellFormed document ↔
      (∃ entries, document = .object entries) ∧
        ∃ r, Takes (rootName document) Registry.empty (occurrences document) r := by
  constructor
  · rintro ⟨hobject, hsound, hagree⟩
    exact ⟨hobject, _, hsound, agreeing_types_iff.2 hagree, rfl⟩
  · rintro ⟨hobject, r, hsound, hagree, -⟩
    exact ⟨hobject, hsound, agreeing_types_iff.1 hagree⟩

end Document

theorem Takes.types_eq {document : Node} {r : Registry}
    (h : Takes (Document.rootName document) Registry.empty (Document.occurrences document) r) :
    r.types = Document.types document := by
  rw [h.result]
  have hempty : Registry.empty.types = [].eraseDups := rfl
  exact Registry.proper_empty.types_add (fun t _ => List.not_mem_nil) h.agreeing hempty

/-- The walk gives a model if an empty registry takes in what occurs in the document. -/
theorem Model.ofDocument_eq_ok_iff_takes {document : Node} {model : Model} :
    ofDocument document = .ok model ↔
      (∃ entries, document = .object entries) ∧
        ∃ r, Takes (Document.rootName document) Registry.empty (Document.occurrences document) r ∧
          r.types = model.types := by
  constructor
  · intro hok
    unfold ofDocument at hok
    split at hok
    · cases hok
    rename_i entries hentries
    split at hok
    · cases hok
    rename_i root hroot
    split at hok
    · cases hok
    rename_i r hrecord
    split at hok
    · cases hok
    rename_i first nested htypes
    cases hok
    obtain ⟨htitled, rfl, hnamed⟩ := Discovery.nameOf_eq_ok_iff.1 hroot
    refine ⟨?_, r, ?_, htypes⟩
    · cases document <;> simp_all [Node.entries?]
    · exact (Discovery.record_eq_ok_iff Registry.proper_empty htitled hnamed).1 hrecord
  · rintro ⟨⟨entries, rfl⟩, r, htakes, htypes⟩
    have hroot := htakes.sound _ (Occurrence.mem_inside_self _ _)
    have hname : Discovery.nameOf (.object entries) Discovery.defaultTitle =
        .ok (Document.rootName (.object entries)) :=
      Discovery.nameOf_eq_ok_iff.2 ⟨hroot.titled, rfl, hroot.named⟩
    have hrecord : Discovery.record (Document.rootName (.object entries))
        (Document.rootName (.object entries)) (.object entries) Registry.empty = .ok r :=
      (Discovery.record_eq_ok_iff Registry.proper_empty hroot.titled hroot.named).2 htakes
    unfold ofDocument
    simp only [Node.entries?, hname, hrecord, htypes, types]

/-- The walk gives the types of a well-formed document. -/
theorem Model.ofDocument_eq_ok_iff {document : Node} {model : Model} :
    ofDocument document = .ok model ↔
      Document.WellFormed document ∧ model.types = Document.types document := by
  rw [ofDocument_eq_ok_iff_takes, Document.wellFormed_iff, and_assoc]
  refine and_congr_right fun _ => ?_
  rw [← exists_and_right]
  refine exists_congr fun r => and_congr_right fun htakes => ?_
  rw [htakes.types_eq]
  exact eq_comm

/-- **The model of a document is what the document spells out.** There is a model exactly if the
document is well-formed, and then its types are those that occur, in the order in which they
first occur. -/
theorem Model.ofDocument_reads_occurrences (document : Node) :
    ((∃ model, ofDocument document = .ok model) ↔ Document.WellFormed document) ∧
      ∀ model, ofDocument document = .ok model ↔
        Document.WellFormed document ∧ model.types = Document.types document := by
  refine ⟨?_, fun model => ofDocument_eq_ok_iff⟩
  constructor
  · rintro ⟨model, hmodel⟩
    exact (ofDocument_eq_ok_iff.1 hmodel).1
  · intro hwell
    -- the root occurs, so there is a first type
    obtain ⟨first, nested, htypes⟩ := Document.exists_types_eq_cons document
    exact ⟨⟨first, nested⟩, ofDocument_eq_ok_iff.2 ⟨hwell, htypes.symm⟩⟩

end SchemaRecords.Schema
