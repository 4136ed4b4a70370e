import SchemaRecords.Json.Deserializer
import SchemaRecords.Proofs.Json.Grammar

/-!
# Documents from reports

What a report means is said without the visitor: `Report.StandsFor` relates it to
the value whose parts it reports, and `Report.Breaks` holds if reading failed
somewhere in it. The visitor builds the value in the first case
(`Report.StandsFor.visit_eq`) and fails in the second (`Report.Breaks.exists_error`).

`Deserializer.FollowsJson` is what is expected of a library that reads JSON: it
reports the value of every text that is nested at most 127 deep, and breaks off
where a text is nested deeper.
-/

namespace SchemaRecords.Json

open Grammar

namespace Report

variable {ε : Type}

/-! ## Reports of values -/

/-- The report is that of a value, with all its parts in order. -/
inductive StandsFor : Report ε → Node → Prop where
  | unit : StandsFor unit .null
  | absent : StandsFor absent .null
  | present {inner : Report ε} {node : Node} (h : StandsFor inner node) :
      StandsFor (present inner) node
  | bool (value : Bool) : StandsFor (bool value) (.bool value)
  | negative {value : Int64} (h : value < 0) : StandsFor (signed value) (.number (.negative value))
  | nonnegative {value : Int64} (h : ¬value < 0) :
      StandsFor (signed value) (.number (.natural value.toUInt64))
  | unsigned (value : UInt64) : StandsFor (unsigned value) (.number (.natural value))
  | borrowed (text : String) : StandsFor (borrowed text) (.string text)
  | owned (text : String) : StandsFor (owned text) (.string text)
  | list {parts : List (Report ε × Node)} (h : ∀ p ∈ parts, StandsFor p.1 p.2) :
      StandsFor (list (parts.map fun p => p.1) none) (.array (parts.map fun p => p.2))
  /-- Every entry keeps its key. -/
  | map {parts : List (String × Report ε × Node)} (h : ∀ p ∈ parts, StandsFor p.2.1 p.2.2) :
      StandsFor (map (parts.map fun p => (p.1, p.2.1)) none)
        (.object (parts.map fun p => (p.1, p.2.2)))

section Loops

variable {custom : String → ε}

theorem visitItems_eq {parts : List (Report ε × Node)}
    (h : ∀ p ∈ parts, p.1.visit custom = .ok p.2) (done : Array Node) :
    visitItems custom (parts.map fun p => p.1) none done
      = .ok (.array (done.toList ++ parts.map fun p => p.2)) := by
  induction parts generalizing done with
  | nil => simp [visitItems]
  | cons p parts ih =>
    rw [List.map_cons, visitItems, h p List.mem_cons_self]
    show visitItems custom _ none _ = _
    rw [ih fun p hp => h p (List.mem_cons_of_mem _ hp)]
    simp

theorem visitEntries_eq {parts : List (String × Report ε × Node)}
    (h : ∀ p ∈ parts, p.2.1.visit custom = .ok p.2.2) (done : Array (String × Node)) :
    visitEntries custom (parts.map fun p => (p.1, p.2.1)) none done
      = .ok (.object (done.toList ++ parts.map fun p => (p.1, p.2.2))) := by
  induction parts generalizing done with
  | nil => simp [visitEntries]
  | cons p parts ih =>
    rw [List.map_cons, visitEntries, h p List.mem_cons_self]
    show visitEntries custom _ none _ = _
    rw [ih fun p hp => h p (List.mem_cons_of_mem _ hp)]
    simp

end Loops

/-- The visitor builds the value that a report stands for. -/
theorem StandsFor.visit_eq {report : Report ε} {node : Node} (h : report.StandsFor node)
    (custom : String → ε) : report.visit custom = .ok node := by
  induction h with
  | unit => rfl
  | absent => rfl
  | present _ ih =>
    rw [visit]
    exact ih
  | bool value => rfl
  | negative hv =>
    rw [visit, Number.ofInt64, if_pos hv]
  | nonnegative hv =>
    rw [visit, Number.ofInt64, if_neg hv]
  | unsigned value => rfl
  | borrowed text => rfl
  | owned text => rfl
  | list _ ih =>
    rw [visit, visitItems_eq ih]
    rfl
  | map _ ih =>
    rw [visit, visitEntries_eq ih]
    rfl

/-! ## Reports that break off -/

/-- Reading failed somewhere in the value. -/
inductive Breaks : Report ε → Prop where
  | refused (e : ε) : Breaks (refused e)
  | present {inner : Report ε} (h : Breaks inner) : Breaks (present inner)
  | listEnd (items : List (Report ε)) (e : ε) : Breaks (list items (some e))
  | item {items : List (Report ε)} {failure : Option ε} {item : Report ε} (hmem : item ∈ items)
      (h : Breaks item) : Breaks (list items failure)
  | mapEnd (entries : List (String × Report ε)) (e : ε) : Breaks (map entries (some e))
  | entry {entries : List (String × Report ε)} {failure : Option ε} {entry : String × Report ε}
      (hmem : entry ∈ entries) (h : Breaks entry.2) : Breaks (map entries failure)

section Loops

variable {custom : String → ε}

/-- A list fails at its end, or at one of its items, if not before. -/
theorem exists_visitItems_error {items : List (Report ε)} {failure : Option ε}
    (h : failure.isSome ∨ ∃ item ∈ items, ∃ e, item.visit custom = .error e) (done : Array Node) :
    ∃ e, visitItems custom items failure done = .error e := by
  induction items generalizing done with
  | nil =>
    obtain hfailure | ⟨_, hmem, -⟩ := h
    · obtain ⟨e, rfl⟩ := Option.isSome_iff_exists.1 hfailure
      exact ⟨e, rfl⟩
    · cases hmem
  | cons first items ih =>
    rw [visitItems]
    cases hfirst : first.visit custom with
    | error e => exact ⟨e, rfl⟩
    | ok node =>
      refine ih (h.imp id fun ⟨item, hmem, e, he⟩ => ?_) (done.push node)
      obtain rfl | hmem := List.mem_cons.1 hmem
      · exact nomatch hfirst.symm.trans he
      · exact ⟨item, hmem, e, he⟩

theorem exists_visitEntries_error {entries : List (String × Report ε)} {failure : Option ε}
    (h : failure.isSome ∨ ∃ entry ∈ entries, ∃ e, entry.2.visit custom = .error e)
    (done : Array (String × Node)) : ∃ e, visitEntries custom entries failure done = .error e := by
  induction entries generalizing done with
  | nil =>
    obtain hfailure | ⟨_, hmem, -⟩ := h
    · obtain ⟨e, rfl⟩ := Option.isSome_iff_exists.1 hfailure
      exact ⟨e, rfl⟩
    · cases hmem
  | cons first entries ih =>
    rw [visitEntries]
    cases hfirst : first.2.visit custom with
    | error e => exact ⟨e, rfl⟩
    | ok node =>
      refine ih (h.imp id fun ⟨entry, hmem, e, he⟩ => ?_) (done.push (first.1, node))
      obtain rfl | hmem := List.mem_cons.1 hmem
      · exact nomatch hfirst.symm.trans he
      · exact ⟨entry, hmem, e, he⟩

end Loops

/-- The visitor fails if reading did. -/
theorem Breaks.exists_error {report : Report ε} (h : report.Breaks) (custom : String → ε) :
    ∃ e, report.visit custom = .error e := by
  induction h with
  | refused e => exact ⟨e, rfl⟩
  | present _ ih =>
    rw [visit]
    exact ih
  | listEnd items e => exact exists_visitItems_error (.inl rfl) #[]
  | item hmem _ ih => exact exists_visitItems_error (.inr ⟨_, hmem, ih⟩) #[]
  | mapEnd entries e => exact exists_visitEntries_error (.inl rfl) #[]
  | entry hmem _ ih => exact exists_visitEntries_error (.inr ⟨_, hmem, ih⟩) #[]

end Report

/-! ## Libraries that follow the grammar -/

namespace Deserializer

variable {ε : Type}

/-- The library reads JSON as its grammar has it, with arrays and objects nested at most 127
deep. -/
structure FollowsJson (d : Deserializer ε) : Prop where
  reads : ∀ {node : Node} {text : String}, node.IsExact → DocumentText node text.toList →
    node.depth ≤ 127 → (d.read text).1.StandsFor node ∧ (d.read text).2 = none
  limits : ∀ {node : Node} {text : String}, node.IsExact → DocumentText node text.toList →
    128 ≤ node.depth → (d.read text).1.Breaks ∨ (d.read text).2.isSome

theorem parse_of_standsFor {d : Deserializer ε} {text : String} {node : Node}
    (h : (d.read text).1.StandsFor node) (hend : (d.read text).2 = none) :
    d.parse text = .ok node := by
  rw [parse, h.visit_eq, hend]

theorem exists_parse_error {d : Deserializer ε} {text : String}
    (h : (d.read text).1.Breaks ∨ (d.read text).2.isSome) : ∃ e, d.parse text = .error e := by
  rw [parse]
  obtain hbreaks | hend := h
  · obtain ⟨e, he⟩ := hbreaks.exists_error d.custom
    exact ⟨e, by rw [he]⟩
  · obtain ⟨e, he⟩ := Option.isSome_iff_exists.1 hend
    cases (d.read text).1.visit d.custom with
    | error e' => exact ⟨e', rfl⟩
    | ok node => exact ⟨e, by rw [he]⟩

end Deserializer

end SchemaRecords.Json
