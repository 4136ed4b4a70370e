import SchemaRecords.Proofs.Json.Tokens
import SchemaRecords.Proofs.Json.Visitor

/-!
# Reading documents

The reader for values with room for `d` levels of arrays and objects reports a
value of depth at most `d` from each of its texts, and refuses a deeper one
because of its depth (`Answers`). This goes by induction on the room: lists of
items and of entries are read by a reader that has one level less
(`answers_array`, `answers_object`), and within them by induction on the list.

* `followsJson_deserializer`: the reader does what is expected of a library that
  reads JSON.
* `Deserializer.parse_documentText`: with any such library, documents are read from
  their texts.
-/

namespace SchemaRecords.Json

open Grammar

/-! ## Reports of values -/

namespace Node

mutual

/-- What is reported about a value. -/
def report : Node → Report Error
  | null => .unit
  | bool value => .bool value
  | number (.natural n) => .unsigned n
  | number (.negative n) => .signed n
  | number (.float bits) => .double bits
  | string text => .owned text
  | array items => .list (reportItems items) none
  | object entries => .map (reportEntries entries) none

/-- What is reported about each item. -/
def reportItems : List Node → List (Report Error)
  | [] => []
  | item :: rest => item.report :: reportItems rest

/-- What is reported about each entry. -/
def reportEntries : List (String × Node) → List (String × Report Error)
  | [] => []
  | (key, value) :: rest => (key, value.report) :: reportEntries rest

end

theorem reportItems_eq (items : List Node) : reportItems items = items.map report := by
  induction items with
  | nil => rfl
  | cons item items ih => rw [reportItems, ih, List.map_cons]

theorem reportEntries_eq (entries : List (String × Node)) :
    reportEntries entries = entries.map fun entry => (entry.1, entry.2.report) := by
  induction entries with
  | nil => rfl
  | cons entry entries ih => rw [reportEntries, ih, List.map_cons]

theorem standsFor_report {node : Node} (h : node.IsExact) : node.report.StandsFor node := by
  induction h with
  | null => exact .unit
  | bool value => exact .bool value
  | natural n => exact .unsigned n
  | negative h => exact .negative h
  | string text => exact .owned text
  | @array items _ ih =>
    have hlist : (Report.list _ none).StandsFor (.array _) := .list fun p hp => by
      obtain ⟨item, hitem, rfl⟩ := (List.mem_map (f := fun item => (report item, item))).1 hp
      exact ih item hitem
    rw [report, reportItems_eq]
    simpa [Function.comp_def] using hlist
  | @object entries _ ih =>
    have hmap : (Report.map _ none).StandsFor (.object _) := .map fun p hp => by
      obtain ⟨entry, hentry, rfl⟩ := (List.mem_map (f := fun entry : String × Node =>
        (entry.1, entry.2.report, entry.2))).1 hp
      exact ih entry hentry
    rw [report, reportEntries_eq]
    simpa [Function.comp_def] using hmap

end Node

/-! ## Answers -/

/-- What a reader with room for `d` levels makes of a text whose value is of the given depth and
has this report, before `rest`. -/
structure Answers (d depth : Nat) (report : Report Error) (rest : List Char)
    (answer : Except Failure (Report Error × List Char)) : Prop where
  ok : depth ≤ d → answer = .ok (report, rest)
  tooDeep : d < depth → ∃ e, answer = .error e ∧ e.cause = .tooDeep

/-- The reader passes over blanks and reads every value whose text has at most `fuel`
characters. -/
structure ReadsValues (item : ValueReader) (fuel d : Nat) : Prop where
  skips : ∀ {blank : List Char} (text : List Char), IsBlank blank →
    item (blank ++ text) = item text
  answers : ∀ {node : Node} {text rest : List Char}, ValueText node text → text.length ≤ fuel →
    Ends rest → Answers d node.depth node.report rest (item (text ++ rest))

theorem Answers.succ {d depth : Nat} {report : Report Error} {rest : List Char}
    {answer : Except Failure (Report Error × List Char)} (h : Answers d depth report rest answer) :
    Answers (d + 1) (depth + 1) report rest answer :=
  ⟨fun hle => h.ok (by omega), fun hlt => h.tooDeep (by omega)⟩

theorem Answers.of_ok {d depth : Nat} {report : Report Error} {rest : List Char}
    {answer : Except Failure (Report Error × List Char)} (h : answer = .ok (report, rest))
    (hdepth : depth = 0) : Answers d depth report rest answer :=
  ⟨fun _ => h, fun hlt => by omega⟩

/-- A list whose first item has the depth `j`, and whose other items have at most the depth `k`. -/
theorem Answers.first {d j k : Nat} {report : Report Error} {rest : List Char}
    {answer : Except Failure (Report Error × List Char)} (hothers : j ≤ d → Answers d k report rest answer)
    (hfirst : d < j → ∃ e, answer = .error e ∧ e.cause = .tooDeep) :
    Answers d (max j k) report rest answer := by
  refine ⟨fun hle => (hothers (by omega)).ok (by omega), fun hlt => ?_⟩
  by_cases hj : j ≤ d
  · exact (hothers hj).tooDeep (by omega)
  · exact hfirst (by omega)

/-! ## What may follow a value -/

theorem ends_of_isBlank {blank rest : List Char} (h : IsBlank blank) (hrest : Ends rest) :
    Ends (blank ++ rest) := by
  cases blank with
  | nil => exact hrest
  | cons c blank =>
    rintro _ ⟨⟩
    have hc := h c (by simp)
    simp only [List.mem_cons, List.not_mem_nil, or_false] at hc ⊢
    rcases hc with rfl | rfl | rfl | rfl <;> simp

theorem ends_cons {c : Char} (h : c ∈ [',', ']', '}']) (rest : List Char) : Ends (c :: rest) := by
  rintro _ ⟨⟩
  simp only [List.mem_cons, List.not_mem_nil, or_false] at h ⊢
  rcases h with rfl | rfl | rfl <;> simp

namespace Parse

theorem skip_append_cons {blank : List Char} (h : IsBlank blank) {c : Char}
    (hc : isBlank c = false) (rest : List Char) : skip (blank ++ c :: rest) = c :: rest := by
  rw [skip_append h, skip_cons hc]

/-! ## Single values -/

theorem isBlank_of_isDigit {c : Char} (h : Numeral.isDigit c = true) : isBlank c = false := by
  rw [← Bool.not_eq_true, isBlank_iff]
  intro hc
  simp only [List.mem_cons, List.not_mem_nil, or_false] at hc
  rcases hc with rfl | rfl | rfl | rfl <;> simp [Numeral.isDigit] at h

theorem exists_digit (n : Nat) :
    ∃ c digits, Nat.toDigits 10 n = c :: digits ∧ Numeral.isDigit c = true := by
  obtain ⟨c, digits, h⟩ := List.exists_cons_of_ne_nil (Nat.toDigits_ne_nil (b := 10) (n := n))
  refine ⟨c, digits, h, ?_⟩
  exact Nat.isDigit_of_mem_toDigits (b := 10) (n := n) (by omega) (by omega) (by simp [h])

/-- A value begins with a character that can be told from blanks and from the end of a list. -/
theorem exists_head {node : Node} {text : List Char} (h : ValueText node text) :
    ∃ c rest, text = c :: rest ∧ isBlank c = false ∧ c ≠ ']' := by
  cases h with
  | natural n =>
    obtain ⟨c, digits, hdigits, hc⟩ := exists_digit n.toNat
    refine ⟨c, digits, hdigits, isBlank_of_isDigit hc, ?_⟩
    rintro rfl
    cases hc
  | string h =>
    cases h with
    | quoted _ => exact ⟨_, _, rfl, rfl, by decide⟩
  | _ => exact ⟨_, _, rfl, rfl, by decide⟩

section Scalars

variable {readArray readObject : ValueReader} {rest : List Char}

/-- A digit begins a number. -/
theorem scalarOr_digit {c : Char} (h : Numeral.isDigit c = true) (text : List Char) :
    scalarOr readArray readObject (c :: text) = number false (c :: text) := by
  unfold scalarOr
  rw [skip_cons (isBlank_of_isDigit h)]
  split <;> simp_all [Numeral.isDigit]

theorem scalarOr_natural (n : UInt64) (hrest : Ends rest) :
    scalarOr readArray readObject (Nat.toDigits 10 n.toNat ++ rest)
      = .ok (.unsigned n, rest) := by
  have hread := Numeral.read_natural n hrest
  obtain ⟨c, digits, hdigits, hc⟩ := exists_digit n.toNat
  rw [hdigits, List.cons_append] at hread ⊢
  rw [scalarOr_digit hc, number, hread]

theorem scalarOr_negative {v : Int64} (hv : v < 0) (hrest : Ends rest) :
    scalarOr readArray readObject ('-' :: Nat.toDigits 10 v.toInt.natAbs ++ rest)
      = .ok (.signed v, rest) := by
  show number true (Nat.toDigits 10 v.toInt.natAbs ++ rest) = _
  rw [number, Numeral.read_negative hv hrest]

theorem scalarOr_string {s : String} {text : List Char} (h : StringText s text) :
    scalarOr readArray readObject (text ++ rest) = .ok (.owned s, rest) := by
  cases h with
  | @quoted body h =>
    have htext : '"' :: body ++ ['"'] ++ rest = '"' :: (body ++ '"' :: rest) := by simp
    rw [htext, scalarOr, skip_cons rfl]
    simp only [Quoted.read_charsText h rest]

end Scalars

/-! ## Arrays -/

section Items

variable {item : ValueReader} {report : Report Error} {text rest rest' : List Char}

theorem items_of_error {e : Failure} (h : item text = .error e) (n : Nat) (done : List (Report Error)) :
    items item (n + 1) done text = .error e := by
  rw [items, h]

theorem items_last (h : item text = .ok (report, rest)) (hrest : skip rest = ']' :: rest') (n : Nat)
    (done : List (Report Error)) :
    items item (n + 1) done text = .ok (.list (done.reverse ++ [report]) none, rest') := by
  rw [items, h]
  simp only
  rw [hrest]
  simp

theorem items_more {c : Char} {u : List Char} (h : item text = .ok (report, rest))
    (hrest : skip rest = ',' :: rest') (hrest' : skip rest' = c :: u) (hc : c ≠ ']') (n : Nat)
    (done : List (Report Error)) :
    items item (n + 1) done text = items item n (report :: done) (c :: u) := by
  rw [items, h]
  simp only
  rw [hrest]
  simp only
  rw [hrest']
  simp

end Items

variable {item : ValueReader} {fuel d : Nat}

/-- Items are read one after the other, until one is too deep. -/
theorem answers_items (h : ReadsValues item fuel d) {nodes : List Node} {text : List Char}
    (hlist : Listed ValueText nodes text) (hfuel : text.length ≤ fuel) {n : Nat}
    (hn : nodes.length ≤ n) (done : List (Report Error)) (rest : List Char) :
    ∃ c u, skip (text ++ ']' :: rest) = c :: u ∧ c ≠ ']' ∧
      Answers d (Node.depthItems nodes) (.list (done.reverse ++ Node.reportItems nodes) none) rest
        (items item n done (c :: u)) := by
  induction hlist generalizing n done with
  | @one node before text after hbefore hvalue hafter =>
    obtain ⟨n, rfl⟩ := Nat.exists_eq_succ_of_ne_zero (Nat.ne_of_gt hn)
    obtain ⟨c, u, rfl, hblank, hc⟩ := exists_head hvalue
    have hitem := h.answers hvalue (by simp at hfuel ⊢; omega)
      (ends_of_isBlank hafter (ends_cons (c := ']') (by simp) rest))
    refine ⟨c, u ++ (after ++ ']' :: rest), ?_, hc, ?_⟩
    · rw [List.append_assoc, List.append_assoc, skip_append hbefore]
      exact skip_cons hblank _
    · refine .first (fun hnode => .of_ok ?_ rfl) fun hdeep => ?_
      · exact items_last (hitem.ok hnode) (skip_append_cons hafter rfl rest) n done
      · obtain ⟨e, he, hcause⟩ := hitem.tooDeep hdeep
        exact ⟨e, items_of_error he n done, hcause⟩
  | @more node nodes before text after others hbefore hvalue hafter _ ih =>
    obtain ⟨n, rfl⟩ := Nat.exists_eq_succ_of_ne_zero (Nat.ne_zero_of_lt hn)
    obtain ⟨c, u, rfl, hblank, hc⟩ := exists_head hvalue
    have hitem := h.answers hvalue (by simp at hfuel ⊢; omega)
      (ends_of_isBlank hafter (ends_cons (c := ',') (by simp) (others ++ ']' :: rest)))
    -- a comma is always followed by an item, so the reader does not see a trailing one
    obtain ⟨c', u', hskip', hc', hothers⟩ := ih (by simp at hfuel ⊢; omega)
      (Nat.le_of_succ_le_succ hn) (node.report :: done)
    refine ⟨c, u ++ (after ++ ',' :: (others ++ ']' :: rest)), ?_, hc, ?_⟩
    · simp only [List.append_assoc, skip_append hbefore]
      exact skip_cons hblank _
    · refine .first (fun hnode => ?_) fun hdeep => ?_
      · have hmore := items_more (hitem.ok hnode) (skip_append_cons hafter rfl _) hskip' hc' n done
        rw [← List.cons_append, hmore]
        simpa [Node.reportItems] using hothers
      · obtain ⟨e, he, hcause⟩ := hitem.tooDeep hdeep
        exact ⟨e, items_of_error he n done, hcause⟩

theorem answers_array (h : ReadsValues item fuel d) {nodes : List Node} {text : List Char}
    (htext : Enclosed ValueText nodes text) (hfuel : text.length + 2 ≤ fuel) (rest : List Char) :
    Answers d (Node.depthItems nodes) (Node.report (.array nodes)) rest
      (array item fuel (text ++ ']' :: rest)) := by
  cases htext with
  | empty hblank =>
    refine .of_ok ?_ rfl
    rw [array, skip_append_cons hblank rfl]
    rfl
  | listed hlist =>
    have hlength := hlist.length_le
    obtain ⟨c, u, hskip, hc, hanswers⟩ :=
      answers_items h hlist (by omega) (show nodes.length ≤ fuel by omega) [] rest
    rw [array, hskip]
    simpa [Node.report] using hanswers

/-! ## Objects -/

/-- An entry is read in two parts, its key and its value. -/
theorem answers_entry (h : ReadsValues item fuel d) {key : String} {node : Node}
    {text rest : List Char} (hentry : EntryText ValueText (key, node) text)
    (hfuel : text.length ≤ fuel) (hrest : Ends rest) :
    ∃ u value, text ++ rest = '"' :: u ∧ Quoted.read u = .ok (key, value) ∧
      Answers d node.depth node.report rest (entryValue item value) := by
  cases hentry with
  | @mk _ _ name before after text hkey hbefore hafter hnode =>
    cases hkey with
    | @quoted body hbody =>
      have hvalue : entryValue item (before ++ ':' :: (after ++ (text ++ rest)))
          = item (text ++ rest) := by
        rw [entryValue, skip_append_cons hbefore rfl]
        exact h.skips _ hafter
      refine ⟨body ++ '"' :: (before ++ ':' :: (after ++ (text ++ rest))), _, by simp,
        Quoted.read_charsText hbody _, ?_⟩
      rw [hvalue]
      exact h.answers hnode (by simp at hfuel ⊢; omega) hrest

section Entries

variable {key : String} {report : Report Error} {text value rest rest' : List Char}

theorem entries_of_error {e : Failure} (hkey : Quoted.read text = .ok (key, value))
    (h : entryValue item value = .error e) (n : Nat) (done : List (String × Report Error)) :
    entries item (n + 1) done text = .error e := by
  rw [entries, hkey]
  simp only
  rw [h]

theorem entries_last (hkey : Quoted.read text = .ok (key, value))
    (h : entryValue item value = .ok (report, rest)) (hrest : skip rest = '}' :: rest') (n : Nat)
    (done : List (String × Report Error)) :
    entries item (n + 1) done text = .ok (.map (done.reverse ++ [(key, report)]) none, rest') := by
  rw [entries, hkey]
  simp only
  rw [h]
  simp only
  rw [hrest]
  simp

theorem entries_more {u : List Char} (hkey : Quoted.read text = .ok (key, value))
    (h : entryValue item value = .ok (report, rest)) (hrest : skip rest = ',' :: rest')
    (hrest' : skip rest' = '"' :: u) (n : Nat) (done : List (String × Report Error)) :
    entries item (n + 1) done text = entries item n ((key, report) :: done) u := by
  rw [entries, hkey]
  simp only
  rw [h]
  simp only
  rw [hrest]
  simp only
  rw [hrest']
  rfl

end Entries

/-- Entries are read one after the other, until the value of one is too deep. -/
theorem answers_entries (h : ReadsValues item fuel d) {nodes : List (String × Node)}
    {text : List Char} (hlist : Listed (EntryText ValueText) nodes text)
    (hfuel : text.length ≤ fuel) {n : Nat} (hn : nodes.length ≤ n)
    (done : List (String × Report Error)) (rest : List Char) :
    ∃ u, skip (text ++ '}' :: rest) = '"' :: u ∧
      Answers d (Node.depthEntries nodes) (.map (done.reverse ++ Node.reportEntries nodes) none) rest
        (entries item n done u) := by
  induction hlist generalizing n done with
  | @one entry before text after hbefore hentry hafter =>
    obtain ⟨n, rfl⟩ := Nat.exists_eq_succ_of_ne_zero (Nat.ne_of_gt hn)
    obtain ⟨key, node⟩ := entry
    obtain ⟨u, value, htext, hkey, hvalue⟩ := answers_entry h hentry (by simp at hfuel ⊢; omega)
      (ends_of_isBlank hafter (ends_cons (c := '}') (by simp) rest))
    refine ⟨u, ?_, .first (fun hnode => .of_ok ?_ rfl) fun hdeep => ?_⟩
    · simp only [List.append_assoc, skip_append hbefore, htext]
      exact skip_cons rfl u
    · exact entries_last hkey (hvalue.ok hnode) (skip_append_cons hafter rfl rest) n done
    · obtain ⟨e, he, hcause⟩ := hvalue.tooDeep hdeep
      exact ⟨e, entries_of_error hkey he n done, hcause⟩
  | @more entry nodes before text after others hbefore hentry hafter _ ih =>
    obtain ⟨n, rfl⟩ := Nat.exists_eq_succ_of_ne_zero (Nat.ne_zero_of_lt hn)
    obtain ⟨key, node⟩ := entry
    obtain ⟨u, value, htext, hkey, hvalue⟩ := answers_entry h hentry (by simp at hfuel ⊢; omega)
      (ends_of_isBlank hafter (ends_cons (c := ',') (by simp) (others ++ '}' :: rest)))
    obtain ⟨u', hskip', hothers⟩ := ih (by simp at hfuel ⊢; omega) (Nat.le_of_succ_le_succ hn)
      ((key, node.report) :: done)
    refine ⟨u, ?_, .first (fun hnode => ?_) fun hdeep => ?_⟩
    · simp only [List.append_assoc, List.cons_append, skip_append hbefore, htext]
      exact skip_cons rfl u
    · rw [entries_more hkey (hvalue.ok hnode) (skip_append_cons hafter rfl _) hskip' n done]
      simpa [Node.reportEntries] using hothers
    · obtain ⟨e, he, hcause⟩ := hvalue.tooDeep hdeep
      exact ⟨e, entries_of_error hkey he n done, hcause⟩

theorem answers_object (h : ReadsValues item fuel d) {nodes : List (String × Node)}
    {text : List Char} (htext : Enclosed (EntryText ValueText) nodes text)
    (hfuel : text.length + 2 ≤ fuel) (rest : List Char) :
    Answers d (Node.depthEntries nodes) (Node.report (.object nodes)) rest
      (object item fuel (text ++ '}' :: rest)) := by
  cases htext with
  | empty hblank =>
    refine .of_ok ?_ rfl
    rw [object, skip_append_cons hblank rfl]
    rfl
  | listed hlist =>
    have hlength := hlist.length_le
    obtain ⟨u, hskip, hanswers⟩ :=
      answers_entries h hlist (by omega) (show nodes.length ≤ fuel by omega) [] rest
    rw [object, hskip]
    simpa [Node.report] using hanswers

/-! ## Values of any depth -/

/-- If arrays and objects are read with room for one level less, all values are. -/
theorem readsValues_scalarOr {readArray readObject : ValueReader}
    (harray : ∀ {nodes text}, Enclosed ValueText nodes text → text.length + 2 ≤ fuel →
      ∀ rest, Answers d (Node.depthItems nodes + 1) (Node.report (.array nodes)) rest
        (readArray (text ++ ']' :: rest)))
    (hobject : ∀ {nodes text}, Enclosed (EntryText ValueText) nodes text →
      text.length + 2 ≤ fuel → ∀ rest, Answers d (Node.depthEntries nodes + 1) (Node.report (.object nodes)) rest
        (readObject (text ++ '}' :: rest))) :
    ReadsValues (scalarOr readArray readObject) fuel d where
  skips text hblank := by
    unfold scalarOr
    rw [skip_append hblank]
  answers {node text rest} h hfuel hrest := by
    cases h with
    | null => exact .of_ok rfl rfl
    | true => exact .of_ok rfl rfl
    | false => exact .of_ok rfl rfl
    | natural n => exact .of_ok (scalarOr_natural n hrest) rfl
    | negative hv => exact .of_ok (scalarOr_negative hv hrest) rfl
    | string h => exact .of_ok (scalarOr_string h) rfl
    | @array nodes text h =>
      rw [List.length_append, List.length_cons] at hfuel
      have hinner := harray h hfuel rest
      rw [List.append_assoc]
      exact hinner
    | @object nodes text h =>
      rw [List.length_append, List.length_cons] at hfuel
      have hinner := hobject h hfuel rest
      rw [List.append_assoc]
      exact hinner

theorem readsValues_value (fuel d : Nat) : ReadsValues (value fuel d) fuel d := by
  induction d with
  | zero =>
    -- without room, every array and every object is too deep
    exact readsValues_scalarOr (fun _ _ rest => ⟨fun hle => by omega, fun _ => ⟨_, rfl, rfl⟩⟩)
      fun _ _ rest => ⟨fun hle => by omega, fun _ => ⟨_, rfl, rfl⟩⟩
  | succ d ih =>
    exact readsValues_scalarOr (fun htext hfuel rest => (answers_array ih htext hfuel rest).succ)
      fun htext hfuel rest => (answers_object ih htext hfuel rest).succ

end Parse

/-- The value in a text is reported unless it is nested too deep, and nothing but blanks is left. -/
theorem read_documentText {node : Node} {text : String} (h : DocumentText node text.toList) :
    (node.depth ≤ 127 → deserializer.read text = (node.report, none)) ∧
      (128 ≤ node.depth → ∃ e, deserializer.read text = (.refused e, none) ∧ e.cause = .tooDeep) := by
  simp only [deserializer]
  generalize text.toList = cs at h
  cases h with
  | @padded before body after hbefore h hafter =>
    have hreads := Parse.readsValues_value (before ++ body ++ after).length Parse.maxDepth
    have hends : Ends (after ++ []) := ends_of_isBlank hafter (by simp [Ends])
    rw [List.append_nil] at hends
    have hanswers := hreads.answers h (by simp; omega) hends
    rw [← hreads.skips _ hbefore, ← List.append_assoc] at hanswers
    refine ⟨fun hle => ?_, fun hlt => ?_⟩
    · rw [hanswers.ok hle]
      simp only
      rw [Parse.skip_of_isBlank hafter]
    · obtain ⟨e, he, hcause⟩ := hanswers.tooDeep hlt
      exact ⟨e.locate (before ++ body ++ after), by rw [he], hcause⟩

/-- The reader follows the grammar. -/
theorem followsJson_deserializer : deserializer.FollowsJson where
  reads hnode htext hdepth := by
    rw [(read_documentText htext).1 hdepth]
    exact ⟨Node.standsFor_report hnode, rfl⟩
  limits _ htext hdepth := by
    obtain ⟨e, he, -⟩ := (read_documentText htext).2 hdepth
    rw [he]
    exact .inl (.refused e)

namespace Sample

/-- An object with a repeated key. -/
def node : Node :=
  .object [("ab", .array [.string "😀\n", .number (.negative (-12)), .number (.natural 0), .null]),
    ("ab", .bool true)]

/-- A text of the object, with blanks and escapes. -/
def text : List Char :=
  [' ', '{', '"', 'a', '\\', 'u', '0', '0', '6', '2', '"', '\t', ':', '[', '"', '\\', 'u', 'd', '8',
    '3', 'D', '\\', 'u', 'D', 'E', '0', '0', '\\', 'n', '"', ',', '-', '1', '2', '\n', ',', '0',
    ',', ' ', 'n', 'u', 'l', 'l', ']', ',', ' ', '"', 'a', 'b', '"', ':', 't', 'r', 'u', 'e', '}']

theorem isExact_node : node.IsExact := by
  refine .object fun entry hentry => ?_
  simp only [List.mem_cons, List.not_mem_nil, or_false] at hentry
  obtain rfl | rfl := hentry
  · refine .array fun item hitem => ?_
    simp only [List.mem_cons, List.not_mem_nil, or_false] at hitem
    obtain rfl | rfl | rfl | rfl := hitem
    · exact .string _
    · exact .negative (by decide)
    · exact .natural _
    · exact .null
  · exact .bool _

theorem documentText_text : DocumentText node text := by
  have hnone : IsBlank [] := isBlank_nil
  have hspace : IsBlank [' '] := by simp [IsBlank]
  have htab : IsBlank ['\t'] := by simp [IsBlank]
  have hline : IsBlank ['\n'] := by simp [IsBlank]
  have ha : CharText 'a' ['a'] := .plain (by decide) (by decide) (by decide)
  have hb : CharText 'b' ['b'] := .plain (by decide) (by decide) (by decide)
  have hb' : CharText 'b' ['\\', 'u', '0', '0', '6', '2'] :=
    .unit (by decide) (.digits (.inl rfl) (.inl rfl) (.inl rfl) (.inl rfl))
  have hface : CharText '😀' (['\\', 'u', 'd', '8', '3', 'D'] ++ ['\\', 'u', 'D', 'E', '0', '0']) :=
    .pair (by decide) (.digits (.inl (by decide)) (.inl (by decide)) (.inl (by decide))
      (.inr (by decide))) (.digits (.inr (by decide)) (.inr (by decide)) (.inl (by decide))
      (.inl (by decide)))
  have hbreak : CharText '\n' ['\\', 'n'] := .short (by simp [shortEscapes])
  have hfirst : StringText "ab" _ := .quoted (.cons ha (.cons hb' .nil))
  have hsecond : StringText "ab" _ := .quoted (.cons ha (.cons hb .nil))
  have hstring : StringText "😀\n" _ := .quoted (.cons hface (.cons hbreak .nil))
  have hnegative : (-12 : Int64) < 0 := by decide
  have hitems := Listed.more hnone (ValueText.string hstring) hnone
    (Listed.more hnone (ValueText.negative hnegative) hline
      (Listed.more hnone (ValueText.natural 0) hnone (Listed.one hspace ValueText.null hnone)))
  have hentries := Listed.more hnone
    (EntryText.mk hfirst htab hnone (ValueText.array (.listed hitems))) hnone
    (Listed.one hspace (EntryText.mk hsecond hnone hnone ValueText.true) hnone)
  exact .padded hspace (.object (.listed hentries)) hnone

/-- Arrays in arrays. -/
def nested : Nat → Node
  | 0 => .null
  | n + 1 => .array [nested n]

theorem isExact_nested (n : Nat) : (nested n).IsExact := by
  induction n with
  | zero => exact .null
  | succ n ih => exact .array fun item hitem => by rwa [List.mem_singleton.1 hitem]

theorem depth_nested (n : Nat) : (nested n).depth = n := by
  induction n with
  | zero => rfl
  | succ n ih => simp [nested, Node.depth, Node.depthItems, ih]

end Sample

/-- A value of integers, strings, lists and the like has a text. With a library that follows the
grammar, each of its texts is read as the value if it is nested at most 127 deep, with the entries
of objects in order and repeated ones kept; otherwise reading fails. -/
theorem Deserializer.parse_documentText {ε : Type} {d : Deserializer ε} (hd : d.FollowsJson)
    {node : Node} (hnode : node.IsExact) :
    (∃ text : String, DocumentText node text.toList) ∧
      ∀ text : String, DocumentText node text.toList →
        (node.depth ≤ 127 → d.parse text = .ok node) ∧
          (128 ≤ node.depth → ∃ e, d.parse text = .error e) := by
  refine ⟨exists_documentText hnode, fun text htext => ⟨fun hle => ?_, fun hlt => ?_⟩⟩
  · obtain ⟨hvalue, hend⟩ := hd.reads hnode htext hle
    exact parse_of_standsFor hvalue hend
  · exact exists_parse_error (hd.limits hnode htext hlt)

theorem parse_documentText_sample :
    deserializer.FollowsJson ∧ Sample.node.IsExact ∧ Sample.node.depth = 2 ∧
      DocumentText Sample.node Sample.text ∧
      deserializer.parse (String.ofList Sample.text) = .ok Sample.node ∧
      (Sample.nested 128).IsExact ∧ (Sample.nested 128).depth = 128 ∧
      ∃ text e, DocumentText (Sample.nested 128) text.toList ∧
        deserializer.parse text = .error e := by
  have hreader := followsJson_deserializer
  have hdeep := Sample.isExact_nested 128
  obtain ⟨⟨text, htext⟩, hnested⟩ := Deserializer.parse_documentText hreader hdeep
  obtain ⟨e, he⟩ := (hnested text htext).2 (Sample.depth_nested 128).ge
  have hsample := (Deserializer.parse_documentText hreader Sample.isExact_node).2
    (String.ofList Sample.text) (by rw [String.toList_ofList]; exact Sample.documentText_text)
  exact ⟨hreader, Sample.isExact_node, rfl, Sample.documentText_text, hsample.1 (by decide), hdeep,
    Sample.depth_nested 128, text, e, htext, he⟩

end SchemaRecords.Json
