import Mathlib.Data.List.Chain
import SchemaRecords.Proofs.Schema.Naming

/-!
# Camel case as a normal form

Names of fields and types are in a normal form: no forbidden characters, and no
separator before a small ASCII letter. The three passes that lead there do not undo
one another. Words are joined first; what replaces a forbidden character is, as
that character, a separator; and a change of case keeps letters letters. A text in
normal form is left as it is, so a second application changes nothing.

* `joined_joinFrom`, `joinFrom_of_joined`: joining words leads to the normal form
  and leaves it alone.
* `normalizes_fieldName_typeName`: what follows for names.
-/

namespace SchemaRecords.Schema.Naming

open SchemaRecords.Text (IsCaseChange isAlphanumeric isCaseChange_toLower isCaseChange_toUpper
  of_forall_ascii)

/-- Whether a character may come after another: no small ASCII letter comes after a separator. -/
def Follows (c d : Char) : Prop := c = '_' ∨ isAlphanumeric c = false → ¬('a' ≤ d ∧ d ≤ 'z')

/-- The normal form of names, apart from the case of the first character. -/
structure IsCamelCase (text : List Char) : Prop where
  allowed : ∀ c ∈ text, c ∉ ['.', ';', '[', '/', '<', '>']
  joined : text.IsChain Follows

/-! ## Characters -/

theorem isSeparator_eq (c : Char) : isSeparator c = !isAlphanumeric c := by
  by_cases h : c = '_'
  · subst h
    decide
  · simp [isSeparator, h]

theorem follows_iff {c d : Char} : Follows c d ↔ isSeparator c = true → isSmall d = false := by
  simp [Follows, isSeparator, isSmall]

theorem isForbidden_iff {c : Char} :
    isForbidden c = true ↔ c ∈ ['.', ';', '[', '/', '<', '>'] := by
  simp [isForbidden, or_assoc]

/-- Small letters and their capitals are no separators. -/
theorem isSeparator_of_isSmall {c : Char} (h : isSmall c = true) :
    isSeparator c = false ∧ isSeparator c.toUpper = false := by
  have hlt : c.toNat < 128 := by
    rw [isSmall, Bool.and_eq_true, decide_eq_true_eq, decide_eq_true_eq] at h
    exact Nat.lt_of_le_of_lt (UInt32.le_iff_toNat_le.1 h.2) (by decide)
  revert h
  exact of_forall_ascii c hlt (by decide)

theorem isSmall_of_isSeparator {c : Char} (h : isSeparator c = true) : isSmall c = false := by
  apply Bool.eq_false_iff.2
  intro hsmall
  rw [(isSeparator_of_isSmall hsmall).1] at h
  cases h

theorem isSeparator_changeCase {f : Char → Char} (hf : IsCaseChange f) (c : Char) :
    isSeparator (f c) = isSeparator c := by
  rw [isSeparator_eq, isSeparator_eq]
  by_cases hword : isAlphanumeric c = true
  · rw [hf.word c hword, hword]
  · rw [hf.other c (Bool.eq_false_iff.2 hword)]

/-! ## Joining words -/

/-- What holds while words are joined: `done` ends in no separator, and `run` has nothing else. -/
structure IsJoining (done run : List Char) : Prop where
  last : ∀ c ∈ done.head?, isSeparator c = false
  separators : ∀ c ∈ run, isSeparator c = true
  joined : (run ++ done).IsChain fun d c => Follows c d

namespace IsJoining

variable {done run : List Char} {c : Char}

theorem start : IsJoining [] [] := ⟨by simp, by simp, .nil⟩

theorem separator (h : IsJoining done run) (hc : isSeparator c = true) :
    IsJoining done (c :: run) where
  last := h.last
  separators := List.forall_mem_cons.2 ⟨hc, h.separators⟩
  joined := by
    refine List.isChain_cons.2 ⟨fun d _ => follows_iff.2 fun _ => ?_, h.joined⟩
    exact isSmall_of_isSeparator hc

theorem capital (h : IsJoining done run) (hc : isSmall c = true) :
    IsJoining (c.toUpper :: done) [] where
  last := by
    intro d hd
    obtain rfl := Option.some.inj hd
    exact (isSeparator_of_isSmall hc).2
  separators := by simp
  joined := by
    refine List.isChain_cons.2 ⟨fun d hd => follows_iff.2 fun hd' => ?_, ?_⟩
    · rw [h.last d hd] at hd'
      cases hd'
    · exact (List.isChain_append.1 h.joined).2.1

theorem keep (h : IsJoining done run) (hc : isSeparator c = false)
    (hrun : run = [] ∨ isSmall c = false) : IsJoining (c :: (run ++ done)) [] where
  last := by
    intro d hd
    obtain rfl := Option.some.inj hd
    exact hc
  separators := by simp
  joined := by
    refine List.isChain_cons.2 ⟨fun d hd => follows_iff.2 fun hd' => ?_, h.joined⟩
    obtain rfl | hsmall := hrun
    · rw [h.last d hd] at hd'
      cases hd'
    · exact hsmall

end IsJoining

theorem joined_joinFrom {done run : List Char} (h : IsJoining done run) (text : List Char) :
    (joinFrom done run text).IsChain Follows := by
  fun_induction joinFrom done run text with
  | case1 done run => exact List.isChain_reverse.2 h.joined
  | case2 done run c rest hc ih => exact ih (h.separator hc)
  | case3 done run c rest hc hsmall ih =>
    rw [Bool.and_eq_true] at hsmall
    exact ih (h.capital hsmall.2)
  | case4 done run c rest hc hsmall ih =>
    refine ih (h.keep (Bool.eq_false_iff.2 hc) ?_)
    simpa [Classical.or_iff_not_imp_left] using hsmall

/-- Words that are joined stay as they are. -/
theorem joinFrom_of_joined {done run text : List Char} (hrun : ∀ c ∈ run, isSeparator c = true)
    (h : (run.reverse ++ text).IsChain Follows) :
    joinFrom done run text = (run ++ done).reverse ++ text := by
  fun_induction joinFrom done run text with
  | case1 done run => simp
  | case2 done run c rest hc ih =>
    rw [ih (List.forall_mem_cons.2 ⟨hc, hrun⟩) (by simpa using h)]
    simp
  | case3 done run c rest hc hsmall ih =>
    -- the last of the separators would come before a small letter
    rw [Bool.and_eq_true] at hsmall
    cases run with
    | nil => cases hsmall.1
    | cons d run =>
      rw [List.reverse_cons, List.append_assoc, List.isChain_append] at h
      have hfollows := (List.isChain_cons_cons.1 h.2.1).1
      rw [follows_iff.1 hfollows (hrun d List.mem_cons_self)] at hsmall
      cases hsmall.2
  | case4 done run c rest hc hsmall ih =>
    rw [List.isChain_append] at h
    rw [ih (by simp) h.2.1.tail]
    simp

theorem eq_nil_of_joinFrom {done run text : List Char} (h : joinFrom done run text = []) :
    (done = [] ∧ run = []) ∧ text = [] := by
  fun_induction joinFrom done run text with
  | case1 done run => simpa [and_comm] using h
  | case2 done run c rest hc ih => cases (ih h).1.2
  | case3 done run c rest hc hsmall ih => cases (ih h).1.1
  | case4 done run c rest hc hsmall ih => cases (ih h).1.1

/-! ## Names -/

theorem isCamelCase_camelCase (text : List Char) : IsCamelCase (camelCase text) where
  allowed := by
    intro c hc
    rw [← isForbidden_iff, isForbidden_of_mem_camelCase hc]
    exact Bool.false_ne_true
  joined := by
    -- an underscore is a separator and no small letter, and so are all characters it replaces
    have hkind : ∀ c, isSeparator (if isForbidden c then '_' else c) = isSeparator c ∧
        isSmall (if isForbidden c then '_' else c) = isSmall c := by
      intro c
      split
      · rename_i hc
        simp only [isForbidden, Bool.or_eq_true, beq_iff_eq] at hc
        obtain ((((rfl | rfl) | rfl) | rfl) | rfl) | rfl := hc <;> decide
      · exact ⟨rfl, rfl⟩
    refine (List.isChain_map _).2 ((joined_joinFrom .start text).imp fun c d hfollows => ?_)
    rw [follows_iff, (hkind c).1, (hkind d).2]
    exact follows_iff.1 hfollows

theorem camelCase_of_isCamelCase {text : List Char} (h : IsCamelCase text) :
    camelCase text = text := by
  have hjoin : joinFrom [] [] text = text := joinFrom_of_joined (by simp) h.joined
  rw [camelCase, hjoin]
  refine (List.map_congr_left fun c hc => ?_).trans text.map_id
  exact if_neg (mt isForbidden_iff.1 (h.allowed c hc))

theorem IsCamelCase.mapFirst {f : Char → Char} (hf : IsCaseChange f) {text : List Char}
    (h : IsCamelCase text) : IsCamelCase (mapFirst f text) where
  allowed := by
    intro c hc
    rw [← isForbidden_iff, Bool.not_eq_true]
    refine isForbidden_of_mem_mapFirst (fun d hd => ?_) (fun _ => isForbidden_changeCase hf) hc
    exact Bool.eq_false_iff.2 (mt isForbidden_iff.1 (h.allowed d hd))
  joined := by
    cases text with
    | nil => exact .nil
    | cons c rest =>
      obtain ⟨hfollows, hrest⟩ := List.isChain_cons.1 h.joined
      refine List.isChain_cons.2 ⟨fun d hd => ?_, hrest⟩
      rw [follows_iff, isSeparator_changeCase hf]
      exact follows_iff.1 (hfollows d hd)

theorem head?_mapFirst (f : Char → Char) (text : List Char) :
    (mapFirst f text).head? = text.head?.map f := by
  cases text <;> rfl

theorem mapFirst_eq_self {f : Char → Char} {text : List Char} (h : ∀ c ∈ text.head?, f c = c) :
    mapFirst f text = text := by
  cases text with
  | nil => rfl
  | cons c rest => rw [mapFirst, h c rfl]

section Names

variable {f : Char → Char}

/-- The name for a text, `f` being the change of the first character. -/
def nameBy (f : Char → Char) (text : String) : String :=
  String.ofList (mapFirst f (camelCase text.toList))

theorem isCamelCase_nameBy (hf : IsCaseChange f) (text : String) :
    IsCamelCase (nameBy f text).toList := by
  rw [nameBy, String.toList_ofList]
  exact (isCamelCase_camelCase _).mapFirst hf

theorem first_nameBy (hf : IsCaseChange f) (text : String) :
    ∀ c ∈ (nameBy f text).toList.head?, f c = c := by
  intro c hc
  rw [nameBy, String.toList_ofList, head?_mapFirst] at hc
  obtain ⟨d, -, rfl⟩ := Option.map_eq_some_iff.1 hc
  exact hf.idem d

theorem nameBy_eq_self {text : String} (h : IsCamelCase text.toList)
    (hfirst : ∀ c ∈ text.toList.head?, f c = c) : nameBy f text = text := by
  rw [nameBy, camelCase_of_isCamelCase h, mapFirst_eq_self hfirst, String.ofList_toList]

theorem nameBy_eq_empty {text : String} : nameBy f text = "" ↔ text = "" := by
  constructor
  · intro h
    have hname : mapFirst f (camelCase text.toList) = [] := by
      simpa [nameBy] using congrArg String.toList h
    have hcamel : camelCase text.toList = [] := by
      cases hcase : camelCase text.toList with
      | nil => rfl
      | cons c rest =>
        rw [hcase] at hname
        cases hname
    have htext := (eq_nil_of_joinFrom (List.map_eq_nil_iff.1 hcamel)).2
    exact String.toList_eq_nil_iff.1 htext
  · rintro rfl
    rfl

/-- The naming leads to the normal form, with a first character that `f` leaves alone, and every
text in this form is its own name. Only the empty text has an empty name. -/
structure Normalizes (f : Char → Char) (name : String → String) : Prop where
  idempotent : ∀ text, name (name text) = name text
  empty : ∀ text, name text = "" ↔ text = ""
  isCamelCase : ∀ text, IsCamelCase (name text).toList
  fixed : ∀ text, name text = text ↔ IsCamelCase text.toList ∧ ∀ c ∈ text.toList.head?, f c = c

theorem normalizes_nameBy (hf : IsCaseChange f) : Normalizes f (nameBy f) where
  idempotent text := nameBy_eq_self (isCamelCase_nameBy hf text) (first_nameBy hf text)
  empty _ := nameBy_eq_empty
  isCamelCase := isCamelCase_nameBy hf
  fixed text := by
    refine ⟨fun h => ?_, fun h => nameBy_eq_self h.1 h.2⟩
    rw [← h]
    exact ⟨isCamelCase_nameBy hf text, first_nameBy hf text⟩

end Names

/-- Fields and types are named by normal forms. -/
theorem normalizes_fieldName_typeName :
    Normalizes Text.toLower fieldName ∧ Normalizes Text.toUpper typeName :=
  ⟨normalizes_nameBy isCaseChange_toLower, normalizes_nameBy isCaseChange_toUpper⟩

end SchemaRecords.Schema.Naming
