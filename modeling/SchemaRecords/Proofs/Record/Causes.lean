import SchemaRecords.Record.Artifact

/-!
# What can go wrong in making one class

Only a whole model can lack a type. Making the class of a single record type
fails for reasons of its own (`Artifact.isOwn_of_compile`), so a model that has
all types its properties refer to is never refused for a type that it lacks
(`Artifact.ofModel_ne_unknownType`).
-/

namespace SchemaRecords.Record

open SchemaRecords.ClassFile (Build Draft)

/-- The error is about one class by itself. -/
def Error.IsOwn : Error → Prop
  | classFile _ => True
  | unknownType _ _ => False
  | reservedMember _ _ => True
  | settings _ => False
  | parameterSlots _ _ => True
  | argumentSlots _ _ => True

/-- The step fails only for reasons of the class. -/
def OwnFailures {α : Type} (step : Assemble α) : Prop :=
  ∀ d e d', step d = .error e d' → e.IsOwn

namespace OwnFailures

theorem ofBuild {α : Type} (step : Build α) : OwnFailures (.ofBuild step) := by
  intro d e d' h
  unfold Assemble.ofBuild at h
  split at h
  · cases h
  · cases h
    trivial

theorem throw {α : Type} {e : Error} (he : e.IsOwn) : OwnFailures (MonadExcept.throw e : Assemble α) := by
  intro d e' d' h
  cases h
  exact he

theorem bind {α β : Type} {step : Assemble α} {next : α → Assemble β} (hstep : OwnFailures step)
    (hnext : ∀ a, OwnFailures (next a)) : OwnFailures (step >>= next) := by
  intro d e d' h
  change EStateM.bind step next d = _ at h
  unfold EStateM.bind at h
  split at h
  · exact hnext _ _ _ _ h
  · rename_i heq
    cases h
    exact hstep _ _ _ heq

theorem forM {α : Type} {step : α → Assemble Unit} (hstep : ∀ a, OwnFailures (step a)) (as : List α) :
    OwnFailures (as.forM step) := by
  induction as with
  | nil =>
    intro d e d' h
    cases h
  | cons a as ih =>
    show OwnFailures (step a >>= fun _ => as.forM step)
    exact bind (hstep a) fun _ => ih

end OwnFailures

theorem Part.ownFailures (l : Layout) (part : Part) : OwnFailures (part.add l) := by
  cases part with
  | accessors =>
    refine .bind (.forM (fun c => .ofBuild _) _) fun _ => .forM (fun c => ?_) _
    unfold Accessor.addMethod
    split
    · exact .throw trivial
    · exact .ofBuild _
  | constructor =>
    show OwnFailures (Constructor.add l)
    unfold Constructor.add
    split
    · exact .throw trivial
    · exact .ofBuild _
  | equality => exact .ofBuild _
  | hashing => exact .ofBuild _
  | rendering =>
    show OwnFailures (Rendering.add l)
    unfold Rendering.add
    dsimp only
    split
    · exact .throw trivial
    · exact .ofBuild _

theorem Layout.isOwn_of_compile {l : Layout} {e : Error} (h : l.compile = .error e) : e.IsOwn := by
  unfold Layout.compile at h
  split at h
  · rename_i hdraft
    cases h
    unfold Layout.draft at hdraft
    split at hdraft
    · cases hdraft
    · cases hdraft
      trivial
  · split at h
    · rename_i hparts
      cases h
      exact OwnFailures.forM (Part.ownFailures l) _ _ _ _ hparts
    · split at h
      · cases h
        trivial
      · cases h

namespace Artifact

theorem isOwn_of_compile {s : Settings} {type : Schema.RecordType} {e : Error}
    (h : compile s type = .error e) : e.IsOwn := by
  unfold compile at h
  dsimp only at h
  split at h
  · rename_i hlayout
    cases h
    exact Layout.isOwn_of_compile hlayout
  · cases h

/-- Types are compiled up to the first that fails. -/
theorem exists_of_mapM_compile_eq_error {s : Settings} {types : List Schema.RecordType} {e : Error}
    (h : types.mapM (compile s) = .error e) :
    ∃ before type after, types = before ++ type :: after ∧
      (∀ t ∈ before, ∃ a, compile s t = .ok a) ∧ compile s type = .error e := by
  induction types with
  | nil => cases h
  | cons first types ih =>
    rw [List.mapM_cons] at h
    cases hfirst : compile s first with
    | error e' =>
      rw [hfirst] at h
      cases h
      exact ⟨[], first, types, rfl, by simp, hfirst⟩
    | ok a =>
      rw [hfirst] at h
      cases hrest : types.mapM (compile s) with
      | error e' =>
        rw [hrest] at h
        cases h
        obtain ⟨before, type, after, rfl, hbefore, htype⟩ := ih hrest
        exact ⟨first :: before, type, after, rfl, List.forall_mem_cons.2 ⟨⟨a, hfirst⟩, hbefore⟩, htype⟩
      | ok artifacts =>
        rw [hrest] at h
        cases h

theorem isOwn_of_mapM_compile {s : Settings} {types : List Schema.RecordType} {e : Error}
    (h : types.mapM (compile s) = .error e) : e.IsOwn := by
  obtain ⟨before, type, after, -, -, htype⟩ := exists_of_mapM_compile_eq_error h
  exact isOwn_of_compile htype

/-- In a model that has the types its properties refer to, no type is found to be missing. -/
theorem ofModel_eq_of_closed {m : Schema.Model}
    (hclosed : ∀ type ∈ m.types, ∀ p ∈ type.properties, ∀ name, p.type.reference? = some name →
      ∃ type' ∈ m.types, type'.name = name) (s : Settings) :
    ofModel s m =
      match s.fault? with
      | some fault => .error (.settings fault)
      | none => m.types.mapM (compile s) := by
  have hmissing : m.types.findSome? (missingIn? m) = none := by
    rw [List.findSome?_eq_none_iff]
    intro type htype
    unfold missingIn?
    rw [List.findSome?_eq_none_iff]
    intro p hp
    rw [Option.map_eq_none_iff]
    unfold missing?
    split
    · rfl
    · rename_i target htarget
      obtain ⟨type', htype', rfl⟩ := hclosed type htype p hp target htarget
      have hfound : (m.get? type'.name).isSome := by
        unfold Schema.Model.get?
        rw [List.find?_isSome]
        exact ⟨type', htype', beq_self_eq_true _⟩
      rw [if_pos hfound]
  unfold ofModel
  cases s.fault? with
  | some fault => rfl
  | none => simp only [hmissing]

/-- A model that has the types its properties refer to is not refused for one it lacks. -/
theorem ofModel_ne_unknownType {s : Settings} {m : Schema.Model}
    (hclosed : ∀ type ∈ m.types, ∀ p ∈ type.properties, ∀ name, p.type.reference? = some name →
      ∃ type' ∈ m.types, type'.name = name) (name field : String) :
    ofModel s m ≠ .error (.unknownType name field) := by
  intro h
  rw [ofModel_eq_of_closed hclosed] at h
  split at h
  · cases h
  · exact isOwn_of_mapM_compile h

end Artifact

end SchemaRecords.Record
