import SchemaRecords.Proofs.Output.Archive
import SchemaRecords.Proofs.Output.Files

/-!
# What is assumed of a library that writes archives

A library is expected to write the entries that it is given and to refuse a name
that it was given before (`ArchiveLibrary.Laws`). Any of its steps may fail; all of
them leave other files alone. What an archive under way has been given is told by a
view of its state, which a program does not see.

`Archive.laws_library`: the library of this project keeps the laws, and its archives
are read back with `Archive.decode?`.
-/

namespace SchemaRecords.Output

open SchemaRecords.ClassFile (Bytes)

/-- From one state to the next, only the file at a path may have changed. -/
def ChangesOnly {W : Type} (files : W → Files) (path : Path) (w w' : W) : Prop :=
  ∀ k, k ≠ path.key → files w' k = files w k

namespace ChangesOnly

variable {W : Type} {files : W → Files} {path : Path} {w w₁ w₂ : W}

theorem of_eq (h : files w₁ = files w) : ChangesOnly files path w w₁ := fun _ _ => congrFun h _

theorem trans (h : ChangesOnly files path w w₁) (h' : ChangesOnly files path w₁ w₂) :
    ChangesOnly files path w w₂ :=
  fun k hk => (h' k hk).trans (h k hk)

end ChangesOnly

namespace ArchiveLibrary

/-- The file of an archive and the entries that it was given. -/
structure View {m : Type → Type} (zip : ArchiveLibrary m) where
  path : zip.Writer → Path
  entries : zip.Writer → List Entry
  finalPath : zip.Ended → Path
  finalEntries : zip.Ended → List Entry

/-- What is assumed of a library; `entries?` says which entries an archive has. -/
structure Laws {W : Type} (zip : ArchiveLibrary (StateM W)) (files : W → Files)
    (entries? : Bytes → Option (List Entry)) (v : zip.View) : Prop where
  attach : ∀ {path w z w'}, zip.attach path w = (z, w') →
    v.path z = path ∧ v.entries z = [] ∧ ChangesOnly files path w w'
  start : ∀ {name options z w answer z' w'},
    zip.startFile name options z w = ((answer, z'), w') →
    v.path z' = v.path z ∧ ChangesOnly files (v.path z) w w'
  /-- A name that was given before is refused. -/
  start_ok : ∀ {name options z w z' w'}, zip.startFile name options z w = ((.ok (), z'), w') →
    name ∉ (v.entries z).map Entry.name ∧
      v.entries z' = v.entries z ++ [⟨name, options.stamp, []⟩]
  write : ∀ {bytes z w answer z' w'}, zip.writeAll bytes z w = ((answer, z'), w') →
    v.path z' = v.path z ∧ ChangesOnly files (v.path z) w w'
  write_ok : ∀ {bytes z w z' w' before e}, zip.writeAll bytes z w = ((.ok (), z'), w') →
    v.entries z = before ++ [e] → v.entries z' = before ++ [{ e with data := e.data ++ bytes }]
  finish : ∀ {z w answer w'}, zip.finish z w = (answer, w') → ChangesOnly files (v.path z) w w'
  finish_ok : ∀ {z w out w'}, zip.finish z w = (.ok out, w') →
    v.finalPath out = v.path z ∧ v.finalEntries out = v.entries z
  flush : ∀ {out w answer w'}, zip.flush out w = (answer, w') →
    ChangesOnly files (v.finalPath out) w w'
  /-- The archive that was written has the entries that were given. -/
  flush_ok : ∀ {out w w'}, zip.flush out w = (.ok (), w') →
    ∃ bytes, files w' (v.finalPath out).key = some bytes ∧
      entries? bytes = some (v.finalEntries out)
  discard : ∀ {z w w'}, zip.discard z w = ((), w') → ChangesOnly files (v.path z) w w'

end ArchiveLibrary

namespace Archive

variable {W : Type} {fs : FileSystem (StateM W)} {files : W → Files}

/-- The entries are part of the state. -/
def view (fs : FileSystem (StateM W)) : (library fs).View where
  path := Packing.path
  entries := Packing.entries
  finalPath out := out.toPacking.path
  finalEntries out := out.toPacking.entries

theorem flush_changesOnly (hfs : fs.ActsLocallyOn files) {path : Path} {bytes : Bytes} {w w' : W}
    {answer : Except FileError Unit} (h : fs.write path bytes w = (answer, w')) :
    ChangesOnly files path w w' := by
  intro k hk
  cases answer with
  | ok u => rw [hfs.write_ok h, Function.update_of_ne hk]
  | error e => exact hfs.write_error h k hk

/-- The library writes the entries that it is given, and no name twice. -/
theorem laws_library (hfs : fs.ActsLocallyOn files) :
    (library fs).Laws files decode? (view fs) where
  attach h := by
    cases h
    exact ⟨rfl, rfl, .of_eq rfl⟩
  start {name options z w answer z' w'} h := by
    dsimp only [library] at h
    split at h <;> cases h <;> exact ⟨rfl, .of_eq rfl⟩
  start_ok {name options z w z' w'} h := by
    dsimp only [library] at h
    split at h
    · cases h
    · rename_i hnew
      cases h
      exact ⟨hnew, rfl⟩
  write {bytes z w answer z' w'} h := by
    dsimp only [library] at h
    cases hlast : (Packing.entries z).getLast? with
    | none =>
      rw [hlast] at h
      cases h
      exact ⟨rfl, .of_eq rfl⟩
    | some e =>
      rw [hlast] at h
      cases h
      exact ⟨rfl, .of_eq rfl⟩
  write_ok {bytes z w z' w' before e} h hlast := by
    dsimp only [library] at h
    dsimp only [view] at hlast
    rw [hlast, List.getLast?_concat, List.dropLast_concat] at h
    cases h
    rfl
  finish {z w answer w'} h := by
    dsimp only [library] at h
    split at h <;> cases h <;> exact .of_eq rfl
  finish_ok {z w out w'} h := by
    dsimp only [library] at h
    split at h
    · cases h
      exact ⟨rfl, rfl⟩
    · cases h
  flush h := flush_changesOnly hfs h
  flush_ok {out w w'} h := by
    refine ⟨encode out.toPacking.entries, ?_, decode?_encode out.fits⟩
    rw [hfs.write_ok h]
    exact Function.update_self _ _ _
  discard h := by
    cases h
    exact .of_eq rfl

end Archive

end SchemaRecords.Output
