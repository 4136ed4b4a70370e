import Mathlib.Logic.Function.Basic
import SchemaRecords.Output.FileSystem

/-!
# Files

What is assumed of a file system: it acts on the contents of files, and making
directories changes none (`FileSystem.ActsLocallyOn`). A write that fails may have
changed its own file, unless what fails changes nothing (`FileSystem.ActsOn`).
`FileSystem.CreatesOn` adds that a file is only created where there is none. Any call
may fail, and `FileSystem.watched` notes which did.
-/

namespace SchemaRecords.Output

open SchemaRecords.ClassFile (Bytes)

/-- The contents of files, by the keys of their paths. -/
abbrev Files := List (List Char) → Option Bytes

/-- The file system acts on the files that a state holds, and a file that is said not to be there
is not. Its writes need not be atomic: one that fails may leave anything in its own file. -/
structure FileSystem.ActsLocallyOn {W : Type} (fs : FileSystem (StateM W)) (files : W → Files) :
    Prop where
  kind? : ∀ path w, files (fs.kind? path w).2 = files w
  createDirectory : ∀ path w, files (fs.createDirectory path w).2 = files w
  read : ∀ path w, files (fs.read path w).2 = files w
  read_ok : ∀ {path w w' bytes}, fs.read path w = (.ok bytes, w') → files w path.key = some bytes
  read_notFound : ∀ {path w w'}, fs.read path w = (.error .notFound, w') → files w path.key = none
  write_ok : ∀ {path bytes w w'}, fs.write path bytes w = (.ok (), w') →
    files w' = Function.update (files w) path.key (some bytes)
  write_error : ∀ {path bytes w e w'}, fs.write path bytes w = (.error e, w') →
    ∀ k, k ≠ path.key → files w' k = files w k
  remove_ok : ∀ {path w w'}, fs.remove path w = (.ok (), w') →
    files w' = Function.update (files w) path.key none

/-- The file system acts on the files that a state holds, and what fails changes no file. -/
structure FileSystem.ActsOn {W : Type} (fs : FileSystem (StateM W)) (files : W → Files) : Prop
    extends fs.ActsLocallyOn files where
  write_failed : ∀ {path bytes w e w'}, fs.write path bytes w = (.error e, w') → files w' = files w
  remove_failed : ∀ {path w e w'}, fs.remove path w = (.error e, w') → files w' = files w

/-- The file system also creates files, but only where there is none. -/
structure FileSystem.CreatesOn {W : Type} (fs : FileSystem (StateM W)) (files : W → Files) : Prop
    extends fs.ActsLocallyOn files where
  create_ok : ∀ {path w w'}, fs.create path w = (.ok (), w') →
    files w path.key = none ∧ files w' = Function.update (files w) path.key (some [])
  create_error : ∀ {path w e w'}, fs.create path w = (.error e, w') → files w' = files w

theorem run_bind_eq {W α β : Type} {x : StateM W α} {f : α → StateM W β} {w w' : W} {a : α}
    (h : x w = (a, w')) : (x >>= f) w = f a w' := by
  have hbind : (x >>= f) w = f (x w).1 (x w).2 := rfl
  rw [hbind, h]

/-- The program changes no file. -/
def Preserves {W α : Type} (files : W → Files) (x : StateM W α) : Prop :=
  ∀ w, files (x w).2 = files w

namespace Preserves

variable {W α β : Type} {files : W → Files}

theorem pure (a : α) : Preserves files (pure a : StateM W α) := fun _ => rfl

theorem bind {x : StateM W α} {f : α → StateM W β} (hx : Preserves files x)
    (hf : ∀ a, Preserves files (f a)) : Preserves files (x >>= f) := fun w =>
  (hf (x w).1 (x w).2).trans (hx w)

end Preserves

variable {W : Type} {fs : FileSystem (StateM W)} {files : W → Files}

namespace FileSystem

theorem ActsLocallyOn.isDirectory (h : fs.ActsLocallyOn files) (path : Path) :
    Preserves files (fs.isDirectory path) :=
  Preserves.bind (h.kind? path) fun _ => .pure _

/-- What remains to be done if a directory could not be made. -/
theorem ActsLocallyOn.orDirectory (h : fs.ActsLocallyOn files) (path : Path) (e : FileError) :
    Preserves files (do
      if ← fs.isDirectory path then return .ok () else return .error e : StateM W (Except _ Unit)) := by
  refine (h.isDirectory path).bind fun found => ?_
  cases found with
  | true => exact .pure _
  | false => exact .pure _

theorem ActsLocallyOn.createEach (h : fs.ActsLocallyOn files) (paths : List Path) :
    Preserves files (fs.createEach paths) := by
  induction paths with
  | nil => exact .pure _
  | cons path above ih =>
    unfold FileSystem.createEach
    split
    · exact .pure _
    · refine (Preserves.bind (h.createDirectory path) fun made => ?_)
      split
      · exact .pure _
      · refine ih.bind fun above => ?_
        split
        · exact .pure _
        · refine (Preserves.bind (h.createDirectory path) fun made => ?_)
          split
          · exact .pure _
          · exact h.orDirectory path _
      · exact h.orDirectory path _

end FileSystem

/-! ## Calls that fail -/

/-- The failures noted after an answer. -/
def noted {α : Type} (failures : List FileError) : Except FileError α → List FileError
  | .ok _ => failures
  | .error e => failures ++ [e]

/-- A call of a file system that notes its failure. -/
def watching {m : Type → Type} [Monad m] {α : Type} (x : m (Except FileError α)) :
    StateT (List FileError) m (Except FileError α) := fun failures => do
  let answer ← x
  return (answer, noted failures answer)

/-- The file system with a record of the calls that failed. -/
def FileSystem.watched {m : Type → Type} [Monad m] (fs : FileSystem m) :
    FileSystem (StateT (List FileError) m) where
  kind? path := StateT.lift (fs.kind? path)
  read path := watching (fs.read path)
  write path bytes := watching (fs.write path bytes)
  create path := watching (fs.create path)
  createDirectory path := watching (fs.createDirectory path)
  remove path := watching (fs.remove path)

/-! ## Files in memory -/

/-- Files in memory, and how often they can still be read. -/
structure Memory where
  files : Files
  reads : Nat

namespace Memory

/-- The operations on files in memory. -/
def fileSystem : FileSystem (StateM Memory) where
  kind? path := fun w => (if (w.files path.key).isSome then some .file else none, w)
  read path := fun w =>
    match w.reads, w.files path.key with
    | 0, _ => (.error .permissionDenied, w)
    | reads + 1, some bytes => (.ok bytes, { w with reads })
    | reads + 1, none => (.error .notFound, { w with reads })
  write path bytes := fun w =>
    (.ok (), { w with files := Function.update w.files path.key (some bytes) })
  create path := fun w =>
    if (w.files path.key).isSome then (.error .alreadyExists, w)
    else (.ok (), { w with files := Function.update w.files path.key (some []) })
  createDirectory _ := fun w => (.ok (), w)
  remove path := fun w => (.ok (), { w with files := Function.update w.files path.key none })

theorem fileSystem_actsOn : fileSystem.ActsOn Memory.files where
  kind? _ _ := rfl
  createDirectory _ _ := rfl
  read path w := by
    unfold fileSystem
    dsimp only
    split <;> rfl
  read_ok {path w w' bytes} h := by
    unfold fileSystem at h
    dsimp only at h
    split at h
    · cases h
    · rename_i hbytes
      cases h
      exact hbytes
    · cases h
  read_notFound {path w w'} h := by
    unfold fileSystem at h
    dsimp only at h
    split at h
    · cases h
    · cases h
    · rename_i hnone
      exact hnone
  write_ok h := by cases h; rfl
  write_error h := by cases h
  write_failed h := by cases h
  remove_ok h := by cases h; rfl
  remove_failed h := by cases h

end Memory

/-! ## Files of limited length -/

namespace FileSystem

/-- Files of which none can be longer than `limit`. A write that does not fit leaves as much as
fits. -/
def limited (limit : Nat) : FileSystem (StateM Files) where
  kind? path := fun f => (if (f path.key).isSome then some .file else none, f)
  read path := fun f =>
    match f path.key with
    | some bytes => (.ok bytes, f)
    | none => (.error .notFound, f)
  write path bytes := fun f =>
    if bytes.length ≤ limit then (.ok (), Function.update f path.key (some bytes))
    else (.error .storageFull, Function.update f path.key (some (bytes.take limit)))
  create path := fun f =>
    if (f path.key).isSome then (.error .alreadyExists, f)
    else (.ok (), Function.update f path.key (some []))
  createDirectory _ := fun f => (.ok (), f)
  remove path := fun f =>
    if (f path.key).isSome then (.ok (), Function.update f path.key none)
    else (.error .notFound, f)

theorem limited_actsLocallyOn (limit : Nat) : (limited limit).ActsLocallyOn id where
  kind? _ _ := rfl
  createDirectory _ _ := rfl
  read path f := by
    unfold limited
    dsimp only
    split <;> rfl
  read_ok {path f f' bytes} h := by
    unfold limited at h
    dsimp only at h
    split at h
    · rename_i hbytes
      cases h
      exact hbytes
    · cases h
  read_notFound {path f f'} h := by
    unfold limited at h
    dsimp only at h
    split at h
    · cases h
    · rename_i hnone
      exact hnone
  write_ok {path bytes f f'} h := by
    unfold limited at h
    dsimp only at h
    split at h
    · cases h
      rfl
    · cases h
  write_error {path bytes f e f'} h k hk := by
    unfold limited at h
    dsimp only at h
    split at h
    · cases h
    · cases h
      exact Function.update_of_ne hk _ f
  remove_ok {path f f'} h := by
    unfold limited at h
    dsimp only at h
    split at h
    · cases h
      rfl
    · cases h

theorem limited_createsOn (limit : Nat) : (limited limit).CreatesOn id where
  toActsLocallyOn := limited_actsLocallyOn limit
  create_ok {path f f'} h := by
    unfold limited at h
    dsimp only at h
    split at h
    · cases h
    · rename_i hnone
      cases h
      exact ⟨by simpa using hnone, rfl⟩
  create_error {path f e f'} h := by
    unfold limited at h
    dsimp only at h
    split at h
    · cases h
      rfl
    · cases h

end FileSystem

end SchemaRecords.Output
