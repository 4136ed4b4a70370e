import Mathlib.Data.List.Nodup
import SchemaRecords.Output.Directory
import SchemaRecords.Proofs.Output.Files

/-!
# What a class directory remembers

A class directory that has written files knows what they held before, also after a
class that it could not write. So undoing brings all files back.

* `receive_cases`: what can happen when a class is received.
* `Tracks`: what the directory knows of the files it has written.
* `Tracks.receive`: receiving a class maintains that.
* `files_undo_eq`: what undoing makes of each file, also of one that was written twice.
* `files_undo`: undoing brings back the files of before.
-/

namespace SchemaRecords.Output

open SchemaRecords.ClassFile (Bytes)
open SchemaRecords.Record (Artifact)

variable {W : Type} {fs : FileSystem (StateM W)} {files : W → Files}

namespace DirectorySink

theorem createParent_preserves (h : fs.ActsLocallyOn files) (path : Path) :
    Preserves files (createParent fs path) := by
  unfold createParent
  split
  · exact .pure _
  · refine (h.createEach _).bind fun made => ?_
    split
    · exact .pure _
    · exact .pure _

/-! ## Receiving a class -/

/-- The state in which the content of a file is remembered, if there is a file. -/
def saving (d : DirectorySink) (path : Path) (f : Files) : DirectorySink :=
  match f path.key with
  | some previous => d.remember path previous
  | none => d

/-- The state after a file was written. -/
def wrote (d : DirectorySink) (path : Path) : DirectorySink :=
  { d with written := d.written ++ [path] }

variable {d d' : DirectorySink} {w w' : W} {a : Artifact} {answer : Except DeliveryError Unit}

/-- A file is entered in the list once its write has succeeded. -/
theorem store_cases {path : Path} {bytes : Bytes}
    (h : store fs path bytes d w = ((answer, d'), w')) :
    (∃ e, answer = .error (.file path e) ∧ d' = d ∧ fs.write path bytes w = (.error e, w')) ∨
      answer = .ok () ∧ d' = d.wrote path ∧ fs.write path bytes w = (.ok (), w') := by
  cases hwrite : fs.write path bytes w with
  | mk result w₁ =>
    rw [store, run_bind_eq hwrite] at h
    cases result with
    | error e =>
      cases h
      exact .inl ⟨e, rfl, rfl, rfl⟩
    | ok _ =>
      cases h
      exact .inr ⟨rfl, rfl, rfl⟩

/-- A class is stored once its directory is there and its file has been read. -/
theorem receive_store (hfs : fs.ActsLocallyOn files) (h : receive fs a d w = ((answer, d'), w')) :
    (∃ e, answer = .error e ∧ d' = d ∧ files w' = files w) ∨
      ∃ w₁, files w₁ = files w ∧
        store fs (d.target a) a.bytes (d.saving (d.target a) (files w)) w₁ = ((answer, d'), w') := by
  rw [receive] at h
  cases hparent : createParent fs (d.target a) w with
  | mk made w₁ =>
  have hfiles₁ : files w₁ = files w := by
    have := createParent_preserves hfs (d.target a) w
    rwa [hparent] at this
  rw [run_bind_eq hparent] at h
  cases made with
  | error e =>
    cases h
    exact .inl ⟨e, rfl, rfl, hfiles₁⟩
  | ok _ =>
  dsimp only at h
  cases hread : fs.read (d.target a) w₁ with
  | mk found w₂ =>
  have hfiles₂ : files w₂ = files w := by
    have := hfs.read (d.target a) w₁
    rw [hread] at this
    exact this.trans hfiles₁
  rw [run_bind_eq hread] at h
  split at h
  · have hprevious := hfs.read_ok hread
    rw [hfiles₁] at hprevious
    exact .inr ⟨w₂, hfiles₂, by rwa [saving, hprevious]⟩
  · have habsent := hfs.read_notFound hread
    rw [hfiles₁] at habsent
    exact .inr ⟨w₂, hfiles₂, by rwa [saving, habsent]⟩
  · cases h
    exact .inl ⟨_, rfl, rfl, hfiles₂⟩

/-- What happens when a class is received. Either it fails, after the previous content of its file
was remembered or even before, and no file has changed; or its file is written. -/
theorem receive_cases (hfs : fs.ActsOn files) (h : receive fs a d w = ((answer, d'), w')) :
    (∃ e, answer = .error e ∧ (d' = d ∨ d' = d.saving (d.target a) (files w)) ∧
        files w' = files w) ∨
      answer = .ok () ∧ d' = (d.saving (d.target a) (files w)).wrote (d.target a) ∧
        files w' = Function.update (files w) (d.target a).key (some a.bytes) := by
  obtain ⟨e, hanswer, hd', hfiles⟩ | ⟨w₁, hfiles₁, hstore⟩ := receive_store hfs.toActsLocallyOn h
  · exact .inl ⟨e, hanswer, .inl hd', hfiles⟩
  · obtain ⟨e, hanswer, hd', hwrite⟩ | ⟨hanswer, hd', hwrite⟩ := store_cases hstore
    · exact .inl ⟨_, hanswer, .inr hd', (hfs.write_failed hwrite).trans hfiles₁⟩
    · exact .inr ⟨hanswer, hd', hfiles₁ ▸ hfs.write_ok hwrite⟩

/-- What happens when a class is received and writes are not atomic. If it fails, no file has
changed but that of the class. -/
theorem receive_cases_locally (hfs : fs.ActsLocallyOn files)
    (h : receive fs a d w = ((answer, d'), w')) :
    (∃ e, answer = .error e ∧ (d' = d ∨ d' = d.saving (d.target a) (files w)) ∧
        ∀ k, k ≠ (d.target a).key → files w' k = files w k) ∨
      answer = .ok () ∧ d' = (d.saving (d.target a) (files w)).wrote (d.target a) ∧
        files w' = Function.update (files w) (d.target a).key (some a.bytes) := by
  obtain ⟨e, hanswer, hd', hfiles⟩ | ⟨w₁, hfiles₁, hstore⟩ := receive_store hfs h
  · exact .inl ⟨e, hanswer, .inl hd', fun k _ => congrFun hfiles k⟩
  · obtain ⟨e, hanswer, hd', hwrite⟩ | ⟨hanswer, hd', hwrite⟩ := store_cases hstore
    · exact .inl ⟨_, hanswer, .inr hd', fun k hk => hfiles₁ ▸ hfs.write_error hwrite k hk⟩
    · exact .inr ⟨hanswer, hd', hfiles₁ ▸ hfs.write_ok hwrite⟩

/-! ## What a directory keeps track of -/

/-- Saving changes only what is remembered. -/
theorem saving_eq (d : DirectorySink) (path : Path) (f : Files) :
    d.saving path f = { d with replaced := (d.saving path f).replaced } := by
  unfold saving remember
  split
  · split <;> rfl
  · rfl

@[simp] theorem root_saving (d : DirectorySink) (path : Path) (f : Files) :
    (d.saving path f).root = d.root := by
  rw [saving_eq]

@[simp] theorem written_saving (d : DirectorySink) (path : Path) (f : Files) :
    (d.saving path f).written = d.written := by
  rw [saving_eq]

theorem lookup_remember (d : DirectorySink) (path : Path) (content : Bytes)
    (k : List (List Char)) :
    (d.remember path content).replaced.lookup k =
      if k = path.key then some ((d.replaced.lookup path.key).getD content)
      else d.replaced.lookup k := by
  unfold remember
  cases hlookup : d.replaced.lookup path.key with
  | some bytes =>
    by_cases hk : k = path.key
    · simp [hk, hlookup]
    · simp [hk]
  | none =>
    by_cases hk : k = path.key
    · simp [hk]
    · simp [hk, List.lookup_cons, beq_false_of_ne hk]

/-- What is remembered of a file that is saved: what was remembered before, or else what it
holds. -/
theorem lookup_saving (d : DirectorySink) (path : Path) (f : Files) (k : List (List Char)) :
    (d.saving path f).replaced.lookup k =
      if k = path.key then (d.replaced.lookup k).or (f k) else d.replaced.lookup k := by
  unfold saving
  cases hprevious : f path.key with
  | some previous =>
    dsimp only
    rw [lookup_remember]
    by_cases hk : k = path.key
    · rw [if_pos hk, if_pos hk, hk, hprevious]
      cases d.replaced.lookup path.key <;> rfl
    · rw [if_neg hk, if_neg hk]
  | none =>
    by_cases hk : k = path.key
    · rw [if_pos hk, hk, hprevious, Option.or_none]
    · rw [if_neg hk]

/-- The keys of the files written. -/
def keys (d : DirectorySink) : List (List (List Char)) := d.written.map Path.key

theorem keys_wrote (d : DirectorySink) (path : Path) :
    (d.wrote path).keys = d.keys ++ [path.key] := by
  simp [keys, wrote]

/-- The directory keeps track of what its files held when they were those of `before`. -/
structure Tracks (before : Files) (d : DirectorySink) (now : Files) : Prop where
  /-- No file was written twice. -/
  nodup : d.keys.Nodup
  /-- Other files are as they were. -/
  untouched : ∀ k, k ∉ d.keys → now k = before k
  /-- What is remembered was there. -/
  remembered : ∀ k bytes, d.replaced.lookup k = some bytes → before k = some bytes
  /-- Of the files written, all that was there is remembered. -/
  complete : ∀ k ∈ d.keys, d.replaced.lookup k = before k

namespace Tracks

variable {before now : Files} {path : Path}

/-- After saving, the file's entry is what it held, and other entries are as they were. -/
theorem lookup_saving (h : d.Tracks before now) (hpath : path.key ∉ d.keys) (k : List (List Char)) :
    (d.saving path now).replaced.lookup k =
      if k = path.key then before k else d.replaced.lookup k := by
  rw [DirectorySink.lookup_saving]
  by_cases hk : k = path.key
  · rw [if_pos hk, if_pos hk, hk, h.untouched _ hpath]
    cases hlookup : d.replaced.lookup path.key with
    | some bytes => rw [h.remembered _ _ hlookup, Option.some_or]
    | none => rw [Option.none_or]
  · rw [if_neg hk, if_neg hk]

theorem saving (h : d.Tracks before now) (hpath : path.key ∉ d.keys) :
    (d.saving path now).Tracks before now where
  nodup := by simpa [keys] using h.nodup
  untouched := by simpa [keys] using h.untouched
  remembered k bytes hk := by
    rw [h.lookup_saving hpath] at hk
    split at hk
    · exact hk
    · exact h.remembered k bytes hk
  complete k hk := by
    have hmem : k ∈ d.keys := by simpa [keys] using hk
    rw [h.lookup_saving hpath]
    split
    · rfl
    · exact h.complete k hmem

theorem wrote (h : d.Tracks before now) (hpath : path.key ∉ d.keys)
    (hlookup : d.replaced.lookup path.key = before path.key) (bytes : Bytes) :
    (d.wrote path).Tracks before (Function.update now path.key (some bytes)) where
  nodup := by
    rw [keys_wrote, List.nodup_append_comm]
    exact List.nodup_cons.2 ⟨hpath, h.nodup⟩
  untouched k hk := by
    rw [keys_wrote, List.mem_append, not_or, List.mem_singleton] at hk
    rw [Function.update_of_ne hk.2]
    exact h.untouched k hk.1
  remembered := h.remembered
  complete k hk := by
    rw [keys_wrote, List.mem_append, List.mem_singleton] at hk
    obtain hk | rfl := hk
    · exact h.complete k hk
    · exact hlookup

/-- Receiving a class keeps track of the files, whether it succeeds or not. -/
theorem receive (hfs : fs.ActsOn files) (h : d.Tracks before (files w))
    (hkey : (d.target a).key ∉ d.keys) (hreceive : receive fs a d w = ((answer, d'), w')) :
    d'.Tracks before (files w') := by
  have hsaving := h.saving hkey
  obtain ⟨e, -, rfl | rfl, hfiles⟩ | ⟨-, rfl, hfiles⟩ := receive_cases hfs hreceive
  · exact hfiles ▸ h
  · exact hfiles ▸ hsaving
  · rw [hfiles]
    apply hsaving.wrote
    · simpa [keys] using hkey
    · rw [h.lookup_saving hkey, if_pos rfl]

end Tracks

/-! ## Undoing -/

section

variable {m : Type → Type} [Monad m]

/-- Gives a file the content it had, or removes a file that was not there. -/
def restore (fs : FileSystem m) (path : Path) : Option Bytes → m (Except FileError Unit)
  | some previous => fs.write path previous
  | none => fs.remove path

theorem undo_cons (fs : FileSystem m) (replaced : List (List (List Char) × Bytes)) (path : Path)
    (rest : List Path) :
    undo fs replaced (path :: rest) = (do
      let _ ← restore fs path (replaced.lookup path.key)
      undo fs (replaced.filter fun entry => entry.1 ≠ path.key) rest) := by
  rw [undo]
  cases replaced.lookup path.key with
  | some previous => rfl
  | none => rfl

theorem restore_watched (fs : FileSystem m) (path : Path) (content : Option Bytes) :
    restore fs.watched path content = watching (restore fs path content) := by
  cases content with
  | some previous => rfl
  | none => rfl

end

theorem restore_ok (hfs : fs.ActsLocallyOn files) {path : Path} {content : Option Bytes}
    (h : restore fs path content w = (.ok (), w')) :
    files w' = Function.update (files w) path.key content := by
  cases content with
  | some previous => exact hfs.write_ok h
  | none => exact hfs.remove_ok h

theorem lookup_filter {replaced : List (List (List Char) × Bytes)} {k k' : List (List Char)}
    (h : k ≠ k') :
    (replaced.filter fun entry => entry.1 ≠ k').lookup k = replaced.lookup k := by
  induction replaced with
  | nil => rfl
  | cons entry replaced ih =>
    by_cases hentry : entry.1 = k'
    · have hne : (k == entry.1) = false := beq_false_of_ne (hentry ▸ h)
      rw [List.filter_cons_of_neg (by simpa using hentry), ih, List.lookup_cons, hne]
    · rw [List.filter_cons_of_pos (by simpa using hentry), List.lookup_cons, List.lookup_cons, ih]

/-- One file is restored, then the others. -/
theorem undo_watched_cons {replaced : List (List (List Char) × Bytes)} {path : Path}
    {result : Except FileError Unit} (h : restore fs path (replaced.lookup path.key) w = (result, w'))
    (rest : List Path) (failures : List FileError) :
    undo fs.watched replaced (path :: rest) failures w =
      undo fs.watched (replaced.filter fun entry => entry.1 ≠ path.key) rest (noted failures result)
        w' := by
  have hwatching : watching (restore fs path (replaced.lookup path.key)) failures w =
      ((result, noted failures result), w') := run_bind_eq h
  have hnext : undo fs.watched replaced (path :: rest) failures =
      (watching (restore fs path (replaced.lookup path.key)) failures >>= fun answered =>
        undo fs.watched (replaced.filter fun entry => entry.1 ≠ path.key) rest answered.2) := by
    rw [undo_cons, restore_watched]
    rfl
  rw [hnext, run_bind_eq hwatching]

/-- Failures that were noted stay noted. -/
theorem failures_undo (fs : FileSystem (StateM W)) (replaced : List (List (List Char) × Bytes))
    (paths : List Path) (failures : List FileError) (w : W) :
    failures <+: (undo fs.watched replaced paths failures w).1.2 := by
  induction paths generalizing replaced failures w with
  | nil => exact List.prefix_rfl
  | cons path rest ih =>
    rw [undo_watched_cons rfl]
    refine List.IsPrefix.trans ?_ (ih _ _ _)
    unfold noted
    split
    · exact List.prefix_rfl
    · exact List.prefix_append _ _

theorem lookup_filter_self (replaced : List (List (List Char) × Bytes)) (k : List (List Char)) :
    (replaced.filter fun entry => entry.1 ≠ k).lookup k = none := by
  rw [List.lookup_eq_none_iff]
  intro entry hentry
  have hne : entry.1 ≠ k := by simpa using (List.mem_filter.1 hentry).2
  exact bne_iff_ne.2 hne.symm

/-- What undoing makes of a file, if no call fails. A file that is not in the list stays as it is,
and one that stands there once gets back what is remembered. A second restoration of a file finds
nothing remembered any more and removes it. -/
theorem files_undo_eq (hfs : fs.ActsLocallyOn files) {replaced : List (List (List Char) × Bytes)}
    {paths : List Path} {failures : List FileError}
    (hclean : (undo fs.watched replaced paths failures w).1.2 = []) (k : List (List Char)) :
    files (undo fs replaced paths w).2 k =
      match (paths.map Path.key).count k with
      | 0 => files w k
      | 1 => replaced.lookup k
      | _ + 2 => none := by
  induction paths generalizing replaced failures w with
  | nil => rfl
  | cons path rest ih =>
    cases hrestore : restore fs path (replaced.lookup path.key) w with
    | mk result w₁ =>
    rw [undo_watched_cons hrestore] at hclean
    rw [undo_cons, run_bind_eq hrestore]
    cases result with
    | error e =>
      have hprefix := failures_undo fs (replaced.filter fun entry => entry.1 ≠ path.key) rest
        (failures ++ [e]) w₁
      rw [noted] at hclean
      rw [hclean, List.prefix_nil] at hprefix
      simp at hprefix
    | ok _ =>
      rw [ih hclean, restore_ok hfs hrestore, List.map_cons]
      by_cases hk : k = path.key
      · subst hk
        rw [List.count_cons_self, Function.update_self, lookup_filter_self]
        cases (rest.map Path.key).count path.key with
        | zero => rfl
        | succ n => cases n <;> rfl
      · rw [List.count_cons_of_ne (Ne.symm hk), Function.update_of_ne hk, lookup_filter hk]

/-- Undoing brings back the files of before, if what is remembered of the files written is what
they held, all other files are as they were, and no call fails. -/
theorem files_undo (hfs : fs.ActsLocallyOn files) {before : Files}
    {replaced : List (List (List Char) × Bytes)} {paths : List Path} {failures : List FileError}
    (hnodup : (paths.map Path.key).Nodup)
    (huntouched : ∀ k, k ∉ paths.map Path.key → files w k = before k)
    (hcomplete : ∀ k ∈ paths.map Path.key, replaced.lookup k = before k)
    (hclean : (undo fs.watched replaced paths failures w).1.2 = []) :
    files (undo fs replaced paths w).2 = before := by
  funext k
  rw [files_undo_eq hfs hclean]
  by_cases hk : k ∈ paths.map Path.key
  · rw [List.count_eq_one_of_mem hnodup hk]
    exact hcomplete k hk
  · rw [List.count_eq_zero_of_not_mem hk]
    exact huntouched k hk

end DirectorySink

end SchemaRecords.Output
