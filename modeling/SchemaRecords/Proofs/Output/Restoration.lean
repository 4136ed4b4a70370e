import SchemaRecords.Output.FileTree
import SchemaRecords.Proofs.Output.Directory

/-!
# What an abort restores

A class directory that was prepared is handed any classes, some of them perhaps twice,
and the writes of some fail halfway. If all calls of the abort succeed, it is known of
every file what it holds afterwards.

* A file that was written once gets back what it held. A file that was written twice is
  gone, for the second restoration of a file removes it (`abort_after_repeats`).
* A file whose write failed is not in the list of files written, so it stays as the
  failed write left it (`abort_after_failures`).

`Keeps` is what the directory knows meanwhile: one class preserves it (`Keeps.receive`),
hence so does any number of them (`Keeps.runs`).
-/

namespace SchemaRecords.Output

open SchemaRecords.Record (Artifact)

variable {W : Type} {fs : FileSystem (StateM W)} {files : W → Files}

/-- The call in which a class is handed over and the answer to it. -/
def Call.handing (h : Artifact × Except DeliveryError Unit) : Call := .receive h.1 h.2

theorem Sink.answers_receive {m : Type → Type} [Monad m] {σ : Type} {M : Machine m σ}
    {sink : Sink m} {w : σ} {a : Artifact} {answer : Except DeliveryError Unit}
    (h : (M.run (sink.receive a) w).1 = answer) :
    sink.Answers M w (.receive a answer) (M.run (sink.receive a) w).2 :=
  Prod.ext h rfl

namespace DirectorySink

variable {d d' : DirectorySink} {w w' : W} {a : Artifact} {answer : Except DeliveryError Unit}
  {handed : List (Artifact × Except DeliveryError Unit)}

/-! ## Classes that are handed over -/

/-- The places of the classes that a directory has taken. -/
def taken (root : Path) (handed : List (Artifact × Except DeliveryError Unit)) :
    List (List (List Char)) :=
  (handed.filter fun h => h.2.isOk).map fun h => place root h.1

/-- The places of the classes that a directory has failed to take. -/
def refused (root : Path) (handed : List (Artifact × Except DeliveryError Unit)) :
    List (List (List Char)) :=
  (handed.filter fun h => !h.2.isOk).map fun h => place root h.1

theorem taken_ok (root : Path) (artifacts : List Artifact) :
    taken root (artifacts.map fun a => (a, .ok ())) = artifacts.map (place root) := by
  induction artifacts with
  | nil => rfl
  | cons a artifacts ih => exact congrArg (place root a :: ·) ih

theorem refused_ok (root : Path) (artifacts : List Artifact) :
    refused root (artifacts.map fun a => (a, .ok ())) = [] := by
  induction artifacts with
  | nil => rfl
  | cons a artifacts ih => exact ih

/-- No place of a class that was not taken is the place of another class. -/
def Apart (root : Path) (handed : List (Artifact × Except DeliveryError Unit)) : Prop :=
  handed.Pairwise fun h h' => (h.2.isOk && h'.2.isOk) = false → place root h.1 ≠ place root h'.1

theorem apart_ok (root : Path) (artifacts : List Artifact) :
    Apart root (artifacts.map fun a => (a, .ok ())) := by
  refine List.pairwise_map.2 (List.pairwise_of_forall fun _ _ hfailed => ?_)
  cases hfailed

theorem apart_of_nodup {root : Path} (h : (handed.map fun h => place root h.1).Nodup) :
    Apart root handed := by
  refine List.Pairwise.imp ?_ (List.pairwise_map.1 h)
  exact fun hne _ => hne

/-! ## What the directory knows -/

/-- The directory keeps what its files held when they were those of `before`, apart from the files
at the places `torn`, whose writes have failed. -/
structure Keeps (before : Files) (torn : List (List (List Char))) (d : DirectorySink)
    (now : Files) : Prop where
  /-- A file whose write has failed was not written. -/
  apart : ∀ k ∈ torn, k ∉ d.keys
  /-- Other files that were not written are as they were, and nothing is remembered of them. -/
  untouched : ∀ k, k ∉ d.keys → k ∉ torn → now k = before k ∧ d.replaced.lookup k = none
  /-- Of a file that was written once, all that was there is remembered. -/
  once : ∀ k, d.keys.count k = 1 → d.replaced.lookup k = before k

theorem keeps_prepared (d : DirectorySink) (f : Files) :
    Keeps f [] { d with written := [], replaced := [] } f where
  apart _ hk := by cases hk
  untouched _ _ _ := ⟨rfl, rfl⟩
  once _ hk := by cases hk

namespace Keeps

variable {before now now' : Files} {torn : List (List (List Char))} {path : Path}

theorem lookup_saving_of_ne (d : DirectorySink) {k : List (List Char)} (hk : k ≠ path.key) :
    (d.saving path now).replaced.lookup k = d.replaced.lookup k := by
  rw [lookup_saving, if_neg hk]

/-- A write fails halfway, whether or not the file's content had been remembered. -/
theorem tear (h : d.Keeps before torn now) (hpath : path.key ∉ d.keys)
    (hd' : d' = d ∨ d' = d.saving path now) (hnow : ∀ k, k ≠ path.key → now' k = now k) :
    d'.Keeps before (torn ++ [path.key]) now' := by
  have hkeys : d'.keys = d.keys := by
    obtain rfl | rfl := hd'
    · rfl
    · rw [keys, written_saving, keys]
  have hlookup : ∀ k, k ≠ path.key → d'.replaced.lookup k = d.replaced.lookup k := by
    intro k hk
    obtain rfl | rfl := hd'
    · rfl
    · exact lookup_saving_of_ne d hk
  refine ⟨fun k hk => ?_, fun k hk htorn => ?_, fun k hk => ?_⟩
  · rw [hkeys]
    rw [List.mem_append, List.mem_singleton] at hk
    obtain hk | rfl := hk
    · exact h.apart k hk
    · exact hpath
  · rw [hkeys] at hk
    rw [List.mem_append, List.mem_singleton, not_or] at htorn
    rw [hnow k htorn.2, hlookup k htorn.2]
    exact h.untouched k hk htorn.1
  · rw [hkeys] at hk
    have hmem : k ∈ d.keys := List.count_pos_iff.1 (by omega)
    rw [hlookup k fun heq => hpath (heq ▸ hmem)]
    exact h.once k hk

/-- A file is written, perhaps not for the first time. -/
theorem write (h : d.Keeps before torn now) (hpath : path.key ∉ torn) (content : ClassFile.Bytes) :
    ((d.saving path now).wrote path).Keeps before torn
      (Function.update now path.key (some content)) := by
  have hkeys : ((d.saving path now).wrote path).keys = d.keys ++ [path.key] := by
    rw [keys_wrote, keys, written_saving, keys]
  have hlookup : ∀ k, ((d.saving path now).wrote path).replaced.lookup k =
      (d.saving path now).replaced.lookup k := fun _ => rfl
  refine ⟨fun k hk hmem => ?_, fun k hk htorn => ?_, fun k hk => ?_⟩
  · rw [hkeys, List.mem_append, List.mem_singleton] at hmem
    obtain hmem | rfl := hmem
    · exact h.apart k hk hmem
    · exact hpath hk
  · rw [hkeys, List.mem_append, List.mem_singleton, not_or] at hk
    rw [Function.update_of_ne hk.2, hlookup, lookup_saving_of_ne d hk.2]
    exact h.untouched k hk.1 htorn
  · rw [hkeys, List.count_append, List.count_singleton] at hk
    rw [hlookup]
    by_cases hkey : k = path.key
    · -- the first time, the file still holds what it held
      subst hkey
      rw [beq_self_eq_true, if_pos rfl] at hk
      have hnew : path.key ∉ d.keys := List.count_eq_zero.1 (by omega)
      obtain ⟨hheld, hnothing⟩ := h.untouched _ hnew hpath
      rw [lookup_saving, if_pos rfl, hnothing, Option.none_or, hheld]
    · rw [beq_false_of_ne (Ne.symm hkey)] at hk
      rw [lookup_saving_of_ne d hkey]
      exact h.once k (by simpa using hk)

/-- A class is received, with success or not. -/
theorem receive (hfs : fs.ActsLocallyOn files) (h : d.Keeps before torn (files w))
    (htorn : place d.root a ∉ torn) (hnew : answer.isOk = false → place d.root a ∉ d.keys)
    (hreceive : DirectorySink.receive fs a d w = ((answer, d'), w')) :
    d'.root = d.root ∧ d'.keys = d.keys ++ taken d.root [(a, answer)] ∧
      d'.Keeps before (torn ++ refused d.root [(a, answer)]) (files w') := by
  obtain ⟨e, rfl, hd', hfiles⟩ | ⟨rfl, rfl, hfiles⟩ := receive_cases_locally hfs hreceive
  · have hsame : d'.root = d.root ∧ d'.keys = d.keys := by
      obtain rfl | rfl := hd'
      · exact ⟨rfl, rfl⟩
      · exact ⟨root_saving d _ _, by rw [keys, written_saving, keys]⟩
    exact ⟨hsame.1, hsame.2.trans (List.append_nil _).symm, h.tear (hnew rfl) hd' hfiles⟩
  · refine ⟨root_saving d _ _, ?_, ?_⟩
    · rw [keys_wrote, keys, written_saving]
      rfl
    · have hwrite := h.write htorn a.bytes
      rw [hfiles]
      show Keeps before (torn ++ []) _ _
      rw [List.append_nil]
      exact hwrite

/-- Any number of classes is received. -/
theorem runs (hfs : fs.ActsLocallyOn files) (h : d.Keeps before torn (files w))
    (hapart : Apart d.root handed)
    (hnew : ∀ h ∈ handed,
      place d.root h.1 ∉ torn ∧ (h.2.isOk = false → place d.root h.1 ∉ d.keys))
    (hruns : (sink fs).Runs (machine W) (d, w) (handed.map Call.handing) (d', w')) :
    d'.keys = d.keys ++ taken d.root handed ∧
      d'.Keeps before (torn ++ refused d.root handed) (files w') := by
  induction handed generalizing d w torn with
  | nil =>
    cases hruns
    exact ⟨(List.append_nil _).symm, by simpa [refused] using h⟩
  | cons first rest ih =>
    obtain ⟨a, answer⟩ := first
    cases hruns with
    | @cons _ u _ _ _ hanswers hrest =>
    obtain ⟨d₁, w₁⟩ := u
    obtain ⟨hfirst, hlater⟩ := List.pairwise_cons.1 hapart
    obtain ⟨⟨htorn, hkeys⟩, hnew⟩ := List.forall_mem_cons.1 hnew
    obtain ⟨hroot, hkeys₁, hkeeps⟩ :=
      h.receive hfs htorn hkeys (Machine.run_withState_iff.1 hanswers)
    -- later classes keep away from the place of this one, unless both are taken
    have hnext : ∀ h ∈ rest, place d.root h.1 ∉ torn ++ refused d.root [(a, answer)] ∧
        (h.2.isOk = false → place d.root h.1 ∉ d₁.keys) := by
      intro h hh
      obtain ⟨hnotTorn, hnotKeys⟩ := hnew h hh
      have hne := hfirst h hh
      rw [hkeys₁]
      cases hanswer : answer.isOk with
      | true =>
        refine ⟨by simpa [refused, hanswer] using hnotTorn, fun hfailed => ?_⟩
        simpa [taken, hanswer, hnotKeys hfailed] using (hne (by rw [hfailed, Bool.and_false])).symm
      | false =>
        refine ⟨?_, fun hfailed => by simpa [taken, hanswer] using hnotKeys hfailed⟩
        simpa [refused, hanswer, hnotTorn] using (hne (by rw [hanswer, Bool.false_and])).symm
    rw [← hroot] at hlater hnext hkeeps
    obtain ⟨hkeys', hkeeps'⟩ := ih hkeeps hlater hnext hrest
    rw [hroot] at hkeys' hkeeps'
    rw [hkeys₁, List.append_assoc, taken, taken, ← List.map_append, ← List.filter_append] at hkeys'
    rw [List.append_assoc, refused, refused, ← List.map_append, ← List.filter_append] at hkeeps'
    exact ⟨hkeys', hkeeps'⟩

end Keeps

/-! ## The files after an abort -/

theorem files_abort (hfs : fs.ActsLocallyOn files) (hclean : d.failures fs w = [])
    (habort : (sink fs).Answers (machine W) (d, w) .abort (d', w')) (k : List (List Char)) :
    files w' k =
      match d.keys.count k with
      | 0 => files w k
      | 1 => d.replaced.lookup k
      | _ + 2 => none := by
  have hrun := Machine.run_withState_iff.1 habort
  have hw' : (undo fs d.replaced d.written w).2 = w' := congrArg Prod.snd hrun
  rw [← hw']
  exact files_undo_eq hfs hclean k

variable {d₀ d₁ d₂ : DirectorySink} {w₀ w₁ w₂ : W}

/-- What becomes of a file when a directory is prepared, handed classes and told to abort. -/
theorem files_of_abort (hfs : fs.ActsLocallyOn files)
    (hprepare : (sink fs).Answers (machine W) (d, w) (.prepare (.ok ())) (d₀, w₀))
    (hapart : Apart d.root handed)
    (hruns : (sink fs).Runs (machine W) (d₀, w₀) (handed.map Call.handing) (d₁, w₁))
    (hclean : d₁.failures fs w₁ = [])
    (habort : (sink fs).Answers (machine W) (d₁, w₁) .abort (d₂, w₂)) (k : List (List Char)) :
    files w₂ k =
      if k ∈ refused d.root handed then files w₁ k
      else if 1 < (taken d.root handed).count k then none
      else files w k := by
  obtain ⟨hfiles, hd₀⟩ := prepare_cases_locally hfs hprepare
  cases hd₀ rfl
  have hkeeps := keeps_prepared d (files w₀)
  obtain ⟨hkeys, hkeeps₁⟩ := hkeeps.runs hfs hapart
    (fun h _ => ⟨List.not_mem_nil, fun _ => List.not_mem_nil⟩) hruns
  replace hkeys : d₁.keys = taken d.root handed := hkeys
  rw [List.nil_append, hfiles] at hkeeps₁
  rw [files_abort hfs hclean habort k, ← hkeys]
  by_cases hk : k ∈ refused d.root handed
  · rw [if_pos hk, List.count_eq_zero_of_not_mem (hkeeps₁.apart k hk)]
  · rw [if_neg hk]
    cases hcount : d₁.keys.count k with
    | zero => exact (hkeeps₁.untouched k (List.count_eq_zero.1 hcount) hk).1
    | succ n =>
      cases n with
      | zero => exact hkeeps₁.once k hcount
      | succ n => rfl

/-! ## Classes that are handed over twice -/

/-- **A file that is written twice is lost.** When a directory that was prepared has taken any
classes and no call of an abort fails, then the abort gives every file that was written at most
once what it held before, and removes those that were written more often. So all files are as they
were just if no file that was there has been written twice. -/
theorem abort_after_repeats (hfs : fs.ActsLocallyOn files) {artifacts : List Artifact}
    (hprepare : (sink fs).Answers (machine W) (d, w) (.prepare (.ok ())) (d₀, w₀))
    (hruns : (sink fs).Runs (machine W) (d₀, w₀) (artifacts.map .taken) (d₁, w₁))
    (hclean : d₁.failures fs w₁ = [])
    (habort : (sink fs).Answers (machine W) (d₁, w₁) .abort (d₂, w₂)) :
    (∀ k, files w₂ k =
        if 1 < (artifacts.map (place d.root)).count k then none else files w k) ∧
      (files w₂ = files w ↔
        ∀ k, 1 < (artifacts.map (place d.root)).count k → files w k = none) := by
  have hfiles : ∀ k, files w₂ k =
      if 1 < (artifacts.map (place d.root)).count k then none else files w k := by
    intro k
    have hcalls : (artifacts.map fun a => (a, .ok ())).map Call.handing =
        artifacts.map Call.taken := List.map_map
    rw [← hcalls] at hruns
    have hk := files_of_abort hfs hprepare (apart_ok d.root artifacts) hruns hclean habort k
    rwa [refused_ok, taken_ok, if_neg List.not_mem_nil] at hk
  refine ⟨hfiles, fun hsame k hk => ?_, fun habsent => funext fun k => ?_⟩
  · rw [← hsame, hfiles k, if_pos hk]
  · rw [hfiles k]
    split
    · rename_i hk
      exact (habsent k hk).symm
    · rfl

namespace Bench

/-- A directory that was not used before. -/
def directory : DirectorySink := ⟨"out", [], []⟩

def top (bytes : ClassFile.Bytes) : Artifact := ⟨"Top", "Top", bytes⟩

def leaf (bytes : ClassFile.Bytes) : Artifact := ⟨"Leaf", "Leaf", bytes⟩

/-- One of the classes has a file already. -/
def stored : Files := Function.update (fun _ => none) (Path.key "out/Top.class") (some [1, 2])

/-- The same file in a tree. -/
def tree : FileTree := ⟨[], [(["out"], .directory), (["out", "Top.class"], .file [1, 2])]⟩

theorem prepares : (sink (.limited 3)).Answers (machine Files) (directory, stored)
    (.prepare (.ok ())) (directory, stored) := rfl

theorem exists_repeats : ∃ d₁ f₁ d₂ f₂,
    (sink (.limited 3)).Runs (machine Files) (directory, stored)
        ([top [3], leaf [4], top [5]].map .taken) (d₁, f₁) ∧
      d₁.failures (.limited 3) f₁ = [] ∧
      (sink (.limited 3)).Answers (machine Files) (d₁, f₁) .abort (d₂, f₂) :=
  ⟨_, _, _, _, .cons (Sink.answers_receive (by decide +kernel))
    (.cons (Sink.answers_receive (by decide +kernel))
      (.cons (Sink.answers_receive (by decide +kernel)) (.nil _))), by decide +kernel, rfl⟩

end Bench

theorem abort_after_repeats_bench : ∃ d₁ f₁ d₂ f₂,
    (sink (.limited 3)).Answers (machine Files) (Bench.directory, Bench.stored) (.prepare (.ok ()))
        (Bench.directory, Bench.stored) ∧
      (sink (.limited 3)).Runs (machine Files) (Bench.directory, Bench.stored)
        ([Bench.top [3], Bench.leaf [4], Bench.top [5]].map .taken) (d₁, f₁) ∧
      d₁.failures (.limited 3) f₁ = [] ∧
      (sink (.limited 3)).Answers (machine Files) (d₁, f₁) .abort (d₂, f₂) ∧
      f₂ (Path.key "out/Top.class") = none ∧ f₂ (Path.key "out/Leaf.class") = none := by
  obtain ⟨d₁, f₁, d₂, f₂, hruns, hclean, habort⟩ := Bench.exists_repeats
  have hfiles := (abort_after_repeats (FileSystem.limited_actsLocallyOn 3) Bench.prepares hruns
    hclean habort).1
  refine ⟨d₁, f₁, d₂, f₂, Bench.prepares, hruns, hclean, habort, (hfiles _).trans (if_pos ?_),
    (hfiles _).trans ((if_neg ?_).trans ?_)⟩
  · decide +kernel
  · decide +kernel
  · show Bench.stored (Path.key "out/Leaf.class") = none
    decide +kernel

/-- A file that is there is written twice, and the abort removes it. -/
theorem abort_removes_repeated_file : ∃ d₁ t₁ d₂ t₂,
    (sink FileTree.fileSystem).Answers (machine FileTree) (Bench.directory, Bench.tree)
        (.prepare (.ok ())) (Bench.directory, Bench.tree) ∧
      (sink FileTree.fileSystem).Runs (machine FileTree) (Bench.directory, Bench.tree)
        ([Bench.top [0xca, 0xfe], Bench.top [0xba, 0xbe]].map .taken) (d₁, t₁) ∧
      d₁.failures FileTree.fileSystem t₁ = [] ∧
      (sink FileTree.fileSystem).Answers (machine FileTree) (d₁, t₁) .abort (d₂, t₂) ∧
      Bench.tree.read "out/Top.class" = .ok [1, 2] ∧
      t₂.read "out/Top.class" = .error .notFound := by
  refine ⟨_, _, _, _, ?_, .cons (Sink.answers_receive (by decide +kernel))
    (.cons (Sink.answers_receive (by decide +kernel)) (.nil _)), by decide +kernel, rfl,
    by decide +kernel, by decide +kernel⟩
  show (machine FileTree).run (sink FileTree.fileSystem).prepare (Bench.directory, Bench.tree) =
    (.ok (), Bench.directory, Bench.tree)
  decide +kernel

/-! ## Writes that fail halfway -/

/-- **A write that fails halfway is not undone.** A directory that was prepared is handed classes
of different places, and writes may fail after they have changed their files. When no call of an
abort fails, then the abort gives every file what it held before, apart from those of the classes
that failed, which it leaves as they are. So all files are as they were just if no write that
failed had changed its file. -/
theorem abort_after_failures (hfs : fs.ActsLocallyOn files)
    (hprepare : (sink fs).Answers (machine W) (d, w) (.prepare (.ok ())) (d₀, w₀))
    (hplaces : (handed.map fun h => place d.root h.1).Nodup)
    (hruns : (sink fs).Runs (machine W) (d₀, w₀) (handed.map Call.handing) (d₁, w₁))
    (hclean : d₁.failures fs w₁ = [])
    (habort : (sink fs).Answers (machine W) (d₁, w₁) .abort (d₂, w₂)) :
    (∀ k, files w₂ k = if k ∈ refused d.root handed then files w₁ k else files w k) ∧
      (files w₂ = files w ↔ ∀ k ∈ refused d.root handed, files w₁ k = files w k) := by
  have hfiles : ∀ k, files w₂ k =
      if k ∈ refused d.root handed then files w₁ k else files w k := by
    intro k
    have hcount : (taken d.root handed).count k ≤ 1 :=
      List.nodup_iff_count_le_one.1 (hplaces.sublist (List.filter_sublist.map _)) k
    rw [files_of_abort hfs hprepare (apart_of_nodup hplaces) hruns hclean habort k,
      if_neg (Nat.not_lt.2 hcount)]
  refine ⟨hfiles, fun hsame k hk => ?_, fun hunchanged => funext fun k => ?_⟩
  · rw [← hsame, hfiles k, if_pos hk]
  · rw [hfiles k]
    split
    · rename_i hk
      exact hunchanged k hk
    · rfl

namespace Bench

/-- Three classes, of which the second is too long for the file system. -/
def delivered : List (Artifact × Except DeliveryError Unit) :=
  [(leaf [4], .ok ()), (top [0xca, 0xfe, 0xba, 0xbe], .error (.file "out/Top.class" .storageFull)),
    (⟨"Root", "Root", [6]⟩, .ok ())]

theorem exists_failures : ∃ d₁ f₁ d₂ f₂,
    (sink (.limited 3)).Runs (machine Files) (directory, stored) (delivered.map Call.handing)
        (d₁, f₁) ∧
      d₁.failures (.limited 3) f₁ = [] ∧
      (sink (.limited 3)).Answers (machine Files) (d₁, f₁) .abort (d₂, f₂) ∧
      f₁ (Path.key "out/Top.class") = some [0xca, 0xfe, 0xba] :=
  ⟨_, _, _, _, .cons (Sink.answers_receive (by decide +kernel))
    (.cons (Sink.answers_receive (by decide +kernel))
      (.cons (Sink.answers_receive (by decide +kernel)) (.nil _))), by decide +kernel, rfl,
    by decide +kernel⟩

end Bench

theorem abort_after_failures_bench : ∃ d₁ f₁ d₂ f₂,
    (sink (.limited 3)).Answers (machine Files) (Bench.directory, Bench.stored) (.prepare (.ok ()))
        (Bench.directory, Bench.stored) ∧
      (Bench.delivered.map fun h => place Bench.directory.root h.1).Nodup ∧
      (sink (.limited 3)).Runs (machine Files) (Bench.directory, Bench.stored)
        (Bench.delivered.map Call.handing) (d₁, f₁) ∧
      d₁.failures (.limited 3) f₁ = [] ∧
      (sink (.limited 3)).Answers (machine Files) (d₁, f₁) .abort (d₂, f₂) ∧
      f₂ (Path.key "out/Top.class") = some [0xca, 0xfe, 0xba] ∧
      f₂ (Path.key "out/Leaf.class") = none ∧ f₂ (Path.key "out/Root.class") = none := by
  obtain ⟨d₁, f₁, d₂, f₂, hruns, hclean, habort, htorn⟩ := Bench.exists_failures
  have hplaces : (Bench.delivered.map fun h => place Bench.directory.root h.1).Nodup := by
    decide +kernel
  have hfiles := (abort_after_failures (FileSystem.limited_actsLocallyOn 3) Bench.prepares hplaces
    hruns hclean habort).1
  have hheld : ∀ name, Path.key name ∉ refused Bench.directory.root Bench.delivered →
      f₂ (Path.key name) = Bench.stored (Path.key name) := fun _ hname =>
    (hfiles _).trans (if_neg hname)
  refine ⟨d₁, f₁, d₂, f₂, Bench.prepares, hplaces, hruns, hclean, habort, ?_, ?_, ?_⟩
  · exact ((hfiles _).trans (if_pos (by decide +kernel))).trans htorn
  · exact (hheld _ (by decide +kernel)).trans (by decide +kernel)
  · exact (hheld _ (by decide +kernel)).trans (by decide +kernel)

/-- The write of a class fails after it has replaced its file, and the abort does not bring the file
back. -/
theorem abort_keeps_torn_file : ∃ d₁ f₁ d₂ f₂,
    (sink (.limited 3)).Answers (machine Files) (Bench.directory, Bench.stored) (.prepare (.ok ()))
        (Bench.directory, Bench.stored) ∧
      (sink (.limited 3)).Runs (machine Files) (Bench.directory, Bench.stored)
        [.receive (Bench.top [0xca, 0xfe, 0xba, 0xbe])
          (.error (.file "out/Top.class" .storageFull))] (d₁, f₁) ∧
      d₁.failures (.limited 3) f₁ = [] ∧
      (sink (.limited 3)).Answers (machine Files) (d₁, f₁) .abort (d₂, f₂) ∧
      Bench.stored (Path.key "out/Top.class") = some [1, 2] ∧
      f₂ (Path.key "out/Top.class") = some [0xca, 0xfe, 0xba] :=
  ⟨_, _, _, _, Bench.prepares, .cons (Sink.answers_receive (by decide +kernel)) (.nil _),
    by decide +kernel, rfl, by decide +kernel, by decide +kernel⟩

end DirectorySink

end SchemaRecords.Output
