import SchemaRecords.Proofs.Output.Placement
import SchemaRecords.Proofs.Output.Protocol
import SchemaRecords.Proofs.Output.Rollback

/-!
# Class directories are all or nothing

Any call of the file system may fail while classes are written, and the directory may
have been used before. As long as what an abort does succeeds, a compilation that
fails leaves every file as it was, and one that succeeds changes just the files of
its classes.

* `Tracks.runs`: what becomes of the files when classes are received.
* `Tracks.abort`: an abort brings back all files.
* `compileDocument_directory`: all or nothing.
-/

namespace SchemaRecords.Output

open SchemaRecords.Record (Artifact)

variable {W : Type} {fs : FileSystem (StateM W)} {files : W → Files}

namespace DirectorySink

variable {d d' : DirectorySink} {w w' : W} {a : Artifact} {answer : Except DeliveryError Unit}

/-! ## Any number of classes -/

/-- Programs of class directories on a file system. -/
def machine (W : Type) : Machine (StateT DirectorySink (StateM W)) (DirectorySink × W) :=
  (Machine.state W).withState DirectorySink

/-- Where the file of a class stands below a directory. -/
def place (root : Path) (a : Artifact) : List (List Char) := (root.join a.resourcePath).key

theorem receive_ok (hfs : fs.ActsOn files) (h : receive fs a d w = ((.ok (), d'), w')) :
    d'.root = d.root ∧ d'.keys = d.keys ++ [place d.root a] ∧
      files w' = Function.update (files w) (place d.root a) (some a.bytes) := by
  obtain ⟨e, he, -⟩ | ⟨-, rfl, hfiles⟩ := receive_cases hfs h
  · cases he
  · refine ⟨root_saving d _ _, ?_, hfiles⟩
    rw [keys_wrote, keys, written_saving]
    rfl

/-- The files are those of before, except that the files of classes hold their bytes. -/
structure Places (root : Path) (artifacts : List Artifact) (before now : Files) : Prop where
  placed : ∀ a ∈ artifacts, now (place root a) = some a.bytes
  others : ∀ k, k ∉ artifacts.map (place root) → now k = before k

theorem Places.cons {root : Path} {artifacts : List Artifact} {before now : Files}
    (h : Places root artifacts (Function.update before (place root a) (some a.bytes)) now)
    (ha : place root a ∉ artifacts.map (place root)) : Places root (a :: artifacts) before now where
  placed := by
    refine List.forall_mem_cons.2 ⟨?_, h.placed⟩
    rw [h.others _ ha, Function.update_self]
  others k hk := by
    rw [List.map_cons, List.mem_cons, not_or] at hk
    rw [h.others k hk.2, Function.update_of_ne hk.1]

/-- Receiving classes of different places keeps track of the files. If all are taken, the files
of all hold their bytes. -/
theorem Tracks.runs (hfs : fs.ActsOn files) {before : Files} {artifacts : List Artifact}
    (h : d.Tracks before (files w)) (hkeys : (d.keys ++ artifacts.map (place d.root)).Nodup)
    (hruns : (sink fs).Runs (machine W) (d, w) (artifacts.map .taken) (d', w')) :
    d'.Tracks before (files w') ∧ d'.root = d.root ∧
      d'.keys = d.keys ++ artifacts.map (place d.root) ∧
        Places d.root artifacts (files w) (files w') := by
  induction artifacts generalizing d w with
  | nil =>
    cases hruns
    exact ⟨h, rfl, by simp, by simp, fun _ _ => rfl⟩
  | cons a artifacts ih =>
    rw [List.map_cons] at hkeys hruns
    cases hruns with
    | @cons _ u _ _ _ hanswers hrest =>
    obtain ⟨d₁, w₁⟩ := u
    have hreceive := Machine.run_withState_iff.1 hanswers
    have hkey : (d.target a).key ∉ d.keys := fun hmem =>
      (List.nodup_append'.1 hkeys).2.2 hmem List.mem_cons_self
    have hnext := h.receive hfs hkey hreceive
    obtain ⟨hroot, hnew, hfiles⟩ := receive_ok hfs hreceive
    have hnodup := (List.nodup_append'.1 hkeys).2.1
    rw [List.append_cons, ← hnew, ← hroot] at hkeys
    obtain ⟨htracks, hroot', hkeys', hplaces⟩ := ih hnext hkeys hrest
    rw [hroot] at hroot' hkeys' hplaces
    rw [hfiles] at hplaces
    refine ⟨htracks, hroot', ?_, hplaces.cons (List.nodup_cons.1 hnodup).1⟩
    rw [hkeys', hnew, List.map_cons, ← List.append_cons]

/-! ## Aborting -/

/-- The failures of the calls that an abort makes. -/
def failures (fs : FileSystem (StateM W)) (d : DirectorySink) (w : W) : List FileError :=
  (abort fs.watched d [] w).1.2

/-- An abort in which no call fails brings back all files. -/
theorem Tracks.abort (hfs : fs.ActsOn files) {before : Files} (h : d.Tracks before (files w))
    (hclean : d.failures fs w = [])
    (habort : (sink fs).Answers (machine W) (d, w) .abort (d', w')) : files w' = before := by
  have hrun := Machine.run_withState_iff.1 habort
  have hfiles := files_undo hfs.toActsLocallyOn h.nodup h.untouched h.complete hclean
  have hw' : (undo fs d.replaced d.written w).2 = w' := congrArg Prod.snd hrun
  rwa [hw'] at hfiles

theorem Tracks.runs_receive (hfs : fs.ActsOn files) {before : Files}
    {artifacts rest : List Artifact} (h : d.Tracks before (files w))
    (hkeys : (d.keys ++ (artifacts ++ a :: rest).map (place d.root)).Nodup)
    (hruns : (sink fs).Runs (machine W) (d, w) (artifacts.map .taken ++ [.receive a answer])
      (d', w')) : d'.Tracks before (files w') := by
  obtain ⟨⟨d₁, w₁⟩, htaken, hreceive⟩ := hruns.of_append
  rw [List.map_append, ← List.append_assoc] at hkeys
  obtain ⟨hfirst, -, hdisjoint⟩ := List.nodup_append'.1 hkeys
  obtain ⟨htracks, hroot, hkeys₁, -⟩ := h.runs hfs hfirst htaken
  refine htracks.receive hfs ?_ (Machine.run_withState_iff.1 hreceive.answers)
  rw [hkeys₁, target, hroot]
  exact fun hmem => hdisjoint hmem List.mem_cons_self

/-- Preparing changes no file, and a directory that agrees to be used forgets earlier
compilations. -/
theorem prepare_cases_locally (hfs : fs.ActsLocallyOn files) {answer : Except Refusal Unit}
    (h : (sink fs).Answers (machine W) (d, w) (.prepare answer) (d', w')) :
    files w' = files w ∧ (answer = .ok () → d' = { d with written := [], replaced := [] }) := by
  have hprepare : prepare fs d w = ((answer, d'), w') := Machine.run_withState_iff.1 h
  rw [prepare] at hprepare
  cases hkind : fs.kind? d.root w with
  | mk kind w₁ =>
  have hfiles : files w₁ = files w := by
    have := hfs.kind? d.root w
    rwa [hkind] at this
  rw [run_bind_eq hkind] at hprepare
  split at hprepare
  · cases hprepare
    exact ⟨hfiles, fun hok => by cases hok⟩
  · cases hprepare
    exact ⟨hfiles, fun _ => rfl⟩

theorem prepare_cases (hfs : fs.ActsOn files) {answer : Except Refusal Unit}
    (h : (sink fs).Answers (machine W) (d, w) (.prepare answer) (d', w')) :
    files w' = files w ∧ (answer = .ok () → d' = { d with written := [], replaced := [] }) :=
  prepare_cases_locally hfs.toActsLocallyOn h

/-- A directory that was just prepared has nothing to undo. -/
theorem tracks_prepared (d : DirectorySink) (f : Files) :
    Tracks f { d with written := [], replaced := [] } f where
  nodup := .nil
  untouched _ _ := rfl
  remembered _ _ h := by cases h
  complete _ h := by cases h

end DirectorySink

/-- The program aborts the sink in the state. -/
def Sink.AbortsIn {m : Type → Type} [Monad m] {σ α : Type} (M : Machine m σ) (sink : Sink m)
    (program : StateT (List Call) m α) (start w : σ) : Prop :=
  ∃ result calls last,
    (M.withState (List Call)).run program ([], start) = (result, calls ++ [.abort], last) ∧
      sink.Runs M start calls w

end SchemaRecords.Output

namespace SchemaRecords

open SchemaRecords.Json (Node)
open SchemaRecords.Output SchemaRecords.Output.DirectorySink
open SchemaRecords.Record (Artifact Settings)

/-- What becomes of a directory that was prepared: the classes get their files, or it comes to an
abort while the directory keeps track of the files. -/
theorem Conversation.directory {W : Type} {fs : FileSystem (StateM W)} {files : W → Files}
    (hfs : fs.ActsOn files) {s : Settings} {document : Node} {calls : List Call}
    {result : Except CompileError (List String)} (h : Conversation s document calls result)
    {d d' : DirectorySink} {w w' : W} {before : Files} (htracks : d.Tracks before (files w))
    (hkeys : d.keys = []) (hruns : (sink fs).Runs (machine W) (d, w) calls (d', w')) :
    (∃ artifacts, generate s document = .ok artifacts ∧
        result = .ok (artifacts.map Artifact.typeName) ∧
        Places d.root artifacts (files w) (files w')) ∨
      (∃ e, result = .error e) ∧ ∃ calls' d₁ w₁, calls = calls' ++ [.abort] ∧
        (sink fs).Runs (machine W) (d, w) calls' (d₁, w₁) ∧ d₁.Tracks before (files w₁) ∧
        (sink fs).Answers (machine W) (d₁, w₁) .abort (d', w') := by
  have hplaces : ∀ {artifacts}, Generation s document (.ok artifacts) →
      (d.keys ++ artifacts.map (place d.root)).Nodup := by
    intro artifacts hmade
    rw [hkeys]
    exact nodup_keys_of_generate (generate_of_generation hmade) d.root
  cases h with
  | ungenerated => exact .inr ⟨⟨_, rfl⟩, [], d, w, rfl, .nil _, htracks, hruns.answers⟩
  | @undelivered taken rest a e hmade =>
    rw [List.append_cons] at hruns ⊢
    obtain ⟨⟨d₁, w₁⟩, hreceived, haborted⟩ := hruns.of_append
    have htracks₁ := htracks.runs_receive hfs (hplaces hmade) hreceived
    exact .inr ⟨⟨_, rfl⟩, _, d₁, w₁, rfl, hreceived, htracks₁, haborted.answers⟩
  | @unfinished artifacts e =>
    -- a directory always finishes
    rw [List.append_cons] at hruns
    obtain ⟨⟨d₁, w₁⟩, hfinished, -⟩ := hruns.of_append
    obtain ⟨⟨d₂, w₂⟩, -, hfinish⟩ := hfinished.of_append
    cases hfinish.answers
  | @finished artifacts hmade =>
    obtain ⟨⟨d₁, w₁⟩, htaken, hfinish⟩ := hruns.of_append
    obtain ⟨-, -, -, hfiles⟩ := htracks.runs hfs (hplaces hmade) htaken
    cases hfinish.answers
    exact .inl ⟨artifacts, generate_of_generation hmade, rfl, hfiles⟩

/-- **Class directories are all or nothing.** Whatever calls of the file system fail while a
document is compiled into a class directory, new or used before: if those of the abort succeed,
then either there are names and the files are those of before with the bytes of each class in its
file, or there is an error and every file is as it was before. -/
theorem compileDocument_directory {W : Type} {fs : FileSystem (StateM W)} {files : W → Files}
    (hfs : fs.ActsOn files) (s : Settings) (document : Node) (d : DirectorySink) (w : W)
    (habort : ∀ d' w', (sink fs).AbortsIn (machine W)
      (compileDocument (sink fs).recorded s document) (d, w) (d', w') → d'.failures fs w' = []) :
    ∃ result d' w', compileDocument (sink fs) s document d w = ((result, d'), w') ∧
      ((∃ artifacts, generate s document = .ok artifacts ∧
          result = .ok (artifacts.map Artifact.typeName) ∧
          Places d.root artifacts (files w) (files w')) ∨
        (∃ e, result = .error e) ∧ files w' = files w) := by
  obtain ⟨result, calls, ⟨d', w'⟩, hperforms, hprotocol⟩ :=
    performs_compileDocument (machine W) (sink fs) s document (d, w)
  refine ⟨result, d', w', Machine.run_withState_iff.1 hperforms.plain, ?_⟩
  have hruns := hperforms.runs
  cases hprotocol with
  | refused e => exact .inr ⟨⟨_, rfl⟩, (prepare_cases hfs hruns.answers).1⟩
  | @prepared calls _ hconversation =>
    cases hruns with
    | @cons _ u _ _ _ hprepare hrest =>
    obtain ⟨d₁, w₁⟩ := u
    obtain ⟨hfiles, hd₁⟩ := prepare_cases hfs hprepare
    cases hd₁ rfl
    have htracks := tracks_prepared d (files w)
    rw [← hfiles] at htracks ⊢
    obtain hplaces | ⟨herror, calls', d₂, w₂, rfl, hcalls', htracks₂, hanswers⟩ :=
      hconversation.directory hfs htracks rfl hrest
    · exact .inl hplaces
    · have hclean := habort d₂ w₂
        ⟨_, .prepare (.ok ()) :: calls', _, hperforms.recorded [], .cons hprepare hcalls'⟩
      exact .inr ⟨herror, htracks₂.abort hfs hclean hanswers⟩

/-! ## A directory whose files can be read only so often -/

namespace Output.Memory

/-- Nothing that an abort does can fail in memory. -/
theorem failures_eq_nil (d : DirectorySink) (w : Memory) : d.failures fileSystem w = [] := by
  have hundo : ∀ (paths : List Path) (replaced : List (List (List Char) × ClassFile.Bytes))
      (w : Memory), (undo fileSystem.watched replaced paths [] w).1.2 = [] := by
    intro paths
    induction paths with
    | nil => exact fun _ _ => rfl
    | cons path rest ih =>
      intro replaced w
      have hrestore : ∃ w', restore fileSystem path (replaced.lookup path.key) w = (.ok (), w') := by
        cases replaced.lookup path.key with
        | some previous => exact ⟨_, rfl⟩
        | none => exact ⟨_, rfl⟩
      obtain ⟨w', hw'⟩ := hrestore
      rw [undo_watched_cons hw']
      exact ih _ w'
  exact hundo d.written d.replaced w

theorem createParent_eq (path : Path) (w : Memory) :
    createParent fileSystem path w = (.ok (), w) := by
  have hcreate : ∀ first above, fileSystem.createEach (first :: above) w = (.ok (), w) := by
    intro first above
    rw [FileSystem.createEach]
    cases first.isEmpty <;> rfl
  rw [createParent]
  cases path.parent? with
  | none => rfl
  | some parent =>
    obtain ⟨above, habove⟩ : ∃ above, parent.ancestors = parent :: above := by
      unfold Path.ancestors Path.ancestorsFrom
      split
      · exact ⟨_, rfl⟩
      · split <;> exact ⟨_, rfl⟩
    have hparent : fileSystem.createAll parent w = (.ok (), w) := by
      rw [FileSystem.createAll, habove, hcreate]
    dsimp only
    rw [run_bind_eq hparent]
    rfl

/-- Each class that is taken costs one reading. -/
theorem reads_of_receive {a : Artifact} {d d' : DirectorySink} {w w' : Memory}
    (h : receive fileSystem a d w = ((.ok (), d'), w')) : w.reads = w'.reads + 1 := by
  rw [receive, run_bind_eq (createParent_eq _ _)] at h
  obtain ⟨files, reads⟩ := w
  cases reads with
  | zero => cases h
  | succ reads =>
    cases hfile : files (d.target a).key with
    | some previous =>
      have hread : fileSystem.read (d.target a) ⟨files, reads + 1⟩ = (.ok previous, ⟨files, reads⟩) := by
        simp [fileSystem, hfile]
      dsimp only at h
      rw [run_bind_eq hread] at h
      cases h
      rfl
    | none =>
      have hread : fileSystem.read (d.target a) ⟨files, reads + 1⟩ =
          (.error .notFound, ⟨files, reads⟩) := by
        simp [fileSystem, hfile]
      dsimp only at h
      rw [run_bind_eq hread] at h
      cases h
      rfl

theorem reads_of_runs {artifacts : List Artifact} {d d' : DirectorySink} {w w' : Memory}
    (h : (sink fileSystem).Runs (machine Memory) (d, w) (artifacts.map .taken) (d', w')) :
    w.reads = w'.reads + artifacts.length := by
  induction artifacts generalizing d w with
  | nil =>
    cases h
    rfl
  | cons a artifacts ih =>
    cases h with
    | @cons _ u _ _ _ hanswers hrest =>
    obtain ⟨d₁, w₁⟩ := u
    rw [reads_of_receive (Machine.run_withState_iff.1 hanswers), ih hrest]
    rfl

/-- A document with more classes than can be read does not get through. -/
theorem exists_compileDocument_eq_error {s : Settings} {document : Node}
    {artifacts : List Artifact} (h : generate s document = .ok artifacts) {d : DirectorySink}
    {w : Memory} (hreads : w.reads < artifacts.length) :
    ∃ e d' w', compileDocument (sink fileSystem) s document d w = ((.error e, d'), w') := by
  obtain ⟨result, calls, ⟨d', w'⟩, hperforms, hprotocol⟩ :=
    performs_compileDocument (machine Memory) (sink fileSystem) s document (d, w)
  have hcompile := Machine.run_withState_iff.1 hperforms.plain
  cases result with
  | error e => exact ⟨e, d', w', hcompile⟩
  | ok names =>
    cases hprotocol with
    | prepared hconversation =>
    cases hconversation with
    | @finished made hmade =>
    rw [generate_of_generation hmade] at h
    cases h
    cases hperforms.runs with
    | @cons _ u _ _ _ hprepare hrest =>
    obtain ⟨d₁, w₁⟩ := u
    obtain ⟨⟨d₂, w₂⟩, htaken, -⟩ := hrest.of_append
    have hw₁ : w₁ = w := by
      have hprepared : prepare fileSystem d w = ((.ok (), d₁), w₁) :=
        Machine.run_withState_iff.1 hprepare
      obtain ⟨kind, hkind⟩ : ∃ kind, fileSystem.kind? d.root w = (kind, w) := ⟨_, rfl⟩
      rw [prepare, run_bind_eq hkind] at hprepared
      split at hprepared
      · cases hprepared
      · cases hprepared
        rfl
    rw [← hw₁, reads_of_runs htaken] at hreads
    exact absurd hreads (by omega)

/-- One file is there, and files can be read once. -/
def once : Memory where
  files := Function.update (fun _ => none) (Path.key "out/Delivery.class") (some [1, 2, 3])
  reads := 1

end Output.Memory

theorem compileDocument_directory_delivery :
    ∃ e d' w', compileDocument (sink Memory.fileSystem) {} Schema.Delivery.document ⟨"out", [], []⟩
      Memory.once = ((.error e, d'), w') ∧ w'.files = Memory.once.files := by
  obtain ⟨result, d', w', hcompile, hdone⟩ :=
    compileDocument_directory Memory.fileSystem_actsOn {} Schema.Delivery.document ⟨"out", [], []⟩
      Memory.once fun d' w' _ => Memory.failures_eq_nil d' w'
  obtain ⟨root, address, hgenerate⟩ := Schema.Delivery.generate_document
  obtain ⟨e, _, _, herror⟩ : ∃ e d' w', compileDocument (sink Memory.fileSystem) {}
      Schema.Delivery.document ⟨"out", [], []⟩ Memory.once = ((.error e, d'), w') :=
    Memory.exists_compileDocument_eq_error hgenerate (Nat.lt_succ_self 1)
  rw [herror] at hcompile
  cases hcompile
  obtain ⟨_, _, hok, -⟩ | ⟨-, hfiles⟩ := hdone
  · cases hok
  · exact ⟨e, d', w', herror, hfiles⟩

end SchemaRecords
