import Mathlib.Data.List.DropRight
import SchemaRecords.Output.Jar
import SchemaRecords.Proofs.Output.ArchiveLibrary
import SchemaRecords.Proofs.Output.Protocol

/-!
# What a jar does to files

The calls of a jar may come in any order, and others may change files between them
(`JarSink.Reaches`). A file is only made when the jar is finished, and only where
there is none, so nothing that stands at the path is ever lost. Any step of the file
system and of the archive library may fail.

* `packEach_packs`: entries are packed one after the other, until one fails.
* `writeArchive_writes`: the archive that is written has the manifest and the classes.
* `Reaches.sink_eq`: a jar holds what it has received since it was last prepared,
  aborted or finished with success.
* `files_of_runs`: a file at the path stays as it is, whatever calls follow.
* `files_of_finish_error`: a failed finish leaves all files as they were, if the file
  that was begun can be removed.
* `finish_all_or_nothing`: these together, and what a successful finish writes.
-/

namespace SchemaRecords.Output

open SchemaRecords.ClassFile (Bytes)
open SchemaRecords.Record (Artifact)

/-! ## Calls since the last reset -/

namespace Call

/-- After the call a jar holds no classes: it was prepared, finished or aborted. -/
def isReset : Call → Bool
  | prepare answer => answer.isOk
  | receive _ _ => false
  | finish answer => answer.isOk
  | abort => true

/-- The class that was handed over. -/
def artifact? : Call → Option Artifact
  | receive a _ => some a
  | _ => none

/-- The classes that were handed over since the last reset, in order. -/
def received (calls : List Call) : List Artifact :=
  (calls.rtakeWhile fun call => !call.isReset).filterMap artifact?

theorem received_of_reset (calls : List Call) {call : Call} (h : call.isReset = true) :
    received (calls ++ [call]) = [] := by
  unfold received
  rw [List.rtakeWhile_concat_neg _ _ _ (by simp [h])]
  rfl

theorem received_of_kept (calls : List Call) {call : Call} (h : call.isReset = false) :
    received (calls ++ [call]) = received calls ++ call.artifact?.toList := by
  unfold received
  rw [List.rtakeWhile_concat_pos _ _ _ (by simp [h]), List.filterMap_append]
  cases call <;> rfl

end Call

namespace JarSink

variable {W : Type} {fs : FileSystem (StateM W)} {files : W → Files} {s s' : JarSink} {w w' : W}

/-- Programs of jars on a file system. -/
def machine (W : Type) : Machine (StateT JarSink (StateM W)) (JarSink × W) :=
  (Machine.state W).withState JarSink

theorem run_stateT_bind_eq {Z α β : Type} {x : StateT Z (StateM W) α}
    {f : α → StateT Z (StateM W) β} {z z' : Z} {a : α} (h : x z w = ((a, z'), w')) :
    (x >>= f) z w = f a z' w' := by
  have hbind : (x >>= f) z w = f (x z w).1.1 (x z w).1.2 (x z w).2 := rfl
  rw [hbind, h]

/-! ## Packing entries -/

/-- The entry with a name and a content. -/
def entryOf (e : String × Bytes) : Entry := ⟨e.1, options.stamp, e.2⟩

section Packing

variable {zip : ArchiveLibrary (StateM W)} {entries? : Bytes → Option (List Entry)} {v : zip.View}
  {z z' : zip.Writer} {path : Path} {answer : Except DeliveryError Unit}

/-- Packing has led from one archive under way to another. It only changes the archive's own file,
and if it succeeds the entries are there, none with the name of another. -/
structure Packs (files : W → Files) (v : zip.View) (es : List (String × Bytes))
    (answer : Except DeliveryError Unit) (z z' : zip.Writer) (w w' : W) : Prop where
  path : v.path z' = v.path z
  changes : ChangesOnly files (v.path z) w w'
  entries : answer = .ok () → v.entries z' = v.entries z ++ es.map entryOf
  distinct : answer = .ok () → ((v.entries z).map Entry.name).Nodup →
    ((v.entries z').map Entry.name).Nodup

theorem pack_packs (hzip : zip.Laws files entries? v) {e : String × Bytes}
    (h : pack zip path e z w = ((answer, z'), w')) : Packs files v [e] answer z z' w w' := by
  unfold pack at h
  rcases hstart : zip.startFile e.1 options z w with ⟨⟨started, z₁⟩, w₁⟩
  rw [run_stateT_bind_eq hstart] at h
  obtain ⟨hpath, hchanges⟩ := hzip.start hstart
  cases started with
  | error fault =>
    cases h
    exact ⟨hpath, hchanges, nofun, nofun⟩
  | ok u =>
    obtain ⟨hnew, hstarted⟩ := hzip.start_ok hstart
    simp only at h
    rcases hwrite : zip.writeAll e.2 z₁ w₁ with ⟨⟨written, z₂⟩, w₂⟩
    rw [run_stateT_bind_eq hwrite] at h
    obtain ⟨hpath', hchanges'⟩ := hzip.write hwrite
    rw [hpath] at hpath' hchanges'
    cases written with
    | error cause =>
      cases h
      exact ⟨hpath', hchanges.trans hchanges', nofun, nofun⟩
    | ok u =>
      cases h
      have hentries : v.entries z' = v.entries z ++ [entryOf e] := hzip.write_ok hwrite hstarted
      refine ⟨hpath', hchanges.trans hchanges', fun _ => hentries, fun _ hnodup => ?_⟩
      rw [hentries, List.map_append, List.nodup_append]
      refine ⟨hnodup, List.nodup_singleton _, ?_⟩
      intro name hname name' hname' heq
      obtain rfl : name = e.1 := heq.trans (List.mem_singleton.1 hname')
      exact hnew hname

/-- Entries are packed one after the other, until one fails. -/
theorem packEach_packs (hzip : zip.Laws files entries? v) {es : List (String × Bytes)}
    (h : packEach zip path es z w = ((answer, z'), w')) : Packs files v es answer z z' w w' := by
  induction es generalizing z w with
  | nil =>
    cases h
    exact ⟨rfl, .of_eq rfl, fun _ => (List.append_nil _).symm, fun _ hnodup => hnodup⟩
  | cons e es ih =>
    unfold packEach at h
    rcases hfirst : pack zip path e z w with ⟨⟨first, z₁⟩, w₁⟩
    rw [run_stateT_bind_eq hfirst] at h
    have hpacks := pack_packs hzip hfirst
    cases first with
    | error cause =>
      cases h
      exact ⟨hpacks.path, hpacks.changes, nofun, nofun⟩
    | ok u =>
      have hrest := ih h
      have hchanges := hrest.changes
      rw [hpacks.path] at hchanges
      refine ⟨hrest.path.trans hpacks.path, hpacks.changes.trans hchanges, fun hok => ?_,
        fun hok hnodup => hrest.distinct hok (hpacks.distinct rfl hnodup)⟩
      rw [hrest.entries hok, hpacks.entries rfl, List.append_assoc]
      rfl

/-- The names and contents in a jar. -/
def packed (s : JarSink) : List (String × Bytes) := (manifestName, manifest) :: s.entries

/-- Writing an archive changes its own file only, and leaves an archive of the manifest and the
classes there if it succeeds. -/
structure WritesArchive (files : W → Files) (entries? : Bytes → Option (List Entry)) (s : JarSink)
    (answer : Except DeliveryError Unit) (w w' : W) : Prop where
  changes : ChangesOnly files s.path w w'
  written : answer = .ok () → ((s.packed.map entryOf).map Entry.name).Nodup ∧
    ∃ bytes, files w' s.path.key = some bytes ∧ entries? bytes = some (s.packed.map entryOf)

theorem writeArchive_writes (hzip : zip.Laws files entries? v)
    (h : writeArchive zip s w = (answer, w')) : WritesArchive files entries? s answer w w' := by
  unfold writeArchive at h
  rcases hattach : zip.attach s.path w with ⟨z, w₁⟩
  rw [run_bind_eq hattach] at h
  obtain ⟨hpath, hempty, hattached⟩ := hzip.attach hattach
  rcases hpack : packEach zip s.path s.packed z w₁ with ⟨⟨packing, z₁⟩, w₂⟩
  change (packEach zip s.path s.packed z >>= _) w₁ = _ at h
  rw [run_bind_eq hpack] at h
  have hpacks := packEach_packs hzip hpack
  have hpath₁ : v.path z₁ = s.path := hpacks.path.trans hpath
  have hchanges : ChangesOnly files s.path w w₂ := hattached.trans (hpath ▸ hpacks.changes)
  cases packing with
  | error cause =>
    simp only at h
    rcases hdiscard : zip.discard z₁ w₂ with ⟨u, w₃⟩
    rw [run_bind_eq hdiscard] at h
    cases h
    exact ⟨hchanges.trans (hpath₁ ▸ hzip.discard hdiscard), nofun⟩
  | ok u =>
    simp only at h
    rcases hfinish : zip.finish z₁ w₂ with ⟨finished, w₃⟩
    rw [run_bind_eq hfinish] at h
    have hchanges := hchanges.trans (hpath₁ ▸ hzip.finish hfinish)
    cases finished with
    | error fault =>
      cases h
      exact ⟨hchanges, nofun⟩
    | ok out =>
      obtain ⟨hfinal, hentries⟩ := hzip.finish_ok hfinish
      rw [hpath₁] at hfinal
      simp only at h
      rcases hflush : zip.flush out w₃ with ⟨flushed, w₄⟩
      rw [run_bind_eq hflush] at h
      have hchanges := hchanges.trans (hfinal ▸ hzip.flush hflush)
      cases flushed with
      | error cause =>
        cases h
        exact ⟨hchanges, nofun⟩
      | ok u =>
        cases h
        have hpacked : v.entries z₁ = s.packed.map entryOf := by
          rw [hpacks.entries rfl, hempty, List.nil_append]
        have hdistinct := hpacks.distinct rfl (hempty ▸ List.nodup_nil)
        rw [hpacked] at hdistinct hentries
        refine ⟨hchanges, fun _ => ⟨hdistinct, ?_⟩⟩
        rw [← hentries, ← hfinal]
        exact hzip.flush_ok hflush

end Packing

/-! ## What one call does -/

theorem prepare_cases (hfs : fs.CreatesOn files) {answer : Except Refusal Unit}
    (h : prepare fs s w = ((answer, s'), w')) :
    files w' = files w ∧
      ((∃ e, answer = .error e ∧ s' = s) ∨ answer = .ok () ∧ s' = { s with entries := [] }) := by
  unfold prepare at h
  have hkind := hfs.kind? s.path w
  cases hfound : fs.kind? s.path w with
  | mk found w₁ =>
    rw [hfound] at hkind
    rw [run_bind_eq hfound] at h
    cases found with
    | some kind =>
      cases h
      exact ⟨hkind, .inl ⟨_, rfl, rfl⟩⟩
    | none =>
      cases h
      exact ⟨hkind, .inr ⟨rfl, rfl⟩⟩

variable {zip : ArchiveLibrary (StateM W)} {entries? : Bytes → Option (List Entry)} {v : zip.View}

/-- How a finish ends: the file is not created, or not completed, or it is written. -/
inductive Finish (fs : FileSystem (StateM W)) (zip : ArchiveLibrary (StateM W)) (s : JarSink)
    (w : W) : Except DeliveryError Unit → JarSink → W → Prop
  | refused {e : FileError} {w' : W} (hcreate : fs.create s.path w = (.error e, w')) :
      Finish fs zip s w (.error (.file s.path e)) s w'
  | undone {e : DeliveryError} {removed : Except FileError Unit} {w₁ w₂ w' : W}
      (hcreate : fs.create s.path w = (.ok (), w₁)) (hfill : writeArchive zip s w₁ = (.error e, w₂))
      (hremove : fs.remove s.path w₂ = (removed, w')) : Finish fs zip s w (.error e) s w'
  | written {w₁ w' : W} (hcreate : fs.create s.path w = (.ok (), w₁))
      (hfill : writeArchive zip s w₁ = (.ok (), w')) :
      Finish fs zip s w (.ok ()) { s with entries := [] } w'

theorem finish_cases {answer : Except DeliveryError Unit}
    (h : finish fs zip s w = ((answer, s'), w')) : Finish fs zip s w answer s' w' := by
  unfold finish at h
  cases hcreate : fs.create s.path w with
  | mk created w₁ =>
    rw [run_bind_eq hcreate] at h
    cases created with
    | error e =>
      cases h
      exact .refused hcreate
    | ok u =>
      simp only at h
      cases hfill : writeArchive zip s w₁ with
      | mk filled w₂ =>
        rw [run_bind_eq hfill] at h
        cases filled with
        | ok u =>
          cases h
          exact .written hcreate hfill
        | error e =>
          simp only at h
          cases hremove : fs.remove s.path w₂ with
          | mk removed w₃ =>
            rw [run_bind_eq hremove] at h
            cases h
            exact .undone hcreate hfill hremove

/-- What a call of a jar does to the jar. -/
theorem sink_of_answers (hfs : fs.CreatesOn files) {call : Call}
    (h : (sink fs zip).Answers (machine W) (s, w) call (s', w')) :
    s' = { s with entries := if call.isReset then [] else
      s.entries ++ (call.artifact?.toList.map entry) } := by
  cases call with
  | prepare answer =>
    obtain ⟨-, ⟨e, rfl, rfl⟩ | ⟨rfl, rfl⟩⟩ := prepare_cases hfs (Machine.run_withState_iff.1 h)
    · simp [Call.isReset, Call.artifact?, Except.isOk, Except.toBool]
    · rfl
  | receive a answer =>
    cases Machine.run_withState_iff.1 h
    rfl
  | finish answer =>
    cases finish_cases (Machine.run_withState_iff.1 h) with
    | refused _ => simp [Call.isReset, Call.artifact?, Except.isOk, Except.toBool]
    | undone _ _ _ => simp [Call.isReset, Call.artifact?, Except.isOk, Except.toBool]
    | written _ _ => rfl
  | abort =>
    cases Machine.run_withState_iff.1 h
    rfl

/-- Only a finish touches files. -/
theorem files_of_answers (hfs : fs.CreatesOn files) {call : Call}
    (hcall : ∀ answer, call ≠ .finish answer)
    (h : (sink fs zip).Answers (machine W) (s, w) call (s', w')) : files w' = files w := by
  cases call with
  | prepare answer => exact (prepare_cases hfs (Machine.run_withState_iff.1 h)).1
  | receive a answer =>
    cases Machine.run_withState_iff.1 h
    rfl
  | finish answer => exact absurd rfl (hcall answer)
  | abort =>
    cases Machine.run_withState_iff.1 h
    rfl

/-- A file that stands at the path is not touched, for the jar's own cannot be created. -/
theorem files_of_exists (hfs : fs.CreatesOn files) {call : Call} {bytes : ClassFile.Bytes}
    (hexists : files w s.path.key = some bytes)
    (h : (sink fs zip).Answers (machine W) (s, w) call (s', w')) : files w' = files w := by
  by_cases hcall : ∃ answer, call = .finish answer
  · obtain ⟨answer, rfl⟩ := hcall
    cases finish_cases (Machine.run_withState_iff.1 h) with
    | refused hcreate => exact hfs.create_error hcreate
    | undone hcreate _ _ => cases hexists.symm.trans (hfs.create_ok hcreate).1
    | written hcreate _ => cases hexists.symm.trans (hfs.create_ok hcreate).1
  · exact files_of_answers hfs (fun answer heq => hcall ⟨answer, heq⟩) h

/-- A finish that fails leaves all files as they were, if the file that was begun is removed. -/
theorem files_of_finish_error (hfs : fs.CreatesOn files) (hzip : zip.Laws files entries? v)
    {e : DeliveryError}
    (hremoves : ∀ w₁ w₂, fs.create s.path w = (.ok (), w₁) →
      writeArchive zip s w₁ = (.error e, w₂) → (fs.remove s.path w₂).1 = .ok ())
    (h : finish fs zip s w = ((.error e, s'), w')) : files w' = files w := by
  cases finish_cases h with
  | refused hcreate => exact hfs.create_error hcreate
  | @undone _ removed w₁ w₂ _ hcreate hfill hremove =>
    have hok := hremoves w₁ w₂ hcreate hfill
    rw [hremove] at hok
    cases hok
    obtain ⟨hnone, hcreated⟩ := hfs.create_ok hcreate
    rw [hfs.remove_ok hremove]
    funext k
    by_cases hk : k = s.path.key
    · rw [hk, Function.update_self, hnone]
    · rw [Function.update_of_ne hk, (writeArchive_writes hzip hfill).changes k hk, hcreated,
        Function.update_of_ne hk]

/-- A finish that succeeds makes a file where there was none. -/
theorem files_of_finish_ok (hfs : fs.CreatesOn files) (hzip : zip.Laws files entries? v)
    (h : finish fs zip s w = ((.ok (), s'), w')) :
    files w s.path.key = none ∧ ((s.packed.map entryOf).map Entry.name).Nodup ∧
      ∃ bytes, files w' = Function.update (files w) s.path.key (some bytes) ∧
        entries? bytes = some (s.packed.map entryOf) := by
  cases finish_cases h with
  | written hcreate hfill =>
    obtain ⟨hnone, hcreated⟩ := hfs.create_ok hcreate
    have hwrites := writeArchive_writes hzip hfill
    obtain ⟨hdistinct, bytes, hbytes, hentries⟩ := hwrites.written rfl
    refine ⟨hnone, hdistinct, bytes, ?_, hentries⟩
    funext k
    by_cases hk : k = s.path.key
    · rw [hk, Function.update_self, hbytes]
    · rw [Function.update_of_ne hk, hwrites.changes k hk, hcreated, Function.update_of_ne hk]

/-! ## Any sequence of calls -/

/-- The calls have taken a new jar for `path` to this state, and others may have changed files
before, between and after them. -/
inductive Reaches (fs : FileSystem (StateM W)) (zip : ArchiveLibrary (StateM W)) (path : Path) :
    List Call → JarSink × W → Prop
  | start (w : W) : Reaches fs zip path [] ({ path }, w)
  | outside {calls : List Call} {s : JarSink} {w : W} (w' : W)
      (h : Reaches fs zip path calls (s, w)) : Reaches fs zip path calls (s, w')
  | call {calls : List Call} {call : Call} {s s' : JarSink} {w w' : W}
      (h : Reaches fs zip path calls (s, w))
      (hcall : (sink fs zip).Answers (machine W) (s, w) call (s', w')) :
      Reaches fs zip path (calls ++ [call]) (s', w')

/-- A jar holds the classes that it has received since the last reset. -/
theorem Reaches.sink_eq (hfs : fs.CreatesOn files) {path : Path} {calls : List Call}
    {state : JarSink × W} (h : Reaches fs zip path calls state) :
    state.1 = ⟨path, (Call.received calls).map entry⟩ := by
  induction h with
  | start w => rfl
  | outside w' _ ih => exact ih
  | @call calls call s s' w w' _ hcall ih =>
    rw [sink_of_answers hfs hcall, show s = _ from ih]
    by_cases hreset : call.isReset = true
    · rw [if_pos hreset, Call.received_of_reset calls hreset]
      rfl
    · rw [if_neg hreset, Call.received_of_kept calls (Bool.eq_false_iff.mpr hreset),
        List.map_append]

theorem path_of_answers (hfs : fs.CreatesOn files) {call : Call}
    (h : (sink fs zip).Answers (machine W) (s, w) call (s', w')) : s'.path = s.path := by
  rw [sink_of_answers hfs h]

/-- A file that stands at the path stays as it is through any further calls. -/
theorem files_of_runs (hfs : fs.CreatesOn files) {calls : List Call} {bytes : Bytes}
    (h : (sink fs zip).Runs (machine W) (s, w) calls (s', w'))
    (hexists : files w s.path.key = some bytes) : files w' = files w := by
  generalize hstate : (s, w) = state at h
  generalize hstate' : (s', w') = state' at h
  induction h generalizing s w with
  | nil =>
    cases hstate.trans hstate'.symm
    rfl
  | @cons _ state₁ _ call calls hcall _ ih =>
    subst hstate
    have hfirst : files state₁.2 = files w := files_of_exists hfs hexists hcall
    rw [← hfirst] at hexists
    rw [← path_of_answers hfs hcall] at hexists
    rw [ih hexists rfl hstate', hfirst]

/-- The entries of a jar: its manifest, then the classes. -/
def contents (artifacts : List Artifact) : List Entry :=
  ((manifestName, manifest) :: artifacts.map entry).map entryOf

/-- Whatever calls have been made and whatever others have done: a file at the path stays as it is,
a finish that fails changes nothing, and one that succeeds makes a file whose entries are the
manifest and the classes received since the last reset. Any step may fail, of the file system and
of the archive library. -/
theorem finish_all_or_nothing (hfs : fs.CreatesOn files) (hzip : zip.Laws files entries? v)
    {path : Path} {calls : List Call} (h : Reaches fs zip path calls (s, w)) :
    (∀ later s' w' bytes, files w path.key = some bytes →
        (sink fs zip).Runs (machine W) (s, w) later (s', w') → files w' = files w) ∧
      (∀ call s' w', (∀ answer, call ≠ .finish answer) →
        (sink fs zip).Answers (machine W) (s, w) call (s', w') → files w' = files w) ∧
      (∀ e s' w', (sink fs zip).Answers (machine W) (s, w) (.finish (.error e)) (s', w') →
        (∀ w₁ w₂, fs.create path w = (.ok (), w₁) → writeArchive zip s w₁ = (.error e, w₂) →
          (fs.remove path w₂).1 = .ok ()) → files w' = files w) ∧
      ∀ s' w', (sink fs zip).Answers (machine W) (s, w) (.finish (.ok ())) (s', w') →
        files w path.key = none ∧
        ((contents (Call.received calls)).map Entry.name).Nodup ∧
        ∃ bytes, files w' = Function.update (files w) path.key (some bytes) ∧
          entries? bytes = some (contents (Call.received calls)) := by
  have hs : s = ⟨path, (Call.received calls).map entry⟩ := h.sink_eq hfs
  have hpath : s.path = path := by rw [hs]
  have hcontents : s.packed.map entryOf = contents (Call.received calls) := by
    rw [hs]
    rfl
  refine ⟨fun later s' w' bytes hexists hruns => ?_, fun call s' w' => files_of_answers hfs,
    fun e s' w' hfinish hremoves => ?_, fun s' w' hfinish => ?_⟩
  · exact files_of_runs hfs hruns (hpath ▸ hexists)
  · exact files_of_finish_error hfs hzip (hpath ▸ hremoves) (Machine.run_withState_iff.1 hfinish)
  · have hwritten := files_of_finish_ok hfs hzip (Machine.run_withState_iff.1 hfinish)
    rwa [hpath, hcontents] at hwritten

/-! ## A jar with a class -/

/-- A class whose file is to be put into a jar. -/
def lamp : Artifact := ⟨"Lamp", "Lamp", [0xca, 0xfe]⟩

theorem fits_lamp : Archive.Fits (contents [lamp]) := by decide +kernel

/-- The archive library takes an entry with a new name. -/
theorem pack_library (fs : FileSystem (StateM W)) (path : Path) {e : String × Bytes}
    {p : Archive.Packing} (hnew : e.1 ∉ p.entries.map Entry.name) (w : W) :
    pack (Archive.library fs) path e p w
      = ((.ok (), { p with entries := p.entries ++ [entryOf e] }), w) := by
  have hstart : (Archive.library fs).startFile e.1 options p w
      = ((.ok (), { p with entries := p.entries ++ [entryOf (e.1, [])] }), w) := by
    dsimp only [Archive.library]
    rw [if_neg hnew]
    rfl
  have hwrite : (Archive.library fs).writeAll e.2
      { p with entries := p.entries ++ [entryOf (e.1, [])] } w
      = ((.ok (), { p with entries := p.entries ++ [entryOf e] }), w) := by
    dsimp only [Archive.library]
    rw [List.getLast?_concat, List.dropLast_concat]
    rfl
  exact (run_stateT_bind_eq hstart).trans (run_stateT_bind_eq hwrite)

/-- The archive library takes entries with different names. -/
theorem packEach_library (fs : FileSystem (StateM W)) (path : Path) (es : List (String × Bytes))
    (p : Archive.Packing) (hnodup : (p.entries.map Entry.name ++ es.map Prod.fst).Nodup) (w : W) :
    packEach (Archive.library fs) path es p w
      = ((.ok (), { p with entries := p.entries ++ es.map entryOf }), w) := by
  induction es generalizing p with
  | nil =>
    rw [List.map_nil, List.append_nil]
    rfl
  | cons e es ih =>
    have hnew : e.1 ∉ p.entries.map Entry.name := fun hmem =>
      List.disjoint_of_nodup_append hnodup hmem List.mem_cons_self
    have hrest : ((p.entries ++ [entryOf e]).map Entry.name ++ es.map Prod.fst).Nodup := by
      rwa [List.map_append, List.append_assoc]
    refine (run_stateT_bind_eq (pack_library fs path hnew w)).trans ?_
    refine (ih _ hrest).trans ?_
    rw [List.append_assoc]
    rfl

/-- A jar is finished where there is no file and enough room. -/
theorem finish_limited {limit : Nat} {f : Files} (hnone : f s.path.key = none)
    (hdistinct : (s.packed.map Prod.fst).Nodup) (hfits : Archive.Fits (s.packed.map entryOf))
    (hsize : (Archive.encode (s.packed.map entryOf)).length ≤ limit) :
    ∃ f', finish (.limited limit) (Archive.library (.limited limit)) s f
      = ((.ok (), { s with entries := [] }), f') := by
  have hcreate : (FileSystem.limited limit).create s.path f
      = (.ok (), Function.update f s.path.key (some [])) := by
    simp [FileSystem.limited, hnone]
  have hwrite (f : Files) : ∃ f', (FileSystem.limited limit).write s.path
      (Archive.encode (s.packed.map entryOf)) f = (.ok (), f') := by
    simp [FileSystem.limited, hsize]
  obtain ⟨f', hwrite⟩ := hwrite (Function.update f s.path.key (some []))
  have hfinish (f : Files) : (Archive.library (.limited limit)).finish
      ⟨s.path, s.packed.map entryOf⟩ f = (.ok ⟨⟨s.path, s.packed.map entryOf⟩, hfits⟩, f) := by
    dsimp only [Archive.library]
    rw [dif_pos hfits]
    rfl
  have hattach (f : Files) : (Archive.library (.limited limit)).attach s.path f
      = (⟨s.path, []⟩, f) := rfl
  have hpack := packEach_library (.limited limit) s.path s.packed ⟨s.path, []⟩ hdistinct
  have hfill : writeArchive (Archive.library (.limited limit)) s
      (Function.update f s.path.key (some [])) = (.ok (), f') :=
    (run_bind_eq (hattach _)).trans ((run_bind_eq (hpack _)).trans
      ((run_bind_eq (hfinish _)).trans (run_bind_eq hwrite)))
  exact ⟨f', (run_bind_eq hcreate).trans (run_bind_eq hfill)⟩

theorem finish_all_or_nothing_lamp : ∃ s w s' w',
    (FileSystem.limited 4096).CreatesOn id ∧
      Reaches (.limited 4096) (Archive.library (.limited 4096)) "out.jar"
        [.prepare (.ok ()), .taken lamp] (s, w) ∧
      (sink (.limited 4096) (Archive.library (.limited 4096))).Answers (machine Files) (s, w)
        (.finish (.ok ())) (s', w') ∧
      ∃ bytes, w' (Path.key "out.jar") = some bytes ∧
        Archive.decode? bytes = some (contents [lamp]) := by
  have hfs := FileSystem.limited_createsOn 4096
  have hzip := Archive.laws_library (FileSystem.limited_actsLocallyOn 4096)
  have hstart : Reaches (.limited 4096) (Archive.library (.limited 4096)) "out.jar" []
      ({ path := "out.jar" }, fun _ => none) := .start _
  have hprepare : (sink (.limited 4096) (Archive.library (.limited 4096))).Answers (machine Files)
      ({ path := "out.jar" }, fun _ => none) (.prepare (.ok ()))
      ({ path := "out.jar" }, fun _ => none) := rfl
  have hreceive : (sink (.limited 4096) (Archive.library (.limited 4096))).Answers (machine Files)
      ({ path := "out.jar" }, fun _ => none) (.taken lamp)
      (⟨"out.jar", [entry lamp]⟩, fun _ => none) := rfl
  have hreaches := (hstart.call hprepare).call hreceive
  obtain ⟨f, hfinish⟩ := @finish_limited ⟨"out.jar", [entry lamp]⟩ 4096 (fun _ => none) rfl
    (by decide +kernel) fits_lamp (by decide +kernel)
  have hanswers : (sink (.limited 4096) (Archive.library (.limited 4096))).Answers (machine Files)
      _ (.finish (.ok ())) _ := Machine.run_withState_iff.2 hfinish
  obtain ⟨-, -, -, hwritten⟩ := finish_all_or_nothing hfs hzip hreaches
  obtain ⟨-, -, bytes, hfiles, hdecode⟩ := hwritten _ _ hanswers
  have hreceived : Call.received ([] ++ [.prepare (.ok ())] ++ [.taken lamp]) = [lamp] := rfl
  rw [hreceived] at hdecode
  have hbytes : f (Path.key "out.jar") = some bytes :=
    (congrFun hfiles _).trans (Function.update_self _ _ _)
  exact ⟨_, _, _, f, hfs, hreaches, hanswers, bytes, hbytes, hdecode⟩

end JarSink

end SchemaRecords.Output
