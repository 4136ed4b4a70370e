import SchemaRecords.Proofs.Generation

/-!
# What a compilation asks of its sink

Sinks are state machines of any kind, and each call of one may fail. The calls of a
compilation are recorded together with the answers, and the record always has the
same form: nothing is asked before the text is read, no class is handed over before
all have been made, nothing is asked after a failure but to abort, and a sink that
was prepared is told exactly once how the compilation ended.

* `Performs`: what a program gives from one state of the sink, and its calls.
* `performs_compileDocument`: the calls of a compilation.
* `compileText_protocol`: the protocol for schema texts.
-/

namespace SchemaRecords.Output

open SchemaRecords.Record (Artifact)

/-! ## State machines -/

/-- A monad whose programs run from one state to another. -/
structure Machine (m : Type → Type) [Monad m] (σ : Type) where
  run : {α : Type} → m α → σ → α × σ
  run_pure : ∀ {α : Type} (a : α) (w : σ), run (pure a) w = (a, w)
  run_bind : ∀ {α β : Type} (x : m α) (f : α → m β) (w : σ),
    run (x >>= f) w = run (f (run x w).1) (run x w).2

namespace Machine

variable {m : Type → Type} [Monad m] {σ : Type}

/-- Programs with one state. -/
def state (σ : Type) : Machine (StateM σ) σ where
  run x w := x w
  run_pure _ _ := rfl
  run_bind _ _ _ := rfl

/-- Programs with one more state. -/
def withState (M : Machine m σ) (τ : Type) : Machine (StateT τ m) (τ × σ) where
  run x w := ((M.run (x w.1) w.2).1.1, (M.run (x w.1) w.2).1.2, (M.run (x w.1) w.2).2)
  run_pure a w := by
    have h : M.run ((pure a : StateT τ m _) w.1) w.2 = ((a, w.1), w.2) := M.run_pure _ _
    rw [h]
  run_bind x f w := by
    have h : M.run ((x >>= f : StateT τ m _) w.1) w.2 =
        M.run (f (M.run (x w.1) w.2).1.1 (M.run (x w.1) w.2).1.2) (M.run (x w.1) w.2).2 :=
      M.run_bind _ _ _
    rw [h]

theorem run_withState_iff {M : Machine m σ} {τ α : Type} {x : StateT τ m α} {t t' : τ} {w w' : σ}
    {a : α} : (M.withState τ).run x (t, w) = (a, t', w') ↔ M.run (x t) w = ((a, t'), w') := by
  simp [withState, Prod.ext_iff, and_assoc]

end Machine

/-! ## Calls -/

/-- A call of a sink and its answer. -/
inductive Call where
  | prepare (answer : Except Refusal Unit)
  | receive (a : Artifact) (answer : Except DeliveryError Unit)
  | finish (answer : Except DeliveryError Unit)
  | abort
deriving DecidableEq, Repr

/-- The call in which a sink takes a class. -/
def Call.taken (a : Artifact) : Call := .receive a (.ok ())

/-- A program that notes a call when it has been made. -/
def noting {m : Type → Type} [Monad m] {α : Type} (x : m α) (call : α → Call) :
    StateT (List Call) m α := fun calls => do
  let answer ← x
  return (answer, calls ++ [call answer])

namespace Sink

variable {m : Type → Type} [Monad m] {σ : Type}

/-- The sink with a record of its calls. -/
def recorded (sink : Sink m) : Sink (StateT (List Call) m) where
  prepare := noting sink.prepare .prepare
  receive a := noting (sink.receive a) (.receive a)
  finish := noting sink.finish .finish
  abort := noting sink.abort fun _ => .abort

/-- The sink gives the answer of the call, which takes it from one state to the other. -/
def Answers (M : Machine m σ) (sink : Sink m) (w : σ) : Call → σ → Prop
  | .prepare answer, w' => M.run sink.prepare w = (answer, w')
  | .receive a answer, w' => M.run (sink.receive a) w = (answer, w')
  | .finish answer, w' => M.run sink.finish w = (answer, w')
  | .abort, w' => M.run sink.abort w = ((), w')

/-- The sink gives the answers of the calls one after the other. -/
inductive Runs (M : Machine m σ) (sink : Sink m) : σ → List Call → σ → Prop
  | nil (w : σ) : Runs M sink w [] w
  | cons {w w' w'' : σ} {call : Call} {calls : List Call} :
      sink.Answers M w call w' → Runs M sink w' calls w'' → Runs M sink w (call :: calls) w''

theorem Runs.append {M : Machine m σ} {sink : Sink m} {w w' w'' : σ} {calls calls' : List Call}
    (h : sink.Runs M w calls w') (h' : sink.Runs M w' calls' w'') :
    sink.Runs M w (calls ++ calls') w'' := by
  induction h with
  | nil => exact h'
  | cons hanswers _ ih => exact .cons hanswers (ih h')

theorem Runs.of_append {M : Machine m σ} {sink : Sink m} {w w'' : σ} {calls calls' : List Call}
    (h : sink.Runs M w (calls ++ calls') w'') :
    ∃ w', sink.Runs M w calls w' ∧ sink.Runs M w' calls' w'' := by
  induction calls generalizing w with
  | nil => exact ⟨w, .nil w, h⟩
  | cons call calls ih =>
    cases h with
    | cons hanswers hrest =>
      obtain ⟨w', hcalls, hcalls'⟩ := ih hrest
      exact ⟨w', .cons hanswers hcalls, hcalls'⟩

theorem Runs.answers {M : Machine m σ} {sink : Sink m} {w w' : σ} {call : Call}
    (h : sink.Runs M w [call] w') : sink.Answers M w call w' := by
  cases h with
  | cons hanswers hnil =>
    cases hnil
    exact hanswers

end Sink

/-! ## Programs and their calls -/

section

variable {m : Type → Type} [Monad m] {σ : Type} {M : Machine m σ} {sink : Sink m} {α β : Type}

/-- From the state `w` the program gives the answer and leads to `w'`, and so does the program on
the recorded sink, which notes the calls. The sink gives the answers that were noted. -/
structure Performs (M : Machine m σ) (sink : Sink m) (x : m α) (y : StateT (List Call) m α) (w : σ)
    (answer : α) (calls : List Call) (w' : σ) : Prop where
  plain : M.run x w = (answer, w')
  recorded : ∀ before,
    (M.withState (List Call)).run y (before, w) = (answer, before ++ calls, w')
  runs : sink.Runs M w calls w'

namespace Performs

theorem pure (a : α) (w : σ) : Performs M sink (Pure.pure a) (Pure.pure a) w a [] w where
  plain := M.run_pure a w
  recorded before := by
    rw [Machine.run_pure, List.append_nil]
  runs := .nil w

theorem bind {x : m α} {y : StateT (List Call) m α} {f : α → m β}
    {g : α → StateT (List Call) m β} {w w' w'' : σ} {a : α} {b : β} {calls calls' : List Call}
    (h : Performs M sink x y w a calls w') (h' : Performs M sink (f a) (g a) w' b calls' w'') :
    Performs M sink (x >>= f) (y >>= g) w b (calls ++ calls') w'' where
  plain := by
    rw [M.run_bind, h.plain]
    exact h'.plain
  recorded before := by
    rw [Machine.run_bind, h.recorded before, ← List.append_assoc]
    exact h'.recorded (before ++ calls)
  runs := h.runs.append h'.runs

theorem noting {x : m α} {call : α → Call} {w w' : σ} {a : α} (h : M.run x w = (a, w'))
    (hanswers : sink.Answers M w (call a) w') :
    Performs M sink x (noting x call) w a [call a] w' where
  plain := h
  recorded before := by
    rw [Machine.run_withState_iff, Output.noting, M.run_bind, h]
    exact M.run_pure _ _
  runs := .cons hanswers (.nil w')

variable (M sink)

theorem prepare (w : σ) : ∃ answer w',
    Performs M sink sink.prepare sink.recorded.prepare w answer [.prepare answer] w' :=
  ⟨_, _, noting rfl rfl⟩

theorem receive (a : Artifact) (w : σ) : ∃ answer w',
    Performs M sink (sink.receive a) (sink.recorded.receive a) w answer [.receive a answer] w' :=
  ⟨_, _, noting rfl rfl⟩

theorem finish (w : σ) : ∃ answer w',
    Performs M sink sink.finish sink.recorded.finish w answer [.finish answer] w' :=
  ⟨_, _, noting rfl rfl⟩

theorem abort (w : σ) : ∃ w', Performs M sink sink.abort sink.recorded.abort w () [.abort] w' :=
  ⟨_, noting rfl rfl⟩

end Performs

end

end SchemaRecords.Output

namespace SchemaRecords

open SchemaRecords.Json (Node)
open SchemaRecords.Output
open SchemaRecords.Record (Artifact Settings)
open SchemaRecords.Schema (Model)

/-! ## The first failure in making classes -/

/-- Classes are made once there is a model, in its order and up to the first failure. -/
inductive Generation (s : Settings) (document : Node) : Except CompileError (List Artifact) → Prop
  | unmodelled {e : Schema.Error} :
      Model.ofDocument document = .error e → Generation s document (.error (.schema e))
  | unmade {model : Model} {before after : List Schema.RecordType} {type : Schema.RecordType}
      {e : Record.Error} :
      Model.ofDocument document = .ok model → model.types = before ++ type :: after →
      (∀ t ∈ before, ∃ a, Artifact.ofType s t = .ok a) → Artifact.ofType s type = .error e →
      Generation s document (.error (.record e))
  | made {model : Model} {artifacts : List Artifact} :
      Model.ofDocument document = .ok model →
      List.Forall₂ (fun type a => Artifact.ofType s type = .ok a) model.types artifacts →
      Generation s document (.ok artifacts)

theorem Record.Artifact.ofType_eq_compile {s : Settings} (hs : s.fault? = none) :
    ofType s = compile s := by
  funext type
  rw [ofType, hs]

theorem generation_generate (s : Settings) (document : Node) :
    Generation s document (generate s document) := by
  unfold generate
  cases hmodel : Model.ofDocument document with
  | error e => exact .unmodelled hmodel
  | ok model =>
    obtain ⟨hwell, htypes⟩ := Model.ofDocument_eq_ok_iff.1 hmodel
    dsimp only
    rw [Artifact.ofModel_eq_of_closed (Model.linked hwell htypes).closed]
    cases hs : s.fault? with
    | some fault =>
      -- invalid settings are found when the class of the root is to be made
      have hroot : Artifact.ofType s model.root = .error (.settings fault) := by
        rw [Artifact.ofType, hs]
      have hfirst : model.types = [] ++ model.root :: model.nested := rfl
      exact .unmade hmodel hfirst (by simp) hroot
    | none =>
      dsimp only
      have hcompile := Artifact.ofType_eq_compile hs
      cases hartifacts : model.types.mapM (Artifact.compile s) with
      | error e =>
        obtain ⟨before, type, after, hsplit, hbefore, htype⟩ :=
          Artifact.exists_of_mapM_compile_eq_error hartifacts
        exact .unmade hmodel hsplit (hcompile ▸ hbefore) (hcompile ▸ htype)
      | ok artifacts =>
        exact .made hmodel (hcompile ▸ Artifact.mapM_compile_eq_ok_iff.1 hartifacts)

theorem generate_of_generation {s : Settings} {document : Node} {artifacts : List Artifact}
    (h : Generation s document (.ok artifacts)) : generate s document = .ok artifacts := by
  cases h with
  | @made model _ hmodel hmade =>
    obtain ⟨hwell, htypes⟩ := Model.ofDocument_eq_ok_iff.1 hmodel
    have hs : s.fault? = none := by
      obtain ⟨root, _, hroot, -⟩ := List.forall₂_cons_left_iff.1 hmade
      exact Artifact.fault?_of_ofType hroot
    rw [htypes, Artifact.ofType_eq_compile hs] at hmade
    exact generate_eq_ok_iff.2 ⟨hwell, hs, hmade⟩

/-! ## Handing over -/

/-- The calls in which classes are handed over, and the answer: all are taken, or there is a
first that is not. -/
inductive Handover : List Artifact → List Call → Except DeliveryError Unit → Prop
  | all (artifacts : List Artifact) : Handover artifacts (artifacts.map .taken) (.ok ())
  | upTo (before after : List Artifact) (a : Artifact) (e : DeliveryError) :
      Handover (before ++ a :: after) (before.map .taken ++ [.receive a (.error e)]) (.error e)

theorem Handover.cons {artifacts : List Artifact} {calls : List Call}
    {answer : Except DeliveryError Unit} (a : Artifact) (h : Handover artifacts calls answer) :
    Handover (a :: artifacts) (.taken a :: calls) answer := by
  cases h with
  | all => exact .all (a :: artifacts)
  | upTo before after refused e => exact .upTo (a :: before) after refused e

variable {m : Type → Type} [Monad m] {σ : Type} (M : Machine m σ) (sink : Sink m)

theorem performs_deliverEach (artifacts : List Artifact) (w : σ) :
    ∃ answer calls w', Performs M sink (deliverEach sink artifacts)
      (deliverEach sink.recorded artifacts) w answer calls w' ∧ Handover artifacts calls answer := by
  induction artifacts generalizing w with
  | nil => exact ⟨.ok (), [], w, .pure _ w, .all []⟩
  | cons a artifacts ih =>
    obtain ⟨answer, w₁, hreceive⟩ := Performs.receive M sink a w
    cases answer with
    | error e =>
      exact ⟨.error e, _, w₁, hreceive.bind (.pure _ w₁), .upTo [] artifacts a e⟩
    | ok _ =>
      obtain ⟨answer, calls, w₂, hrest, hcalls⟩ := ih w₁
      exact ⟨answer, _, w₂, hreceive.bind hrest, hcalls.cons a⟩

/-- After all classes have been taken the sink is told to finish. -/
theorem performs_deliver (artifacts : List Artifact) (w : σ) :
    ∃ answer calls w', Performs M sink (deliver sink artifacts) (deliver sink.recorded artifacts) w
        answer calls w' ∧
      (calls = artifacts.map .taken ++ [.finish answer] ∨
        ∃ e, answer = .error e ∧ Handover artifacts calls (.error e)) := by
  obtain ⟨answer, calls, w₁, heach, hcalls⟩ := performs_deliverEach M sink artifacts w
  cases answer with
  | error e =>
    refine ⟨.error e, _, w₁, heach.bind (.pure _ w₁), .inr ⟨e, rfl, ?_⟩⟩
    rwa [List.append_nil]
  | ok _ =>
    cases hcalls with
    | all =>
      obtain ⟨answer, w₂, hfinish⟩ := Performs.finish M sink w₁
      exact ⟨answer, _, w₂, heach.bind hfinish, .inl rfl⟩

theorem performs_giveUp {α : Type} (e : CompileError) (w : σ) :
    ∃ w', Performs M sink (giveUp sink e) (giveUp sink.recorded e) w
      (.error e : Except CompileError α) [.abort] w' := by
  obtain ⟨w₁, habort⟩ := Performs.abort M sink w
  exact ⟨w₁, habort.bind (.pure _ w₁)⟩

/-! ## The protocol -/

/-- The calls between preparation and the end of a compilation, and its result: the end is a
success, or an abort that follows the first failure. -/
inductive Conversation (s : Settings) (document : Node) :
    List Call → Except CompileError (List String) → Prop
  | ungenerated {e : CompileError} : Generation s document (.error e) →
      Conversation s document [.abort] (.error e)
  | undelivered {before after : List Artifact} {a : Artifact} {e : DeliveryError} :
      Generation s document (.ok (before ++ a :: after)) →
      Conversation s document (before.map .taken ++ [.receive a (.error e), .abort])
        (.error (.delivery e))
  | unfinished {artifacts : List Artifact} {e : DeliveryError} :
      Generation s document (.ok artifacts) →
      Conversation s document (artifacts.map .taken ++ [.finish (.error e), .abort])
        (.error (.delivery e))
  | finished {artifacts : List Artifact} : Generation s document (.ok artifacts) →
      Conversation s document (artifacts.map .taken ++ [.finish (.ok ())])
        (.ok (artifacts.map Artifact.typeName))

/-- The calls of the compilation of a document, and its result. -/
inductive Protocol (s : Settings) (document : Node) :
    List Call → Except CompileError (List String) → Prop
  | refused (e : Refusal) : Protocol s document [.prepare (.error e)] (.error (.refused e))
  | prepared {calls : List Call} {result : Except CompileError (List String)} :
      Conversation s document calls result → Protocol s document (.prepare (.ok ()) :: calls) result

/-- The classes of a document are handed over to a sink that was prepared. -/
theorem performs_handing {s : Settings} {document : Node} {artifacts : List Artifact}
    (hmade : Generation s document (.ok artifacts)) (w : σ) :
    ∃ result calls w', Performs M sink
        (do match ← deliver sink artifacts with
          | .error e => giveUp sink (.delivery e)
          | .ok _ => return .ok (artifacts.map Artifact.typeName))
        (do match ← deliver sink.recorded artifacts with
          | .error e => giveUp sink.recorded (.delivery e)
          | .ok _ => return .ok (artifacts.map Artifact.typeName)) w result calls w' ∧
      Conversation s document calls result := by
  obtain ⟨answer, calls, w₁, hdeliver, hcalls⟩ := performs_deliver M sink artifacts w
  cases answer with
  | error e =>
    obtain ⟨w₂, hgiveUp⟩ := performs_giveUp M sink (.delivery e) w₁
    refine ⟨.error (.delivery e), _, w₂, hdeliver.bind hgiveUp, ?_⟩
    obtain rfl | ⟨e', he, hhandover⟩ := hcalls
    · rw [List.append_assoc]
      exact .unfinished hmade
    · cases he
      cases hhandover with
      | upTo before after a =>
        rw [List.append_assoc]
        exact .undelivered hmade
  | ok _ =>
    obtain rfl | ⟨e', he, -⟩ := hcalls
    · refine ⟨_, _, w₁, hdeliver.bind (.pure _ w₁), ?_⟩
      rw [List.append_nil]
      exact .finished hmade
    · cases he

theorem performs_compileDocument (s : Settings) (document : Node) (w : σ) :
    ∃ result calls w', Performs M sink (compileDocument sink s document)
      (compileDocument sink.recorded s document) w result calls w' ∧
        Protocol s document calls result := by
  have hgeneration := generation_generate s document
  obtain ⟨answer, w₁, hprepare⟩ := Performs.prepare M sink w
  unfold compileDocument
  cases answer with
  | error e => exact ⟨_, _, w₁, hprepare.bind (.pure _ w₁), .refused e⟩
  | ok _ =>
    cases hgenerate : generate s document with
    | error e =>
      rw [hgenerate] at hgeneration
      obtain ⟨w₂, hgiveUp⟩ := performs_giveUp M sink e w₁
      exact ⟨_, _, w₂, hprepare.bind hgiveUp, .prepared (.ungenerated hgeneration)⟩
    | ok artifacts =>
      rw [hgenerate] at hgeneration
      obtain ⟨result, calls, w₂, hhanding, hcalls⟩ := performs_handing M sink hgeneration w₁
      exact ⟨result, _, w₂, hprepare.bind hhanding, .prepared hcalls⟩

theorem Conversation.isOk_iff {s : Settings} {document : Node} {calls : List Call}
    {result : Except CompileError (List String)} (h : Conversation s document calls result) :
    (∃ names, result = .ok names) ↔ .finish (.ok ()) ∈ calls := by
  cases h <;> simp [Call.taken]

theorem Protocol.isOk_iff {s : Settings} {document : Node} {calls : List Call}
    {result : Except CompileError (List String)} (h : Protocol s document calls result) :
    (∃ names, result = .ok names) ↔ .finish (.ok ()) ∈ calls := by
  cases h with
  | refused => simp
  | prepared h => simp [h.isOk_iff]

/-- **The calls of a compilation.** For any sink, any text and any state at the start, the calls
made are none if the text cannot be read, and otherwise those of `Protocol`, each with the answer
that the sink gives in the state it is in by then. To record the calls changes nothing. There are
names exactly if the sink was told to finish and did. -/
theorem compileText_protocol {σ : Type} (sink : Sink (StateM σ)) (s : Settings) (text : String)
    (start : σ) :
    ∃ result calls last,
      compileText sink s text start = (result, last) ∧
      compileText sink.recorded s text [] start = ((result, calls), last) ∧
      sink.Runs (.state σ) start calls last ∧
      (match documentOf text with
        | .error e => calls = [] ∧ result = .error (.read e)
        | .ok document => Protocol s document calls result) ∧
      ((∃ names, result = .ok names) ↔ .finish (.ok ()) ∈ calls) := by
  unfold compileText
  cases documentOf text with
  | error e => exact ⟨_, _, start, rfl, rfl, .nil start, ⟨rfl, rfl⟩, by simp⟩
  | ok document =>
    obtain ⟨result, calls, last, hperforms, hprotocol⟩ :=
      performs_compileDocument (.state σ) sink s document start
    have hrecorded := Machine.run_withState_iff.1 (hperforms.recorded [])
    exact ⟨result, calls, last, hperforms.plain, hrecorded, hperforms.runs, hprotocol,
      hprotocol.isOk_iff⟩

end SchemaRecords
