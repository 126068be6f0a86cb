import RerankerService.Backend.Onnx
import RerankerService.Foundation.Outcome
import RerankerService.Foundation.Run
import RerankerService.Runtime.Predict

/-!
# Provider fallback

A loaded model runs the session that its provider label says. The only step that changes either is
the switch to the CPU session, for good, after a CUDA run was given up; with forced CUDA there is no
step at all.
-/

namespace RerankerService

open Transition

namespace OnnxPairwiseBackend

variable {casefold : Text → Text} {settings : OnnxSettings} {model next : OnnxLoadedModel}
  {runs : Runs} {pairs : List Pair}

def Retries (casefold : Text → Text) (settings : OnnxSettings) (error : Error) : Prop :=
  settings.failsClosed = false ∧ isCudaProviderError casefold error = true ∧
    isOutOfMemory casefold error = false

/-- CUDA is given up: neither the device nor the settings forbid it, and the run failed with a CUDA
error, as did the immediate retry unless memory was short. -/
def GivesUp (casefold : Text → Text) (settings : OnnxSettings) (runs : Runs) : Prop :=
  settings.failsClosed = false ∧ ∃ error, runs.first = .error error ∧
    isCudaProviderError casefold error = true ∧
      (isOutOfMemory casefold error = true ∨
        ∃ retried, runs.retry = .error retried ∧ isCudaProviderError casefold retried = true)

/-- The session label is right: a CPU model runs the CPU session, a CUDA model the CUDA session. -/
def Labelled (model : OnnxLoadedModel) : Prop :=
  model.cpuSession = .cpu ∧
    (model.session = .cpu ∧ model.activeProvider = cpuProvider ∨
      model.session = .cuda ∧ model.activeProvider = cudaProvider)

theorem cudaProvider_ne_cpuProvider : cudaProvider ≠ cpuProvider := by
  decide

theorem Labelled.session_iff (h : Labelled model) :
    model.session = model.cpuSession ↔ model.activeProvider = cpuProvider := by
  obtain ⟨hcpu, ⟨hsession, hprovider⟩ | ⟨hsession, hprovider⟩⟩ := h
  · exact iff_of_true (hsession.trans hcpu.symm) hprovider
  · refine iff_of_false ?_ (hprovider ▸ cudaProvider_ne_cpuProvider)
    rw [hsession, hcpu]
    decide

theorem Labelled.cuda (h : Labelled model) (hactive : model.activeProvider = cudaProvider) :
    model.session = .cuda := by
  obtain ⟨-, ⟨-, hprovider⟩ | ⟨hsession, -⟩⟩ := h
  · exact absurd (hactive.symm.trans hprovider) cudaProvider_ne_cpuProvider
  · exact hsession

theorem Labelled.switchToCpu (h : Labelled model) : Labelled (switchToCpu model) :=
  ⟨h.1, .inl ⟨h.1, rfl⟩⟩

/-! ### The runs of a session -/

/-- What the `try` statement of `_infer` comes to. -/
inductive Ran (casefold : Text → Text) (settings : OnnxSettings) (model : OnnxLoadedModel)
    (runs : Runs) : OnnxLoadedModel × Except Error Outputs → Prop where
  | returned {outputs : List NdArray} (hfirst : runs.first = .ok outputs) :
      Ran casefold settings model runs (model, .ok (model.session, outputs))
  | raised {error : Error} (hfirst : runs.first = .error error)
      (hnot : model.activeProvider ≠ cudaProvider ∨ isCudaProviderError casefold error = false ∨
        settings.failsClosed = true) : Ran casefold settings model runs (model, .error error)
  | recovered {error : Error} {outputs : List NdArray} (hfirst : runs.first = .error error)
      (hactive : model.activeProvider = cudaProvider) (hretries : Retries casefold settings error)
      (hretry : runs.retry = .ok outputs) :
      Ran casefold settings model runs (model, .ok (model.session, outputs))
  | raisedAgain {error retried : Error} (hfirst : runs.first = .error error)
      (hactive : model.activeProvider = cudaProvider) (hretries : Retries casefold settings error)
      (hretry : runs.retry = .error retried)
      (hnot : isCudaProviderError casefold retried = false) :
      Ran casefold settings model runs (model, .error retried)
  | switched (hactive : model.activeProvider = cudaProvider)
      (hgives : GivesUp casefold settings runs) :
      Ran casefold settings model runs
        (switchToCpu model, runs.onCpu.map fun outputs => (model.cpuSession, outputs))

theorem runSession_ran (casefold : Text → Text) (settings : OnnxSettings)
    (model : OnnxLoadedModel) (runs : Runs) :
    Ran casefold settings model runs (runSession casefold settings model runs) := by
  unfold runSession
  split
  · rename_i outputs hfirst
    exact .returned hfirst
  rename_i error hfirst
  split
  · rename_i hnot
    exact .raised hfirst (hnot.imp_right .inl)
  rename_i hcuda
  rw [not_or, not_not, Bool.not_eq_false] at hcuda
  obtain ⟨hactive, hcuda⟩ := hcuda
  split
  · rename_i hclosed
    exact .raised hfirst (.inr (.inr hclosed))
  rename_i hopen
  rw [Bool.not_eq_true] at hopen
  dsimp only
  split
  · rename_i hmemory
    exact .switched hactive ⟨hopen, error, hfirst, hcuda, .inl hmemory⟩
  rename_i hmemory
  rw [Bool.not_eq_true] at hmemory
  have hretries : Retries casefold settings error := ⟨hopen, hcuda, hmemory⟩
  split
  · rename_i outputs hretry
    exact .recovered hfirst hactive hretries hretry
  rename_i retried hretry
  split
  · rename_i hagain
    exact .switched hactive ⟨hopen, error, hfirst, hcuda, .inr ⟨retried, hretry, hagain⟩⟩
  · rename_i hother
    exact .raisedAgain hfirst hactive hretries hretry (Bool.eq_false_iff.mpr hother)

def Attempts (model : OnnxLoadedModel) (runs : Runs) (pairs : List Pair) : Prop :=
  pairs ≠ [] ∧ runs.encoded = .ok () ∧
    (model.inputNames.all (· ∈ supportedInputs) && "input_ids".toList ∈ model.inputNames) = true

def convert (model : OnnxLoadedModel) (pairs : List Pair) (returned : Except Error Outputs) :
    Except Error (Option Session × List Value) := do
  let (session, outputs) ← returned
  let scores ← scoresFromOutputs (model.artifact.manifest.scoreOutputIndex.map Int.toNat)
    pairs.length outputs
  return (some session, scores)

theorem infer_of_attempts (h : Attempts model runs pairs) :
    infer casefold settings model runs pairs =
      ((runSession casefold settings model runs).1,
        convert model pairs (runSession casefold settings model runs).2) := by
  obtain ⟨hpairs, hencoded, hsupported⟩ := h
  unfold infer
  rw [if_neg hpairs, hencoded]
  dsimp only
  rw [hsupported, if_neg (by decide)]
  rfl

theorem infer_of_not_attempts (h : ¬Attempts model runs pairs) :
    (infer casefold settings model runs pairs).1 = model ∧
      ∀ session scores, (infer casefold settings model runs pairs).2 ≠ .ok (some session, scores) := by
  unfold infer
  split
  · exact ⟨rfl, fun _ _ heq => by cases heq⟩
  rename_i hpairs
  split
  · exact ⟨rfl, fun _ _ heq => by cases heq⟩
  rename_i hencoded
  split
  · exact ⟨rfl, fun _ _ heq => by cases heq⟩
  · rename_i hsupported
    exact absurd ⟨hpairs, hencoded, Bool.not_eq_false _ ▸ hsupported⟩ h

/-- The model is left as it was, or CUDA was given up. -/
theorem infer_next (casefold : Text → Text) (settings : OnnxSettings) (model : OnnxLoadedModel)
    (runs : Runs) (pairs : List Pair) :
    (infer casefold settings model runs pairs).1 = model ∨
      (model.activeProvider = cudaProvider ∧ Attempts model runs pairs ∧
        GivesUp casefold settings runs ∧
        (infer casefold settings model runs pairs).1 = switchToCpu model) := by
  by_cases hattempts : Attempts model runs pairs
  · rw [infer_of_attempts hattempts]
    have hran := runSession_ran casefold settings model runs
    cases hran' : runSession casefold settings model runs with
    | mk next returned =>
        rw [hran'] at hran
        cases hran with
        | returned _ => exact .inl rfl
        | raised _ _ => exact .inl rfl
        | recovered _ _ _ _ => exact .inl rfl
        | raisedAgain _ _ _ _ _ => exact .inl rfl
        | switched hactive hgives => exact .inr ⟨hactive, hattempts, hgives, rfl⟩
  · exact .inl (infer_of_not_attempts hattempts).1

/-- The provider fields of the model's record in the runtime. -/
def Shows (record : Model) (model : OnnxLoadedModel) : Prop :=
  record.activeProvider = model.activeProvider ∧ record.fallbackProvider = model.fallbackProvider ∧
    record.fallbackReason = model.fallbackReason

/-- What a thread does to the model is what the runtime's `fallBack` says, or nothing. -/
theorem infer_shows {s : ModelRuntime} {id : ModelId} (h : Shows (s.models id) model) :
    ∃ fallback : Bool, (fallback = true → GivesUp casefold settings runs) ∧
      Shows ((if fallback then s.fallBack id else s).models id)
        (infer casefold settings model runs pairs).1 := by
  rcases infer_next casefold settings model runs pairs with hsame | ⟨-, -, hgives, hswitch⟩
  · refine ⟨false, fun hfalse => absurd hfalse (by decide), ?_⟩
    rw [hsame]
    exact h
  · refine ⟨true, fun _ => hgives, ?_⟩
    rw [hswitch, if_pos rfl]
    unfold ModelRuntime.fallBack
    dsimp only
    rw [Function.update_self]
    exact ⟨rfl, rfl, rfl⟩

/-- The scores are those of the backend's `rerank` on whatever the session runs come to. -/
theorem infer_rerank (casefold : Text → Text) (settings : OnnxSettings)
    (model : OnnxLoadedModel) (runs : Runs) (pairs : List Pair) :
    ∃ returned, (infer casefold settings model runs pairs).2.map Prod.snd =
      rerank (model.artifact.manifest.scoreOutputIndex.map Int.toNat) returned pairs := by
  unfold infer rerank
  split
  · exact ⟨.ok {}, rfl⟩
  split
  · rename_i error _
    exact ⟨.error error, rfl⟩
  split
  · exact ⟨.error (.runtimeError "ONNX model has unsupported input names"), rfl⟩
  cases hran : runSession casefold settings model runs with
  | mk next returned =>
      cases returned with
      | error error => exact ⟨.error error, rfl⟩
      | ok outputs =>
          refine ⟨.ok { outputs := outputs.2 }, ?_⟩
          dsimp only
          cases hscores : scoresFromOutputs (model.artifact.manifest.scoreOutputIndex.map Int.toNat)
              pairs.length outputs.2 with
          | error error => simp [bind, Except.bind, Except.map, hscores]
          | ok scores => simp [bind, Except.bind, Except.map, hscores, pure, Except.pure]

theorem Labelled.infer (h : Labelled model) :
    Labelled (infer casefold settings model runs pairs).1 := by
  rcases infer_next casefold settings model runs pairs with hsame | ⟨-, -, -, hswitch⟩
  · rw [hsame]
    exact h
  · rw [hswitch]
    exact h.switchToCpu

theorem infer_of_failsClosed (hclosed : settings.failsClosed = true) :
    (infer casefold settings model runs pairs).1 = model := by
  rcases infer_next casefold settings model runs pairs with hsame | ⟨-, -, hgives, -⟩
  · exact hsame
  · exact absurd (hclosed.symm.trans hgives.1) (by decide)

theorem convert_session {session session' : Session} {outputs : List NdArray}
    {scores : List Value}
    (h : convert model pairs (.ok (session, outputs)) = .ok (some session', scores)) :
    session' = session := by
  obtain ⟨_, hreturned, h⟩ := Outcome.bind_eq_ok.mp h
  cases hreturned
  obtain ⟨_, -, h⟩ := Outcome.bind_eq_ok.mp h
  cases h
  rfl

theorem infer_session (hclosed : settings.failsClosed = true) {session : Session}
    {scores : List Value}
    (h : (infer casefold settings model runs pairs).2 = .ok (some session, scores)) :
    session = model.session := by
  by_cases hattempts : Attempts model runs pairs
  · rw [infer_of_attempts hattempts] at h
    have hran := runSession_ran casefold settings model runs
    cases hran' : runSession casefold settings model runs with
    | mk next returned =>
        rw [hran'] at hran h
        cases hran with
        | returned _ => exact convert_session h
        | raised _ _ => cases h
        | recovered _ _ _ _ => exact convert_session h
        | raisedAgain _ _ _ _ _ => cases h
        | switched _ hgives => exact absurd (hclosed.symm.trans hgives.1) (by decide)
  · exact absurd h ((infer_of_not_attempts hattempts).2 session scores)

/-- What becomes of a failed CUDA run that does not give CUDA up: its error propagates, or the
immediate retry decides. -/
theorem infer_of_not_givesUp (hattempts : Attempts model runs pairs)
    (hactive : model.activeProvider = cudaProvider) {error : Error}
    (hfirst : runs.first = .error error) (hgives : ¬GivesUp casefold settings runs) :
    (infer casefold settings model runs pairs).1 = model ∧
      (¬Retries casefold settings error →
        (infer casefold settings model runs pairs).2 = .error error) ∧
      (Retries casefold settings error → (infer casefold settings model runs pairs).2 =
        convert model pairs (runs.retry.map fun outputs => (model.session, outputs))) := by
  rw [infer_of_attempts hattempts]
  have hran := runSession_ran casefold settings model runs
  cases hran' : runSession casefold settings model runs with
  | mk next returned =>
      rw [hran'] at hran
      cases hran with
      | returned hok =>
          rw [hfirst] at hok
          cases hok
      | raised herror hnot =>
          obtain rfl : error = _ := Except.error.inj (hfirst.symm.trans herror)
          refine ⟨rfl, fun _ => rfl, fun hretries => ?_⟩
          rcases hnot with hnot | hnot | hnot
          · exact absurd hactive hnot
          · exact absurd (hnot.symm.trans hretries.2.1) (by decide)
          · exact absurd (hnot.symm.trans hretries.1) (by decide)
      | recovered herror _ hretries hretry =>
          obtain rfl : error = _ := Except.error.inj (hfirst.symm.trans herror)
          refine ⟨rfl, fun hnot => absurd hretries hnot, fun _ => ?_⟩
          rw [hretry]
          rfl
      | raisedAgain herror _ hretries hretry _ =>
          obtain rfl : error = _ := Except.error.inj (hfirst.symm.trans herror)
          refine ⟨rfl, fun hnot => absurd hretries hnot, fun _ => ?_⟩
          rw [hretry]
          rfl
      | switched _ hgives' => exact absurd hgives' hgives

/-! ### Loading -/

theorem warmUp_labelled (hmodel : Labelled model)
    (h : warmUp casefold settings model runs = .ok next) : Labelled next := by
  unfold warmUp at h
  cases hscores : (infer casefold settings model runs warmupPairs).2 with
  | error error =>
      rw [hscores] at h
      cases h
  | ok scores =>
      rw [hscores] at h
      obtain rfl := Except.ok.inj h
      exact hmodel.infer

theorem validateCuda_labelled {env : LoadEnvironment} (hmodel : Labelled model)
    (h : validateCuda casefold settings env model = .ok next) : Labelled next := by
  obtain ⟨activeProviders, -, h⟩ := Outcome.bind_eq_ok.mp h
  split at h
  · cases h
  · refine warmUp_labelled ?_ h
    exact ⟨hmodel.1, .inr ⟨rfl, rfl⟩⟩

theorem selectProvider_labelled {env : LoadEnvironment} (hmodel : Labelled model)
    (h : selectProvider casefold settings env model = .ok next) : Labelled next := by
  unfold selectProvider fallbackOrRaise at h
  split at h
  · exact Except.ok.inj h ▸ hmodel
  split at h
  · split at h
    · cases h
    · exact Except.ok.inj h ▸ hmodel
  split at h
  · split at h
    · cases h
    · obtain rfl := Except.ok.inj h
      exact hmodel
  split at h
  · rename_i cudaModel hcuda
    obtain rfl : cudaModel = next := Except.ok.inj h
    exact validateCuda_labelled hmodel hcuda
  split at h
  · cases h
  · obtain rfl := Except.ok.inj h
    exact hmodel

/-- Whatever session the load ends with is the one that its label says. -/
theorem loadSync_labelled {env : LoadEnvironment} {revision : Text} {maxLength : Int}
    {loaded : OnnxLoadedModel}
    (h : loadSync casefold settings env revision maxLength = .ok loaded) : Labelled loaded := by
  unfold loadSync at h
  split at h
  · cases h
  obtain ⟨artifact, -, h⟩ := Outcome.bind_eq_ok.mp h
  obtain ⟨-, -, h⟩ := Outcome.bind_eq_ok.mp h
  split at h
  · cases h
  obtain ⟨-, -, h⟩ := Outcome.bind_eq_ok.mp h
  obtain ⟨-, -, h⟩ := Outcome.bind_eq_ok.mp h
  obtain ⟨cpuModel, hwarm, h⟩ := Outcome.bind_eq_ok.mp h
  exact selectProvider_labelled (warmUp_labelled ⟨rfl, .inl ⟨rfl, rfl⟩⟩ hwarm) h

/-! ### Runs -/

theorem reachable_labelled {loaded : OnnxLoadedModel} (hloaded : Labelled loaded)
    (hreach : Reachable (step casefold settings) (· = loaded) model) : Labelled model := by
  refine hreach.invariant (fun s hs => hs ▸ hloaded) fun s call s' hs _ hstep => ?_
  exact Option.some.inj hstep ▸ hs.infer

theorem reachable_of_failsClosed {loaded : OnnxLoadedModel} (hclosed : settings.failsClosed = true)
    (hreach : Reachable (step casefold settings) (· = loaded) model) : model = loaded := by
  refine hreach.invariant (fun s hs => hs) fun s call s' hs _ hstep => ?_
  calc
    s' = (infer casefold settings s call.runs call.pairs).1 := (Option.some.inj hstep).symm
    _ = s := infer_of_failsClosed hclosed
    _ = loaded := hs

/-- The provider in any sequence of calls on a loaded model. The label says which session is used; a
CPU model stays as it is; a CUDA model goes over to the CPU session only in a call that gives CUDA
up, and then says so; any other failed CUDA run leaves the model unchanged and propagates, unless
the immediate retry decides; and a model that was loaded on CUDA never answers from the CPU when
that is forbidden. -/
theorem provider_fallback {env : LoadEnvironment} {revision : Text} {maxLength : Int}
    {loaded : OnnxLoadedModel}
    (hload : loadSync casefold settings env revision maxLength = .ok loaded)
    (hreach : Reachable (step casefold settings) (· = loaded) model) :
    (model.session = model.cpuSession ↔ model.activeProvider = cpuProvider) ∧
      ∀ runs pairs next result, infer casefold settings model runs pairs = (next, result) →
        (model.activeProvider = cpuProvider → next = model) ∧
        (model.activeProvider = cudaProvider → next.activeProvider = cpuProvider →
          Attempts model runs pairs ∧ GivesUp casefold settings runs ∧
            next.fallbackProvider = some cpuProvider ∧
            next.fallbackReason = some "cuda_inference_failed_using_cpu_fallback".toList) ∧
        (∀ error, Attempts model runs pairs → model.activeProvider = cudaProvider →
          runs.first = .error error → ¬GivesUp casefold settings runs →
          next = model ∧
            (¬Retries casefold settings error → result = .error error) ∧
            (Retries casefold settings error →
              result = convert model pairs
                (runs.retry.map fun outputs => (model.session, outputs)))) ∧
        (settings.failsClosed = true → loaded.activeProvider = cudaProvider →
          ∀ scores, result ≠ .ok (some .cpu, scores)) := by
  have hloaded : Labelled loaded := loadSync_labelled hload
  have hmodel : Labelled model := reachable_labelled hloaded hreach
  refine ⟨hmodel.session_iff, fun runs pairs next result hinfer => ?_⟩
  obtain rfl : _ = next := congrArg Prod.fst hinfer
  obtain rfl : _ = result := congrArg Prod.snd hinfer
  refine ⟨fun hcpu => ?_, fun hcuda hcpu => ?_, fun error hattempts hcuda hfirst hgives => ?_,
    fun hclosed hcuda scores hscores => ?_⟩
  · rcases infer_next casefold settings model runs pairs with hsame | ⟨hcuda, -⟩
    · exact hsame
    · exact absurd (hcuda.symm.trans hcpu) cudaProvider_ne_cpuProvider
  · rcases infer_next casefold settings model runs pairs with
      hsame | ⟨-, hattempts, hgives, hswitch⟩
    · rw [hsame] at hcpu
      exact absurd (hcuda.symm.trans hcpu) cudaProvider_ne_cpuProvider
    · refine ⟨hattempts, hgives, ?_⟩
      rw [hswitch]
      exact ⟨rfl, rfl⟩
  · exact infer_of_not_givesUp hattempts hcuda hfirst hgives
  · obtain rfl : model = loaded := reachable_of_failsClosed hclosed hreach
    have hsession : Session.cpu = model.session := infer_session hclosed hscores
    exact absurd (hsession.trans (hmodel.cuda hcuda)) (by decide)

def artifact : LoadedArtifact where
  manifest :=
    { modelId := "model".toList
      requestedRevision := "main".toList
      resolvedRevision := List.replicate 40 'a'
      precision := .fp32
      files := .empty
      checksums := .empty
      onnxOpset := 17
      createdAt := 0
      supportedProviders := [cpuProvider]
      preferredProvider := cpuProvider
      maxLength := 512 }
  directory := []
  files := []

def answering : Runs where
  first := .ok [.vector [.number (.finite 2)]]

def environment : LoadEnvironment where
  artifact := .ok artifact
  available := [cudaProvider, cpuProvider]
  cpuWarmup := answering
  cudaWarmup := answering

def cudaModel : OnnxLoadedModel where
  session := .cuda
  inputNames := supportedInputs
  artifact
  activeProvider := cudaProvider
  availableProviders := [cudaProvider, cpuProvider]
  configuredProviders := [cudaProvider, cpuProvider]
  maxLength := 512

/-- A CUDA error that does not mention the memory. -/
def transientFailure : Error :=
  .runtimeError "CUDA transient execution failure"

def failing (retry : Except Error (List NdArray)) : Runs where
  first := .error transientFailure
  retry
  onCpu := answering.first

theorem loadSync_environment :
    loadSync lower {} environment (List.replicate 40 'a') 512 = .ok cudaModel := by
  rfl

theorem provider_fallback_switched :
    (infer lower {} cudaModel (failing (.error transientFailure)) warmupPairs).1 =
        switchToCpu cudaModel ∧
      (infer lower {} (switchToCpu cudaModel) answering warmupPairs).1 = switchToCpu cudaModel := by
  have hswitch : step lower {} cudaModel
      { runs := failing (.error transientFailure), pairs := warmupPairs } =
      some (switchToCpu cudaModel) := by
    rfl
  have hreach : Reachable (step lower {}) (· = cudaModel) (switchToCpu cudaModel) :=
    .next (.start rfl) trivial hswitch
  have hcontrolled := (provider_fallback loadSync_environment hreach).2
  exact ⟨Option.some.inj hswitch, (hcontrolled answering warmupPairs _ _ rfl).1 rfl⟩

/-- A CUDA error that the immediate retry mends does not propagate. -/
theorem cuda_error_recovered :
    loadSync lower {} environment (List.replicate 40 'a') 512 = .ok cudaModel ∧
      ¬∀ runs pairs error, Attempts cudaModel runs pairs → runs.first = .error error →
        ¬GivesUp lower {} runs → infer lower {} cudaModel runs pairs = (cudaModel, .error error) := by
  refine ⟨loadSync_environment, fun h => ?_⟩
  have hgives : ¬GivesUp lower {} (failing answering.first) := by
    rintro ⟨-, error, hfirst, -, hmemory | ⟨retried, hretry, -⟩⟩
    · obtain rfl := Except.error.inj hfirst
      exact absurd hmemory (by decide)
    · cases hretry
  have herror := h (failing answering.first) warmupPairs _ ⟨by decide, rfl, by decide⟩ rfl hgives
  have hresult := congrArg Prod.snd herror
  cases hresult

end OnnxPairwiseBackend

end RerankerService
