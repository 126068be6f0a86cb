import RerankerService.Runtime.Slots

/-!
# Code from a model repository

`backend.load` of the four backends as far as it may run Python code that comes with a model, with
the settings of `config.py` that decide about it. `Deployment` is the runtime together with the calls
that trust such code.
-/

namespace RerankerService

/-- `re.fullmatch(r"[0-9a-fA-F]{40}", revision)`. -/
def isPinned (revision : Text) : Bool :=
  revision.length == 40 &&
    revision.all fun c => c.isDigit || ('a' ≤ c && c ≤ 'f') || ('A' ≤ c && c ≤ 'F')

/-- The settings about remote code; the validator of `remote_code_revision` has accepted it. -/
structure RemoteCodePolicy where
  trustRemoteCode : Bool := false
  remoteCodeAllowlist : Text := []
  remoteCodeRevision : Text := []
  immutable : remoteCodeRevision = [] ∨ isPinned remoteCodeRevision = true := by decide

def RemoteCodePolicy.allowedModels (policy : RemoteCodePolicy) : List Text :=
  ((policy.remoteCodeAllowlist.splitOn ',').map strip).filter (· ≠ [])

/-- The arguments of a call with `trust_remote_code=True`. -/
structure RemoteLoad where
  model : Text
  revision : Text
  codeRevision : Option Text := none
  deriving DecidableEq

def jinaModel : Text := "jinaai/jina-reranker-v3".toList

def alibabaModel : Text := "Alibaba-NLP/gte-multilingual-reranker-base".toList

namespace RemoteCodePolicy

/-- `JinaListwiseBackend._validate_remote_code_policy`. -/
def validateJina (policy : RemoteCodePolicy) (model revision : Text) : Except Error Unit :=
  if model ≠ jinaModel then
    .error (.valueError "Jina listwise backend only supports jinaai/jina-reranker-v3")
  else if policy.trustRemoteCode = false then
    .error (.runtimeError "Jina listwise backend requires RERANKER_TRUST_REMOTE_CODE=true")
  else if model ∉ policy.allowedModels then
    .error (.runtimeError "Jina model is not in RERANKER_REMOTE_CODE_ALLOWLIST")
  else if isPinned revision = false then
    .error (.runtimeError "Jina remote code requires an immutable 40-character revision")
  else .ok ()

/-- `AlibabaGteBackend._validate_policy`. -/
def validateAlibaba (policy : RemoteCodePolicy) (model revision : Text) : Except Error Unit :=
  if model ≠ alibabaModel then
    .error (.valueError "Alibaba GTE backend only supports its pinned reranker model")
  else if policy.trustRemoteCode = false then
    .error (.runtimeError "Alibaba GTE backend requires RERANKER_TRUST_REMOTE_CODE=true")
  else if model ∉ policy.allowedModels then
    .error (.runtimeError "Alibaba model is not in RERANKER_REMOTE_CODE_ALLOWLIST")
  else if isPinned revision = false then
    .error (.runtimeError "Alibaba model requires an immutable 40-character revision")
  else if policy.remoteCodeRevision = [] then
    .error (.runtimeError "Alibaba model requires RERANKER_REMOTE_CODE_REVISION")
  else .ok ()

end RemoteCodePolicy

/-- `backend.load(model, revision, _)` up to its thread: the policy refuses it, or the thread makes
this call. -/
def Settings.remoteLoad (settings : Settings) (policy : RemoteCodePolicy) (model revision : Text) :
    Except Error (Option RemoteLoad) :=
  match settings.backend with
  | .onnxPairwise => .ok none
  | .legacyCrossEncoder =>
      if settings.mockModel then .ok none
      else if policy.trustRemoteCode ∧ model ∈ policy.allowedModels then
        .ok (some { model, revision })
      else .ok none
  | .jinaListwise =>
      if settings.mockModel then .ok none
      else do
        policy.validateJina model revision
        return some { model, revision }
  | .alibabaGte =>
      if settings.mockModel then .ok none
      else do
        policy.validateAlibaba model revision
        return some { model, revision, codeRevision := some policy.remoteCodeRevision }

namespace ModelRuntime

/-- What the action calls `backend.load` for. -/
def loadRequested (s : ModelRuntime) : Action → Option Identity
  | .loadBegin => some (s.settings.model, s.settings.modelRevision)
  | .lockAcquired =>
      match s.lockQueue with
      | .candidate check _ :: _ => some (check.name, check.resolvedRevision.getD [])
      | _ => none
  | _ => none

/-- The `backend.load` that the action is the answer of. -/
def loadAnswered (s : ModelRuntime) : Action → Option (Identity × Except Error Loaded)
  | .loadReturned outcome =>
      match s.initialLoad with
      | .loading name revision _ _ => some ((name, revision), outcome)
      | _ => none
  | .candidateReturned outcome =>
      match s.lockHolder with
      | some (.loading check _ _) => some ((check.name, check.resolvedRevision.getD []), outcome)
      | _ => none
  | _ => none

end ModelRuntime

/-- `remote` has every call that trusted the code of a model. -/
structure Deployment where
  runtime : ModelRuntime
  policy : RemoteCodePolicy
  remote : List RemoteLoad := []

namespace Deployment

/-- A load that the policy refuses raises its error. -/
def admits (d : Deployment) (a : ModelRuntime.Action) : Bool :=
  match d.runtime.loadAnswered a with
  | none => true
  | some (identity, outcome) =>
      match d.runtime.settings.remoteLoad d.policy identity.1 identity.2, outcome with
      | .ok _, _ => true
      | .error _, .ok _ => false
      | .error refusal, .error error => refusal = error

def called (d : Deployment) (a : ModelRuntime.Action) : Option RemoteLoad :=
  (d.runtime.loadRequested a).bind fun identity =>
    (d.runtime.settings.remoteLoad d.policy identity.1 identity.2).toOption.join

def step (d : Deployment) (a : ModelRuntime.Action) : Option Deployment :=
  if d.admits a then
    (d.runtime.step a).map fun runtime =>
      { d with runtime, remote := d.remote ++ (d.called a).toList }
  else none

structure Initial (configured : Settings) (policy : RemoteCodePolicy) (d : Deployment) : Prop where
  runtime : ∃ backendDevice, d.runtime = .new configured backendDevice
  policy : d.policy = policy
  remote : d.remote = []

end Deployment

end RerankerService
