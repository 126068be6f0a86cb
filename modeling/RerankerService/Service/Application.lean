import RerankerService.Batching.Worker
import RerankerService.Cache
import RerankerService.Foundation.Run
import RerankerService.Runtime.Lifecycle
import RerankerService.Service.Request

/-!
# The application

`service.py` over the runtime, the batcher and Redis, as `main.py` puts them together. A call of
`rerank` is suspended while it awaits Redis or the predictor; each function below is what one
coroutine does from one suspension to the next. Redis keeps every entry that was handed to it and
answers a lookup with any of those that were written under the key, with a miss, or not at all: a
write may fail, an entry may expire.
-/

namespace RerankerService

/-- Where a call of `rerank` is suspended. `asked` are the settings that the keys of the lookup were
computed from. -/
inductive RerankPhase where
  | created
  | lookup (asked : Settings)
  | direct (scores : List (Option Score)) (predict : PredictId)
  | batched (scores : List (Option Score)) (job : JobId)
  | writing (misses : List Nat) (scores : List (Option Score))
  | returned (response : RerankResponse)
  | raised (error : Error)

/-- A call of `rerank` with its locals. -/
structure RerankCall where
  request : RerankRequest
  query : Text := []
  prepared : List PreparedDocument := []
  activeModel : Option ModelId := none
  mode : RerankMode := .pairwise
  phase : RerankPhase := .created

abbrev CallId := Nat

structure BatchResponse where
  responses : List RerankResponse
  totalPairs : Nat

/-- A request to `/v1/rerank/batch`: the tasks that it gathers. -/
structure BatchCall where
  requests : List RerankRequest
  calls : List CallId
  outcome : Option (Except Error BatchResponse) := none

/-- The calls of `rerank` are those below `created`. `workerCall` is the call of the runtime's
`predict` that the batcher's worker awaits. -/
structure Application where
  runtime : ModelRuntime
  batcher : DynamicBatcher Score
  workerCall : Option PredictId := none
  redis : List (ScoreCache.Write Score) := []
  calls : CallId → RerankCall
  created : Nat := 0
  batches : List BatchCall := []

/-- The settings that a validated `PATCH /v1/admin/runtime` changes. -/
structure RuntimePatch where
  maxConcurrency : Option Nat := none
  maxLength : Option Nat := none
  dynamicBatching : Option Bool := none
  maxBatchPairs : Option Nat := none
  defaultTopN : Option Nat := none

namespace RerankCall

def texts (call : RerankCall) : List Text :=
  call.prepared.map PreparedDocument.text

def textAt (call : RerankCall) (i : Nat) : Text :=
  call.texts[i]?.getD []

/-- `[texts[i] for i in misses]`. -/
def missingTexts (call : RerankCall) (misses : List Nat) : List Text :=
  misses.map call.textAt

/-- `[(query, texts[i]) for i in misses]`. -/
def missingPairs (call : RerankCall) (misses : List Nat) : List Pair :=
  misses.map fun i => (call.query, call.textAt i)

end RerankCall

namespace Application

variable (prims : Primitives)

def settings (s : Application) : Settings :=
  s.runtime.settings

def setCall (s : Application) (id : CallId) (call : RerankCall) : Application :=
  { s with calls := Function.update s.calls id call }

def setPhase (s : Application) (id : CallId) (phase : RerankPhase) : Application :=
  s.setCall id { s.calls id with phase }

/-! ### A call of `rerank` -/

/-- The tail of `rerank`, after its last await. -/
def response (s : Application) (call : RerankCall) (misses : List Nat)
    (scores : List (Option Score)) : RerankResponse :=
  let metadata := s.settings.metadata s.runtime.backendDevice (call.activeModel.map s.runtime.models)
  let resolvedRevision := metadata.resolvedRevision.getD s.settings.modelRevision
  { requestId := call.request.requestId
    model := s.settings.model
    modelRevision := resolvedRevision
    device := s.runtime.device
    requestedRevision := metadata.requestedRevision.getD s.settings.modelRevision
    resolvedRevision
    backend := s.settings.backend.text
    rerankMode := call.mode
    activeProvider := metadata.activeProvider.getD s.runtime.device
    results := RerankService.rankedResults s.settings call.request call.prepared
      (call.activeModel.map fun m => (s.runtime.models m).toSource) misses scores
    usage :=
      { documentsReceived := call.prepared.length
        documentsScored := call.prepared.length
        cacheHits := call.prepared.length - misses.length } }

/-- pydantic refuses a `Result` that is out of its bounds. -/
def invalidResult : Error :=
  .exception "ValidationError" "normalized_score: Input should be greater than or equal to 0"

def respond (s : Application) (id : CallId) (misses : List Nat) (scores : List (Option Score)) :
    Application :=
  let response := s.response (s.calls id) misses scores
  s.setPhase id (if response.valid then .returned response else .raised invalidResult)

/-- `runtime.predict(pairs)` is called and awaited. -/
def inferDirect (s : Application) (id : CallId) (scores : List (Option Score))
    (pairs : List Pair) : Application :=
  Application.setPhase { s with runtime := s.runtime.enter pairs } id
    (.direct scores s.runtime.entered)

/-- From the cached scores to the await of the predictor, or to the end when nothing is missing. -/
def infer (s : Application) (id : CallId) (scores : List (Option Score)) : Application :=
  let call := s.calls id
  let misses := RerankService.missing scores
  let pairs := call.missingPairs misses
  if misses = [] then s.respond id [] scores
  else if call.mode = .listwise then s.inferDirect id scores pairs
  else
    match s.batcher.predict pairs with
    | (_, .direct) => s.inferDirect id scores pairs
    | (_, .raised error) => s.setPhase id (.raised error)
    | (batcher, .queued job) => Application.setPhase { s with batcher } id (.batched scores job)

/-- The locals of a request that passed the checks. -/
def accept (s : Application) (id : CallId) (query : Text) (prepared : List PreparedDocument) :
    Application :=
  s.setCall id { s.calls id with
    query, prepared, activeModel := s.runtime.model, mode := s.settings.rerankMode }

/-- `rerank` up to its first await. -/
def beginCall (s : Application) (id : CallId) : Option Application :=
  let call := s.calls id
  match call.phase with
  | .created =>
      if id < s.created then
        if s.runtime.ready = false then
          some (s.setPhase id (.raised (.service 503 "model_not_ready" "model is not ready")))
        else if s.settings.backendMaxDocuments < call.request.documents.length then
          some (s.setPhase id (.raised
            (RerankService.requestTooLarge "too many documents for active backend")))
        else
          match RerankService.validate s.settings call.request with
          | .error error => some (s.setPhase id (.raised error))
          | .ok (query, prepared) =>
              let s := s.accept id query prepared
              if s.settings.rerankMode = .listwise then
                some (s.infer id (List.replicate prepared.length none))
              else if s.settings.cacheEnabled then some (s.setPhase id (.lookup s.settings))
              else
                some (s.infer id (ScoreCache.getMany s.settings (s.calls id).texts none))
      else none
  | _ => none

/-- Redis can answer the keys with these values. -/
def answers (redis : List (ScoreCache.Write Score)) (keys : List Text)
    (values : List (Option Score)) : Bool :=
  decide (values.length = keys.length) &&
    (keys.zip values).all fun entry =>
      entry.2.all fun score => redis.any fun write => write.key = entry.1 ∧ write.score = score

/-- `mget` returns, or raises for `none`. -/
def lookedUp (s : Application) (id : CallId) (answer : Option (List (Option Score))) :
    Option Application :=
  let call := s.calls id
  match call.phase with
  | .lookup asked =>
      if answer.all fun values =>
          answers s.redis (ScoreCache.keys prims asked call.query call.texts) values then
        some (s.infer id (ScoreCache.getMany asked call.texts answer))
      else none
  | _ => none

def lengthMismatch (misses inferred : Nat) : Error :=
  .valueError (if inferred < misses then "zip() argument 2 is shorter than argument 1"
    else "zip() argument 2 is longer than argument 1")

/-- The inferred scores arrive: they are merged and handed to the cache, whose keys are computed
now. -/
def inferred (s : Application) (id : CallId) (scores : List (Option Score))
    (values : List Score) : Application :=
  let call := s.calls id
  let misses := RerankService.missing scores
  if values.length ≠ misses.length then
    s.setPhase id (.raised (lengthMismatch misses.length values.length))
  else
    let scores := RerankService.scatter scores misses values
    if call.mode = .listwise ∨ s.settings.cacheEnabled = false then s.respond id misses scores
    else
      Application.setPhase { s with
        redis := s.redis ++
          ScoreCache.setMany prims s.settings call.query (call.missingTexts misses) values }
        id (.writing misses scores)

def inferenceTimeout : Error :=
  .service 504 "inference_timeout" "inference timed out"

/-- The `except TimeoutError` of `rerank`. -/
def inferenceError : Error → Error
  | .exception "TimeoutError" _ => inferenceTimeout
  | error => error

def received (s : Application) (id : CallId) (scores : List (Option Score)) :
    Reply Score → Application
  | .scores values => s.inferred prims id scores values
  | .raised error => s.setPhase id (.raised (inferenceError error))

/-- What the future of a settled job gives to its caller. -/
def jobReply : Future Score → Option (Reply Score)
  | .pending => none
  | .result values => some (.scores values)
  | .exception error => some (.raised error)
  | .cancelled => some (.raised .cancelled)

/-- The awaited predictor has answered. -/
def predicted (s : Application) (id : CallId) : Option Application :=
  match (s.calls id).phase with
  | .direct scores predict =>
      (s.runtime.resumePredict predict).map fun next =>
        { s with runtime := next.1 }.received prims id scores next.2
  | .batched scores job => (jobReply (s.batcher.jobs job).future).map (s.received prims id scores)
  | _ => none

/-- `request_timeout_seconds` are over; what the call awaits is cancelled. -/
def timedOut (s : Application) (id : CallId) : Option Application :=
  match (s.calls id).phase with
  | .direct _ predict =>
      some (Application.setPhase { s with runtime := s.runtime.cancelPredict predict } id
        (.raised inferenceTimeout))
  | .batched _ job =>
      some (Application.setPhase { s with batcher := s.batcher.cancelJob job } id
        (.raised inferenceTimeout))
  | _ => none

/-- `pipe.execute()` returns or raises; `set_many` treats both alike. -/
def written (s : Application) (id : CallId) : Option Application :=
  match (s.calls id).phase with
  | .writing misses scores => some (s.respond id misses scores)
  | _ => none

/-! ### Requests -/

def create (s : Application) (request : RerankRequest) : Application :=
  { s with
    calls := Function.update s.calls s.created { request }
    created := s.created + 1 }

/-- `POST /v1/rerank`. -/
def rerank (s : Application) (request : RerankRequest) : Option Application :=
  (s.create request).beginCall s.created

/-- `POST /v1/rerank/batch` up to the `gather`, which makes a task of every call. -/
def rerankBatch (s : Application) (requests : List RerankRequest) : Application :=
  if s.settings.maxBatchRequests < requests.length then
    { s with
      batches := s.batches ++ [{ requests, calls := [], outcome := some (.error
        (RerankService.requestTooLarge "too many batch requests")) }] }
  else
    { requests.foldl create s with
      batches := s.batches ++ [{ requests, calls := List.range' s.created requests.length }] }

def responseOf (s : Application) (id : CallId) : Option RerankResponse :=
  match (s.calls id).phase with
  | .returned response => some response
  | _ => none

def gathered (s : Application) (batch : Nat) : Option Application :=
  match s.batches[batch]? with
  | some { requests, calls, outcome := none } =>
      (calls.mapM s.responseOf).map fun responses =>
        { s with
          batches := s.batches.set batch
            { requests, calls, outcome := some (.ok
              { responses
                totalPairs := (requests.map fun request => request.documents.length).sum }) } }
  | _ => none

/-- One of the gathered calls raises, and so does the `gather`. -/
def gatherRaised (s : Application) (batch : Nat) (id : CallId) : Option Application :=
  match s.batches[batch]?, (s.calls id).phase with
  | some { requests, calls, outcome := none }, .raised error =>
      if id ∈ calls then
        some { s with
          batches := s.batches.set batch { requests, calls, outcome := some (.error error) } }
      else none
  | _, _ => none

/-! ### The worker of the batcher -/

/-- The worker calls `predictor.predict(combined)` when `_process` has assembled a batch. -/
def callPredictor (s : Application) : Application :=
  match s.batcher.worker with
  | some (.predicting _ _ batch) =>
      { s with
        runtime := s.runtime.enter batch.combined
        workerCall := some s.runtime.entered }
  | _ => { s with workerCall := none }

def take (s : Application) : Option Application :=
  s.batcher.take.map fun batcher => { s with batcher }

def windowClosed (s : Application) : Option Application :=
  s.batcher.windowClosed.map fun batcher => { s with batcher }.callPredictor

def workerPredicted (s : Application) : Option Application :=
  s.workerCall.bind fun predict =>
    (s.runtime.resumePredict predict).bind fun next =>
      (s.batcher.replied next.2).map fun batcher =>
        { s with runtime := next.1, batcher }.callPredictor

def workerCancelled (s : Application) : Option Application :=
  s.batcher.workerCancelled.map fun batcher =>
    { s with
      batcher
      runtime := s.workerCall.elim s.runtime s.runtime.cancelPredict
      workerCall := none }

def closeReturn (s : Application) : Option Application :=
  s.batcher.closeReturn.map fun batcher => { s with batcher }

/-! ### Administration -/

/-- `PATCH /v1/admin/runtime`: the settings are assigned, then the runtime and the batcher are
reconfigured. -/
def patchRuntime (s : Application) (patch : RuntimePatch) : Option Application :=
  let old := s.settings
  let settings :=
    { old with
      dynamicBatching := patch.dynamicBatching.getD old.dynamicBatching
      maxBatchPairs := patch.maxBatchPairs.getD old.maxBatchPairs
      defaultTopN := patch.defaultTopN.getD old.defaultTopN }
  (s.batcher.step (.patch settings.dynamicBatching settings.limits)).map fun batcher =>
    { s with
      runtime := { s.runtime with settings }.reconfigure
        (patch.maxConcurrency.getD old.maxConcurrency) (patch.maxLength.getD old.maxLength)
      batcher }

/-- The actions of the runtime that no coroutine of the application is part of: time, executor
threads, permits, the task of the initial load and the administration of models. -/
def background : ModelRuntime.Action → Bool
  | .tick | .loadReturned _ | .warmedUp _ | .candidateBegin _ _ _ | .activateBegin | .rollbackBegin
  | .lockAcquired | .candidateReturned _ | .candidateSmoked _ | .acquire _ | .begin _
  | .finish _ _ => true
  | _ => false

inductive Action where
  | rerank (request : RerankRequest)
  | rerankBatch (requests : List RerankRequest)
  | beginCall (id : CallId)
  | lookedUp (id : CallId) (answer : Option (List (Option Score)))
  | predicted (id : CallId)
  | timedOut (id : CallId)
  | written (id : CallId)
  | gathered (batch : Nat)
  | gatherRaised (batch : Nat) (id : CallId)
  | take
  | windowClosed
  | workerPredicted
  | workerCancelled
  | closeReturn
  | patchRuntime (patch : RuntimePatch)
  | runtime (action : ModelRuntime.Action)

def step (s : Application) : Action → Option Application
  | .rerank request => s.rerank request
  | .rerankBatch requests => if requests = [] then none else some (s.rerankBatch requests)
  | .beginCall id => s.beginCall id
  | .lookedUp id answer => s.lookedUp prims id answer
  | .predicted id => s.predicted prims id
  | .timedOut id => s.timedOut id
  | .written id => s.written id
  | .gathered batch => s.gathered batch
  | .gatherRaised batch id => s.gatherRaised batch id
  | .take => s.take
  | .windowClosed => s.windowClosed
  | .workerPredicted => s.workerPredicted
  | .workerCancelled => s.workerCancelled
  | .closeReturn => s.closeReturn
  | .patchRuntime patch => s.patchRuntime patch
  | .runtime action =>
      if background action then (s.runtime.step action).map fun runtime => { s with runtime }
      else none

/-- What is known of the configuration: it was validated, and the texts come from the environment of
the process, which holds no NUL. -/
structure Configured (settings : Settings) : Prop where
  maxBatchPairs : 1 ≤ settings.maxBatchPairs
  model : nul ∉ settings.model
  modelRevision : nul ∉ settings.modelRevision
  modelAllowlist : nul ∉ settings.modelAllowlist

/-- The application when `lifespan` yields: the batcher is started, the one task of `load()` awaits
`backend.load`, and requests come in from now on. Earlier processes may have left entries in
Redis. -/
structure Initial (settings : Settings) (Entry : ScoreCache.Write Score → Prop) (s : Application) :
    Prop where
  configured : Configured settings
  runtime : ∃ device, (ModelRuntime.new settings device).step .loadBegin = some s.runtime
  batcher : s.batcher = (DynamicBatcher.new settings).start
  workerCall : s.workerCall = none
  redis : ∀ w ∈ s.redis, Entry w
  calls : ∀ id, (s.calls id).phase = .created
  created : s.created = 0
  batches : s.batches = []

end Application

end RerankerService
