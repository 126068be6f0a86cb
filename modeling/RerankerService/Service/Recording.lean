import RerankerService.Service.Application
import RerankerService.Service.Requests

/-!
# Recording the responses

`record_response` of `main.py` in the running application. The handler of `/v1/rerank` records the
response as soon as `service.rerank` returns it, that of `/v1/rerank/batch` all of them when its
`gather` returns; there is no await in between. What a benchmark asks for is not recorded.
-/

namespace RerankerService

structure RetainedResult where
  id : Text
  score : Score
  normalizedScore : Option Normalized
  rank : Nat
  text : Option Text
  cacheHit : Bool

/-- A record with everything that `record_response` keeps of request and response. -/
structure RetainedRequest extends RequestRecord where
  correlationId : Text
  pairsCount : Nat
  modelRevision : Text
  device : Text
  truncationCount : Nat
  query : Text
  documents : List (Text × Text)
  results : List RetainedResult

/-- What the environment adds to a record. -/
structure Stamp where
  timestamp : Rat
  latencyMs : Nat
  correlationId : Text

/-- `result.text[:200] if result.text else None`. -/
def retainText (text : Option Text) : Option Text :=
  (text.filter fun text => text ≠ []).map (List.take 200)

def RetainedRequest.ofResponse (serial : Nat) (stamp : Stamp) (request : RerankRequest)
    (response : RerankResponse) : RetainedRequest where
  toRequestRecord := .ofResponse response serial stamp.timestamp stamp.latencyMs
  correlationId := stamp.correlationId
  pairsCount := response.usage.documentsScored
  modelRevision := response.modelRevision
  device := response.device
  truncationCount := response.results.countP Result.truncated
  query := request.query.take 500
  documents := request.documents.map fun document => (document.id, document.text.take 200)
  results := response.results.map fun result =>
    { id := result.id
      score := result.score
      normalizedScore := result.normalizedScore
      rank := result.rank
      text := retainText result.text
      cacheHit := result.cacheHit }

/-- The `gather` of the batch has returned. -/
def BatchCall.succeeded (batch : BatchCall) : Bool :=
  match batch.outcome with
  | some (.ok _) => true
  | _ => false

/-- The application with the deque of its requests. `singles` are the calls that handlers of
`/v1/rerank` await; `recorded` is everything that was ever recorded, oldest first. -/
structure Recording where
  app : Application
  singles : List CallId := []
  requests : List RetainedRequest := []
  recorded : List (CallId × RetainedRequest) := []

namespace Recording

variable (prims : Primitives)

/-- `requests.appendleft(record)`. -/
def recordResponse (s : Recording) (stamp : Stamp) (id : CallId) : Recording :=
  match s.app.responseOf id with
  | none => s
  | some response =>
      let record :=
        RetainedRequest.ofResponse s.recorded.length stamp (s.app.calls id).request response
      { s with
        requests := (record :: s.requests).take AdminState.capacity
        recorded := s.recorded ++ [(id, record)] }

/-- The call that takes a step of its own. -/
def acting (s : Application) : Application.Action → Option CallId
  | .rerank _ => some s.created
  | .beginCall id | .lookedUp id _ | .predicted id | .timedOut id | .written id => some id
  | _ => none

/-- What the application does; `handled` says that a `rerank` is that of a handler, and not of a
benchmark. -/
structure Action where
  serve : Application.Action
  handled : Bool := true
  stamp : CallId → Stamp

def singlesAfter (s : Recording) (action : Action) : List CallId :=
  match action.serve, action.handled with
  | .rerank _, true => s.singles ++ [s.app.created]
  | _, _ => s.singles

/-- The calls that a handler may receive the responses of in this step. -/
def received (s : Recording) (action : Action) : List CallId :=
  match action.serve with
  | .gathered batch => (s.app.batches[batch]?).elim [] BatchCall.calls
  | serve => (acting s.app serve).toList.filter fun id => id ∈ s.singlesAfter action

def step (s : Recording) (action : Action) : Option Recording :=
  (s.app.step prims action.serve).map fun app =>
    (s.received action).foldl (fun s id => s.recordResponse (action.stamp id) id)
      { s with app, singles := s.singlesAfter action }

structure Initial (settings : Settings) (Entry : ScoreCache.Write Score → Prop) (s : Recording) :
    Prop where
  app : s.app.Initial settings Entry
  singles : s.singles = []
  requests : s.requests = []
  recorded : s.recorded = []

end Recording

end RerankerService
