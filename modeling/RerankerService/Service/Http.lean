import Mathlib.Data.Rat.Defs
import RerankerService.Foundation.Run
import RerankerService.Security

/-!
# The HTTP front

The middlewares of `main.py`, the dependencies of its routes with `_bearer`, and the accounting of
requests. Which route a URL belongs to, whether a body is JSON and whether it fits the schema is the
framework's work; what a handler does after the dependencies have passed is a parameter. Requests are
answered in any order, and a client may leave at any time.
-/

namespace RerankerService

/-! ### The routes -/

inductive Guard where
  | service
  | admin
  deriving DecidableEq

/-- The functions of `main.py` with a route. -/
inductive Endpoint where
  | live | ready | models | currentModel | rerank | backends | rerankBatch | metrics
  | dashboard | adminRerank | adminRerankBatch | timeseries
  | getRuntime | patchRuntime | validateRuntime | reloadRuntime | rollbackRuntime
  | adminModels | checkModel | loadCandidate | activateModel
  | cacheStatus | cachePatch | cacheClear | cacheTest
  | createBenchmark | benchmarks | benchmark | baseline | deleteBenchmark
  | requests | getRequest | repeatRequest
  | systemHealth | resources | auditLog
  deriving DecidableEq

namespace Endpoint

def path : Endpoint → Text
  | .live => "/health/live".toList
  | .ready => "/health/ready".toList
  | .models => "/v1/models".toList
  | .currentModel => "/v1/models/current".toList
  | .rerank => "/v1/rerank".toList
  | .backends => "/v1/backends".toList
  | .rerankBatch => "/v1/rerank/batch".toList
  | .metrics => "/metrics".toList
  | .dashboard => "/v1/admin/dashboard".toList
  | .adminRerank => "/v1/admin/rerank".toList
  | .adminRerankBatch => "/v1/admin/rerank/batch".toList
  | .timeseries => "/v1/admin/metrics/timeseries".toList
  | .getRuntime | .patchRuntime => "/v1/admin/runtime".toList
  | .validateRuntime => "/v1/admin/runtime/validate".toList
  | .reloadRuntime => "/v1/admin/runtime/reload".toList
  | .rollbackRuntime => "/v1/admin/runtime/rollback".toList
  | .adminModels => "/v1/admin/models".toList
  | .checkModel => "/v1/admin/models/check".toList
  | .loadCandidate => "/v1/admin/models/load".toList
  | .activateModel => "/v1/admin/models/activate".toList
  | .cacheStatus | .cachePatch => "/v1/admin/cache".toList
  | .cacheClear => "/v1/admin/cache/clear".toList
  | .cacheTest => "/v1/admin/cache/test".toList
  | .createBenchmark | .benchmarks => "/v1/admin/benchmarks".toList
  | .benchmark | .deleteBenchmark => "/v1/admin/benchmarks/\x7bbenchmark_id\x7d".toList
  | .baseline => "/v1/admin/benchmarks/\x7bbenchmark_id\x7d/baseline".toList
  | .requests => "/v1/admin/requests".toList
  | .getRequest => "/v1/admin/requests/\x7brequest_id\x7d".toList
  | .repeatRequest => "/v1/admin/requests/\x7brequest_id\x7d/repeat".toList
  | .systemHealth => "/v1/admin/system/health".toList
  | .resources => "/v1/admin/system/resources".toList
  | .auditLog => "/v1/admin/audit-log".toList

/-- The `dependencies` of the route: `service_deps`, `admin_deps` or none. -/
def guard : Endpoint → Option Guard
  | .live | .ready | .backends => none
  | .models | .currentModel | .rerank | .rerankBatch | .metrics => some .service
  | _ => some .admin

end Endpoint

/-! ### Requests and answers -/

/-- What the router makes of the URL and the method. With `partly` it has a route for the URL but
not for the method; `unmatched` is its own answer. -/
inductive Routing where
  | matched (endpoint : Endpoint)
  | partly (endpoint : Endpoint)
  | unmatched (status : Nat)

/-- What comes of reading the body, where the route has one. A body that is no text is
`unreadable`. -/
inductive Reading where
  | json
  | malformed
  | unreadable
  deriving DecidableEq

/-- What the schema makes of body and parameters. The errors of a validator of `schemas.py` hold the
exception that it raised, so `exc.errors()` may be `unwritable` as JSON: `JSONResponse` raises. -/
inductive Schema where
  | fits
  | violated
  | unwritable (kind message : String)
  deriving DecidableEq

/-- What is read of a request. `contentLength` is the header, unless it is empty, with what `int`
makes of it. -/
structure HttpRequest where
  path : Text
  routing : Routing
  backend : Option Text := none
  contentLength : Option (Option Int) := none
  authorization : Option Text := none
  requestId : Option Text := none
  correlationId : Option Text := none
  client : Option Text := none
  body : Reading := .json
  schema : Schema := .fits

/-- A response: its status, the code and message of an error, and the `x-request-id` and
`x-correlation-id` headers. -/
structure Answer where
  status : Nat
  error : Option (Text × Text) := none
  headers : Option (Text × Text) := none
  deriving DecidableEq

/-- The settings of the front; no endpoint changes them. -/
structure HttpConfig where
  backend : BackendName
  apiKey : Text
  adminToken : Text
  maxBodyBytes : Int := 1048576

namespace HttpConfig

def secret (config : HttpConfig) : Guard → Text
  | .service => config.apiKey
  | .admin => config.adminToken

end HttpConfig

namespace HttpRequest

/-- The check of `content-length`, with the answer to a request that fails it. When `int` raises,
nothing of `main.py` catches it. -/
def turnedAway (config : HttpConfig) (request : HttpRequest) : Option Answer :=
  match request.contentLength with
  | none => none
  | some none => some { status := 500 }
  | some (some length) =>
      if config.maxBodyBytes < length then
        some
          { status := 413
            error := some ("request_too_large".toList, "request body is too large".toList) }
      else none

/-- The check of `validate_backend`. -/
def wrongBackend (config : HttpConfig) (request : HttpRequest) : Bool :=
  "/v1/".toList.isPrefixOf request.path &&
    request.backend.any fun selected => selected ≠ [] && selected ≠ config.backend.text

/-- `route.path if route is not None else request.url.path`. -/
def label (request : HttpRequest) : Text :=
  match request.routing with
  | .matched endpoint | .partly endpoint => endpoint.path
  | .unmatched _ => request.path

end HttpRequest

def isAscii (text : Text) : Bool :=
  text.all fun c => c.toNat < 128

def unauthorized : Error :=
  .service 401 "unauthorized" "invalid or missing bearer token"

/-- `hmac.compare_digest` raises for texts that are not ASCII. -/
def bearer (value : Option Text) (expected : Text) : Except Error Unit :=
  match value with
  | none => .error unauthorized
  | some value =>
      if value = [] ∨ ¬"Bearer ".toList.isPrefixOf value then .error unauthorized
      else if ¬(isAscii (value.drop 7) ∧ isAscii expected) then
        .error (.exception "TypeError"
          "comparing strings with non-ASCII characters is not supported")
      else if value.drop 7 = expected then .ok ()
      else .error unauthorized

namespace Endpoint

/-- `security.service_auth` or `security.admin_auth`. -/
def authorize (endpoint : Endpoint) (config : HttpConfig) (request : HttpRequest) :
    Except Error Unit :=
  match endpoint.guard with
  | none => .ok ()
  | some guard => bearer request.authorization (config.secret guard)

/-- `security.rate_limit` is called: the second dependency, after the first has passed. -/
def limits (endpoint : Endpoint) (config : HttpConfig) (request : HttpRequest) : Bool :=
  endpoint.guard.isSome && endpoint.authorize config request = .ok ()

def dependencies (endpoint : Endpoint) (config : HttpConfig) (request : HttpRequest) (now : Rat)
    (security : Security) : Except Error Unit × Security :=
  if endpoint.limits config request then security.rateLimit { client := request.client, now }
  else (endpoint.authorize config request, security)

end Endpoint

/-! ### The server -/

/-- A handler starts, has a reply at some point (the status of its response, or what it raised), is
cancelled when its client leaves; `step` is everything else that goes on in the process. -/
structure Handlers (σ α : Type) where
  start : Endpoint → Nat → HttpRequest → σ → σ
  reply : σ → Nat → Option (Except Error Nat)
  cancel : Nat → σ → σ
  step : σ → α → Option σ

inductive HttpPhase where
  | reading
  | handling
  deriving DecidableEq

/-- A call of `request_middleware` that is suspended in `call_next`, with its locals. -/
structure Active where
  request : HttpRequest
  requestId : Text
  correlationId : Text
  phase : HttpPhase := .reading

/-- A handler that was started. -/
structure Started where
  id : Nat
  endpoint : Endpoint
  request : HttpRequest
  time : Rat

/-- `served` are the increments of `HTTP_REQUESTS`, `errors` those of `ERRORS.labels("500")`, each
with the number of its request. `started` and `limited` record the handlers that were started and
the calls of `rate_limit`. -/
structure HttpServer (σ : Type) where
  service : σ
  security : Security := {}
  now : Rat := 0
  inProgress : Int := 0
  arrived : List (Nat × HttpRequest) := []
  active : Nat → Option Active := fun _ => none
  served : List (Nat × Text × Nat) := []
  errors : List Nat := []
  answers : List (Nat × Answer) := []
  started : List Started := []
  limited : List (Nat × Call × Except Error Unit) := []

namespace HttpServer

variable {σ α : Type} (config : HttpConfig) (handlers : Handlers σ α)

def answer (s : HttpServer σ) (id : Nat) (answer : Answer) : HttpServer σ :=
  { s with answers := s.answers ++ [(id, answer)] }

/-- The `finally` of `request_middleware`. -/
def leave (s : HttpServer σ) (id : Nat) (label : Text) (status : Nat) : HttpServer σ :=
  { s with
    active := Function.update s.active id none
    inProgress := s.inProgress - 1
    served := s.served ++ [(id, label, status)] }

/-- `call_next` returns a response. -/
def respond (s : HttpServer σ) (id : Nat) (entry : Active) (label : Text) (status : Nat)
    (error : Option (Text × Text)) : HttpServer σ :=
  (s.leave id label status).answer id
    { status, error, headers := some (entry.requestId, entry.correlationId) }

def internalError : Answer where
  status := 500
  error := some ("internal_error".toList, "internal server error".toList)

/-- The exception handlers of the application, and the `except Exception` of `request_middleware`. A
cancellation passes both. -/
def raised (s : HttpServer σ) (id : Nat) (entry : Active) : Error → HttpServer σ
  | .service status code message =>
      s.respond id entry entry.request.label status (some (code.toList, message.toList))
  | .cancelled => s.leave id entry.request.label 500
  | _ =>
      answer { s.leave id entry.request.label 500 with errors := s.errors ++ [id] } id internalError

/-- The locals of `request_middleware`; `uuid` is a fresh `uuid4`. -/
def entry (request : HttpRequest) (uuid : Text) : Active where
  request
  requestId := request.requestId.getD uuid
  correlationId := request.correlationId.getD (request.requestId.getD uuid)

def enter (s : HttpServer σ) (id : Nat) (entry : Active) : HttpServer σ :=
  { s with
    inProgress := s.inProgress + 1
    active := Function.update s.active id (some entry) }

/-- `request_middleware` and `validate_backend` up to the reading of the body. -/
def arrive (s : HttpServer σ) (id : Nat) (request : HttpRequest) (uuid : Text) :
    Option (HttpServer σ) :=
  if id ∈ s.arrived.map Prod.fst then none
  else
    let s := { s with arrived := s.arrived ++ [(id, request)] }
    match request.turnedAway config with
    | some answer => some (s.answer id answer)
    | none =>
        let entry := entry request uuid
        let s := s.enter id entry
        if request.wrongBackend config then
          some (s.respond id entry request.path 400 (some ("invalid_backend".toList,
            "unknown or unavailable backend: ".toList ++ request.backend.getD [])))
        else some s

/-- `validation_handler`, for errors that can be written. -/
def invalidRequest (s : HttpServer σ) (id : Nat) (entry : Active) : HttpServer σ :=
  s.respond id entry entry.request.label 422
    (some ("validation_error".toList, "request validation failed".toList))

/-- What the dependencies of the route make of the request. -/
def outcome (s : HttpServer σ) (entry : Active) (endpoint : Endpoint) : Except Error Unit :=
  (endpoint.dependencies config entry.request s.now s.security).1

/-- The dependencies have been called. -/
def consult (s : HttpServer σ) (id : Nat) (entry : Active) (endpoint : Endpoint) : HttpServer σ :=
  { s with
    security := (endpoint.dependencies config entry.request s.now s.security).2
    limited := s.limited ++
      if endpoint.limits config entry.request then
        [(id, { client := entry.request.client, now := s.now }, s.outcome config entry endpoint)]
      else [] }

def start (s : HttpServer σ) (id : Nat) (entry : Active) (endpoint : Endpoint) : HttpServer σ :=
  { s with
    active := Function.update s.active id (some { entry with phase := .handling })
    started := s.started ++ [{ id, endpoint, request := entry.request, time := s.now }]
    service := handlers.start endpoint id entry.request s.service }

/-- The schema is applied, and the handler is started. -/
def validate (s : HttpServer σ) (id : Nat) (entry : Active) (endpoint : Endpoint) : HttpServer σ :=
  match entry.request.schema with
  | .fits => s.start handlers id entry endpoint
  | .violated => s.invalidRequest id entry
  | .unwritable kind message => s.raised id entry (.exception kind message)

/-- The body has been read: the dependencies are called. -/
def handle (s : HttpServer σ) (id : Nat) (entry : Active) (endpoint : Endpoint) : HttpServer σ :=
  let consulted := s.consult config id entry endpoint
  match s.outcome config entry endpoint with
  | .error error => consulted.raised id entry error
  | .ok () => consulted.validate handlers id entry endpoint

/-- The route takes over. -/
def route (s : HttpServer σ) (id : Nat) (entry : Active) : HttpServer σ :=
  match entry.request.routing with
  | .unmatched status => s.respond id entry entry.request.label status none
  | .partly _ => s.respond id entry entry.request.label 405 none
  | .matched endpoint =>
      match entry.request.body with
      | .json => s.handle config handlers id entry endpoint
      | .malformed => s.invalidRequest id entry
      | .unreadable => s.respond id entry entry.request.label 400 none

/-- `call_next(request)`, up to the body of the handler. -/
def callNext (s : HttpServer σ) (id : Nat) : Option (HttpServer σ) :=
  match s.active id with
  | some entry => if entry.phase = .reading then some (s.route config handlers id entry) else none
  | none => none

/-- The handler has returned or raised. -/
def reply (s : HttpServer σ) (id : Nat) : Option (HttpServer σ) :=
  match s.active id with
  | some entry =>
      if entry.phase = .handling then
        (handlers.reply s.service id).map fun
          | .ok status => s.respond id entry entry.request.label status none
          | .error error => s.raised id entry error
      else none
  | none => none

/-- The client leaves. -/
def cancel (s : HttpServer σ) (id : Nat) : Option (HttpServer σ) :=
  (s.active id).map fun entry =>
    let s := s.leave id entry.request.label 500
    match entry.phase with
    | .reading => s
    | .handling => { s with service := handlers.cancel id s.service }

inductive Action (α : Type) where
  | tick (elapsed : Rat)
  | arrive (id : Nat) (request : HttpRequest) (uuid : Text)
  | callNext (id : Nat)
  | reply (id : Nat)
  | cancel (id : Nat)
  | serve (action : α)

def step (s : HttpServer σ) : Action α → Option (HttpServer σ)
  | .tick elapsed => if 0 ≤ elapsed then some { s with now := s.now + elapsed } else none
  | .arrive id request uuid => s.arrive config id request uuid
  | .callNext id => s.callNext config handlers id
  | .reply id => s.reply handlers id
  | .cancel id => s.cancel handlers id
  | .serve action => (handlers.step s.service action).map fun service => { s with service }

/-- `create_app`, with nothing requested yet. -/
def Initial (limit : Nat) (s : HttpServer σ) : Prop :=
  ∃ service, s = { service, security := { rateLimitPerMinute := limit } }

end HttpServer

end RerankerService
