import RerankerService.Arithmetic
import RerankerService.Foundation.Grouping
import RerankerService.Service.Request

/-!
# The retained requests

`record_response` and the `/v1/admin/requests` endpoint of `main.py`, and `AdminState.timeseries`.
Times and latencies are exact numbers.
-/

namespace RerankerService

/-- `serial` says which of the recorded requests it is; nothing reads it. -/
structure RequestRecord where
  serial : Nat
  requestId : Nat
  timestamp : Rat
  documentsCount : Int
  model : Text
  latencyMs : Rat
  cacheHits : Int
  status : Text
  deriving DecidableEq

def successStatus : Text :=
  "success".toList

/-- What `record_response` writes down; the time, the latency and the serial come from outside. -/
def RequestRecord.ofResponse (response : RerankResponse) (serial : Nat) (timestamp : Rat)
    (latencyMs : Nat) : RequestRecord where
  serial := serial
  requestId := response.requestId
  timestamp := timestamp
  documentsCount := response.usage.documentsReceived
  model := response.model
  latencyMs := latencyMs
  cacheHits := response.usage.cacheHits
  status := successStatus

namespace AdminState

/-- The `maxlen` of the deques. -/
def capacity : Nat := 1000

/-- `requests.appendleft(record)`: a full deque drops its last record. -/
def appendLeft (requests : List RequestRecord) (record : RequestRecord) : List RequestRecord :=
  (record :: requests).take capacity

/-! ### Pages -/

structure RequestFilter where
  status : Option Text := none
  modelName : Option Text := none
  minLatencyMs : Option Rat := none

def RequestFilter.admits (filter : RequestFilter) (item : RequestRecord) : Bool :=
  filter.status.all (item.status = ·) && filter.modelName.all (item.model = ·) &&
    filter.minLatencyMs.all (· ≤ item.latencyMs)

structure RequestsPage where
  items : List RequestRecord
  total : Nat
  page : Nat
  size : Nat

/-- `GET /v1/admin/requests`. -/
def requestsPage (requests : List RequestRecord) (page size : Nat) (filter : RequestFilter := {}) :
    RequestsPage :=
  let items := requests.filter filter.admits
  { items := (items.drop ((page - 1) * size)).take size
    total := items.length
    page, size }

/-! ### Time series -/

structure TimePoint where
  timestamp : Int
  requests : Nat
  documents : Int
  cacheHits : Int
  latencyMeanMs : Rat
  latencyP95Ms : Rat
  errors : Nat
  deriving DecidableEq

def p95Index (count : Nat) : Int :=
  min (roundHalfEven ((count - 1) * (95 / 100))) (count - 1)

/-- The body of the loop over the buckets. -/
def timePoint (timestamp : Int) (requests : List RequestRecord) : Except Error TimePoint := do
  let latencies := (requests.map RequestRecord.latencyMs).insertionSort (· ≤ ·)
  let mean ← floatDivide latencies.sum (latencies.length : Rat)
  let p95 ← getIndex latencies (p95Index latencies.length)
  return {
    timestamp
    requests := requests.length
    documents := (requests.map RequestRecord.documentsCount).sum
    cacheHits := (requests.map RequestRecord.cacheHits).sum
    latencyMeanMs := mean
    latencyP95Ms := p95
    errors := requests.countP fun item => item.status ≠ successStatus }

/-- The body of the loop over the requests. -/
def collectRequest (cutoff : Rat) (bucketSeconds : Int) (buckets : List (Int × List RequestRecord))
    (request : RequestRecord) : Except Error (List (Int × List RequestRecord)) :=
  if cutoff ≤ request.timestamp then
    (floorDivide request.timestamp bucketSeconds).map fun quotient =>
      Grouping.add (quotient * bucketSeconds) request buckets
  else .ok buckets

/-- `timeseries`; no two buckets have the same timestamp, so the requests are never compared. -/
def timeseries (requests : List RequestRecord) (now : Rat) (periodSeconds bucketSeconds : Int) :
    Except Error (List TimePoint) := do
  let buckets ← requests.foldlM (collectRequest (now - periodSeconds) bucketSeconds) []
  (buckets.insertionSort fun a b => a.1 ≤ b.1).mapM fun bucket => timePoint bucket.1 bucket.2

end AdminState

end RerankerService
