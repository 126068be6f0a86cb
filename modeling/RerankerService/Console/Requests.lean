import RerankerService.Service.Requests

/-!
# Fetching the retained requests

`fetchRetainedRequests` of the console, against a server that records further requests between the
requests for pages. Every page is assumed to be answered.
-/

namespace RerankerService.Console

open AdminState

/-- The server records requests, one after the other. -/
def recordAll (requests : List RequestRecord) (batch : List RequestRecord) : List RequestRecord :=
  batch.foldl appendLeft requests

/-- The loop over the pages from the second on; the first of the `arrivals` are recorded before the
next page is asked for. -/
def fetchPages (size : Nat) : List Nat → List RequestRecord → List (List RequestRecord) →
    List RequestRecord
  | [], _, _ => []
  | page :: rest, requests, arrivals =>
      let requests := recordAll requests (arrivals.headD [])
      (requestsPage requests page size).items ++ fetchPages size rest requests arrivals.tail

/-- The number of pages is that of the first response. -/
def pageCount (size total : Nat) : Nat :=
  (total + size - 1) / size

def fetchRetainedRequests (requests : List RequestRecord) (arrivals : List (List RequestRecord)) :
    List RequestRecord :=
  let size := 100
  let firstPage := requestsPage requests 1 size
  let pages := pageCount size firstPage.total
  firstPage.items ++ fetchPages size (List.range' 2 (pages - 1)) requests arrivals

/-- A fetch among requests that are recorded: `arrivals` has those between the first page and the
second, between the second and the third, and so on. Nothing is evicted. -/
structure Fetch where
  retained : List RequestRecord
  arrivals : List (List RequestRecord)
  distinct : ((arrivals.flatten ++ retained).map RequestRecord.serial).Nodup
  fits : retained.length + arrivals.flatten.length ≤ capacity

namespace Fetch

def items (fetch : Fetch) : List RequestRecord :=
  fetchRetainedRequests fetch.retained fetch.arrivals

/-- Every record that was retained at the start is fetched exactly once. -/
def Exact (fetch : Fetch) : Prop :=
  ∀ record ∈ fetch.retained, fetch.items.count record = 1

/-- The requests that are recorded before the last page is asked for. -/
def recordedMeanwhile (fetch : Fetch) : List RequestRecord :=
  (fetch.arrivals.take (pageCount 100 fetch.retained.length - 1)).flatten

end Fetch

end RerankerService.Console
