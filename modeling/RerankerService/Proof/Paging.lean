import RerankerService.Console.Requests
import RerankerService.Foundation.Pagination

/-!
# Which records a fetch of all pages misses or repeats

The pages are those of a list that grows at the front, so the fetch is exact only if nothing is
recorded until the last page is asked for.
-/

namespace RerankerService.Console

open AdminState

variable {requests batch : List RequestRecord} {arrivals : List (List RequestRecord)}
  {size p n : Nat}

/-- Nothing is evicted while there is room. -/
theorem recordAll_eq (hfits : requests.length + batch.length ≤ capacity) :
    recordAll requests batch = batch.reverse ++ requests := by
  unfold recordAll
  induction batch generalizing requests with
  | nil => rfl
  | cons record rest ih =>
      rw [List.length_cons] at hfits
      have hroom : appendLeft requests record = record :: requests := by
        unfold appendLeft
        apply List.take_of_length_le
        rw [List.length_cons]
        omega
      rw [List.foldl_cons, hroom, ih (by rw [List.length_cons]; omega), List.reverse_cons,
        List.append_assoc]
      rfl

/-- The console sends no filters. -/
theorem requestsPage_unfiltered (requests : List RequestRecord) (page size : Nat) :
    requestsPage requests page size =
      { items := (requests.drop ((page - 1) * size)).take size
        total := requests.length
        page, size } := by
  have hfilter : requests.filter ({} : RequestFilter).admits = requests :=
    List.filter_eq_self.mpr fun _ _ => rfl
  unfold requestsPage
  rw [hfilter]

theorem requestsPage_items (requests : List RequestRecord) (p size : Nat) :
    (requestsPage requests (p + 1) size).items = Pagination.page size p requests := by
  rw [requestsPage_unfiltered]
  rfl

/-- The deque when page `p` is asked for. -/
def served (requests : List RequestRecord) (arrivals : List (List RequestRecord)) (p : Nat) :
    List RequestRecord :=
  (arrivals.take p).flatten.reverse ++ requests

theorem fetchPages_eq (hfits : requests.length + arrivals.flatten.length ≤ capacity) (p n : Nat) :
    fetchPages size (List.range' (p + 1) n) requests arrivals =
      (List.range n).flatMap fun k =>
        Pagination.page size (p + k) (served requests arrivals (k + 1)) := by
  induction n generalizing p requests arrivals with
  | zero => rfl
  | succ n ih =>
      rw [List.range'_succ, List.range_succ_eq_map, List.flatMap_cons, List.flatMap_map]
      unfold fetchPages
      dsimp only
      cases arrivals with
      | nil =>
          have hnone : requests.length + (List.flatten []).length ≤ capacity := hfits
          have hrest := ih hnone (p + 1)
          rw [requestsPage_items]
          congr 1
          rw [List.tail_nil]
          refine hrest.trans (List.flatMap_congr fun k _ => ?_)
          simp [served, Nat.add_right_comm p 1 k, Nat.add_assoc]
      | cons batch rest =>
          rw [List.flatten_cons, List.length_append] at hfits
          rw [List.headD_cons, List.tail_cons, recordAll_eq (by omega), requestsPage_items]
          congr 1
          · simp [served]
          · have hmore : (batch.reverse ++ requests).length + rest.flatten.length ≤ capacity := by
              rw [List.length_append, List.length_reverse]
              omega
            have hrest := ih hmore (p + 1)
            refine hrest.trans (List.flatMap_congr fun k _ => ?_)
            simp [served, Nat.add_right_comm p 1 k, Nat.add_assoc]

theorem fetchRetainedRequests_eq
    (hfits : requests.length + arrivals.flatten.length ≤ capacity) :
    fetchRetainedRequests requests arrivals =
      (List.range (pageCount 100 requests.length)).flatMap fun p =>
        Pagination.page 100 p (served requests arrivals p) := by
  unfold fetchRetainedRequests
  dsimp only
  rw [requestsPage_unfiltered]
  cases hpages : pageCount 100 requests.length with
  | zero =>
      have hnil : requests = [] := by
        unfold pageCount at hpages
        apply List.eq_nil_of_length_eq_zero
        omega
      subst hnil
      rfl
  | succ n =>
      rw [List.range_succ_eq_map, List.flatMap_cons, List.flatMap_map, Nat.add_sub_cancel,
        fetchPages_eq hfits 1 n]
      congr 1
      refine List.flatMap_congr fun k _ => ?_
      rw [Nat.add_comm 1 k]

/-- How far the old records have moved when page `p` is asked for. -/
def shift (arrivals : List (List RequestRecord)) (p : Nat) : Nat :=
  (arrivals.take p).flatten.length

theorem shift_mono (arrivals : List (List RequestRecord)) : Monotone (shift arrivals) := by
  intro p q hpq
  unfold shift
  have hsublist : (arrivals.take p).Sublist (arrivals.take q) := by
    rw [← Nat.min_eq_left hpq, ← List.take_take]
    exact List.take_sublist _ _
  exact hsublist.flatten.length_le

theorem served_getElem? (requests : List RequestRecord) (arrivals : List (List RequestRecord))
    (p i : Nat) : (served requests arrivals p)[shift arrivals p + i]? = requests[i]? := by
  unfold served shift
  rw [List.getElem?_append_right (by rw [List.length_reverse]; omega), List.length_reverse,
    Nat.add_sub_cancel_left]

/-- A record that was retained at place `i` is fetched as often as it is on the page asked for. -/
theorem count_fetch (fetch : Fetch) {i : Nat} (hi : i < fetch.retained.length) :
    fetch.items.count fetch.retained[i] =
      ((List.range (pageCount 100 fetch.retained.length)).map fun p =>
        if Pagination.OnPage 100 (shift fetch.arrivals) i p then 1 else 0).sum := by
  unfold Fetch.items
  rw [fetchRetainedRequests_eq fetch.fits, List.count_flatMap]
  refine congrArg List.sum (List.map_congr_left fun p _ => ?_)
  have hnodup : (served fetch.retained fetch.arrivals p).Nodup := by
    have hdistinct := fetch.distinct.of_map
    unfold served
    have hsublist : ((fetch.arrivals.take p).flatten ++ fetch.retained).Sublist
        (fetch.arrivals.flatten ++ fetch.retained) :=
      (List.take_sublist p _).flatten.append_right _
    have hperm : ((fetch.arrivals.take p).flatten.reverse ++ fetch.retained).Perm
        ((fetch.arrivals.take p).flatten ++ fetch.retained) :=
      (List.reverse_perm _).append_right _
    exact hperm.nodup_iff.mpr (hdistinct.sublist hsublist)
  have hplace := served_getElem? fetch.retained fetch.arrivals p i
  rw [List.getElem?_eq_getElem hi] at hplace
  obtain ⟨hj, hget⟩ := List.getElem?_eq_some_iff.mp hplace
  rw [Function.comp_apply, ← hget]
  exact Pagination.count_page hnodup (by decide) hj p

theorem recordedMeanwhile_eq_nil_iff (fetch : Fetch) :
    fetch.recordedMeanwhile = [] ↔
      ∀ p < pageCount 100 fetch.retained.length, shift fetch.arrivals p = 0 := by
  rw [← List.length_eq_zero_iff]
  change shift fetch.arrivals (pageCount 100 fetch.retained.length - 1) = 0 ↔ _
  constructor
  · intro hlast p hp
    have hle := shift_mono fetch.arrivals (Nat.le_sub_one_of_lt hp)
    omega
  · intro h
    cases hpages : pageCount 100 fetch.retained.length with
    | zero => rfl
    | succ n => exact h n (hpages ▸ Nat.lt_succ_self n)

/-- **A fetch of the retained requests is exact if and only if nothing is recorded until its last
page is asked for.** -/
theorem fetch_exact_iff (fetch : Fetch) : fetch.Exact ↔ fetch.recordedMeanwhile = [] := by
  have hpages : fetch.retained.length ≤ pageCount 100 fetch.retained.length * 100 ∧
      pageCount 100 fetch.retained.length * 100 < fetch.retained.length + 100 := by
    unfold pageCount
    omega
  rw [recordedMeanwhile_eq_nil_iff, ← Pagination.once_iff_still (by decide)
    (shift_mono fetch.arrivals) rfl hpages.1 hpages.2]
  unfold Fetch.Exact
  rw [List.forall_mem_iff_getElem]
  refine forall₂_congr fun i hi => ?_
  rw [count_fetch fetch hi, Pagination.sum_pages_eq_one_iff]
  rfl

/-- The request that is recorded as number `serial`. -/
def numbered (serial : Nat) : RequestRecord where
  serial := serial
  requestId := serial
  timestamp := serial
  documentsCount := 1
  model := "m".toList
  latencyMs := 8
  cacheHits := 0
  status := successStatus

/-- Two pages of records, and one request that is recorded between them. -/
def busyFetch : Fetch where
  retained := (List.range 101).map numbered
  arrivals := [[numbered 101]]
  distinct := by decide +kernel
  fits := by decide +kernel

/-- The last record of the first page comes again as the first one of the second. -/
theorem not_exact_busyFetch : ¬busyFetch.Exact := by
  intro h
  have hmem : numbered 99 ∈ busyFetch.retained :=
    List.mem_map.mpr ⟨99, List.mem_range.mpr (by decide), rfl⟩
  have htwice : busyFetch.items.count (numbered 99) = 2 := by decide +kernel
  have honce := h (numbered 99) hmem
  omega

end RerankerService.Console
