import Mathlib.Algebra.Order.BigOperators.Group.List
import Mathlib.Data.Finset.Max
import Mathlib.Tactic.Linarith
import RerankerService.Foundation.Outcome
import RerankerService.Service.Requests

/-!
# The time series partitions the counted requests

The buckets of the loop are the groups of the counted requests by the multiple of the width at or
below their timestamp; each point summarizes one of these groups.
-/

namespace RerankerService.AdminState

open List (Forall₂)

variable {requests records : List RequestRecord} {cutoff : Rat} {bucketSeconds : Int}
  {point : TimePoint}

/-- The timestamp of the bucket that a request belongs to. -/
def bucketStart (bucketSeconds : Int) (request : RequestRecord) : Int :=
  ⌊request.timestamp / bucketSeconds⌋ * bucketSeconds

/-- The requests that are recent enough. -/
def counted (requests : List RequestRecord) (now : Rat) (periodSeconds : Int) :
    List RequestRecord :=
  requests.filter fun request => now - periodSeconds ≤ request.timestamp

/-- The request falls into the interval of the point. -/
def TimePoint.Covers (point : TimePoint) (bucketSeconds : Int) (request : RequestRecord) : Prop :=
  (point.timestamp : Rat) ≤ request.timestamp ∧
    request.timestamp < point.timestamp + bucketSeconds

instance (point : TimePoint) (bucketSeconds : Int) :
    DecidablePred (point.Covers bucketSeconds) :=
  fun _ => inferInstanceAs (Decidable (_ ∧ _))

/-- The figures of the point are those of the requests. -/
structure TimePoint.Summarizes (point : TimePoint) (records : List RequestRecord) : Prop where
  requests : point.requests = records.length
  documents : point.documents = (records.map RequestRecord.documentsCount).sum
  cacheHits : point.cacheHits = (records.map RequestRecord.cacheHits).sum
  errors : point.errors = records.countP fun item => item.status ≠ successStatus
  p95 : point.latencyP95Ms ∈ records.map RequestRecord.latencyMs
  mean : ∃ least ∈ records.map RequestRecord.latencyMs,
    ∃ largest ∈ records.map RequestRecord.latencyMs,
      (∀ latency ∈ records.map RequestRecord.latencyMs, least ≤ latency ∧ latency ≤ largest) ∧
      least ≤ point.latencyMeanMs ∧ point.latencyMeanMs ≤ largest

/-! ### Buckets -/

theorem covers_iff (hwidth : 0 < bucketSeconds) {start : Int} {request : RequestRecord}
    (hstart : bucketSeconds ∣ start) :
    ((start : Rat) ≤ request.timestamp ∧ request.timestamp < start + bucketSeconds) ↔
      bucketStart bucketSeconds request = start := by
  obtain ⟨k, rfl⟩ := hstart
  have hpos : (0 : Rat) < bucketSeconds := by exact_mod_cast hwidth
  have hfloor : ⌊request.timestamp / bucketSeconds⌋ = k ↔
      bucketStart bucketSeconds request = bucketSeconds * k := by
    unfold bucketStart
    rw [mul_comm bucketSeconds k]
    exact (mul_left_inj' hwidth.ne').symm
  rw [← hfloor, Int.floor_eq_iff, le_div_iff₀ hpos, div_lt_iff₀ hpos]
  push_cast
  constructor
  · rintro ⟨hlow, hhigh⟩
    constructor <;> linarith
  · rintro ⟨hlow, hhigh⟩
    constructor <;> linarith

/-- The loop puts the counted requests into groups. -/
theorem foldlM_collectRequest (hwidth : 0 < bucketSeconds) (requests : List RequestRecord)
    (buckets : List (Int × List RequestRecord)) :
    requests.foldlM (collectRequest cutoff bucketSeconds) buckets =
      .ok ((requests.filter fun request => cutoff ≤ request.timestamp).foldl
        (fun groups request => Grouping.add (bucketStart bucketSeconds request) request groups)
        buckets) := by
  induction requests generalizing buckets with
  | nil => rfl
  | cons request rest ih =>
      rw [List.foldlM_cons]
      unfold collectRequest
      by_cases hrecent : cutoff ≤ request.timestamp
      · rw [if_pos hrecent, floorDivide_eq hwidth, List.filter_cons_of_pos (by simpa using hrecent)]
        exact ih _
      · rw [if_neg hrecent, List.filter_cons_of_neg (by simpa using hrecent)]
        exact ih _

/-! ### One point -/

theorem p95Index_range {count : Nat} (hcount : 0 < count) :
    0 ≤ p95Index count ∧ p95Index count < count := by
  have hone : (1 : Rat) ≤ count := by exact_mod_cast hcount
  have hround : 0 ≤ roundHalfEven ((count - 1) * (95 / 100)) := by
    apply roundHalfEven_nonneg
    exact mul_nonneg (by linarith) (by norm_num)
  unfold p95Index
  omega

theorem exists_extremes {latencies : List Rat} (hne : latencies ≠ []) :
    ∃ least ∈ latencies, ∃ largest ∈ latencies,
      ∀ latency ∈ latencies, least ≤ latency ∧ latency ≤ largest := by
  obtain ⟨least, hleast, hlow⟩ := latencies.toFinset.exists_min_image id (by simpa using hne)
  obtain ⟨largest, hlargest, hhigh⟩ := latencies.toFinset.exists_max_image id (by simpa using hne)
  simp only [List.mem_toFinset, id] at hleast hlow hlargest hhigh
  exact ⟨least, hleast, largest, hlargest, fun x hx => ⟨hlow x hx, hhigh x hx⟩⟩

theorem mean_range {latencies : List Rat} {least largest : Rat} (hpos : 0 < latencies.length)
    (h : ∀ latency ∈ latencies, least ≤ latency ∧ latency ≤ largest) :
    least ≤ latencies.sum / latencies.length ∧ latencies.sum / latencies.length ≤ largest := by
  have hlength : (0 : Rat) < latencies.length := by exact_mod_cast hpos
  have hlow := latencies.card_nsmul_le_sum least fun x hx => (h x hx).1
  have hhigh := latencies.sum_le_card_nsmul largest fun x hx => (h x hx).2
  rw [nsmul_eq_mul] at hlow hhigh
  rw [le_div_iff₀ hlength, div_le_iff₀ hlength]
  constructor <;> linarith

/-- A point that is made from requests summarizes them. -/
theorem timePoint_summarizes (timestamp : Int) (hne : records ≠ []) :
    ∃ point, timePoint timestamp records = .ok point ∧
      point.timestamp = timestamp ∧ point.Summarizes records := by
  have hperm := (records.map RequestRecord.latencyMs).perm_insertionSort (· ≤ ·)
  have hlength := hperm.length_eq
  have hpos : 0 < (records.map RequestRecord.latencyMs).length :=
    List.length_pos_iff.mpr (by simpa using hne)
  generalize hlatencies :
    (records.map RequestRecord.latencyMs).insertionSort (· ≤ ·) = latencies at *
  rw [← hlength] at hpos
  obtain ⟨hlow, hhigh⟩ := p95Index_range hpos
  obtain ⟨p95, hmem, hp95⟩ := getIndex_mem hlow hhigh
  have hdivide : floatDivide latencies.sum (latencies.length : Rat) =
      .ok (latencies.sum / latencies.length) := floatDivide_eq (by exact_mod_cast hpos)
  have hpoint : timePoint timestamp records = .ok
      { timestamp
        requests := records.length
        documents := (records.map RequestRecord.documentsCount).sum
        cacheHits := (records.map RequestRecord.cacheHits).sum
        latencyMeanMs := latencies.sum / latencies.length
        latencyP95Ms := p95
        errors := records.countP fun item => item.status ≠ successStatus } := by
    unfold timePoint
    rw [hlatencies]
    dsimp only
    rw [hdivide, hp95]
    rfl
  refine ⟨_, hpoint, ?_⟩
  refine ⟨rfl, ⟨rfl, rfl, rfl, rfl, hperm.mem_iff.mp hmem, ?_⟩⟩
  obtain ⟨least, hleast, largest, hlargest, hbetween⟩ :=
    exists_extremes (List.length_pos_iff.mp hpos)
  refine ⟨least, hperm.mem_iff.mp hleast, largest, hperm.mem_iff.mp hlargest, fun x hx => ?_,
    mean_range hpos hbetween⟩
  exact hbetween x (hperm.mem_iff.mpr hx)

/-! ### The series -/

theorem countP_eq_sum {α : Type} (p : α → Bool) (l : List α) :
    l.countP p = (l.map fun a => if p a then 1 else 0).sum := by
  induction l with
  | nil => rfl
  | cons a rest ih => rw [List.countP_cons, List.map_cons, List.sum_cons, ih, add_comm]

/-- A bucket and its point. -/
def Renders (bucket : Int × List RequestRecord) (point : TimePoint) : Prop :=
  point.timestamp = bucket.1 ∧ point.Summarizes bucket.2

/-- The points are those of the groups, in the order of their timestamps. -/
theorem timeseries_renders (hwidth : 0 < bucketSeconds) (requests : List RequestRecord) (now : Rat)
    (periodSeconds : Int) :
    ∃ buckets points, timeseries requests now periodSeconds bucketSeconds = .ok points ∧
      buckets.Perm (Grouping.group (bucketStart bucketSeconds)
        (counted requests now periodSeconds)) ∧
      (buckets.map Prod.fst).Pairwise (· < ·) ∧ Forall₂ Renders buckets points := by
  have hgroups := Grouping.groups_group (bucketStart bucketSeconds)
    (counted requests now periodSeconds)
  generalize hgroup : Grouping.group (bucketStart bucketSeconds)
    (counted requests now periodSeconds) = groups at hgroups ⊢
  have hperm := groups.perm_insertionSort fun a b => a.1 ≤ b.1
  have hsorted := hgroups.perm hperm
  obtain ⟨points, hpoints, hrenders⟩ := Outcome.mapM_of_forall (R := Renders)
    (l := groups.insertionSort fun a b => a.1 ≤ b.1)
    (f := fun bucket => timePoint bucket.1 bucket.2)
    fun bucket hbucket => timePoint_summarizes bucket.1 (hsorted.members_ne_nil hbucket)
  refine ⟨_, points, ?_, hperm, ?_, hrenders⟩
  · unfold timeseries
    rw [foldlM_collectRequest hwidth]
    change (List.insertionSort _ (Grouping.group (bucketStart bucketSeconds)
      (counted requests now periodSeconds))).mapM _ = _
    rw [hgroup, hpoints]
  · have hle : ((groups.insertionSort fun a b => a.1 ≤ b.1).map Prod.fst).Pairwise (· ≤ ·) :=
      List.pairwise_map.mpr (List.pairwise_insertionSort _ _)
    exact (hle.and hsorted.nodup).imp fun hpair => lt_of_le_of_ne hpair.1 hpair.2

/-- Every request is in the interval of one point, and the points have the figures of the requests
in their intervals. -/
structure Partitions (bucketSeconds : Int) (records : List RequestRecord)
    (points : List TimePoint) : Prop where
  increasing : (points.map TimePoint.timestamp).Pairwise (· < ·)
  aligned : ∀ point ∈ points, bucketSeconds ∣ point.timestamp
  nonempty : ∀ point ∈ points, 0 < point.requests
  once : ∀ request ∈ records, ∃! point, point ∈ points ∧ point.Covers bucketSeconds request
  summarizes : ∀ point ∈ points, point.Summarizes (records.filter (point.Covers bucketSeconds))
  requests : (points.map TimePoint.requests).sum = records.length
  documents :
    (points.map TimePoint.documents).sum = (records.map RequestRecord.documentsCount).sum
  cacheHits : (points.map TimePoint.cacheHits).sum = (records.map RequestRecord.cacheHits).sum
  errors :
    (points.map TimePoint.errors).sum = records.countP fun item => item.status ≠ successStatus

section Points

variable {buckets : List (Int × List RequestRecord)} {points : List TimePoint}

theorem aligned_of_group
    (hgroups : Grouping.Groups (bucketStart bucketSeconds) records buckets)
    (hrenders : Forall₂ Renders buckets points) (hmem : point ∈ points) :
    bucketSeconds ∣ point.timestamp := by
  obtain ⟨bucket, hbucket, hstart, -⟩ := Outcome.forall₂_mem_right hrenders hmem
  obtain ⟨request, -, hkey⟩ := (hgroups.mem_keys bucket.1).mp (List.mem_map_of_mem hbucket)
  rw [hstart, ← hkey]
  exact Dvd.intro_left _ rfl

theorem summarizes_of_group (hwidth : 0 < bucketSeconds)
    (hgroups : Grouping.Groups (bucketStart bucketSeconds) records buckets)
    (hrenders : Forall₂ Renders buckets points) (hmem : point ∈ points) :
    point.Summarizes (records.filter (point.Covers bucketSeconds)) := by
  have haligned := aligned_of_group hgroups hrenders hmem
  obtain ⟨bucket, hbucket, hstart, hsummarizes⟩ := Outcome.forall₂_mem_right hrenders hmem
  have hmembers := hgroups.members bucket.1 bucket.2 hbucket
  have hfilter : records.filter (point.Covers bucketSeconds) =
      records.filter fun request => bucketStart bucketSeconds request = bucket.1 := by
    refine List.filter_congr fun request _ => decide_eq_decide.mpr ?_
    rw [← hstart]
    exact covers_iff hwidth haligned
  rw [hfilter, ← hmembers]
  exact hsummarizes

/-- Adding up a figure of the points is adding it up over the groups. -/
theorem sum_points {M : Type} [AddCommMonoid M] {g : TimePoint → M} (f : RequestRecord → M)
    (hperm : buckets.Perm (Grouping.group (bucketStart bucketSeconds) records))
    (hrenders : Forall₂ Renders buckets points)
    (hfigure : ∀ point members, point.Summarizes members → g point = (members.map f).sum) :
    (points.map g).sum = (records.map f).sum := by
  have hmap : points.map g = buckets.map fun bucket => (bucket.2.map f).sum :=
    Outcome.forall₂_map_eq hrenders fun bucket point h => hfigure point bucket.2 h.2
  calc (points.map g).sum
      = Grouping.total f buckets := congrArg List.sum hmap
    _ = Grouping.total f (Grouping.group (bucketStart bucketSeconds) records) :=
        Grouping.total_perm f hperm
    _ = (records.map f).sum := Grouping.total_group f _ records

end Points

/-- **The time series partitions the counted requests.** -/
theorem timeseries_partitions (requests : List RequestRecord) (now : Rat)
    (periodSeconds bucketSeconds : Int) (hwidth : 0 < bucketSeconds) :
    ∃ points, timeseries requests now periodSeconds bucketSeconds = .ok points ∧
      Partitions bucketSeconds (counted requests now periodSeconds) points := by
  obtain ⟨buckets, points, hpoints, hperm, hincreasing, hrenders⟩ :=
    timeseries_renders hwidth requests now periodSeconds
  have hgroups := (Grouping.groups_group (bucketStart bucketSeconds)
    (counted requests now periodSeconds)).perm hperm
  have htimestamps : points.map TimePoint.timestamp = buckets.map Prod.fst :=
    Outcome.forall₂_map_eq hrenders fun _ _ h => h.1
  have hsummarizes := fun point (hmem : point ∈ points) =>
    summarizes_of_group hwidth hgroups hrenders hmem
  have haligned := fun point (hmem : point ∈ points) => aligned_of_group hgroups hrenders hmem
  refine ⟨points, hpoints,
    ⟨htimestamps ▸ hincreasing, haligned, ?_, ?_, hsummarizes, ?_, ?_, ?_, ?_⟩⟩
  · intro point hmem
    obtain ⟨bucket, hbucket, -, hrendered⟩ := Outcome.forall₂_mem_right hrenders hmem
    rw [hrendered.requests]
    exact List.length_pos_iff.mpr (hgroups.members_ne_nil hbucket)
  · intro request hrequest
    have hkey := (hgroups.mem_keys (bucketStart bucketSeconds request)).mpr ⟨request, hrequest, rfl⟩
    rw [← htimestamps] at hkey
    obtain ⟨point, hmem, hstart⟩ := List.mem_map.mp hkey
    refine ⟨point, ⟨hmem, (covers_iff hwidth (haligned point hmem)).mpr hstart.symm⟩, ?_⟩
    rintro other ⟨hother, hcovers⟩
    have hstart' := (covers_iff hwidth (haligned other hother)).mp hcovers
    have hnodup : (points.map TimePoint.timestamp).Nodup := htimestamps ▸ hgroups.nodup
    exact List.inj_on_of_nodup_map hnodup hother hmem (hstart'.symm.trans hstart.symm)
  · rw [sum_points (g := TimePoint.requests) (fun _ => 1) hperm hrenders fun point members h =>
      h.requests.trans (by simp)]
    simp
  · exact sum_points _ hperm hrenders fun point members h => h.documents
  · exact sum_points _ hperm hrenders fun point members h => h.cacheHits
  · rw [countP_eq_sum]
    refine sum_points _ hperm hrenders fun point members h => ?_
    rw [h.errors, countP_eq_sum]

/-- Three requests at 65, 125 and 61 seconds in buckets of a minute. -/
theorem timeseries_partitions_minute :
    ∃ points, timeseries
        ([65, 125, 61].map fun t => RequestRecord.mk 0 0 t 1 [] 8 0 successStatus) 130 3600 60 =
          .ok points ∧
      Partitions 60
        (counted ([65, 125, 61].map fun t => RequestRecord.mk 0 0 t 1 [] 8 0 successStatus) 130 3600)
        points :=
  timeseries_partitions _ 130 3600 60 (by decide)

end RerankerService.AdminState
