import RerankerService.Foundation.Outcome
import RerankerService.Proof.Addressing
import RerankerService.Runtime.Candidate

/-!
# When a candidate gets its report

The report is assembled for refused names and unresolved revisions, too, and the ONNX backend looks
for an artifact whenever what it is given has the length of a commit. `artifactDirectory` raises
where this is no commit or where the name cannot be a directory.
-/

namespace RerankerService

open Files ModelRuntime

variable {s : ModelRuntime} {host : Surroundings} {name revision : Text}

/-! ### Revisions and names -/

theorem length_lower (revision : Text) : (lower revision).length = revision.length :=
  List.length_map _

theorem length_of_isFullRevision (h : isFullRevision revision = true) : revision.length = 40 := by
  unfold isFullRevision at h
  rw [Bool.and_eq_true, beq_iff_eq] at h
  exact h.1

theorem toLower_of_hex {c : Char} (h : (c.isDigit || ('a' ≤ c && c ≤ 'f')) = true) :
    c.toLower = c := by
  unfold Char.toLower
  refine dif_neg fun hupper => ?_
  simp only [Char.isDigit, Bool.or_eq_true, Bool.and_eq_true, decide_eq_true_eq] at h
  rcases h with hdigit | hletter
  · exact absurd (UInt32.le_trans hupper.1 hdigit.2) (by decide)
  · exact absurd (UInt32.le_trans hletter.1 hupper.2) (by decide)

theorem lower_of_isFullRevision (h : isFullRevision revision = true) :
    lower revision = revision := by
  unfold isFullRevision at h
  rw [Bool.and_eq_true, List.all_eq_true] at h
  have hmap : revision.map Char.toLower = revision.map id :=
    List.map_congr_left fun c hc => toLower_of_hex (h.2 c hc)
  rwa [List.map_id] at hmap

theorem toLower_toLower (c : Char) : c.toLower.toLower = c.toLower := by
  by_cases hupper : 'A'.val ≤ c.val ∧ c.val ≤ 'Z'.val
  · have hval : c.toLower.val = c.val + 32 := by
      unfold Char.toLower
      rw [dif_pos hupper]
      rfl
    refine dif_neg fun h => ?_
    have hlow : 65 ≤ c.val.toNat := UInt32.le_iff_toNat_le.mp hupper.1
    have hhigh : c.val.toNat ≤ 90 := UInt32.le_iff_toNat_le.mp hupper.2
    have hagain : c.toLower.val.toNat ≤ 90 := UInt32.le_iff_toNat_le.mp h.2
    rw [hval, UInt32.toNat_add, show (32 : UInt32).toNat = 32 from rfl] at hagain
    omega
  · have hsame : c.toLower = c := dif_neg hupper
    rw [hsame, hsame]

theorem lower_lower (text : Text) : lower (lower text) = lower text := by
  rw [lower, lower, List.map_map]
  exact List.map_congr_left fun c _ => toLower_toLower c

/-- A name that the artifact store has a directory for. -/
structure CanonicalName (name : Text) : Prop where
  stripped : strip name = name
  ne_dot : name ≠ ['.']
  ne_parent : name ≠ ['.', '.']

theorem safeModelDirectoryName_iff (hname : name ≠ []) :
    (∃ directory, safeModelDirectoryName name = .ok directory) ↔ CanonicalName name := by
  have hnil : quote name = [] ↔ name = [] := quote_injective.eq_iff (b := [])
  have hdot : quote name = ['.'] ↔ name = ['.'] := quote_injective.eq_iff (b := ['.'])
  have hparent : quote name = ['.', '.'] ↔ name = ['.', '.'] :=
    quote_injective.eq_iff (b := ['.', '.'])
  unfold safeModelDirectoryName
  simp only [hnil, hdot, hparent]
  constructor
  · rintro ⟨directory, h⟩
    split at h
    · cases h
    split at h
    · cases h
    · rename_i hstrip hquote
      rw [not_or, not_not] at hstrip
      rw [not_or, not_or] at hquote
      exact ⟨hstrip.2, hquote.2.1, hquote.2.2⟩
  · intro h
    rw [if_neg (by simp [hname, h.stripped]), if_neg (by simp [hname, h.ne_dot, h.ne_parent])]
    exact ⟨_, rfl⟩

theorem artifactDirectory_iff (root : Path Text) (precision : Precision) (hname : name ≠ []) :
    (∃ directory, artifactDirectory root name revision .onnxPairwise precision = .ok directory) ↔
      isFullRevision revision = true ∧ CanonicalName name := by
  rw [← safeModelDirectoryName_iff hname]
  unfold artifactDirectory
  cases isFullRevision revision with
  | false => simp
  | true => cases safeModelDirectoryName name <;> simp [Except.map]

/-! ### The string that the backend is asked for -/

namespace ModelRuntime

/-- The Hub is asked for the revision and answers with a commit. -/
def HubResolves (s : ModelRuntime) (host : Surroundings) (name : Text) : Prop :=
  name ∈ s.settings.allowedModels ∧ s.settings.mockModel = false ∧
    ∃ sha, host.hub = .ok sha ∧ isFullRevision (lower sha) = true

def requestedArtifact (s : ModelRuntime) (host : Surroundings) (name revision : Text) : Text :=
  (s.resolvedRevision host name revision).getD revision

theorem requestedArtifact_of_not_allowed (hallowed : name ∉ s.settings.allowedModels) :
    s.requestedArtifact host name revision = revision := by
  simp [requestedArtifact, resolvedRevision, resolution, hallowed]

theorem requestedArtifact_of_allowed (hvalid : validRevisionReference revision = true)
    (hallowed : name ∈ s.settings.allowedModels) :
    s.requestedArtifact host name revision =
      (s.resolveRevision host revision).toOption.getD revision := by
  simp [requestedArtifact, resolvedRevision, resolution, hvalid, hallowed]

/-- Unless the Hub resolves it, the backend is asked for the revision of the request. -/
theorem lower_requestedArtifact (hvalid : validRevisionReference revision = true)
    (h : isFullRevision (lower revision) = true ∨ ¬s.HubResolves host name) :
    lower (s.requestedArtifact host name revision) = lower revision := by
  by_cases hallowed : name ∈ s.settings.allowedModels
  · rw [requestedArtifact_of_allowed hvalid hallowed]
    cases hmock : s.settings.mockModel with
    | true =>
        rw [resolveRevision, if_pos hmock]
        exact lower_lower revision
    | false =>
        rw [resolveRevision, if_neg (by rw [hmock]; decide)]
        unfold resolveImmutableRevision
        split
        · exact lower_lower revision
        · rename_i hfull
          split
          · rfl
          · rename_i sha hhub
            split
            · rename_i hsha
              exact (h.resolve_left hfull ⟨hallowed, hmock, sha, hhub, hsha⟩).elim
            · rfl
  · rw [requestedArtifact_of_not_allowed hallowed]

theorem isFullRevision_requestedArtifact (hvalid : validRevisionReference revision = true)
    (hfull : isFullRevision (lower revision) = false) (h : s.HubResolves host name) :
    isFullRevision (s.requestedArtifact host name revision) = true := by
  obtain ⟨hallowed, hmock, sha, hhub, hsha⟩ := h
  rw [requestedArtifact_of_allowed hvalid hallowed, resolveRevision, if_neg (by rw [hmock]; decide)]
  unfold resolveImmutableRevision
  rw [if_neg (by rw [hfull]; decide), hhub]
  dsimp only
  rw [if_pos hsha]
  exact hsha

/-- What the ONNX backend needs of a request, to look for its artifact or not to look at all. -/
structure Answerable (s : ModelRuntime) (host : Surroundings) (name revision : Text) : Prop where
  canonical : isFullRevision (lower revision) = true ∨ s.HubResolves host name → CanonicalName name
  otherLength : isFullRevision (lower revision) = false → ¬s.HubResolves host name →
    revision.length ≠ 40

theorem onnxRequirements_iff {precision : Precision} (hname : name ≠ []) :
    (∃ requirements, onnxRequirements precision host name revision = .ok requirements) ↔
      revision.length ≠ 40 ∨ isFullRevision (lower revision) = true ∧ CanonicalName name := by
  rw [← artifactDirectory_iff host.artifactRoot precision hname]
  unfold onnxRequirements
  by_cases hlength : revision.length = 40
  · rw [if_neg (not_not.mpr hlength), or_iff_right (not_not.mpr hlength)]
    cases artifactDirectory host.artifactRoot name (lower revision) .onnxPairwise precision with
    | error error => exact iff_of_false nofun nofun
    | ok directory =>
        refine iff_of_true ?_ ⟨directory, rfl⟩
        dsimp only [bind, Except.bind]
        split
        · exact ⟨_, rfl⟩
        · exact ⟨_, rfl⟩
  · rw [if_pos hlength]
    exact iff_of_true ⟨_, rfl⟩ (.inl hlength)

theorem onnxRequirements_answerable_iff (precision : Precision) (hname : name ≠ [])
    (hvalid : validRevisionReference revision = true) :
    (∃ requirements, onnxRequirements precision host name (s.requestedArtifact host name revision) =
        .ok requirements) ↔ s.Answerable host name revision := by
  rw [onnxRequirements_iff hname]
  by_cases hfull : isFullRevision (lower revision) = true
  · have hlower : lower (s.requestedArtifact host name revision) = lower revision :=
      lower_requestedArtifact hvalid (.inl hfull)
    have hlength : (s.requestedArtifact host name revision).length = 40 := by
      rw [← length_lower, hlower]
      exact length_of_isFullRevision hfull
    rw [hlower, or_iff_right (not_not.mpr hlength), and_iff_right hfull]
    exact ⟨fun h => ⟨fun _ => h, fun hnot => absurd (hfull.symm.trans hnot) (by decide)⟩,
      fun h => h.canonical (.inl hfull)⟩
  · have hnot : isFullRevision (lower revision) = false := Bool.eq_false_iff.mpr hfull
    by_cases hhub : s.HubResolves host name
    · have hsha := isFullRevision_requestedArtifact hvalid hnot hhub
      rw [lower_of_isFullRevision hsha, or_iff_right (not_not.mpr (length_of_isFullRevision hsha)),
        and_iff_right hsha]
      exact ⟨fun h => ⟨fun _ => h, fun _ hunresolved => absurd hhub hunresolved⟩,
        fun h => h.canonical (.inr hhub)⟩
    · have hlower := lower_requestedArtifact (s := s) hvalid (.inr hhub)
      have hlength : (s.requestedArtifact host name revision).length = revision.length := by
        rw [← length_lower, hlower, length_lower]
      rw [hlower, hlength, or_iff_left fun h => hfull h.1]
      exact ⟨fun h => ⟨fun hresolves => (hresolves.elim hfull hhub).elim, fun _ _ => h⟩,
        fun h => h.otherLength hnot hhub⟩

theorem requirements_iff (hname : name ≠ []) (hvalid : validRevisionReference revision = true) :
    (∃ requirements, s.requirements host name revision = .ok requirements) ↔
      (s.settings.backend = .onnxPairwise → s.Answerable host name revision) := by
  unfold ModelRuntime.requirements Settings.candidateRequirements
  cases hbackend : s.settings.backend with
  | onnxPairwise =>
      rw [← onnxRequirements_answerable_iff s.settings.precision hname hvalid]
      exact ⟨fun h _ => h, fun h => h rfl⟩
  | legacyCrossEncoder | jinaListwise | alibabaGte => exact iff_of_true ⟨_, rfl⟩ nofun

/-! ### The report -/

theorem candidateReport_eq_ok {report : CandidateReport} :
    s.candidateReport host name revision = .ok report →
      ∃ requirements, s.requirements host name revision = .ok requirements ∧
        report.backendRequirements = requirements ∧
        report.resolvedRevision = s.resolvedRevision host name revision ∧
        report.allowed = decide (name ∈ s.settings.allowedModels) ∧
        report.revisionValid = validRevisionReference revision := by
  intro h
  obtain ⟨requirements, hrequirements, h⟩ := Outcome.bind_eq_ok.mp h
  cases h
  exact ⟨requirements, hrequirements, rfl, rfl, rfl, rfl⟩

theorem valid_iff {report : CandidateReport}
    (h : s.candidateReport host name revision = .ok report) :
    report.valid = true ↔ name ∈ s.settings.allowedModels ∧
      validRevisionReference revision = true ∧
      ∃ sha, s.resolveRevision host revision = .ok sha := by
  obtain ⟨-, -, -, hresolved, hallowed, hvalid⟩ := candidateReport_eq_ok h
  rw [CandidateReport.valid, hresolved, hallowed, hvalid, resolvedRevision, resolution]
  by_cases hname : name ∈ s.settings.allowedModels
  · by_cases hrevision : validRevisionReference revision = true
    · cases s.resolveRevision host revision <;> simp [hname, hrevision, Except.toOption]
    · simp [hrevision]
  · simp [hname]

/-- **A candidate gets its report**, with the right verdict, exactly if the backend has no ONNX
artifacts or finds the request answerable. -/
theorem candidateReport_iff (s : ModelRuntime) (host : Surroundings)
    (request : ModelCandidateRequest) :
    (∃ report, s.candidateReport host request.name request.revision = .ok report ∧
      (report.valid = true ↔ request.name ∈ s.settings.allowedModels ∧
        validRevisionReference request.revision = true ∧
        ∃ sha, s.resolveRevision host request.revision = .ok sha)) ↔
      (s.settings.backend = .onnxPairwise →
        s.Answerable host request.name request.revision) := by
  have hname : request.name ≠ [] := List.length_pos_iff.mp request.nameLength.1
  rw [← requirements_iff hname request.safeRevision]
  constructor
  · rintro ⟨report, hreport, -⟩
    obtain ⟨requirements, hrequirements, -⟩ := candidateReport_eq_ok hreport
    exact ⟨requirements, hrequirements⟩
  · rintro ⟨requirements, hrequirements⟩
    have hreport : ∃ report,
        s.candidateReport host request.name request.revision = .ok report := by
      unfold candidateReport
      rw [hrequirements]
      exact ⟨_, rfl⟩
    obtain ⟨report, hreport⟩ := hreport
    exact ⟨report, hreport, valid_iff hreport⟩

/-- Forty letters that are no hexadecimal number. -/
def branchRequest : ModelCandidateRequest where
  name := ['m']
  revision := List.replicate 40 'g'
  nameLength := by decide
  revisionLength := by decide
  safeRevision := by decide

def idleHost : Surroundings where
  hub := .error (.exception "RepositoryNotFoundError" "")
  availableBytes := 4000000000
  artifactRoot := [.name "artifacts".toList]
  artifactBytes _ := none
  gpuMemoryFreeBytes := none
  cudaFreeBytes := none

theorem candidateReport_raises :
    (new {} "cpu".toList).candidateReport idleHost branchRequest.name branchRequest.revision =
      .error (.valueError "resolved_revision must be a lowercase 40-character commit SHA") := rfl

/-! ### What the lifecycle takes from it -/

/-- The probe of `load_candidate` in these surroundings. -/
def probe (s : ModelRuntime) (host : Surroundings) (name revision : Text) : Probe :=
  match s.requirements host name revision with
  | .ok requirements =>
      { hub := host.hub
        availableBytes := host.availableBytes
        artifactAvailable := requirements.artifactAvailable
        gpuParallelLoadSupported := requirements.gpuParallelLoadSupported }
  | .error error =>
      { hub := host.hub
        availableBytes := host.availableBytes
        artifactAvailable := false
        gpuParallelLoadSupported := false
        refusal := some error }

end ModelRuntime

def CandidateReport.check (report : CandidateReport) : CandidateCheck where
  name := report.name
  revision := report.requestedRevision
  resolvedRevision := report.resolvedRevision
  allowed := report.allowed
  revisionValid := report.revisionValid
  canParallelLoad := report.canParallelLoad

namespace ModelRuntime

/-- The lifecycle works with the report, as far as it reads it. -/
theorem checkCandidate_of_report {report : CandidateReport}
    (h : s.candidateReport host name revision = .ok report) :
    (s.probe host name revision).refusal = none ∧
      s.checkCandidate (s.probe host name revision) name revision = report.check := by
  obtain ⟨requirements, hrequirements, h⟩ := Outcome.bind_eq_ok.mp h
  cases h
  have hprobe : s.probe host name revision =
      { hub := host.hub
        availableBytes := host.availableBytes
        artifactAvailable := requirements.artifactAvailable
        gpuParallelLoadSupported := requirements.gpuParallelLoadSupported } := by
    rw [probe, hrequirements]
  have hresolved : s.resolvedRevision host name revision =
      if validRevisionReference revision && decide (name ∈ s.settings.allowedModels) then
        (s.resolveRevision host revision).toOption else none := by
    rw [resolvedRevision, resolution]
    split <;> rfl
  rw [hprobe]
  refine ⟨rfl, ?_⟩
  rw [CandidateReport.check, hresolved]
  rfl

/-- Where the report raises, so does `load_candidate`, and says so. -/
theorem candidateBegin_of_raised {error : Error}
    (h : s.candidateReport host name revision = .error error) :
    s.candidateBegin (s.probe host name revision) name revision =
      (s.setOperation .candidateLoad .running s.clock none).setOperation .candidateLoad .error
        s.clock (some error) := by
  have hrequirements : s.requirements host name revision = .error error := by
    unfold candidateReport at h
    cases hr : s.requirements host name revision with
    | error other =>
        rw [hr] at h
        cases h
        rfl
    | ok requirements =>
        rw [hr] at h
        cases h
  have hrefusal : (s.probe host name revision).refusal = some error := by
    rw [probe, hrequirements]
  unfold candidateBegin
  dsimp only
  rw [hrefusal]
  rfl

end ModelRuntime

end RerankerService
