import RerankerService.Proof.Attempt

/-!
# All or nothing

A call publishes a verified artifact or nothing, unless the exporter leaves links that lead out of
its tree, or to a file that the manifest overwrites, or what it leaves cannot be removed, or the
artifact root goes back up behind a link.
-/

namespace RerankerService

open Files Outcome

namespace Exporter

variable {β : Type} {format : ArtifactFormat β} {refusals : Refusals Text}
  {fs fs' created exported : FileSystem Text β} {request : ExportRequest}
  {resolver : RevisionResolver} {exporter : ArtifactExporter β} {now : Timestamp}
  {suffix revision : Text} {target : Path Text} {source goal : Location Text}
  {result : Except Error LoadedArtifact}

/-- Where `prepare_artifact` publishes, when the answer of the resolver leads anywhere. -/
structure IsTarget (request : ExportRequest) (resolver : RevisionResolver) (revision : Text)
    (target : Path Text) : Prop where
  resolved : resolver request = .ok revision
  directory : artifactDirectory request.artifactRoot request.modelId (lower revision) .onnxPairwise
    request.precision = .ok target

theorem isTarget_full (h : IsTarget request resolver revision target) :
    isFullRevision (lower revision) = true := by
  by_contra hfull
  have htarget := h.directory
  rw [artifactDirectory, if_pos (by simpa using hfull)] at htarget
  cases htarget

theorem IsTarget.unique {revision' : Text} {target' : Path Text}
    (h : IsTarget request resolver revision target)
    (h' : IsTarget request resolver revision' target') :
    revision' = revision ∧ target' = target := by
  obtain rfl := Except.ok.inj (h.resolved.symm.trans h'.resolved)
  exact ⟨rfl, Except.ok.inj (h'.directory.symm.trans h.directory)⟩

theorem prepareArtifact_eq (h : IsTarget request resolver revision target) :
    prepareArtifact format refusals fs request resolver exporter now suffix =
      if fs.pathExists target then
        (ArtifactStore.load format fs { root := request.artifactRoot } request.modelId
          (lower revision) .onnxPairwise request.precision, fs)
      else prepareFresh format refusals fs request (lower revision) now suffix exporter target := by
  unfold prepareArtifact
  rw [h.resolved]
  dsimp only
  rw [isTarget_full h, h.directory]
  rfl

theorem prepareArtifact_error (format : ArtifactFormat β) (refusals : Refusals Text)
    (fs : FileSystem Text β) (exporter : ArtifactExporter β) (now : Timestamp) (suffix : Text)
    (h : ¬∃ revision target, IsTarget request resolver revision target) :
    ∃ error,
      prepareArtifact format refusals fs request resolver exporter now suffix =
        (.error error, fs) := by
  unfold prepareArtifact
  split
  · exact ⟨_, rfl⟩
  · rename_i revision hrevision
    split
    · exact ⟨_, rfl⟩
    · split
      · exact ⟨_, rfl⟩
      · rename_i target htarget
        exact absurd ⟨revision, target, hrevision, htarget⟩ h

/-! ### When it is -/

/-- The exporter has left `exported`: its output is at `source`, the target is to be at `goal`. -/
structure Fills (refusals : Refusals Text) (fs : FileSystem Text β) (request : ExportRequest)
    (resolvedRevision : Text) (suffix : Text) (exporter : ArtifactExporter β) (target : Path Text)
    (exported : FileSystem Text β) (source goal : Location Text) : Prop where
  filled : ∃ created, Makes refusals fs request target suffix created ∧
    created.entry (stagingPath target suffix) = .ok source ∧
    created.put source (exporter request resolvedRevision).2 = .ok exported
  goal : (prepared refusals fs target).entry target = .ok goal

theorem Makes.unique {created' : FileSystem Text β}
    (h : Makes refusals fs request target suffix created)
    (h' : Makes refusals fs request target suffix created') : created' = created :=
  Except.ok.inj (h'.made.symm.trans h.made)

theorem Fills.unique {exported' : FileSystem Text β} {source' goal' : Location Text}
    (h : Fills refusals fs request revision suffix exporter target exported source goal)
    (h' : Fills refusals fs request revision suffix exporter target exported' source' goal') :
    exported' = exported ∧ source' = source ∧ goal' = goal := by
  obtain ⟨created, hmakes, hentry, hput⟩ := h.filled
  obtain ⟨created', hmakes', hentry', hput'⟩ := h'.filled
  obtain rfl := hmakes.unique hmakes'
  obtain rfl := Except.ok.inj (hentry'.symm.trans hentry)
  exact ⟨Except.ok.inj (hput'.symm.trans hput), rfl,
    Except.ok.inj (h'.goal.symm.trans h.goal)⟩

open ArtifactStore (textFormat textFormat_roundTrips smallRequest smallFiles willing)

theorem isTarget_small : IsTarget smallRequest (fun _ => .ok (List.replicate 40 'C'))
    (List.replicate 40 'C') smallTarget :=
  ⟨rfl, rfl⟩

end Exporter

end RerankerService
