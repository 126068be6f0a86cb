import RerankerService.Proof.Staging

/-!
# What an export leaves behind

Until the rename only the staging directory and files have changed. After it the target is there,
and what `load` finds in it depends on where the links of the exporter lead.
-/

namespace RerankerService

open Files Outcome
open List (Forall₂)

namespace Exporter

variable {β : Type} {format : ArtifactFormat β} {refusals : Refusals Text}
  {fs fs' created left : FileSystem Text β} {request : ExportRequest} {exporter : ArtifactExporter β}
  {now : Timestamp} {suffix resolvedRevision : Text} {target staging : Path Text}
  {source goal : Location Text} {artifact : LoadedArtifact}

/-! ### A tree that stands alone -/

/-- The name leads to a file inside the tree, and `text` at `place` does not change its digest. -/
def Steady (format : ArtifactFormat β) (depth : Nat) (contents : Tree Text β)
    (place : Location Text) (text : β) (name : Text) (content : β) : Prop :=
  ∃ l, contents.resolveInside depth [.name name] = some l ∧
    contents.node l = some (.file content) ∧
    (place = l → format.sha256 text = format.sha256 content)

/-- The model, the tokenizer and the place of the manifest are found without leaving the tree, and
the manifest does not overwrite what it has the digests of. -/
def StandsAlone (format : ArtifactFormat β) (depth : Nat) (request : ExportRequest)
    (resolvedRevision : Text) (now : Timestamp) (contents : Tree Text β) : Prop :=
  ∃ place model tokenizer, contents.locateInside depth [] [.name manifestFile] = some place ∧
    Steady format depth contents place
      (manifestText format request resolvedRevision now model tokenizer) modelFile model ∧
    Steady format depth contents place
      (manifestText format request resolvedRevision now model tokenizer) tokenizerFile tokenizer

section Publication

variable {contents : Tree Text β} {exported published : FileSystem Text β}
  {place written : Location Text} {model tokenizer : β} {name : Text} {content : β}

/-- What the system reads is what the name leads to inside the tree. -/
theorem Steady.content_eq {text content' : β} (hfilled : exported.lookup staging = .ok source)
    (hsource : ∀ q, exported.node (source ++ q) = contents.node q)
    (h : Steady format exported.depth contents place text name content)
    (hread : exported.read (staging ++ [.name name]) = .ok content') : content' = content := by
  obtain ⟨l, hl, hnode, -⟩ := h
  obtain ⟨m, hm, hfile⟩ := FileSystem.read_ok hread
  have hembeds : exported.Embeds (fun _ => False) source contents := fun q => by
    rw [hsource]
    exact .same _
  have hresolve := hembeds.resolve (FileSystem.resolve_of_lookup hfilled) hl
  obtain rfl := Except.ok.inj (hresolve.symm.trans (FileSystem.resolve_of_lookup hm))
  rw [hsource, hnode] at hfile
  exact (Node.file.inj (Option.some.inj hfile)).symm

theorem Publication.steady_iff
    (h : Publication format request resolvedRevision now contents exported published staging target
      source goal written model tokenizer) (hsame : source.dropLast = goal.dropLast)
    (hwritten : written = source ++ place)
    (hread : exported.read (staging ++ [.name name]) = .ok content) :
    Steady format exported.depth contents place
        (manifestText format request resolvedRevision now model tokenizer) name content ↔
      ∃ l content', published.resolve (goal.map .name ++ [.name name]) = .ok l ∧ goal <+: l ∧
        published.node l = some (.file content') ∧
        format.sha256 content' = format.sha256 content := by
  have hgoal : published.resolve (goal.map .name) = .ok goal :=
    FileSystem.resolve_names (FileSystem.present_resolve (FileSystem.resolve_of_lookup h.found))
  constructor
  · rintro ⟨l, hl, hnode, hdigest⟩
    have hmoved := h.moved hsame
    have hresolve := hmoved.after.resolve hgoal (hmoved.depth ▸ hl)
    have hpublished := h.node l
    split at hpublished
    · rename_i heq
      rw [hwritten, List.append_right_inj] at heq
      exact ⟨goal ++ l, _, hresolve, List.prefix_append goal l, hpublished, hdigest heq.symm⟩
    · exact ⟨goal ++ l, content, hresolve, List.prefix_append goal l, hpublished.trans hnode, rfl⟩
  · rintro ⟨l, content', hl, hinside, hnode, hdigest⟩
    obtain ⟨m, hm, hfile⟩ := FileSystem.read_ok hread
    rcases (h.moved hsame).resolve (FileSystem.resolve_of_lookup h.filled) hgoal
      (FileSystem.resolve_of_lookup hm) hl with ⟨q, hq, rfl, rfl⟩ | ⟨rfl, hout⟩
    · rw [h.before] at hfile
      refine ⟨q, hq, hfile, ?_⟩
      rintro rfl
      rw [h.node, if_pos hwritten.symm] at hnode
      cases hnode
      exact hdigest
    · rw [hout.2 hinside, (h.moved hsame).node_goal] at hnode
      cases hnode

/-- What is read at the target is the manifest of this export, and it is inside. -/
theorem Publication.manifest_of_readManifest
    (h : Publication format request resolvedRevision now contents exported published staging target
      source goal written model tokenizer) (hsame : source.dropLast = goal.dropLast)
    (hformat : format.RoundTrips) {directory : Location Text} {read : ArtifactManifest}
    (hread : ArtifactStore.readManifest format published { root := request.artifactRoot } target =
      .ok (directory, read)) :
    directory = goal ∧
      read = (manifestOf format request resolvedRevision now model tokenizer).sortKeys ∧
      ∃ place, contents.locateInside exported.depth [] [.name manifestFile] = some place ∧
        written = source ++ place := by
  obtain ⟨root, resolved, text, -, hdirectory, -, hresolved, hinside, htext, hloads, -⟩ :=
    ArtifactStore.readManifest_eq_ok.mp hread
  have hfound := FileSystem.resolve_of_lookup h.found
  obtain rfl := Except.ok.inj (hfound.symm.trans hdirectory)
  have hfold : [Component.name manifestFile].foldlM
      (published.enter (published.follow exported.depth)) goal = .ok resolved := by
    rw [FileSystem.resolve] at hfound hresolved
    rw [FileSystem.walk_append, hfound] at hresolved
    change published.walk goal [.name manifestFile] = .ok resolved at hresolved
    rwa [FileSystem.walk, (h.moved hsame).depth] at hresolved
  have hstart : FileSystem.Tracks source goal (some []) source goal :=
    .inl ⟨[], rfl, by rw [List.append_nil], by rw [List.append_nil]⟩
  rcases (h.moved hsame).locate h.apart h.file hstart h.located hfold with
    ⟨place, hplace, hwritten, rfl⟩ | ⟨rfl, hout⟩
  · rw [h.node, if_pos hwritten.symm] at htext
    cases htext
    have hlaw := hformat _ (floatless_manifestOf format request resolvedRevision now model tokenizer)
    exact ⟨rfl, Option.some.inj (hloads.symm.trans hlaw), place, hplace, hwritten⟩
  · rw [hout.2 hinside, (h.moved hsame).node_goal] at htext
    cases htext

theorem Publication.loadFile
    (h : Publication format request resolvedRevision now contents exported published staging target
      source goal written model tokenizer) (hsame : source.dropLast = goal.dropLast)
    (hwritten : written = source ++ place)
    (hread : exported.read (staging ++ [.name name]) = .ok content)
    (hsteady : Steady format exported.depth contents place
      (manifestText format request resolvedRevision now model tokenizer) name content)
    {f : Text × Text} (hrelative : relativePath f.2 = [.name name]) {read : ArtifactManifest}
    (hchecksum : read.checksums.get? f.1 = some (format.sha256 content)) :
    ∃ l, ArtifactStore.loadFile format published goal read f = .ok (f.1, l) := by
  obtain ⟨l, content', hl, hinside, hnode, hdigest⟩ :=
    (h.steady_iff hsame hwritten hread).mp hsteady
  rw [← hrelative] at hl
  rw [ArtifactStore.loadFile_eq hl hinside hnode hchecksum, require,
    if_pos (by simpa using hdigest)]
  exact ⟨l, rfl⟩

theorem Publication.load
    (h : Publication format request resolvedRevision now contents exported published staging target
      source goal written model tokenizer) (hsame : source.dropLast = goal.dropLast)
    (hformat : format.RoundTrips)
    (htarget : artifactDirectory request.artifactRoot request.modelId resolvedRevision .onnxPairwise
      request.precision = .ok target)
    (halone : StandsAlone format exported.depth request resolvedRevision now contents) :
    ∃ artifact, ArtifactStore.load format published { root := request.artifactRoot } request.modelId
      resolvedRevision .onnxPairwise request.precision = .ok artifact := by
  obtain ⟨place, model', tokenizer', hplace, hmodel, htokenizer⟩ := halone
  obtain rfl := hmodel.content_eq h.filled h.before h.readModel
  obtain rfl := htokenizer.content_eq h.filled h.before h.readTokenizer
  have hmoved := h.moved hsame
  have hlocated := FileSystem.seek_embedded (l := []) h.before hplace
  rw [List.append_nil] at hlocated
  have hwritten : written = source ++ place := Except.ok.inj (h.located.symm.trans hlocated)
  have htext := h.node place
  rw [if_pos hwritten.symm] at htext
  obtain ⟨root, hroot, hwithin⟩ := h.root
  have hfound := FileSystem.resolve_of_lookup h.found
  have hmanifest : published.resolve (target ++ [.name manifestFile]) = .ok (goal ++ place) := by
    have hfold := hmoved.after.follow_locate (l := []) htext hplace
    rw [List.append_nil] at hfold
    rw [FileSystem.resolve] at hfound ⊢
    rw [FileSystem.walk_append, hfound]
    change published.walk goal [.name manifestFile] = _
    rw [FileSystem.walk, hmoved.depth, hfold]
  have hread : ArtifactStore.readManifest format published { root := request.artifactRoot } target =
      .ok (goal, (manifestOf format request resolvedRevision now model tokenizer).sortKeys) :=
    ArtifactStore.readManifest_eq_ok.mpr ⟨root, goal ++ place, _, hroot, hfound, hwithin,
      hmanifest, List.prefix_append goal place, htext,
      hformat _ (floatless_manifestOf format request resolvedRevision now model tokenizer),
      validate_sortKeys h.valid⟩
  have hmodelDigest : (manifestOf format request resolvedRevision now model
      tokenizer).sortKeys.checksums.get? "model".toList = some (format.sha256 model) := rfl
  have htokenizerDigest : (manifestOf format request resolvedRevision now model
      tokenizer).sortKeys.checksums.get? "tokenizer".toList = some (format.sha256 tokenizer) := rfl
  obtain ⟨modelPath, hmodelPath⟩ := h.loadFile hsame hwritten h.readModel hmodel
    (f := ("model".toList, modelFile)) rfl hmodelDigest
  obtain ⟨tokenizerPath, htokenizerPath⟩ := h.loadFile hsame hwritten h.readTokenizer htokenizer
    (f := ("tokenizer".toList, tokenizerFile)) rfl htokenizerDigest
  have hfiles := mapM_eq_ok.mpr (.cons hmodelPath (.cons htokenizerPath .nil))
  refine ⟨_, bind_eq_ok.mpr ⟨target, htarget, bind_eq_ok.mpr ⟨_, hread, bind_eq_ok.mpr ⟨(), ?_,
    bind_eq_ok.mpr ⟨_, hfiles, rfl⟩⟩⟩⟩⟩
  simp [ArtifactManifest.sortKeys, manifestOf, manifest, require]

end Publication

end Exporter

end RerankerService
