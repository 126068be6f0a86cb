import RerankerService.Proof.Staging

/-!
# What a published artifact covers

A change of a file is noticed when the manifest declares the file, and the manifest of the exporter
declares two.
-/

namespace RerankerService

open Files Outcome
open List (Forall₂)

namespace ArtifactStore

variable {β : Type} {format : ArtifactFormat β} {fs : FileSystem Text β} {store : ArtifactStore}
  {modelId resolvedRevision : Text} {backend : ArtifactBackend} {precision : Precision}
  {artifact : LoadedArtifact}

def Declares (manifest : ArtifactManifest) (rel : Location Text) (digest : Text) : Prop :=
  ∃ name relative, (name, relative) ∈ manifest.files.entries ∧
    relativePath relative = rel.map .name ∧ manifest.checksums.get? name = some digest

/-- Every file but the manifest is declared with its digest, and `load` raises `ArtifactError` when
its content is another one. -/
def Covers (format : ArtifactFormat β) (fs : FileSystem Text β) (store : ArtifactStore)
    (artifact : LoadedArtifact) : Prop :=
  ∀ rel content, fs.node (artifact.directory ++ rel) = some (.file content) →
    rel ≠ ["manifest.json".toList] →
    Declares artifact.manifest rel (format.sha256 content) ∧
      ∀ content', content' ≠ content → ∃ message,
        store.load format (fs.overwrite (artifact.directory ++ rel) content')
          artifact.manifest.modelId artifact.manifest.resolvedRevision artifact.manifest.backend
          artifact.manifest.precision = .error (artifactError message)

/-- The manifest is read again after a change of another file. -/
theorem readManifest_overwrite {expected : Path Text} {directory l : Location Text}
    {manifest : ArtifactManifest} {text : β}
    (h : store.readManifest format fs expected = .ok (directory, manifest))
    (hmanifest : fs.node (directory ++ ["manifest.json".toList]) = some (.file text))
    (hl : l ≠ directory ++ ["manifest.json".toList]) (content : β) :
    store.readManifest format (fs.overwrite l content) expected = .ok (directory, manifest) := by
  have hkinds := FileSystem.sameKinds_overwrite fs l content
  obtain ⟨root, resolved, text', hroot, hdirectory, hinside, hresolved, hprefix, htext, hloads,
    hvalid⟩ := readManifest_eq_ok.mp h
  have hdirect := FileSystem.resolve_append_names ["manifest.json".toList] hdirectory
    ⟨_, hmanifest, rfl⟩
  obtain rfl : directory ++ ["manifest.json".toList] = resolved :=
    Except.ok.inj (hdirect.symm.trans hresolved)
  refine readManifest_eq_ok.mpr ⟨root, _, text', ?_, ?_, hinside, ?_, hprefix, ?_, hloads, hvalid⟩
  · rw [hkinds.resolve, hroot]
  · rw [hkinds.resolve, hdirectory]
  · rw [hkinds.resolve, hresolved]
  · rw [FileSystem.overwrite_of_ne (Ne.symm hl), htext]

theorem declares_of_load
    (h : store.load format fs modelId resolvedRevision backend precision = .ok artifact)
    {rel : Location Text} {content : β}
    (hnode : fs.node (artifact.directory ++ rel) = some (.file content)) {name relative : Text}
    (hfile : (name, relative) ∈ artifact.manifest.files.entries)
    (hrelative : relativePath relative = rel.map .name) :
    artifact.manifest.checksums.get? name = some (format.sha256 content) := by
  obtain ⟨expected, -, hread, -, -, -, -, hfiles⟩ := load_ok h
  obtain ⟨root, resolved, text, -, hdirectory, -⟩ := readManifest_eq_ok.mp hread
  obtain ⟨i, hi, hentry⟩ := List.getElem_of_mem hfile
  have hverified := hfiles.get (i := i) hi (hfiles.length_eq ▸ hi)
  rw [List.get_eq_getElem, hentry] at hverified
  have hresolve := FileSystem.resolve_append_names rel
    (FileSystem.resolve_names (FileSystem.present_resolve hdirectory)) ⟨_, hnode, rfl⟩
  rw [← hrelative] at hresolve
  obtain ⟨content', hnode', hchecksum⟩ := hverified.content
  rw [← Except.ok.inj (hresolve.symm.trans hverified.resolved), hnode] at hnode'
  cases hnode'
  exact hchecksum

/-- Whatever file is changed, the pass of the loop over a verified file gets as far as its
comparison. -/
theorem Verified.error_overwrite {directory l : Location Text} {manifest : ArtifactManifest}
    {file : Text × Text} {loaded : Text × Location Text}
    (h : Verified format fs directory manifest file loaded) {old content : β}
    (hold : fs.node l = some (.file old)) {error : Error}
    (herror : loadFile format (fs.overwrite l content) directory manifest file = .error error) :
    error = artifactError "artifact checksum verification failed" := by
  obtain ⟨kept, hkept, hchecksum⟩ := h.content
  have hresolved : (fs.overwrite l content).resolve
      (directory.map .name ++ relativePath file.2) = .ok loaded.2 := by
    rw [(FileSystem.sameKinds_overwrite fs l content).resolve, h.resolved]
  have hnode : ∃ now, (fs.overwrite l content).node loaded.2 = some (.file now) := by
    by_cases hsame : loaded.2 = l
    · exact ⟨content, by rw [hsame, FileSystem.overwrite_self hold]⟩
    · exact ⟨kept, by rw [FileSystem.overwrite_of_ne hsame, hkept]⟩
  obtain ⟨now, hnow⟩ := hnode
  rw [loadFile_eq hresolved h.inside hnow hchecksum, require] at herror
  split at herror
  · cases herror
  · exact (Except.error.inj herror).symm

theorem load_overwrite
    (h : store.load format fs modelId resolvedRevision backend precision = .ok artifact)
    {text : β}
    (hmanifest : fs.node (artifact.directory ++ ["manifest.json".toList]) = some (.file text))
    {rel : Location Text} {content content' : β}
    (hnode : fs.node (artifact.directory ++ rel) = some (.file content))
    (hrel : rel ≠ ["manifest.json".toList])
    (hdeclared : ∃ name relative, (name, relative) ∈ artifact.manifest.files.entries ∧
      relativePath relative = rel.map .name)
    (hdigest : format.sha256 content' ≠ format.sha256 content) :
    store.load format (fs.overwrite (artifact.directory ++ rel) content') modelId resolvedRevision
      backend precision = .error (artifactError "artifact checksum verification failed") := by
  obtain ⟨name, relative, hfile, hrelative⟩ := hdeclared
  have hchecksum := declares_of_load h hnode hfile hrelative
  obtain ⟨expected, hexpected, hread, hmodel, hrevision, hbackend, hprecision, hfiles⟩ := load_ok h
  have hread' := readManifest_overwrite hread hmanifest
    (fun heq => hrel (List.append_cancel_left heq)) content'
  have hself := FileSystem.overwrite_self hnode content'
  have hloop : artifact.manifest.files.entries.mapM (loadFile format
      (fs.overwrite (artifact.directory ++ rel) content') artifact.directory artifact.manifest) =
      .error (artifactError "artifact checksum verification failed") := by
    refine mapM_eq_error ⟨(name, relative), hfile, ?_⟩ fun file hmem error herror => ?_
    · have hresolve := FileSystem.resolve_append_names rel
        (FileSystem.resolve_names (FileSystem.Present.of_append ⟨_, hself, rfl⟩)) ⟨_, hself, rfl⟩
      rw [← hrelative] at hresolve
      rw [loadFile_eq hresolve (List.prefix_append _ _) hself hchecksum, require,
        if_neg (by simpa using hdigest)]
      rfl
    · obtain ⟨i, hi, rfl⟩ := List.getElem_of_mem hmem
      have hverified := hfiles.get (i := i) hi (hfiles.length_eq ▸ hi)
      exact hverified.error_overwrite hnode herror
  rw [load, hexpected]
  simp only [bind, Except.bind, hread', hloop]
  rw [require, if_pos (by simp [hmodel, hrevision, hprecision])]

theorem covers_iff
    (h : store.load format fs modelId resolvedRevision backend precision = .ok artifact) {text : β}
    (hmanifest : fs.node (artifact.directory ++ ["manifest.json".toList]) = some (.file text))
    (hsha : ∀ rel content, fs.node (artifact.directory ++ rel) = some (.file content) →
      rel ≠ ["manifest.json".toList] →
      ∀ content', format.sha256 content' = format.sha256 content → content' = content) :
    Covers format fs store artifact ↔
      ∀ rel content, fs.node (artifact.directory ++ rel) = some (.file content) →
        rel ≠ ["manifest.json".toList] →
        ∃ name relative, (name, relative) ∈ artifact.manifest.files.entries ∧
          relativePath relative = rel.map .name := by
  constructor
  · intro hcovers rel content hnode hrel
    obtain ⟨⟨name, relative, hfile, hrelative, -⟩, -⟩ := hcovers rel content hnode hrel
    exact ⟨name, relative, hfile, hrelative⟩
  · intro hdeclared rel content hnode hrel
    obtain ⟨name, relative, hfile, hrelative⟩ := hdeclared rel content hnode hrel
    refine ⟨⟨name, relative, hfile, hrelative, declares_of_load h hnode hfile hrelative⟩,
      fun content' hcontent => ⟨"artifact checksum verification failed", ?_⟩⟩
    obtain ⟨expected, -, -, hmodel, hrevision, hbackend, hprecision, -⟩ := load_ok h
    rw [hmodel, hrevision, hbackend, hprecision]
    exact load_overwrite h hmanifest hnode hrel ⟨name, relative, hfile, hrelative⟩
      fun hdigest => hcontent (hsha rel content hnode hrel content' hdigest)

end ArtifactStore

namespace Exporter

variable {β : Type} {format : ArtifactFormat β} {refusals : Refusals Text}
  {fs fs' exported : FileSystem Text β} {request : ExportRequest} {resolver : RevisionResolver}
  {exporter : ArtifactExporter β} {now : Timestamp} {suffix revision resolvedRevision : Text}
  {target staging : Path Text} {artifact : LoadedArtifact} {contents : Tree Text β}
  {source goal place : Location Text} {model tokenizer : β}

/-- What the exporter leaves is a directory, and no link stands for the manifest. -/
def Plain (contents : Tree Text β) : Prop :=
  contents.node [] = some .directory ∧
    ∀ absolute path, contents.node [manifestFile] ≠ some (.symlink absolute path)

/-- The target has what the exporter left, and the manifest. -/
structure Published (format : ArtifactFormat β) (request : ExportRequest) (resolvedRevision : Text)
    (now : Timestamp) (contents : Tree Text β) (artifact : LoadedArtifact)
    (fs : FileSystem Text β) : Prop where
  manifest : ∃ modelDigest tokenizerDigest, artifact.manifest =
    (Exporter.manifest request resolvedRevision now modelDigest tokenizerDigest).sortKeys
  text : ∃ text, fs.node (artifact.directory ++ [manifestFile]) = some (.file text)
  node : ∀ rel, rel ≠ [manifestFile] →
    fs.node (artifact.directory ++ rel) = contents.node rel

/-- Without a link the manifest is in the staging directory. -/
theorem Publication.place_eq
    (h : Publication format request resolvedRevision now contents exported fs staging target source
      goal place model tokenizer) (hplain : Plain contents) : place = source ++ [manifestFile] := by
  have hlocate := FileSystem.seek_name exported.depth
    (show ∀ absolute path, exported.node (source ++ [manifestFile]) ≠
      some (.symlink absolute path) by rw [h.before]; exact hplain.2)
  exact Except.ok.inj (h.located.symm.trans hlocate)

theorem Publication.published
    (h : Publication format request resolvedRevision now contents exported fs staging target source
      goal place model tokenizer) (hplain : Plain contents) (hformat : format.RoundTrips)
    (htarget : artifactDirectory request.artifactRoot request.modelId resolvedRevision .onnxPairwise
      request.precision = .ok target)
    (hload : ArtifactStore.load format fs { root := request.artifactRoot } request.modelId
      resolvedRevision .onnxPairwise request.precision = .ok artifact) :
    Published format request resolvedRevision now contents artifact fs := by
  have hplace := h.place_eq hplain
  have htext := h.node [manifestFile]
  rw [if_pos hplace.symm] at htext
  obtain ⟨expected, hexpected, hread, -⟩ := ArtifactStore.load_ok hload
  obtain rfl := Except.ok.inj (hexpected.symm.trans htarget)
  obtain ⟨_, resolved, text, -, hdirectory, -, hresolved, -, hnode, hloads, -⟩ :=
    ArtifactStore.readManifest_eq_ok.mp hread
  have hfound := FileSystem.resolve_of_lookup h.found
  obtain rfl : goal = artifact.directory := Except.ok.inj (hfound.symm.trans hdirectory)
  have hmanifest := FileSystem.resolve_append_names [manifestFile] hfound ⟨_, htext, rfl⟩
  obtain rfl := Except.ok.inj (hmanifest.symm.trans hresolved)
  rw [htext] at hnode
  obtain rfl := Node.file.inj (Option.some.inj hnode)
  have hlaw := hformat _
    (floatless_manifestOf format request resolvedRevision now model tokenizer)
  have hsame := hlaw.symm.trans hloads
  refine ⟨⟨_, _, (Option.some.inj hsame).symm⟩, ⟨_, htext⟩, fun rel hrel => ?_⟩
  rw [h.node, if_neg]
  rw [hplace, List.append_right_inj]
  exact hrel

theorem published_of_prepareArtifact (hformat : format.RoundTrips)
    (hrevision : resolver request = .ok revision)
    (htarget : artifactDirectory request.artifactRoot request.modelId (lower revision) .onnxPairwise
      request.precision = .ok target)
    (hfresh : fs.pathExists target = false) (hunused : Unused refusals fs target suffix)
    (h : prepareArtifact format refusals fs request resolver exporter now suffix =
      (.ok artifact, fs'))
    (hplain : Plain (exporter request (lower revision)).2) :
    ArtifactStore.load format fs' { root := request.artifactRoot } request.modelId (lower revision)
        .onnxPairwise request.precision = .ok artifact ∧
      Published format request (lower revision) now (exporter request (lower revision)).2 artifact
        fs' := by
  unfold prepareArtifact at h
  rw [hrevision] at h
  dsimp only at h
  split at h
  · cases h
  · rw [htarget] at h
    dsimp only at h
    rw [hfresh, if_neg Bool.false_ne_true] at h
    obtain ⟨hload, created, exported, source, goal, place, model, tokenizer, -, -, -, hpublication⟩ :=
      publication_of_prepareFresh htarget hunused hplain.1 h
    exact ⟨hload, hpublication.published hplain hformat htarget hload⟩

/-- **Published artifacts are covered by checksums** when the exporter leaves no file but the model,
the tokenizer and perhaps a manifest. -/
theorem covers_published_iff (hformat : format.RoundTrips)
    (hrevision : resolver request = .ok revision)
    (htarget : artifactDirectory request.artifactRoot request.modelId (lower revision) .onnxPairwise
      request.precision = .ok target)
    (hfresh : fs.pathExists target = false) (hunused : Unused refusals fs target suffix)
    (h : prepareArtifact format refusals fs request resolver exporter now suffix =
      (.ok artifact, fs'))
    (hplain : Plain (exporter request (lower revision)).2)
    (hsha : ∀ rel content, (exporter request (lower revision)).2.node rel = some (.file content) →
      ∀ content', format.sha256 content' = format.sha256 content → content' = content) :
    ArtifactStore.Covers format fs' { root := request.artifactRoot } artifact ↔
      ∀ rel content, (exporter request (lower revision)).2.node rel = some (.file content) →
        rel = [modelFile] ∨ rel = [tokenizerFile] ∨ rel = [manifestFile] := by
  obtain ⟨hload, hpublished⟩ :=
    published_of_prepareArtifact hformat hrevision htarget hfresh hunused h hplain
  generalize (exporter request (lower revision)).2 = contents at hpublished hsha ⊢
  obtain ⟨text, htext⟩ := hpublished.text
  rw [ArtifactStore.covers_iff hload htext fun rel content hnode hrel =>
    hsha rel content ((hpublished.node rel hrel).symm.trans hnode)]
  obtain ⟨modelDigest, tokenizerDigest, hmanifest⟩ := hpublished.manifest
  have hinjective : Function.Injective (Component.name : Text → Component Text) := fun _ _ h => by
    injection h
  constructor
  · intro hdeclared rel content hnode
    by_cases hrel : rel = [manifestFile]
    · exact .inr (.inr hrel)
    · obtain ⟨name, relative, hfile, hrelative⟩ :=
        hdeclared rel content ((hpublished.node rel hrel).trans hnode) hrel
      rw [hmanifest] at hfile
      rcases List.mem_cons.mp hfile with hmodel | hfile
      · cases hmodel
        exact .inl (hinjective.list_map hrelative.symm)
      · cases List.mem_singleton.mp hfile
        exact .inr (.inl (hinjective.list_map hrelative.symm))
  · intro hnames rel content hnode hrel
    rw [hmanifest]
    rcases hnames rel content ((hpublished.node rel hrel).symm.trans hnode) with rfl | rfl | rfl
    · exact ⟨_, modelFile, List.mem_cons_self, rfl⟩
    · exact ⟨_, tokenizerFile, List.mem_cons_of_mem _ List.mem_cons_self, rfl⟩
    · exact absurd rfl hrel

open ArtifactStore (Covers eq_of_digest textFormat textFormat_roundTrips smallRequest smallFiles
  prepareSmall)

theorem covers_published_small : ∃ artifact fs', prepareSmall smallFiles = (.ok artifact, fs') ∧
    Covers textFormat fs' { root := smallRequest.artifactRoot } artifact := by
  have hcomputed : (prepareSmall smallFiles).1.toOption.map (fun artifact => artifact.files.length) =
      some 2 := by decide +kernel
  cases h : prepareSmall smallFiles with
  | mk result fs' =>
  rw [h] at hcomputed
  obtain ⟨artifact, rfl, -⟩ := toOption_map_eq_some.mp hcomputed
  refine ⟨artifact, fs', rfl, (covers_published_iff textFormat_roundTrips rfl rfl rfl unused_small h
    ⟨rfl, ?_⟩ ?_).mpr ?_⟩
  · intro absolute path hnode
    cases hnode
  · intro rel content hnode content' hdigest
    obtain ⟨name, -, hcontent⟩ := Tree.node_ofFiles hnode
    refine eq_of_digest ?_ hdigest
    rcases List.mem_cons.mp hcontent with hfile | hfile
    · cases hfile
      exact .inl rfl
    · cases List.mem_singleton.mp hfile
      exact .inr rfl
  · intro rel content hnode
    obtain ⟨name, rfl, hcontent⟩ := Tree.node_ofFiles hnode
    rcases List.mem_cons.mp hcontent with hfile | hfile
    · cases hfile
      exact .inl rfl
    · cases List.mem_singleton.mp hfile
      exact .inr (.inl rfl)

/-- An export that keeps its weights beside the model. -/
def weightFiles : List (Text × (Text ⊕ ArtifactManifest)) :=
  smallFiles ++ [("model.onnx_data".toList, .inl ['w'])]

theorem weights_not_covered : ¬∀ files : List (Text × (Text ⊕ ArtifactManifest)),
    ∀ artifact fs', prepareSmall files = (.ok artifact, fs') →
      Covers textFormat fs' { root := smallRequest.artifactRoot } artifact := by
  intro hclaim
  have hcomputed : (prepareSmall weightFiles).1.toOption.map (fun artifact =>
      ((prepareSmall weightFiles).2.node (artifact.directory ++ ["model.onnx_data".toList]),
        artifact.manifest.files.values)) =
      some (some (.file (.inl ['w'])), [modelFile, tokenizerFile]) := by decide +kernel
  cases h : prepareSmall weightFiles with
  | mk result fs' =>
  rw [h] at hcomputed
  obtain ⟨artifact, rfl, hpair⟩ := toOption_map_eq_some.mp hcomputed
  obtain ⟨hnode, hfiles⟩ := Prod.mk.inj hpair
  obtain ⟨⟨name, relative, hfile, hrelative, -⟩, -⟩ :=
    hclaim weightFiles artifact fs' h _ _ hnode (by decide)
  have hvalue : relative ∈ artifact.manifest.files.values := List.mem_map_of_mem hfile
  rw [hfiles] at hvalue
  rcases List.mem_cons.mp hvalue with rfl | hvalue
  · revert hrelative
    decide
  · cases List.mem_singleton.mp hvalue
    revert hrelative
    decide

end Exporter

end RerankerService
