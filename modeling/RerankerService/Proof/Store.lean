import RerankerService.Artifact.Exporter
import RerankerService.Foundation.Resolution

/-!
# What the store hands out

`load` checks the identity, the locations and the digests one after the other; what it returns has
passed them all.
-/

namespace RerankerService

open Files Outcome
open List (Forall₂)

theorem require_eq_ok {condition : Bool} {error : Error} {u : Unit} :
    require condition error = .ok u ↔ condition = true := by
  cases condition with
  | false => simp [require]
  | true => simp [require]

/-! ### Valid manifests -/

namespace ArtifactManifest

variable {manifest : ArtifactManifest}

theorem check_of_validate {validated : ArtifactManifest} (h : manifest.validate = .ok validated)
    {check : Bool × String} (hcheck : check ∈ manifest.fieldChecks ++ manifest.contractChecks) :
    check.1 = true := by
  unfold validate at h
  split at h
  · cases h
  · rename_i hnone
    simpa using List.find?_eq_none.mp hnone check hcheck

theorem eq_of_validate {validated : ArtifactManifest} (h : manifest.validate = .ok validated) :
    manifest = validated := by
  unfold validate at h
  split at h
  · cases h
  · exact Except.ok.inj h

theorem contract_of_validate {validated : ArtifactManifest}
    (h : manifest.validate = .ok validated) {c : Bool × String}
    (hcheck : c ∈ manifest.contractChecks) : c.1 = true :=
  check_of_validate h (List.mem_append_right _ hcheck)

theorem keys_of_validate {validated : ArtifactManifest} (h : manifest.validate = .ok validated) :
    manifest.files.keys ⊆ manifest.checksums.keys := by
  have hcheck := contract_of_validate h (c := (manifest.files.keys ⊆ manifest.checksums.keys &&
    manifest.checksums.keys ⊆ manifest.files.keys,
      "checksums must exactly match the declared files")) (by simp [contractChecks])
  simp only [Bool.and_eq_true, decide_eq_true_iff] at hcheck
  exact hcheck.1

theorem required_of_validate {validated : ArtifactManifest}
    (h : manifest.validate = .ok validated) :
    "model".toList ∈ manifest.files.keys ∧ "tokenizer".toList ∈ manifest.files.keys := by
  have hcheck := contract_of_validate h (c := ("model".toList ∈ manifest.files.keys &&
    "tokenizer".toList ∈ manifest.files.keys,
      "manifest must declare model and tokenizer files")) (by simp [contractChecks])
  simpa only [Bool.and_eq_true, decide_eq_true_iff] using hcheck

theorem get?_checksums {validated : ArtifactManifest} (h : manifest.validate = .ok validated)
    {name : Text} (hname : name ∈ manifest.files.keys) :
    ∃ checksum, manifest.checksums.get? name = some checksum := by
  obtain ⟨entry, hentry, rfl⟩ := List.mem_map.mp (keys_of_validate h hname)
  refine Option.isSome_iff_exists.mp ?_
  rw [Dict.get?, List.lookup_isSome_iff]
  exact ⟨entry, hentry, by simp⟩

end ArtifactManifest

namespace ArtifactStore

variable {β : Type} {format : ArtifactFormat β} {fs : FileSystem Text β} {store : ArtifactStore}

theorem file_of_read {l : Location Text} {content : β} (hpresent : fs.Present l)
    (hread : fs.read (l.map .name) = .ok content) : fs.node l = some (.file content) := by
  obtain ⟨l', hl', hnode⟩ := FileSystem.read_ok hread
  obtain rfl := Except.ok.inj ((FileSystem.lookup_names hpresent).symm.trans hl')
  exact hnode

theorem isFile_names {l : Location Text} {content : β} (h : fs.node l = some (.file content)) :
    fs.isFile (l.map .name) = true := by
  rw [FileSystem.isFile, FileSystem.lookup_names ⟨_, h, rfl⟩]
  change (fs.node l).any Node.isFile = true
  rw [h]
  rfl

theorem read_names {l : Location Text} {content : β} (h : fs.node l = some (.file content)) :
    fs.read (l.map .name) = .ok content := by
  rw [FileSystem.read, FileSystem.lookup_names ⟨_, h, rfl⟩]
  change fs.readAt l = _
  rw [FileSystem.readAt, h]

theorem readManifest_eq_ok {expected : Path Text} {directory : Location Text}
    {manifest : ArtifactManifest} :
    store.readManifest format fs expected = .ok (directory, manifest) ↔
      ∃ root resolved text, fs.resolve store.root = .ok root ∧
        fs.resolve expected = .ok directory ∧ root <+: directory ∧
        fs.resolve (expected ++ [.name "manifest.json".toList]) = .ok resolved ∧
        directory <+: resolved ∧ fs.node resolved = some (.file text) ∧
        format.loads text = some manifest ∧ manifest.validate = .ok manifest := by
  constructor
  · intro h
    obtain ⟨root, hroot, h⟩ := bind_eq_ok.mp h
    obtain ⟨directory', hdirectory, h⟩ := bind_eq_ok.mp h
    obtain ⟨_, hinside, h⟩ := bind_eq_ok.mp h
    obtain ⟨resolved, hresolved, h⟩ := bind_eq_ok.mp h
    obtain ⟨_, hmanifest, h⟩ := bind_eq_ok.mp h
    obtain ⟨text, htext, h⟩ := bind_eq_ok.mp h
    rw [mapError_eq_ok] at hroot hdirectory hresolved htext
    rw [require_eq_ok, Bool.and_eq_true, decide_eq_true_iff] at hmanifest
    rw [require_eq_ok, decide_eq_true_iff] at hinside
    cases hloads : format.loads text with
    | none =>
        rw [hloads] at h
        cases h
    | some fields =>
        rw [hloads] at h
        obtain ⟨validated, hvalidated, h⟩ := bind_eq_ok.mp h
        rw [mapError_eq_ok] at hvalidated
        obtain rfl := ArtifactManifest.eq_of_validate hvalidated
        obtain ⟨rfl, rfl⟩ := Prod.mk.inj (Except.ok.inj h)
        exact ⟨root, resolved, text, hroot, hdirectory, hinside, hresolved, hmanifest.1,
          file_of_read (FileSystem.present_resolve hresolved) htext, hloads, hvalidated⟩
  · rintro ⟨root, resolved, text, hroot, hdirectory, hinside, hresolved, hmanifest, htext, hloads,
      hvalid⟩
    refine bind_eq_ok.mpr ⟨root, mapError_eq_ok.mpr hroot, ?_⟩
    refine bind_eq_ok.mpr ⟨directory, mapError_eq_ok.mpr hdirectory, ?_⟩
    refine bind_eq_ok.mpr ⟨(), require_eq_ok.mpr (decide_eq_true hinside), ?_⟩
    refine bind_eq_ok.mpr ⟨resolved, mapError_eq_ok.mpr hresolved, ?_⟩
    refine bind_eq_ok.mpr ⟨(), require_eq_ok.mpr ?_, ?_⟩
    · rw [isFile_names htext, Bool.and_true]
      exact decide_eq_true hmanifest
    · refine bind_eq_ok.mpr ⟨text, mapError_eq_ok.mpr (read_names htext), ?_⟩
      rw [hloads]
      exact bind_eq_ok.mpr ⟨manifest, mapError_eq_ok.mpr hvalid, rfl⟩

/-- A declared file with the location that was verified for it. -/
structure Verified (format : ArtifactFormat β) (fs : FileSystem Text β) (directory : Location Text)
    (manifest : ArtifactManifest) (file : Text × Text) (loaded : Text × Location Text) : Prop where
  name : loaded.1 = file.1
  resolved : fs.resolve (directory.map .name ++ relativePath file.2) = .ok loaded.2
  inside : directory <+: loaded.2
  content : ∃ content, fs.node loaded.2 = some (.file content) ∧
    manifest.checksums.get? file.1 = some (format.sha256 content)

theorem loadFile_eq {directory l : Location Text} {manifest : ArtifactManifest} {file : Text × Text}
    {content : β} {checksum : Text}
    (hresolved : fs.resolve (directory.map .name ++ relativePath file.2) = .ok l)
    (hinside : directory <+: l) (hnode : fs.node l = some (.file content))
    (hchecksum : manifest.checksums.get? file.1 = some checksum) :
    loadFile format fs directory manifest file =
      (require (format.sha256 content = checksum)
        (artifactError "artifact checksum verification failed")).bind fun _ => .ok (file.1, l) := by
  unfold loadFile
  rw [hresolved]
  simp only [Except.mapError, bind, Except.bind, decide_eq_true hinside, isFile_names hnode,
    Bool.and_true, read_names hnode, hchecksum]
  rfl

theorem loadFile_ok {directory : Location Text} {manifest : ArtifactManifest} {file : Text × Text}
    {loaded : Text × Location Text} (h : loadFile format fs directory manifest file = .ok loaded) :
    Verified format fs directory manifest file loaded := by
  obtain ⟨resolved, hresolved, h⟩ := bind_eq_ok.mp h
  obtain ⟨_, hfile, h⟩ := bind_eq_ok.mp h
  obtain ⟨content, hcontent, h⟩ := bind_eq_ok.mp h
  rw [mapError_eq_ok] at hresolved hcontent
  rw [require_eq_ok, Bool.and_eq_true, decide_eq_true_iff] at hfile
  have hnode := file_of_read (FileSystem.present_resolve hresolved) hcontent
  cases hchecksum : manifest.checksums.get? file.1 with
  | none =>
      rw [hchecksum] at h
      cases h
  | some checksum =>
      rw [hchecksum] at h
      obtain ⟨_, hdigest, h⟩ := bind_eq_ok.mp h
      rw [require_eq_ok, decide_eq_true_iff] at hdigest
      obtain rfl := Except.ok.inj h
      exact ⟨rfl, hresolved, hfile.1, content, hnode, hchecksum.trans (congrArg some hdigest.symm)⟩

variable {modelId resolvedRevision : Text} {backend : ArtifactBackend} {precision : Precision}
  {artifact : LoadedArtifact}

theorem load_ok
    (h : store.load format fs modelId resolvedRevision backend precision = .ok artifact) :
    ∃ expected,
      artifactDirectory store.root modelId resolvedRevision backend precision = .ok expected ∧
      store.readManifest format fs expected = .ok (artifact.directory, artifact.manifest) ∧
      artifact.manifest.modelId = modelId ∧
      artifact.manifest.resolvedRevision = resolvedRevision ∧
      artifact.manifest.backend = backend ∧ artifact.manifest.precision = precision ∧
      Forall₂ (Verified format fs artifact.directory artifact.manifest)
        artifact.manifest.files.entries artifact.files := by
  obtain ⟨expected, hexpected, h⟩ := bind_eq_ok.mp h
  obtain ⟨⟨directory, manifest⟩, hread, h⟩ := bind_eq_ok.mp h
  obtain ⟨_, hidentity, h⟩ := bind_eq_ok.mp h
  obtain ⟨files, hfiles, h⟩ := bind_eq_ok.mp h
  obtain rfl := Except.ok.inj h
  rw [require_eq_ok, Bool.and_eq_true, Bool.and_eq_true, Bool.and_eq_true, decide_eq_true_iff,
    decide_eq_true_iff, decide_eq_true_iff, decide_eq_true_iff] at hidentity
  obtain ⟨⟨⟨hmodel, hrevision⟩, hbackend⟩, hprecision⟩ := hidentity
  exact ⟨expected, hexpected, hread, hmodel, hrevision, hbackend, hprecision,
    (mapM_eq_ok.mp hfiles).imp fun _ _ => loadFile_ok⟩

/-- What a caller of `load` can rely on. -/
structure Trusted (format : ArtifactFormat β) (fs : FileSystem Text β) (store : ArtifactStore)
    (modelId resolvedRevision : Text) (backend : ArtifactBackend) (precision : Precision)
    (artifact : LoadedArtifact) : Prop where
  identity : artifact.manifest.modelId = modelId ∧
    artifact.manifest.resolvedRevision = resolvedRevision ∧ artifact.manifest.backend = backend ∧
    artifact.manifest.precision = precision
  names : artifact.files.map Prod.fst = artifact.manifest.files.keys
  required : "model".toList ∈ artifact.files.map Prod.fst ∧
    "tokenizer".toList ∈ artifact.files.map Prod.fst
  directory : ∃ expected root,
    artifactDirectory store.root modelId resolvedRevision backend precision = .ok expected ∧
    fs.resolve expected = .ok artifact.directory ∧ fs.resolve store.root = .ok root ∧
    root <+: artifact.directory
  files : ∀ name l, (name, l) ∈ artifact.files → artifact.directory <+: l ∧
    fs.resolve (l.map .name) = .ok l ∧ ∃ content, fs.node l = some (.file content) ∧
      artifact.manifest.checksums.get? name = some (format.sha256 content)

theorem names_of_verified {directory : Location Text} {manifest : ArtifactManifest}
    {files : List (Text × Text)} {loaded : List (Text × Location Text)}
    (h : Forall₂ (Verified format fs directory manifest) files loaded) :
    loaded.map Prod.fst = files.map Prod.fst := by
  induction h with
  | nil => rfl
  | cons hfirst _ ih => rw [List.map_cons, List.map_cons, hfirst.name, ih]

/-- **A loaded artifact is exactly what was asked for and stays inside its directory.** -/
theorem load_trusted (format : ArtifactFormat β) (fs : FileSystem Text β) (store : ArtifactStore)
    (modelId resolvedRevision : Text) (backend : ArtifactBackend) (precision : Precision) :
    (∀ artifact, store.load format fs modelId resolvedRevision backend precision = .ok artifact →
      Trusted format fs store modelId resolvedRevision backend precision artifact) ∧
    ∀ manifest validated : ArtifactManifest, manifest.validate = .ok validated →
      ∀ name ∈ validated.files.keys, (validated.checksums.get? name).isSome := by
  constructor
  · intro artifact h
    obtain ⟨expected, hexpected, hread, hmodel, hrevision, hbackend, hprecision, hfiles⟩ := load_ok h
    obtain ⟨root, -, -, hroot, hdirectory, hinside, -, -, -, -, hvalid⟩ :=
      readManifest_eq_ok.mp hread
    have hnames := names_of_verified hfiles
    refine ⟨⟨hmodel, hrevision, hbackend, hprecision⟩, hnames, ?_,
      ⟨expected, root, hexpected, hdirectory, hroot, hinside⟩, fun name l hl => ?_⟩
    · rw [hnames]
      exact ArtifactManifest.required_of_validate hvalid
    · obtain ⟨i, hi, hentry⟩ := List.getElem_of_mem hl
      have hverified := hfiles.get (i := i) (by rw [hfiles.length_eq]; exact hi) hi
      rw [List.get_eq_getElem, List.get_eq_getElem, hentry] at hverified
      obtain ⟨content, hnode, hchecksum⟩ := hverified.content
      refine ⟨hverified.inside, ?_, content, hnode, ?_⟩
      · exact FileSystem.resolve_names (FileSystem.present_resolve hverified.resolved)
      · rwa [← hverified.name] at hchecksum
  · intro manifest validated hvalid name hname
    obtain rfl := ArtifactManifest.eq_of_validate hvalid
    exact Option.isSome_iff_exists.mpr (ArtifactManifest.get?_checksums hvalid hname)

/-! ### A small artifact

A file holds a text, or the JSON of a manifest with sorted keys.
-/

/-- The texts of the small artifact, with their digests. -/
def digests : List (Text × Text) :=
  [("graph".toList,
      "eef93e1d14482804277fca0172464032d1a4fdbcc338524059fa1e861454ad4d".toList),
    ("tokens".toList,
      "c51e455b41df6c017327e16001dd064b8b6733faeaa69b23d9bd79c8079237d5".toList)]

def textFormat : ArtifactFormat (Text ⊕ ArtifactManifest) where
  sha256
    | .inl text => (digests.lookup text).getD []
    | .inr _ => []
  dumps manifest := .inr manifest.sortKeys
  loads := Sum.getRight?

theorem textFormat_roundTrips : textFormat.RoundTrips := by
  intro manifest _
  rfl

/-- No other content has the digest of one of the two texts. -/
theorem eq_of_digest {content content' : Text ⊕ ArtifactManifest}
    (hcontent : content = .inl "graph".toList ∨ content = .inl "tokens".toList)
    (h : textFormat.sha256 content' = textFormat.sha256 content) : content' = content := by
  have hne : ∀ digest ∈ digests, digest.2 ≠ [] := by decide
  have hlookup : ∀ content, content = .inl "graph".toList ∨ content = .inl "tokens".toList →
      ∃ text, content = .inl text ∧ (text, textFormat.sha256 content) ∈ digests := by
    rintro content (rfl | rfl)
    · exact ⟨_, rfl, List.mem_cons_self⟩
    · exact ⟨_, rfl, List.mem_cons_of_mem _ List.mem_cons_self⟩
  obtain ⟨text, rfl, hmem⟩ := hlookup content hcontent
  rw [← h] at hmem
  cases content' with
  | inr manifest => exact absurd rfl (hne _ hmem)
  | inl text' =>
      cases hfound : digests.lookup text' with
      | none =>
          have hempty : textFormat.sha256 (.inl text') = [] := by
            change (digests.lookup text').getD [] = []
            rw [hfound]
            rfl
          exact absurd hempty (hne _ hmem)
      | some digest =>
          have hdigest : textFormat.sha256 (.inl text') = digest := by
            change (digests.lookup text').getD [] = digest
            rw [hfound]
            rfl
          obtain ⟨before, after, hsplit, -⟩ := List.lookup_eq_some_iff.mp hfound
          have hmem' : (text', digest) ∈ digests := hsplit ▸ by simp
          rw [hdigest] at hmem
          have hinj := List.inj_on_of_nodup_map (f := Prod.snd) (l := digests) (by decide) hmem' hmem
            rfl
          rw [(Prod.mk.inj hinj).1]

def smallRequest : ExportRequest where
  modelId := "BAAI/bge-reranker-v2-m3".toList
  requestedRevision := "main".toList
  artifactRoot := [.name "models".toList]
  allowedModels := ["BAAI/bge-reranker-v2-m3".toList]
  precision := .fp32
  opset := 18
  maxLength := 1024
  scoreTransform := .sigmoid

def smallFiles : List (Text × (Text ⊕ ArtifactManifest)) :=
  [(Exporter.modelFile, .inl "graph".toList), (Exporter.tokenizerFile, .inl "tokens".toList)]

/-- Nothing is refused. -/
def willing : Refusals Text :=
  fun _ => none

def prepareSmall (files : List (Text × (Text ⊕ ArtifactManifest))) :
    Except Error LoadedArtifact × FileSystem Text (Text ⊕ ArtifactManifest) :=
  Exporter.prepareArtifact textFormat willing (.new 40) smallRequest
    (fun _ => .ok (List.replicate 40 'C')) (fun _ _ => (.ok (), .ofFiles files)) 0 "k7".toList

theorem load_trusted_small : ∃ artifact, artifact.files.length = 2 ∧
    Trusted textFormat (prepareSmall smallFiles).2 { root := smallRequest.artifactRoot }
      smallRequest.modelId (List.replicate 40 'c') .onnxPairwise .fp32 artifact := by
  have hcomputed : (ArtifactStore.load textFormat (prepareSmall smallFiles).2
      { root := smallRequest.artifactRoot } smallRequest.modelId (List.replicate 40 'c') .onnxPairwise
      .fp32).toOption.map (fun artifact => artifact.files.length) = some 2 := by decide +kernel
  obtain ⟨artifact, hload, hlength⟩ := toOption_map_eq_some.mp hcomputed
  exact ⟨artifact, hlength, (load_trusted _ _ _ _ _ _ _).1 artifact hload⟩

end ArtifactStore

end RerankerService
