import RerankerService.Proof.AllOrNothing

/-!
# Which request an artifact is faithful to

A target that exists is loaded, whatever else the request asks for. It keeps the manifest of the
call that published it: a later export can spoil this manifest, but not with one of the same
identity.
-/

namespace RerankerService.Exporter

open Files Outcome

/-- A call of `prepare_artifact` and what it gets from outside. -/
structure ExportCall (β : Type) where
  refusals : Refusals Text
  request : ExportRequest
  resolver : RevisionResolver
  exporter : ArtifactExporter β
  now : Timestamp
  suffix : Text

/-- A call of a sequence, with what it found and what came of it. -/
structure Prepared (β : Type) extends ExportCall β where
  before : FileSystem Text β
  outcome : Except Error LoadedArtifact × FileSystem Text β

variable {β : Type} {format : ArtifactFormat β} {refusals : Refusals Text}
  {fs fs' : FileSystem Text β} {request : ExportRequest} {resolver : RevisionResolver}
  {exporter : ArtifactExporter β} {now : Timestamp} {suffix revision : Text} {target : Path Text}
  {artifact : LoadedArtifact}

def prepareAll (format : ArtifactFormat β) :
    FileSystem Text β → List (ExportCall β) → List (Prepared β)
  | _, [] => []
  | fs, call :: rest =>
      let outcome := prepareArtifact format call.refusals fs call.request call.resolver call.exporter
        call.now call.suffix
      { call with
        before := fs
        outcome } :: prepareAll format outcome.2 rest

/-- The exporter fills the directory it is given, and `mkdtemp` finds an unused name. -/
structure Prepared.Admitted (p : Prepared β) : Prop where
  contents : ∀ revision, (p.exporter p.request revision).2.node [] = some .directory
  unused : ∀ revision target, IsTarget p.request p.resolver revision target →
    p.before.pathExists target = false → Unused p.refusals p.before target p.suffix

/-- Nothing is published yet, and the path that `mkdtemp` returns leads to what it made. -/
def Prepared.Fresh (p : Prepared β) : Prop :=
  ∀ revision target, IsTarget p.request p.resolver revision target →
    p.before.pathExists target = false ∧
    ∀ created, Makes p.refusals p.before p.request target p.suffix created →
      created.entry (stagingPath target p.suffix) = created.entry (madePath target p.suffix)

structure Identified (request : ExportRequest) (resolver : RevisionResolver)
    (manifest : ArtifactManifest) : Prop where
  modelId : manifest.modelId = request.modelId
  revision : ∃ revision, resolver request = .ok revision ∧
    manifest.resolvedRevision = lower revision
  precision : manifest.precision = request.precision

structure Faithful (request : ExportRequest) (resolver : RevisionResolver)
    (manifest : ArtifactManifest) : Prop extends Identified request resolver manifest where
  opset : manifest.onnxOpset = request.opset
  maxLength : manifest.maxLength = request.maxLength
  scoreTransform : manifest.scoreTransform = request.scoreTransform
  scoreOutputName : manifest.scoreOutputName = request.scoreOutputName
  scoreOutputIndex : manifest.scoreOutputIndex = request.scoreOutputIndex

/-- Two calls for one model, one revision and one precision. -/
def SameArtifact (p q : Prepared β) : Prop :=
  p.request.modelId = q.request.modelId ∧ p.request.precision = q.request.precision ∧
    ∃ revision revision', p.resolver p.request = .ok revision ∧
      q.resolver q.request = .ok revision' ∧ lower revision = lower revision'

/-! ### One call -/

theorem isTarget_of_ok
    (h : (prepareArtifact format refusals fs request resolver exporter now suffix).1 =
      .ok artifact) :
    ∃ revision target, IsTarget request resolver revision target := by
  by_contra hnone
  obtain ⟨error, herror⟩ := prepareArtifact_error format refusals fs exporter now suffix hnone
  rw [herror] at h
  cases h

theorem load_of_prepareArtifact (hformat : format.RoundTrips)
    (hcontents : ∀ revision, (exporter request revision).2.node [] = some .directory)
    (hunused : fs.pathExists target = false → Unused refusals fs target suffix)
    (htarget : IsTarget request resolver revision target)
    (h : prepareArtifact format refusals fs request resolver exporter now suffix =
      (.ok artifact, fs')) :
    ArtifactStore.load format fs' { root := request.artifactRoot } request.modelId (lower revision)
      .onnxPairwise request.precision = .ok artifact ∧ fs'.pathExists target = true ∧
    (fs.pathExists target = false →
      (∀ created, Makes refusals fs request target suffix created →
        created.entry (stagingPath target suffix) = created.entry (madePath target suffix)) →
      ∃ model tokenizer, artifact.manifest =
        (manifestOf format request (lower revision) now model tokenizer).sortKeys) := by
  rw [prepareArtifact_eq htarget] at h
  cases hfresh : fs.pathExists target with
  | true =>
      rw [hfresh, if_pos rfl] at h
      obtain ⟨hload, rfl⟩ := Prod.mk.inj h
      exact ⟨hload, hfresh, fun hfalse => by cases hfalse⟩
  | false =>
      rw [hfresh, if_neg Bool.false_ne_true] at h
      obtain ⟨hload, created, exported, source, goal, place, model, tokenizer, hmakes, hentry, hgoal,
        hpublication⟩ := publication_of_prepareFresh htarget.directory (hunused hfresh) (hcontents _) h
      refine ⟨hload, FileSystem.pathExists_iff.mpr ⟨_, hpublication.found⟩,
        fun _ hstraight => ⟨model, tokenizer, ?_⟩⟩
      obtain ⟨expected, hexpected, hread, -⟩ := ArtifactStore.load_ok hload
      obtain rfl := Except.ok.inj (hexpected.symm.trans htarget.directory)
      exact (hpublication.manifest_of_readManifest
        (hmakes.dropLast_eq htarget.directory (hstraight created hmakes) hentry hgoal) hformat hread).2.1

theorem prepareArtifact_keeps
    (hcontents : ∀ revision, (exporter request revision).2.node [] = some .directory)
    (htarget : IsTarget request resolver revision target) (hfresh : fs.pathExists target = false)
    (hunused : Unused refusals fs target suffix) :
    fs.Keeps (Manifests format request (lower revision) now)
      (prepareArtifact format refusals fs request resolver exporter now suffix).2 := by
  rw [prepareArtifact_eq htarget, hfresh, if_neg Bool.false_ne_true]
  cases hp : prepareFresh format refusals fs request (lower revision) now suffix exporter target with
  | mk result fs' => exact prepareFresh_keeps htarget.directory hunused (hcontents _) hp

/-! ### The manifest of a target -/

/-- The target is there, and whatever is loaded from it has this manifest. -/
def Settled (format : ArtifactFormat β) (fs : FileSystem Text β) (target : Path Text)
    (modelId resolvedRevision : Text) (precision : Precision) (manifest : ArtifactManifest) :
    Prop :=
  fs.pathExists target = true ∧ ∃ resolved content,
    fs.resolve (target ++ [.name manifestFile]) = .ok resolved ∧
    fs.node resolved = some (.file content) ∧
    ∀ fields, format.loads content = some fields → fields.modelId = modelId →
      fields.resolvedRevision = resolvedRevision → fields.precision = precision → fields = manifest

variable {root : Path Text} {modelId resolvedRevision : Text} {precision : Precision}
  {written : ArtifactManifest} {P : β → Prop}

theorem settled_of_load (hexists : fs.pathExists target = true)
    (htarget : artifactDirectory root modelId resolvedRevision .onnxPairwise precision = .ok target)
    (h : ArtifactStore.load format fs { root } modelId resolvedRevision .onnxPairwise precision =
      .ok artifact) :
    Settled format fs target modelId resolvedRevision precision artifact.manifest := by
  obtain ⟨expected, hexpected, hread, -⟩ := ArtifactStore.load_ok h
  obtain rfl := Except.ok.inj (hexpected.symm.trans htarget)
  obtain ⟨_, resolved, text, -, -, -, hresolved, -, htext, hloads, -⟩ :=
    ArtifactStore.readManifest_eq_ok.mp hread
  refine ⟨hexists, resolved, text, hresolved, htext, fun fields hfields _ _ _ => ?_⟩
  exact Option.some.inj (hfields.symm.trans hloads)

theorem Settled.manifest_eq
    (hsettled : Settled format fs target modelId resolvedRevision precision written)
    (htarget : artifactDirectory root modelId resolvedRevision .onnxPairwise precision = .ok target)
    (h : ArtifactStore.load format fs { root } modelId resolvedRevision .onnxPairwise precision =
      .ok artifact) : artifact.manifest = written := by
  obtain ⟨-, resolved, content, hresolved, hcontent, hfields⟩ := hsettled
  obtain ⟨expected, hexpected, hread, hmodel, hrevision, -, hprecision, -⟩ :=
    ArtifactStore.load_ok h
  obtain rfl := Except.ok.inj (hexpected.symm.trans htarget)
  obtain ⟨_, resolved', text, -, -, -, hresolved', -, htext, hloads, -⟩ :=
    ArtifactStore.readManifest_eq_ok.mp hread
  obtain rfl := Except.ok.inj (hresolved.symm.trans hresolved')
  rw [hcontent] at htext
  cases htext
  exact hfields _ hloads hmodel hrevision hprecision

theorem Settled.keeps (h : Settled format fs target modelId resolvedRevision precision written)
    (hkeeps : fs.Keeps P fs')
    (hother : ∀ content, P content → ∀ fields, format.loads content = some fields →
      ¬(fields.modelId = modelId ∧ fields.resolvedRevision = resolvedRevision ∧
        fields.precision = precision)) :
    Settled format fs' target modelId resolvedRevision precision written := by
  obtain ⟨hexists, resolved, content, hresolved, hcontent, hfields⟩ := h
  obtain ⟨content', hcontent', hwritten⟩ := (hkeeps.node _ _ hcontent).file
  refine ⟨hkeeps.pathExists hexists, resolved, content', hkeeps.resolve hresolved, hcontent',
    fun fields hloads hmodel hrevision hprecision => ?_⟩
  rcases hwritten with rfl | hP
  · exact hfields fields hloads hmodel hrevision hprecision
  · exact absurd ⟨hmodel, hrevision, hprecision⟩ (hother content' hP fields hloads)

/-- A call for the same artifact finds the target, and a call for another one writes another
identity. -/
theorem Settled.step (hformat : format.RoundTrips)
    (h : Settled format fs target modelId resolvedRevision precision written)
    (htarget : artifactDirectory root modelId resolvedRevision .onnxPairwise precision = .ok target)
    (hroot : request.artifactRoot = root)
    (hcontents : ∀ revision, (exporter request revision).2.node [] = some .directory)
    (hunused : ∀ revision target, IsTarget request resolver revision target →
      fs.pathExists target = false → Unused refusals fs target suffix) :
    Settled format (prepareArtifact format refusals fs request resolver exporter now suffix).2 target
      modelId resolvedRevision precision written := by
  by_cases hany : ∃ revision target, IsTarget request resolver revision target
  · obtain ⟨revision, target', htarget'⟩ := hany
    cases hfresh : fs.pathExists target' with
    | true =>
        rw [prepareArtifact_eq htarget', hfresh]
        exact h
    | false =>
        refine h.keeps (prepareArtifact_keeps hcontents htarget' hfresh
          (hunused _ _ htarget' hfresh)) ?_
        rintro content ⟨model, tokenizer, rfl⟩ fields hfields ⟨hmodel, hrevision, hprecision⟩
        have hlaw := hformat _
          (floatless_manifestOf format request (lower revision) now model tokenizer)
        obtain rfl := Option.some.inj (hlaw.symm.trans hfields)
        have hsame : target' = target := by
          have hdirectory' := htarget'.directory
          rw [hroot, show request.modelId = modelId from hmodel,
            show lower revision = resolvedRevision from hrevision,
            show request.precision = precision from hprecision] at hdirectory'
          exact Except.ok.inj (hdirectory'.symm.trans htarget)
        rw [hsame, h.1] at hfresh
        cases hfresh
  · obtain ⟨error, herror⟩ := prepareArtifact_error format refusals fs exporter now suffix hany
    rw [herror]
    exact h

/-! ### A sequence of calls -/

theorem mem_prepareAll {calls : List (ExportCall β)} {p : Prepared β}
    (h : p ∈ prepareAll format fs calls) :
    p.toExportCall ∈ calls ∧
      p.outcome =
        prepareArtifact format p.refusals p.before p.request p.resolver p.exporter p.now p.suffix := by
  induction calls generalizing fs with
  | nil => cases h
  | cons call rest ih =>
      rcases List.mem_cons.mp h with rfl | hrest
      · exact ⟨List.mem_cons_self, rfl⟩
      · exact ⟨List.mem_cons_of_mem _ (ih hrest).1, (ih hrest).2⟩

theorem Prepared.Admitted.load {p : Prepared β} (hformat : format.RoundTrips)
    (hadmitted : p.Admitted)
    (hp : p.outcome =
      prepareArtifact format p.refusals p.before p.request p.resolver p.exporter p.now p.suffix)
    (h : p.outcome.1 = .ok artifact) : ∃ revision target,
      IsTarget p.request p.resolver revision target ∧
      ArtifactStore.load format p.outcome.2 { root := p.request.artifactRoot } p.request.modelId
        (lower revision) .onnxPairwise p.request.precision = .ok artifact ∧
      p.outcome.2.pathExists target = true ∧
      (p.Fresh → ∃ model tokenizer, artifact.manifest =
        (manifestOf format p.request (lower revision) p.now model tokenizer).sortKeys) := by
  rw [hp] at h
  obtain ⟨revision, target, htarget⟩ := isTarget_of_ok h
  obtain ⟨hload, hexists, hmanifest⟩ := load_of_prepareArtifact hformat hadmitted.contents
    (hadmitted.unused revision target htarget) htarget (Prod.ext h rfl)
  rw [← hp] at hload hexists
  refine ⟨revision, target, htarget, hload, hexists, fun hfresh => ?_⟩
  obtain ⟨hmissing, hstraight⟩ := hfresh revision target htarget
  exact hmanifest hmissing hstraight

theorem manifest_of_settled {calls : List (ExportCall β)} (hformat : format.RoundTrips)
    (hsettled : Settled format fs target modelId resolvedRevision precision written)
    (htarget : artifactDirectory root modelId resolvedRevision .onnxPairwise precision = .ok target)
    (hroot : ∀ call ∈ calls, call.request.artifactRoot = root)
    (hadmitted : ∀ p ∈ prepareAll format fs calls, p.Admitted) {p : Prepared β}
    (hp : p ∈ prepareAll format fs calls) (hmodel : p.request.modelId = modelId)
    (hrevision : ∃ revision, p.resolver p.request = .ok revision ∧
      lower revision = resolvedRevision) (hprecision : p.request.precision = precision)
    (h : p.outcome.1 = .ok artifact) : artifact.manifest = written := by
  induction calls generalizing fs with
  | nil => cases hp
  | cons call rest ih =>
      have hfirst := hadmitted _ List.mem_cons_self
      have hnext : Settled format (prepareArtifact format call.refusals fs call.request
          call.resolver call.exporter call.now call.suffix).2 target modelId resolvedRevision precision
          written :=
        hsettled.step hformat htarget (hroot call List.mem_cons_self) hfirst.contents hfirst.unused
      rcases List.mem_cons.mp hp with rfl | hrest
      · obtain ⟨revision, target', htarget', hload, -⟩ := hfirst.load hformat rfl h
        obtain ⟨revision', hresolved, rfl⟩ := hrevision
        obtain rfl := Except.ok.inj (htarget'.resolved.symm.trans hresolved)
        subst hmodel hprecision
        have hcall := hroot call List.mem_cons_self
        subst hcall
        exact hnext.manifest_eq htarget hload
      · exact ih hnext (fun call hcall => hroot call (List.mem_cons_of_mem _ hcall))
          (fun p hp => hadmitted p (List.mem_cons_of_mem _ hp)) hrest

/-- **Export results and requests.** A returned artifact is the one of the call; a fresh one has all
the parameters of the call, and whoever asks for the artifact later gets the same manifest. -/
theorem prepareAll_faithful (format : ArtifactFormat β) (fs : FileSystem Text β)
    (calls : List (ExportCall β)) (root : Path Text) (hformat : format.RoundTrips)
    (hroot : ∀ call ∈ calls, call.request.artifactRoot = root)
    (hadmitted : ∀ p ∈ prepareAll format fs calls, p.Admitted) :
    (∀ p ∈ prepareAll format fs calls, ∀ artifact, p.outcome.1 = .ok artifact →
      Identified p.request p.resolver artifact.manifest ∧
      (p.Fresh → Faithful p.request p.resolver artifact.manifest)) ∧
    (prepareAll format fs calls).Pairwise fun p q => SameArtifact p q →
      ∀ first later, p.outcome.1 = .ok first → q.outcome.1 = .ok later →
        later.manifest = first.manifest := by
  constructor
  · intro p hp artifact h
    obtain ⟨revision, target, htarget, hload, -, hfresh⟩ :=
      (hadmitted p hp).load hformat (mem_prepareAll hp).2 h
    obtain ⟨-, -, -, hmodel, hrevision, -, hprecision, -⟩ := ArtifactStore.load_ok hload
    have hidentified : Identified p.request p.resolver artifact.manifest :=
      ⟨hmodel, ⟨revision, htarget.resolved, hrevision⟩, hprecision⟩
    refine ⟨hidentified, fun hp => ?_⟩
    obtain ⟨model, tokenizer, hmanifest⟩ := hfresh hp
    refine ⟨hidentified, ?_, ?_, ?_, ?_, ?_⟩
    all_goals rw [hmanifest]; rfl
  · induction calls generalizing fs with
    | nil => exact .nil
    | cons call rest ih =>
        have hrest : ∀ call ∈ rest, call.request.artifactRoot = root := fun call hcall =>
          hroot call (List.mem_cons_of_mem _ hcall)
        refine .cons (fun q hq hsame first later hfirst hlater => ?_) (ih _ hrest fun p hp =>
          hadmitted p (List.mem_cons_of_mem _ hp))
        obtain ⟨revision, target, htarget, hload, hexists, -⟩ :=
          (hadmitted _ List.mem_cons_self).load hformat rfl hfirst
        obtain ⟨hmodel, hprecision, revision', revision'', hresolved, hresolved', hlower⟩ := hsame
        obtain rfl := Except.ok.inj (htarget.resolved.symm.trans hresolved)
        have hdirectory := htarget.directory
        have hcall := hroot call List.mem_cons_self
        exact manifest_of_settled hformat (settled_of_load hexists hdirectory hload) hdirectory
          (fun call' hcall' => (hrest call' hcall').trans hcall.symm)
          (fun p hp => hadmitted p (List.mem_cons_of_mem _ hp)) hq hmodel.symm
          ⟨revision'', hresolved', hlower.symm⟩ hprecision.symm hlater

open ArtifactStore (textFormat textFormat_roundTrips smallRequest smallFiles willing)

def smallCall (request : ExportRequest) : ExportCall (Text ⊕ ArtifactManifest) where
  refusals := willing
  request := request
  resolver _ := .ok (List.replicate 40 'C')
  exporter _ _ := (.ok (), .ofFiles smallFiles)
  now := 0
  suffix := "k7".toList

/-- The second call asks for another score transform. -/
def twoTransforms : List (ExportCall (Text ⊕ ArtifactManifest)) :=
  [smallCall smallRequest, smallCall { smallRequest with scoreTransform := .identity }]

theorem admitted_twoTransforms :
    ∀ p ∈ prepareAll textFormat (.new 40) twoTransforms, p.Admitted := by
  intro p hp
  rcases List.mem_cons.mp hp with rfl | hp
  · refine ⟨fun _ => rfl, fun revision target htarget _ => ?_⟩
    obtain ⟨rfl, rfl⟩ := isTarget_small.unique htarget
    exact unused_small
  · cases List.mem_singleton.mp hp
    refine ⟨fun _ => rfl, fun revision target htarget hfresh => ?_⟩
    obtain ⟨rfl, rfl⟩ := isTarget_small.unique ⟨htarget.resolved, htarget.directory⟩
    have hexists : (ArtifactStore.prepareSmall smallFiles).2.pathExists smallTarget = true := by
      decide +kernel
    exact absurd (hexists.symm.trans hfresh) (by decide)

/-- Both calls return, with the transform of the first. -/
theorem twoTransforms_return : ∃ p q first later,
    prepareAll textFormat (.new 40) twoTransforms = [p, q] ∧ SameArtifact p q ∧
    q.request.scoreTransform = .identity ∧
    (p.outcome.1 = .ok first ∧ first.manifest.scoreTransform = .sigmoid) ∧
    q.outcome.1 = .ok later ∧ later.manifest.scoreTransform = .sigmoid := by
  have hcomputed : (prepareAll textFormat (.new 40) twoTransforms).map (fun p =>
      p.outcome.1.toOption.map fun artifact => artifact.manifest.scoreTransform) =
      [some .sigmoid, some .sigmoid] := by decide +kernel
  obtain ⟨p, q, hcalls, hsame, hidentity⟩ : ∃ p q,
      prepareAll textFormat (.new 40) twoTransforms = [p, q] ∧ SameArtifact p q ∧
      q.request.scoreTransform = .identity :=
    ⟨_, _, rfl, ⟨rfl, rfl, _, _, rfl, rfl, rfl⟩, rfl⟩
  rw [hcalls] at hcomputed
  obtain ⟨hfirst, hrest⟩ := List.cons.inj hcomputed
  obtain ⟨first, hfirst⟩ := toOption_map_eq_some.mp hfirst
  obtain ⟨later, hlater⟩ := toOption_map_eq_some.mp (List.cons.inj hrest).1
  exact ⟨p, q, first, later, hcalls, hsame, hidentity, hfirst, hlater⟩

theorem prepareAll_faithful_twoTransforms : ∃ first later,
    (prepareAll textFormat (.new 40) twoTransforms).map (fun p => p.outcome.1) =
      [.ok first, .ok later] ∧
    first.manifest.scoreTransform = .sigmoid ∧ later.manifest = first.manifest := by
  have hfaithful := (prepareAll_faithful textFormat (.new 40) twoTransforms
    smallRequest.artifactRoot textFormat_roundTrips (by decide) admitted_twoTransforms).2
  obtain ⟨p, q, first, later, hcalls, hsame, -, ⟨hfirst, hsigmoid⟩, hlater, -⟩ := twoTransforms_return
  rw [hcalls] at hfaithful ⊢
  refine ⟨first, later, by simp [hfirst, hlater], hsigmoid, ?_⟩
  exact (List.pairwise_cons.mp hfaithful).1 q List.mem_cons_self hsame first later hfirst hlater

theorem not_faithful_twoTransforms : ¬∀ calls : List (ExportCall (Text ⊕ ArtifactManifest)),
    (∀ call ∈ calls, call.request.artifactRoot = smallRequest.artifactRoot) →
      (∀ p ∈ prepareAll textFormat (.new 40) calls, p.Admitted) →
      ∀ p ∈ prepareAll textFormat (.new 40) calls, ∀ artifact, p.outcome.1 = .ok artifact →
        Faithful p.request p.resolver artifact.manifest := by
  intro hclaim
  have hcalls := hclaim twoTransforms (by decide) admitted_twoTransforms
  obtain ⟨p, q, first, later, hlist, -, hidentity, -, hlater, hsigmoid⟩ := twoTransforms_return
  rw [hlist] at hcalls
  have hsecond := (hcalls q (List.mem_cons_of_mem p List.mem_cons_self) later hlater).scoreTransform
  cases hsigmoid.symm.trans (hsecond.trans hidentity)

end RerankerService.Exporter
