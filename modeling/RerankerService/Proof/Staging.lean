import RerankerService.Foundation.Relocation
import RerankerService.Proof.Store

/-!
# From the staging directory to the target

The steps of one export: the directory that `mkdtemp` makes, the place that its answer leads to and
that the exporter fills, the manifest that is written there, and the rename. The two places are one
unless the path goes back up behind a link.
-/

namespace RerankerService

open Files Outcome

namespace Exporter

variable {β : Type} {format : ArtifactFormat β} {refusals : Refusals Text}
  {fs fs' base created exported written published : FileSystem Text β} {request : ExportRequest}
  {exporter : ArtifactExporter β} {now : Timestamp} {suffix resolvedRevision : Text}
  {target parent staging : Path Text} {contents : Tree Text β} {artifact : LoadedArtifact}

/-! ### The manifest -/

/-- The manifest of an export with this model and this tokenizer. -/
def manifestOf (format : ArtifactFormat β) (request : ExportRequest) (resolvedRevision : Text)
    (now : Timestamp) (model tokenizer : β) : ArtifactManifest :=
  manifest request resolvedRevision now (format.sha256 model) (format.sha256 tokenizer)

/-- The text that is written for it. -/
def manifestText (format : ArtifactFormat β) (request : ExportRequest) (resolvedRevision : Text)
    (now : Timestamp) (model tokenizer : β) : β :=
  format.dumps (manifestOf format request resolvedRevision now model tokenizer)

theorem floatless_manifestOf (format : ArtifactFormat β) (request : ExportRequest)
    (resolvedRevision : Text) (now : Timestamp) (model tokenizer : β) :
    (manifestOf format request resolvedRevision now model tokenizer).floatless = true :=
  rfl

/-- The checks do not see the order of the keys. -/
theorem validate_sortKeys {model tokenizer : β}
    (h : (manifestOf format request resolvedRevision now model tokenizer).validate =
      .ok (manifestOf format request resolvedRevision now model tokenizer)) :
    (manifestOf format request resolvedRevision now model tokenizer).sortKeys.validate =
      .ok (manifestOf format request resolvedRevision now model tokenizer).sortKeys := by
  unfold ArtifactManifest.validate at h ⊢
  split at h
  · cases h
  · rename_i hnone
    let sorted := (manifestOf format request resolvedRevision now model tokenizer).sortKeys
    have hsorted : (sorted.fieldChecks ++ sorted.contractChecks).find?
        (fun check => check.1 = false) = none := hnone
    rw [hsorted]

/-- The manifests that this export can write. -/
def Manifests (format : ArtifactFormat β) (request : ExportRequest) (resolvedRevision : Text)
    (now : Timestamp) (content : β) : Prop :=
  ∃ model tokenizer, content = manifestText format request resolvedRevision now model tokenizer

theorem isFile_of_read {path : Path Text} {content : β} (h : fs.read path = .ok content) :
    fs.isFile path = true := by
  obtain ⟨l, hl, hnode⟩ := FileSystem.read_ok h
  rw [FileSystem.isFile, hl]
  change (fs.node l).any Node.isFile = true
  rw [hnode]
  rfl

theorem exportedManifest_eq_ok {read : ArtifactManifest} :
    exportedManifest format fs request resolvedRevision now staging = .ok read ↔
      ∃ model tokenizer, fs.read (staging ++ [.name modelFile]) = .ok model ∧
        fs.read (staging ++ [.name tokenizerFile]) = .ok tokenizer ∧
        read = manifestOf format request resolvedRevision now model tokenizer ∧
        read.validate = .ok read := by
  constructor
  · intro h
    obtain ⟨_, -, h⟩ := bind_eq_ok.mp h
    obtain ⟨model, hmodel, h⟩ := bind_eq_ok.mp h
    obtain ⟨tokenizer, htokenizer, h⟩ := bind_eq_ok.mp h
    obtain rfl := ArtifactManifest.eq_of_validate h
    exact ⟨model, tokenizer, mapError_eq_ok.mp hmodel, mapError_eq_ok.mp htokenizer, rfl, h⟩
  · rintro ⟨model, tokenizer, hmodel, htokenizer, rfl, hvalid⟩
    refine bind_eq_ok.mpr ⟨(), require_eq_ok.mpr ?_, ?_⟩
    · rw [isFile_of_read hmodel, isFile_of_read htokenizer]
      rfl
    · refine bind_eq_ok.mpr ⟨model, mapError_eq_ok.mpr hmodel, ?_⟩
      exact bind_eq_ok.mpr ⟨tokenizer, mapError_eq_ok.mpr htokenizer, hvalid⟩

/-- The export gets as far as writing the manifest, and the text goes to `place`. -/
structure Describes (format : ArtifactFormat β) (refusals : Refusals Text)
    (exported : FileSystem Text β) (request : ExportRequest) (resolvedRevision : Text)
    (now : Timestamp) (exporter : ArtifactExporter β) (staging : Path Text)
    (place : Location Text) (model tokenizer : β) : Prop where
  returned : (exporter request resolvedRevision).1 = .ok ()
  readModel : exported.read (staging ++ [.name modelFile]) = .ok model
  readTokenizer : exported.read (staging ++ [.name tokenizerFile]) = .ok tokenizer
  valid : (manifestOf format request resolvedRevision now model tokenizer).validate =
    .ok (manifestOf format request resolvedRevision now model tokenizer)
  located : exported.locate (staging ++ [.name manifestFile]) = .ok place
  file : exported.node place ≠ some .directory
  parent : exported.node place.dropLast = some .directory
  permitted : refusals (.write place) = none

section Describes

variable {place : Location Text} {model tokenizer : β}

theorem Describes.writeText
    (h : Describes format refusals exported request resolvedRevision now exporter staging place model
      tokenizer) :
    ∃ written, exported.writeText refusals (staging ++ [.name manifestFile])
      (manifestText format request resolvedRevision now model tokenizer) = .ok written := by
  have hplace : place ≠ [] := by
    rintro rfl
    exact h.file exported.root
  obtain ⟨written, hput⟩ := FileSystem.put_eq_ok
    (s := .leaf (.file (manifestText format request resolvedRevision now model tokenizer))) hplace
    h.parent
  exact ⟨written, FileSystem.writeText_eq_ok.mpr ⟨place, h.located, h.file, h.permitted, hput⟩⟩

theorem Describes.node_written
    (h : Describes format refusals exported request resolvedRevision now exporter staging place model
      tokenizer)
    (hwritten : exported.writeText refusals (staging ++ [.name manifestFile])
      (manifestText format request resolvedRevision now model tokenizer) = .ok written) :
    written.node place =
        some (.file (manifestText format request resolvedRevision now model tokenizer)) ∧
      (∀ q, q ≠ place → written.node q = exported.node q) ∧
      exported.Writes (Manifests format request resolvedRevision now) written := by
  obtain ⟨l, hl, -, hself, hothers, hwrites⟩ := FileSystem.writeText_writes hwritten
    (P := Manifests format request resolvedRevision now) ⟨model, tokenizer, rfl⟩
  obtain rfl := Except.ok.inj (h.located.symm.trans hl)
  exact ⟨hself, hothers, hwrites⟩

end Describes

/-- What follows the exporter: the manifest is not written, or it is and the rename is tried. -/
theorem publish_cases {outcome : Except Error Unit} {left : FileSystem Text β}
    (hreturned : (exporter request resolvedRevision).1 = .ok ())
    (h : publish format refusals exported request resolvedRevision now staging target =
      (outcome, left)) :
    ((¬∃ place model tokenizer, Describes format refusals exported request resolvedRevision now
        exporter staging place model tokenizer) ∧ (∃ error, outcome = .error error) ∧
      left = exported) ∨
    ∃ place model tokenizer written,
      Describes format refusals exported request resolvedRevision now exporter staging place model
        tokenizer ∧
      exported.writeText refusals (staging ++ [.name manifestFile])
        (manifestText format request resolvedRevision now model tokenizer) = .ok written ∧
      (((∃ error, written.replace refusals staging target = .error error) ∧
          (∃ error, outcome = .error error) ∧ left = written) ∨
        (written.replace refusals staging target = .ok left ∧ outcome = .ok ())) := by
  unfold publish at h
  split at h
  · rename_i error hmanifest
    cases h
    refine .inl ⟨?_, ⟨_, rfl⟩, rfl⟩
    rintro ⟨place, model, tokenizer, hdescribes⟩
    rw [exportedManifest_eq_ok.mpr ⟨model, tokenizer, hdescribes.readModel,
      hdescribes.readTokenizer, rfl, hdescribes.valid⟩] at hmanifest
    cases hmanifest
  · rename_i read hmanifest
    obtain ⟨model, tokenizer, hmodel, htokenizer, rfl, hvalid⟩ := exportedManifest_eq_ok.mp hmanifest
    split at h
    · rename_i error hwrite
      cases h
      refine .inl ⟨?_, ⟨_, rfl⟩, rfl⟩
      rintro ⟨place, model', tokenizer', hdescribes⟩
      obtain ⟨written, hwritten⟩ := hdescribes.writeText
      obtain rfl := Except.ok.inj (hmodel.symm.trans hdescribes.readModel)
      obtain rfl := Except.ok.inj (htokenizer.symm.trans hdescribes.readTokenizer)
      cases hwritten.symm.trans hwrite
    · rename_i written hwritten
      obtain ⟨place, hlocated, hfile, hpermitted, hput⟩ := FileSystem.writeText_eq_ok.mp hwritten
      refine .inr ⟨place, model, tokenizer, written, ⟨hreturned, hmodel, htokenizer, hvalid, hlocated,
        hfile, FileSystem.parent_of_put hput, hpermitted⟩, hwritten, ?_⟩
      split at h
      · rename_i error hreplace
        cases h
        exact .inl ⟨⟨error, hreplace⟩, ⟨_, rfl⟩, rfl⟩
      · rename_i replaced hreplace
        cases h
        exact .inr ⟨hreplace, rfl⟩

/-! ### The directories -/

/-- The parent of the target was resolved before the staging directory was created. -/
theorem checkParent_ok {root : Path Text} (h : checkParent fs root parent = .ok ()) :
    ∃ l d, fs.resolve root = .ok l ∧ fs.resolve parent = .ok d ∧ l <+: d := by
  obtain ⟨l, hl, h⟩ := bind_eq_ok.mp h
  obtain ⟨d, hd, h⟩ := bind_eq_ok.mp h
  rw [require_eq_ok, decide_eq_true_iff] at h
  exact ⟨l, d, mapError_eq_ok.mp hl, mapError_eq_ok.mp hd, h⟩

theorem artifactDirectory_ok {root : Path Text} {modelId : Text} {backend : ArtifactBackend}
    {precision : Precision}
    (h : artifactDirectory root modelId resolvedRevision backend precision = .ok target) :
    target = target.dropLast ++ [.name precision.text] := by
  unfold artifactDirectory at h
  split at h
  · cases h
  · cases hname : safeModelDirectoryName modelId with
    | error error =>
        rw [hname] at h
        cases h
    | ok name =>
        rw [hname] at h
        obtain rfl := Except.ok.inj h
        simp

theorem precision_ne_staging (precision : Precision) (suffix : Text) :
    precision.text ≠ ".export-".toList ++ suffix := by
  intro h
  have hhead := congrArg List.head? h
  cases precision with
  | fp32 => revert hhead; simp [Precision.text]
  | fp16 => revert hhead; simp [Precision.text]

theorem stagingPath_eq (target : Path Text) (suffix : Text) :
    stagingPath target suffix =
      FileSystem.abspath target.dropLast ++ [.name (".export-".toList ++ suffix)] :=
  FileSystem.abspath_append_name _ _

/-- The directories above the target have been made. -/
def prepared (refusals : Refusals Text) (fs : FileSystem Text β) (target : Path Text) :
    FileSystem Text β :=
  (fs.makeDirectories refusals target.dropLast.inits).2

/-- `mkdtemp` makes its directory. -/
structure Makes (refusals : Refusals Text) (fs : FileSystem Text β) (request : ExportRequest)
    (target : Path Text) (suffix : Text) (created : FileSystem Text β) : Prop where
  parents : (fs.makeDirectories refusals target.dropLast.inits).1 = .ok ()
  checked : checkParent (prepared refusals fs target) request.artifactRoot target.dropLast = .ok ()
  made : (prepared refusals fs target).makeDirectory refusals (madePath target suffix) = .ok created

/-- `mkdtemp` finds a name that is not in use, neither where it makes the directory nor where the
path leads that it returns. -/
structure Unused (refusals : Refusals Text) (fs : FileSystem Text β) (target : Path Text)
    (suffix : Text) : Prop where
  made : ∀ l, (prepared refusals fs target).entry (madePath target suffix) = .ok l →
    (prepared refusals fs target).node l = none
  returned : ∀ created l,
    (prepared refusals fs target).makeDirectory refusals (madePath target suffix) = .ok created →
    created.entry (stagingPath target suffix) = .ok l →
    created.entry (madePath target suffix) = .ok l ∨ created.node l = none

theorem extends_prepared (refusals : Refusals Text) (fs : FileSystem Text β) (target : Path Text) :
    fs.Extends (prepared refusals fs target) :=
  (FileSystem.Extends.refl fs).makeDirectories

theorem prepareFresh_of_makes (h : Makes refusals fs request target suffix created)
    {outcome cleaned : Except Error Unit} {left : FileSystem Text β}
    (hinto : exportInto format refusals created request resolvedRevision now exporter
      (stagingPath target suffix) target = (outcome, left))
    (hclean : cleanUp refusals left (stagingPath target suffix) = (cleaned, fs')) :
    (outcome = .ok () ∧ cleaned = .ok () ∧
      prepareFresh format refusals fs request resolvedRevision now suffix exporter target =
        (ArtifactStore.load format fs' { root := request.artifactRoot } request.modelId
          resolvedRevision .onnxPairwise request.precision, fs')) ∨
    (¬(outcome = .ok () ∧ cleaned = .ok ()) ∧ ∃ error,
      prepareFresh format refusals fs request resolvedRevision now suffix exporter target =
        (.error error, fs')) := by
  have hmake : fs.makeDirectories refusals target.dropLast.inits =
      (.ok (), prepared refusals fs target) := Prod.ext h.parents rfl
  unfold prepareFresh
  simp only [hmake, h.checked, h.made, hinto, hclean]
  cases cleaned with
  | error error => exact .inr ⟨fun hboth => (by cases hboth.2), error, rfl⟩
  | ok =>
      cases outcome with
      | error error => exact .inr ⟨fun hboth => (by cases hboth.1), error, rfl⟩
      | ok => exact .inl ⟨rfl, rfl, rfl⟩

theorem prepareFresh_of_not_makes (format : ArtifactFormat β) (resolvedRevision : Text)
    (now : Timestamp) (exporter : ArtifactExporter β)
    (h : ¬∃ created, Makes refusals fs request target suffix created) :
    ∃ error, prepareFresh format refusals fs request resolvedRevision now suffix exporter target =
      (.error error, prepared refusals fs target) := by
  unfold prepareFresh
  cases hmake : fs.makeDirectories refusals target.dropLast.inits with
  | mk made start =>
  have hprepared : prepared refusals fs target = start := congrArg Prod.snd hmake
  rw [hprepared]
  dsimp only
  rw [hmake]
  cases made with
  | error error => exact ⟨_, rfl⟩
  | ok =>
      dsimp only
      split
      · exact ⟨_, rfl⟩
      · rename_i hchecked
        split
        · exact ⟨_, rfl⟩
        · rename_i created hcreated
          rw [← hprepared] at hchecked hcreated
          exact absurd ⟨created, congrArg Prod.fst hmake, hchecked, hcreated⟩ h

/-! ### What the exporter has filled -/

/-- The exporter has left `contents` where the answer of `mkdtemp` leads, in the directory `d'`.
`base` is what the file system has without it. -/
structure Staged (base exported : FileSystem Text β) (contents : Tree Text β)
    (root parent stagingParent : Path Text) (name : Text) (d d' : Location Text) : Prop where
  fresh : base.node (d' ++ [name]) = none
  extend : base.Extends exported
  others : ∀ q, ¬d' ++ [name] <+: q → exported.node q = base.node q
  root : ∃ l, base.resolve root = .ok l ∧ l <+: d
  parent : base.lookup parent = .ok d
  above : base.node d = some .directory
  resolved : exported.lookup stagingParent = .ok d'
  filled : ∀ q, exported.node (d' ++ [name] ++ q) = contents.node q
  directory : contents.node [] = some .directory
  found : d' = d ∨ base.lookup stagingParent = .ok d'

theorem entry_dropLast {name : Text} {l : Location Text}
    (h : fs.entry (parent ++ [.name name]) = .ok l) :
    ∃ d, fs.lookup parent = .ok d ∧ l = d ++ [name] := by
  rw [FileSystem.entry_append_name] at h
  cases hd : fs.lookup parent with
  | error error =>
      rw [hd] at h
      cases h
  | ok d =>
      rw [hd] at h
      exact ⟨d, rfl, (Except.ok.inj h).symm⟩

theorem entry_of_split {name : Text} {d : Location Text} (hsplit : target = parent ++ [.name name])
    (hd : fs.lookup parent = .ok d) : fs.entry target = .ok (d ++ [name]) := by
  rw [hsplit, FileSystem.entry_append_name, hd]
  rfl

theorem Makes.entry (h : Makes refusals fs request target suffix created) :
    ∃ root d, (prepared refusals fs target).resolve request.artifactRoot = .ok root ∧
      (prepared refusals fs target).lookup target.dropLast = .ok d ∧ root <+: d ∧
      (prepared refusals fs target).node d = some .directory ∧
      (prepared refusals fs target).node (d ++ [".export-".toList ++ suffix]) = none ∧
      created.node (d ++ [".export-".toList ++ suffix]) = some .directory ∧
      created.Vacant (d ++ [".export-".toList ++ suffix]) ∧
      (∀ q, ¬d ++ [".export-".toList ++ suffix] <+: q →
        created.node q = (prepared refusals fs target).node q) ∧
      (prepared refusals fs target).Extends created := by
  obtain ⟨root, d, hroot, hd, hwithin⟩ := checkParent_ok h.checked
  obtain ⟨l, hl, hnone, hput⟩ := FileSystem.makeDirectory_ok h.made
  obtain ⟨d', hd', rfl⟩ := entry_dropLast hl
  obtain rfl := Except.ok.inj (hd.symm.trans (FileSystem.resolve_of_lookup hd'))
  have hself := FileSystem.node_put_append hput []
  rw [List.append_nil] at hself
  have habove := FileSystem.parent_of_put hput
  rw [List.dropLast_concat] at habove
  refine ⟨root, d, hroot, hd', hwithin, habove, hnone, hself, ⟨.inr hself, fun name => ?_⟩,
    fun q hq => FileSystem.node_put_of_ne hput hq,
    (FileSystem.Extends.refl _).put (FileSystem.vacant_of_none hnone) rfl hput⟩
  rw [FileSystem.node_put_append hput]
  rfl

theorem staged_of_makes (h : Makes refusals fs request target suffix created)
    (hunused : Unused refusals fs target suffix) {source : Location Text}
    (hentry : created.entry (stagingPath target suffix) = .ok source)
    (hput : created.put source contents = .ok exported)
    (hcontents : contents.node [] = some .directory) :
    ∃ base d d', source = d' ++ [".export-".toList ++ suffix] ∧
      Staged base exported contents request.artifactRoot target.dropLast
        (FileSystem.abspath target.dropLast) (".export-".toList ++ suffix) d d' ∧
      (prepared refusals fs target).lookup target.dropLast = .ok d ∧
      ((d' = d ∧ base = prepared refusals fs target) ∨ (d' ≠ d ∧ base = created)) := by
  obtain ⟨root, d, hroot, hd, hwithin, habove, hnone, -, hvacant, hothers, hextends⟩ := h.entry
  have hreturned := hunused.returned created source h.made hentry
  rw [stagingPath_eq] at hentry
  obtain ⟨d', hd', rfl⟩ := entry_dropLast hentry
  refine ⟨if d' = d then prepared refusals fs target else created, d, d', rfl, ?_, hd, ?_⟩
  · by_cases hsame : d' = d
    · subst hsame
      rw [if_pos rfl]
      exact ⟨hnone, hextends.put (FileSystem.vacant_of_none hnone) hcontents hput, fun q hq =>
        (FileSystem.node_put_of_ne hput hq).trans (hothers q hq), ⟨root, hroot, hwithin⟩, hd, habove,
        ((FileSystem.Extends.refl created).put hvacant hcontents hput).lookup hd',
        FileSystem.node_put_append hput, hcontents, .inl rfl⟩
    · rw [if_neg hsame]
      have hfresh : created.node (d' ++ [".export-".toList ++ suffix]) = none := by
        refine hreturned.resolve_left fun hmade => hsame ?_
        rw [madePath, FileSystem.entry_append_name, hextends.lookup hd] at hmade
        exact (List.append_inj' (Except.ok.inj hmade) rfl).1.symm
      have hexported :=
        (FileSystem.Extends.refl created).put (FileSystem.vacant_of_none hfresh) hcontents hput
      exact ⟨hfresh, hexported, fun q hq => FileSystem.node_put_of_ne hput hq,
        ⟨root, hextends.resolve hroot, hwithin⟩, hextends.lookup hd,
        hextends.node d _ habove, hexported.lookup hd', FileSystem.node_put_append hput, hcontents,
        .inr hd'⟩
  · by_cases hsame : d' = d
    · exact .inl ⟨hsame, if_pos hsame⟩
    · exact .inr ⟨hsame, if_neg hsame⟩

/-- The exporter has nowhere to write. -/
theorem exportInto_of_not_filled (format : ArtifactFormat β) (refusals : Refusals Text)
    (now : Timestamp)
    (h : ¬∃ source exported, created.entry (stagingPath target suffix) = .ok source ∧
      created.put source (exporter request resolvedRevision).2 = .ok exported) :
    ∃ error, exportInto format refusals created request resolvedRevision now exporter
      (stagingPath target suffix) target = (.error error, created) := by
  unfold exportInto
  split
  · exact ⟨_, rfl⟩
  · rename_i exported hput
    obtain ⟨source, hentry, hput⟩ := bind_eq_ok.mp hput
    exact absurd ⟨source, exported, hentry, hput⟩ h

/-- The manifest is not written, or it is and the rename is tried. -/
theorem exportInto_cases {source : Location Text} {outcome : Except Error Unit}
    {left : FileSystem Text β} (hentry : created.entry staging = .ok source)
    (hput : created.put source (exporter request resolvedRevision).2 = .ok exported)
    (h : exportInto format refusals created request resolvedRevision now exporter staging target =
      (outcome, left)) :
    ((¬∃ place model tokenizer, Describes format refusals exported request resolvedRevision now
        exporter staging place model tokenizer) ∧ (∃ error, outcome = .error error) ∧
      left = exported) ∨
    ∃ place model tokenizer written,
      Describes format refusals exported request resolvedRevision now exporter staging place model
        tokenizer ∧
      exported.writeText refusals (staging ++ [.name manifestFile])
        (manifestText format request resolvedRevision now model tokenizer) = .ok written ∧
      (((∃ error, written.replace refusals staging target = .error error) ∧
          (∃ error, outcome = .error error) ∧ left = written) ∨
        (written.replace refusals staging target = .ok left ∧ outcome = .ok ())) := by
  have hfilled : ((created.entry staging).bind fun l =>
      created.put l (exporter request resolvedRevision).2) = .ok exported := by
    rw [hentry]
    exact hput
  unfold exportInto at h
  rw [hfilled] at h
  dsimp only at h
  split at h
  · rename_i error hraised
    cases h
    refine .inl ⟨?_, ⟨_, rfl⟩, rfl⟩
    rintro ⟨place, model, tokenizer, hdescribes⟩
    cases hraised.symm.trans hdescribes.returned
  · rename_i hreturned
    exact publish_cases hreturned h

section Staged

variable {root stagingParent : Path Text} {name targetName : Text} {d d' place : Location Text}
  {model tokenizer : β} {P : β → Prop}

theorem Staged.entry (h : Staged base exported contents root parent stagingParent name d d')
    {other : FileSystem Text β} (hother : exported.Keeps P other) :
    other.entry (stagingParent ++ [.name name]) = .ok (d' ++ [name]) := by
  rw [FileSystem.entry_append_name, hother.lookup h.resolved]
  rfl

theorem Staged.node_source
    (h : Staged base exported contents root parent stagingParent name d d') :
    exported.node (d' ++ [name]) = some .directory := by
  have hroot := h.filled []
  rwa [List.append_nil, h.directory] at hroot

theorem Staged.lookup_source
    (h : Staged base exported contents root parent stagingParent name d d') :
    exported.lookup (stagingParent ++ [.name name]) = .ok (d' ++ [name]) :=
  FileSystem.lookup_append_name h.resolved (exported.closed d' name (by
    rw [h.node_source]
    exact Option.some_ne_none _)) ⟨_, h.node_source, rfl⟩

/-- Without a rename, the `finally` removes the staging directory, as far as it can. -/
theorem Staged.cleanUp_left (h : Staged base exported contents root parent stagingParent name d d')
    {left : FileSystem Text β} (hleft : exported.Writes P left) {cleaned : Except Error Unit}
    (hclean : cleanUp refusals left (stagingParent ++ [.name name]) = (cleaned, fs')) :
    ∃ removed, FileSystem.Removes refusals left fs' (d' ++ [name]) removed ∧
      cleaned = removed.mapError osError := by
  have hexists : left.pathExists (stagingParent ++ [.name name]) = true := by
    rw [FileSystem.pathExists, hleft.keeps.lookup h.lookup_source]
  have hnode := (hleft.node _).directory_iff.mpr h.node_source
  unfold cleanUp at hclean
  rw [if_pos hexists] at hclean
  obtain ⟨rfl, rfl⟩ := Prod.mk.inj hclean
  exact ⟨_, FileSystem.rmtree_removes (h.entry hleft.keeps) hnode (by simp) rfl, rfl⟩

/-- Nothing stands in the way of the rename. -/
def Free (exported : FileSystem Text β) (goal place : Location Text) : Prop :=
  exported.Vacant goal ∧ ¬goal <+: place

theorem vacant_written_iff {goal : Location Text} {content : β}
    (hself : written.node place = some (.file content))
    (hothers : ∀ q, q ≠ place → written.node q = exported.node q) :
    written.Vacant goal ↔ Free exported goal place := by
  constructor
  · intro hvacant
    have hpre : ¬goal <+: place := by
      intro hpre
      cases (hvacant.eq_of_isPrefix hself hpre).2
    have hothers' : ∀ q, goal <+: q → written.node q = exported.node q := fun q hq =>
      hothers q fun heq => hpre (heq ▸ hq)
    refine ⟨?_, hpre⟩
    simpa only [FileSystem.Vacant, hothers' goal (List.prefix_refl _),
      hothers' _ (List.prefix_append goal _)] using hvacant
  · rintro ⟨hvacant, hpre⟩
    have hothers' : ∀ q, goal <+: q → written.node q = exported.node q := fun q hq =>
      hothers q fun heq => hpre (heq ▸ hq)
    simpa only [FileSystem.Vacant, hothers' goal (List.prefix_refl _),
      hothers' _ (List.prefix_append goal _)] using hvacant

theorem append_ne_append (hne : targetName ≠ name) : d' ++ [name] ≠ d ++ [targetName] := by
  intro heq
  exact hne (List.singleton_inj.mp (List.append_inj' heq rfl).2).symm

theorem Staged.not_isPrefix (h : Staged base exported contents root parent stagingParent name d d')
    (hne : targetName ≠ name) : ¬d' ++ [name] <+: d ++ [targetName] := by
  intro hpre
  rcases List.prefix_concat_iff.mp hpre with heq | hpre
  · exact append_ne_append hne heq
  · exact FileSystem.not_isPrefix_of_node h.fresh h.above hpre

/-- The rename is `put` at the target, when nothing stands in the way. -/
theorem Staged.replace_eq_ok
    (h : Staged base exported contents root parent stagingParent name d d')
    (hwrites : exported.Writes P written) (hne : targetName ≠ name)
    (hsource : d' ++ [name] ≠ []) :
    written.replace refusals (stagingParent ++ [.name name]) (parent ++ [.name targetName]) =
        .ok published ↔
      written.Vacant (d ++ [targetName]) ∧
        refusals (.rename (d' ++ [name]) (d ++ [targetName])) = none ∧
        (written.remove (d' ++ [name]) hsource).put (d ++ [targetName])
          (written.subtree (d' ++ [name])) = .ok published := by
  have hbase := h.extend.keeps.trans hwrites.keeps
  have htarget : written.entry (parent ++ [.name targetName]) = .ok (d ++ [targetName]) := by
    rw [FileSystem.entry_append_name, hbase.lookup h.parent]
    rfl
  exact FileSystem.replace_eq_ok (h.entry hwrites.keeps) htarget
    ((hwrites.node _).directory_iff.mpr h.node_source) (append_ne_append hne) hsource
    (h.not_isPrefix hne)

theorem Staged.replace_ok_iff (refusals : Refusals Text)
    (h : Staged base exported contents root parent stagingParent name d d')
    (hwrites : exported.Writes P written) (hne : targetName ≠ name) :
    (∃ published, written.replace refusals (stagingParent ++ [.name name])
        (parent ++ [.name targetName]) = .ok published) ↔
      written.Vacant (d ++ [targetName]) ∧
        refusals (.rename (d' ++ [name]) (d ++ [targetName])) = none := by
  have hsource : d' ++ [name] ≠ [] := List.append_ne_nil_of_right_ne_nil _ (by simp)
  constructor
  · rintro ⟨published, hreplace⟩
    obtain ⟨hvacant, hpermitted, -⟩ :=
      (h.replace_eq_ok hwrites hne hsource).mp hreplace
    exact ⟨hvacant, hpermitted⟩
  · rintro ⟨hvacant, hpermitted⟩
    have hparent : (written.remove (d' ++ [name]) hsource).node (d ++ [targetName]).dropLast =
        some .directory := by
      rw [List.dropLast_concat, FileSystem.node_remove,
        if_neg (FileSystem.not_isPrefix_of_node h.fresh h.above)]
      exact (hwrites.node d).directory_iff.mpr (h.extend.node d _ h.above)
    obtain ⟨published, hput⟩ :=
      FileSystem.put_eq_ok (s := written.subtree (d' ++ [name])) (by simp) hparent
    exact ⟨published,
      (h.replace_eq_ok hwrites hne hsource).mpr ⟨hvacant, hpermitted, hput⟩⟩

/-- What is known when the staging directory has become the target. -/
structure Publication (format : ArtifactFormat β) (request : ExportRequest)
    (resolvedRevision : Text) (now : Timestamp) (contents : Tree Text β)
    (exported published : FileSystem Text β) (staging target : Path Text)
    (source goal place : Location Text) (model tokenizer : β) : Prop where
  moved : source.dropLast = goal.dropLast →
    FileSystem.Moved (Manifests format request resolvedRevision now) exported published contents
      source goal
  filled : exported.lookup staging = .ok source
  before : ∀ q, exported.node (source ++ q) = contents.node q
  directory : contents.node [] = some .directory
  found : published.lookup target = .ok goal
  root : ∃ root, published.resolve request.artifactRoot = .ok root ∧ root <+: goal
  readModel : exported.read (staging ++ [.name modelFile]) = .ok model
  readTokenizer : exported.read (staging ++ [.name tokenizerFile]) = .ok tokenizer
  valid : (manifestOf format request resolvedRevision now model tokenizer).validate =
    .ok (manifestOf format request resolvedRevision now model tokenizer)
  located : exported.seek exported.depth source [.name manifestFile] = .ok place
  apart : ¬goal <+: place
  file : exported.node place ≠ some .directory
  node : ∀ q, published.node (goal ++ q) = if source ++ q = place then
      some (.file (manifestText format request resolvedRevision now model tokenizer))
    else contents.node q

theorem Staged.publication
    (h : Staged base exported contents request.artifactRoot parent stagingParent name d d')
    (hne : targetName ≠ name)
    (hdescribes : Describes format refusals exported request resolvedRevision now exporter
      (stagingParent ++ [.name name]) place model tokenizer)
    (hwritten : exported.writeText refusals (stagingParent ++ [.name name] ++ [.name manifestFile])
      (manifestText format request resolvedRevision now model tokenizer) = .ok written)
    (hreplace : written.replace refusals (stagingParent ++ [.name name])
      (parent ++ [.name targetName]) = .ok published) :
    base.Keeps (Manifests format request resolvedRevision now) published ∧
      published.node (d' ++ [name]) = none ∧
      Publication format request resolvedRevision now contents exported published
        (stagingParent ++ [.name name]) (parent ++ [.name targetName]) (d' ++ [name])
        (d ++ [targetName]) place model tokenizer := by
  obtain ⟨hself, hothers, hwrites⟩ := hdescribes.node_written hwritten
  have hsource : d' ++ [name] ≠ [] := List.append_ne_nil_of_right_ne_nil _ (by simp)
  obtain ⟨hvacant, -, hput⟩ :=
    (h.replace_eq_ok hwrites hne hsource).mp hreplace
  have hbase := h.extend.keeps.trans hwrites.keeps
  have hdirectory : (written.subtree (d' ++ [name])).node [] = some .directory := by
    change written.node (d' ++ [name] ++ []) = _
    rw [List.append_nil]
    exact (hwrites.node _).directory_iff.mpr h.node_source
  have hpublished : base.Keeps (Manifests format request resolvedRevision now) published :=
    (hbase.remove h.fresh hsource).put (hbase.vacant hvacant) hdirectory hput
  have hgone : published.node (d' ++ [name]) = none := by
    rw [FileSystem.node_put_of_ne hput, FileSystem.node_remove, if_pos (List.prefix_refl _)]
    intro hpre
    have heq := (hvacant.eq_of_isPrefix ((hwrites.node _).directory_iff.mpr h.node_source) hpre).1
    exact append_ne_append hne heq
  have hgoal : published.node (d ++ [targetName]) = some .directory := by
    have hroot := FileSystem.node_put_append hput []
    rwa [List.append_nil, hdirectory] at hroot
  have hlocated := FileSystem.seek_of_locate h.lookup_source hdescribes.located
  obtain ⟨root, hroot, hwithin⟩ := h.root
  refine ⟨hpublished, hgone, fun hsame => ?_, h.lookup_source, h.filled, h.directory, ?_,
    ⟨root, hpublished.resolve hroot, hwithin.trans (List.prefix_append _ _)⟩, hdescribes.readModel,
    hdescribes.readTokenizer, hdescribes.valid, hlocated,
    ((vacant_written_iff hself hothers).mp hvacant).2, hdescribes.file, fun q => ?_⟩
  · rw [List.dropLast_concat, List.dropLast_concat] at hsame
    subst hsame
    exact FileSystem.moved_of_replace hne h.filled h.directory hwrites hvacant hput
  · exact FileSystem.lookup_append_name (hpublished.lookup h.parent)
      (hpublished.directory h.above) ⟨_, hgoal, rfl⟩
  · rw [FileSystem.node_put_append hput]
    change written.node (d' ++ [name] ++ q) = _
    split
    · rename_i heq
      rw [heq, hself]
    · rename_i hq
      rw [hothers _ hq, h.filled]

/-- After the rename the `finally` finds nothing. -/
theorem Staged.cleanUp_published
    (h : Staged base exported contents request.artifactRoot parent stagingParent name d d')
    (hkeeps : base.Keeps P published) (hgone : published.node (d' ++ [name]) = none)
    (hpublication : Publication format request resolvedRevision now contents exported published
      (stagingParent ++ [.name name]) (parent ++ [.name targetName]) (d' ++ [name])
      (d ++ [targetName]) place model tokenizer) :
    cleanUp refusals published (stagingParent ++ [.name name]) = (.ok (), published) := by
  have hparent : ∀ l, published.lookup stagingParent = .ok l → l = d' := by
    intro l hl
    rcases h.found with rfl | hfound
    · have hmoved := hpublication.moved (by rw [List.dropLast_concat, List.dropLast_concat])
      exact hmoved.resolve_outside (FileSystem.resolve_of_lookup h.resolved)
        (FileSystem.resolve_of_lookup hl)
    · exact Except.ok.inj (hl.symm.trans (hkeeps.lookup hfound))
  have hmissing : published.pathExists (stagingParent ++ [.name name]) = false := by
    unfold FileSystem.pathExists
    split
    · rename_i l hl
      obtain ⟨m, hm, -, hnode⟩ := FileSystem.lookup_of_append hl
      rw [hparent m hm] at hnode
      exact absurd hgone hnode
    · rfl
  rw [cleanUp, hmissing, if_neg Bool.false_ne_true]

/-- The export gets to the end of the `try`: the manifest is written and the rename goes through. -/
def Completes (format : ArtifactFormat β) (refusals : Refusals Text)
    (exported : FileSystem Text β) (request : ExportRequest) (resolvedRevision : Text)
    (now : Timestamp) (exporter : ArtifactExporter β) (staging : Path Text)
    (source goal : Location Text) : Prop :=
  ∃ place model tokenizer,
    Describes format refusals exported request resolvedRevision now exporter staging place model
      tokenizer ∧
    Free exported goal place ∧ refusals (.rename source goal) = none

theorem Describes.place_unique {place' : Location Text} {model' tokenizer' : β}
    (h : Describes format refusals exported request resolvedRevision now exporter staging place model
      tokenizer)
    (h' : Describes format refusals exported request resolvedRevision now exporter staging place'
      model' tokenizer') : place' = place :=
  Except.ok.inj (h'.located.symm.trans h.located)

/-- What the `finally` finds when the rename has not happened. -/
structure Leaves (format : ArtifactFormat β) (refusals : Refusals Text)
    (exported : FileSystem Text β) (request : ExportRequest) (resolvedRevision : Text)
    (now : Timestamp) (exporter : ArtifactExporter β) (staging : Path Text)
    (left : FileSystem Text β) : Prop where
  writes : exported.Writes (Manifests format request resolvedRevision now) left
  node_iff : ∀ q, left.node q ≠ none ↔ exported.node q ≠ none ∨ ∃ model tokenizer,
    Describes format refusals exported request resolvedRevision now exporter staging q model
      tokenizer

/-- **What the attempt comes to**, once the exporter has filled the staging directory. -/
theorem prepareFresh_filled (hmakes : Makes refusals fs request target suffix created)
    {source goal : Location Text}
    (hstaged : Staged base exported (exporter request resolvedRevision).2 request.artifactRoot
      parent stagingParent name d d')
    (hentry : created.entry (stagingPath target suffix) = .ok source)
    (hput : created.put source (exporter request resolvedRevision).2 = .ok exported)
    (hstaging : stagingPath target suffix = stagingParent ++ [.name name])
    (htarget : target = parent ++ [.name targetName]) (hne : targetName ≠ name)
    (hsource : source = d' ++ [name]) (hgoal : goal = d ++ [targetName])
    {result : Except Error LoadedArtifact}
    (h : prepareFresh format refusals fs request resolvedRevision now suffix exporter target =
      (result, fs')) :
    (¬Completes format refusals exported request resolvedRevision now exporter
        (stagingPath target suffix) source goal ∧ (∃ error, result = .error error) ∧
      ∃ left removed, Leaves format refusals exported request resolvedRevision now exporter
        (stagingPath target suffix) left ∧ FileSystem.Removes refusals left fs' source removed) ∨
    (Completes format refusals exported request resolvedRevision now exporter
        (stagingPath target suffix) source goal ∧
      result = ArtifactStore.load format fs' { root := request.artifactRoot } request.modelId
        resolvedRevision .onnxPairwise request.precision ∧
      base.Keeps (Manifests format request resolvedRevision now) fs' ∧ fs'.node source = none ∧
      ∃ place model tokenizer, Publication format request resolvedRevision now
        (exporter request resolvedRevision).2 exported fs' (stagingPath target suffix) target source
        goal place model tokenizer) := by
  subst hsource hgoal
  cases hinto : exportInto format refusals created request resolvedRevision now exporter
    (stagingPath target suffix) target with
  | mk outcome left =>
  cases hclean : cleanUp refusals left (stagingPath target suffix) with
  | mk cleaned cleanedUp =>
  have hresult := prepareFresh_of_makes hmakes hinto hclean
  have hcases := exportInto_cases hentry hput hinto
  rw [hstaging] at hclean hcases ⊢
  have hrefl := FileSystem.Writes.refl (P := Manifests format request resolvedRevision now) exported
  rcases hcases with ⟨hnone, ⟨error, rfl⟩, rfl⟩ |
    ⟨place, model, tokenizer, written, hdescribes, hwritten, hcases⟩
  · -- Nothing is written.
    obtain ⟨error', heq⟩ := (hresult.resolve_left fun hok => by cases hok.1).2
    obtain ⟨rfl, rfl⟩ := Prod.mk.inj (h.symm.trans heq)
    obtain ⟨removed, hremoves, -⟩ := hstaged.cleanUp_left hrefl hclean
    refine .inl ⟨?_, ⟨_, rfl⟩, _, removed, ⟨hrefl, fun q => ?_⟩, hremoves⟩
    · rintro ⟨place, model, tokenizer, hdescribes, -⟩
      exact hnone ⟨place, model, tokenizer, hdescribes⟩
    · exact (or_iff_left fun ⟨model, tokenizer, hdescribes⟩ =>
        hnone ⟨q, model, tokenizer, hdescribes⟩).symm
  · obtain ⟨hself, hothers, hwrites⟩ := hdescribes.node_written hwritten
    have hiff := hstaged.replace_ok_iff refusals hwrites hne
    rw [vacant_written_iff hself hothers] at hiff
    rw [htarget] at hcases
    rcases hcases with ⟨⟨error, hreplace⟩, ⟨error', rfl⟩, rfl⟩ | ⟨hreplace, rfl⟩
    · -- The manifest is written, and the rename fails.
      obtain ⟨error'', heq⟩ := (hresult.resolve_left fun hok => by cases hok.1).2
      obtain ⟨rfl, rfl⟩ := Prod.mk.inj (h.symm.trans heq)
      obtain ⟨removed, hremoves, -⟩ := hstaged.cleanUp_left hwrites hclean
      refine .inl ⟨?_, ⟨_, rfl⟩, _, removed, ⟨hwrites, fun q => ?_⟩, hremoves⟩
      · rintro ⟨place', model', tokenizer', hdescribes', hfree, hpermitted⟩
        obtain rfl := hdescribes.place_unique hdescribes'
        obtain ⟨published, hok⟩ := hiff.mpr ⟨hfree, hpermitted⟩
        cases hreplace.symm.trans hok
      · by_cases hq : q = place
        · subst hq
          refine ⟨fun _ => .inr ⟨model, tokenizer, hdescribes⟩, fun _ => ?_⟩
          rw [hself]
          exact Option.some_ne_none _
        · rw [hothers q hq]
          exact (or_iff_left fun ⟨model', tokenizer', hdescribes'⟩ =>
            hq (hdescribes.place_unique hdescribes')).symm
    · obtain ⟨hfree, hpermitted⟩ := hiff.mp ⟨left, hreplace⟩
      obtain ⟨hkeeps, hgone, hpublication⟩ :=
        hstaged.publication hne hdescribes hwritten hreplace
      obtain ⟨rfl, rfl⟩ :=
        Prod.mk.inj (hclean.symm.trans (hstaged.cleanUp_published hkeeps hgone hpublication))
      obtain ⟨-, -, heq⟩ := hresult.resolve_right fun hfails => hfails.1 ⟨rfl, rfl⟩
      obtain ⟨rfl, rfl⟩ := Prod.mk.inj (h.symm.trans heq)
      refine .inr ⟨⟨place, model, tokenizer, hdescribes, hfree, hpermitted⟩, rfl, hkeeps, hgone, place,
        model, tokenizer, ?_⟩
      rwa [htarget]

end Staged

/-- Where nothing can be written, nothing is found either. -/
theorem pathExists_of_not_filled
    (h : ¬∃ source exported, created.entry (stagingPath target suffix) = .ok source ∧
      created.put source contents = .ok exported) :
    created.pathExists (stagingPath target suffix) = false := by
  unfold FileSystem.pathExists
  split
  · rename_i l hl
    rw [stagingPath_eq] at hl
    obtain ⟨d', hd', habove, -⟩ := FileSystem.lookup_of_append hl
    have hentry : created.entry (stagingPath target suffix) =
        .ok (d' ++ [".export-".toList ++ suffix]) := entry_of_split (stagingPath_eq _ _) hd'
    obtain ⟨exported, hput⟩ := FileSystem.put_eq_ok (s := contents)
      (l := d' ++ [".export-".toList ++ suffix]) (by simp) (by rwa [List.dropLast_concat])
    exact absurd ⟨_, exported, hentry, hput⟩ h
  · rfl

theorem prepareFresh_unfilled (hmakes : Makes refusals fs request target suffix created)
    (hfilled : ¬∃ source exported, created.entry (stagingPath target suffix) = .ok source ∧
      created.put source (exporter request resolvedRevision).2 = .ok exported)
    {result : Except Error LoadedArtifact}
    (h : prepareFresh format refusals fs request resolvedRevision now suffix exporter target =
      (result, fs')) :
    (∃ error, result = .error error) ∧ fs' = created := by
  obtain ⟨error, hinto⟩ := exportInto_of_not_filled format refusals now hfilled
  have hclean : cleanUp refusals created (stagingPath target suffix) = (.ok (), created) := by
    rw [cleanUp, pathExists_of_not_filled hfilled, if_neg Bool.false_ne_true]
  obtain ⟨error', heq⟩ := ((prepareFresh_of_makes hmakes hinto hclean).resolve_left fun hok => by
    cases hok.1).2
  obtain ⟨rfl, rfl⟩ := Prod.mk.inj (h.symm.trans heq)
  exact ⟨⟨_, rfl⟩, rfl⟩

/-- A call that returns has published what the exporter left. -/
theorem publication_of_prepareFresh
    (htarget : artifactDirectory request.artifactRoot request.modelId resolvedRevision .onnxPairwise
      request.precision = .ok target)
    (hunused : Unused refusals fs target suffix)
    (hcontents : (exporter request resolvedRevision).2.node [] = some .directory)
    (h : prepareFresh format refusals fs request resolvedRevision now suffix exporter target =
      (.ok artifact, fs')) :
    ArtifactStore.load format fs' { root := request.artifactRoot } request.modelId resolvedRevision
        .onnxPairwise request.precision = .ok artifact ∧
      ∃ created exported source goal place model tokenizer,
        Makes refusals fs request target suffix created ∧
        created.entry (stagingPath target suffix) = .ok source ∧
        (prepared refusals fs target).entry target = .ok goal ∧
        Publication format request resolvedRevision now (exporter request resolvedRevision).2 exported
          fs' (stagingPath target suffix) target source goal place model tokenizer := by
  have hmakes : ∃ created, Makes refusals fs request target suffix created := by
    by_contra hnone
    obtain ⟨error, heq⟩ := prepareFresh_of_not_makes format resolvedRevision now exporter hnone
    cases h.symm.trans heq
  obtain ⟨created, hmakes⟩ := hmakes
  have hfilled : ∃ source exported, created.entry (stagingPath target suffix) = .ok source ∧
      created.put source (exporter request resolvedRevision).2 = .ok exported := by
    by_contra hnone
    obtain ⟨⟨error, herror⟩, -⟩ := prepareFresh_unfilled hmakes hnone h
    cases herror
  obtain ⟨source, exported, hentry, hput⟩ := hfilled
  obtain ⟨base, d, d', hsource, hstaged, hd, -⟩ :=
    staged_of_makes hmakes hunused hentry hput hcontents
  have hsplit := artifactDirectory_ok htarget
  rcases prepareFresh_filled hmakes hstaged hentry hput (stagingPath_eq target suffix) hsplit
    (precision_ne_staging request.precision suffix) hsource rfl h with
    ⟨-, ⟨error, herror⟩, -⟩ | ⟨-, hload, -, -, place, model, tokenizer, hpublication⟩
  · cases herror
  · exact ⟨hload.symm, created, exported, source, _, place, model, tokenizer, hmakes, hentry,
      entry_of_split hsplit hd, hpublication⟩

/-- Where the staging directory is the one that was made, it is beside the target. -/
theorem Makes.dropLast_eq (h : Makes refusals fs request target suffix created)
    (htarget : artifactDirectory request.artifactRoot request.modelId resolvedRevision .onnxPairwise
      request.precision = .ok target)
    (hstraight : created.entry (stagingPath target suffix) = created.entry (madePath target suffix))
    {source goal : Location Text} (hentry : created.entry (stagingPath target suffix) = .ok source)
    (hgoal : (prepared refusals fs target).entry target = .ok goal) :
    source.dropLast = goal.dropLast := by
  obtain ⟨root, d, -, hd, -, -, -, -, -, -, hextends⟩ := h.entry
  have hmade : created.entry (madePath target suffix) = .ok (d ++ [".export-".toList ++ suffix]) :=
    entry_of_split rfl (hextends.lookup hd)
  have hplace := entry_of_split (artifactDirectory_ok htarget) hd
  obtain rfl := Except.ok.inj (hentry.symm.trans (hstraight.trans hmade))
  obtain rfl := Except.ok.inj (hgoal.symm.trans hplace)
  rw [List.dropLast_concat, List.dropLast_concat]

/-- An attempt leaves what was there, up to the content of files. -/
theorem prepareFresh_keeps
    (htarget : artifactDirectory request.artifactRoot request.modelId resolvedRevision .onnxPairwise
      request.precision = .ok target)
    (hunused : Unused refusals fs target suffix)
    (hcontents : (exporter request resolvedRevision).2.node [] = some .directory)
    {result : Except Error LoadedArtifact}
    (h : prepareFresh format refusals fs request resolvedRevision now suffix exporter target =
      (result, fs')) : fs.Keeps (Manifests format request resolvedRevision now) fs' := by
  have hprepared := extends_prepared refusals fs target
  by_cases hmakes : ∃ created, Makes refusals fs request target suffix created
  · obtain ⟨created, hmakes⟩ := hmakes
    obtain ⟨-, -, -, -, -, -, -, -, -, -, hextends⟩ := hmakes.entry
    by_cases hfilled : ∃ source exported, created.entry (stagingPath target suffix) = .ok source ∧
      created.put source (exporter request resolvedRevision).2 = .ok exported
    · obtain ⟨source, exported, hentry, hput⟩ := hfilled
      obtain ⟨base, d, d', hsource, hstaged, -, hbase⟩ :=
        staged_of_makes hmakes hunused hentry hput hcontents
      have hfs : fs.Keeps (Manifests format request resolvedRevision now) base := by
        rcases hbase with ⟨-, rfl⟩ | ⟨-, rfl⟩
        · exact hprepared.keeps
        · exact hprepared.keeps.trans hextends.keeps
      rcases prepareFresh_filled hmakes hstaged hentry hput (stagingPath_eq target suffix)
        (artifactDirectory_ok htarget) (precision_ne_staging request.precision suffix) hsource rfl h
        with ⟨-, -, left, removed, hleaves, hremoves⟩ | ⟨-, -, hkeeps, -⟩
      · rw [hsource] at hremoves
        exact hfs.trans
          ((hstaged.extend.keeps.trans hleaves.writes.keeps).removes hstaged.fresh hremoves)
      · exact hfs.trans hkeeps
    · obtain ⟨-, rfl⟩ := prepareFresh_unfilled hmakes hfilled h
      exact hprepared.keeps.trans hextends.keeps
  · obtain ⟨error, herror⟩ := prepareFresh_of_not_makes format resolvedRevision now exporter hmakes
    obtain ⟨-, rfl⟩ := Prod.mk.inj (h.symm.trans herror)
    exact hprepared.keeps

/-! ### A small target -/

open ArtifactStore (willing)

def smallTarget : Path Text :=
  [.name "models".toList, .name "BAAI%2Fbge-reranker-v2-m3".toList, .name (List.replicate 40 'c'),
    .name "onnx_pairwise".toList, .name "fp32".toList]

theorem unused_small :
    Unused willing (.new 40 : FileSystem Text (Text ⊕ ArtifactManifest)) smallTarget
      "k7".toList where
  made l hl := by
    obtain rfl := Except.ok.inj hl
    rfl
  returned created l _ hl := .inl hl

end Exporter

end RerankerService
