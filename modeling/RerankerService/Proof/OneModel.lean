import RerankerService.Proof.Answering
import RerankerService.Proof.CacheKey

/-!
# One response, one model

A response is assembled from a model captured at the start, scores of the cache and of the runtime,
and the name that the settings have at the end. These are one model when no switch happens while the
call is in flight, and the model of the initial load arrives under the name in force; a key names its
model even where it does not tell two texts apart.
-/

namespace RerankerService

open Transition Fields
open ScoreCache (asciiPrimitives)

def RerankResponse.NamesSource (response : RerankResponse) (source : Option Source) : Prop :=
  ∃ model, source = some model ∧ model.name = response.model ∧
    model.resolvedRevision = response.resolvedRevision

/-- Every score and every normalised score was produced with the model that the response names. -/
def RerankResponse.OneModel (response : RerankResponse) : Prop :=
  ∀ result ∈ response.results,
    response.NamesSource result.score.source ∧ response.NamesSource result.normalizedBy

namespace ScoreCache

/-- Names without a NUL can be read back from a key, whatever the texts are. -/
theorem identity_of_key_eq {prims : Primitives} (hsha : Function.Injective prims.sha256)
    {settings settings' : Settings} (hmodel : nul ∉ settings.model)
    (hrevision : nul ∉ settings.modelRevision) (hmodel' : nul ∉ settings'.model)
    (hrevision' : nul ∉ settings'.modelRevision) {query document query' document' : Text}
    (hkey : key prims settings' query' document' = key prims settings query document) :
    settings'.model = settings.model ∧ settings'.modelRevision = settings.modelRevision ∧
      settings'.backend = settings.backend := by
  have hpayload : payload prims settings' query' document' = payload prims settings query document :=
    hsha (List.append_cancel_left hkey)
  have hcount : ∀ t u : Text, nul ∉ t → nul ∉ u → t.count nul = u.count nul := fun t u ht hu => by
    rw [List.count_eq_zero.mpr ht, List.count_eq_zero.mpr hu]
  rw [payload_eq, payload_eq] at hpayload
  obtain ⟨hsame, hpayload⟩ := append_cons_inj_of_count (hcount _ _ hmodel' hmodel) hpayload
  obtain ⟨hsame', hpayload⟩ := append_cons_inj_of_count (hcount _ _ hrevision' hrevision) hpayload
  obtain ⟨hbackend, -⟩ := append_cons_inj_of_count
    (hcount _ _ (notMem_nul_backend _) (notMem_nul_backend _)) hpayload
  exact ⟨hsame, hsame', BackendName.text_injective hbackend⟩

end ScoreCache

namespace Application

def NamedBy (settings : Settings) (source : Option Source) : Prop :=
  ∃ model, source = some model ∧ model.Named settings

/-- An entry under plain names, of a deployment with the same backends, whose score is from the model
that its key names. -/
structure Attributed (prims : Primitives) (settings : Settings) (w : ScoreCache.Write Score) :
    Prop where
  key : w.key = ScoreCache.key prims w.settings w.query w.document
  model : nul ∉ w.settings.model
  modelRevision : nul ∉ w.settings.modelRevision
  mockModel : w.settings.mockModel = settings.mockModel
  source : NamedBy w.settings w.score.source

variable {prims : Primitives} {settings : Settings} {s s' : Application}

theorem storedRevision_eq {settings settings' : Settings}
    (hbackend : settings'.backend = settings.backend)
    (hmock : settings'.mockModel = settings.mockModel) (revision : Text) :
    settings'.storedRevision revision = settings.storedRevision revision := by
  unfold Settings.storedRevision
  rw [hbackend, hmock]

theorem NamedBy.of_eq {settings settings' : Settings} (hmodel : settings'.model = settings.model)
    (hrevision : settings'.modelRevision = settings.modelRevision)
    (hbackend : settings'.backend = settings.backend)
    (hmock : settings'.mockModel = settings.mockModel) {source : Option Source}
    (h : NamedBy settings source) : NamedBy settings' source := by
  obtain ⟨model, hsource, hnamed⟩ := h
  refine ⟨model, hsource, hnamed.name.trans hmodel.symm, hnamed.revision.trans hrevision.symm, ?_⟩
  rw [hnamed.resolved, hrevision, storedRevision_eq hbackend hmock]

theorem intrinsic_namedBy : Intrinsic NamedBy where
  settings settings settings' source hidentity h := by
    have hfixed : settings'.fixed = settings.fixed := congrArg (·.2.2) hidentity
    have hbackend : settings'.fixed.backend = settings.fixed.backend := congrArg _ hfixed
    have hmock : settings'.fixed.mockModel = settings.fixed.mockModel := congrArg _ hfixed
    exact h.of_eq (congrArg Prod.fst hidentity) (congrArg (·.2.1) hidentity) hbackend hmock
  length settings source maxLength h := by
    obtain ⟨model, hsource, hnamed⟩ := h
    cases hsource
    exact ⟨_, rfl, hnamed.name, hnamed.revision, hnamed.resolved⟩

theorem resolvedRevision_response {call : RerankCall} {m : ModelId}
    (hactive : call.activeModel = some m) (hnamed : (s.runtime.sources m).Named s.settings)
    (misses : List Nat) (scores : List (Option Score)) :
    (s.response call misses scores).resolvedRevision =
      s.settings.storedRevision s.settings.modelRevision := by
  have hresolved : (s.runtime.models m).resolvedRevision = _ := hnamed.resolved
  simp only [response, hactive, Option.map_some]
  cases hbackend : s.settings.backend with
  | legacyCrossEncoder => simp [Settings.metadata, Settings.storedRevision, hbackend]
  | onnxPairwise => simp [Settings.metadata, hbackend, hresolved]
  | jinaListwise => simp [Settings.metadata, hbackend, hresolved]
  | alibabaGte => simp [Settings.metadata, hbackend, hresolved]

theorem responds_oneModel (settings : Settings) :
    Responds NamedBy (fun _ _ => True) (fun _ response => response.OneModel) settings := by
  rintro s call misses scores rfl hknowing hfilled result hresult
  obtain ⟨model, hmodel, hnamed⟩ := hknowing.admitted.active
  obtain ⟨m, hactive, rfl⟩ := Option.map_eq_some_iff.mp hmodel
  have hresolved := resolvedRevision_response hactive hnamed misses scores
  have hnames : ∀ source, NamedBy s.settings source →
      (s.response call misses scores).NamesSource source := by
    rintro source ⟨model, hsource, hmodel⟩
    exact ⟨model, hsource, hmodel.name, hmodel.resolved.trans hresolved.symm⟩
  obtain ⟨hnormalized, -, i, hi, hscore⟩ := RerankService.mem_rankedResults hresult
  constructor
  · apply hnames
    rw [hscore]
    exact (hknowing.scoreAt hfilled hi).1
  · apply hnames
    rw [hnormalized, hactive]
    exact ⟨_, rfl, hnamed⟩

theorem namedBy_activeSource (h : s.runtime.Prepared) (hserving : s.runtime.Serving)
    (hready : s.runtime.ready = true) : NamedBy s.settings s.runtime.activeSource := by
  obtain ⟨m, hm, -, hnamed⟩ := h.named hserving hready
  refine ⟨_, ?_, hnamed⟩
  rw [ModelRuntime.activeSource, hm, Option.map_some]

theorem plain_settings (h : s.runtime.Prepared) (hserving : s.runtime.Serving)
    (hready : s.runtime.ready = true) : nul ∉ s.settings.model ∧ nul ∉ s.settings.modelRevision := by
  obtain ⟨m, -, hlt, hnamed⟩ := h.named hserving hready
  obtain ⟨hname, hrevision⟩ := hserving.plain.objects m hlt
  exact ⟨hnamed.name ▸ hname, hnamed.revision ▸ hrevision⟩

/-- A switch of models finds no call in flight, and a model that becomes active has the name in
force. -/
structure SwitchesInOrder (prims : Primitives) (s : Application) (a : Action) : Prop where
  atRest : SwitchesAtRest prims s a
  named : s.KeepsNames a

structure Unmixed (prims : Primitives) (settings : Settings) (s : Application) : Prop where
  tracked : Tracked NamedBy (fun _ _ => True) s
  answering : Answering NamedBy (fun _ _ => True) (fun _ response => response.OneModel) s
  prepared : s.runtime.Prepared
  admits : s.Admits
  mockModel : s.settings.mockModel = settings.mockModel
  entries : ∀ w ∈ s.redis, Attributed prims settings w

theorem Initial.unmixed (h : Initial settings (Attributed prims settings) s) :
    Unmixed prims settings s where
  tracked := h.tracked fun _ hw => ⟨hw.source, trivial⟩
  answering := h.answering
  prepared := h.prepared
  admits := h.admits
  mockModel := congrArg Settings.mockModel h.serving.2
  entries := h.redis

theorem Unmixed.active (h : Unmixed prims settings s) (hready : s.runtime.ready = true) :
    NamedBy s.settings s.runtime.activeSource :=
  namedBy_activeSource h.prepared h.tracked.serving hready

theorem Unmixed.hitsGood (h : Unmixed prims settings s) (hsha : Function.Injective prims.sha256)
    (id : CallId) : HitsGood NamedBy (fun _ _ => True) prims s id := by
  intro asked values i score hphase hasked hanswer hi
  obtain ⟨-, w, hw, rfl, hkey⟩ := exists_of_hit hphase hanswer hi
  have hentry := h.entries w hw
  have hready := h.admits id (by rw [hphase]; rfl)
  obtain ⟨hmodel, hrevision⟩ := plain_settings h.prepared h.tracked.serving hready
  have hsame : asked.model = s.settings.model := congrArg Prod.fst hasked
  have hsame' : asked.modelRevision = s.settings.modelRevision := congrArg (·.2.1) hasked
  have hbackend : asked.backend = s.settings.backend := congrArg (·.2.2.backend) hasked
  obtain ⟨hname, hstored, hback⟩ := ScoreCache.identity_of_key_eq hsha (hsame ▸ hmodel)
    (hsame' ▸ hrevision) hentry.model hentry.modelRevision (hentry.key.symm.trans hkey)
  refine ⟨hentry.source.of_eq ?_ ?_ ?_ ?_, trivial⟩
  · exact hsame.symm.trans hname.symm
  · exact hsame'.symm.trans hstored.symm
  · exact hbackend.symm.trans hback.symm
  · exact h.mockModel.trans hentry.mockModel.symm

theorem Unmixed.step {a : Action} (h : Unmixed prims settings s)
    (hsha : Function.Injective prims.sha256) (horder : SwitchesInOrder prims s a)
    (hstep : s.step prims a = some s') : Unmixed prims settings s' := by
  have htracked : Tracked NamedBy (fun _ _ => True) s' := by
    refine h.tracked.step (fun ⟨id, hflight⟩ => h.active (h.admits id hflight)) (fun b _ => ?_)
      (undisturbed_of_switchesAtRest intrinsic_namedBy h.tracked horder.atRest) hstep
    intro predict execution values source _ _ hlength
    exact List.forall₂_iff_zip.mpr ⟨by rw [length_tagScores, hlength], fun _ => trivial⟩
  have hmock : s'.settings.fixed.mockModel = s.settings.fixed.mockModel :=
    congrArg _ (step_fixed hstep)
  refine ⟨htracked, ?_, prepared_step h.prepared horder.named hstep, h.admits.step hstep,
    hmock.trans h.mockModel, fun w hw => ?_⟩
  · exact h.answering.step intrinsic_namedBy h.tracked h.active (responds_oneModel _)
      (fun id _ _ => h.hitsGood hsha id) horder.atRest hstep
  · rcases (step_effect hstep).redis w hw with hold | ⟨⟨id, hflight⟩, hsettings, hkey⟩
    · exact h.entries w hold
    · obtain ⟨hmodel, hrevision⟩ :=
        plain_settings h.prepared h.tracked.serving (h.admits id hflight)
      exact ⟨hkey, hsettings ▸ hmodel, hsettings ▸ hrevision,
        (congrArg Settings.mockModel hsettings).trans h.mockModel, (htracked.redis w hw).1⟩

/-- **One response, one model** in the runs that switch models while no call is in flight and keep
the names. -/
theorem one_response_one_model (hsha : Function.Injective prims.sha256)
    (hreach : Reaches (step prims) (Initial settings (Attributed prims settings))
      (SwitchesInOrder prims) s) {id : CallId} {response : RerankResponse}
    (hphase : (s.calls id).phase = .returned response) : response.OneModel := by
  have hunmixed : Unmixed prims settings s :=
    hreach.invariant (fun _ h => h.unmixed) fun _ _ _ h horder hstep => h.step hsha horder hstep
  have hcall := hunmixed.answering.calls id
  simpa only [CallAnswers, hphase] using hcall

theorem switchesInOrder_of_quiet {a : Action} (h : a.quiet) : SwitchesInOrder prims s a where
  atRest s' hstep hidentity := by
    have hmodels := (step_effect hstep).models
      (not_reconfigures_of_harmless (Action.harmless_of_quiet h))
    exact absurd (congrArg Settings.identity hmodels.settings) hidentity
  named := keepsNames_of_quiet h

theorem switchesInOrder_of_idle {a : Action} (hidle : ∀ id, (s.calls id).phase.inFlight = false)
    (hnamed : s.KeepsNames a) : SwitchesInOrder prims s a :=
  ⟨fun _ _ _ => hidle, hnamed⟩

def answeredRun : List Action :=
  [.rerank oneDocument, .lookedUp 0 (some [none])] ++ prediction ++ [.predicted 0, .written 0]

theorem one_response_one_model_after_activation : ∃ (s : Application) (response : RerankResponse),
    (s.calls 0).phase = .returned response ∧ response.results.length = 1 ∧
      response.resolvedRevision = List.replicate 40 'b' ∧ response.OneModel := by
  have hstart : Reaches (step asciiPrimitives)
      (Initial smallSettings (Attributed asciiPrimitives smallSettings))
      (SwitchesInOrder asciiPrimitives) smallApplication := .start (initial_smallApplication _)
  have hquiet : ∀ actions : List Action, actions.all Action.quiet → ∀ a ∈ actions,
      ∀ t : Application, SwitchesInOrder asciiPrimitives t a := fun actions hall a ha t =>
    switchesInOrder_of_quiet (List.all_eq_true.mp hall a ha)
  -- The candidate is checked while the initial load still awaits its model.
  have hchecked := hstart.extend (hquiet (activation.take 1) rfl) rfl
  have harrived := hchecked.next (a := .runtime (.loadReturned (.ok ModelRuntime.loadedModel)))
    (switchesInOrder_of_idle (fun _ => rfl) (keepsNames_of_arrival fun _ h => by cases h; rfl)) rfl
  have hloaded := harrived.extend (hquiet loading.tail rfl) rfl
  have hlocked := hloaded.next (a := .runtime .lockAcquired)
    (switchesInOrder_of_idle (fun _ => rfl) (keepsNames_of_lock fun h => by cases h)) rfl
  have hqueued := hlocked.extend (hquiet (activation.tail.tail.take 3) rfl) rfl
  have hactivated := hqueued.next (a := .runtime .lockAcquired)
    (switchesInOrder_of_idle (fun _ => rfl) (keepsNames_of_lock fun h => by cases h)) rfl
  have hanswered := hactivated.extend (hquiet answeredRun rfl) rfl
  obtain ⟨s, hreach, response, hphase, hlength, hresolved⟩ : ∃ s : Application,
      Reaches (step asciiPrimitives)
        (Initial smallSettings (Attributed asciiPrimitives smallSettings))
        (SwitchesInOrder asciiPrimitives) s ∧
      ∃ response, (s.calls 0).phase = .returned response ∧ response.results.length = 1 ∧
        response.resolvedRevision = List.replicate 40 'b' :=
    ⟨_, hanswered, _, rfl, rfl, rfl⟩
  exact ⟨s, response, hphase, hlength, hresolved,
    one_response_one_model Function.injective_id hreach hphase⟩

/-- The model is exchanged between the lookup of the cache and the prediction. -/
def mixedRun : List Action :=
  loading ++ [.rerank oneDocument, .lookedUp 0 (some [none])] ++ activation ++ prediction ++
    [.predicted 0, .written 0]

theorem two_models_in_one_response : ¬∀ settings s,
    Reachable (step asciiPrimitives) (Initial settings (Attributed asciiPrimitives settings)) s →
    ∀ id response, (s.calls id).phase = .returned response → response.OneModel := by
  intro hclaim
  obtain ⟨s, hrun, response, hphase, result, hresult, hcomputed, hresolved⟩ : ∃ s,
      run (step asciiPrimitives) smallApplication mixedRun = some s ∧
      ∃ response, (s.calls 0).phase = .returned response ∧ ∃ result ∈ response.results,
        result.score.source.map Source.resolvedRevision = some (List.replicate 40 'b') ∧
        response.resolvedRevision = List.replicate 40 'a' :=
    ⟨_, rfl, _, rfl, _, List.mem_cons_self, rfl, rfl⟩
  have hreach := reachable_of_run
    (initial_smallApplication (Attributed asciiPrimitives smallSettings)) hrun
  obtain ⟨model, hmodel, -, hrevision⟩ := (hclaim _ _ hreach 0 response hphase result hresult).1
  rw [hmodel] at hcomputed
  rw [Option.some.inj hcomputed, hresolved] at hrevision
  revert hrevision
  decide

end Application

end RerankerService
