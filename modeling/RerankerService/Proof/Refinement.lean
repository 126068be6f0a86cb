import RerankerService.Proof.Answering
import RerankerService.Proof.CacheKey

/-!
# The service refines plain scoring

Cache, batcher and runtime move scores around; what a client sees of a response is what it would see
if every pair were scored by itself and nothing were kept. The reference says that in its own terms.
-/

namespace RerankerService

open List (Forall₂)
open Transition
open ScoreCache (asciiPrimitives)

/-- Score every document by itself and rank. -/
def reference (f : Pair → Value) (settings : Settings) (request : RerankRequest) :
    Except Error (List (Text × Value × Nat)) := do
  let (query, prepared) ← RerankService.validate settings request
  let scored := prepared.map fun document => (f (query, document.text), document.document.id)
  let sorted := scored.insertionSort fun a b => Value.lt a.1 b.1 = false
  return (sorted.take (RerankService.topN settings request prepared.length)).mapIdx
    fun position entry => (entry.2, entry.1, position + 1)

def Result.observed (result : Result) : Text × Value × Nat :=
  (result.id, result.score.value, result.rank)

def RerankResponse.ranking (response : RerankResponse) : List (Text × Value × Nat) :=
  response.results.map Result.observed

/-- The predictor depends on the normalised texts only. -/
def Pointwise (prims : Primitives) (f : Pair → Value) : Prop :=
  ∀ pair pair' : Pair, normalizeText prims pair.1 = normalizeText prims pair'.1 →
    normalizeText prims pair.2 = normalizeText prims pair'.2 → f pair = f pair'

theorem map_mapIdx {α β γ : Type} (g : β → γ) (f : Nat → α → β) (l : List α) :
    (l.mapIdx f).map g = l.mapIdx fun i a => g (f i a) := by
  apply List.ext_getElem?
  intro i
  simp [Function.comp_def]

theorem mapIdx_map {α β γ : Type} (f : Nat → β → γ) (g : α → β) (l : List α) :
    (l.map g).mapIdx f = l.mapIdx fun i a => f i (g a) := by
  apply List.ext_getElem?
  intro i
  simp [Function.comp_def]

namespace RerankService

/-- The ranking depends on the values of the scores and nothing else about them. -/
theorem observed_rankedResults (settings : Settings) (request : RerankRequest)
    (prepared : List PreparedDocument) (normalizedBy : Option Source) (misses : List Nat)
    (scores : List (Option Score)) :
    (rankedResults settings request prepared normalizedBy misses scores).map Result.observed =
      (((prepared.mapIdx fun i document =>
          ((scoreAt scores i).value, document.document.id)).insertionSort
        fun a b => Value.lt a.1 b.1 = false).take (topN settings request prepared.length)).mapIdx
          fun position entry => (entry.2, entry.1, position + 1) := by
  have hsorted := List.map_insertionSort
    (fun a b : Nat × Score × PreparedDocument => Value.lt a.2.1.value b.2.1.value = false)
    (s := fun a b : Value × Text => Value.lt a.1 b.1 = false)
    (fun entry => (entry.2.1.value, entry.2.2.document.id))
    (prepared.mapIdx fun i document => (i, scoreAt scores i, document))
    (fun _ _ _ _ => Iff.rfl)
  rw [map_mapIdx] at hsorted
  rw [← hsorted, ← List.map_take, mapIdx_map, rankedResults, map_mapIdx]
  rfl

theorem observed_eq_reference {f : Pair → Value} {settings : Settings} {request : RerankRequest}
    {query : Text} {prepared : List PreparedDocument}
    (hvalidate : validate settings request = .ok (query, prepared))
    {scores : List (Option Score)}
    (hscores : ∀ i document, prepared[i]? = some document →
      (scoreAt scores i).value = f (query, document.text))
    (normalizedBy : Option Source) (misses : List Nat) :
    reference f settings request =
      .ok ((rankedResults settings request prepared normalizedBy misses scores).map
        Result.observed) := by
  have hscored : (prepared.mapIdx fun i document =>
        ((scoreAt scores i).value, document.document.id)) =
      prepared.map fun document => (f (query, document.text), document.document.id) := by
    apply List.ext_getElem?
    intro i
    rw [List.getElem?_mapIdx, List.getElem?_map]
    cases hdocument : prepared[i]? with
    | none => rfl
    | some document => simp [hscores i document hdocument]
  rw [observed_rankedResults, hscored, reference, hvalidate]
  rfl

end RerankService

namespace Application

def Predicted (f : Pair → Value) (pair : Pair) (score : Score) : Prop :=
  score.value = f pair

def Matches (f : Pair → Value) (settings : Settings) (request : RerankRequest)
    (response : RerankResponse) : Prop :=
  reference f settings request = .ok response.ranking

/-- The model and the settings of a response stay, the predictor answers `f`, and a lookup finds under
its keys no entry of another normalised pair. -/
structure Steady (prims : Primitives) (f : Pair → Value) (s : Application) (a : Action) : Prop where
  identity : ∀ s', s.step prims a = some s' → s'.settings.identity = s.settings.identity
  defaultTopN : ∀ s', s.step prims a = some s' → s'.settings.defaultTopN = s.settings.defaultTopN
  predictor : ∀ predict execution values, a = .runtime (.finish predict execution) →
    execution.result = .ok values → values = (s.runtime.calls predict).pairs.map f
  keys : ∀ id answer asked, a = .lookedUp id answer → (s.calls id).phase = .lookup asked →
    ∀ text ∈ (s.calls id).texts, ∀ w ∈ s.redis,
      w.key = ScoreCache.key prims asked (s.calls id).query text →
      normalizeText prims w.query = normalizeText prims (s.calls id).query ∧
        normalizeText prims w.document = normalizeText prims text

variable {prims : Primitives} {f : Pair → Value} {settings : Settings} {s s' : Application}

theorem answersPairs_predicted {a : ModelRuntime.Action} (hsteady : Steady prims f s (.runtime a)) :
    AnswersPairs (Predicted f) s.runtime a := by
  rintro predict execution values source rfl hresult -
  obtain rfl := hsteady.predictor predict execution values rfl hresult
  refine List.forall₂_iff_get.mpr ⟨?_, fun i hpair hvalue => ?_⟩
  · rw [length_tagScores, List.length_map]
  · simp [Predicted, tagScores]

/-- The reference looks at the limits and the default number of results. -/
theorem reference_congr {settings₀ : Settings} (hfixed : settings.fixed = settings₀.fixed)
    (htop : settings.defaultTopN = settings₀.defaultTopN) (request : RerankRequest) :
    reference f settings request = reference f settings₀ request := by
  have hvalidate : RerankService.validate settings request =
      RerankService.validate settings₀ request := by
    rw [← validate_fixed, hfixed, validate_fixed]
  have htopN : ∀ n, RerankService.topN settings request n = RerankService.topN settings₀ request n := by
    intro n
    rw [RerankService.topN, RerankService.topN, htop]
  simp only [reference, hvalidate, htopN]

theorem responds_matches {settings₀ : Settings} (hfixed : settings.fixed = settings₀.fixed)
    (htop : settings.defaultTopN = settings₀.defaultTopN) :
    Responds (fun _ _ => True) (Predicted f) (Matches f settings₀) settings := by
  rintro s call misses scores rfl hknowing hfilled
  have hvalidate : RerankService.validate s.settings call.request =
      .ok (call.query, call.prepared) := by
    rw [← validate_fixed]
    exact hknowing.admitted.validated
  have hscores : ∀ i document, call.prepared[i]? = some document →
      (RerankService.scoreAt scores i).value = f (call.query, document.text) := by
    intro i document hdocument
    have hlt := (List.getElem?_eq_some_iff.mp hdocument).1
    have htext : call.textAt i = document.text := by
      simp [RerankCall.textAt, RerankCall.texts, hdocument]
    exact htext ▸ (hknowing.scoreAt hfilled hlt).2
  rw [Matches, ← reference_congr hfixed htop]
  exact RerankService.observed_eq_reference hvalidate hscores _ misses

theorem hitsGood_predicted (hpointwise : Pointwise prims f) {id : CallId}
    (answer : Option (List (Option Score))) (htracked : Tracked (fun _ _ => True) (Predicted f) s)
    (hsteady : Steady prims f s (.lookedUp id answer)) :
    HitsGood (fun _ _ => True) (Predicted f) prims s id := by
  intro asked values i score hphase _ hanswer hi
  obtain ⟨htext, w, hw, rfl, hkey⟩ := exists_of_hit hphase hanswer hi
  obtain ⟨hquery, hdocument⟩ := hsteady.keys id answer asked rfl hphase _ htext w hw hkey
  have hvalue : w.score.value = f (w.query, w.document) := (htracked.redis w hw).2
  exact ⟨trivial, hvalue.trans (hpointwise _ _ hquery hdocument)⟩

/-- An entry that an earlier process wrote with the same predictor. -/
def Earlier (f : Pair → Value) (w : ScoreCache.Write Score) : Prop :=
  w.score.value = f (w.query, w.document)

theorem intrinsic_true : Intrinsic fun _ _ => True :=
  ⟨fun _ _ _ _ _ => trivial, fun _ _ _ _ => trivial⟩

structure Faithful (f : Pair → Value) (settings : Settings) (s : Application) : Prop where
  tracked : Tracked (fun _ _ => True) (Predicted f) s
  answering : Answering (fun _ _ => True) (Predicted f) (Matches f settings) s
  fixed : s.settings.fixed = settings.fixed
  defaultTopN : s.settings.defaultTopN = settings.defaultTopN

theorem Initial.faithful (h : Initial settings (Earlier f) s) : Faithful f settings s where
  tracked := h.tracked fun _ hw => ⟨trivial, hw⟩
  answering := h.answering
  fixed := congrArg Settings.fixed h.serving.2
  defaultTopN := congrArg Settings.defaultTopN h.serving.2

theorem Faithful.step {a : Action} (h : Faithful f settings s) (hpointwise : Pointwise prims f)
    (hsteady : Steady prims f s a) (hstep : s.step prims a = some s') : Faithful f settings s' where
  tracked := by
    refine h.tracked.step (fun _ => trivial) (fun b ha => ?_) (fun _ _ _ _ _ => trivial) hstep
    subst ha
    exact answersPairs_predicted hsteady
  answering := h.answering.step intrinsic_true h.tracked (fun _ => trivial)
    (responds_matches h.fixed h.defaultTopN)
    (fun id answer ha => hitsGood_predicted hpointwise answer h.tracked (ha ▸ hsteady))
    (fun s' hs' hidentity => absurd (hsteady.identity s' hs') hidentity) hstep
  fixed := (step_fixed hstep).trans h.fixed
  defaultTopN := (hsteady.defaultTopN s' hstep).trans h.defaultTopN

theorem lookedUp_none {id : CallId} {asked : Settings} (hphase : (s.calls id).phase = .lookup asked) :
    ∃ s', s.lookedUp prims id none = some s' ∧
      s.lookedUp prims id (some (List.replicate (s.calls id).texts.length none)) = some s' := by
  have hanswers : answers s.redis (ScoreCache.keys prims asked (s.calls id).query (s.calls id).texts)
      (List.replicate (s.calls id).texts.length none) := by
    simp only [answers, Bool.and_eq_true, decide_eq_true_iff, List.all_eq_true]
    refine ⟨by simp [ScoreCache.keys], fun entry hentry => ?_⟩
    rw [List.eq_of_mem_replicate (List.of_mem_zip hentry).2]
    rfl
  refine ⟨s.infer id (ScoreCache.getMany asked (s.calls id).texts none), ?_, ?_⟩
  · simp only [lookedUp, hphase, Option.all_none, if_true]
  · simp only [lookedUp, hphase, Option.all_some, hanswers, if_true, ScoreCache.getMany, ite_self]

/-- What a client of the application can rely on. A write that succeeds or fails is followed by the
response, unless the predictor itself says NaN. -/
structure Refines (prims : Primitives) (f : Pair → Value) (settings : Settings) (s : Application) :
    Prop where
  responses : ∀ id response, (s.calls id).phase = .returned response →
    Matches f settings (s.calls id).request response
  batches : ∀ batch ∈ s.batches, ∀ r, batch.outcome = some (.ok r) →
    Forall₂ (Matches f settings) batch.requests r.responses
  lookups : ∀ id asked, (s.calls id).phase = .lookup asked →
    ∃ s', s.lookedUp prims id none = some s' ∧
      s.lookedUp prims id (some (List.replicate (s.calls id).texts.length none)) = some s'
  writes : ∀ id misses scores, (s.calls id).phase = .writing misses scores →
    ∃ s', s.written id = some s' ∧ ((∃ response, (s'.calls id).phase = .returned response) ∨
      ∃ text ∈ (s.calls id).texts, f ((s.calls id).query, text) = .nan)

/-- **Cache, batcher and runtime refine plain scoring**, and a failure of Redis is no failure of a
request. -/
theorem refines_reference (hpointwise : Pointwise prims f)
    (hreach : Reaches (step prims) (Initial settings (Earlier f)) (Steady prims f) s) :
    Refines prims f settings s := by
  have hfaithful : Faithful f settings s :=
    hreach.invariant (fun _ h => h.faithful) fun _ _ _ h hsteady hstep =>
      h.step hpointwise hsteady hstep
  refine ⟨fun id response hphase => ?_, fun batch hbatch => ?_, fun id asked hphase => ?_,
    fun id misses scores hphase => ?_⟩
  · have hcall := hfaithful.answering.calls id
    simpa only [CallAnswers, hphase] using hcall
  · exact (hfaithful.answering.batches batch hbatch).responses
  · exact lookedUp_none hphase
  · refine ⟨s.respond id misses scores, by simp only [written, hphase], ?_⟩
    have hcall := hfaithful.answering.calls id
    simp only [CallAnswers, hphase] at hcall
    rw [respond, calls_setPhase]
    by_cases hvalid : (s.response (s.calls id) misses scores).valid
    · exact .inl ⟨_, if_pos hvalid⟩
    · obtain ⟨i, hi, hnan⟩ := nan_of_invalid (Bool.not_eq_true _ ▸ hvalid)
      have hscore : (RerankService.scoreAt scores i).value = _ := (hcall.1.scoreAt hcall.2 hi).2
      have htext : (s.calls id).textAt i ∈ (s.calls id).texts := by
        have hlt : i < (s.calls id).texts.length := by rwa [RerankCall.texts, List.length_map]
        rw [RerankCall.textAt, List.getElem?_eq_getElem hlt]
        exact List.getElem_mem hlt
      exact .inr ⟨_, htext, hscore.symm.trans hnan⟩

def countCharacters (pair : Pair) : Value :=
  .finite (normalizeText asciiPrimitives pair.2).length

theorem pointwise_countCharacters : Pointwise asciiPrimitives countCharacters := by
  intro pair pair' _ hdocument
  rw [countCharacters, hdocument, countCharacters]

/-- No answer of the environment: neither Redis nor the predictor says anything. -/
def Action.unanswering : Action → Bool
  | .lookedUp _ _ | .runtime (.finish _ _) => false
  | a => a.harmless

theorem steady_of_unanswering {a : Action} (h : a.unanswering) : Steady prims f s a := by
  have hharmless : a.harmless := by
    unfold Action.unanswering at h
    split at h
    · cases h
    · cases h
    · exact h
  have hmodels := fun s' (hstep : s.step prims a = some s') =>
    (step_effect hstep).models (not_reconfigures_of_harmless hharmless)
  refine ⟨fun s' hstep => ?_, fun s' hstep => ?_, ?_, ?_⟩
  · exact congrArg Settings.identity (hmodels s' hstep).settings
  · exact congrArg Settings.defaultTopN (hmodels s' hstep).settings
  · rintro predict execution values rfl
    cases h
  · rintro id answer asked rfl
    cases h

theorem steady_of_finish {predict : PredictId} {execution : Execution}
    (h : ∀ values, execution.result = .ok values → values = (s.runtime.calls predict).pairs.map f) :
    Steady prims f s (.runtime (.finish predict execution)) := by
  have hmodels := fun s' (hstep : s.step prims (.runtime (.finish predict execution)) = some s') =>
    (step_effect hstep).models (not_reconfigures_of_harmless rfl)
  refine ⟨fun s' hstep => ?_, fun s' hstep => ?_, ?_, ?_⟩
  · exact congrArg Settings.identity (hmodels s' hstep).settings
  · exact congrArg Settings.defaultTopN (hmodels s' hstep).settings
  · rintro _ _ values ⟨⟩
    exact h values
  · rintro id answer asked ⟨⟩

theorem steady_of_lookedUp {id : CallId} {answer : Option (List (Option Score))}
    (h : ((s.calls id).texts.all fun text => s.redis.all fun w =>
      normalizeText prims w.query = normalizeText prims (s.calls id).query ∧
        normalizeText prims w.document = normalizeText prims text) = true) :
    Steady prims f s (.lookedUp id answer) := by
  have hmodels := fun s' (hstep : s.step prims (.lookedUp id answer) = some s') =>
    (step_effect hstep).models (not_reconfigures_of_harmless rfl)
  refine ⟨fun s' hstep => ?_, fun s' hstep => ?_, ?_, ?_⟩
  · exact congrArg Settings.identity (hmodels s' hstep).settings
  · exact congrArg Settings.defaultTopN (hmodels s' hstep).settings
  · rintro predict execution values ⟨⟩
  · rintro _ _ asked ⟨⟩ _ text htext w hw _
    exact of_decide_eq_true (List.all_eq_true.mp (List.all_eq_true.mp h text htext) w hw)

/-- What the first call of the run computes for its only document. -/
def firstScore : Score where
  value := .finite 1
  source := some smallSource
  pair := some (['q'], ['d'])

/-- The second call is part of a batch and finds the score of the first one. -/
theorem refines_reference_cached : ∃ (s : Application) (response : RerankResponse),
    (s.calls 1).phase = .returned response ∧ response.usage.cacheHits = 1 ∧
      Refines asciiPrimitives countCharacters smallSettings s := by
  have hstart : Reaches (step asciiPrimitives) (Initial smallSettings (Earlier countCharacters))
      (Steady asciiPrimitives countCharacters) smallApplication :=
    .start (initial_smallApplication _)
  have hquiet : ∀ actions : List Action, actions.all Action.unanswering → ∀ a ∈ actions,
      ∀ t : Application, Steady asciiPrimitives countCharacters t a := fun actions hall a ha t =>
    steady_of_unanswering (List.all_eq_true.mp hall a ha)
  have hasked := hstart.extend (hquiet (loading ++ [.rerank oneDocument]) rfl) rfl
  have hmissed := hasked.next (a := .lookedUp 0 none) (steady_of_lookedUp rfl) rfl
  have hbegun := hmissed.extend (hquiet (prediction.take 2) rfl) rfl
  have hfinished := hbegun.next (a := .runtime (.finish 0 { result := .ok [.finite 1] }))
    (steady_of_finish (by rintro values ⟨⟩; rfl)) rfl
  have hbatch := hfinished.extend
    (hquiet [.predicted 0, .written 0, .rerankBatch [oneDocument], .beginCall 1] rfl) rfl
  -- Redis answers with the entry that the first call wrote.
  have hhit := hbatch.next (a := .lookedUp 1 (some [some firstScore])) (steady_of_lookedUp rfl) rfl
  have hgathered := hhit.extend (hquiet [.gathered 0] rfl) rfl
  obtain ⟨s, hreach, response, hphase, hhits⟩ : ∃ s : Application,
      Reaches (step asciiPrimitives) (Initial smallSettings (Earlier countCharacters))
        (Steady asciiPrimitives countCharacters) s ∧
      ∃ response, (s.calls 1).phase = .returned response ∧ response.usage.cacheHits = 1 :=
    ⟨_, hgathered, _, rfl, rfl⟩
  exact ⟨s, response, hphase, hhits, refines_reference pointwise_countCharacters hreach⟩

end Application

end RerankerService
