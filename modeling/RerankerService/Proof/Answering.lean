import RerankerService.Foundation.Outcome
import RerankerService.Proof.Configuration

/-!
# From a request to its response

A call keeps its scores in a list with a gap for each miss. The invariant says of every call between
its lookup and its response that its locals belong to the request, that the model it captured suits
the settings, and that the scores it knows are good; `A request response` is then whatever follows
for a response assembled from such locals.
-/

namespace RerankerService

open List (Forall₂)

namespace RerankService

variable {σ : Type} {Q : Nat → σ → Prop} {scores : List (Option σ)} {misses : List Nat}
  {inferred : List σ}

theorem mem_missing {i : Nat} : i ∈ missing scores ↔ scores[i]? = some none := by
  unfold missing
  rw [List.mem_filter, List.mem_range]
  constructor
  · rintro ⟨hlt, hnone⟩
    rw [List.getElem?_eq_getElem hlt] at hnone ⊢
    simpa using hnone
  · intro hmissing
    obtain ⟨hlt, hnone⟩ := List.getElem?_eq_some_iff.mp hmissing
    exact ⟨hlt, by simp [hmissing]⟩

theorem length_scatter (scores : List (Option σ)) (misses : List Nat) (inferred : List σ) :
    (scatter scores misses inferred).length = scores.length := by
  unfold scatter
  induction misses.zip inferred generalizing scores with
  | nil => rfl
  | cons entry rest ih => exact (ih _).trans List.length_set

theorem getElem?_scatter (hinferred : Forall₂ Q misses inferred)
    (hlt : ∀ i ∈ misses, i < scores.length) (i : Nat) :
    i ∉ misses ∧ (scatter scores misses inferred)[i]? = scores[i]? ∨
      ∃ score, (scatter scores misses inferred)[i]? = some (some score) ∧ Q i score := by
  induction hinferred generalizing scores with
  | nil => exact .inl ⟨List.not_mem_nil, rfl⟩
  | @cons m score misses inferred hm hrest ih =>
      have hset : ∀ j ∈ misses, j < (scores.set m (some score)).length := fun j hj => by
        rw [List.length_set]
        exact hlt j (List.mem_cons_of_mem m hj)
      change i ∉ m :: misses ∧ (scatter (scores.set m (some score)) misses inferred)[i]? = _ ∨
        ∃ v, (scatter (scores.set m (some score)) misses inferred)[i]? = _ ∧ _
      rcases ih hset with ⟨hnot, hkept⟩ | hgot
      · by_cases him : i = m
        · subst him
          refine .inr ⟨score, ?_, hm⟩
          rw [hkept, List.getElem?_set_self (hlt i List.mem_cons_self)]
        · refine .inl ⟨by simp [him, hnot], ?_⟩
          rw [hkept, List.getElem?_set_ne (Ne.symm him)]
      · exact .inr hgot

theorem missing_scatter (hinferred : Forall₂ Q (missing scores) inferred) :
    missing (scatter scores (missing scores) inferred) = [] := by
  rw [List.eq_nil_iff_forall_not_mem]
  intro i hi
  rw [mem_missing] at hi
  have hlt : ∀ j ∈ missing scores, j < scores.length := fun j hj =>
    (List.getElem?_eq_some_iff.mp (mem_missing.mp hj)).1
  rcases getElem?_scatter hinferred hlt i with ⟨hnot, hkept⟩ | ⟨score, hscore, -⟩
  · exact hnot (mem_missing.mpr (hkept ▸ hi))
  · rw [hscore] at hi
    cases hi

theorem mem_rankedResults {settings : Settings} {request : RerankRequest}
    {prepared : List PreparedDocument} {normalizedBy : Option Source} {misses : List Nat}
    {scores : List (Option Score)} {result : Result}
    (h : result ∈ rankedResults settings request prepared normalizedBy misses scores) :
    result.normalizedBy = normalizedBy ∧
      result.normalizedScore = settings.normalized normalizedBy result.score.value ∧
      ∃ i < prepared.length, result.score = scoreAt scores i := by
  obtain ⟨position, hposition, rfl⟩ := List.mem_mapIdx.mp h
  refine ⟨rfl, rfl, ?_⟩
  have hranked := (List.take_sublist _ _).subset (List.getElem_mem hposition)
  obtain ⟨i, hi, hentry⟩ := List.mem_mapIdx.mp ((List.mem_insertionSort _).mp hranked)
  exact ⟨i, hi, by rw [← hentry]⟩

end RerankService

/-- Only a NaN has a normalized score out of range. -/
theorem inRange_normalized (settings : Settings) (model : Option Source) {rawScore : Value}
    (h : rawScore ≠ .nan) : (settings.normalized model rawScore).all Normalized.inRange := by
  have hsigmoid : (Normalized.sigmoid rawScore).inRange = true := decide_eq_true h
  unfold Settings.normalized
  split
  · exact hsigmoid
  · exact hsigmoid
  · split
    · exact hsigmoid
    · rfl
  · split
    · split
      · rename_i hrange
        exact decide_eq_true hrange
      · rfl
    · rfl

/-- The settings without those that a patch or a switch of models changes. -/
def Settings.fixed (settings : Settings) : Settings :=
  { settings with
    model := []
    modelRevision := []
    maxLength := 0
    maxConcurrency := 0
    dynamicBatching := false
    maxBatchPairs := 0
    defaultTopN := 0 }

def Settings.identity (settings : Settings) : Text × Text × Settings :=
  (settings.model, settings.modelRevision, settings.fixed)

theorem prepare_fixed (settings : Settings) (truncate : Bool) (total : Nat)
    (documents : List Document) :
    RerankService.prepare settings.fixed truncate total documents =
      RerankService.prepare settings truncate total documents := by
  induction documents generalizing total with
  | nil => rfl
  | cons document rest ih =>
      unfold RerankService.prepare
      simp only [ih]
      rfl

theorem validate_fixed (settings : Settings) (request : RerankRequest) :
    RerankService.validate settings.fixed request = RerankService.validate settings request := by
  unfold RerankService.validate
  simp only [prepare_fixed]
  rfl

namespace Application

/-- Whether a source suits the settings depends on the model they name and not on lengths. -/
structure Intrinsic (M : Settings → Option Source → Prop) : Prop where
  settings : ∀ settings settings' source, settings'.identity = settings.identity →
    M settings source → M settings' source
  length : ∀ settings source maxLength, M settings (some source) →
    M settings (some { source with maxLength })

variable (M : Settings → Option Source → Prop) (P : Pair → Score → Prop)
  (A : RerankRequest → RerankResponse → Prop)

/-- The locals of a call that passed the checks. -/
structure Admitted (r : ModelRuntime) (call : RerankCall) : Prop where
  validated : RerankService.validate r.settings.fixed call.request = .ok (call.query, call.prepared)
  loaded : ∀ m, call.activeModel = some m → m < r.loaded
  active : M r.settings (call.activeModel.map r.sources)

structure Knowing (r : ModelRuntime) (call : RerankCall) (scores : List (Option Score)) : Prop where
  admitted : Admitted M r call
  length : scores.length = call.prepared.length
  good : ∀ i score, scores[i]? = some (some score) →
    Good M P r.settings (call.query, call.textAt i) score

def CallAnswers (r : ModelRuntime) (call : RerankCall) : Prop :=
  match call.phase with
  | .lookup asked => Admitted M r call ∧ asked.identity = r.settings.identity
  | .direct scores _ | .batched scores _ => Knowing M P r call scores
  | .writing _ scores => Knowing M P r call scores ∧ RerankService.missing scores = []
  | .returned response => A call.request response
  | .created | .raised _ => True

def CreatedFor (s : Application) (request : RerankRequest) (id : CallId) : Prop :=
  id < s.created ∧ (s.calls id).request = request

/-- An open batch has a call for each request, and the responses of a finished one answer its
requests in order. -/
structure BatchAnswers (s : Application) (batch : BatchCall) : Prop where
  calls : batch.outcome = none → Forall₂ s.CreatedFor batch.requests batch.calls
  responses : ∀ r, batch.outcome = some (.ok r) → Forall₂ A batch.requests r.responses

structure Answering (s : Application) : Prop where
  calls : ∀ id, CallAnswers M P A s.runtime (s.calls id)
  batches : ∀ batch ∈ s.batches, BatchAnswers A s batch

def Responds (settings : Settings) : Prop :=
  ∀ (s : Application) call misses scores, s.settings = settings →
    Knowing M P s.runtime call scores → RerankService.missing scores = [] →
    A call.request (s.response call misses scores)

def HitsGood (prims : Primitives) (s : Application) (id : CallId) : Prop :=
  ∀ asked values i score, (s.calls id).phase = .lookup asked →
    asked.identity = s.settings.identity → (s.lookedUp prims id (some values)).isSome →
    values[i]? = some (some score) →
    Good M P s.settings ((s.calls id).query, (s.calls id).textAt i) score

/-- A response that the schema refuses has a NaN among its scores. -/
theorem nan_of_invalid {s : Application} {call : RerankCall} {misses : List Nat}
    {scores : List (Option Score)} (h : (s.response call misses scores).valid = false) :
    ∃ i < call.prepared.length, (RerankService.scoreAt scores i).value = .nan := by
  unfold RerankResponse.valid at h
  obtain ⟨result, hresult, hinvalid⟩ := List.all_eq_false.mp h
  obtain ⟨-, hnormalized, i, hi, hscore⟩ := RerankService.mem_rankedResults hresult
  refine ⟨i, hi, ?_⟩
  rw [← hscore]
  by_contra hvalue
  refine hinvalid ?_
  rw [Result.valid, hnormalized]
  exact inRange_normalized _ _ hvalue

/-- The models that a call may have captured go on to suit the settings. -/
structure KeepsModels (r r' : ModelRuntime) : Prop where
  identity : r'.settings.identity = r.settings.identity
  loaded : r.loaded ≤ r'.loaded
  sources : ∀ m < r.loaded, M r.settings (some (r.sources m)) → M r'.settings (some (r'.sources m))

variable {M P A} {s s' : Application} {r r' : ModelRuntime} {call : RerankCall}
  {scores : List (Option Score)}

/-! ### What does not disturb a call -/

theorem KeepsModels.of_sameModels (h : r.SameModels r') : KeepsModels M r r' where
  identity := congrArg Settings.identity h.settings
  loaded := h.loaded
  sources m hm hsource := by
    rw [h.sources m hm, h.settings]
    exact hsource

theorem patchRuntime_identity {patch : RuntimePatch} (h : s.patchRuntime patch = some s') :
    s'.settings.identity = s.settings.identity := by
  obtain ⟨b, -, rfl⟩ := Option.map_eq_some_iff.mp h
  change (ModelRuntime.settings (ModelRuntime.reconfigure _ _ _)).identity = _
  rw [ModelRuntime.reconfigure_settings]
  rfl

theorem step_fixed {prims : Primitives} {a : Action} (h : s.step prims a = some s') :
    s'.settings.fixed = s.settings.fixed := by
  by_cases hconfigures : s.Reconfigures a
  · cases a with
    | patchRuntime patch => exact congrArg (·.2.2) (patchRuntime_identity h)
    | runtime b =>
        simp only [step] at h
        split at h
        · rename_i hbackground
          obtain ⟨r, hr, rfl⟩ := Option.map_eq_some_iff.mp h
          have hconstants := ModelRuntime.constants_eq hbackground hr
          calc r.settings.fixed = r.frame.constants.fixed := rfl
            _ = s.runtime.frame.constants.fixed := by rw [hconstants]
            _ = s.settings.fixed := rfl
        · cases h
    | _ => exact hconfigures.elim
  · exact congrArg Settings.fixed ((step_effect h).models hconfigures).settings

/-- A change of the configuration after which the settings still name the same model. -/
theorem KeepsModels.of_reconfigures {prims : Primitives} {a : Action} (hM : Intrinsic M)
    (hconfigures : s.Reconfigures a) (hstep : s.step prims a = some s')
    (hidentity : s'.settings.identity = s.settings.identity) :
    KeepsModels M s.runtime s'.runtime := by
  cases a with
  | patchRuntime patch =>
      obtain ⟨settings, maxConcurrency, maxLength, b, -, -, -, -, -, -, rfl⟩ := patchRuntime_cases hstep
      have hframe :=
        ModelRuntime.reconfigure_frame { s.runtime with settings } maxConcurrency maxLength
      refine ⟨hidentity, (congrArg ModelRuntime.Frame.loaded hframe).ge, fun m _ hsource => ?_⟩
      apply hM.settings _ _ _ hidentity
      have hsources := congrFun (congrArg ModelRuntime.Frame.sources hframe) m
      change M s.settings (some (({ s.runtime with settings }.reconfigure maxConcurrency
        maxLength).frame.sources m))
      rw [hsources]
      simp only
      split
      · exact hM.length _ _ _ hsource
      · exact hsource
  | runtime b =>
      simp only [step] at hstep
      split at hstep
      · obtain ⟨r, hr, rfl⟩ := Option.map_eq_some_iff.mp hstep
        have hframe := frame_of_switches hconfigures hr
        refine ⟨hidentity, (congrArg ModelRuntime.Frame.loaded hframe).ge, fun m _ hsource => ?_⟩
        apply hM.settings _ _ _ hidentity
        have hsources : r.sources = s.runtime.sources :=
          congrArg ModelRuntime.Frame.sources hframe
        change M s.settings (some (r.sources m))
        rwa [hsources]
      · cases hstep
  | _ => exact hconfigures.elim

theorem Admitted.keeps (hM : Intrinsic M) (hkeeps : KeepsModels M r r') (h : Admitted M r call) :
    Admitted M r' call := by
  refine ⟨?_, fun m hm => (h.loaded m hm).trans_le hkeeps.loaded, ?_⟩
  · have hfixed : r'.settings.fixed = r.settings.fixed := congrArg (·.2.2) hkeeps.identity
    rw [hfixed]
    exact h.validated
  · have hactive := h.active
    cases hm : call.activeModel with
    | none =>
        rw [hm] at hactive
        exact hM.settings _ _ _ hkeeps.identity hactive
    | some m =>
        rw [hm] at hactive
        exact hkeeps.sources m (h.loaded m hm) hactive

theorem Knowing.keeps (hM : Intrinsic M) (hkeeps : KeepsModels M r r')
    (h : Knowing M P r call scores) : Knowing M P r' call scores where
  admitted := h.admitted.keeps hM hkeeps
  length := h.length
  good i score hscore :=
    ⟨hM.settings _ _ _ hkeeps.identity (h.good i score hscore).1, (h.good i score hscore).2⟩

/-- The phase is not a local. -/
theorem Knowing.phase (h : Knowing M P r call scores) (phase : RerankPhase) :
    Knowing M P r { call with phase } scores :=
  ⟨⟨h.admitted.validated, h.admitted.loaded, h.admitted.active⟩, h.length, h.good⟩

theorem Knowing.scoreAt (h : Knowing M P r call scores)
    (hfilled : RerankService.missing scores = []) {i : Nat} (hi : i < call.prepared.length) :
    Good M P r.settings (call.query, call.textAt i) (RerankService.scoreAt scores i) := by
  have hlt : i < scores.length := h.length ▸ hi
  cases hvalue : scores[i] with
  | none =>
      have hmissing : i ∈ RerankService.missing scores :=
        RerankService.mem_missing.mpr (List.getElem?_eq_some_iff.mpr ⟨hlt, hvalue⟩)
      rw [hfilled] at hmissing
      cases hmissing
  | some score =>
      have hat : scores[i]? = some (some score) := List.getElem?_eq_some_iff.mpr ⟨hlt, hvalue⟩
      have hsame : RerankService.scoreAt scores i = score := by simp [RerankService.scoreAt, hat]
      rw [hsame]
      exact h.good i score hat

theorem CallAnswers.keeps (hM : Intrinsic M) (hkeeps : call.phase.inFlight → KeepsModels M r r')
    (h : CallAnswers M P A r call) : CallAnswers M P A r' call := by
  unfold CallAnswers at h ⊢
  cases hphase : call.phase with
  | lookup asked =>
      have hmodels := hkeeps (by rw [hphase]; rfl)
      simp only [hphase] at h ⊢
      exact ⟨h.1.keeps hM hmodels, h.2.trans hmodels.identity.symm⟩
  | direct scores predict =>
      simp only [hphase] at h ⊢
      exact h.keeps hM (hkeeps (by rw [hphase]; rfl))
  | batched scores job =>
      simp only [hphase] at h ⊢
      exact h.keeps hM (hkeeps (by rw [hphase]; rfl))
  | writing misses scores =>
      simp only [hphase] at h ⊢
      exact ⟨h.1.keeps hM (hkeeps (by rw [hphase]; rfl)), h.2⟩
  | returned response =>
      simp only [hphase] at h ⊢
      exact h
  | created => trivial
  | raised error => trivial

theorem BatchAnswers.keeps {batch : BatchCall} (hcreated : s.created ≤ s'.created)
    (hrequests : ∀ id < s.created, (s'.calls id).request = (s.calls id).request)
    (h : BatchAnswers A s batch) : BatchAnswers A s' batch where
  calls hopen := (h.calls hopen).imp fun _ id hfor =>
    ⟨hfor.1.trans_le hcreated, (hrequests id hfor.1).trans hfor.2⟩
  responses := h.responses

theorem Answering.keeps (h : Answering M P A s) (hM : Intrinsic M)
    (hkeeps : (∃ id, (s.calls id).phase.inFlight) → KeepsModels M s.runtime s'.runtime)
    (hcalls : s'.calls = s.calls) (hcreated : s'.created = s.created)
    (hbatches : s'.batches = s.batches) : Answering M P A s' where
  calls id := by
    rw [hcalls]
    exact (h.calls id).keeps hM fun hflight => hkeeps ⟨id, hflight⟩
  batches batch hbatch := by
    rw [hbatches] at hbatch
    exact (h.batches batch hbatch).keeps hcreated.ge fun id _ => by rw [hcalls]

theorem Answering.models (h : Answering M P A s) (hM : Intrinsic M)
    (hmodels : s.runtime.SameModels r) : Answering M P A { s with runtime := r } :=
  h.keeps hM (fun _ => .of_sameModels hmodels) rfl rfl rfl

theorem Answering.setCall (h : Answering M P A s) {id : CallId}
    (hcall : CallAnswers M P A s.runtime call)
    (hrequest : id < s.created → call.request = (s.calls id).request) :
    Answering M P A (s.setCall id call) where
  calls other := by
    rw [calls_setCall]
    by_cases heq : other = id
    · subst heq
      rw [Function.update_self]
      exact hcall
    · rw [Function.update_of_ne heq]
      exact h.calls other
  batches batch hbatch := by
    refine BatchAnswers.keeps (s := s) le_rfl ?_ (h.batches batch hbatch)
    intro other hlt
    rw [calls_setCall]
    by_cases heq : other = id
    · subst heq
      rw [Function.update_self]
      exact hrequest hlt
    · rw [Function.update_of_ne heq]

theorem Answering.setPhase (h : Answering M P A s) {id : CallId} {phase : RerankPhase}
    (hcall : CallAnswers M P A s.runtime { s.calls id with phase }) :
    Answering M P A (s.setPhase id phase) :=
  h.setCall hcall fun _ => rfl

theorem Answering.withBatches (h : Answering M P A s) {batches : List BatchCall}
    (hbatches : ∀ batch ∈ batches, BatchAnswers A s batch) : Answering M P A { s with batches } where
  calls := h.calls
  batches batch hbatch := BatchAnswers.keeps (s := s) le_rfl (fun _ _ => rfl) (hbatches batch hbatch)

/-! ### The steps of a call -/

theorem Answering.inferDirect (h : Answering M P A s) (hM : Intrinsic M) {id : CallId}
    (hknowing : Knowing M P s.runtime (s.calls id) scores) (pairs : List Pair) :
    Answering M P A (s.inferDirect id scores pairs) := by
  have hmodels := (ModelRuntime.Predicts.enter s.runtime pairs).sameModels
  exact (h.models hM hmodels).setPhase ((hknowing.keeps hM (.of_sameModels hmodels)).phase _)

theorem Answering.respond (h : Answering M P A s) (hresponds : Responds M P A s.settings)
    {id : CallId} (hknowing : Knowing M P s.runtime (s.calls id) scores)
    (hfilled : RerankService.missing scores = []) (misses : List Nat) :
    Answering M P A (s.respond id misses scores) := by
  apply h.setPhase
  dsimp only
  split
  · exact hresponds s (s.calls id) misses scores rfl hknowing hfilled
  · trivial

theorem Answering.infer (h : Answering M P A s) (hM : Intrinsic M)
    (hresponds : Responds M P A s.settings) {id : CallId}
    (hknowing : Knowing M P s.runtime (s.calls id) scores) :
    Answering M P A (s.infer id scores) := by
  unfold Application.infer
  simp only
  split
  · rename_i hfilled
    exact h.respond hresponds hknowing hfilled []
  split
  · exact h.inferDirect hM hknowing _
  split
  · exact h.inferDirect hM hknowing _
  · exact h.setPhase trivial
  · rename_i b job _
    have hbatcher : Answering M P A { s with batcher := b } :=
      h.keeps hM (fun _ => .of_sameModels (.refl _)) rfl rfl rfl
    exact hbatcher.setPhase (hknowing.phase _)

theorem Admitted.knowing (h : Admitted M r call) :
    Knowing M P r call (List.replicate call.prepared.length none) where
  admitted := h
  length := List.length_replicate
  good i score hscore := by
    rw [List.getElem?_replicate] at hscore
    split at hscore <;> cases hscore

theorem Answering.beginCall (h : Answering M P A s) (hM : Intrinsic M)
    (hserving : s.runtime.Serving)
    (hactive : s.runtime.ready = true → M s.settings s.runtime.activeSource)
    (hresponds : Responds M P A s.settings) {id : CallId} (hstep : s.beginCall id = some s') :
    Answering M P A s' := by
  obtain ⟨hphase, -, ⟨error, rfl⟩ | ⟨hready, query, prepared, hvalidate, hnext⟩⟩ :=
    beginCall_cases hstep
  · exact h.setPhase trivial
  · have haccepted : Answering M P A (s.accept id query prepared) := by
      refine h.setCall ?_ fun _ => rfl
      unfold CallAnswers
      simp only [hphase]
    have hcall : (s.accept id query prepared).calls id = { s.calls id with
        query, prepared, activeModel := s.runtime.model, mode := s.settings.rerankMode } :=
      Function.update_self _ _ _
    have hadmitted : Admitted M (s.accept id query prepared).runtime
        ((s.accept id query prepared).calls id) := by
      rw [hcall]
      exact ⟨(validate_fixed _ _).trans hvalidate, fun m hm => hserving.active_lt hm,
        hactive hready⟩
    rcases hnext with rfl | ⟨-, rfl⟩
    · refine haccepted.infer hM hresponds ?_
      have hprepared : ((s.accept id query prepared).calls id).prepared = prepared := by rw [hcall]
      have hknowing : Knowing M P _ _ _ := hadmitted.knowing
      rwa [hprepared] at hknowing
    · exact haccepted.setPhase ⟨⟨hadmitted.1, hadmitted.2, hadmitted.3⟩, rfl⟩

/-- The hits of the lookup are known, the rest is missing. -/
theorem Answering.lookedUp (h : Answering M P A s) (hM : Intrinsic M)
    (hresponds : Responds M P A s.settings) {prims : Primitives} {id : CallId}
    (hhits : HitsGood M P prims s id) {answer : Option (List (Option Score))} {asked : Settings}
    (hphase : (s.calls id).phase = .lookup asked)
    (hanswer : (answer.all fun values => answers s.redis
      (ScoreCache.keys prims asked (s.calls id).query (s.calls id).texts) values) = true) :
    Answering M P A (s.infer id (ScoreCache.getMany asked (s.calls id).texts answer)) := by
  have hcall := h.calls id
  simp only [CallAnswers, hphase] at hcall
  obtain ⟨hadmitted, hasked⟩ := hcall
  refine h.infer hM hresponds ?_
  have hgaps : Knowing M P s.runtime (s.calls id)
      (List.replicate (s.calls id).texts.length none) := by
    rw [RerankCall.texts, List.length_map]
    exact hadmitted.knowing
  unfold ScoreCache.getMany
  split
  · cases answer with
    | none => exact hgaps
    | some values =>
        have hsome : (s.lookedUp prims id (some values)).isSome := by
          simp [Application.lookedUp, hphase, hanswer]
        refine ⟨hadmitted, ?_, fun i score hi => ?_⟩
        · simp only [Option.all_some, answers, Bool.and_eq_true, decide_eq_true_iff] at hanswer
          rw [hanswer.1, ScoreCache.keys, List.length_map, RerankCall.texts, List.length_map]
        · exact hhits asked values i score hphase hasked hsome hi
  · exact hgaps

theorem Knowing.scatter (h : Knowing M P r call scores) {values : List Score}
    (hvalues : Forall₂ (Good M P r.settings)
      (call.missingPairs (RerankService.missing scores)) values) :
    Knowing M P r call (RerankService.scatter scores (RerankService.missing scores) values) ∧
      RerankService.missing
        (RerankService.scatter scores (RerankService.missing scores) values) = [] := by
  rw [RerankCall.missingPairs, List.forall₂_map_left_iff] at hvalues
  refine ⟨⟨h.admitted, ?_, fun i score hi => ?_⟩, RerankService.missing_scatter hvalues⟩
  · rw [RerankService.length_scatter]
    exact h.length
  · have hlt : ∀ j ∈ RerankService.missing scores, j < scores.length := fun j hj =>
      (List.getElem?_eq_some_iff.mp (RerankService.mem_missing.mp hj)).1
    rcases RerankService.getElem?_scatter hvalues hlt i with ⟨-, hkept⟩ | ⟨v, hv, hgood⟩
    · exact h.good i score (hkept ▸ hi)
    · obtain rfl : v = score := by simpa [hv] using hi
      exact hgood

theorem Answering.received (h : Answering M P A s) (hM : Intrinsic M)
    (hresponds : Responds M P A s.settings) (prims : Primitives) {id : CallId}
    (hknowing : Knowing M P s.runtime (s.calls id) scores) {reply : Reply Score}
    (hreply : reply.Sound (Good M P s.settings)
      ((s.calls id).missingPairs (RerankService.missing scores))) :
    Answering M P A (s.received prims id scores reply) := by
  cases reply with
  | raised error => exact h.setPhase trivial
  | scores values =>
      simp only [Application.received, inferred]
      split
      · exact h.setPhase trivial
      rename_i hlength
      have hvalues : Forall₂ (Good M P s.settings)
          ((s.calls id).missingPairs (RerankService.missing scores)) values := by
        apply hreply values
        have hpairs : values.length =
            ((s.calls id).missingPairs (RerankService.missing scores)).length := by
          rw [not_not.mp hlength, RerankCall.missingPairs, List.length_map]
        simp [Reply.check, hpairs]
      obtain ⟨hfull, hfilled⟩ := hknowing.scatter hvalues
      split
      · exact h.respond hresponds hfull hfilled _
      · have hwritten : ∀ redis, Answering M P A { s with redis } := fun redis =>
          h.keeps hM (fun _ => .of_sameModels (.refl _)) rfl rfl rfl
        exact (hwritten _).setPhase ⟨hfull.phase _, hfilled⟩

theorem Answering.predicted (h : Answering M P A s) (hM : Intrinsic M) (htracked : Tracked M P s)
    (hresponds : Responds M P A s.settings) (prims : Primitives) {id : CallId}
    {predict : PredictId} {r : ModelRuntime} {reply : Reply Score}
    (hphase : (s.calls id).phase = .direct scores predict)
    (hresume : s.runtime.resumePredict predict = some (r, reply)) :
    Answering M P A ({ s with runtime := r }.received prims id scores reply) := by
  have hknowing := h.calls id
  simp only [CallAnswers, hphase] at hknowing
  have hmodels := (ModelRuntime.Predicts.resumePredict hresume).sameModels
  have hsettings : Application.settings { s with runtime := r } = s.settings := hmodels.settings
  refine (h.models hM hmodels).received hM ?_ prims
    (hknowing.keeps hM (.of_sameModels hmodels)) ?_
  · rw [hsettings]
    exact hresponds
  · rw [hsettings]
    exact htracked.reply hphase hresume

theorem Answering.jobSettled (h : Answering M P A s) (hM : Intrinsic M) (htracked : Tracked M P s)
    (hresponds : Responds M P A s.settings) (prims : Primitives) {id : CallId} {job : JobId}
    {reply : Reply Score} (hphase : (s.calls id).phase = .batched scores job)
    (hreply : Application.jobReply (s.batcher.jobs job).future = some reply) :
    Answering M P A (s.received prims id scores reply) := by
  have hknowing := h.calls id
  simp only [CallAnswers, hphase] at hknowing
  exact h.received hM hresponds prims hknowing (htracked.jobReply hphase hreply)

theorem Answering.written (h : Answering M P A s) (hresponds : Responds M P A s.settings)
    {id : CallId} {misses : List Nat} (hphase : (s.calls id).phase = .writing misses scores) :
    Answering M P A (s.respond id misses scores) := by
  have hcall := h.calls id
  simp only [CallAnswers, hphase] at hcall
  exact h.respond hresponds hcall.1 hcall.2 misses

/-! ### Requests -/

theorem Answering.create (h : Answering M P A s) (request : RerankRequest) :
    Answering M P A (s.create request) := by
  have hcall : Answering M P A (s.setCall s.created { request }) :=
    h.setCall trivial fun hlt => absurd hlt (lt_irrefl _)
  refine ⟨hcall.calls, fun batch hbatch => ?_⟩
  exact BatchAnswers.keeps (s := s.setCall s.created { request }) (Nat.le_succ _) (fun _ _ => rfl)
    (hcall.batches batch hbatch)

theorem forall₂_created (requests : List RerankRequest) (s : Application) :
    s.created ≤ (requests.foldl Application.create s).created ∧
      (∀ id < s.created,
        ((requests.foldl Application.create s).calls id).request = (s.calls id).request) ∧
      Forall₂ (requests.foldl Application.create s).CreatedFor requests
        (List.range' s.created requests.length) := by
  induction requests generalizing s with
  | nil => exact ⟨le_rfl, fun _ _ => rfl, .nil⟩
  | cons request rest ih =>
      obtain ⟨hcreated, hrequests, hcalls⟩ := ih (s.create request)
      have hsucc : (s.create request).created = s.created + 1 := rfl
      have hnew : ((s.create request).calls s.created).request = request := by
        simp [Application.create]
      rw [hsucc] at hcreated hrequests
      refine ⟨(Nat.le_succ _).trans hcreated, fun id hlt => ?_, .cons ⟨?_, ?_⟩ ?_⟩
      · have hold : (s.create request).calls id = s.calls id := Function.update_of_ne hlt.ne _ _
        exact (hrequests id (hlt.trans (Nat.lt_succ_self _))).trans (congrArg _ hold)
      · exact hcreated
      · exact (hrequests s.created (Nat.lt_succ_self _)).trans hnew
      · exact hcalls

theorem Answering.rerankBatch (h : Answering M P A s) (requests : List RerankRequest) :
    Answering M P A (s.rerankBatch requests) := by
  unfold Application.rerankBatch
  split
  · refine h.withBatches fun batch hbatch => ?_
    rcases List.mem_append.mp hbatch with hold | hnew
    · exact h.batches batch hold
    · obtain rfl := List.mem_singleton.mp hnew
      exact ⟨fun hopen => (nomatch hopen), fun _ houtcome => nomatch houtcome⟩
  · obtain ⟨-, -, hcalls⟩ := forall₂_created requests s
    have hfold : Answering M P A (requests.foldl Application.create s) :=
      List.foldlRecOn requests Application.create h fun _ ht request _ => ht.create request
    have hbatches : (requests.foldl Application.create s).batches = s.batches := by
      obtain ⟨calls, created, heq⟩ := foldl_create requests s
      rw [heq]
    refine hfold.withBatches fun batch hbatch => ?_
    rcases List.mem_append.mp hbatch with hold | hnew
    · exact hfold.batches batch (hbatches ▸ hold)
    · obtain rfl := List.mem_singleton.mp hnew
      exact ⟨fun _ => hcalls, fun _ houtcome => nomatch houtcome⟩

theorem forall₂_of_mapM {requests : List RerankRequest} {ids : List CallId}
    (hcalls : Forall₂ s.CreatedFor requests ids) {responses : List RerankResponse}
    (h : ids.mapM s.responseOf = some responses) :
    Forall₂ (fun request response => ∃ id, s.CreatedFor request id ∧
      s.responseOf id = some response) requests responses := by
  induction hcalls generalizing responses with
  | nil =>
      obtain rfl : [] = responses := by simpa using h
      exact .nil
  | cons hfor hrest ih =>
      rw [List.mapM_cons] at h
      obtain ⟨response, hresponse, h⟩ := Option.bind_eq_some_iff.mp h
      obtain ⟨others, hothers, h⟩ := Option.bind_eq_some_iff.mp h
      cases h
      exact .cons ⟨_, hfor, hresponse⟩ (ih hothers)

theorem Answering.setBatch (h : Answering M P A s) (i : Nat) {batch : BatchCall}
    (hbatch : BatchAnswers A s batch) :
    Answering M P A { s with batches := s.batches.set i batch } := by
  refine h.withBatches fun other hother => ?_
  rcases List.mem_or_eq_of_mem_set hother with hold | rfl
  · exact h.batches other hold
  · exact hbatch

/-- The responses of the gathered calls answer the requests in order. -/
theorem Answering.gathered (h : Answering M P A s) {batch : Nat} {requests : List RerankRequest}
    {calls : List CallId} {responses : List RerankResponse} (totalPairs : Nat)
    (hbatch : s.batches[batch]? = some { requests, calls, outcome := none })
    (hresponses : calls.mapM s.responseOf = some responses) :
    Answering M P A { s with
      batches := s.batches.set batch
        { requests, calls, outcome := some (.ok { responses, totalPairs }) } } := by
  refine h.setBatch batch ⟨fun hopen => (nomatch hopen), fun r hr => ?_⟩
  cases hr
  have hcalls := (h.batches _ (List.mem_of_getElem? hbatch)).calls rfl
  refine (forall₂_of_mapM hcalls hresponses).imp ?_
  rintro request response ⟨id, hfor, hresponse⟩
  have hcall := h.calls id
  unfold responseOf at hresponse
  split at hresponse
  · rename_i hphase
    cases hresponse
    simp only [CallAnswers, hphase] at hcall
    exact hfor.2 ▸ hcall
  · cases hresponse

/-! ### Every step -/

/-- A change of what the settings name finds no call between its checks and its response. -/
def SwitchesAtRest (prims : Primitives) (s : Application) (a : Action) : Prop :=
  ∀ s', s.step prims a = some s' → s'.settings.identity ≠ s.settings.identity →
    ∀ id, (s.calls id).phase.inFlight = false

theorem good_of_awaits (h : Tracked M P s) {predict : PredictId} (hawaits : s.Awaits predict) :
    s.PredictGood M P predict := by
  rcases hawaits with ⟨id, scores, hphase⟩ | ⟨hworker, group, active, batch, hpredicting, hfeeds⟩
  · have hcall := h.calls id
    simp only [CallGood, hphase] at hcall
    exact hcall.2
  · obtain ⟨predict', hsame, -, hgood⟩ := h.worker group active batch hpredicting
    obtain rfl : predict = predict' := Option.some.inj (hworker.symm.trans hsame)
    exact hgood hfeeds

theorem scored_of_awaitsJob (h : Tracked M P s) {job : JobId} (hawaits : s.AwaitsJob job)
    (hopen : (s.batcher.jobs job).future.failed = false) :
    (s.batcher.jobs job).Scored (Good M P s.settings) := by
  obtain ⟨id, scores, hphase⟩ := hawaits
  have hcall := h.calls id
  simp only [CallGood, hphase] at hcall
  exact hcall.2 hopen

theorem suits_of_underWay (h : Tracked M P s) {sources : ModelId → Source}
    (hsources : ∀ m < s.runtime.loaded, M s.settings (some (s.runtime.sources m)) →
      M s.settings (some (sources m)))
    {source : Option Source} (hunderWay : s.UnderWay sources source) : M s.settings source := by
  cases hunderWay with
  | carried hawaits hcarried =>
      rename_i predict
      have hgood := good_of_awaits h hawaits
      have hsubmitted := h.serving.consistent.submitted predict
      unfold PredictGood at hgood
      change PhaseGood M P _ _ _ (s.runtime.calls predict).phase at hgood
      change Carried sources _ (s.runtime.calls predict).phase source at hcarried
      change ∀ semaphore m, (s.runtime.calls predict).phase = _ → m < s.runtime.loaded at hsubmitted
      cases hphase : (s.runtime.calls predict).phase with
      | submitted semaphore model =>
          rw [hphase] at hgood hcarried
          cases hcarried
          cases model with
          | none => exact hgood
          | some m => exact hsources m (hsubmitted semaphore m hphase) hgood
      | running semaphore model running =>
          rw [hphase] at hgood hcarried
          cases hcarried
          exact hgood
      | answered semaphore reply =>
          rw [hphase] at hgood hcarried
          cases reply with
          | scores values =>
              obtain ⟨hlength, score, hscore, rfl⟩ := hcarried
              obtain ⟨pair, -, hpair⟩ := Outcome.forall₂_mem_right (hgood hlength) hscore
              exact hpair.1
          | raised error => exact hcarried.elim
      | waiting semaphore =>
          rw [hphase] at hcarried
          exact hcarried.elim
      | orphaned =>
          rw [hphase] at hcarried
          exact hcarried.elim
      | returned =>
          rw [hphase] at hcarried
          exact hcarried.elim
  | collected hawaits hopen hscore =>
      have hscored := (scored_of_awaitsJob h hawaits hopen).scores
      obtain ⟨pair, -, hpair⟩ := Outcome.forall₂_mem_right hscored hscore
      exact hpair.1
  | settled hawaits hresult hscore =>
      have hopen : Future.failed _ = false := congrArg Future.failed hresult
      have hscored := scored_of_awaitsJob h hawaits hopen
      obtain ⟨pair, -, hpair⟩ := Outcome.forall₂_mem_right (hscored.result _ hresult) hscore
      exact hpair.1

/-- A switch at rest disturbs no score under way, nor does a change that names the same model. -/
theorem undisturbed_of_switchesAtRest {prims : Primitives} {a : Action} (hM : Intrinsic M)
    (h : Tracked M P s) (hrest : SwitchesAtRest prims s a) : Undisturbed M prims s a := by
  intro hconfigures s' hstep source hunderWay
  by_cases hidentity : s'.settings.identity = s.settings.identity
  · have hkeeps := KeepsModels.of_reconfigures hM hconfigures hstep hidentity
    apply hM.settings _ _ _ hidentity
    refine suits_of_underWay h (fun m hm hsource => ?_) hunderWay
    exact hM.settings _ _ _ hidentity.symm (hkeeps.sources m hm hsource)
  · have hdetached : ∀ id, Detached (s.calls id).phase := fun id => by
      have hflight := hrest s' hstep hidentity id
      cases hphase : (s.calls id).phase <;> simp_all [RerankPhase.inFlight, Detached]
    exact undisturbed_of_detached hdetached prims a hconfigures s' hstep source hunderWay

theorem Answering.callPredictor (h : Answering M P A s) (hM : Intrinsic M) :
    Answering M P A s.callPredictor := by
  have hmodels := (callPredictor_predicts s).sameModels
  refine h.keeps hM (fun _ => .of_sameModels hmodels) ?_ ?_ ?_
  all_goals
    unfold Application.callPredictor
    split <;> rfl

theorem Answering.batcher (h : Answering M P A s) (hM : Intrinsic M) (b : DynamicBatcher Score) :
    Answering M P A { s with batcher := b } :=
  h.keeps hM (fun _ => .of_sameModels (.refl _)) rfl rfl rfl

/-- **Every response is an answer**, if the hits are good and switches find no call in flight. -/
theorem Answering.step {prims : Primitives} {a : Action} (h : Answering M P A s) (hM : Intrinsic M)
    (htracked : Tracked M P s)
    (hactive : s.runtime.ready = true → M s.settings s.runtime.activeSource)
    (hresponds : Responds M P A s.settings)
    (hhits : ∀ id answer, a = .lookedUp id answer → HitsGood M P prims s id)
    (hrest : SwitchesAtRest prims s a) (hstep : s.step prims a = some s') :
    Answering M P A s' := by
  cases step_takes hstep with
  | @called request s' hbegin =>
      exact (h.create request).beginCall hM htracked.serving hactive hresponds hbegin
  | batchCreated => exact h.rerankBatch _
  | begun hbegin => exact h.beginCall hM htracked.serving hactive hresponds hbegin
  | lookedUp hphase hanswer => exact h.lookedUp hM hresponds (hhits _ _ rfl) hphase hanswer
  | predicted hphase hresume => exact h.predicted hM htracked hresponds prims hphase hresume
  | jobSettled hphase hreply => exact h.jobSettled hM htracked hresponds prims hphase hreply
  | timedOut hphase =>
      exact (h.models hM (ModelRuntime.Predicts.cancelPredict s.runtime _).sameModels).setPhase trivial
  | jobTimedOut hphase => exact (h.batcher hM _).setPhase trivial
  | written hphase => exact h.written hresponds hphase
  | gathered hbatch hresponses => exact h.gathered _ hbatch hresponses
  | gatherRaised hbatch hphase hid =>
      exact h.setBatch _ ⟨fun hopen => (nomatch hopen), fun _ houtcome => nomatch houtcome⟩
  | took htake => exact h.batcher hM _
  | windowClosed hclosed => exact (h.batcher hM _).callPredictor hM
  | workerPredicted hcall hresume hreplied =>
      exact ((h.models hM (ModelRuntime.Predicts.resumePredict hresume).sameModels).batcher hM
        _).callPredictor hM
  | workerCancelled hcancelled =>
      have hmodels := (step_effect (a := .workerCancelled) hstep).models id
      exact h.keeps hM (fun _ => .of_sameModels hmodels) rfl rfl rfl
  | closeReturned hreturn => exact h.batcher hM _
  | @patched patch s' hpatch =>
      have hkeeps := KeepsModels.of_reconfigures hM (a := .patchRuntime patch) trivial hstep
        (patchRuntime_identity hstep)
      obtain ⟨b, -, rfl⟩ := Option.map_eq_some_iff.mp hpatch
      exact h.keeps hM (fun _ => hkeeps) rfl rfl rfl
  | @ran b r hbackground hrun =>
      refine h.keeps hM ?_ rfl rfl rfl
      rintro ⟨id, hflight⟩
      by_cases hconfigures : s.Reconfigures (.runtime b)
      · apply KeepsModels.of_reconfigures hM hconfigures hstep
        by_contra hidentity
        rw [hrest _ hstep hidentity id] at hflight
        cases hflight
      · exact .of_sameModels ((step_effect hstep).models hconfigures)

theorem Initial.answering {settings : Settings} {Entry : ScoreCache.Write Score → Prop}
    (h : Initial settings Entry s) : Answering M P A s where
  calls id := by
    unfold CallAnswers
    simp only [h.calls id]
  batches batch hbatch := by
    rw [h.batches] at hbatch
    cases hbatch

end Application

end RerankerService
