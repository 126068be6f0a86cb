import RerankerService.Proof.Serving
import RerankerService.Proof.ServiceSteps
import RerankerService.Proof.Worker

/-!
# Scores on their way to a request

A claim about the scores of a request says two things of each of them: `M settings source`, that the
model it came from suits the settings in force, and `P pair score`, that it belongs to its pair. The
first depends on the settings and so has to be kept only for what a live call still awaits; the
second never changes. The invariant follows a score from the permit of its prediction to the cache.
-/

namespace RerankerService

open List (Forall₂)

/-- Between the checks and the response. -/
def RerankPhase.inFlight : RerankPhase → Bool
  | .lookup _ | .direct _ _ | .batched _ _ | .writing _ _ => true
  | .created | .returned _ | .raised _ => false

/-- Nobody will get a score list from the future. -/
def Future.failed {σ : Type} : Future σ → Bool
  | .exception _ | .cancelled => true
  | _ => false

namespace BatchJob

variable {σ : Type} {R R' : Pair → σ → Prop} {job job' : BatchJob σ}

/-- What the job has collected is right, as long as somebody may get it. -/
def Promising (R : Pair → σ → Prop) (job : BatchJob σ) : Prop :=
  job.future.failed = false → job.Scored R

theorem Scored.imp (h : job.Scored R) {Q : σ → Prop} (himp : ∀ pair score, R pair score → Q score →
    R' pair score) (hscores : ∀ score ∈ job.scores, Q score)
    (hresult : ∀ values, job.future = .result values → ∀ score ∈ values, Q score) :
    job.Scored R' := by
  have hlift : ∀ pairs values, Forall₂ R pairs values → (∀ score ∈ values, Q score) →
      Forall₂ R' pairs values := by
    intro pairs values hvalues hQ
    obtain ⟨hlength, hzip⟩ := List.forall₂_iff_zip.mp hvalues
    exact List.forall₂_iff_zip.mpr ⟨hlength, fun hmem =>
      himp _ _ (hzip hmem) (hQ _ (List.of_mem_zip hmem).2)⟩
  exact ⟨hlift _ _ h.scores hscores, h.cursor_le, h.pending, fun values hvalues =>
    hlift _ _ (h.result values hvalues) (hresult values hvalues)⟩

theorem cancel_eq_of_not_failed (h : job.cancel.future.failed = false) : job.cancel = job := by
  unfold cancel at h ⊢
  split at h
  · rw [if_pos ‹_›]
  · cases h

theorem fail_eq_of_not_failed {error : Error} (h : (job.fail error).future.failed = false) :
    job.fail error = job := by
  unfold fail at h ⊢
  split at h
  · rw [if_pos ‹_›]
  · cases h

theorem Answered.promising {outcome : Except Error (List σ)} (h : job.Answered R outcome job')
    (hjob : job.Promising R) : job'.Promising R := by
  intro hopen
  refine h.scored (hjob ?_)
  by_contra hfailed
  rw [Bool.not_eq_false] at hfailed
  have hdone : job.future.done := by
    cases hfuture : job.future <;> simp_all [Future.failed, Future.done]
  rw [h.future hdone, hfailed] at hopen
  cases hopen

end BatchJob

namespace Application

variable (M : Settings → Option Source → Prop) (P : Pair → Score → Prop)

def Good (settings : Settings) (pair : Pair) (score : Score) : Prop :=
  M settings score.source ∧ P pair score

/-- What a prediction will answer, or has answered, is good. -/
def PhaseGood (sources : ModelId → Source) (settings : Settings) (pairs : List Pair) :
    PredictPhase → Prop
  | .submitted _ model => M settings (model.map sources)
  | .running _ _ source => M settings source
  | .answered _ (.scores values) =>
      values.length = pairs.length → Forall₂ (Good M P settings) pairs values
  | _ => True

def PredictGood (s : Application) (predict : PredictId) : Prop :=
  PhaseGood M P s.runtime.sources s.settings (s.runtime.calls predict).pairs
    (s.runtime.phase predict)

def PredictFor (s : Application) (predict : PredictId) (pairs : List Pair) : Prop :=
  predict < s.runtime.entered ∧ (s.runtime.calls predict).pairs = pairs

def JobFor (s : Application) (job : JobId) (pairs : List Pair) : Prop :=
  job < s.batcher.submitted ∧ (s.batcher.jobs job).pairs = pairs

def CallGood (s : Application) (call : RerankCall) : Prop :=
  match call.phase with
  | .direct scores predict =>
      s.PredictFor predict (call.missingPairs (RerankService.missing scores)) ∧
        s.PredictGood M P predict
  | .batched scores job =>
      s.JobFor job (call.missingPairs (RerankService.missing scores)) ∧
        (s.batcher.jobs job).Promising (Good M P s.settings)
  | _ => True

def AwaitsJob (s : Application) (job : JobId) : Prop :=
  ∃ id scores, (s.calls id).phase = .batched scores job

def Feeds (s : Application) (batch : DynamicBatcher.Batch) : Prop :=
  ∃ job ∈ batch.slices.map Prod.fst, s.AwaitsJob job

/-- A live call awaits the prediction, by itself or through its job. -/
def Awaits (s : Application) (predict : PredictId) : Prop :=
  (∃ id scores, (s.calls id).phase = .direct scores predict) ∨
    s.workerCall = some predict ∧
      ∃ group active batch, s.batcher.worker = some (.predicting group active batch) ∧
        s.Feeds batch

theorem Awaits.inFlight {s : Application} {predict : PredictId} (h : s.Awaits predict) :
    ∃ id, (s.calls id).phase.inFlight := by
  rcases h with ⟨id, scores, hphase⟩ | ⟨-, -, -, -, -, job, -, id, scores, hphase⟩
  · exact ⟨id, by rw [hphase]; rfl⟩
  · exact ⟨id, by rw [hphase]; rfl⟩

/-- Everything but the prediction that the worker awaits. -/
structure CallsTracked (s : Application) : Prop where
  serving : s.runtime.Serving
  batcher : s.batcher.Sound fun _ _ => True
  calls : ∀ id, s.CallGood M P (s.calls id)
  redis : ∀ w ∈ s.redis, Good M P w.settings (w.query, w.document) w.score

/-- The prediction that the worker awaits is for its batch. -/
def WorkerTracked (s : Application) : Prop :=
  ∀ group active batch, s.batcher.worker = some (.predicting group active batch) →
    ∃ predict, s.workerCall = some predict ∧ s.PredictFor predict batch.combined ∧
      (s.Feeds batch → s.PredictGood M P predict)

structure Tracked (s : Application) : Prop extends CallsTracked M P s where
  worker : s.WorkerTracked M P

variable {M P} {s s' : Application}

/-! ### What does not disturb a call -/

/-- Predictions and jobs that a live call of `s` awaits are as good in `s'`. -/
structure Keeps (M : Settings → Option Source → Prop) (P : Pair → Score → Prop)
    (s s' : Application) : Prop where
  entered : s.runtime.entered ≤ s'.runtime.entered
  pairs : ∀ predict < s.runtime.entered,
    (s'.runtime.calls predict).pairs = (s.runtime.calls predict).pairs
  predicts : ∀ predict < s.runtime.entered, s.Awaits predict →
    s.PredictGood M P predict → s'.PredictGood M P predict
  submitted : s.batcher.submitted ≤ s'.batcher.submitted
  jobPairs : ∀ job < s.batcher.submitted,
    (s'.batcher.jobs job).pairs = (s.batcher.jobs job).pairs
  promising : ∀ job < s.batcher.submitted, s.AwaitsJob job →
    (s.batcher.jobs job).Promising (Good M P s.settings) →
    (s'.batcher.jobs job).Promising (Good M P s'.settings)

theorem PredictFor.keeps (hkeeps : Keeps M P s s') {predict : PredictId} {pairs : List Pair}
    (h : s.PredictFor predict pairs) : s'.PredictFor predict pairs :=
  ⟨h.1.trans_le hkeeps.entered, (hkeeps.pairs predict h.1).trans h.2⟩

theorem JobFor.keeps (hkeeps : Keeps M P s s') {job : JobId} {pairs : List Pair}
    (h : s.JobFor job pairs) : s'.JobFor job pairs :=
  ⟨h.1.trans_le hkeeps.submitted, (hkeeps.jobPairs job h.1).trans h.2⟩

theorem CallGood.keeps (hkeeps : Keeps M P s s') {id : CallId}
    (h : s.CallGood M P (s.calls id)) : s'.CallGood M P (s.calls id) := by
  unfold CallGood at h ⊢
  cases hphase : (s.calls id).phase with
  | direct scores predict =>
      simp only [hphase] at h ⊢
      exact ⟨h.1.keeps hkeeps, hkeeps.predicts predict h.1.1 (.inl ⟨id, scores, hphase⟩) h.2⟩
  | batched scores job =>
      simp only [hphase] at h ⊢
      exact ⟨h.1.keeps hkeeps, hkeeps.promising job h.1.1 ⟨id, scores, hphase⟩ h.2⟩
  | _ => trivial

theorem CallsTracked.keeps (h : CallsTracked M P s) (hkeeps : Keeps M P s s')
    (hserving : s'.runtime.Serving) (hbatcher : s'.batcher.Sound fun _ _ => True)
    (hcalls : s'.calls = s.calls) (hredis : s'.redis = s.redis) : CallsTracked M P s' where
  serving := hserving
  batcher := hbatcher
  calls id := by
    rw [hcalls]
    exact (h.calls id).keeps hkeeps
  redis := hredis ▸ h.redis

theorem Feeds.of_calls_eq (hcalls : s'.calls = s.calls) {batch : DynamicBatcher.Batch}
    (h : s'.Feeds batch) : s.Feeds batch := by
  obtain ⟨job, hjob, id, scores, hphase⟩ := h
  exact ⟨job, hjob, id, scores, hcalls ▸ hphase⟩

theorem WorkerTracked.keeps (h : s.WorkerTracked M P) (hkeeps : Keeps M P s s')
    (hcalls : s'.calls = s.calls)
    (hworker : ∀ group active batch, s'.batcher.worker = some (.predicting group active batch) →
      s.batcher.worker = some (.predicting group active batch) ∧ s'.workerCall = s.workerCall) :
    s'.WorkerTracked M P := by
  intro group active batch hpredicting
  obtain ⟨hbefore, hcall⟩ := hworker group active batch hpredicting
  obtain ⟨predict, hpredict, hfor, hgood⟩ := h group active batch hbefore
  refine ⟨predict, hcall.trans hpredict, hfor.keeps hkeeps, fun hfeeds => ?_⟩
  have hfed := hfeeds.of_calls_eq hcalls
  exact hkeeps.predicts predict hfor.1 (.inr ⟨hpredict, group, active, batch, hbefore, hfed⟩)
    (hgood hfed)

theorem Tracked.keeps (h : Tracked M P s) (hkeeps : Keeps M P s s')
    (hserving : s'.runtime.Serving) (hbatcher : s'.batcher.Sound fun _ _ => True)
    (hcalls : s'.calls = s.calls) (hredis : s'.redis = s.redis)
    (hworker : ∀ group active batch, s'.batcher.worker = some (.predicting group active batch) →
      s.batcher.worker = some (.predicting group active batch) ∧ s'.workerCall = s.workerCall) :
    Tracked M P s' where
  toCallsTracked := h.toCallsTracked.keeps hkeeps hserving hbatcher hcalls hredis
  worker := h.worker.keeps hkeeps hcalls hworker

/-! ### One call moves on -/

@[simp]
theorem calls_setCall (s : Application) (id : CallId) (call : RerankCall) :
    (s.setCall id call).calls = Function.update s.calls id call := rfl

theorem CallsTracked.setCall (h : CallsTracked M P s) {id : CallId} {call : RerankCall}
    (hcall : s.CallGood M P call) : CallsTracked M P (s.setCall id call) where
  serving := h.serving
  batcher := h.batcher
  calls other := by
    rw [calls_setCall]
    by_cases heq : other = id
    · subst heq
      rw [Function.update_self]
      exact hcall
    · rw [Function.update_of_ne heq]
      exact h.calls other
  redis := h.redis

/-- A call that starts to await a job awaits none of the batch in flight. -/
theorem Tracked.setCall (h : Tracked M P s) {id : CallId} {call : RerankCall}
    (hcall : s.CallGood M P call)
    (hjob : ∀ scores job, call.phase = .batched scores job →
      ∀ group active batch, s.batcher.worker = some (.predicting group active batch) →
        job ∉ batch.slices.map Prod.fst) : Tracked M P (s.setCall id call) where
  toCallsTracked := h.toCallsTracked.setCall hcall
  worker := by
    intro group active batch hworker
    obtain ⟨predict, hpredict, hfor, hgood⟩ := h.worker group active batch hworker
    refine ⟨predict, hpredict, hfor, fun hfeeds => hgood ?_⟩
    obtain ⟨job, hmem, other, scores, hphase⟩ := hfeeds
    rw [calls_setCall] at hphase
    by_cases heq : other = id
    · subst heq
      rw [Function.update_self] at hphase
      exact absurd hmem (hjob scores job hphase group active batch hworker)
    · rw [Function.update_of_ne heq] at hphase
      exact ⟨job, hmem, other, scores, hphase⟩

/-! ### The runtime -/

/-- What an execution answers belongs to its pairs. -/
def AnswersPairs (P : Pair → Score → Prop) (r : ModelRuntime) (a : ModelRuntime.Action) : Prop :=
  ∀ predict execution values source, a = .finish predict execution →
    execution.result = .ok values → values.length = (r.calls predict).pairs.length →
    Forall₂ P (r.calls predict).pairs (tagScores source (r.calls predict).pairs values)

theorem forall₂_good {settings : Settings} {pairs : List Pair} {values : List Score}
    (hsource : ∀ score ∈ values, M settings score.source) (hpairs : Forall₂ P pairs values) :
    Forall₂ (Good M P settings) pairs values := by
  obtain ⟨hlength, hzip⟩ := List.forall₂_iff_zip.mp hpairs
  exact List.forall₂_iff_zip.mpr ⟨hlength, fun hmem =>
    ⟨hsource _ (List.of_mem_zip hmem).2, hzip hmem⟩⟩

theorem source_of_mem_tagScores {source : Option Source} {pairs : List Pair} {values : List Value}
    {score : Score} (h : score ∈ tagScores source pairs values) : score.source = source := by
  obtain ⟨i, hi, rfl⟩ := List.mem_mapIdx.mp h
  rfl

theorem length_tagScores (source : Option Source) (pairs : List Pair) (values : List Value) :
    (tagScores source pairs values).length = values.length :=
  List.length_mapIdx

theorem Keeps.runtime {r : ModelRuntime} (hsettings : r.settings = s.settings)
    (hentered : s.runtime.entered ≤ r.entered)
    (hpairs : ∀ predict < s.runtime.entered,
      (r.calls predict).pairs = (s.runtime.calls predict).pairs)
    (hpredicts : ∀ predict < s.runtime.entered, s.Awaits predict → s.PredictGood M P predict →
      Application.PredictGood M P { s with runtime := r } predict) :
    Keeps M P s { s with runtime := r } where
  entered := hentered
  pairs := hpairs
  predicts := hpredicts
  submitted := le_rfl
  jobPairs _ _ := rfl
  promising _ _ _ hpromising := by
    change BatchJob.Promising (Good M P r.settings) _
    rw [hsettings]
    exact hpromising

theorem Keeps.sameFrame {r : ModelRuntime} (hsettings : r.settings = s.settings)
    (hframe : r.frame = s.runtime.frame) : Keeps M P s { s with runtime := r } := by
  have hcalls := congrArg ModelRuntime.Frame.calls hframe
  have hsources := congrArg ModelRuntime.Frame.sources hframe
  refine .runtime hsettings (congrArg ModelRuntime.Frame.entered hframe).ge
    (fun predict _ => congrArg PredictCall.pairs (congrFun hcalls predict)) fun predict _ _ hgood => ?_
  change PhaseGood M P r.sources r.settings (r.calls predict).pairs (r.calls predict).phase
  have hcall : r.calls predict = s.runtime.calls predict := congrFun hcalls predict
  rw [show r.sources = s.runtime.sources from hsources, hsettings, hcall]
  exact hgood

theorem Keeps.setPhase {r : ModelRuntime} {id : PredictId} {phase : PredictPhase}
    (hsettings : r.settings = s.settings)
    (hframe : r.frame = s.runtime.frame.setPhase id phase)
    (hphase : s.Awaits id → s.PredictGood M P id →
      PhaseGood M P s.runtime.sources s.settings (s.runtime.calls id).pairs phase) :
    Keeps M P s { s with runtime := r } := by
  have hcalls : r.calls =
      Function.update s.runtime.calls id { s.runtime.calls id with phase } :=
    congrArg ModelRuntime.Frame.calls hframe
  have hsources := congrArg ModelRuntime.Frame.sources hframe
  have hpairs : ∀ predict, (r.calls predict).pairs = (s.runtime.calls predict).pairs := by
    intro predict
    rw [hcalls]
    by_cases heq : predict = id
    · subst heq
      simp
    · simp [heq]
  refine .runtime hsettings (congrArg ModelRuntime.Frame.entered hframe).ge
    (fun predict _ => hpairs predict) fun predict _ hawaits hgood => ?_
  change PhaseGood M P r.sources r.settings (r.calls predict).pairs (r.calls predict).phase
  rw [show r.sources = s.runtime.sources from hsources, hsettings, hpairs, hcalls]
  by_cases heq : predict = id
  · subst heq
    simp only [Function.update_self]
    exact hphase hawaits hgood
  · rw [Function.update_of_ne heq]
    exact hgood

theorem Keeps.allocate {r : ModelRuntime} {source : Source} (hserving : s.runtime.Serving)
    (hsettings : r.settings = s.settings)
    (hframe : r.frame = s.runtime.frame.allocate source) :
    Keeps M P s { s with runtime := r } := by
  have hcalls : r.calls = s.runtime.calls := congrArg ModelRuntime.Frame.calls hframe
  have hsources : r.sources = Function.update s.runtime.sources s.runtime.loaded source :=
    congrArg ModelRuntime.Frame.sources hframe
  refine .runtime hsettings (congrArg ModelRuntime.Frame.entered hframe).ge
    (fun predict _ => by rw [hcalls]) fun predict _ _ hgood => ?_
  change PhaseGood M P r.sources r.settings (r.calls predict).pairs (r.calls predict).phase
  rw [hcalls, hsettings]
  unfold PredictGood at hgood
  -- Only a queued execution still looks at the objects, and the one it refers to is not the new one.
  cases hphase : (s.runtime.calls predict).phase with
  | submitted semaphore model =>
      change PhaseGood M P _ _ _ (s.runtime.calls predict).phase at hgood
      rw [hphase] at hgood
      cases model with
      | none => exact hgood
      | some m =>
          have hlt := hserving.consistent.submitted predict semaphore m hphase
          have hsame : r.sources m = s.runtime.sources m := by
            rw [hsources]
            exact Function.update_of_ne hlt.ne _ _
          simp only [PhaseGood, Option.map_some, hsame] at hgood ⊢
          exact hgood
  | waiting semaphore => trivial
  | running semaphore model source =>
      change PhaseGood M P _ _ _ (s.runtime.calls predict).phase at hgood
      rwa [hphase] at hgood
  | answered semaphore reply =>
      change PhaseGood M P _ _ _ (s.runtime.calls predict).phase at hgood
      rw [hphase] at hgood
      cases reply with
      | scores values => exact hgood
      | raised error => trivial
  | orphaned => trivial
  | returned => trivial

theorem Keeps.enter (s : Application) (pairs : List Pair) :
    Keeps M P s { s with runtime := s.runtime.enter pairs } := by
  have hold : ∀ predict < s.runtime.entered,
      (s.runtime.enter pairs).calls predict = s.runtime.calls predict := fun predict hlt =>
    Function.update_of_ne hlt.ne _ _
  refine .runtime rfl (Nat.le_succ _) (fun predict hlt => by rw [hold predict hlt])
    fun predict hlt _ hgood => ?_
  change PhaseGood M P s.runtime.sources s.settings ((s.runtime.enter pairs).calls predict).pairs
    ((s.runtime.enter pairs).calls predict).phase
  rw [hold predict hlt]
  exact hgood

theorem Keeps.background {r : ModelRuntime} {a : ModelRuntime.Action}
    (hserving : s.runtime.Serving)
    (hactive : (∃ id, (s.calls id).phase.inFlight) → M s.settings s.runtime.activeSource)
    (hanswers : AnswersPairs P s.runtime a) (hbackground : background a)
    (hsettings : r.settings = s.settings) (hstep : s.runtime.step a = some r) :
    Keeps M P s { s with runtime := r } := by
  cases ModelRuntime.step_frame hbackground hstep with
  | same hframe => exact .sameFrame hsettings hframe
  | allocated name revision maxLength loaded hframe => exact .allocate hserving hsettings hframe
  | advanced id phase hadvances hframe =>
      refine .setPhase hsettings hframe fun hawaits hgood => ?_
      unfold PredictGood at hgood
      cases hadvances with
      | acquired hphase => exact hactive hawaits.inFlight
      | begun hphase =>
          rw [hphase] at hgood
          exact hgood
      | @answered semaphore model source execution ha hphase =>
          rw [hphase] at hgood
          simp only [Execution.reply]
          cases hresult : execution.result with
          | error error => trivial
          | ok values =>
              intro hlength
              rw [length_tagScores] at hlength
              refine forall₂_good (fun score hscore => ?_)
                (hanswers id execution values source ha hresult hlength)
              rw [source_of_mem_tagScores hscore]
              exact hgood
      | ended hphase => trivial

/-! ### The batcher -/

/-- The old jobs are for the same pairs and have no worse scores. -/
def KeepsJobs (b b' : DynamicBatcher Score) : Prop :=
  b.submitted ≤ b'.submitted ∧ ∀ job < b.submitted, (b'.jobs job).pairs = (b.jobs job).pairs ∧
    ∀ R : Pair → Score → Prop, (b.jobs job).Promising R → (b'.jobs job).Promising R

theorem KeepsJobs.of_jobs_eq {b b' : DynamicBatcher Score} (hsubmitted : b'.submitted = b.submitted)
    (hjobs : b'.jobs = b.jobs) : KeepsJobs b b' :=
  ⟨hsubmitted.ge, fun _ _ => by
    rw [hjobs]
    exact ⟨rfl, fun _ h => h⟩⟩

theorem KeepsJobs.cancelAll (b : DynamicBatcher Score) (ids : List JobId) :
    KeepsJobs b { b with jobs := DynamicBatcher.cancelAll b.jobs ids } :=
  ⟨le_rfl, fun job _ => ⟨DynamicBatcher.cancelAll_pairs _ _ _, fun R hpromising => by
    change BatchJob.Promising R (DynamicBatcher.cancelAll b.jobs ids job)
    unfold DynamicBatcher.cancelAll
    split
    · intro hopen
      have hsame := BatchJob.cancel_eq_of_not_failed hopen
      rw [hsame] at hopen ⊢
      exact hpromising hopen
    · exact hpromising⟩⟩

theorem KeepsJobs.enqueue (b : DynamicBatcher Score) (pairs : List Pair) :
    KeepsJobs b (b.enqueue pairs) :=
  ⟨Nat.le_succ _, fun job hjob => by
    rw [show (b.enqueue pairs).jobs job = b.jobs job from Function.update_of_ne hjob.ne _ _]
    exact ⟨rfl, fun _ h => h⟩⟩

theorem KeepsJobs.patch {b b' : DynamicBatcher Score} {dynamicBatching : Bool} {limits : Limits}
    (h : b.step (.patch dynamicBatching limits) = some b') :
    KeepsJobs b b' ∧ ∀ group active batch, b'.worker = some (.predicting group active batch) →
      b.worker = some (.predicting group active batch) := by
  simp only [DynamicBatcher.step] at h
  split at h
  · cases DynamicBatcher.reconfigure_cases h with
    | started hon hnone => exact ⟨.of_jobs_eq rfl rfl, fun _ _ _ hworker => by cases hworker⟩
    | closing hoff hopen hsome => exact ⟨.of_jobs_eq rfl rfl, fun _ _ _ hworker => hworker⟩
    | kept hstaffed => exact ⟨.of_jobs_eq rfl rfl, fun _ _ _ hworker => hworker⟩
  · cases h

theorem Keeps.batcher {b : DynamicBatcher Score} (hjobs : KeepsJobs s.batcher b) :
    Keeps M P s { s with batcher := b } where
  entered := le_rfl
  pairs _ _ := rfl
  predicts _ _ _ hgood := hgood
  submitted := hjobs.1
  jobPairs job hjob := (hjobs.2 job hjob).1
  promising job hjob _ hpromising := (hjobs.2 job hjob).2 _ hpromising

theorem notMem_slices (h : s.batcher.Sound fun _ _ => True) {job : JobId}
    (hjob : s.batcher.submitted ≤ job) {group active : List JobId} {batch : DynamicBatcher.Batch}
    (hworker : s.batcher.worker = some (.predicting group active batch)) :
    job ∉ batch.slices.map Prod.fst := by
  intro hmem
  obtain ⟨hactive, -, hsliced, -⟩ := h.located group active batch hworker
  have hheld : job ∈ s.batcher.held := by
    have hgroup : s.batcher.held = group := by
      simp [DynamicBatcher.held, hworker, DynamicBatcher.Worker.held]
    rw [hgroup]
    exact hactive.subset (hsliced.sublist.subset hmem)
  exact absurd (h.submitted job (List.mem_append_right _ hheld)) hjob.not_gt

theorem CallsTracked.callPredictor (h : CallsTracked M P s) : Tracked M P s.callPredictor := by
  unfold Application.callPredictor
  split
  · rename_i group active batch hworker
    have hcalls : CallsTracked M P { s with
        runtime := s.runtime.enter batch.combined, workerCall := some s.runtime.entered } :=
      h.keeps ⟨Nat.le_succ _, (Keeps.enter (M := M) (P := P) s batch.combined).pairs,
        (Keeps.enter s batch.combined).predicts, le_rfl, fun _ _ => rfl, fun _ _ _ h => h⟩
      (h.serving.enter _) h.batcher rfl rfl
    refine ⟨hcalls, fun group' active' batch' hpredicting => ?_⟩
    obtain ⟨-, -, rfl⟩ : group = group' ∧ active = active' ∧ batch = batch' := by
      simpa using hworker.symm.trans hpredicting
    have hnew : (s.runtime.enter batch.combined).calls s.runtime.entered =
        { pairs := batch.combined, phase := .waiting s.runtime.semaphore } :=
      Function.update_self _ _ _
    refine ⟨s.runtime.entered, rfl, ⟨Nat.lt_succ_self _, by rw [hnew]⟩, fun _ => ?_⟩
    change PhaseGood M P _ _ _ ((s.runtime.enter batch.combined).calls s.runtime.entered).phase
    rw [hnew]
    trivial
  · rename_i hidle
    exact ⟨⟨h.serving, h.batcher, h.calls, h.redis⟩, fun group active batch hworker =>
      absurd hworker (hidle group active batch)⟩

/-- A job without a slice of the batch gets no score from the reply. -/
theorem resume_promising_of_notMem {R : Pair → Score → Prop} {limits : Limits} {jobs : Jobs Score}
    {active : List JobId} {batch : DynamicBatcher.Batch} {reply : Reply Score} {job : JobId}
    (hjob : job ∉ batch.slices.map Prod.fst) (hpromising : (jobs job).Promising R) :
    ((DynamicBatcher.resume limits jobs active batch reply).1 job).Promising R := by
  unfold DynamicBatcher.resume
  split
  · simp only [DynamicBatcher.failAll]
    split
    · intro hopen
      have hsame := BatchJob.fail_eq_of_not_failed hopen
      rw [hsame] at hopen ⊢
      exact hpromising hopen
    · exact hpromising
  · simp only [DynamicBatcher.deliver_of_notMem hjob]
    exact hpromising

theorem length_of_check {pairs : List Pair} {values checked : List Score}
    (h : (Reply.scores values).check pairs = .ok checked) :
    checked = values ∧ values.length = pairs.length := by
  unfold Reply.check at h
  grind

theorem resumePredict_settings {r r' : ModelRuntime} {predict : PredictId} {reply : Reply Score}
    (h : r.resumePredict predict = some (r', reply)) : r'.settings = r.settings := by
  obtain ⟨semaphore, -, hframe⟩ := ModelRuntime.resumePredict_frame h
  have hconstants : r'.frame.constants = r.frame.constants := by
    rw [hframe]
    rfl
  exact ModelRuntime.settings_eq_of_frame hconstants
    (congrArg Slots.activeIdentity (ModelRuntime.resumePredict_slots h))

theorem Keeps.resumePredict {r : ModelRuntime} {predict : PredictId} {reply : Reply Score}
    (h : s.runtime.resumePredict predict = some (r, reply)) :
    Keeps M P s { s with runtime := r } := by
  obtain ⟨semaphore, -, hframe⟩ := ModelRuntime.resumePredict_frame h
  exact .setPhase (resumePredict_settings h) hframe fun _ _ => trivial

theorem PredictGood.reply {r : ModelRuntime} {predict : PredictId} {reply : Reply Score}
    (hresume : s.runtime.resumePredict predict = some (r, reply)) {pairs : List Pair}
    (hpairs : (s.runtime.calls predict).pairs = pairs) (hgood : s.PredictGood M P predict) :
    reply.Sound (Good M P s.settings) pairs := by
  obtain ⟨semaphore, hphase, -⟩ := ModelRuntime.resumePredict_frame hresume
  intro checked hcheck
  cases reply with
  | scores values =>
      obtain ⟨rfl, hlength⟩ := length_of_check hcheck
      unfold PredictGood at hgood
      rw [hphase, hpairs] at hgood
      exact hgood hlength
  | raised error => cases hcheck

theorem Tracked.replied (h : Tracked M P s) {r : ModelRuntime} {b : DynamicBatcher Score}
    {predict : PredictId} {reply : Reply Score} (hpredict : s.workerCall = some predict)
    (hresume : s.runtime.resumePredict predict = some (r, reply))
    (hreplied : s.batcher.replied reply = some b) :
    CallsTracked M P { s with runtime := r, batcher := b } := by
  have hrest : CallsTracked M P { s with runtime := r } :=
    h.toCallsTracked.keeps (Keeps.resumePredict hresume) (h.serving.resumePredict hresume)
      h.batcher rfl rfl
  have hbatcher : b.Sound fun _ _ => True :=
    DynamicBatcher.step_sound (.replied reply) h.batcher
      (DynamicBatcher.soundReplies_true _ _) hreplied
  obtain ⟨-, active, batch, hworker, rfl⟩ := DynamicBatcher.replied_cases hreplied
  obtain ⟨predict', hsame, hfor, hgood⟩ := h.worker _ _ _ hworker
  obtain rfl : predict = predict' := Option.some.inj (hpredict.symm.trans hsame)
  have hnodup := (List.nodup_append.mp h.batcher.nodup).2.1
  have hlocated := h.batcher.located _ _ _ hworker
  have hpairs : ∀ job, ((DynamicBatcher.resume s.batcher.limits s.batcher.jobs active batch
      reply).1 job).pairs = (s.batcher.jobs job).pairs := fun job =>
    (DynamicBatcher.resume_job (R := fun _ _ => True) s.batcher.limits hnodup hlocated
      (DynamicBatcher.soundReplies_true s.batcher (.replied reply) reply _ _ _ rfl hworker)
      job).pairs
  refine hrest.keeps ⟨le_rfl, fun _ _ => rfl, fun _ _ _ h => h, le_rfl,
    fun job _ => hpairs job, fun job _ hawaits hpromising => ?_⟩ hrest.serving hbatcher rfl rfl
  change BatchJob.Promising (Good M P r.settings) _ at hpromising
  change BatchJob.Promising (Good M P r.settings) _
  rw [resumePredict_settings hresume] at hpromising ⊢
  by_cases hmem : job ∈ batch.slices.map Prod.fst
  · have hsound := (hgood ⟨job, hmem, hawaits⟩).reply hresume hfor.2
    exact (DynamicBatcher.resume_job s.batcher.limits hnodup hlocated hsound job).promising
      hpromising
  · exact resume_promising_of_notMem hmem hpromising

/-! ### The steps of a call -/

def Detached : RerankPhase → Prop
  | .direct _ _ | .batched _ _ => False
  | _ => True

theorem Tracked.detach (h : Tracked M P s) (id : CallId) {call : RerankCall}
    (hphase : Detached call.phase) : Tracked M P (s.setCall id call) := by
  refine h.setCall ?_ fun scores job hbatched => ?_
  · unfold CallGood
    split
    · rename_i hdirect
      rw [hdirect] at hphase
      exact hphase.elim
    · rename_i hbatched
      rw [hbatched] at hphase
      exact hphase.elim
    · trivial
  · rw [hbatched] at hphase
    exact hphase.elim

theorem Tracked.respond (h : Tracked M P s) (id : CallId) (misses : List Nat)
    (scores : List (Option Score)) : Tracked M P (s.respond id misses scores) := by
  refine h.detach id ?_
  dsimp only
  split <;> trivial

theorem Tracked.enter (h : Tracked M P s) (pairs : List Pair) :
    Tracked M P { s with runtime := s.runtime.enter pairs } :=
  h.keeps (Keeps.enter s pairs) (h.serving.enter pairs) h.batcher rfl rfl
    fun _ _ _ hworker => ⟨hworker, rfl⟩

theorem Tracked.inferDirect (h : Tracked M P s) (id : CallId) (scores : List (Option Score)) :
    Tracked M P (s.inferDirect id scores
      ((s.calls id).missingPairs (RerankService.missing scores))) := by
  generalize hpairs : (s.calls id).missingPairs (RerankService.missing scores) = pairs
  have hnew : (s.runtime.enter pairs).calls s.runtime.entered =
      { pairs, phase := .waiting s.runtime.semaphore } := Function.update_self _ _ _
  refine (h.enter pairs).setCall ⟨⟨Nat.lt_succ_self _, ?_⟩, ?_⟩ fun _ _ hbatched => nomatch hbatched
  · rw [hnew]
    exact hpairs.symm
  · change PhaseGood M P _ _ _ ((s.runtime.enter pairs).calls s.runtime.entered).phase
    rw [hnew]
    trivial

theorem predict_queued {b b' : DynamicBatcher Score} {pairs : List Pair} {job : JobId}
    (h : b.predict pairs = (b', .queued job)) : b' = b.enqueue pairs ∧ job = b.submitted := by
  unfold DynamicBatcher.predict at h
  split at h
  · cases h
  split at h
  · cases h
  split at h
  · cases h
  · cases h
    exact ⟨rfl, rfl⟩

theorem Tracked.infer (h : Tracked M P s) (id : CallId) (scores : List (Option Score)) :
    Tracked M P (s.infer id scores) := by
  unfold Application.infer
  simp only
  split
  · exact h.respond id [] scores
  split
  · exact h.inferDirect id scores
  split
  · exact h.inferDirect id scores
  · exact h.detach id trivial
  · rename_i hmisses _ _ b job hqueued
    obtain ⟨rfl, rfl⟩ := predict_queued hqueued
    have hne : (s.calls id).missingPairs (RerankService.missing scores) ≠ [] := by
      simpa [RerankCall.missingPairs] using hmisses
    revert hne
    generalize hpairs : (s.calls id).missingPairs (RerankService.missing scores) = pairs
    intro hne
    have hqueue : Tracked M P { s with batcher := s.batcher.enqueue pairs } :=
      h.keeps (.batcher (.enqueue s.batcher pairs)) h.serving (h.batcher.enqueue hne) rfl rfl
        fun _ _ _ hworker => ⟨hworker, rfl⟩
    have hnew : (s.batcher.enqueue pairs).jobs s.batcher.submitted = { pairs } :=
      Function.update_self _ _ _
    refine hqueue.setCall ⟨⟨Nat.lt_succ_self _, ?_⟩, ?_⟩
      fun scores' job hphase group active batch hworker => ?_
    · rw [hnew]
      exact hpairs.symm
    · change BatchJob.Promising (Good M P s.settings)
        ((s.batcher.enqueue pairs).jobs s.batcher.submitted)
      rw [hnew]
      exact fun _ => BatchJob.Fresh.scored ⟨hne, .inl rfl⟩
    · obtain ⟨-, rfl⟩ := RerankPhase.batched.inj hphase
      exact notMem_slices h.batcher le_rfl hworker

theorem mem_setMany {prims : Primitives} {settings : Settings} {query : Text}
    {documents : List Text} {values : List Score} {w : ScoreCache.Write Score}
    (h : w ∈ ScoreCache.setMany prims settings query documents values) :
    w.settings = settings ∧ w.query = query ∧ (w.document, w.score) ∈ documents.zip values ∧
      w.key = ScoreCache.key prims w.settings w.query w.document := by
  unfold ScoreCache.setMany at h
  split at h
  · rw [← List.map_uncurry_zip_eq_zipWith, List.mem_map] at h
    obtain ⟨⟨document, score⟩, hmem, rfl⟩ := h
    exact ⟨rfl, rfl, hmem, rfl⟩
  · cases h

theorem CallsTracked.record (h : CallsTracked M P s) {writes : List (ScoreCache.Write Score)}
    (hwrites : ∀ w ∈ writes, Good M P w.settings (w.query, w.document) w.score) :
    CallsTracked M P { s with redis := s.redis ++ writes } where
  serving := h.serving
  batcher := h.batcher
  calls := h.calls
  redis w hw := (List.mem_append.mp hw).elim (h.redis w) (hwrites w)

theorem good_of_mem_setMany {prims : Primitives} {settings : Settings} {call : RerankCall}
    {misses : List Nat} {values : List Score}
    (hvalues : Forall₂ (Good M P settings) (call.missingPairs misses) values)
    {w : ScoreCache.Write Score}
    (hw : w ∈ ScoreCache.setMany prims settings call.query (call.missingTexts misses) values) :
    Good M P w.settings (w.query, w.document) w.score := by
  obtain ⟨hsettings, hquery, hmem, -⟩ := mem_setMany hw
  have hpairs : call.missingPairs misses =
      (call.missingTexts misses).map fun text => (call.query, text) := by
    simp [RerankCall.missingPairs, RerankCall.missingTexts]
  rw [hpairs, List.forall₂_map_left_iff] at hvalues
  rw [hsettings, hquery]
  exact List.forall₂_zip hvalues hmem

theorem Tracked.inferred (h : Tracked M P s) (prims : Primitives) {id : CallId}
    {scores : List (Option Score)} {values : List Score}
    (hvalues : values.length = (RerankService.missing scores).length →
      Forall₂ (Good M P s.settings)
        ((s.calls id).missingPairs (RerankService.missing scores)) values) :
    Tracked M P (s.inferred prims id scores values) := by
  unfold Application.inferred
  simp only
  split
  · exact h.detach id trivial
  rename_i hlength
  split
  · exact h.respond id _ _
  · have hrecorded : Tracked M P { s with
        redis := s.redis ++ ScoreCache.setMany prims s.settings (s.calls id).query
          ((s.calls id).missingTexts (RerankService.missing scores)) values } :=
      ⟨h.toCallsTracked.record fun w hw =>
        good_of_mem_setMany (hvalues (not_not.mp hlength)) hw, h.worker⟩
    exact hrecorded.detach id trivial

theorem Tracked.received (h : Tracked M P s) (prims : Primitives) {id : CallId}
    {scores : List (Option Score)} {reply : Reply Score}
    (hreply : reply.Sound (Good M P s.settings)
      ((s.calls id).missingPairs (RerankService.missing scores))) :
    Tracked M P (s.received prims id scores reply) := by
  cases reply with
  | scores values =>
      refine h.inferred prims fun hlength => hreply values ?_
      have hpairs : values.length =
          ((s.calls id).missingPairs (RerankService.missing scores)).length := by
        rw [hlength, RerankCall.missingPairs, List.length_map]
      simp [Reply.check, hpairs]
  | raised error => exact h.detach id trivial

theorem Tracked.reply (h : Tracked M P s) {id : CallId} {scores : List (Option Score)}
    {predict : PredictId} {r : ModelRuntime} {reply : Reply Score}
    (hphase : (s.calls id).phase = .direct scores predict)
    (hresume : s.runtime.resumePredict predict = some (r, reply)) :
    reply.Sound (Good M P s.settings)
      ((s.calls id).missingPairs (RerankService.missing scores)) := by
  have hcall := h.calls id
  simp only [CallGood, hphase] at hcall
  exact hcall.2.reply hresume hcall.1.2

theorem Tracked.jobReply (h : Tracked M P s) {id : CallId} {scores : List (Option Score)}
    {job : JobId} {reply : Reply Score} (hphase : (s.calls id).phase = .batched scores job)
    (hreply : Application.jobReply (s.batcher.jobs job).future = some reply) :
    reply.Sound (Good M P s.settings)
      ((s.calls id).missingPairs (RerankService.missing scores)) := by
  have hcall := h.calls id
  simp only [CallGood, hphase] at hcall
  intro checked hcheck
  unfold Application.jobReply at hreply
  split at hreply
  · cases hreply
  · rename_i values hresult
    cases hreply
    obtain ⟨rfl, -⟩ := length_of_check hcheck
    have hscored := (hcall.2 (by rw [hresult]; rfl)).result _ hresult
    rwa [hcall.1.2] at hscored
  · cases hreply
    cases hcheck
  · cases hreply
    cases hcheck

theorem Tracked.resumed (h : Tracked M P s) {predict : PredictId} {r : ModelRuntime}
    {reply : Reply Score} (hresume : s.runtime.resumePredict predict = some (r, reply)) :
    Tracked M P { s with runtime := r } :=
  h.keeps (Keeps.resumePredict hresume) (h.serving.resumePredict hresume) h.batcher rfl rfl
    fun _ _ _ hworker => ⟨hworker, rfl⟩

/-! ### The other steps -/

/-- `rerank` raises, goes on with no score known, or asks the cache. -/
theorem beginCall_cases {id : CallId} (h : s.beginCall id = some s') :
    (s.calls id).phase = .created ∧ id < s.created ∧
      ((∃ error, s' = s.setPhase id (.raised error)) ∨
        s.runtime.ready = true ∧ ∃ query prepared,
          RerankService.validate s.settings (s.calls id).request = .ok (query, prepared) ∧
          (s' = (s.accept id query prepared).infer id (List.replicate prepared.length none) ∨
            s.settings.rerankMode = .pairwise ∧
            s' = (s.accept id query prepared).setPhase id (.lookup s.settings))) := by
  unfold Application.beginCall at h
  simp only at h
  split at h
  · rename_i hphase
    split at h
    · rename_i hcreated
      refine ⟨hphase, hcreated, ?_⟩
      split at h
      · exact .inl ⟨_, (Option.some.inj h).symm⟩
      rename_i hready
      split at h
      · exact .inl ⟨_, (Option.some.inj h).symm⟩
      split at h
      · exact .inl ⟨_, (Option.some.inj h).symm⟩
      rename_i query prepared hvalidate
      refine .inr ⟨Bool.not_eq_false _ ▸ hready, query, prepared, hvalidate, ?_⟩
      split at h
      · exact .inl (Option.some.inj h).symm
      rename_i hmode
      split at h
      · refine .inr ⟨?_, (Option.some.inj h).symm⟩
        cases hcase : s.settings.rerankMode with
        | pairwise => rfl
        | listwise => exact absurd hcase hmode
      · rename_i hdisabled
        have hnone : ScoreCache.getMany (s.accept id query prepared).settings
            ((s.accept id query prepared).calls id).texts none =
            (List.replicate prepared.length none : List (Option Score)) := by
          simp [ScoreCache.getMany, accept, setCall, RerankCall.texts]
        rw [hnone] at h
        exact .inl (Option.some.inj h).symm
    · cases h
  · cases h

theorem Tracked.beginCall (h : Tracked M P s) {id : CallId} (hstep : s.beginCall id = some s') :
    Tracked M P s' := by
  obtain ⟨hphase, -, ⟨error, rfl⟩ | ⟨-, query, prepared, -, hnext⟩⟩ := beginCall_cases hstep
  · exact h.detach id trivial
  · have haccepted : Tracked M P (s.accept id query prepared) := by
      apply h.detach id
      rw [hphase]
      trivial
    rcases hnext with rfl | ⟨-, rfl⟩
    · exact haccepted.infer id _
    · exact haccepted.detach id trivial

theorem Keeps.cancelPredict (s : Application) (predict : PredictId) :
    Keeps M P s { s with runtime := s.runtime.cancelPredict predict } := by
  have hsettings : (s.runtime.cancelPredict predict).settings = s.settings := by
    unfold ModelRuntime.cancelPredict
    split <;> rfl
  rcases ModelRuntime.cancelPredict_frame s.runtime predict with hframe | ⟨phase, hphase, hframe⟩
  · exact .sameFrame hsettings hframe
  · refine .setPhase hsettings hframe fun _ _ => ?_
    rcases hphase with rfl | rfl <;> trivial

theorem Tracked.cancelPredict (h : Tracked M P s) (predict : PredictId) :
    Tracked M P { s with runtime := s.runtime.cancelPredict predict } :=
  h.keeps (Keeps.cancelPredict s predict) (h.serving.cancelPredict predict) h.batcher rfl rfl
    fun _ _ _ hworker => ⟨hworker, rfl⟩

theorem Tracked.cancelJob (h : Tracked M P s) (job : JobId) :
    Tracked M P { s with batcher := s.batcher.cancelJob job } :=
  h.keeps (.batcher (.cancelAll s.batcher [job])) h.serving (h.batcher.cancelAll [job]) rfl rfl
    fun _ _ _ hworker => ⟨hworker, rfl⟩

/-- Requests and batches of requests are nobody's concern here. -/
theorem Tracked.counters (h : Tracked M P s) (created : Nat) (batches : List BatchCall) :
    Tracked M P { s with created, batches } :=
  ⟨⟨h.serving, h.batcher, h.calls, h.redis⟩, h.worker⟩

theorem Tracked.create (h : Tracked M P s) (request : RerankRequest) :
    Tracked M P (s.create request) := by
  have hcall : Tracked M P (s.setCall s.created { request }) := h.detach s.created trivial
  exact hcall.counters _ s.batches

theorem Tracked.rerankBatch (h : Tracked M P s) (requests : List RerankRequest) :
    Tracked M P (s.rerankBatch requests) := by
  unfold Application.rerankBatch
  split
  · exact h.counters s.created _
  · have hcreated : Tracked M P (requests.foldl Application.create s) :=
      List.foldlRecOn requests Application.create h fun _ ht request _ => ht.create request
    exact hcreated.counters _ _

theorem Tracked.take (h : Tracked M P s) {b : DynamicBatcher Score}
    (htake : s.batcher.take = some b) : Tracked M P { s with batcher := b } := by
  have hbatcher := h.batcher.take htake
  obtain ⟨-, -, job, rest, -, -, rfl⟩ := DynamicBatcher.take_cases htake
  exact h.keeps (.batcher (.of_jobs_eq rfl rfl)) h.serving hbatcher rfl rfl
    fun _ _ _ hworker => nomatch hworker

theorem Tracked.windowClosed (h : Tracked M P s) {b : DynamicBatcher Score}
    (hclosed : s.batcher.windowClosed = some b) :
    Tracked M P { s with batcher := b }.callPredictor := by
  have hbatcher := h.batcher.windowClosed hclosed
  obtain ⟨-, -, -, rfl⟩ := DynamicBatcher.windowClosed_cases hclosed
  refine CallsTracked.callPredictor ?_
  exact h.toCallsTracked.keeps (.batcher (.of_jobs_eq rfl rfl)) h.serving hbatcher rfl rfl

/-- The pool is not interrupted with the worker. -/
theorem Tracked.workerCancelled (h : Tracked M P s) {b : DynamicBatcher Score}
    (hcancelled : s.batcher.workerCancelled = some b) :
    Tracked M P { s with
      batcher := b
      runtime := s.workerCall.elim s.runtime s.runtime.cancelPredict
      workerCall := none } := by
  have hbatcher := DynamicBatcher.step_sound .workerCancelled h.batcher
    (DynamicBatcher.soundReplies_true _ _) hcancelled
  have heq := DynamicBatcher.workerCancelled_eq hcancelled
  subst heq
  have hruntime : ∀ call : Option PredictId,
      Keeps M P s { s with runtime := call.elim s.runtime s.runtime.cancelPredict } ∧
        (call.elim s.runtime s.runtime.cancelPredict).Serving := by
    intro call
    cases call with
    | none => exact ⟨.sameFrame (r := s.runtime) rfl rfl, h.serving⟩
    | some predict => exact ⟨.cancelPredict s predict, h.serving.cancelPredict predict⟩
  obtain ⟨hkeeps, hserving⟩ := hruntime s.workerCall
  exact h.keeps ⟨hkeeps.entered, hkeeps.pairs, hkeeps.predicts, le_rfl, fun _ _ => rfl,
    hkeeps.promising⟩ hserving hbatcher rfl rfl fun _ _ _ hworker => nomatch hworker

theorem Tracked.closeReturn (h : Tracked M P s) {b : DynamicBatcher Score}
    (hreturn : s.batcher.closeReturn = some b) : Tracked M P { s with batcher := b } := by
  have hbatcher := DynamicBatcher.step_sound .closeReturn h.batcher
    (DynamicBatcher.soundReplies_true _ _) hreturn
  obtain ⟨-, rfl⟩ := DynamicBatcher.closeReturn_eq hreturn
  exact h.keeps (.batcher (.cancelAll s.batcher s.batcher.queue)) h.serving hbatcher rfl rfl
    fun _ _ _ hworker => nomatch hworker

end Application

end RerankerService
