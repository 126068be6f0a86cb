import RerankerService.Foundation.Outcome
import RerankerService.Proof.CacheKey
import RerankerService.Proof.Ranking

/-!
# A call asks the predictor once and answers with the ranking

The invariant of a course says, for each suspension of the call, what its locals have to do with the
history. Only the steps of the call itself touch either.
-/

namespace RerankerService

/-- The cached scores as `rerank` uses them: without a lookup all are absent. -/
def History.known (history : History) (call : RerankCall) : List (Option Score) :=
  history.cached.getD (List.replicate call.prepared.length none)

namespace Course

open Application (calls_setPhase calls_setPhase_of_ne calls_infer_of_ne calls_received_of_ne
  calls_beginCall_of_ne calls_of_apart apart)
open RerankService (missing scatter rankedResults validate)

/-- The call works for its own request; a listwise call never asks the cache. -/
structure Accepted (history : History) (call : RerankCall) : Prop where
  validated : ∃ settings, validate settings call.request = .ok (call.query, call.prepared)
  length : (history.known call).length = call.prepared.length
  listwise : call.mode = .listwise → history.cached = none

structure Silent (history : History) : Prop where
  asked : history.asked = []
  inferred : history.inferred = none

/-- The scores are complete, and the predictor was asked for those that were missing. -/
structure Merged (history : History) (call : RerankCall) (misses : List Nat)
    (scores : List (Option Score)) : Prop where
  places : misses = missing (history.known call)
  length : (history.inferred.getD []).length = misses.length
  merged : scores = scatter (history.known call) misses (history.inferred.getD [])
  asked : history.asked = if misses = [] then [] else [call.missingPairs misses]

structure Asking (history : History) (call : RerankCall) (scores : List (Option Score)) : Prop where
  accepted : Accepted history call
  known : scores = history.known call
  incomplete : missing scores ≠ []
  asked : history.asked = [call.missingPairs (missing scores)]
  inferred : history.inferred = none

def Stage (history : History) (call : RerankCall) : Prop :=
  match call.phase with
  | .created => Silent history ∧ history.cached = none
  | .lookup _ =>
      Accepted history call ∧ Silent history ∧ history.cached = none ∧ call.mode ≠ .listwise
  | .direct scores _ => Asking history call scores
  | .batched scores _ => Asking history call scores ∧ call.mode ≠ .listwise
  | .writing misses scores =>
      Accepted history call ∧ Merged history call misses scores ∧ call.mode ≠ .listwise
  | .returned response =>
      Accepted history call ∧ ∃ misses scores normalizedBy, Merged history call misses scores ∧
        response.results =
          rankedResults history.settings call.request call.prepared normalizedBy misses scores ∧
        response.usage.cacheHits = call.prepared.length - misses.length
  | .raised _ => history.asked = [] ∧ (call.mode = .listwise → history.cached = none)

variable {prims : Primitives} {id : CallId} {history : History} {s s' : Application}

theorem map_document_prepare {settings : Settings} {truncate : Bool} {documents : List Document}
    {total : Nat} {prepared : List PreparedDocument} {total' : Nat}
    (h : RerankService.prepare settings truncate total documents = .ok (prepared, total')) :
    prepared.map PreparedDocument.document = documents := by
  induction documents generalizing total prepared total' with
  | nil =>
      obtain ⟨rfl, -⟩ := Prod.mk.inj (Except.ok.inj h)
      rfl
  | cons document rest ih =>
      obtain ⟨first, hfirst, h⟩ := Outcome.bind_eq_ok.mp h
      obtain ⟨⟨others, total''⟩, hothers, h⟩ := Outcome.bind_eq_ok.mp h
      obtain ⟨rfl, -⟩ := Prod.mk.inj (Except.ok.inj h)
      have hdocument : first.document = document := by
        unfold RerankService.prepareDocument at hfirst
        split at hfirst
        · cases hfirst
          rfl
        split at hfirst
        · cases hfirst
          rfl
        · cases hfirst
      rw [List.map_cons, ih hothers, hdocument]

theorem map_document_validate {settings : Settings} {request : RerankRequest} {query : Text}
    {prepared : List PreparedDocument} (h : validate settings request = .ok (query, prepared)) :
    prepared.map PreparedDocument.document = request.documents := by
  unfold validate at h
  dsimp only at h
  split at h
  · cases h
  obtain ⟨_, -, h⟩ := Outcome.bind_eq_ok.mp h
  obtain ⟨⟨prepared', total⟩, hprepare, h⟩ := Outcome.bind_eq_ok.mp h
  dsimp only at h
  split at h
  · cases h
  obtain ⟨-, rfl⟩ := Prod.mk.inj (Except.ok.inj h)
  exact map_document_prepare hprepare

/-! ### The steps of the call -/

theorem requested_setPhase (s : Application) (id : CallId) (phase : RerankPhase) :
    (s.setPhase id phase).requested id =
      match phase with
      | .direct _ predict => [(s.runtime.calls predict).pairs]
      | .batched _ job => [(s.batcher.jobs job).pairs]
      | _ => [] := by
  rw [Application.requested, calls_setPhase]
  rfl

theorem stage_raised (hasked : history.asked = [])
    (hlistwise : (s.calls id).mode = .listwise → history.cached = none) (error : Error) :
    Stage (history.after (s.setPhase id (.raised error)) id)
      ((s.setPhase id (.raised error)).calls id) := by
  rw [calls_setPhase]
  exact ⟨List.append_eq_nil_iff.mpr ⟨hasked, requested_setPhase s id _⟩, hlistwise⟩

theorem stage_respond {misses : List Nat} {scores : List (Option Score)}
    (haccepted : Accepted history (s.calls id)) (hmerged : Merged history (s.calls id) misses scores)
    (hunrefused : (s.respond id misses scores).Unrefused id) :
    Stage (history.after (s.respond id misses scores) id)
      ((s.respond id misses scores).calls id) := by
  rw [Application.Unrefused, Application.respond, calls_setPhase] at hunrefused
  rw [Application.respond, calls_setPhase]
  by_cases hvalid : (s.response (s.calls id) misses scores).valid
  case neg => exact absurd (if_neg hvalid) hunrefused
  simp only [hvalid, if_true]
  refine ⟨⟨haccepted.1, haccepted.2, haccepted.3⟩, misses, scores, _,
    ⟨hmerged.1, hmerged.2, hmerged.3, ?_⟩, rfl, rfl⟩
  calc history.asked ++ (s.setPhase id _).requested id
      = history.asked ++ [] := congrArg (history.asked ++ ·) (requested_setPhase s id _)
    _ = history.asked := List.append_nil _
    _ = _ := hmerged.asked

theorem stage_inferDirect {scores : List (Option Score)}
    (haccepted : Accepted history (s.calls id)) (hsilent : Silent history)
    (hknown : scores = history.known (s.calls id)) (hincomplete : missing scores ≠ []) :
    Stage
      (history.after (s.inferDirect id scores ((s.calls id).missingPairs (missing scores))) id)
      ((s.inferDirect id scores ((s.calls id).missingPairs (missing scores))).calls id) := by
  rw [Application.inferDirect, calls_setPhase]
  refine ⟨⟨haccepted.1, haccepted.2, haccepted.3⟩, hknown, hincomplete, ?_, hsilent.inferred⟩
  rw [History.after, requested_setPhase, hsilent.asked]
  exact congrArg (fun call => [PredictCall.pairs call])
    (Function.update_self s.runtime.entered _ s.runtime.calls)

theorem stage_infer {scores : List (Option Score)} (haccepted : Accepted history (s.calls id))
    (hsilent : Silent history) (hknown : scores = history.known (s.calls id))
    (hunrefused : (s.infer id scores).Unrefused id) :
    Stage (history.after (s.infer id scores) id) ((s.infer id scores).calls id) := by
  unfold Application.infer at hunrefused ⊢
  dsimp only at hunrefused ⊢
  split
  · rename_i hnone
    rw [if_pos hnone] at hunrefused
    refine stage_respond haccepted ⟨?_, ?_, ?_, ?_⟩ hunrefused
    · rw [← hknown, hnone]
    · rw [hsilent.inferred]
      rfl
    · rw [← hknown]
      rfl
    · rw [if_pos rfl, hsilent.asked]
  rename_i hincomplete
  split
  · exact stage_inferDirect haccepted hsilent hknown hincomplete
  rename_i hmode
  split
  · exact stage_inferDirect haccepted hsilent hknown hincomplete
  · exact stage_raised hsilent.asked haccepted.listwise _
  · rename_i b job hqueued
    obtain ⟨rfl, rfl⟩ := Application.predict_queued hqueued
    rw [calls_setPhase]
    refine ⟨⟨⟨haccepted.1, haccepted.2, haccepted.3⟩, hknown, hincomplete, ?_, hsilent.inferred⟩,
      hmode⟩
    rw [History.after, requested_setPhase, hsilent.asked]
    exact congrArg (fun job => [BatchJob.pairs job])
      (Function.update_self s.batcher.submitted _ s.batcher.jobs)

theorem stage_begun (h : Stage history (s.calls id)) (hstep : s.beginCall id = some s')
    (hunrefused : s'.Unrefused id) : Stage (history.after s' id) (s'.calls id) := by
  obtain ⟨hphase, -, ⟨error, rfl⟩ | ⟨-, query, prepared, hvalidate, hnext⟩⟩ :=
    Application.beginCall_cases hstep
  · simp only [Stage, hphase] at h
    exact stage_raised h.1.asked (fun _ => h.2) error
  simp only [Stage, hphase] at h
  obtain ⟨hsilent, hcached⟩ := h
  have hcall : (s.accept id query prepared).calls id = { s.calls id with
      query, prepared, activeModel := s.runtime.model, mode := s.settings.rerankMode } :=
    Function.update_self _ _ _
  have hknown : history.known ((s.accept id query prepared).calls id) =
      List.replicate prepared.length none := by
    rw [hcall, History.known, hcached]
    rfl
  have haccepted : Accepted history ((s.accept id query prepared).calls id) := by
    refine ⟨⟨s.settings, ?_⟩, ?_, fun _ => hcached⟩
    · rw [hcall]
      exact hvalidate
    · rw [hknown, hcall, List.length_replicate]
  rcases hnext with rfl | ⟨hpairwise, rfl⟩
  · exact stage_infer haccepted hsilent hknown.symm hunrefused
  · rw [calls_setPhase]
    refine ⟨⟨haccepted.1, haccepted.2, haccepted.3⟩, ⟨?_, hsilent.inferred⟩, hcached, ?_⟩
    · rw [History.after, requested_setPhase, hsilent.asked]
      rfl
    · rw [hcall, hpairwise]
      simp

theorem stage_lookedUp {asked : Settings} {answer : Option (List (Option Score))}
    (h : Stage history (s.calls id)) (hphase : (s.calls id).phase = .lookup asked)
    (hstep : s.lookedUp prims id answer = some s') (hunrefused : s'.Unrefused id) :
    Stage ({ history with
      cached := some (ScoreCache.getMany asked (s.calls id).texts answer) }.after s' id)
      (s'.calls id) := by
  simp only [Stage, hphase] at h
  obtain ⟨haccepted, hsilent, hcached, hmode⟩ := h
  simp only [Application.lookedUp, hphase] at hstep
  split at hstep
  case isFalse => cases hstep
  rename_i hanswers
  cases hstep
  refine stage_infer ?_ ?_ ?_ hunrefused
  · refine ⟨haccepted.1, ?_, fun hlistwise => absurd hlistwise hmode⟩
    change (ScoreCache.getMany asked (s.calls id).texts answer).length = _
    have htexts : (s.calls id).texts.length = (s.calls id).prepared.length := List.length_map _
    unfold ScoreCache.getMany
    split
    · cases answer with
      | none => rw [List.length_replicate, htexts]
      | some values =>
          simp only [Option.all_some, Application.answers, Bool.and_eq_true,
            decide_eq_true_iff] at hanswers
          rw [hanswers.1, ScoreCache.keys, List.length_map, htexts]
    · rw [List.length_replicate, htexts]
  · exact ⟨hsilent.1, hsilent.2⟩
  · rfl

theorem stage_inferred {scores : List (Option Score)} {values : List Score}
    (h : Asking history (s.calls id) scores) (hlength : values.length = (missing scores).length)
    (hunrefused : (s.inferred prims id scores values).Unrefused id) :
    Stage ({ history with inferred := some values }.after (s.inferred prims id scores values) id)
      ((s.inferred prims id scores values).calls id) := by
  have haccepted : Accepted { history with inferred := some values } (s.calls id) :=
    ⟨h.accepted.1, h.accepted.2, h.accepted.3⟩
  have hmerged : Merged { history with inferred := some values } (s.calls id) (missing scores)
      (scatter scores (missing scores) values) := by
    refine ⟨congrArg missing h.known, hlength, ?_, ?_⟩
    · exact congrArg (scatter · (missing scores) values) h.known
    · rw [if_neg h.incomplete]
      exact h.asked
  unfold Application.inferred at hunrefused ⊢
  dsimp only at hunrefused ⊢
  rw [if_neg (not_not.mpr hlength)] at hunrefused ⊢
  split
  · rename_i hdirect
    rw [if_pos hdirect] at hunrefused
    exact stage_respond haccepted hmerged hunrefused
  · rename_i hcacheable
    rw [calls_setPhase]
    refine ⟨⟨haccepted.1, haccepted.2, haccepted.3⟩,
      ⟨hmerged.1, hmerged.2, hmerged.3, ?_⟩, fun hlistwise => hcacheable (.inl hlistwise)⟩
    rw [History.after, requested_setPhase]
    exact (List.append_nil _).trans hmerged.asked

theorem stage_predicted {pairs : List Pair} {values : List Score}
    (h : Stage history (s.calls id)) (hasked : history.asked = [pairs])
    (hreply : s.reply id = some (.scores values)) (hlength : values.length = pairs.length)
    (hstep : s.predicted prims id = some s') (hunrefused : s'.Unrefused id) :
    Stage ({ history with inferred := some values }.after s' id) (s'.calls id) := by
  have hplaces : ∀ scores, Asking history (s.calls id) scores →
      values.length = (missing scores).length := by
    intro scores hasking
    have hpairs : [pairs] = [(s.calls id).missingPairs (missing scores)] :=
      hasked.symm.trans hasking.asked
    rw [hlength, List.singleton_inj.mp hpairs, RerankCall.missingPairs, List.length_map]
  cases hphase : (s.calls id).phase with
  | direct scores predict =>
      simp only [Stage, hphase] at h
      simp only [Application.reply, hphase, Option.map_eq_some_iff] at hreply
      simp only [Application.predicted, hphase, Option.map_eq_some_iff] at hstep
      obtain ⟨next, hnext, hvalues⟩ := hreply
      obtain ⟨next', hnext', rfl⟩ := hstep
      obtain rfl : next = next' := Option.some.inj (hnext.symm.trans hnext')
      rw [hvalues]
      rw [hvalues] at hunrefused
      exact stage_inferred (s := { s with runtime := next.1 }) h (hplaces scores h) hunrefused
  | batched scores job =>
      simp only [Stage, hphase] at h
      simp only [Application.reply, hphase] at hreply
      simp only [Application.predicted, hphase, hreply, Option.map_some,
        Option.some.injEq] at hstep
      subst hstep
      exact stage_inferred h.1 (hplaces scores h.1) hunrefused
  | _ => simp [Application.reply, hphase] at hreply

theorem stage_written (h : Stage history (s.calls id)) (hstep : s.written id = some s')
    (hunrefused : s'.Unrefused id) : Stage (history.after s' id) (s'.calls id) := by
  unfold Application.written at hstep
  split at hstep
  · rename_i misses scores hphase
    simp only [Stage, hphase] at h
    cases hstep
    exact stage_respond h.1 h.2.1 hunrefused
  · cases hstep

/-- By induction on the course: a step of another coroutine changes neither side. -/
theorem stage (h : Course prims id history s) : Stage history (s.calls id) := by
  induction h with
  | created hphase =>
      rw [Stage, hphase]
      exact ⟨⟨rfl, rfl⟩, rfl⟩
  | elsewhere _ hcall ih => rwa [hcall]
  | begun _ hstep hunrefused ih => exact stage_begun ih hstep hunrefused
  | lookedUp _ hphase hstep hunrefused ih => exact stage_lookedUp ih hphase hstep hunrefused
  | predicted _ hasked hreply hlength hstep hunrefused ih =>
      exact stage_predicted ih hasked hreply hlength hstep hunrefused
  | written _ hstep hunrefused ih => exact stage_written ih hstep hunrefused

/-! ### Every call of every run follows a course -/

theorem meanwhile {actions : List Application.Action} (h : Course prims id history s)
    (hactions : actions.all apart = true)
    (hrun : Transition.run (Application.step prims) s actions = some s') :
    Course prims id history s' := by
  induction actions generalizing s with
  | nil =>
      obtain rfl : s = s' := Option.some.inj hrun
      exact h
  | cons a rest ih =>
      obtain ⟨next, hnext, hrest⟩ := Option.bind_eq_some_iff.mp hrun
      rw [List.all_cons, Bool.and_eq_true] at hactions
      have hcalls := calls_of_apart hnext hactions.1
      exact ih (h.elsewhere (congrFun hcalls id)) hactions.2 hrest

/-- The call follows a course with such a history, unless it has failed. -/
def Followed (prims : Primitives) (H : History → Prop) (id : CallId) (s : Application) : Prop :=
  (∃ history, Course prims id history s ∧ H history) ∨ ∃ error, (s.calls id).phase = .raised error

/-- What is known of a history is about the scores in it, and the next step `a` brings good ones. -/
structure Brings (prims : Primitives) (H : History → Prop) (id : CallId) (s : Application)
    (a : Application.Action) : Prop where
  fresh : ∀ settings, H { settings }
  later : ∀ history s, H history → H (history.after s id)
  cached : ∀ history answer asked, a = .lookedUp id answer → (s.calls id).phase = .lookup asked →
    (s.lookedUp prims id answer).isSome → H history →
    H { history with cached := some (ScoreCache.getMany asked (s.calls id).texts answer) }
  inferred : ∀ history scores values, a = .predicted id →
    ((∃ predict, (s.calls id).phase = .direct scores predict) ∨
      ∃ job, (s.calls id).phase = .batched scores job) →
    s.reply id = some (.scores values) → values.length = (missing scores).length → H history →
    H { history with inferred := some values }

theorem brings_true (id : CallId) (s : Application) (a : Application.Action) :
    Brings prims (fun _ => True) id s a :=
  ⟨fun _ => trivial, fun _ _ _ => trivial, fun _ _ _ _ _ _ _ => trivial,
    fun _ _ _ _ _ _ _ _ => trivial⟩

variable {H : History → Prop} {a : Application.Action}

theorem Followed.elsewhere (h : Followed prims H id s) (hcall : s'.calls id = s.calls id) :
    Followed prims H id s' := by
  rcases h with ⟨history, h, hhistory⟩ | ⟨error, hraised⟩
  · exact .inl ⟨history, h.elsewhere hcall, hhistory⟩
  · exact .inr ⟨error, hcall ▸ hraised⟩

theorem followed_of_created (hfresh : ∀ settings, H { settings })
    (hphase : (s.calls id).phase = .created) : Followed prims H id s :=
  .inl ⟨_, .created hphase, hfresh _⟩

theorem followed_of_raised (s : Application) (id : CallId) (error : Error) :
    Followed prims H id (s.setPhase id (.raised error)) :=
  .inr ⟨error, congrArg RerankCall.phase (calls_setPhase s id _)⟩

/-- A failed call takes no step, so a call that takes one follows a course. -/
theorem Followed.course (h : Followed prims H id s)
    (hopen : ∀ error, (s.calls id).phase ≠ .raised error) :
    ∃ history, Course prims id history s ∧ H history := by
  rcases h with hcourse | ⟨error, hraised⟩
  · exact hcourse
  · exact absurd hraised (hopen error)

/-- A step of the call leads along its course unless the schema refuses the results. -/
theorem followed_of_unrefused
    (h : s'.Unrefused id → ∃ history, Course prims id history s' ∧ H history) :
    Followed prims H id s' := by
  by_cases hrefused : (s'.calls id).phase = .raised Application.invalidResult
  · exact .inr ⟨_, hrefused⟩
  · exact .inl (h hrefused)

/-- A raised reply fails the call, and so does one with a wrong number of scores. -/
theorem followed_of_reply {t : Application} {scores : List (Option Score)} {reply : Reply Score}
    (hbrings : Brings prims H id s (.predicted id)) (h : Course prims id history s)
    (hhistory : H history) (hasking : Asking history (s.calls id) scores)
    (hphase : (∃ predict, (s.calls id).phase = .direct scores predict) ∨
      ∃ job, (s.calls id).phase = .batched scores job)
    (hreply : s.reply id = some reply)
    (hstep : s.predicted prims id = some (t.received prims id scores reply)) :
    Followed prims H id (t.received prims id scores reply) := by
  cases reply with
  | raised error => exact followed_of_raised t id _
  | scores values =>
      by_cases hlength : values.length = (missing scores).length
      · have hinferred := hbrings.inferred history scores values rfl hphase hreply hlength hhistory
        refine followed_of_unrefused fun hunrefused =>
          ⟨_, h.predicted hasking.asked hreply ?_ hstep hunrefused, hbrings.later _ _ hinferred⟩
        rw [hlength, RerankCall.missingPairs, List.length_map]
      · simp only [Application.received, Application.inferred, ne_eq, hlength, not_false_eq_true,
          ↓reduceIte]
        exact followed_of_raised t id _

theorem Followed.begun (h : Followed prims H id s)
    (hlater : ∀ history s, H history → H (history.after s id))
    (hstep : s.beginCall id = some s') : Followed prims H id s' := by
  obtain ⟨hphase, -⟩ := Application.beginCall_cases hstep
  obtain ⟨history, hcourse, hhistory⟩ := h.course (by simp [hphase])
  exact followed_of_unrefused fun hunrefused =>
    ⟨_, hcourse.begun hstep hunrefused, hlater _ _ hhistory⟩

theorem calls_create (s : Application) (request : RerankRequest) (id : CallId) :
    (s.create request).calls id = s.calls id ∨ ((s.create request).calls id).phase = .created := by
  by_cases hid : id = s.created
  · subst hid
    exact .inr (congrArg RerankCall.phase (Function.update_self s.created _ s.calls))
  · exact .inl (Function.update_of_ne hid _ _)

theorem Followed.create (h : Followed prims H id s) (hfresh : ∀ settings, H { settings })
    (request : RerankRequest) : Followed prims H id (s.create request) := by
  rcases calls_create s request id with hcall | hphase
  · exact h.elsewhere hcall
  · exact followed_of_created hfresh hphase

theorem Followed.step (h : Followed prims H id s) (hbrings : Brings prims H id s a)
    (hstep : s.step prims a = some s') : Followed prims H id s' := by
  cases Application.step_takes hstep with
  | @called request s' hbegin =>
      have hcreated := h.create hbrings.fresh request
      by_cases hid : id = s.created
      · subst hid
        exact hcreated.begun hbrings.later hbegin
      · exact hcreated.elsewhere (calls_beginCall_of_ne hid hbegin)
  | @batchCreated requests =>
      unfold Application.rerankBatch
      split
      · exact h.elsewhere rfl
      · have hcreated : Followed prims H id (requests.foldl Application.create s) :=
          List.foldlRecOn requests Application.create h fun _ ht request _ =>
            ht.create hbrings.fresh request
        exact hcreated.elsewhere rfl
  | @begun id' s' hbegin =>
      by_cases hid : id = id'
      · subst hid
        exact h.begun hbrings.later hbegin
      · exact h.elsewhere (calls_beginCall_of_ne hid hbegin)
  | @lookedUp id' answer asked hphase hanswer =>
      by_cases hid : id = id'
      · subst hid
        obtain ⟨history, hcourse, hhistory⟩ := h.course (by simp [hphase])
        have hsome : (s.lookedUp prims id answer).isSome := Option.isSome_of_eq_some hstep
        have hcached := hbrings.cached history answer asked rfl hphase hsome hhistory
        exact followed_of_unrefused fun hunrefused =>
          ⟨_, hcourse.lookedUp hphase hstep hunrefused, hbrings.later _ _ hcached⟩
      · exact h.elsewhere (calls_infer_of_ne hid s _)
  | @predicted id' scores predict r reply hphase hresume =>
      by_cases hid : id = id'
      · subst hid
        obtain ⟨history, hcourse, hhistory⟩ := h.course (by simp [hphase])
        have hasking := hcourse.stage
        simp only [Stage, hphase] at hasking
        have hreply : s.reply id = some reply := by
          simp only [Application.reply, hphase, hresume, Option.map_some]
        exact followed_of_reply hbrings hcourse hhistory hasking (.inl ⟨_, hphase⟩) hreply hstep
      · exact h.elsewhere (calls_received_of_ne hid _ _ _)
  | @jobSettled id' scores job reply hphase hanswer =>
      by_cases hid : id = id'
      · subst hid
        obtain ⟨history, hcourse, hhistory⟩ := h.course (by simp [hphase])
        have hasking := hcourse.stage
        simp only [Stage, hphase] at hasking
        have hreply : s.reply id = some reply := by simp only [Application.reply, hphase, hanswer]
        exact followed_of_reply hbrings hcourse hhistory hasking.1 (.inr ⟨_, hphase⟩) hreply hstep
      · exact h.elsewhere (calls_received_of_ne hid s _ _)
  | @timedOut id' scores predict hphase =>
      by_cases hid : id = id'
      · subst hid
        exact followed_of_raised _ id _
      · exact h.elsewhere (calls_setPhase_of_ne hid _ _)
  | @jobTimedOut id' scores job hphase =>
      by_cases hid : id = id'
      · subst hid
        exact followed_of_raised _ id _
      · exact h.elsewhere (calls_setPhase_of_ne hid _ _)
  | @written id' misses scores hphase =>
      by_cases hid : id = id'
      · subst hid
        obtain ⟨history, hcourse, hhistory⟩ := h.course (by simp [hphase])
        exact followed_of_unrefused fun hunrefused =>
          ⟨_, hcourse.written hstep hunrefused, hbrings.later _ _ hhistory⟩
      · exact h.elsewhere (calls_setPhase_of_ne hid s _)
  | _ => exact h.elsewhere (congrFun (calls_of_apart hstep rfl) id)

/-- Every call of every run follows a course until it fails. -/
theorem followed_of_reachable {init : Application → Prop}
    (hinit : ∀ s, init s → ∀ id, (s.calls id).phase = .created)
    (hreach : Transition.Reachable (Application.step prims) init s) (id : CallId) :
    Followed prims (fun _ => True) id s := by
  apply hreach.invariant (I := fun s => Followed prims (fun _ => True) id s)
  · exact fun s h => followed_of_created (fun _ => trivial) (hinit s h id)
  · exact fun s a s' h _ hstep => h.step (brings_true id s a) hstep

/-! ### The ranking -/

theorem Accepted.documents {call : RerankCall} (h : Accepted history call) :
    call.prepared.map PreparedDocument.document = call.request.documents := by
  obtain ⟨settings, hvalidate⟩ := h.validated
  exact map_document_validate hvalidate

theorem unscoredPairs_replicate (query : Text) (prepared : List PreparedDocument) :
    RerankService.unscoredPairs query prepared (List.replicate prepared.length none) =
      prepared.map fun document => (query, document.text) := by
  induction prepared with
  | nil => rfl
  | cons document rest ih =>
      simp only [List.length_cons, List.replicate_succ, List.map_cons]
      rw [← ih]
      rfl

theorem Asking.asked_eq {call : RerankCall} {scores : List (Option Score)}
    (h : Asking history call scores) : history.asked =
      [RerankService.unscoredPairs call.query call.prepared (history.known call)] := by
  rw [h.asked, h.known, RerankService.missingPairs_eq h.accepted.length]

theorem Merged.asked_cases {call : RerankCall} {misses : List Nat} {scores : List (Option Score)}
    (h : Merged history call misses scores) (haccepted : Accepted history call) :
    history.asked = [] ∨ history.asked =
      [RerankService.unscoredPairs call.query call.prepared (history.known call)] := by
  rw [h.asked, ← RerankService.missingPairs_eq haccepted.length, ← h.places]
  split
  · exact .inl rfl
  · exact .inr rfl

theorem Merged.length_asked {call : RerankCall} {misses : List Nat} {scores : List (Option Score)}
    (h : Merged history call misses scores) : history.asked.flatten.length = misses.length := by
  rw [h.asked]
  split
  · rename_i hnone
    rw [hnone]
    rfl
  · rw [List.flatten_singleton, RerankCall.missingPairs, List.length_map]

theorem Merged.unscoredPairs {call : RerankCall} {misses : List Nat} {scores : List (Option Score)}
    (h : Merged history call misses scores) (haccepted : Accepted history call) :
    history.asked.flatten =
      RerankService.unscoredPairs call.query call.prepared (history.known call) := by
  rw [h.asked, ← RerankService.missingPairs_eq haccepted.length, ← h.places]
  split
  · rename_i hnone
    rw [hnone]
    rfl
  · exact List.flatten_singleton

theorem asked_of_stage {call : RerankCall} (h : Stage history call) :
    history.asked = [] ∨ history.asked =
      [RerankService.unscoredPairs call.query call.prepared (history.known call)] := by
  unfold Stage at h
  split at h
  · exact .inl h.1.asked
  · exact .inl h.2.1.asked
  · exact .inr h.asked_eq
  · exact .inr h.1.asked_eq
  · exact h.2.1.asked_cases h.1
  · obtain ⟨haccepted, misses, scores, normalizedBy, hmerged, -⟩ := h
    exact hmerged.asked_cases haccepted
  · exact .inl h.1

theorem cached_of_listwise {call : RerankCall} (h : Stage history call)
    (hlistwise : call.mode = .listwise) : history.cached = none := by
  unfold Stage at h
  split at h
  · exact h.2
  · exact h.2.2.1
  · exact h.accepted.listwise hlistwise
  · exact h.1.accepted.listwise hlistwise
  · exact h.1.listwise hlistwise
  · exact h.1.listwise hlistwise
  · exact h.2 hlistwise

/-- **The results are the stable top-k of the documents by their own scores**, and the predictor is
asked at most once, for exactly the missing ones. -/
theorem ranks (h : Course prims id history s) :
    (history.asked = [] ∨ history.asked = [RerankService.unscoredPairs (s.calls id).query
      (s.calls id).prepared (history.known (s.calls id))]) ∧
    ((s.calls id).mode = .listwise → history.cached = none ∧
      (∀ asked, (s.calls id).phase ≠ .lookup asked) ∧
      (∀ misses scores, (s.calls id).phase ≠ .writing misses scores) ∧
      RerankService.unscoredPairs (s.calls id).query (s.calls id).prepared
        (history.known (s.calls id)) =
          (s.calls id).prepared.map fun document => ((s.calls id).query, document.text)) ∧
    (∀ error, (s.calls id).phase = .raised error → history.asked = []) ∧
    ∀ response, (s.calls id).phase = .returned response →
      (∀ score, some score ∈ history.known (s.calls id) → score.value ≠ .nan) →
      (∀ score ∈ history.inferred.getD [], score.value ≠ .nan) →
      (∃ settings, validate settings (s.calls id).request =
        .ok ((s.calls id).query, (s.calls id).prepared)) ∧
      history.asked.flatten = RerankService.unscoredPairs (s.calls id).query (s.calls id).prepared
        (history.known (s.calls id)) ∧
      (∃ order, RerankService.TopRanked (s.calls id).request (history.known (s.calls id))
        (history.inferred.getD [])
        (min ((s.calls id).request.topN.getD history.settings.defaultTopN)
          (s.calls id).request.documents.length) response.results order) ∧
      response.usage.cacheHits =
        (s.calls id).request.documents.length - history.asked.flatten.length := by
  have hstage := h.stage
  refine ⟨asked_of_stage hstage, fun hlistwise => ?_, fun error hphase => ?_,
    fun response hphase hknown hinferred => ?_⟩
  · have hcached := cached_of_listwise hstage hlistwise
    refine ⟨hcached, fun asked hphase => ?_, fun misses scores hphase => ?_, ?_⟩
    · simp only [Stage, hphase] at hstage
      exact hstage.2.2.2 hlistwise
    · simp only [Stage, hphase] at hstage
      exact hstage.2.2 hlistwise
    · rw [History.known, hcached]
      exact unscoredPairs_replicate _ _
  · simp only [Stage, hphase] at hstage
    exact hstage.1
  · simp only [Stage, hphase] at hstage
    obtain ⟨haccepted, misses, scores, normalizedBy, hmerged, hresults, husage⟩ := hstage
    have hunscored := hmerged.unscoredPairs haccepted
    refine ⟨haccepted.validated, hunscored, ?_, ?_⟩
    · rw [hresults, hmerged.merged, hmerged.places]
      refine ⟨_, RerankService.rankedResults_topRanked _ _ haccepted.documents haccepted.length
        (hmerged.places ▸ hmerged.length) fun i score hown => ?_⟩
      rcases RerankService.mem_of_ownScore hown with hmem | hmem
      · exact hknown score hmem
      · exact hinferred score hmem
    · rw [husage, hmerged.length_asked, ← haccepted.documents, List.length_map]

open Application in
/-- The application after the initial load. -/
def loadedApplication : Application :=
  (Transition.run (step ScoreCache.asciiPrimitives) smallApplication loading).getD smallApplication

open Application ScoreCache in
/-- Three documents; an earlier process has cached the score of the second one. -/
def threeDocuments : Application :=
  { loadedApplication.create { oneDocument with
        documents := [{ id := ['1'], text := ['a'] }, { id := ['2'], text := ['b'] },
          { id := ['3'], text := ['c'] }]
        documents_ne := List.cons_ne_nil _ _ } with
    redis :=
      [{ key := ScoreCache.key asciiPrimitives smallSettings ['q'] ['b']
         settings := smallSettings
         query := ['q']
         document := ['b']
         score := { value := .finite 1, source := none, pair := none } }] }

/-- The predictor answers `0` and `1`: the tie is broken by the input order. -/
theorem ranks_threeDocuments : ∃ history s response,
    Course ScoreCache.asciiPrimitives 0 history s ∧ (s.calls 0).phase = .returned response ∧
      response.results.map Result.id = [['2'], ['3'], ['1']] ∧
      ∃ order, RerankService.TopRanked (s.calls 0).request (history.known (s.calls 0))
        (history.inferred.getD []) 3 response.results order := by
  have hbegun : Course ScoreCache.asciiPrimitives 0 _ _ :=
    (Course.created (s := threeDocuments) rfl).begun rfl (by intro h; cases h)
  have hasked := hbegun.lookedUp rfl (rfl : Application.lookedUp _ _ _ (some [none, some
    { value := .finite 1, source := none, pair := none }, none]) = _) (by intro h; cases h)
  have hfinished := hasked.meanwhile (rfl : [.runtime (.acquire 0), .runtime (.begin 0),
    .runtime (.finish 0 { result := .ok [.finite 0, .finite 1] })].all apart = true) rfl
  have hwritten := (hfinished.predicted rfl rfl rfl rfl (by intro h; cases h)).written rfl
    (by intro h; cases h)
  obtain ⟨history, s, response, hcourse, hphase, hids, hk, hknown, hinferred⟩ :
      ∃ history s response, Course ScoreCache.asciiPrimitives 0 history s ∧
        (s.calls 0).phase = .returned response ∧
        response.results.map Result.id = [['2'], ['3'], ['1']] ∧
        min ((s.calls 0).request.topN.getD history.settings.defaultTopN)
          (s.calls 0).request.documents.length = 3 ∧
        (history.known (s.calls 0)).all (fun score => score.all (·.value ≠ .nan)) = true ∧
        (history.inferred.getD []).all (·.value ≠ .nan) = true :=
    ⟨_, _, _, hwritten, rfl, rfl, rfl, rfl, rfl⟩
  refine ⟨history, s, response, hcourse, hphase, hids, ?_⟩
  rw [← hk]
  refine (hcourse.ranks.2.2.2 response hphase (fun score hmem => ?_) fun score hmem => ?_).2.2.1
  · exact of_decide_eq_true (List.all_eq_true.mp hknown (some score) hmem)
  · exact of_decide_eq_true (List.all_eq_true.mp hinferred score hmem)

end Course

end RerankerService
