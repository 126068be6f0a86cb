import RerankerService.Proof.Tracking

/-!
# The configuration in a run

An activation, a rollback and a patch change the configuration while scores are under way; every
other step leaves the settings, the active model and the existing objects alone. Scores stay good in
a run whose changes of the configuration disturb nothing that a live call still awaits.
-/

namespace RerankerService

namespace ModelRuntime

variable {s s' s'' : ModelRuntime}

/-- The same settings and the same objects; others may have been added. -/
structure SameModels (s s' : ModelRuntime) : Prop where
  settings : s'.settings = s.settings
  loaded : s.loaded ≤ s'.loaded
  sources : ∀ m < s.loaded, s'.sources m = s.sources m

theorem SameModels.refl (s : ModelRuntime) : SameModels s s :=
  ⟨rfl, le_rfl, fun _ _ => rfl⟩

theorem SameModels.background {a : Action} (hbackground : Application.background a)
    (hswitch : ¬s.Switches a) (h : s.step a = some s') : SameModels s s' := by
  have hsettings := settings_eq hbackground hswitch h
  cases step_frame hbackground h with
  | same heq => exact ⟨hsettings, (congrArg Frame.loaded heq).ge,
      fun m _ => congrFun (congrArg Frame.sources heq) m⟩
  | allocated name revision maxLength loaded heq =>
      refine ⟨hsettings, ?_, fun m hm => ?_⟩
      · exact (Nat.le_succ _).trans (congrArg Frame.loaded heq).ge
      · exact (congrFun (congrArg Frame.sources heq) m).trans (Function.update_of_ne hm.ne _ _)
  | advanced id phase hadvances heq => exact ⟨hsettings, (congrArg Frame.loaded heq).ge,
      fun m _ => congrFun (congrArg Frame.sources heq) m⟩

/-- Nothing but calls of `predict` has moved. -/
structure Predicts (s s' : ModelRuntime) : Prop where
  frame : ∃ calls entered, s'.frame = { s.frame with calls, entered }
  slots : s'.slots = s.slots
  initialLoad : s'.initialLoad = s.initialLoad
  ready : s'.ready = s.ready

theorem Predicts.refl (s : ModelRuntime) : Predicts s s :=
  ⟨⟨s.calls, s.entered, rfl⟩, rfl, rfl, rfl⟩

theorem Predicts.trans (h : Predicts s s') (h' : Predicts s' s'') : Predicts s s'' := by
  obtain ⟨calls, entered, hframe⟩ := h.frame
  obtain ⟨calls', entered', hframe'⟩ := h'.frame
  refine ⟨⟨calls', entered', ?_⟩, h'.slots.trans h.slots, h'.initialLoad.trans h.initialLoad,
    h'.ready.trans h.ready⟩
  rw [hframe', hframe]

theorem Predicts.sameModels (h : Predicts s s') : SameModels s s' := by
  obtain ⟨calls, entered, hframe⟩ := h.frame
  exact
    { settings := settings_eq_of_frame (by rw [hframe]) (congrArg Slots.activeIdentity h.slots)
      loaded := (congrArg Frame.loaded hframe).ge
      sources := fun m _ => congrFun (congrArg Frame.sources hframe) m }

theorem Predicts.model (h : Predicts s s') : s'.model = s.model :=
  congrArg Slots.active h.slots

theorem Predicts.enter (s : ModelRuntime) (pairs : List Pair) : Predicts s (s.enter pairs) :=
  ⟨⟨_, _, enter_frame s pairs⟩, rfl, rfl, rfl⟩

theorem Predicts.resumePredict {id : PredictId} {reply : Reply Score}
    (h : s.resumePredict id = some (s', reply)) : Predicts s s' := by
  obtain ⟨semaphore, -, hframe⟩ := resumePredict_frame h
  have hload : s'.initialLoad = s.initialLoad ∧ s'.ready = s.ready := by
    unfold ModelRuntime.resumePredict at h
    split at h
    · cases h
      exact syncActiveBackendState_load s
    · cases h
      exact ⟨rfl, rfl⟩
    · cases h
  exact ⟨⟨_, _, hframe⟩, resumePredict_slots h, hload.1, hload.2⟩

theorem Predicts.cancelPredict (s : ModelRuntime) (id : PredictId) :
    Predicts s (s.cancelPredict id) := by
  have hload : (s.cancelPredict id).initialLoad = s.initialLoad ∧
      (s.cancelPredict id).ready = s.ready := by
    unfold ModelRuntime.cancelPredict
    split <;> exact ⟨rfl, rfl⟩
  rcases cancelPredict_frame s id with hframe | ⟨phase, -, hframe⟩
  · exact ⟨⟨_, _, hframe⟩, cancelPredict_slots s id, hload.1, hload.2⟩
  · exact ⟨⟨_, _, hframe⟩, cancelPredict_slots s id, hload.1, hload.2⟩

/-- Another source is in use only after a switch, the arrival of the initial model, or a patch. -/
theorem SameModels.activeSource (h : SameModels s s') (hserving : s.Serving)
    (hmodel : s'.model = s.model) : s'.activeSource = s.activeSource := by
  rw [ModelRuntime.activeSource, ModelRuntime.activeSource, hmodel]
  cases hm : s.model with
  | none => rfl
  | some m => exact congrArg some (h.sources m (hserving.active_lt hm))

/-- A patch leaves the slots and the initial load alone. -/
theorem reconfigure_load (s : ModelRuntime) (maxConcurrency maxLength : Nat) :
    (s.reconfigure maxConcurrency maxLength).initialLoad = s.initialLoad ∧
      (s.reconfigure maxConcurrency maxLength).ready = s.ready := by
  unfold reconfigure
  simp only
  split <;> exact ⟨rfl, rfl⟩

end ModelRuntime

namespace Application

variable {M : Settings → Option Source → Prop} {P : Pair → Score → Prop} {s s' : Application}

/-! ### The start -/

theorem Initial.serving {settings : Settings} {Entry : ScoreCache.Write Score → Prop}
    (h : Initial settings Entry s) : s.runtime.Serving ∧ s.settings = settings := by
  obtain ⟨device, hbegin⟩ := h.runtime
  exact ModelRuntime.serving_of_loadBegin h.configured hbegin

theorem Initial.prepared {settings : Settings} {Entry : ScoreCache.Write Score → Prop}
    (h : Initial settings Entry s) : s.runtime.Prepared := by
  obtain ⟨device, hbegin⟩ := h.runtime
  exact ModelRuntime.prepared_of_loadBegin hbegin

theorem Initial.tracked {settings : Settings} {Entry : ScoreCache.Write Score → Prop}
    (h : Initial settings Entry s)
    (hentry : ∀ w, Entry w → Good M P w.settings (w.query, w.document) w.score) :
    Tracked M P s where
  serving := h.serving.1
  batcher := by
    rw [h.batcher]
    exact (DynamicBatcher.Initial.sound ⟨settings, h.configured.maxBatchPairs, rfl⟩).start
  calls id := by
    unfold CallGood
    rw [h.calls id]
    trivial
  redis w hw := hentry w (h.redis w hw)
  worker group active batch hworker := by
    rw [h.batcher] at hworker
    unfold DynamicBatcher.start at hworker
    split at hworker
    · cases hworker
    · cases hworker

/-! ### What a step does to the models and to Redis -/

def Reconfigures (s : Application) : Action → Prop
  | .patchRuntime _ => True
  | .runtime a => s.runtime.Switches a
  | _ => False

/-- The actions that change the configuration in no state. -/
def Action.harmless : Action → Bool
  | .patchRuntime _ | .runtime .lockAcquired => false
  | _ => true

/-- The actions that change neither the configuration nor the active model in any state. -/
def Action.quiet : Action → Bool
  | .runtime (.loadReturned _) => false
  | a => a.harmless

theorem infer_predicts (s : Application) (id : CallId) (scores : List (Option Score)) :
    s.runtime.Predicts (s.infer id scores).runtime := by
  unfold infer
  simp only
  split
  · exact .refl _
  split
  · exact .enter _ _
  split
  · exact .enter _ _
  · exact .refl _
  · exact .refl _

theorem inferred_runtime (s : Application) (prims : Primitives) (id : CallId)
    (scores : List (Option Score)) (values : List Score) :
    (s.inferred prims id scores values).runtime = s.runtime := by
  unfold inferred
  simp only
  split
  · rfl
  split <;> rfl

theorem received_runtime (s : Application) (prims : Primitives) (id : CallId)
    (scores : List (Option Score)) (reply : Reply Score) :
    (s.received prims id scores reply).runtime = s.runtime := by
  cases reply with
  | scores values => exact inferred_runtime s prims id scores values
  | raised error => rfl

theorem callPredictor_predicts (s : Application) :
    s.runtime.Predicts s.callPredictor.runtime := by
  unfold callPredictor
  split
  · exact .enter _ _
  · exact .refl _

theorem beginCall_predicts {id : CallId} (h : s.beginCall id = some s') :
    s.runtime.Predicts s'.runtime := by
  obtain ⟨-, -, ⟨error, rfl⟩ | ⟨-, query, prepared, -, rfl | ⟨-, rfl⟩⟩⟩ := beginCall_cases h
  · exact .refl _
  · exact infer_predicts (s.accept id query prepared) id _
  · exact .refl _

/-- The entry was there, or a call writes it under the settings in force. -/
def Written (prims : Primitives) (s : Application) (w : ScoreCache.Write Score) : Prop :=
  w ∈ s.redis ∨ (∃ id, (s.calls id).phase.inFlight) ∧ w.settings = s.settings ∧
    w.key = ScoreCache.key prims w.settings w.query w.document

theorem exists_of_answers {redis : List (ScoreCache.Write Score)} {keys : List Text}
    {values : List (Option Score)} (h : answers redis keys values) {i : Nat} {score : Score}
    (hi : values[i]? = some (some score)) :
    ∃ key, keys[i]? = some key ∧ ∃ w ∈ redis, w.key = key ∧ w.score = score := by
  unfold answers at h
  rw [Bool.and_eq_true, decide_eq_true_iff, List.all_eq_true] at h
  obtain ⟨hlength, hentries⟩ := h
  obtain ⟨hlt, hvalue⟩ := List.getElem?_eq_some_iff.mp hi
  have hkey : i < keys.length := hlength ▸ hlt
  refine ⟨keys[i], List.getElem?_eq_getElem hkey, ?_⟩
  have hzip : (keys[i], some score) ∈ keys.zip values := by
    refine List.mem_iff_getElem.mpr ⟨i, ?_, ?_⟩
    · simp [hkey, hlt]
    · simp [hvalue]
  simpa using hentries _ hzip

theorem exists_of_hit {prims : Primitives} {id : CallId} {asked : Settings}
    {values : List (Option Score)} {i : Nat} {score : Score}
    (hphase : (s.calls id).phase = .lookup asked)
    (hanswer : (s.lookedUp prims id (some values)).isSome) (hi : values[i]? = some (some score)) :
    (s.calls id).textAt i ∈ (s.calls id).texts ∧ ∃ w ∈ s.redis, w.score = score ∧
      w.key = ScoreCache.key prims asked (s.calls id).query ((s.calls id).textAt i) := by
  simp only [lookedUp, hphase, Option.all_some] at hanswer
  split at hanswer
  · rename_i hanswers
    obtain ⟨key, hkey, w, hw, hwkey, hscore⟩ := exists_of_answers hanswers hi
    rw [ScoreCache.keys, List.getElem?_map] at hkey
    obtain ⟨text, htext, rfl⟩ := Option.map_eq_some_iff.mp hkey
    have hat : (s.calls id).textAt i = text := by
      rw [RerankCall.textAt, htext, Option.getD_some]
    rw [hat]
    exact ⟨List.mem_of_getElem? htext, w, hw, hscore, hwkey⟩
  · cases hanswer

theorem infer_redis (s : Application) (id : CallId) (scores : List (Option Score)) :
    (s.infer id scores).redis = s.redis := by
  unfold infer
  simp only
  split
  · rfl
  split
  · rfl
  split <;> rfl

theorem received_written (s : Application) (prims : Primitives) (id : CallId)
    (scores : List (Option Score)) (reply : Reply Score) (hflight : (s.calls id).phase.inFlight)
    {w : ScoreCache.Write Score} (hw : w ∈ (s.received prims id scores reply).redis) :
    s.Written prims w := by
  cases reply with
  | scores values =>
      simp only [received, inferred] at hw
      split at hw
      · exact .inl hw
      split at hw
      · exact .inl hw
      · rcases List.mem_append.mp hw with hold | hnew
        · exact .inl hold
        · obtain ⟨hsettings, -, -, hkey⟩ := mem_setMany hnew
          exact .inr ⟨⟨id, hflight⟩, hsettings, hkey⟩
  | raised error => exact .inl hw

theorem beginCall_redis {id : CallId} (h : s.beginCall id = some s') : s'.redis = s.redis := by
  obtain ⟨-, -, ⟨error, rfl⟩ | ⟨-, query, prepared, -, rfl | ⟨-, rfl⟩⟩⟩ := beginCall_cases h
  · rfl
  · exact infer_redis (s.accept id query prepared) id _
  · rfl

theorem callPredictor_redis (s : Application) : s.callPredictor.redis = s.redis := by
  unfold callPredictor
  split <;> rfl

/-- The runtime acts, it is patched, or only calls of `predict` move. -/
inductive Drives (s : Application) (a : Action) (s' : Application) : Prop where
  | background {b : ModelRuntime.Action} (ha : a = .runtime b) (hbackground : background b)
      (hstep : s.runtime.step b = some s'.runtime)
  | patched {patch : RuntimePatch} (ha : a = .patchRuntime patch)
  | predicts (hpredicts : s.runtime.Predicts s'.runtime)

structure Effect (prims : Primitives) (s : Application) (a : Action) (s' : Application) : Prop where
  drives : s.Drives a s'
  redis : ∀ w ∈ s'.redis, s.Written prims w

theorem Effect.of_redis_eq {prims : Primitives} {a : Action} (hredis : s'.redis = s.redis)
    (hpredicts : s.runtime.Predicts s'.runtime) : Effect prims s a s' :=
  ⟨.predicts hpredicts, fun _ hw => .inl (hredis ▸ hw)⟩

theorem Effect.none {prims : Primitives} {a : Action} (hruntime : s'.runtime = s.runtime)
    (hredis : s'.redis = s.redis) : Effect prims s a s' :=
  .of_redis_eq hredis (hruntime ▸ .refl _)

theorem step_effect {prims : Primitives} {a : Action} (h : s.step prims a = some s') :
    Effect prims s a s' := by
  cases step_takes h with
  | @called request s' hbegin =>
      exact .of_redis_eq (beginCall_redis (s := s.create request) hbegin)
        (beginCall_predicts (s := s.create request) hbegin)
  | @batchCreated requests =>
      unfold rerankBatch
      split
      · exact .none rfl rfl
      · obtain ⟨calls, created, heq⟩ := foldl_create requests s
        rw [heq]
        exact .none rfl rfl
  | begun hbegin => exact .of_redis_eq (beginCall_redis hbegin) (beginCall_predicts hbegin)
  | lookedUp hphase hanswer => exact .of_redis_eq (infer_redis s _ _) (infer_predicts s _ _)
  | @predicted id scores predict r reply hphase hresume =>
      have hpredicts := ModelRuntime.Predicts.resumePredict hresume
      refine ⟨.predicts ?_, fun w hw => ?_⟩
      · rw [received_runtime]
        exact hpredicts
      · have hwritten := received_written { s with runtime := r } prims id _ reply
          (by rw [hphase]; rfl) hw
        exact hwritten.imp_right fun h =>
          ⟨h.1, h.2.1.trans hpredicts.sameModels.settings, h.2.2⟩
  | @jobSettled id scores job reply hphase hreply =>
      refine ⟨.predicts ?_, fun w hw => received_written s prims id _ reply (by rw [hphase]; rfl) hw⟩
      rw [received_runtime]
      exact .refl _
  | timedOut hphase => exact .of_redis_eq rfl (.cancelPredict _ _)
  | jobTimedOut _ | written _ | gathered _ _ | gatherRaised _ _ _ | took _ | closeReturned _ =>
      exact .none rfl rfl
  | @windowClosed batcher hclosed =>
      exact .of_redis_eq (callPredictor_redis { s with batcher })
        (callPredictor_predicts { s with batcher })
  | @workerPredicted predict r reply batcher hcall hresume hreplied =>
      exact .of_redis_eq (callPredictor_redis { s with runtime := r, batcher })
        (.trans (.resumePredict hresume) (callPredictor_predicts { s with runtime := r, batcher }))
  | workerCancelled hcancelled =>
      cases hcall : s.workerCall with
      | none => exact .none rfl rfl
      | some predict => exact .of_redis_eq rfl (.cancelPredict _ _)
  | patched hpatch =>
      obtain ⟨batcher, -, rfl⟩ := Option.map_eq_some_iff.mp hpatch
      exact ⟨.patched rfl, fun _ hw => .inl hw⟩
  | ran hbackground hstep => exact ⟨.background rfl hbackground hstep, fun _ hw => .inl hw⟩

theorem Effect.models {prims : Primitives} {a : Action} (h : Effect prims s a s')
    (hconfigured : ¬s.Reconfigures a) : s.runtime.SameModels s'.runtime := by
  cases h.drives with
  | background ha hbackground hstep =>
      subst ha
      exact .background hbackground hconfigured hstep
  | patched ha =>
      subst ha
      exact absurd trivial hconfigured
  | predicts hpredicts => exact hpredicts.sameModels

/-! ### What a step does to the calls -/

variable {prims : Primitives} {id id' : CallId}

theorem calls_setPhase (s : Application) (id : CallId) (phase : RerankPhase) :
    (s.setPhase id phase).calls id = { s.calls id with phase } :=
  Function.update_self id _ _

theorem calls_setCall_of_ne {id' : CallId} (hne : id ≠ id') (s : Application) (call : RerankCall) :
    (s.setCall id' call).calls id = s.calls id :=
  Function.update_of_ne hne _ _

theorem calls_setPhase_of_ne {id' : CallId} (hne : id ≠ id') (s : Application)
    (phase : RerankPhase) : (s.setPhase id' phase).calls id = s.calls id :=
  Function.update_of_ne hne _ _

theorem calls_infer_of_ne {id' : CallId} (hne : id ≠ id') (s : Application)
    (scores : List (Option Score)) : (s.infer id' scores).calls id = s.calls id := by
  unfold infer
  dsimp only
  split
  · exact calls_setPhase_of_ne hne s _
  split
  · exact calls_setPhase_of_ne hne _ _
  split
  · exact calls_setPhase_of_ne hne _ _
  · exact calls_setPhase_of_ne hne _ _
  · exact calls_setPhase_of_ne hne _ _

theorem calls_received_of_ne {id' : CallId} (hne : id ≠ id') (s : Application)
    (scores : List (Option Score)) (reply : Reply Score) :
    (s.received prims id' scores reply).calls id = s.calls id := by
  unfold received
  split
  · unfold inferred
    dsimp only
    split
    · exact calls_setPhase_of_ne hne s _
    split
    · exact calls_setPhase_of_ne hne s _
    · exact calls_setPhase_of_ne hne _ _
  · exact calls_setPhase_of_ne hne s _

theorem calls_beginCall_of_ne {id' : CallId} (hne : id ≠ id')
    (hstep : s.beginCall id' = some s') : s'.calls id = s.calls id := by
  obtain ⟨-, -, ⟨error, rfl⟩ | ⟨-, query, prepared, -, rfl | ⟨-, rfl⟩⟩⟩ :=
    beginCall_cases hstep
  · exact calls_setPhase_of_ne hne s _
  · exact (calls_infer_of_ne hne _ _).trans (calls_setCall_of_ne hne s _)
  · exact (calls_setPhase_of_ne hne _ _).trans (calls_setCall_of_ne hne s _)

theorem calls_callPredictor (s : Application) : s.callPredictor.calls = s.calls := by
  unfold callPredictor
  split <;> rfl

/-- The steps of the coroutines other than the calls of `rerank`. -/
def apart : Action → Bool
  | .gathered _ | .gatherRaised _ _ | .take | .windowClosed | .workerPredicted
  | .workerCancelled | .closeReturn | .patchRuntime _ | .runtime _ => true
  | _ => false

theorem calls_of_apart {a : Action} (hstep : s.step prims a = some s')
    (ha : apart a = true) : s'.calls = s.calls := by
  cases step_takes hstep with
  | gathered _ _ | gatherRaised _ _ _ | took _ | workerCancelled _ | closeReturned _ | ran _ _ => rfl
  | windowClosed _ | workerPredicted _ _ _ => exact calls_callPredictor _
  | patched hpatch =>
      obtain ⟨b, -, rfl⟩ := Option.map_eq_some_iff.mp hpatch
      rfl
  | _ => cases ha

theorem inFlight_of_moved {t : Application} (hmoved : (s.calls id').phase.inFlight)
    (hothers : id ≠ id' → t.calls id = s.calls id) (h : (t.calls id).phase.inFlight) :
    (s.calls id).phase.inFlight := by
  by_cases hid : id = id'
  · exact hid ▸ hmoved
  · exact hothers hid ▸ h

theorem inFlight_create {request : RerankRequest}
    (h : ((s.create request).calls id).phase.inFlight) : (s.calls id).phase.inFlight := by
  by_cases hid : id = s.created
  · rw [hid, show (s.create request).calls s.created = { request } from
      Function.update_self _ _ _] at h
    cases h
  · rwa [show (s.create request).calls id = s.calls id from Function.update_of_ne hid _ _] at h

theorem inFlight_beginCall (hbegin : s.beginCall id' = some s')
    (h : (s'.calls id).phase.inFlight) :
    (s.calls id).phase.inFlight ∨ s.runtime.ready = true := by
  obtain ⟨-, -, ⟨error, rfl⟩ | ⟨hready, -⟩⟩ := beginCall_cases hbegin
  · by_cases hid : id = id'
    · subst hid
      rw [calls_setPhase] at h
      cases h
    · exact .inl (calls_setPhase_of_ne hid s _ ▸ h)
  · exact .inr hready

/-- A call gets under way only when the runtime is ready. -/
theorem step_inFlight {a : Action} (hstep : s.step prims a = some s')
    (h : (s'.calls id).phase.inFlight) :
    (s.calls id).phase.inFlight ∨ s.runtime.ready = true := by
  cases step_takes hstep with
  | called hbegin => exact (inFlight_beginCall hbegin h).imp_left inFlight_create
  | @batchCreated requests =>
      left
      unfold rerankBatch at h
      split at h
      · exact h
      · revert h
        exact List.foldlRecOn requests create
          (motive := fun t => (t.calls id).phase.inFlight → (s.calls id).phase.inFlight) (fun h => h)
          fun _ ht request _ h => ht (inFlight_create h)
  | begun hbegin => exact inFlight_beginCall hbegin h
  | lookedUp hphase hanswer =>
      exact .inl (inFlight_of_moved (by rw [hphase]; rfl) (fun hid => calls_infer_of_ne hid s _) h)
  | @predicted _ _ _ r _ hphase hresume =>
      exact .inl (inFlight_of_moved (by rw [hphase]; rfl)
        (fun hid => calls_received_of_ne hid { s with runtime := r } _ _) h)
  | jobSettled hphase hreply =>
      exact .inl (inFlight_of_moved (by rw [hphase]; rfl)
        (fun hid => calls_received_of_ne hid s _ _) h)
  | timedOut hphase | jobTimedOut hphase | written hphase =>
      exact .inl (inFlight_of_moved (by rw [hphase]; rfl)
        (fun hid => calls_setPhase_of_ne hid _ _) h)
  | _ => exact .inl (congrFun (calls_of_apart hstep rfl) id ▸ h)

theorem step_ready {a : Action} (hstep : s.step prims a = some s') (h : s.runtime.ready = true) :
    s'.runtime.ready = true := by
  cases (step_effect hstep).drives with
  | background ha hbackground hrun => exact ModelRuntime.ready_of_background hbackground hrun h
  | patched ha =>
      subst ha
      obtain ⟨b, -, rfl⟩ := Option.map_eq_some_iff.mp hstep
      exact (ModelRuntime.reconfigure_load _ _ _).2.trans h
  | predicts hpredicts => exact hpredicts.ready.trans h

/-- Whoever is in flight was let in by a ready runtime. -/
def Admits (s : Application) : Prop :=
  ∀ id, (s.calls id).phase.inFlight → s.runtime.ready = true

theorem Initial.admits {settings : Settings} {Entry : ScoreCache.Write Score → Prop}
    (h : Initial settings Entry s) : s.Admits := by
  intro id hflight
  rw [h.calls id] at hflight
  cases hflight

theorem Admits.step {a : Action} (h : s.Admits) (hstep : s.step prims a = some s') :
    s'.Admits := fun id hflight =>
  step_ready hstep ((step_inFlight hstep hflight).elim (h id) fun hready => hready)

/-! ### The names in force -/

/-- The model of the initial load arrives under the name that is in force then, and no rollback goes
back to an empty slot. -/
structure KeepsNames (s : Application) (a : Action) : Prop where
  current : ∀ b, a = .runtime b → ModelRuntime.LoadsCurrent s.runtime b
  rollsBack : ∀ b, a = .runtime b → s.runtime.RollsBackToModel b

theorem prepared_step {a : Action} (h : s.runtime.Prepared) (hkeeps : s.KeepsNames a)
    (hstep : s.step prims a = some s') : s'.runtime.Prepared := by
  cases (step_effect hstep).drives with
  | background ha hbackground hrun =>
      exact h.step hbackground (hkeeps.current _ ha) (hkeeps.rollsBack _ ha) hrun
  | patched ha =>
      subst ha
      obtain ⟨b, -, rfl⟩ := Option.map_eq_some_iff.mp hstep
      exact h.congr (ModelRuntime.reconfigure_slots _ _ _) (ModelRuntime.reconfigure_load _ _ _).1
        (ModelRuntime.reconfigure_load _ _ _).2
  | predicts hpredicts => exact h.congr hpredicts.slots hpredicts.initialLoad hpredicts.ready

/-! ### A change of the configuration -/

/-- The source of a score that the prediction carries. A queued execution will read its object. -/
def Carried (sources : ModelId → Source) (pairs : List Pair) :
    PredictPhase → Option Source → Prop
  | .submitted _ model, source => source = model.map sources
  | .running _ _ running, source => source = running
  | .answered _ (.scores values), source =>
      values.length = pairs.length ∧ ∃ score ∈ values, score.source = source
  | _, _ => False

/-- The source of a score that is being computed for a live call, or was computed and is not
written. -/
inductive UnderWay (s : Application) (sources : ModelId → Source) : Option Source → Prop where
  | carried {predict : PredictId} {source : Option Source} (hawaits : s.Awaits predict)
      (hcarried : Carried sources (s.runtime.calls predict).pairs (s.runtime.phase predict)
        source) : UnderWay s sources source
  | collected {job : JobId} {score : Score} (hawaits : s.AwaitsJob job)
      (hopen : (s.batcher.jobs job).future.failed = false)
      (hscore : score ∈ (s.batcher.jobs job).scores) : UnderWay s sources score.source
  | settled {job : JobId} {values : List Score} {score : Score} (hawaits : s.AwaitsJob job)
      (hresult : (s.batcher.jobs job).future = .result values) (hscore : score ∈ values) :
      UnderWay s sources score.source

theorem Keeps.reconfigured {r : ModelRuntime} {b : DynamicBatcher Score}
    (hcalls : r.calls = s.runtime.calls) (hentered : r.entered = s.runtime.entered)
    (hquiet : ∀ source, s.UnderWay r.sources source → M r.settings source)
    (hjobs : KeepsJobs s.batcher b) : Keeps M P s { s with runtime := r, batcher := b } where
  entered := hentered.ge
  pairs _ _ := by rw [hcalls]
  predicts predict _ hawaits hgood := by
    have hcarried : ∀ source, Carried r.sources (s.runtime.calls predict).pairs
        (s.runtime.calls predict).phase source → M r.settings source := fun source h =>
      hquiet source (.carried hawaits h)
    unfold PredictGood at hgood
    change PhaseGood M P _ _ _ (s.runtime.calls predict).phase at hgood
    change PhaseGood M P r.sources r.settings (r.calls predict).pairs (r.calls predict).phase
    rw [hcalls]
    cases hphase : (s.runtime.calls predict).phase with
    | submitted semaphore model =>
        rw [hphase] at hcarried
        exact hcarried _ rfl
    | running semaphore model source =>
        rw [hphase] at hcarried
        exact hcarried _ rfl
    | answered semaphore reply =>
        rw [hphase] at hcarried hgood
        cases reply with
        | scores values =>
            intro hlength
            have hpairs := (hgood hlength).imp fun _ _ h => h.2
            exact forall₂_good (fun score hscore =>
              hcarried _ ⟨hlength, score, hscore, rfl⟩) hpairs
        | raised error => trivial
    | waiting semaphore => trivial
    | orphaned => trivial
    | returned => trivial
  submitted := hjobs.1
  jobPairs job hjob := (hjobs.2 job hjob).1
  promising job hjob hawaits hpromising := by
    refine (hjobs.2 job hjob).2 _ fun hopen => ?_
    refine (hpromising hopen).imp (Q := fun score => M r.settings score.source)
      (fun _ _ h hsource => ⟨hsource, h.2⟩) (fun score hscore => ?_)
      fun values hresult score hscore => ?_
    · exact hquiet _ (.collected hawaits hopen hscore)
    · exact hquiet _ (.settled hawaits hresult hscore)

/-- A change of the configuration leaves nothing under way that does not suit it. -/
def Undisturbed (M : Settings → Option Source → Prop) (prims : Primitives) (s : Application)
    (a : Action) : Prop :=
  s.Reconfigures a → ∀ s', s.step prims a = some s' →
    ∀ source, s.UnderWay s'.runtime.sources source → M s'.settings source

/-- Nothing is under way when no call awaits a score. -/
theorem undisturbed_of_detached (h : ∀ id, Detached (s.calls id).phase) (prims : Primitives)
    (a : Action) : Undisturbed M prims s a := by
  have hjobs : ∀ job, ¬s.AwaitsJob job := by
    rintro job ⟨id, scores, hphase⟩
    have hdetached := h id
    rw [hphase] at hdetached
    exact hdetached
  have hpredicts : ∀ predict, ¬s.Awaits predict := by
    rintro predict (⟨id, scores, hphase⟩ | ⟨-, -, -, -, -, job, -, hawaits⟩)
    · have hdetached := h id
      rw [hphase] at hdetached
      exact hdetached
    · exact hjobs job hawaits
  intro _ s' _ source hunderWay
  cases hunderWay with
  | carried hawaits => exact (hpredicts _ hawaits).elim
  | collected hawaits => exact (hjobs _ hawaits).elim
  | settled hawaits => exact (hjobs _ hawaits).elim

theorem patchRuntime_cases {patch : RuntimePatch} (h : s.patchRuntime patch = some s') :
    ∃ settings maxConcurrency maxLength b,
      settings.model = s.settings.model ∧ settings.modelRevision = s.settings.modelRevision ∧
      settings.modelAllowlist = s.settings.modelAllowlist ∧
      settings.backend = s.settings.backend ∧ settings.mockModel = s.settings.mockModel ∧
      s.batcher.step (.patch settings.dynamicBatching settings.limits) = some b ∧
      s' = { s with
        runtime := { s.runtime with settings }.reconfigure maxConcurrency maxLength
        batcher := b } := by
  obtain ⟨b, hb, rfl⟩ := Option.map_eq_some_iff.mp h
  refine ⟨_, _, _, b, ?_, ?_, ?_, ?_, ?_, ?_, rfl⟩
  · rfl
  · rfl
  · rfl
  · rfl
  · rfl
  · exact hb

theorem Tracked.patchRuntime (h : Tracked M P s) {patch : RuntimePatch}
    (hstep : s.patchRuntime patch = some s')
    (hquiet : ∀ source, s.UnderWay s'.runtime.sources source → M s'.settings source) :
    Tracked M P s' := by
  obtain ⟨settings, maxConcurrency, maxLength, b, hmodel, hrevision, hallowlist, hbackend, hmock, hb,
    rfl⟩ := patchRuntime_cases hstep
  obtain ⟨hjobs, hworker⟩ := KeepsJobs.patch hb
  have hframe := ModelRuntime.reconfigure_frame { s.runtime with settings } maxConcurrency maxLength
  exact h.keeps (.reconfigured (congrArg ModelRuntime.Frame.calls hframe)
      (congrArg ModelRuntime.Frame.entered hframe) hquiet hjobs)
    (h.serving.reconfigure hmodel hrevision hallowlist hbackend hmock maxConcurrency maxLength)
    (DynamicBatcher.step_sound _ h.batcher (DynamicBatcher.soundReplies_true _ _) hb) rfl rfl
    fun group active batch hpredicting => ⟨hworker group active batch hpredicting, rfl⟩

theorem eq_lockAcquired_of_switches {r : ModelRuntime} {a : ModelRuntime.Action}
    (h : r.Switches a) : a = .lockAcquired := by
  by_contra hlock
  have hmoves {e : Slots.Event} (hevent : r.event a = some e)
      (hswitch : e = .activate ∨ e = .rollback) : False := by
    by_cases hload : ∃ outcome, a = .loadReturned outcome
    · obtain ⟨outcome, rfl⟩ := hload
      obtain ⟨requested, rfl⟩ := ModelRuntime.event_loadReturned hevent
      simp at hswitch
    by_cases hclose : a = .close
    · subst hclose
      cases hevent
      simp at hswitch
    obtain ⟨-, -, hactivate, hrollback⟩ :=
      ModelRuntime.event_other (not_exists.mp hload) hlock hclose hevent
    exact hswitch.elim hactivate hrollback
  rcases h with hactivate | hrollback
  · exact hmoves hactivate (.inl rfl)
  · exact hmoves hrollback (.inr rfl)

theorem not_reconfigures_of_harmless {a : Action} (h : a.harmless) : ¬s.Reconfigures a := by
  intro hconfigures
  cases a with
  | patchRuntime patch => cases h
  | runtime b =>
      obtain rfl := eq_lockAcquired_of_switches hconfigures
      cases h
  | _ => exact hconfigures

theorem Action.harmless_of_quiet {a : Action} (h : a.quiet) : a.harmless := by
  unfold quiet at h
  split at h
  · cases h
  · exact h

theorem keepsNames_of_quiet {a : Action} (h : a.quiet) : s.KeepsNames a where
  current b ha requested hevent := by
    subst ha
    have hload : ∀ outcome, b ≠ .loadReturned outcome := by
      rintro outcome rfl
      cases h
    by_cases hclose : b = .close
    · subst hclose
      cases hevent
    by_cases hlock : b = .lockAcquired
    · subst hlock
      cases h
    exact absurd rfl ((ModelRuntime.event_other hload hlock hclose hevent).1 requested)
  rollsBack b ha _ hevent := by
    subst ha
    exact absurd (.inr hevent) (not_reconfigures_of_harmless (Action.harmless_of_quiet h))

theorem keepsNames_of_arrival {outcome : Except Error Loaded}
    (h : s.runtime.LoadsCurrent (.loadReturned outcome)) :
    s.KeepsNames (.runtime (.loadReturned outcome)) where
  current b ha := by
    cases ha
    exact h
  rollsBack b ha _ hevent := by
    cases ha
    obtain ⟨requested, heq⟩ := ModelRuntime.event_loadReturned hevent
    cases heq

theorem keepsNames_of_lock (h : s.runtime.event .lockAcquired ≠ some .rollback) :
    s.KeepsNames (.runtime .lockAcquired) where
  current b ha requested hevent := by
    cases ha
    exact absurd hevent (s.runtime.lockAcquired_event requested)
  rollsBack b ha _ hevent := by
    cases ha
    exact absurd hevent h

/-- A switch of models happens under the lock and touches no prediction. -/
theorem frame_of_switches {r r' : ModelRuntime} {a : ModelRuntime.Action}
    (hswitch : r.Switches a) (h : r.step a = some r') : r'.frame = r.frame := by
  obtain rfl := eq_lockAcquired_of_switches hswitch
  obtain ⟨-, htakes⟩ := ModelRuntime.step_takes h
  cases htakes with
  | activated hqueue hcandidate hinfo => exact ModelRuntime.syncActiveBackendState_frame _
  | rolledBack hqueue hprevious => exact ModelRuntime.syncActiveBackendState_frame _
  | candidateGranted _ _ | activationRefused _ _ | rollbackRefused _ _ => rfl

theorem Tracked.runtime (h : Tracked M P s) {a : ModelRuntime.Action} {r : ModelRuntime}
    (hactive : (∃ id, (s.calls id).phase.inFlight) → M s.settings s.runtime.activeSource)
    (hanswers : AnswersPairs P s.runtime a)
    (hbackground : background a) (hstep : s.runtime.step a = some r)
    (hquiet : s.runtime.Switches a →
      ∀ source, s.UnderWay r.sources source → M r.settings source) :
    Tracked M P { s with runtime := r } := by
  have hserving := h.serving.step hbackground hstep
  by_cases hswitch : s.runtime.Switches a
  · have hframe := frame_of_switches hswitch hstep
    exact h.keeps (.reconfigured (congrArg ModelRuntime.Frame.calls hframe)
        (congrArg ModelRuntime.Frame.entered hframe) (hquiet hswitch) (.of_jobs_eq rfl rfl))
      hserving h.batcher rfl rfl fun _ _ _ hworker => ⟨hworker, rfl⟩
  · have hsettings := ModelRuntime.settings_eq hbackground hswitch hstep
    exact h.keeps (.background h.serving hactive hanswers hbackground hsettings hstep)
      hserving h.batcher rfl rfl fun _ _ _ hworker => ⟨hworker, rfl⟩

/-- **Every step keeps the scores on their way good**, if the active model suits the settings while
a call is in flight, executions answer their pairs, and a change of the configuration disturbs
nothing. -/
theorem Tracked.step {prims : Primitives} {a : Action} (h : Tracked M P s)
    (hactive : (∃ id, (s.calls id).phase.inFlight) → M s.settings s.runtime.activeSource)
    (hanswers : ∀ b, a = .runtime b → AnswersPairs P s.runtime b)
    (hquiet : Undisturbed M prims s a) (hstep : s.step prims a = some s') : Tracked M P s' := by
  cases step_takes hstep with
  | called hbegin => exact (h.create _).beginCall hbegin
  | batchCreated => exact h.rerankBatch _
  | begun hbegin => exact h.beginCall hbegin
  | lookedUp hphase hanswer => exact h.infer _ _
  | @predicted id scores predict r reply hphase hresume =>
      have hsettings : Application.settings { s with runtime := r } = s.settings :=
        resumePredict_settings hresume
      refine (h.resumed hresume).received prims ?_
      rw [hsettings]
      exact h.reply hphase hresume
  | jobSettled hphase hreply => exact h.received prims (h.jobReply hphase hreply)
  | timedOut hphase => exact (h.cancelPredict _).detach _ trivial
  | jobTimedOut hphase => exact (h.cancelJob _).detach _ trivial
  | written hphase => exact h.respond _ _ _
  | gathered _ _ | gatherRaised _ _ _ => exact h.counters s.created _
  | took htake => exact h.take htake
  | windowClosed hclosed => exact h.windowClosed hclosed
  | workerPredicted hcall hresume hreplied =>
      exact (h.replied hcall hresume hreplied).callPredictor
  | workerCancelled hcancelled => exact h.workerCancelled hcancelled
  | closeReturned hreturn => exact h.closeReturn hreturn
  | patched hpatch => exact h.patchRuntime hpatch (hquiet trivial _ hstep)
  | ran hbackground hrun =>
      exact h.runtime hactive (hanswers _ rfl) hbackground hrun fun hswitch =>
        hquiet hswitch _ hstep

/-! ### A small application

Two revisions of one model, no batching, and an empty Redis.
-/

def smallSettings : Settings :=
  { ModelRuntime.twoRevisions with dynamicBatching := false }

def oneDocument : RerankRequest where
  requestId := 0
  query := ['q']
  documents := [{ id := ['1'], text := ['d'] }]

/-- What the model of the initial load is. -/
def smallSource : Source :=
  (smallSettings.loadModel smallSettings.model smallSettings.modelRevision smallSettings.maxLength
    ModelRuntime.loadedModel).toSource

/-- The application as `lifespan` leaves it, with an empty Redis. -/
def started (settings : Settings) (device : Text) : Application where
  runtime := ((ModelRuntime.new settings device).step .loadBegin).getD (.new settings device)
  batcher := (DynamicBatcher.new settings).start
  calls _ := { request := oneDocument }

theorem initial_started {settings : Settings} (hconfigured : Configured settings) (device : Text)
    (Entry : ScoreCache.Write Score → Prop) : Initial settings Entry (started settings device) where
  configured := hconfigured
  runtime := ⟨device, rfl⟩
  batcher := rfl
  workerCall := rfl
  redis _ hw := nomatch hw
  calls _ := rfl
  created := rfl
  batches := rfl

def smallApplication : Application :=
  started smallSettings "auto".toList

theorem initial_smallApplication (Entry : ScoreCache.Write Score → Prop) :
    Initial smallSettings Entry smallApplication :=
  initial_started ⟨by decide, by decide, by decide, by decide⟩ _ Entry

/-- The rest of the initial load. -/
def loading : List Action :=
  [.runtime (.loadReturned (.ok ModelRuntime.loadedModel)), .runtime (.warmedUp (.ok ()))]

def activation : List Action :=
  ModelRuntime.loadCandidate.map .runtime ++ [.runtime .activateBegin, .runtime .lockAcquired]

def prediction : List Action :=
  [.runtime (.acquire 0), .runtime (.begin 0),
    .runtime (.finish 0 { result := .ok [.finite 1] })]

end Application

end RerankerService
