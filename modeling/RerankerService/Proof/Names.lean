import RerankerService.Foundation.Fields
import RerankerService.Proof.Steps
import RerankerService.Service.Application

/-!
# Names without a NUL

The names of models come from the configuration and revisions are checked character by character, so
neither ever holds the separator of the cache keys.
-/

namespace RerankerService

open Fields

theorem notMem_nul_strip {text : Text} (h : nul ∉ text) : nul ∉ strip text := by
  intro hmem
  unfold strip at hmem
  rw [List.mem_reverse] at hmem
  have hfront := (List.dropWhile_sublist _).subset hmem
  rw [List.mem_reverse] at hfront
  exact h ((List.dropWhile_sublist _).subset hfront)

theorem notMem_nul_of_allowed {settings : Settings} (h : nul ∉ settings.modelAllowlist)
    {name : Text} (hname : name ∈ settings.allowedModels) : nul ∉ name := by
  unfold Settings.allowedModels at hname
  obtain ⟨hstripped, -⟩ := List.mem_filter.mp hname
  obtain ⟨piece, hpiece, rfl⟩ := List.mem_map.mp hstripped
  exact notMem_nul_strip fun hmem => h (mem_of_mem_splitOn hpiece hmem)

theorem notMem_nul_lower {text : Text} (h : nul ∉ text) : nul ∉ lower text := by
  intro hmem
  obtain ⟨c, hc, hlower⟩ := List.mem_map.mp hmem
  exact h (eq_of_toLower hlower rfl ▸ hc)

theorem notMem_nul_of_all {text : Text} {p : Char → Bool} (hp : p nul = false)
    (h : text.all p) : nul ∉ text := by
  intro hmem
  rw [List.all_eq_true.mp h nul hmem] at hp
  cases hp

theorem notMem_nul_of_valid {revision : Text} (h : validRevisionReference revision) :
    nul ∉ revision := by
  unfold validRevisionReference at h
  simp only [Bool.and_eq_true] at h
  exact notMem_nul_of_all (by decide) h.1.2

theorem notMem_nul_of_full {revision : Text} (h : isFullRevision revision) : nul ∉ revision := by
  unfold isFullRevision at h
  rw [Bool.and_eq_true] at h
  exact notMem_nul_of_all (by decide) h.2

theorem notMem_nul_of_resolved {hub : Except Error Text} {revision resolved : Text}
    (h : resolveImmutableRevision hub revision = .ok resolved) : nul ∉ resolved := by
  unfold resolveImmutableRevision at h
  split at h
  · rename_i hfull
    cases h
    exact notMem_nul_of_full hfull
  · split at h
    · cases h
    · split at h
      · rename_i hfull
        cases h
        exact notMem_nul_of_full hfull
      · cases h

structure CandidateCheck.Plain (check : CandidateCheck) : Prop where
  name : nul ∉ check.name
  revision : nul ∉ check.resolvedRevision.getD []

namespace ModelRuntime

variable {s s' : ModelRuntime}

theorem checkCandidate_plain (h : nul ∉ s.settings.modelAllowlist) {probe : Probe}
    {name revision : Text} (hvalid : (s.checkCandidate probe name revision).valid) :
    (s.checkCandidate probe name revision).Plain := by
  unfold CandidateCheck.valid checkCandidate at hvalid
  simp only [Bool.and_eq_true, decide_eq_true_iff] at hvalid
  obtain ⟨⟨hallowed, hrevision⟩, hresolved⟩ := hvalid
  refine ⟨notMem_nul_of_allowed h hallowed, ?_⟩
  unfold checkCandidate
  simp only [hrevision, hallowed, decide_true, Bool.and_self, if_true]
  split
  · exact notMem_nul_lower (notMem_nul_of_valid hrevision)
  · cases hresolution : resolveImmutableRevision probe.hub revision with
    | error error => exact List.not_mem_nil
    | ok resolved => exact notMem_nul_of_resolved hresolution

/-- The names and revisions of the loaded models, of those that wait for the lock and of the one that
the initial load asks for. -/
structure Plain (s : ModelRuntime) : Prop where
  allowlist : nul ∉ s.settings.modelAllowlist
  objects : ∀ m < s.loaded, nul ∉ (s.models m).name ∧ nul ∉ (s.models m).revision
  waiting : ∀ check started, LockRequest.candidate check started ∈ s.lockQueue → check.Plain
  holding : ∀ check maxLength started,
    s.lockHolder = some (.loading check maxLength started) → check.Plain
  requested : ∀ name revision maxLength started,
    s.initialLoad = .loading name revision maxLength started → nul ∉ name ∧ nul ∉ revision

structure FewerNames (s s' : ModelRuntime) : Prop where
  allowlist : s'.settings.modelAllowlist = s.settings.modelAllowlist
  loaded : s'.loaded = s.loaded
  objects : ∀ m, (s'.models m).name = (s.models m).name ∧
    (s'.models m).revision = (s.models m).revision
  queue : s'.lockQueue ⊆ s.lockQueue
  holder : s'.lockHolder = none ∨ s'.lockHolder = s.lockHolder
  initialLoad : s'.initialLoad = s.initialLoad

theorem Plain.fewer (h : s.Plain) (hfewer : FewerNames s s') : s'.Plain where
  allowlist := hfewer.allowlist ▸ h.allowlist
  objects m hm := by
    rw [(hfewer.objects m).1, (hfewer.objects m).2]
    exact h.objects m (hfewer.loaded ▸ hm)
  waiting check started hmem := h.waiting check started (hfewer.queue hmem)
  holding check maxLength started hloading := by
    rcases hfewer.holder with hnone | hsame
    · rw [hnone] at hloading
      cases hloading
    · exact h.holding check maxLength started (hsame ▸ hloading)
  requested name revision maxLength started hloading :=
    h.requested name revision maxLength started (hfewer.initialLoad ▸ hloading)

theorem names_update {models : ModelId → Model} {model : ModelId} {object : Model}
    (hname : object.name = (models model).name)
    (hrevision : object.revision = (models model).revision) (m : ModelId) :
    (Function.update models model object m).name = (models m).name ∧
      (Function.update models model object m).revision = (models m).revision := by
  by_cases hm : m = model
  · subst hm
    rw [Function.update_self]
    exact ⟨hname, hrevision⟩
  · rw [Function.update_of_ne hm]
    exact ⟨rfl, rfl⟩

theorem syncActiveBackendState_names (h : FewerNames s s') (operation : Operation)
    (modelReady : Text × Text → Bool) :
    FewerNames s { s'.syncActiveBackendState with operation, modelReady } := by
  unfold syncActiveBackendState
  split <;> exact ⟨h.allowlist, h.loaded, h.objects, h.queue, h.holder, h.initialLoad⟩

theorem FewerNames.refl (s : ModelRuntime) : FewerNames s s :=
  ⟨rfl, rfl, fun _ => ⟨rfl, rfl⟩, List.Subset.refl _, .inr rfl, rfl⟩

theorem dequeue_names {request : LockRequest} {rest : List LockRequest}
    (hqueue : s.lockQueue = request :: rest) : FewerNames s { s with lockQueue := rest } :=
  ⟨rfl, rfl, fun _ => ⟨rfl, rfl⟩, fun _ hmem => hqueue ▸ List.mem_cons_of_mem _ hmem, .inr rfl,
    rfl⟩

theorem reconfigure_names (s : ModelRuntime) (maxConcurrency maxLength : Nat) :
    FewerNames s (s.reconfigure maxConcurrency maxLength) := by
  unfold reconfigure
  simp only
  split
  · exact ⟨rfl, rfl, names_update rfl rfl, List.Subset.refl _, .inr rfl, rfl⟩
  · exact ⟨rfl, rfl, fun _ => ⟨rfl, rfl⟩, List.Subset.refl _, .inr rfl, rfl⟩

theorem finish_names (s : ModelRuntime) (fallback : Bool) (model : Option ModelId) :
    FewerNames s (if fallback then model.elim s s.fallBack else s) := by
  split
  · cases model with
    | none => exact .refl s
    | some model => exact ⟨rfl, rfl, names_update rfl rfl, List.Subset.refl _, .inr rfl, rfl⟩
  · exact .refl s

theorem resumePredict_names {id : PredictId} {reply : Reply Score}
    (h : s.resumePredict id = some (s', reply)) : FewerNames s s' := by
  unfold resumePredict at h
  split at h
  · cases h
    have hsync := syncActiveBackendState_names (.refl s) s.operation s.modelReady
    exact ⟨hsync.allowlist, hsync.loaded, hsync.objects, hsync.queue, hsync.holder,
      hsync.initialLoad⟩
  · cases h
    exact ⟨rfl, rfl, fun _ => ⟨rfl, rfl⟩, List.Subset.refl _, .inr rfl, rfl⟩
  · cases h

theorem cancelPredict_names (s : ModelRuntime) (id : PredictId) :
    FewerNames s (s.cancelPredict id) := by
  unfold cancelPredict
  split <;> exact ⟨rfl, rfl, fun _ => ⟨rfl, rfl⟩, List.Subset.refl _, .inr rfl, rfl⟩

theorem Plain.enqueue (h : s.Plain) {request : LockRequest}
    (hrequest : ∀ check started, request = .candidate check started → check.Plain)
    (operation : Operation) :
    Plain { s with operation, lockQueue := s.lockQueue ++ [request] } := by
  refine ⟨h.allowlist, h.objects, fun check started hmem => ?_, h.holding, h.requested⟩
  rcases List.mem_append.mp hmem with hold | hnew
  · exact h.waiting check started hold
  · exact hrequest check started (List.mem_singleton.mp hnew).symm

theorem Plain.allocate (h : s.Plain) {name revision : Text} (hname : nul ∉ name)
    (hrevision : nul ∉ revision) (maxLength : Nat) (loaded : Loaded) :
    (s.allocate name revision maxLength loaded).Plain := by
  refine ⟨h.allowlist, fun m hm => ?_, h.waiting, h.holding, h.requested⟩
  by_cases heq : m = s.loaded
  · subst heq
    simp only [ModelRuntime.allocate, Function.update_self]
    exact ⟨hname, hrevision⟩
  · simp only [ModelRuntime.allocate, Function.update_of_ne heq]
    exact h.objects m (lt_of_le_of_ne (Nat.le_of_lt_succ hm) heq)

theorem Plain.loaded (h : s.Plain) {name revision : Text} {maxLength started : Nat}
    (hloading : s.initialLoad = .loading name revision maxLength started) (loaded : Loaded) :
    Plain { syncActiveBackendState { s.allocate name revision maxLength loaded with
        model := some s.loaded } with initialLoad := .warming s.loaded started } := by
  obtain ⟨hname, hrevision⟩ := h.requested name revision maxLength started hloading
  have hallocated := h.allocate hname hrevision maxLength loaded
  have hnext : FewerNames (s.allocate name revision maxLength loaded)
      { s.allocate name revision maxLength loaded with model := some s.loaded } :=
    ⟨rfl, rfl, fun _ => ⟨rfl, rfl⟩, List.Subset.refl _, .inr rfl, rfl⟩
  have hsync := hallocated.fewer (syncActiveBackendState_names hnext s.operation s.modelReady)
  exact ⟨hsync.allowlist, hsync.objects, hsync.waiting, hsync.holding,
    fun _ _ _ _ hloading => by cases hloading⟩

theorem Plain.step (h : s.Plain) {a : Action} (hbackground : Application.background a)
    (hstep : s.step a = some s') : s'.Plain := by
  obtain ⟨-, htakes⟩ := step_takes hstep
  cases htakes with
  | ticked | candidateEnded | acquired _ _ | begun _ _ | orphanEnded _ =>
      exact ⟨h.allowlist, h.objects, h.waiting, h.holding, h.requested⟩
  | @loadArrived name revision maxLength started loaded hloading => exact h.loaded hloading loaded
  | loadRaised _ | warmedUp _ | warmUpRaised _ =>
      exact ⟨h.allowlist, h.objects, h.waiting, h.holding, fun _ _ _ _ hloading => by cases hloading⟩
  | candidateQueued hvalid =>
      refine h.enqueue (fun check started heq => ?_) _
      obtain ⟨rfl, -⟩ := LockRequest.candidate.inj heq
      exact checkCandidate_plain h.allowlist hvalid
  | activateQueued => exact h.enqueue (fun _ _ heq => by cases heq) _
  | rollbackQueued => exact h.enqueue (fun _ _ heq => by cases heq) _
  | candidateGranted hfree hqueue =>
      have hnext := h.fewer (dequeue_names hqueue)
      refine ⟨hnext.allowlist, hnext.objects, hnext.waiting, fun check maxLength started heq => ?_,
        hnext.requested⟩
      cases heq
      exact h.waiting _ _ (hqueue ▸ List.mem_cons_self)
  | activated hqueue hcandidate hinfo =>
      refine (h.fewer (dequeue_names hqueue)).fewer (syncActiveBackendState_names ?_ _ _)
      exact ⟨rfl, rfl, fun _ => ⟨rfl, rfl⟩, List.Subset.refl _, .inr rfl, rfl⟩
  | rolledBack hqueue hprevious =>
      refine (h.fewer (dequeue_names hqueue)).fewer (syncActiveBackendState_names ?_ _ _)
      exact ⟨rfl, rfl, fun _ => ⟨rfl, rfl⟩, List.Subset.refl _, .inr rfl, rfl⟩
  | activationRefused hqueue _ | rollbackRefused hqueue _ =>
      have hnext := h.fewer (dequeue_names hqueue)
      exact ⟨hnext.allowlist, hnext.objects, hnext.waiting, hnext.holding, hnext.requested⟩
  | @candidateLoaded check maxLength started loaded hholder =>
      have hcheck := h.holding check maxLength started hholder
      have hallocated := h.allocate hcheck.name hcheck.revision maxLength loaded
      exact ⟨hallocated.allowlist, hallocated.objects, hallocated.waiting,
        fun _ _ _ hloading => (by cases hloading), hallocated.requested⟩
  | candidateRaised _ | candidateAccepted _ _ | candidateRejected _ _ =>
      exact h.fewer ⟨rfl, rfl, fun _ => ⟨rfl, rfl⟩, List.Subset.refl _, .inl rfl, rfl⟩
  | @answered id execution semaphore model source hphase =>
      have hnext := h.fewer (finish_names s execution.fallback model)
      exact ⟨hnext.allowlist, hnext.objects, hnext.waiting, hnext.holding, hnext.requested⟩
  | _ => cases hbackground

end ModelRuntime

end RerankerService
