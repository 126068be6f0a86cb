import RerankerService.Foundation.Outcome
import RerankerService.Proof.Lifecycle
import RerankerService.Runtime.RemoteCode

/-!
# Which models are loaded, and whose code runs

Every slot holds the model that the service was configured with, or one of the allowlist under an
immutable revision. Code that comes with a model runs only where the policy of its backend allows it.
-/

namespace RerankerService

open Transition

/-! ### Slots -/

/-- Every name in the slots meets the condition. -/
structure Slots.Vouched (P : Identity → Prop) (t : Slots) : Prop where
  objects : ∀ m < t.loaded, P (t.identity m)
  active : P t.activeIdentity
  candidate : ∀ identity, t.candidateIdentity = some identity → P identity
  previous : ∀ m identity, t.previous = some (m, identity) → P identity
  tested : ∀ m identity, t.tested = some (m, identity) → P identity

/-- The move asks for a new object under a name that meets the condition. -/
def Slots.Event.Asks (P : Identity → Prop) : Slots.Event → Prop
  | .load requested | .test requested => P requested
  | _ => True

namespace Slots

variable {P : Identity → Prop} {t t' : Slots}

theorem allocate_objects (h : ∀ m < t.loaded, P (t.identity m)) {requested : Identity}
    (hrequested : P requested) :
    ∀ m < t.loaded + 1, P (Function.update t.identity t.loaded requested m) := by
  intro m hm
  by_cases heq : m = t.loaded
  · rw [heq, Function.update_self]
    exact hrequested
  · rw [Function.update_of_ne heq]
    exact h m (lt_of_le_of_ne (Nat.lt_succ_iff.mp hm) heq)

/-- The objects alone: their names never change. -/
theorem objects_of_step {e : Event} (h : ∀ m < t.loaded, P (t.identity m)) (hasks : e.Asks P)
    (hstep : t.step e = some t') : ∀ m < t'.loaded, P (t'.identity m) := by
  cases step_takes hstep with
  | load | test _ => exact allocate_objects h hasks
  | accept _ | reject _ | activate _ _ | rollback _ | close _ => exact h

theorem Vouched.switchTo (h : t.Vouched P) (active : Option ModelId) {identity : Identity}
    (hidentity : P identity) : (t.switchTo active identity).Vouched P where
  objects := h.objects
  active := hidentity
  candidate := h.candidate
  previous m other hprevious := by
    obtain ⟨-, rfl⟩ := Prod.mk.inj (Option.some.inj hprevious)
    exact h.active
  tested := h.tested

/-- Every move keeps the condition that new names meet. -/
theorem Vouched.step (h : t.Vouched P) {e : Event} (hasks : e.Asks P)
    (hstep : t.step e = some t') : t'.Vouched P := by
  have hobjects := objects_of_step h.objects hasks hstep
  cases step_takes hstep with
  | load => exact { h with objects := hobjects }
  | test htested =>
      exact { h with
        objects := hobjects
        tested := fun m identity hm => by
          obtain ⟨-, rfl⟩ := Prod.mk.inj (Option.some.inj hm)
          exact hasks }
  | accept htested =>
      exact { h with
        candidate := fun identity hidentity => Option.some.inj hidentity ▸ h.tested _ _ htested
        tested := fun _ _ hnone => nomatch hnone }
  | reject htested => exact { h with tested := fun _ _ hnone => nomatch hnone }
  | @activate m identity hcandidate hidentity =>
      have hswitch := h.switchTo (some m) (h.candidate identity hidentity)
      exact { hswitch with candidate := fun _ hnone => nomatch hnone }
  | rollback hprevious => exact h.switchTo _ (h.previous _ _ hprevious)
  | close htested => exact { h with previous := fun _ _ hnone => nomatch hnone }

end Slots

/-! ### The allowlist -/

/-- The model that the service was configured with, or one of the allowlist under an immutable
revision; a mock keeps a well-formed reference. -/
def Settings.Permits (configured : Settings) (identity : Identity) : Prop :=
  identity = (configured.model, configured.modelRevision) ∨
    identity.1 ∈ configured.allowedModels ∧
      (isFullRevision identity.2 = true ∨
        configured.mockModel = true ∧ validRevisionReference identity.2 = true)

/-- What no step of the runtime changes. -/
structure Settings.Same (settings configured : Settings) : Prop where
  allowlist : settings.modelAllowlist = configured.modelAllowlist
  backend : settings.backend = configured.backend
  mockModel : settings.mockModel = configured.mockModel

theorem Settings.Same.refl (settings : Settings) : settings.Same settings :=
  ⟨rfl, rfl, rfl⟩

theorem Settings.Same.trans {a b c : Settings} (h : a.Same b) (h' : b.Same c) : a.Same c :=
  ⟨h.allowlist.trans h'.allowlist, h.backend.trans h'.backend, h.mockModel.trans h'.mockModel⟩

theorem resolveImmutableRevision_full {hub : Except Error Text} {revision resolved : Text}
    (h : resolveImmutableRevision hub revision = .ok resolved) : isFullRevision resolved = true := by
  unfold resolveImmutableRevision at h
  split_ifs at h with hfull
  · exact Except.ok.inj h ▸ hfull
  · split at h
    · cases h
    · split_ifs at h with hresolved
      exact Except.ok.inj h ▸ hresolved

namespace ModelRuntime

variable {s s' : ModelRuntime} {configured : Settings}

theorem checkCandidate_permitted (hsame : s.settings.Same configured) {probe : Probe}
    {name revision : Text} (hvalid : (s.checkCandidate probe name revision).valid = true) :
    configured.Permits ((s.checkCandidate probe name revision).name,
      (s.checkCandidate probe name revision).resolvedRevision.getD []) := by
  unfold CandidateCheck.valid checkCandidate at hvalid
  simp only [Bool.and_eq_true, decide_eq_true_iff] at hvalid
  obtain ⟨⟨hallowed, hrevision⟩, hresolved⟩ := hvalid
  have hname : name ∈ configured.allowedModels := by
    have heq : s.settings.allowedModels = configured.allowedModels := by
      rw [Settings.allowedModels, hsame.allowlist, Settings.allowedModels]
    exact heq ▸ hallowed
  refine .inr ⟨hname, ?_⟩
  cases hmock : configured.mockModel with
  | true =>
      rw [← hsame.mockModel] at hmock
      refine .inr ⟨rfl, ?_⟩
      unfold checkCandidate
      simp only [hrevision, hallowed, decide_true, Bool.and_self, if_true, hmock]
      exact validRevisionReference_lower hrevision
  | false =>
      rw [← hsame.mockModel] at hmock
      refine .inl ?_
      unfold checkCandidate
      simp only [hrevision, hallowed, decide_true, Bool.and_self, if_true, hmock,
        Bool.false_eq_true, if_false] at hresolved ⊢
      cases hresolution : resolveImmutableRevision probe.hub revision with
      | error error =>
          rw [hresolution] at hresolved
          cases hresolved
      | ok resolved => exact resolveImmutableRevision_full hresolution

/-- The identities that a load was or will be asked for. -/
structure Pending (P : Identity → Prop) (s : ModelRuntime) : Prop where
  loading : ∀ name revision maxLength started,
    s.initialLoad = .loading name revision maxLength started → P (name, revision)
  holding : ∀ check maxLength started, s.lockHolder = some (.loading check maxLength started) →
    P (check.name, check.resolvedRevision.getD [])
  waiting : ∀ check started, LockRequest.candidate check started ∈ s.lockQueue →
    P (check.name, check.resolvedRevision.getD [])

/-- No new load is asked for. -/
structure AsksNothing (s s' : ModelRuntime) : Prop where
  settings : s'.settings.Same s.settings
  loading : s'.initialLoad = s.initialLoad ∨
    ∀ name revision maxLength started, s'.initialLoad ≠ .loading name revision maxLength started
  holding : s'.lockHolder = s.lockHolder ∨
    ∀ check maxLength started, s'.lockHolder ≠ some (.loading check maxLength started)
  waiting : s'.lockQueue ⊆ s.lockQueue

theorem Pending.asksNothing {P : Identity → Prop} (h : s.Pending P) (hnothing : AsksNothing s s') :
    s'.Pending P where
  loading name revision maxLength started heq := by
    rcases hnothing.loading with hsame | hnone
    · exact h.loading name revision maxLength started (hsame ▸ heq)
    · exact absurd heq (hnone _ _ _ _)
  holding check maxLength started heq := by
    rcases hnothing.holding with hsame | hnone
    · exact h.holding check maxLength started (hsame ▸ heq)
    · exact absurd heq (hnone _ _ _)
  waiting check started hmem := h.waiting check started (hnothing.waiting hmem)

theorem AsksNothing.of_eq (hsettings : s'.settings.Same s.settings)
    (hloading : s'.initialLoad = s.initialLoad) (hholding : s'.lockHolder = s.lockHolder)
    (hwaiting : s'.lockQueue = s.lockQueue) : AsksNothing s s' :=
  ⟨hsettings, .inl hloading, .inl hholding, fun _ hmem => hwaiting ▸ hmem⟩

theorem syncActiveBackendState_asksNothing (h : AsksNothing s s') (operation : Operation)
    (modelReady : Text × Text → Bool) :
    AsksNothing s { s'.syncActiveBackendState with operation, modelReady } := by
  unfold syncActiveBackendState
  split <;> exact ⟨h.settings, h.loading, h.holding, h.waiting⟩

theorem reconfigure_asksNothing (s : ModelRuntime) (maxConcurrency maxLength : Nat) :
    AsksNothing s (s.reconfigure maxConcurrency maxLength) := by
  unfold reconfigure
  simp only
  split <;> exact .of_eq ⟨rfl, rfl, rfl⟩ rfl rfl rfl

theorem finish_asksNothing (s : ModelRuntime) (fallback : Bool) (model : Option ModelId) :
    AsksNothing s (if fallback then model.elim s s.fallBack else s) := by
  split
  · cases model with
    | none => exact .of_eq (.refl _) rfl rfl rfl
    | some model => exact .of_eq (.refl _) rfl rfl rfl
  · exact .of_eq (.refl _) rfl rfl rfl

theorem resumePredict_asksNothing {id : PredictId} {reply : Reply Score}
    (h : s.resumePredict id = some (s', reply)) : AsksNothing s s' := by
  unfold resumePredict at h
  split at h
  · cases h
    have hsame : AsksNothing s s := .of_eq (.refl _) rfl rfl rfl
    have hsync := syncActiveBackendState_asksNothing hsame s.operation s.modelReady
    exact ⟨hsync.settings, hsync.loading, hsync.holding, hsync.waiting⟩
  · cases h
    exact .of_eq (.refl _) rfl rfl rfl
  · cases h

theorem cancelPredict_asksNothing (s : ModelRuntime) (id : PredictId) :
    AsksNothing s (s.cancelPredict id) := by
  unfold cancelPredict
  split <;> exact .of_eq (.refl _) rfl rfl rfl

theorem dequeue_asksNothing {request : LockRequest} {rest : List LockRequest}
    (hqueue : s.lockQueue = request :: rest) : AsksNothing s { s with lockQueue := rest } :=
  ⟨.refl _, .inl rfl, .inl rfl, fun _ hmem => hqueue ▸ List.mem_cons_of_mem _ hmem⟩

theorem Pending.enqueue {P : Identity → Prop} (h : s.Pending P) {request : LockRequest}
    (hrequest : ∀ check started, request = .candidate check started →
      P (check.name, check.resolvedRevision.getD [])) (operation : Operation) :
    Pending P { s with operation, lockQueue := s.lockQueue ++ [request] } where
  loading := h.loading
  holding := h.holding
  waiting check started hmem := by
    rcases List.mem_append.mp hmem with hold | hnew
    · exact h.waiting check started hold
    · exact hrequest check started (List.mem_singleton.mp hnew).symm

/-- A new object comes from a load that was asked for. -/
theorem Pending.asks {P : Identity → Prop} (h : s.Pending P) {a : Action} {e : Slots.Event}
    (hevent : s.event a = some e) : e.Asks P := by
  cases a with
  | loadReturned outcome =>
      cases outcome with
      | error error => cases hevent
      | ok loaded =>
          simp only [event] at hevent
          split at hevent
          · rename_i hloading
            cases hevent
            exact h.loading _ _ _ _ hloading
          · cases hevent
  | candidateReturned outcome =>
      cases outcome with
      | error error => cases hevent
      | ok loaded =>
          simp only [event] at hevent
          split at hevent
          · rename_i hholding
            cases hevent
            exact h.holding _ _ _ hholding
          · cases hevent
  | candidateSmoked outcome =>
      rcases event_candidateSmoked hevent with ⟨rfl, -⟩ | ⟨rfl, -⟩
      · trivial
      · trivial
  | lockAcquired =>
      rcases event_lockAcquired hevent with rfl | rfl
      · trivial
      · trivial
  | close =>
      cases hevent
      trivial
  | _ => cases hevent

/-- The settings and the loads to come, with what a condition has to hold of: the identity in force
when a load begins, and what a check admits. -/
theorem Pending.step {P : Identity → Prop} (h : s.Pending P)
    (hcurrent : P (s.settings.model, s.settings.modelRevision))
    (hcheck : ∀ probe name revision, (s.checkCandidate probe name revision).valid = true →
      P ((s.checkCandidate probe name revision).name,
        (s.checkCandidate probe name revision).resolvedRevision.getD []))
    {a : Action} (hstep : s.step a = some s') : s'.Pending P ∧ s'.settings.Same s.settings := by
  have hnothing : AsksNothing s s' → s'.Pending P ∧ s'.settings.Same s.settings :=
    fun hnothing => ⟨h.asksNothing hnothing, hnothing.settings⟩
  obtain ⟨-, htakes⟩ := step_takes hstep
  cases htakes with
  | ticked | candidateEnded | entered | acquired _ _ | begun _ _ | orphanEnded _ | closed _ =>
      exact hnothing (.of_eq (.refl _) rfl rfl rfl)
  | loadBegun hidle =>
      refine ⟨⟨fun name revision maxLength started heq => ?_, h.holding, h.waiting⟩, .refl _⟩
      cases heq
      exact hcurrent
  | loadRaised _ | warmedUp _ | warmUpRaised _ | loadCancelled _ =>
      exact hnothing ⟨.refl _, .inr nofun, .inl rfl, List.Subset.refl _⟩
  | @loadArrived name revision maxLength started loaded hloading =>
      have hsame : AsksNothing s
          { s.allocate name revision maxLength loaded with model := some s.loaded } :=
        .of_eq (.refl _) rfl rfl rfl
      have hsync := syncActiveBackendState_asksNothing hsame s.operation s.modelReady
      exact hnothing ⟨hsync.settings, .inr nofun, hsync.holding, hsync.waiting⟩
  | @candidateQueued probe name revision operation hvalid =>
      refine ⟨h.enqueue (fun check started heq => ?_) operation, .refl _⟩
      obtain ⟨rfl, -⟩ := LockRequest.candidate.inj heq
      exact hcheck probe name revision hvalid
  | activateQueued => exact ⟨h.enqueue (fun _ _ heq => by cases heq) _, .refl _⟩
  | rollbackQueued => exact ⟨h.enqueue (fun _ _ heq => by cases heq) _, .refl _⟩
  | @candidateGranted check started rest hfree hqueue =>
      have hrest := h.asksNothing (dequeue_asksNothing hqueue)
      refine ⟨⟨hrest.loading, fun check' maxLength started' heq => ?_, hrest.waiting⟩, .refl _⟩
      cases heq
      exact h.waiting check started (hqueue ▸ List.mem_cons_self)
  | activated hqueue hcandidate hinfo =>
      have hrest := dequeue_asksNothing hqueue
      refine hnothing (syncActiveBackendState_asksNothing ?_ _ _)
      exact ⟨⟨rfl, rfl, rfl⟩, .inl rfl, .inl rfl, hrest.waiting⟩
  | @rolledBack started rest previous operation hqueue hprevious =>
      have hrest := dequeue_asksNothing hqueue
      have hswitched : AsksNothing s ({ s with lockQueue := rest }.switchTo previous) :=
        ⟨⟨rfl, rfl, rfl⟩, .inl rfl, .inl rfl, hrest.waiting⟩
      have hsync := syncActiveBackendState_asksNothing hswitched operation s.modelReady
      exact hnothing ⟨hsync.settings, hsync.loading, hsync.holding, hsync.waiting⟩
  | activationRefused hqueue _ | rollbackRefused hqueue _ =>
      have hrest := dequeue_asksNothing hqueue
      exact hnothing ⟨hrest.settings, hrest.loading, hrest.holding, hrest.waiting⟩
  | candidateLoaded _ | candidateRaised _ | candidateAccepted _ _ | candidateRejected _ _ =>
      exact hnothing ⟨.refl _, .inl rfl, .inr nofun, List.Subset.refl _⟩
  | reconfigured => exact hnothing (s.reconfigure_asksNothing _ _)
  | @answered id execution semaphore model source hphase =>
      have hfinish := s.finish_asksNothing execution.fallback model
      exact hnothing ⟨hfinish.settings, hfinish.loading, hfinish.holding, hfinish.waiting⟩
  | resumed hresume => exact hnothing (resumePredict_asksNothing hresume)
  | cancelled => exact hnothing (s.cancelPredict_asksNothing _)

/-! ### Every run of the runtime -/

/-- The names in the slots and those to come. -/
structure Vetted (configured : Settings) (s : ModelRuntime) : Prop where
  settings : s.settings.Same configured
  slots : s.slots.Vouched configured.Permits
  pending : s.Pending configured.Permits

theorem Vetted.new (configured : Settings) (backendDevice : Text) :
    (ModelRuntime.new configured backendDevice).Vetted configured where
  settings := .refl _
  slots :=
    { objects := fun _ => nofun
      active := .inl rfl
      candidate := fun _ => nofun
      previous := fun _ _ => nofun
      tested := fun _ _ => nofun }
  pending := ⟨fun _ _ _ _ => nofun, fun _ _ _ => nofun, fun _ _ => nofun⟩

theorem Vetted.step (h : s.Vetted configured) {a : Action} (hstep : s.step a = some s') :
    s'.Vetted configured := by
  obtain ⟨hpending, hsame⟩ := h.pending.step h.slots.active
    (fun probe name revision hvalid => checkCandidate_permitted h.settings hvalid) hstep
  refine ⟨hsame.trans h.settings, ?_, hpending⟩
  refine (step_slots hstep).keeps h.slots fun e hevent hmoves => ?_
  exact h.slots.step (h.pending.asks hevent) hmoves

/-- A runtime that was created with these settings. -/
def Configured (configured : Settings) (s : ModelRuntime) : Prop :=
  ∃ backendDevice, s = .new configured backendDevice

theorem vetted (hreach : Reachable step (Configured configured) s) : s.Vetted configured := by
  refine hreach.invariant (fun s hinit => ?_) fun _ _ _ h _ hstep => h.step hstep
  obtain ⟨backendDevice, rfl⟩ := hinit
  exact .new configured backendDevice

/-- **The allowlist**: whatever was loaded, and whatever is active, a candidate or kept for a
rollback, is the configured model or one of the allowlist under an immutable revision. -/
theorem permitted (hreach : Reachable step (Configured configured) s) :
    (∀ m < s.loaded, configured.Permits ((s.models m).name, (s.models m).revision)) ∧
      configured.Permits (s.settings.model, s.settings.modelRevision) ∧
      (∀ info, s.candidateInfo = some info →
        configured.Permits (info.name, info.resolvedRevision)) ∧
      ∀ previous, s.previous = some previous →
        configured.Permits (previous.name, previous.revision) := by
  have hslots := (vetted hreach).slots
  refine ⟨hslots.objects, hslots.active, fun info hinfo => hslots.candidate _ ?_,
    fun previous hprevious => hslots.previous previous.model _ ?_⟩
  · simp [slots, hinfo]
  · simp [slots, hprevious]

/-- After a candidate from the allowlist was activated. -/
theorem permitted_activated : ∃ s,
    run step (new twoRevisions "auto".toList)
        (loadAndWarmUp ++ loadCandidate ++ [.activateBegin, .lockAcquired]) = some s ∧
      s.loaded = 2 ∧ twoRevisions.Permits (s.settings.model, s.settings.modelRevision) := by
  have hrun : run step (new twoRevisions "auto".toList)
      (loadAndWarmUp ++ loadCandidate ++ [.activateBegin, .lockAcquired]) = some _ := rfl
  have hinit : Configured twoRevisions (new twoRevisions "auto".toList) := ⟨_, rfl⟩
  have hreach := reachable_of_run hinit hrun
  exact ⟨_, hrun, rfl, (permitted hreach).2.1⟩

end ModelRuntime

/-! ### Remote code -/

theorem Settings.Same.remoteLoad {settings configured : Settings} (h : settings.Same configured)
    (policy : RemoteCodePolicy) (model revision : Text) :
    settings.remoteLoad policy model revision = configured.remoteLoad policy model revision := by
  unfold Settings.remoteLoad
  rw [h.backend, h.mockModel]

namespace Deployment

variable {configured : Settings} {policy : RemoteCodePolicy} {d d' : Deployment}
  {a : ModelRuntime.Action}

theorem step_cases (hstep : d.step a = some d') : d.admits a = true ∧
    d.runtime.step a = some d'.runtime ∧ d'.policy = d.policy ∧
      d'.remote = d.remote ++ (d.called a).toList := by
  unfold Deployment.step at hstep
  split_ifs at hstep with hadmits
  obtain ⟨runtime, hruntime, rfl⟩ := Option.map_eq_some_iff.mp hstep
  exact ⟨hadmits, hruntime, rfl, rfl⟩

/-- A run of the deployment is one of the runtime, under the same policy. -/
theorem reachable (hreach : Reachable step (Initial configured policy) d) :
    Reachable ModelRuntime.step (ModelRuntime.Configured configured) d.runtime ∧
      d.policy = policy := by
  induction hreach with
  | start hinit => exact ⟨.start hinit.runtime, hinit.policy⟩
  | next _ _ hstep ih =>
      obtain ⟨-, hruntime, hpolicy, -⟩ := step_cases hstep
      exact ⟨.next ih.1 trivial hruntime, hpolicy.trans ih.2⟩

end Deployment

end RerankerService
