import RerankerService.Proof.Lifecycle

/-!
# The readiness gauge

The gauge has a cell for every model name and device. `load` sets the cell of what it loaded, and an
activation clears the cell of the old name on the new device; a rollback and the fallback of a
session to the CPU move the active model elsewhere without a word to the gauge.
-/

namespace RerankerService

/-! ### Labelled cells -/

section Cells

variable {κ : Type} {cells : κ → Bool} {key next old : κ}

/-- The cell of `key` is the only one that is set. -/
def Indicates (cells : κ → Bool) (key : κ) : Prop :=
  ∀ k, cells k = true ↔ k = key

theorem Indicates.iff_eq (h : Indicates cells key) : Indicates cells next ↔ next = key := by
  constructor
  · intro hnext
    exact (h next).mp ((hnext next).mpr rfl)
  · rintro rfl
    exact h

variable [DecidableEq κ]

theorem indicates_update (h : ∀ k, cells k = false) :
    Indicates (Function.update cells key true) key := by
  intro k
  by_cases hk : k = key
  · simp [hk]
  · simp [hk, h k]

/-- One cell is cleared and another one set: the one that was set before must be one of them. -/
theorem Indicates.move_iff (h : Indicates cells key) :
    Indicates (Function.update (Function.update cells old false) next true) next ↔
      key = old ∨ key = next := by
  constructor
  · intro hnext
    by_contra hnot
    rw [not_or] at hnot
    refine hnot.2 ((hnext key).mp ?_)
    rw [Function.update_of_ne hnot.2, Function.update_of_ne hnot.1]
    exact (h key).mpr rfl
  · intro hkey k
    by_cases hk : k = next
    · simp [hk]
    rw [Function.update_of_ne hk]
    refine iff_of_false ?_ hk
    by_cases hold : k = old
    · simp [hold]
    rw [Function.update_of_ne hold, h k]
    rintro rfl
    rcases hkey with rfl | rfl
    · exact hold rfl
    · exact hk rfl

end Cells

namespace ModelRuntime

open Transition

variable {s s' : ModelRuntime} {a : Action}

/-- What the gauge should indicate. -/
def label (s : ModelRuntime) : Text × Text :=
  (s.settings.model, s.device)

/-- The device that `_sync_active_backend_state` sets when `model` is active. -/
def deviceOf (s : ModelRuntime) (model : Option ModelId) : Text :=
  (s.settings.metadata s.backendDevice (model.map s.models)).activeProvider.elim s.device
    providerDevice

theorem syncActiveBackendState_label (s : ModelRuntime) :
    s.syncActiveBackendState.label = (s.settings.model, s.deviceOf s.model) := by
  unfold syncActiveBackendState metadata deviceOf
  cases (s.settings.metadata s.backendDevice (s.model.map s.models)).activeProvider <;> rfl

theorem syncActiveBackendState_modelReady (s : ModelRuntime) :
    s.syncActiveBackendState.modelReady = s.modelReady := by
  unfold syncActiveBackendState
  split <;> rfl

/-- Names and revisions do not matter for the provider. -/
theorem deviceOf_switchTo (s : ModelRuntime) (next : Previous) (model : Option ModelId) :
    (s.switchTo next).deviceOf model = s.deviceOf model := by
  unfold deviceOf switchTo Settings.metadata
  cases s.settings.backend <;> cases model <;> rfl

/-! ### What each operation does to it -/

theorem activateCandidate_gauge {candidate : ModelId} {info : CandidateInfo}
    (hcandidate : s.candidate = some candidate) (hinfo : s.candidateInfo = some info)
    (started : Nat) :
    let device := s.deviceOf (some candidate)
    (s.activateCandidate started).label = (info.name, device) ∧
      (s.activateCandidate started).modelReady =
        Function.update (Function.update s.modelReady (s.settings.model, device) false)
          (info.name, device) true := by
  intro device
  unfold activateCandidate
  rw [hcandidate, hinfo]
  dsimp only
  have hlabel := syncActiveBackendState_label { s.switchTo
    { model := some candidate, name := info.name, revision := info.resolvedRevision
      loadedAt := some info.loadedAt } with candidate := none, candidateInfo := none }
  have hcells := syncActiveBackendState_modelReady { s.switchTo
    { model := some candidate, name := info.name, revision := info.resolvedRevision
      loadedAt := some info.loadedAt } with candidate := none, candidateInfo := none }
  generalize syncActiveBackendState _ = next at hlabel hcells ⊢
  have hname : next.settings.model = info.name := congrArg Prod.fst hlabel
  have hdevice : next.device = device :=
    (congrArg Prod.snd hlabel).trans (deviceOf_switchTo s _ (some candidate))
  refine ⟨congrArg₂ Prod.mk hname hdevice, ?_⟩
  change Function.update (Function.update next.modelReady (s.settings.model, next.device) false)
    (next.settings.model, next.device) true = _
  rw [hname, hdevice, hcells]
  rfl

theorem rollback_gauge {previous : Previous} (hprevious : s.previous = some previous)
    (started : Nat) :
    (s.rollback started).label = (previous.name, s.deviceOf previous.model) ∧
      (s.rollback started).modelReady = s.modelReady := by
  unfold rollback
  rw [hprevious]
  constructor
  · exact (syncActiveBackendState_label (s.switchTo previous)).trans
      (congrArg (Prod.mk _) (deviceOf_switchTo s previous previous.model))
  · exact syncActiveBackendState_modelReady (s.switchTo previous)

theorem resumePredict_gauge {id : PredictId} {reply : Reply Score}
    (h : s.resumePredict id = some (s', reply)) :
    s'.modelReady = s.modelReady ∧ s'.settings.model = s.settings.model ∧
      s'.device = match s.phase id with
        | .answered _ (.scores _) => s.deviceOf s.model
        | _ => s.device := by
  unfold resumePredict at h
  split at h
  · rename_i hphase
    cases h
    have hlabel := syncActiveBackendState_label s
    refine ⟨syncActiveBackendState_modelReady s, congrArg Prod.fst hlabel, ?_⟩
    rw [hphase]
    exact congrArg Prod.snd hlabel
  · rename_i hphase
    cases h
    rw [hphase]
    exact ⟨rfl, rfl, rfl⟩
  · cases h

/-! ### One operation -/

/-- A step of the initial load. -/
def LoadsInitially : Action → Prop
  | .loadBegin | .loadReturned _ | .warmedUp _ | .loadCancelled => True
  | _ => False

/-- An activation finds the candidate on the device of the runtime; a rollback leads to the same
name on the same device; a `predict` that returns scores finds the active model where it was. -/
def KeepsLabel (s : ModelRuntime) : Action → Prop
  | .lockAcquired =>
      match s.lockHolder, s.lockQueue with
      | none, .activate _ :: _ =>
          ∀ candidate ∈ s.candidate, s.candidateInfo.isSome = true →
            s.deviceOf (some candidate) = s.device
      | none, .rollback _ :: _ =>
          ∀ previous ∈ s.previous,
            previous.name = s.settings.model ∧ s.deviceOf previous.model = s.device
      | _, _ => True
  | .resumePredict id =>
      match s.phase id with
      | .answered _ (.scores _) => s.deviceOf s.model = s.device
      | _ => True
  | _ => True

theorem unmoved (h : s.Takes a s') (hload : ¬LoadsInitially a) (hlock : a ≠ .lockAcquired)
    (hresume : ∀ id, a ≠ .resumePredict id) :
    s'.modelReady = s.modelReady ∧ s'.label = s.label := by
  cases h with
  | answered hphase =>
      rename_i execution _ model _
      cases execution.fallback <;> cases model <;> exact ⟨rfl, rfl⟩
  | cancelled =>
      unfold cancelPredict
      split <;> exact ⟨rfl, rfl⟩
  | reconfigured =>
      unfold reconfigure
      dsimp only
      split <;> exact ⟨rfl, rfl⟩
  | ticked | candidateEnded | candidateQueued | activateQueued | rollbackQueued | candidateLoaded |
    candidateRaised | candidateAccepted | candidateRejected | closed | entered | acquired | begun |
    orphanEnded => exact ⟨rfl, rfl⟩
  | loadBegun | loadArrived | loadRaised | warmedUp | warmUpRaised | loadCancelled =>
      exact absurd trivial hload
  | candidateGranted | activated | activationRefused | rolledBack | rollbackRefused =>
      exact absurd rfl hlock
  | resumed => exact absurd rfl (hresume _)

theorem activation_iff (h : Indicates s.modelReady s.label) (started : Nat) :
    Indicates (s.activateCandidate started).modelReady (s.activateCandidate started).label ↔
      ∀ candidate ∈ s.candidate, s.candidateInfo.isSome = true →
        s.deviceOf (some candidate) = s.device := by
  by_cases hnone : s.candidate = none ∨ s.candidateInfo = none
  · rw [activateCandidate_failed hnone]
    refine iff_of_true h ?_
    intro candidate hcandidate hinfo
    rcases hnone with hnone | hnone
    · rw [hnone] at hcandidate
      cases hcandidate
    · rw [hnone] at hinfo
      cases hinfo
  · rw [not_or] at hnone
    obtain ⟨candidate, hcandidate⟩ := Option.ne_none_iff_exists'.mp hnone.1
    obtain ⟨info, hinfo⟩ := Option.ne_none_iff_exists'.mp hnone.2
    obtain ⟨hlabel, hcells⟩ := activateCandidate_gauge hcandidate hinfo started
    rw [hlabel, hcells, h.move_iff, hcandidate, hinfo]
    constructor
    · rintro (hold | hnew) other hother -
      · cases hother
        exact (congrArg Prod.snd hold).symm
      · cases hother
        exact (congrArg Prod.snd hnew).symm
    · intro hdevice
      left
      exact congrArg (Prod.mk _) (hdevice candidate rfl rfl).symm

theorem rollback_iff (h : Indicates s.modelReady s.label) (started : Nat) :
    Indicates (s.rollback started).modelReady (s.rollback started).label ↔
      ∀ previous ∈ s.previous,
        previous.name = s.settings.model ∧ s.deviceOf previous.model = s.device := by
  cases hprevious : s.previous with
  | none =>
      rw [rollback_failed hprevious]
      exact iff_of_true h nofun
  | some previous =>
      obtain ⟨hlabel, hcells⟩ := rollback_gauge hprevious started
      rw [hlabel, hcells, h.iff_eq]
      constructor
      · rintro heq other hother
        cases hother
        exact Prod.mk.inj heq
      · intro hkept
        exact congrArg₂ Prod.mk (hkept previous rfl).1 (hkept previous rfl).2

theorem lockAcquired_indicates_iff (h : Indicates s.modelReady s.label)
    (hacquired : s.lockAcquired = some s') :
    Indicates s'.modelReady s'.label ↔ s.KeepsLabel .lockAcquired := by
  unfold lockAcquired at hacquired
  unfold KeepsLabel
  split at hacquired
  · rename_i hfree hqueue
    cases hacquired
    rw [hfree, hqueue]
    exact iff_of_true h trivial
  · rename_i rest hfree hqueue
    cases hacquired
    refine (activation_iff (s := { s with lockQueue := rest }) h _).trans ?_
    rw [hfree, hqueue]
    exact Iff.rfl
  · rename_i rest hfree hqueue
    cases hacquired
    refine (rollback_iff (s := { s with lockQueue := rest }) h _).trans ?_
    rw [hfree, hqueue]
    exact Iff.rfl
  · cases hacquired

theorem resumePredict_indicates_iff (h : Indicates s.modelReady s.label) {id : PredictId}
    {reply : Reply Score} (hresume : s.resumePredict id = some (s', reply)) :
    Indicates s'.modelReady s'.label ↔ s.KeepsLabel (.resumePredict id) := by
  obtain ⟨hcells, hname, hdevice⟩ := resumePredict_gauge hresume
  rw [hcells, h.iff_eq, label, label, hname, hdevice, Prod.mk.injEq]
  simp only [KeepsLabel]
  split
  · exact and_iff_right trivial
  · exact iff_of_true ⟨trivial, rfl⟩ trivial

/-- **One step**: the gauge goes on naming the active model exactly if the step keeps its label. -/
theorem step_indicates_iff (h : Indicates s.modelReady s.label) (hload : ¬LoadsInitially a)
    (hstep : s.step a = some s') :
    Indicates s'.modelReady s'.label ↔ s.KeepsLabel a := by
  obtain ⟨hopen, htakes⟩ := step_takes hstep
  by_cases hlock : a = .lockAcquired
  · subst hlock
    simp only [step, hopen] at hstep
    exact lockAcquired_indicates_iff h hstep
  by_cases hresume : ∃ id, a = .resumePredict id
  · obtain ⟨id, rfl⟩ := hresume
    cases htakes with
    | resumed hreply => exact resumePredict_indicates_iff h hreply
  · obtain ⟨hcells, hlabel⟩ := unmoved htakes hload hlock fun id heq => hresume ⟨id, heq⟩
    rw [hcells, hlabel]
    refine iff_of_true h ?_
    cases a with
    | lockAcquired => exact absurd rfl hlock
    | resumePredict id => exact absurd ⟨id, rfl⟩ hresume
    | _ => trivial

/-! ### Runs -/

/-- A step up to the first successful load: `load` is not called again once the runtime is ready. -/
def LoadingStep (s : ModelRuntime) : Action → Prop
  | .tick | .loadReturned _ | .warmedUp _ => True
  | .loadBegin => s.ready = false
  | _ => False

/-- A fresh runtime after a successful initial load. -/
def InitiallyLoaded (s : ModelRuntime) : Prop :=
  Reaches step Initial LoadingStep s ∧ s.ready = true

/-- Until the warm-up has succeeded no cell is set. -/
structure Loading (s : ModelRuntime) : Prop where
  unset : s.ready = false → ∀ k, s.modelReady k = false
  set : s.ready = true → Indicates s.modelReady s.label
  idle : s.ready = true → s.initialLoad = .idle

theorem Loading.of_unset {s : ModelRuntime} (hready : s.ready = false)
    (h : ∀ k, s.modelReady k = false) : s.Loading where
  unset _ := h
  set hset := by rw [hready] at hset; cases hset
  idle hset := by rw [hready] at hset; cases hset

theorem Initial.loading (h : Initial s) : s.Loading := by
  obtain ⟨settings, backendDevice, rfl⟩ := h
  exact .of_unset rfl fun _ => rfl

theorem Loading.not_ready (h : s.Loading) (hload : s.initialLoad ≠ .idle) : s.ready = false := by
  cases hready : s.ready with
  | false => rfl
  | true => exact absurd (h.idle hready) hload

theorem loadFailed_loading (h : s.Loading) (hready : s.ready = false) (error : Error)
    (started : Nat) : (s.loadFailed error started).Loading := by
  refine .of_unset hready fun k => ?_
  change Function.update s.modelReady s.label false k = false
  by_cases hk : k = s.label
  · rw [hk, Function.update_self]
  · rw [Function.update_of_ne hk]
    exact h.unset hready k

theorem syncActiveBackendState_ready (s : ModelRuntime) :
    s.syncActiveBackendState.ready = s.ready := by
  unfold syncActiveBackendState
  split <;> rfl

theorem loadReturned_loading (h : s.Loading) {outcome : Except Error Loaded}
    (hreturned : s.loadReturned outcome = some s') : s'.Loading := by
  unfold loadReturned at hreturned
  split at hreturned
  · rename_i hloading
    have hready := h.not_ready (hloading ▸ nofun)
    cases hreturned
    refine .of_unset ((syncActiveBackendState_ready _).trans hready) fun k => ?_
    exact (congrFun (syncActiveBackendState_modelReady _) k).trans (h.unset hready k)
  · rename_i hloading
    have hready := h.not_ready (hloading ▸ nofun)
    cases hreturned
    exact loadFailed_loading h hready _ _
  · cases hreturned

theorem warmedUp_loading (h : s.Loading) {outcome : Except Error Unit}
    (hreturned : s.warmedUp outcome = some s') : s'.Loading := by
  unfold warmedUp at hreturned
  split at hreturned
  · rename_i hwarming
    have hready := h.not_ready (hwarming ▸ nofun)
    cases hreturned
    exact ⟨nofun, fun _ => indicates_update (h.unset hready), fun _ => rfl⟩
  · rename_i hwarming
    have hready := h.not_ready (hwarming ▸ nofun)
    cases hreturned
    exact loadFailed_loading h hready _ _
  · cases hreturned

theorem step_loading (h : s.Loading) (hload : s.LoadingStep a) (hstep : s.step a = some s') :
    s'.Loading := by
  have hopen := (step_takes hstep).1
  cases a with
  | tick =>
      simp only [step, hopen] at hstep
      cases hstep
      exact ⟨h.unset, h.set, h.idle⟩
  | loadBegin =>
      simp only [step, hopen, loadBegin] at hstep
      split at hstep
      · cases hstep
      · split at hstep
        · cases hstep
          exact .of_unset hload (h.unset hload)
        · cases hstep
  | loadReturned outcome =>
      simp only [step, hopen] at hstep
      exact loadReturned_loading h hstep
  | warmedUp outcome =>
      simp only [step, hopen] at hstep
      exact warmedUp_loading h hstep
  | _ => exact hload.elim

theorem InitiallyLoaded.indicates (h : InitiallyLoaded s) : Indicates s.modelReady s.label :=
  (h.1.invariant (fun _ => Initial.loading) fun _ _ _ hs hload hstep =>
    step_loading hs hload hstep).set h.2

/-- **The gauge names the active model** in the runs whose steps after the initial load keep its
label, also while operations are in progress. -/
theorem gauge_names_active
    (hreach : Reaches step InitiallyLoaded (fun s a => ¬LoadsInitially a ∧ s.KeepsLabel a) s)
    (model device : Text) :
    s.modelReady (model, device) = true ↔ model = s.settings.model ∧ device = s.device := by
  have hindicates : Indicates s.modelReady s.label :=
    hreach.invariant (fun _ => InitiallyLoaded.indicates) fun s a s' hs hkeeps hstep =>
      (step_indicates_iff hs hkeeps.1 hstep).mpr hkeeps.2
  rw [hindicates, label, Prod.mk.injEq]

def twoNames : Settings where
  model := ['a']
  modelRevision := List.replicate 40 'a'
  modelAllowlist := ['a', ',', 'm']

/-- The runtime with `a` loaded. -/
def servingA : ModelRuntime :=
  (run step (new twoNames "auto".toList) loadAndWarmUp).getD (new twoNames "auto".toList)

theorem servingA_loaded : servingA.InitiallyLoaded := by
  have hstart : Reaches step Initial LoadingStep (new twoNames "auto".toList) :=
    .start ⟨twoNames, _, rfl⟩
  have hbegun := hstart.next (a := Action.loadBegin) rfl rfl
  have hloaded := hbegun.next (a := Action.loadReturned (.ok loadedModel)) trivial rfl
  exact ⟨hloaded.next (a := Action.warmedUp (.ok ())) trivial rfl, rfl⟩

/-- `m` becomes a candidate and then the active model. -/
def activateM : List Action :=
  loadCandidate ++ [.activateBegin, .lockAcquired]

theorem gauge_names_active_candidate : ∃ s,
    run step servingA activateM = some s ∧ s.modelReady (['m'], "cpu".toList) = true := by
  have hstart : Reaches step InitiallyLoaded (fun s a => ¬LoadsInitially a ∧ s.KeepsLabel a)
      servingA := .start servingA_loaded
  have hqueued := hstart.next
    (a := Action.candidateBegin idleMachine ['m'] (List.replicate 40 'b')) ⟨id, trivial⟩ rfl
  have hgranted := hqueued.next (a := Action.lockAcquired) ⟨id, trivial⟩ rfl
  have hreturned := hgranted.next (a := Action.candidateReturned (.ok loadedModel))
    ⟨id, trivial⟩ rfl
  have hsmoked := hreturned.next (a := Action.candidateSmoked (.ok [.finite 1])) ⟨id, trivial⟩ rfl
  have hasked := hsmoked.next (a := Action.activateBegin) ⟨id, trivial⟩ rfl
  have hactivated := hasked.next (a := Action.lockAcquired)
    ⟨id, fun candidate hcandidate _ => by cases hcandidate; rfl⟩ rfl
  exact ⟨_, rfl, (gauge_names_active hactivated _ _).mpr ⟨rfl, rfl⟩⟩

/-- After the rollback to `a` the gauge still names `m`. -/
theorem gauge_misses_rollback :
    ¬∀ s, Reaches step InitiallyLoaded (fun _ a => ¬LoadsInitially a) s →
      s.quiescent = true ∧ (∀ id, s.phase id = .returned) → ∀ model device,
        s.modelReady (model, device) = true ↔ model = s.settings.model ∧ device = s.device := by
  intro hclaim
  have hrun : run step servingA (activateM ++ [.rollbackBegin, .lockAcquired]) =
      some (_ : ModelRuntime) := rfl
  have hreach : Reaches step InitiallyLoaded (fun _ a => ¬LoadsInitially a) _ :=
    .extend (.start servingA_loaded) (by simp [activateM, loadCandidate, LoadsInitially]) hrun
  cases (hclaim _ hreach ⟨rfl, fun _ => rfl⟩ ['a'] "cpu".toList).mpr ⟨rfl, rfl⟩

end ModelRuntime

end RerankerService
