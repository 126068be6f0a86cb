import RerankerService.Proof.Failures
import RerankerService.Proof.Serving

/-!
# The truncation length in force

A patch of `max_length` reaches the model that is active at that moment. Models that were loaded
before it keep their length, so the length in force is the configured one exactly as long as no such
model becomes active.
-/

namespace RerankerService

open Transition

namespace ModelRuntime

variable {s s' : ModelRuntime} {a : Action}

def Truncates (s : ModelRuntime) (m : ModelId) : Prop :=
  (s.sources m).maxLength = min s.settings.maxLength (s.sources m).cap

/-- The model that the action makes active has the length that the settings give it now. -/
def LengthsCurrent (s : ModelRuntime) : Action → Prop
  | .loadReturned (.ok loaded) =>
      match s.initialLoad with
      | .loading _ _ maxLength _ => min maxLength loaded.cap = min s.settings.maxLength loaded.cap
      | _ => True
  | .lockAcquired =>
      match s.lockQueue with
      | .activate _ :: _ => ∀ m, s.candidate = some m → s.candidateInfo.isSome → s.Truncates m
      | .rollback _ :: _ =>
          ∀ previous, s.previous = some previous → ∀ m, previous.model = some m → s.Truncates m
      | _ => True
  | _ => True

/-! ### What a step leaves alone -/

theorem inSync_iff : s.InSync ↔ ∀ m, s.model = some m → s.Truncates m := by
  constructor
  · intro h m hm
    apply h
    rw [activeSource, hm, Option.map_some]
  · intro h source hsource
    obtain ⟨m, hm, rfl⟩ := Option.map_eq_some_iff.mp hsource
    exact h m hm

/-- The objects that were there before the step, and the configured length. -/
structure KeepsObjects (s s' : ModelRuntime) : Prop where
  constants : s'.frame.constants = s.frame.constants
  sources : ∀ m < s.loaded, s'.frame.sources m = s.frame.sources m

theorem KeepsObjects.of_frame {calls : PredictId → PredictCall} {entered : Nat}
    (h : s'.frame = { s.frame with calls, entered }) : s.KeepsObjects s' where
  constants := by rw [h]
  sources _ _ := by rw [h]

theorem KeepsObjects.of_allocate {source : Source} (h : s'.frame = s.frame.allocate source) :
    s.KeepsObjects s' where
  constants := by
    rw [h]
    rfl
  sources m hm := by
    rw [h]
    exact Function.update_of_ne hm.ne _ _

theorem KeepsObjects.truncates (h : s.KeepsObjects s') {m : ModelId} (hm : m < s.loaded) :
    s'.Truncates m ↔ s.Truncates m := by
  have hsource : s'.sources m = s.sources m := h.sources m hm
  have hlength : s'.frame.constants.maxLength = s.frame.constants.maxLength := by
    rw [h.constants]
  change s'.settings.maxLength = s.settings.maxLength at hlength
  rw [Truncates, Truncates, hsource, hlength]

/-- Only a patch changes the configured length or the length of an object. -/
theorem step_keepsObjects
    (hpatch : ∀ maxConcurrency maxLength, a ≠ .reconfigure maxConcurrency maxLength)
    (hstep : s.step a = some s') : s.KeepsObjects s' := by
  by_cases hbackground : Application.background a
  · cases step_frame hbackground hstep with
    | same heq => exact .of_frame heq
    | allocated name revision maxLength loaded heq => exact .of_allocate heq
    | advanced id phase hadvances heq => exact .of_frame heq
  obtain ⟨-, htakes⟩ := step_takes hstep
  cases htakes with
  | loadBegun _ | loadCancelled _ | closed _ => exact .of_frame rfl
  | reconfigured => exact absurd rfl (hpatch _ _)
  | entered => exact .of_frame (enter_frame s _)
  | resumed hresume =>
      obtain ⟨semaphore, -, heq⟩ := resumePredict_frame hresume
      exact .of_frame heq
  | @cancelled id =>
      rcases cancelPredict_frame s id with heq | ⟨phase, -, heq⟩
      · exact .of_frame heq
      · exact .of_frame heq
  | _ => exact absurd rfl hbackground

/-! ### One step -/

theorem inSync_iff_of_model (hold : s.Older) (hobjects : s.KeepsObjects s')
    (hmodel : s'.model = s.model) : s'.InSync ↔ s.InSync := by
  rw [inSync_iff, inSync_iff, hmodel]
  refine forall₂_congr fun m hm => ?_
  exact hobjects.truncates (hold.model m hm)

theorem lockAcquired_inSync_iff (hold : s.Older) (hsync : s.InSync)
    (hobjects : s.KeepsObjects s') (hstep : s.step .lockAcquired = some s') :
    s'.InSync ↔ LengthsCurrent s .lockAcquired := by
  have hkept (hmodel : s'.model = s.model) : s'.InSync :=
    (inSync_iff_of_model hold hobjects hmodel).mpr hsync
  cases lockAcquired_grants hstep with
  | queued hqueue hmodel =>
      simp only [LengthsCurrent, hqueue, iff_true]
      exact hkept hmodel
  | activated hqueue hcandidate hinfo hmodel =>
      rw [inSync_iff, hmodel]
      simp only [LengthsCurrent, hqueue, hcandidate, hinfo, Option.some.injEq, forall_eq',
        Option.isSome_some, forall_const]
      exact hobjects.truncates (hold.candidate _ hcandidate)
  | refused hqueue hnone hmodel =>
      simp only [LengthsCurrent, hqueue]
      refine iff_of_true (hkept hmodel) fun m hm hinfo => ?_
      rcases hnone with hnone | hnone
      · cases hnone.symm.trans hm
      · rw [hnone] at hinfo
        cases hinfo
  | rolledBack hqueue hprevious hmodel =>
      rw [inSync_iff, hmodel]
      simp only [LengthsCurrent, hqueue, hprevious, Option.some.injEq, forall_eq']
      exact forall₂_congr fun m hm => hobjects.truncates (hold.previous _ m hprevious hm)
  | stayed hqueue hnone hmodel =>
      simp only [LengthsCurrent, hqueue]
      refine iff_of_true (hkept hmodel) fun previous hprevious => ?_
      cases hnone.symm.trans hprevious

theorem loadReturned_inSync_iff {name revision : Text} {maxLength started : Nat} {loaded : Loaded}
    (hloading : s.initialLoad = .loading name revision maxLength started)
    (hstep : s.step (.loadReturned (.ok loaded)) = some s') :
    s'.InSync ↔ LengthsCurrent s (.loadReturned (.ok loaded)) := by
  obtain ⟨hsettings, hframe⟩ := loadReturned_cases hloading hstep
  have hmoves := step_slots hstep
  simp only [event, hloading] at hmoves
  have hmodel : s'.model = some s.loaded := by
    have hslots := Option.some.inj hmoves
    exact (congrArg Slots.active hslots).symm
  have hsource : s'.sources s.loaded =
      (s.settings.loadModel name revision maxLength loaded).toSource :=
    (congrFun (congrArg Frame.sources hframe) s.loaded).trans (Function.update_self _ _ _)
  rw [inSync_iff, hmodel]
  simp only [Option.some.injEq, forall_eq', Truncates, hsource, hsettings, LengthsCurrent,
    hloading, Settings.loadModel]

/-- A step from a synchronised state ends in one if and only if the model it makes active has the
current length. -/
theorem step_inSync_iff (hold : s.Older) (hsync : s.InSync) (hstep : s.step a = some s') :
    s'.InSync ↔ LengthsCurrent s a := by
  have hkept (hpatch : ∀ maxConcurrency maxLength, a ≠ .reconfigure maxConcurrency maxLength)
      (hmodel : s'.model = s.model) : s'.InSync :=
    (inSync_iff_of_model hold (step_keepsObjects hpatch hstep) hmodel).mpr hsync
  have htaken := hstep
  obtain ⟨-, htakes⟩ := step_takes hstep
  cases htakes with
  | reconfigured => exact iff_of_true (inSync_reconfigure s _ _) trivial
  | candidateGranted _ _ | activated _ _ _ | activationRefused _ _ | rolledBack _ _
  | rollbackRefused _ _ =>
      exact lockAcquired_inSync_iff hold hsync (step_keepsObjects (by simp) htaken) htaken
  | closed hquiescent => exact iff_of_true (inSync_iff.mpr fun m hm => by cases hm) trivial
  | loadArrived hloading => exact loadReturned_inSync_iff hloading htaken
  | loadRaised _ => exact iff_of_true (hkept (by simp) rfl) trivial
  | _ =>
      have hmodel := model_eq (fun e => event_other (by simp) (by simp) (by simp)) htaken
      exact iff_of_true (hkept (by simp) hmodel) trivial

/-! ### Runs -/

/-- **The truncation length in force** is the configured one in every state of the runs in which
every model that becomes active has the current length, and a step that makes another one active
breaks it. -/
theorem length_in_force (hreach : Reaches step
      (fun t => Initial t ∧ t.settings.backend = .onnxPairwise) LengthsCurrent s) :
    s.InSync ∧ ∀ a s', s.step a = some s' → (s'.InSync ↔ LengthsCurrent s a) := by
  have holder {t : ModelRuntime} (ht : Reaches step
      (fun t => Initial t ∧ t.settings.backend = .onnxPairwise) LengthsCurrent t) : t.Older :=
    older_of_atMostOnce (atMostOnce_of_reachable (ht.reachable.of_init fun _ h => h.1))
  have hsync : s.InSync := by
    refine hreach.invariant_of (I := Older) (fun t => holder) (fun t h => ?_)
      fun t a t' hold hsync hcurrent hstep => (step_inSync_iff hold hsync hstep).mpr hcurrent
    obtain ⟨⟨settings, backendDevice, rfl⟩, -⟩ := h
    refine inSync_iff.mpr fun m hm => ?_
    cases hm
  exact ⟨hsync, fun a s' => step_inSync_iff (holder hreach) hsync⟩

/-- A smaller `max_length` is patched in before the first load. -/
theorem length_in_force_loaded : ∃ s, run step (new {} "auto".toList)
      [.reconfigure 2 64, .loadBegin, .loadReturned (.ok loadedModel)] = some s ∧
    s.activeSource.map Source.maxLength = some 64 ∧ s.InSync := by
  have hstart : Reaches step (fun t => Initial t ∧ t.settings.backend = .onnxPairwise)
      LengthsCurrent (new {} "auto".toList) := .start ⟨⟨{}, _, rfl⟩, rfl⟩
  have hpatched := hstart.next (a := .reconfigure 2 64) (by trivial) rfl
  have hbegun := hpatched.next (a := .loadBegin) (by trivial) rfl
  have hloaded := hbegun.next (a := .loadReturned (.ok loadedModel)) (by rfl) rfl
  exact ⟨_, rfl, rfl, (length_in_force hloaded).1⟩

/-- `max_length` is patched from 1024 to 64 between the load and the activation of a candidate. -/
def activatedAfterPatch : List Action :=
  loadAndWarmUp ++ loadCandidate ++ [.reconfigure 2 64, .activateBegin, .lockAcquired]

theorem candidate_keeps_old_length : ¬∀ s,
    Reachable step (fun t => Initial t ∧ t.settings.backend = .onnxPairwise) s →
      s.quiescent → s.InSync := by
  intro hclaim
  have hrun : run step (new twoRevisions "auto".toList) activatedAfterPatch =
      some (_ : ModelRuntime) := rfl
  have hsync := hclaim _ (reachable_of_run ⟨⟨twoRevisions, _, rfl⟩, rfl⟩ hrun) rfl
  have hlength := inSync_iff.mp hsync 1 rfl
  revert hlength
  unfold Truncates
  decide

end ModelRuntime

end RerankerService
