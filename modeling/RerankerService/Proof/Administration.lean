import RerankerService.Proof.CacheKey
import RerankerService.Proof.Configuration
import RerankerService.Service.Administration

/-!
# Reported and effective settings

A patch writes the same values into the dictionary of the administration and into the settings, and
no other step of the application writes either. A rollback of the dictionary writes the dictionary
only, so that the two agree exactly as long as it has nothing to roll back.
-/

namespace RerankerService

open Transition

/-! ### What the application leaves alone -/

namespace DynamicBatcher

variable {σ : Type} {d d' : DynamicBatcher σ}

def flags (d : DynamicBatcher σ) : Bool × Limits :=
  (d.dynamicBatching, d.limits)

theorem predict_flags (d : DynamicBatcher σ) (pairs : List Pair) :
    (d.predict pairs).1.flags = d.flags := by
  rcases predict_cases d pairs with heq | heq
  · rw [heq]
  · rw [heq]
    rfl

theorem patch_flags {dynamicBatching : Bool} {limits : Limits}
    (h : d.step (.patch dynamicBatching limits) = some d') :
    d'.flags = (dynamicBatching, limits) := by
  simp only [step] at h
  split at h
  · cases reconfigure_cases h with
    | started _ _ => rfl
    | closing _ _ _ => rfl
    | kept _ => rfl
  · cases h

end DynamicBatcher

namespace Application

variable {prims : Primitives} {s s' : Application} {a : Action}

theorem step_runtime_constants (ha : ∀ patch, a ≠ .patchRuntime patch)
    (h : s.step prims a = some s') :
    s'.runtime.frame.constants = s.runtime.frame.constants := by
  by_cases hconfigured : s.Reconfigures a
  · cases a with
    | patchRuntime patch => exact absurd rfl (ha patch)
    | runtime b =>
        simp only [step] at h
        split at h
        · rename_i hbackground
          obtain ⟨r, hr, rfl⟩ := Option.map_eq_some_iff.mp h
          exact ModelRuntime.constants_eq hbackground hr
        · cases h
    | _ => exact hconfigured.elim
  · have hsettings := ((step_effect h).models hconfigured).settings
    exact congrArg (fun settings : Settings => { settings with model := [], modelRevision := [] })
      hsettings

theorem infer_flags (s : Application) (id : CallId) (scores : List (Option Score)) :
    (s.infer id scores).batcher.flags = s.batcher.flags := by
  unfold infer
  dsimp only
  split
  · rfl
  split
  · rfl
  have hpredict := s.batcher.predict_flags ((s.calls id).missingPairs (RerankService.missing scores))
  split
  · rfl
  · rfl
  · rename_i heq
    rw [heq] at hpredict
    exact hpredict

theorem received_batcher (s : Application) (prims : Primitives) (id : CallId)
    (scores : List (Option Score)) (reply : Reply Score) :
    (s.received prims id scores reply).batcher = s.batcher := by
  cases reply with
  | scores values =>
      unfold received inferred
      dsimp only
      split
      · rfl
      split <;> rfl
  | raised error => rfl

theorem callPredictor_batcher (s : Application) : s.callPredictor.batcher = s.batcher := by
  unfold callPredictor
  split <;> rfl

theorem beginCall_flags {id : CallId} (h : s.beginCall id = some s') :
    s'.batcher.flags = s.batcher.flags := by
  obtain ⟨-, -, ⟨error, rfl⟩ | ⟨-, query, prepared, -, rfl | ⟨-, rfl⟩⟩⟩ := beginCall_cases h
  · rfl
  · exact infer_flags (s.accept id query prepared) id _
  · rfl

theorem step_flags (ha : ∀ patch, a ≠ .patchRuntime patch) (h : s.step prims a = some s') :
    s'.batcher.flags = s.batcher.flags := by
  cases step_takes h with
  | @called request s' hbegin => exact beginCall_flags (s := s.create request) hbegin
  | @batchCreated requests =>
      unfold rerankBatch
      split
      · rfl
      · obtain ⟨calls, created, heq⟩ := foldl_create requests s
        rw [heq]
  | begun hbegin => exact beginCall_flags hbegin
  | lookedUp hphase hanswer => exact infer_flags s _ _
  | predicted hphase hresume => rw [received_batcher]
  | jobSettled hphase hreply => rw [received_batcher]
  | timedOut _ | jobTimedOut _ | written _ | gathered _ _ | gatherRaised _ _ _ | ran _ _ => rfl
  | took htake =>
      obtain ⟨-, -, id, rest, -, -, rfl⟩ := DynamicBatcher.take_cases htake
      rfl
  | windowClosed hclosed =>
      obtain ⟨-, -, -, rfl⟩ := DynamicBatcher.windowClosed_cases hclosed
      rw [callPredictor_batcher]
      rfl
  | workerPredicted hcall hresume hreplied =>
      obtain ⟨-, active, batch, -, rfl⟩ := DynamicBatcher.replied_cases hreplied
      rw [callPredictor_batcher]
      rfl
  | workerCancelled hcancelled =>
      rw [DynamicBatcher.workerCancelled_eq hcancelled]
      rfl
  | closeReturned hreturn =>
      rw [(DynamicBatcher.closeReturn_eq hreturn).2]
      rfl
  | patched hpatch => exact absurd rfl (ha _)

end Application

namespace Administration

variable {prims : Primitives} {s s' : Administration} {a : Action}

/-- The dictionary holds the values in force, and so does the batcher. -/
structure Agrees (s : Administration) : Prop where
  reported : s.admin.runtime = s.cfg
  shared : s.application.batcher.flags =
    (s.application.settings.dynamicBatching, s.application.settings.limits)

/-- A rollback of the dictionary has nothing to roll back. -/
def RollsBackNothing (s : Administration) : Action → Prop
  | .rollback => s.application.runtime.previous = none → s.admin.previous = s.admin.runtime
  | _ => True

/-! ### One step -/

theorem cfg_congr {application : Application}
    (h : application.runtime.frame.constants = s.application.runtime.frame.constants) :
    { s with application }.cfg = s.cfg :=
  RuntimeConfiguration.ext rfl (congrArg Settings.maxConcurrency h :) (congrArg Settings.maxLength h :)
    (congrArg Settings.dynamicBatching h :) rfl (congrArg Settings.maxBatchPairs h :) rfl
    (congrArg Settings.defaultTopN h :)

theorem application_step {action : Application.Action}
    (h : s.step prims (.application action) = some s') :
    s'.admin = s.admin ∧ s'.cfg = s.cfg ∧ (s.Agrees → s'.Agrees) := by
  unfold step at h
  split at h
  · rename_i hadmitted
    obtain ⟨application, hstep, rfl⟩ := Option.map_eq_some_iff.mp h
    have ha (patch : RuntimePatch) : action ≠ .patchRuntime patch := by
      rintro rfl
      cases hadmitted
    have hconstants := Application.step_runtime_constants ha hstep
    have hflags := Application.step_flags ha hstep
    refine ⟨rfl, ?_, fun h => ⟨h.reported.trans ?_, hflags.trans (h.shared.trans ?_)⟩⟩
    · exact cfg_congr hconstants
    · exact (cfg_congr hconstants).symm
    · exact (congrArg (fun c : Settings => (c.dynamicBatching, c.limits)) hconstants.symm :)
  · cases h

theorem patch_step {body : PatchBody} (h : s.step prims (.patch body) = some s') :
    s'.admin = { previous := s.admin.runtime, runtime := s.admin.runtime.updated body } ∧
      s'.cfg = s.cfg.updated body ∧
      s'.application.batcher.flags =
        (s'.application.settings.dynamicBatching, s'.application.settings.limits) := by
  obtain ⟨⟨t, result⟩, hpatch, rfl⟩ := Option.map_eq_some_iff.mp h
  simp only [patchRuntime, Option.map_eq_some_iff, Prod.mk.injEq] at hpatch
  obtain ⟨application, happlication, rfl, -⟩ := hpatch
  simp only [Application.patchRuntime, Option.map_eq_some_iff] at happlication
  obtain ⟨batcher, hbatcher, rfl⟩ := happlication
  refine ⟨rfl, ?_, ?_⟩
  · unfold cfg Application.settings
    dsimp only
    rw [ModelRuntime.reconfigure_settings]
    rfl
  · unfold Application.settings
    dsimp only
    rw [ModelRuntime.reconfigure_settings, DynamicBatcher.patch_flags hbatcher]
    rfl

theorem rollback_cfg (s : Administration) :
    s.rollbackRuntime.cfg = s.cfg ∧
      s.rollbackRuntime.application.batcher.flags = s.application.batcher.flags ∧
      s.rollbackRuntime.application.settings = s.application.settings := by
  unfold rollbackRuntime
  split
  · exact ⟨rfl, rfl, rfl⟩
  · exact ⟨rfl, rfl, rfl⟩

theorem rollback_agrees_iff (h : s.Agrees) :
    s.rollbackRuntime.Agrees ↔ s.RollsBackNothing .rollback := by
  obtain ⟨hcfg, hflags, hsettings⟩ := s.rollback_cfg
  have hshared := hflags.trans (hsettings ▸ h.shared)
  have hiff : s.rollbackRuntime.Agrees ↔ s.rollbackRuntime.admin.runtime = s.cfg :=
    ⟨fun hagrees => hagrees.reported.trans hcfg, fun heq => ⟨heq.trans hcfg.symm, hshared⟩⟩
  rw [hiff, ← h.reported]
  unfold RollsBackNothing rollbackRuntime
  cases hprevious : s.application.runtime.previous with
  | none => simp
  | some previous => simp

theorem step_agrees_iff (h : s.Agrees) (hstep : s.step prims a = some s') :
    s'.Agrees ↔ s.RollsBackNothing a := by
  cases a with
  | patch body =>
      obtain ⟨hadmin, hcfg, hshared⟩ := patch_step hstep
      refine iff_of_true ⟨?_, hshared⟩ trivial
      rw [hadmin, hcfg, h.reported]
  | rollback =>
      cases hstep
      exact rollback_agrees_iff h
  | application action => exact iff_of_true ((application_step hstep).2.2 h) trivial

/-! ### Runs -/

def Action.isApplication : Action → Prop
  | .application _ => True
  | _ => False

theorem application_run (hrun : Reaches (step prims) (· = s) (fun _ a => a.isApplication) s') :
    s'.admin = s.admin ∧ s'.cfg = s.cfg := by
  induction hrun with
  | start h => exact ⟨by rw [h], by rw [h]⟩
  | @next t a t' _ happlication hstep ih =>
      cases a with
      | application action =>
          obtain ⟨hadmin, hcfg, -⟩ := application_step hstep
          exact ⟨hadmin.trans ih.1, hcfg.trans ih.2⟩
      | _ => exact happlication.elim

/-- A rollback directly after a patch leaves the patch in force, unless it changed nothing. -/
theorem rollback_after_patch (h : s.Agrees) {body : PatchBody} {s₁ s₂ s₃ : Administration}
    (hpatch : s.step prims (.patch body) = some s₁)
    (hrun : Reaches (step prims) (· = s₁) (fun _ a => a.isApplication) s₂)
    (hrollback : s₂.step prims .rollback = some s₃) :
    s₃.cfg = s.cfg ↔ s₂.admin.previous = s₂.admin.runtime := by
  obtain ⟨hadmin, hcfg, -⟩ := patch_step hpatch
  obtain ⟨hadmin₂, hcfg₂⟩ := application_run hrun
  cases hrollback
  rw [s₂.rollback_cfg.1, hcfg₂, hcfg, hadmin₂, hadmin, h.reported]
  exact eq_comm

/-- **Reported and effective settings agree** in the runs in which no rollback of the dictionary has
anything to roll back; one that has breaks it, and leaves in force what it should roll back. -/
theorem settings_reported (hreach : Reaches (step prims) Initial RollsBackNothing s) :
    (s.Agrees ∧ ∀ a s', s.step prims a = some s' → (s'.Agrees ↔ s.RollsBackNothing a)) ∧
      ∀ body s₁ s₂ s₃, s.step prims (.patch body) = some s₁ →
        Reaches (step prims) (· = s₁) (fun _ a => a.isApplication) s₂ →
        s₂.application.runtime.previous = none → s₂.step prims .rollback = some s₃ →
        (s₃.cfg = s.cfg ↔ s₂.RollsBackNothing .rollback) := by
  have hagrees : s.Agrees := by
    refine hreach.invariant (fun t h => ⟨by rw [h.admin]; rfl, ?_⟩)
      fun t a t' h hnothing hstep => (step_agrees_iff h hstep).mpr hnothing
    exact Prod.ext h.dynamicBatching h.limits
  refine ⟨⟨hagrees, fun a s' => step_agrees_iff hagrees⟩, ?_⟩
  intro body s₁ s₂ s₃ hpatch hrun hnone hrollback
  rw [rollback_after_patch hagrees hpatch hrun hrollback]
  exact ⟨fun heq _ => heq, fun hnothing => hnothing hnone⟩

def smallAdministration : Administration where
  admin := .new
    { batchSize := 16, maxConcurrency := 2, maxLength := 1024, dynamicBatching := false
      batchWindowMs := 10, maxBatchPairs := 128, requestTimeoutSeconds := 15, defaultTopN := 10 }
  application := Application.smallApplication

theorem initial_smallAdministration : smallAdministration.Initial :=
  ⟨rfl, rfl, rfl⟩

def shorter : PatchBody where
  maxLength := some 512

/-- The first rollback has nothing to roll back, the second one is that of the model. -/
theorem settings_reported_patched : ∃ s, run (step ScoreCache.asciiPrimitives) smallAdministration
      ([.rollback, .patch shorter] ++
        (Application.loading ++ Application.activation).map .application ++ [.rollback]) = some s ∧
      s.cfg.maxLength = 512 ∧ s.application.runtime.lockQueue = [.rollback 0] ∧ s.Agrees := by
  have hstart : Reaches (step ScoreCache.asciiPrimitives) Initial RollsBackNothing
      smallAdministration := .start initial_smallAdministration
  have hrolled := hstart.next (a := .rollback) (by exact fun _ => rfl) rfl
  have hpatched := hrolled.next (a := .patch shorter) (by trivial) rfl
  have hconcern : ∀ a ∈ (Application.loading ++ Application.activation).map Action.application,
      ∀ t, RollsBackNothing t a := by
    intro a ha t
    obtain ⟨action, -, rfl⟩ := List.mem_map.mp ha
    trivial
  have hactivated := hpatched.extend hconcern rfl
  have hqueued := hactivated.next (a := .rollback) (by intro hnone; cases hnone) rfl
  exact ⟨_, rfl, rfl, rfl, (settings_reported hqueued).1.1⟩

/-- The dictionary goes back to 1024, the settings stay at 512. -/
theorem rollback_only_reported : ¬∀ s, Reaches (step ScoreCache.asciiPrimitives) Initial
      (fun t a => t.application.runtime.previous = none ∧ ¬a.isApplication) s → s.Agrees := by
  intro hclaim
  have hstart : Reaches (step ScoreCache.asciiPrimitives) Initial
      (fun t a => t.application.runtime.previous = none ∧ ¬a.isApplication) smallAdministration :=
    .start initial_smallAdministration
  have hpatched := hstart.next (a := .patch shorter) (by exact ⟨rfl, id⟩) rfl
  have hrolled := hpatched.next (a := .rollback) (by exact ⟨rfl, id⟩) rfl
  have hreported := congrArg RuntimeConfiguration.maxLength (hclaim _ hrolled).reported
  revert hreported
  decide

end Administration

end RerankerService
