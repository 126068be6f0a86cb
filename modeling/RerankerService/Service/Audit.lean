import RerankerService.Runtime.Slots
import RerankerService.Service.Administration
import RerankerService.Service.Benchmark
import RerankerService.Service.Requests

/-!
# The audit log

`AdminState.record`, the endpoints of `main.py` that call it, and `/v1/admin/audit-log`. A handler
records in the step in which what it awaits returns; there is no await in between.
-/

namespace RerankerService

/-- A validated body of `PATCH /v1/admin/cache`. -/
structure CachePatch where
  enabled : Option Bool := none
  ttlSeconds : Option Nat := none
  ttlSeconds_range : ∀ n, ttlSeconds = some n → 1 ≤ n ∧ n ≤ 2592000 := by simp

/-- The actions that are recorded, with their details. -/
inductive AdminEvent where
  | runtimeUpdated (patch : PatchBody)
  | reloadRequested
  | runtimeRolledBack
  | modelRolledBack (identity : Identity)
  | candidateLoaded (name revision : Text) (controlledRestartRequired : Bool)
  | modelActivated (identity : Identity)
  | cacheUpdated (patch : CachePatch)
  | cacheCleared (deleted : Nat)
  | benchmark (event : AuditEvent)

/-- The serial number stands for the `uuid4`. -/
structure AuditRecord where
  serial : Nat
  timestamp : Rat
  event : AdminEvent

/-- The administration with its deque. `recorded` is everything that was ever recorded, oldest
first. -/
structure Audited where
  administration : Administration
  cacheTtlSeconds : Nat := 86400
  audit : List AuditRecord := []
  recorded : List AdminEvent := []

namespace Audited

variable (prims : Primitives)

def runtime (s : Audited) : ModelRuntime :=
  s.administration.application.runtime

/-- `audit.appendleft(..)`. -/
def record (s : Audited) (timestamp : Rat) (event : AdminEvent) : Audited :=
  { s with
    audit := (⟨s.recorded.length, timestamp, event⟩ :: s.audit).take AdminState.capacity
    recorded := s.recorded ++ [event] }

/-! ### What the handlers record -/

/-- The `name` and `revision` of `state()`. -/
def state (r : ModelRuntime) : Identity :=
  (r.settings.model, r.settings.modelRevision)

/-- What the handler records whose call of the runtime returns in this action: a check that asks for
a restart returns at once, a loaded candidate after its smoke test, a switch under the lock. Calls
that raise are not recorded. -/
def returned (before after : ModelRuntime) : ModelRuntime.Action → Option AdminEvent
  | .candidateBegin probe name revision =>
      let check := before.checkCandidate probe name revision
      if probe.refusal = none ∧ check.valid = true ∧ check.canParallelLoad = false then
        some (.candidateLoaded name revision (!check.canParallelLoad))
      else none
  | .candidateSmoked outcome =>
      match before.lockHolder, ModelRuntime.smokeTest outcome with
      | some (.smoking check _ _), .ok _ =>
          some (.candidateLoaded check.name check.revision (!check.canParallelLoad))
      | _, _ => none
  | .lockAcquired =>
      match before.lockQueue with
      | .activate _ :: _ =>
          if before.candidate.isSome ∧ before.candidateInfo.isSome then
            some (.modelActivated (state after))
          else none
      | .rollback _ :: _ =>
          if before.previous.isSome then some (.modelRolledBack (state after)) else none
      | _ => none
  | _ => none

/-- What is recorded in a step of the administration to `after`. -/
def recordedIn (before after : Administration) : Administration.Action → Option AdminEvent
  | .patch body => some (.runtimeUpdated body)
  | .rollback =>
      if before.application.runtime.previous.isSome then none else some .runtimeRolledBack
  | .application (.runtime action) =>
      returned before.application.runtime after.application.runtime action
  | .application _ => none

/-- `PATCH /v1/admin/cache`. -/
def patchCache (s : Audited) (patch : CachePatch) : Audited :=
  let application := s.administration.application
  let settings := application.settings
  { s with
    administration := { s.administration with
      application := { application with
        runtime := { application.runtime with
          settings := { settings with
            cacheEnabled := patch.enabled.getD settings.cacheEnabled } } } }
    cacheTtlSeconds := patch.ttlSeconds.getD s.cacheTtlSeconds }

inductive Action where
  | administer (action : Administration.Action)
  | reload
  | patchCache (patch : CachePatch)
  | clearCache (deleted : Nat)
  | benchmark (event : AuditEvent)

/-- A step at the given time. -/
def step (s : Audited) (action : Action × Rat) : Option Audited :=
  match action.1 with
  | .administer a =>
      (s.administration.step prims a).map fun administration =>
        (recordedIn s.administration administration a).elim { s with administration }
          fun event => { s with administration }.record action.2 event
  | .reload => some (s.record action.2 .reloadRequested)
  | .patchCache patch => some ((s.patchCache patch).record action.2 (.cacheUpdated patch))
  | .clearCache deleted => some (s.record action.2 (.cacheCleared deleted))
  | .benchmark event => some (s.record action.2 (.benchmark event))

structure Initial (settings : Settings) (Entry : ScoreCache.Write Score → Prop) (s : Audited) :
    Prop where
  administration : s.administration.Initial
  application : s.administration.application.Initial settings Entry
  audit : s.audit = []
  recorded : s.recorded = []

/-! ### The endpoint -/

/-- `items[start:stop]`, whose bounds count from the end when they are negative. -/
def slice {α : Type} (items : List α) (start stop : Int) : List α :=
  let place (i : Int) : Nat :=
    if i < 0 then (i + items.length).toNat else min i.toNat items.length
  (items.take (place stop)).drop (place start)

/-- `/v1/admin/audit-log`, whose `page` and `size` may be any integers. -/
def auditLog (s : Audited) (page size : Int) : List AuditRecord :=
  let start := (page - 1) * size
  slice s.audit start (start + min size 100)

end Audited

/-! ### What the records are about -/

/-- The reported and the effective settings, those of the cache, and the names of the active model,
of the one that a rollback restores and of the candidate. -/
@[ext]
structure AdminView where
  reported : RuntimeConfiguration
  previous : RuntimeConfiguration
  effective : RuntimeConfiguration
  cacheEnabled : Bool
  cacheTtlSeconds : Nat
  model : Identity
  previousModel : Option Identity
  candidate : Option Text

/-- What a record says has happened, if it can have happened. -/
def AdminView.apply (v : AdminView) : AdminEvent → Option AdminView
  | .runtimeUpdated patch =>
      some { v with
        reported := v.reported.updated patch
        previous := v.reported
        effective := v.effective.updated patch }
  | .runtimeRolledBack =>
      if v.previousModel = none then
        some { v with reported := v.previous, previous := v.reported }
      else none
  | .modelRolledBack identity =>
      if v.previousModel = some identity then
        some { v with model := identity, previousModel := some v.model }
      else none
  | .candidateLoaded name _ controlledRestartRequired =>
      some (if controlledRestartRequired then v else { v with candidate := some name })
  | .modelActivated identity =>
      if v.candidate = some identity.1 then
        some { v with model := identity, previousModel := some v.model, candidate := none }
      else none
  | .cacheUpdated patch =>
      some { v with
        cacheEnabled := patch.enabled.getD v.cacheEnabled
        cacheTtlSeconds := patch.ttlSeconds.getD v.cacheTtlSeconds }
  | .reloadRequested | .cacheCleared _ | .benchmark _ => some v

end RerankerService
