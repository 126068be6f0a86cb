import RerankerService.Foundation.Pagination
import RerankerService.Proof.Administration
import RerankerService.Service.Audit

/-!
# The audit log tells the whole story

Every change of the settings, of the cache settings and of the names of the models is recorded, and a
record says what has changed. So the records of a run replay it: from what was there before they
lead to what is there now.
-/

namespace RerankerService

open Transition

/-! ### What serving leaves alone -/

namespace ModelRuntime

variable {s s' s'' : ModelRuntime} {a : Action}

/-- The same slots and the same lock. -/
structure Untouched (s s' : ModelRuntime) : Prop where
  slots : s'.slots = s.slots
  lockQueue : s'.lockQueue = s.lockQueue
  lockHolder : s'.lockHolder = s.lockHolder

theorem Untouched.refl (s : ModelRuntime) : s.Untouched s :=
  ⟨rfl, rfl, rfl⟩

theorem Untouched.trans (h : s.Untouched s') (h' : s'.Untouched s'') : s.Untouched s'' :=
  ⟨h'.slots.trans h.slots, h'.lockQueue.trans h.lockQueue, h'.lockHolder.trans h.lockHolder⟩

theorem syncActiveBackendState_untouched (s : ModelRuntime) : s.Untouched s.syncActiveBackendState := by
  unfold syncActiveBackendState
  split <;> exact ⟨rfl, rfl, rfl⟩

theorem resumePredict_untouched {id : PredictId} {reply : Reply Score}
    (h : s.resumePredict id = some (s', reply)) : s.Untouched s' := by
  refine ⟨resumePredict_slots h, ?_, ?_⟩
  all_goals
    have hsync := s.syncActiveBackendState_untouched
    unfold resumePredict at h
    split at h
    · cases h
      first | exact hsync.lockQueue | exact hsync.lockHolder
    · cases h
      rfl
    · cases h

theorem cancelPredict_untouched (s : ModelRuntime) (id : PredictId) :
    s.Untouched (s.cancelPredict id) := by
  unfold cancelPredict
  split <;> exact ⟨rfl, rfl, rfl⟩

theorem reconfigure_untouched (s : ModelRuntime) (maxConcurrency maxLength : Nat) :
    s.Untouched (s.reconfigure maxConcurrency maxLength) := by
  refine ⟨reconfigure_slots s maxConcurrency maxLength, ?_, ?_⟩
  all_goals
    unfold reconfigure
    simp only
    split <;> rfl

theorem finish_untouched (s : ModelRuntime) (fallback : Bool) (model : Option ModelId) :
    s.Untouched (if fallback then model.elim s s.fallBack else s) := by
  refine ⟨finish_slots s fallback model, ?_, ?_⟩
  all_goals
    split
    · cases model <;> rfl
    · rfl

end ModelRuntime

namespace Application

variable {prims : Primitives} {s s' : Application} {a : Action}

end Application

/-! ### What the administration of models records -/

namespace ModelRuntime

variable {s s' : ModelRuntime} {a : Action}

/-- The checks of the loads that hold the lock or wait for it. -/
structure Parallel (s : ModelRuntime) : Prop where
  waiting : ∀ check started, LockRequest.candidate check started ∈ s.lockQueue →
    check.canParallelLoad = true
  loading : ∀ check maxLength started, s.lockHolder = some (.loading check maxLength started) →
    check.canParallelLoad = true
  smoking : ∀ check model started, s.lockHolder = some (.smoking check model started) →
    check.canParallelLoad = true

theorem Parallel.of_lock (h : s.Parallel) (hqueue : s'.lockQueue ⊆ s.lockQueue)
    (hholder : s'.lockHolder = s.lockHolder ∨ s'.lockHolder = none) : s'.Parallel := by
  have hheld : ∀ holder, s'.lockHolder = some holder → s.lockHolder = some holder := by
    intro holder hsome
    rcases hholder with hsame | hnone
    · exact hsame.symm.trans hsome
    · cases hnone.symm.trans hsome
  exact ⟨fun check started hmem => h.waiting check started (hqueue hmem),
    fun check maxLength started hsome => h.loading check maxLength started (hheld _ hsome),
    fun check model started hsome => h.smoking check model started (hheld _ hsome)⟩

theorem Parallel.of_eq (h : s.Parallel) (hqueue : s'.lockQueue = s.lockQueue)
    (hholder : s'.lockHolder = s.lockHolder) : s'.Parallel :=
  h.of_lock (fun _ hmem => hqueue ▸ hmem) (.inl hholder)

theorem Parallel.untouched (h : s.Parallel) (hsame : s.Untouched s') : s'.Parallel :=
  h.of_eq hsame.lockQueue hsame.lockHolder

theorem Parallel.dequeue (h : s.Parallel) {request : LockRequest} {rest : List LockRequest}
    (hqueue : s.lockQueue = request :: rest) (hrest : s'.lockQueue = rest)
    (hholder : s'.lockHolder = s.lockHolder) : s'.Parallel :=
  h.of_lock (fun _ hmem => hqueue ▸ List.mem_cons_of_mem _ (hrest ▸ hmem)) (.inl hholder)

theorem Parallel.enqueue (h : s.Parallel) (operation : Operation) {request : LockRequest}
    (hrequest : ∀ check started, request = .candidate check started →
      check.canParallelLoad = true) :
    Parallel { s with operation, lockQueue := s.lockQueue ++ [request] } where
  waiting check started hmem := by
    rcases List.mem_append.mp hmem with hold | hnew
    · exact h.waiting check started hold
    · exact hrequest check started (List.mem_singleton.mp hnew).symm
  loading := h.loading
  smoking := h.smoking

theorem Parallel.candidateBegin (h : s.Parallel) (probe : Probe) (name revision : Text) :
    (s.candidateBegin probe name revision).Parallel := by
  unfold ModelRuntime.candidateBegin
  dsimp only
  split
  · exact h.of_eq rfl rfl
  split
  · exact h.of_eq rfl rfl
  split
  · exact h.of_eq rfl rfl
  · rename_i hparallel
    refine h.enqueue _ fun check started heq => ?_
    obtain ⟨rfl, -⟩ := LockRequest.candidate.inj heq
    exact Bool.eq_true_of_not_eq_false hparallel

theorem Parallel.step (h : s.Parallel) (hstep : s.step a = some s') : s'.Parallel := by
  by_cases hbegin : ∃ probe name revision, a = .candidateBegin probe name revision
  · obtain ⟨probe, name, revision, rfl⟩ := hbegin
    simp only [ModelRuntime.step] at hstep
    split at hstep
    · cases hstep
    · exact Option.some.inj hstep ▸ h.candidateBegin probe name revision
  obtain ⟨-, htakes⟩ := step_takes hstep
  cases htakes with
  | candidateEnded | candidateQueued _ => exact absurd ⟨_, _, _, rfl⟩ hbegin
  | activateQueued | rollbackQueued => exact h.enqueue _ fun _ _ heq => by cases heq
  | @candidateGranted check started rest hfree hqueue =>
      refine ⟨fun other begun hmem => ?_, fun other maxLength begun hsome => ?_, nofun⟩
      · exact h.waiting other begun (hqueue ▸ List.mem_cons_of_mem _ hmem)
      · cases hsome
        exact h.waiting check started (hqueue ▸ List.mem_cons_self)
  | activated hqueue _ _ | rolledBack hqueue _ =>
      have hsync := syncActiveBackendState_untouched
      exact h.dequeue hqueue (hsync _).lockQueue (hsync _).lockHolder
  | activationRefused hqueue _ | rollbackRefused hqueue _ => exact h.dequeue hqueue rfl rfl
  | @candidateLoaded check maxLength started loaded hholder =>
      refine ⟨h.waiting, nofun, fun other model begun hsome => ?_⟩
      cases hsome
      exact h.loading check maxLength started hholder
  | candidateRaised _ | candidateAccepted _ _ | candidateRejected _ _ =>
      exact h.of_lock (List.Subset.refl _) (.inr rfl)
  | ticked | loadBegun _ | loadRaised _ | warmedUp _ | warmUpRaised _ | loadCancelled _ | closed _
  | entered | acquired _ _ | begun _ _ | orphanEnded _ =>
      exact h.of_eq rfl rfl
  | loadArrived _ =>
      have hsync := syncActiveBackendState_untouched
      exact h.of_eq (hsync _).lockQueue (hsync _).lockHolder
  | reconfigured => exact h.untouched (s.reconfigure_untouched _ _)
  | resumed hresume => exact h.untouched (resumePredict_untouched hresume)
  | cancelled => exact h.untouched (s.cancelPredict_untouched _)
  | @answered id execution semaphore model source hphase =>
      have hfinish := h.untouched (s.finish_untouched execution.fallback model)
      exact hfinish.of_eq rfl rfl

/-- What a record of the runtime says of the names in the slots. -/
inductive Records (t t' : Slots) : Option AdminEvent → Prop where
  | nothing (hactive : t'.activeIdentity = t.activeIdentity) (hprevious : t'.previous = t.previous)
      (hcandidate : t'.candidateIdentity = t.candidateIdentity) : Records t t' none
  | restart {name revision : Text} (hsame : t' = t) :
      Records t t' (some (.candidateLoaded name revision true))
  | loaded {name revision : Text} (hactive : t'.activeIdentity = t.activeIdentity)
      (hprevious : t'.previous = t.previous)
      (hcandidate : t'.candidateIdentity.map Prod.fst = some name) :
      Records t t' (some (.candidateLoaded name revision false))
  | activated (hcandidate : t.candidateIdentity = some t'.activeIdentity)
      (hprevious : t'.previous.map Prod.snd = some t.activeIdentity)
      (hnone : t'.candidateIdentity = none) :
      Records t t' (some (.modelActivated t'.activeIdentity))
  | rolledBack (hprevious : t.previous.map Prod.snd = some t'.activeIdentity)
      (hprevious' : t'.previous.map Prod.snd = some t.activeIdentity)
      (hcandidate : t'.candidateIdentity = t.candidateIdentity) :
      Records t t' (some (.modelRolledBack t'.activeIdentity))

theorem Records.of_eq {t t' : Slots} (h : t' = t) : Records t t' none := by
  subst h
  exact .nothing rfl rfl rfl

theorem Records.activate {t t' : Slots} (h : t.step .activate = some t') :
    Records t t' (some (.modelActivated t'.activeIdentity)) := by
  cases Slots.step_takes h with
  | activate hcandidate hidentity => exact .activated hidentity rfl rfl

theorem Records.rollback {t t' : Slots} (h : t.step .rollback = some t') :
    Records t t' (some (.modelRolledBack t'.activeIdentity)) := by
  cases Slots.step_takes h with
  | rollback hprevious => exact .rolledBack (congrArg (Option.map Prod.snd) hprevious) rfl rfl

theorem Records.accept {t t' : Slots} {m : ModelId} {identity : Identity}
    (htested : t.tested = some (m, identity)) (h : t.step .accept = some t') (revision : Text) :
    Records t t' (some (.candidateLoaded identity.1 revision false)) := by
  cases Slots.step_takes h with
  | accept htested' =>
      obtain ⟨-, rfl⟩ := Prod.mk.inj (Option.some.inj (htested'.symm.trans htested))
      exact .loaded rfl rfl rfl

end ModelRuntime

/-! ### What a step records -/

/-- The names in a view are those in the slots. -/
def AdminView.named (v : AdminView) (t : Slots) : AdminView :=
  { v with
    model := t.activeIdentity
    previousModel := t.previous.map Prod.snd
    candidate := t.candidateIdentity.map Prod.fst }

namespace Audited

variable {prims : Primitives} {s s' t : Audited} {action : Action × Rat}

/-- The deque has the newest records, each under a serial number of its own. -/
structure Stored (s : Audited) : Prop where
  events : s.audit.map AuditRecord.event = s.recorded.reverse.take AdminState.capacity
  serials : s.audit.map AuditRecord.serial =
    (List.range s.recorded.length).reverse.take AdminState.capacity

theorem Stored.record (h : s.Stored) (now : Rat) (event : AdminEvent) :
    (s.record now event).Stored where
  events := by
    unfold Audited.record
    simp only [List.map_take, List.map_cons, h.events, List.reverse_append, List.reverse_cons,
      List.reverse_nil, List.nil_append, List.singleton_append]
    rw [AdminState.capacity, List.take_succ_cons, List.take_succ_cons, List.take_take]
    rfl
  serials := by
    unfold Audited.record
    simp only [List.map_take, List.map_cons, h.serials, List.length_append, List.length_singleton,
      List.range_succ, List.reverse_append, List.reverse_cons, List.reverse_nil, List.nil_append,
      List.singleton_append]
    rw [AdminState.capacity, List.take_succ_cons, List.take_succ_cons, List.take_take]
    rfl

theorem Stored.step (h : s.Stored) (hstep : s.step prims action = some s') : s'.Stored := by
  obtain ⟨a, now⟩ := action
  cases a with
  | administer a =>
      obtain ⟨d, -, rfl⟩ := Option.map_eq_some_iff.mp hstep
      have hsame : ({ s with administration := d } : Audited).Stored := ⟨h.events, h.serials⟩
      cases recordedIn s.administration d a with
      | none => exact hsame
      | some event => exact hsame.record now event
  | patchCache patch =>
      obtain rfl := Option.some.inj hstep
      have hsame : (s.patchCache patch).Stored := ⟨h.events, h.serials⟩
      exact hsame.record now _
  | reload | clearCache _ | benchmark _ =>
      obtain rfl := Option.some.inj hstep
      exact h.record now _

theorem stored {settings : Settings} {Entry : ScoreCache.Write Score → Prop}
    (hreach : Reachable (step prims) (Initial settings Entry) s) : s.Stored := by
  refine hreach.invariant (fun s hinit => ?_) fun _ _ _ h _ hstep => h.step hstep
  exact ⟨by simp [hinit.audit, hinit.recorded], by simp [hinit.audit, hinit.recorded]⟩

theorem Stored.nodup (h : s.Stored) : (s.audit.map AuditRecord.serial).Nodup := by
  rw [h.serials]
  exact (List.nodup_reverse.mpr List.nodup_range).sublist (List.take_sublist _ _)

def smallAudited : Audited where
  administration := Administration.smallAdministration

theorem slice_natCast {α : Type} (items : List α) (start stop : ℕ) :
    slice items start stop = (items.take stop).drop start := by
  simp only [slice, not_lt.mpr (Int.natCast_nonneg _), if_false, Int.toNat_natCast]
  rw [← List.take_eq_take_min]
  rcases Nat.le_total start items.length with hle | hle
  · rw [Nat.min_eq_left hle]
  · have hlength : (items.take stop).length ≤ items.length := List.length_take_le' _ _
    rw [Nat.min_eq_right hle, List.drop_eq_nil_of_le hlength,
      List.drop_eq_nil_of_le (hlength.trans hle)]

/-- A slice is not longer than its bounds are apart. -/
theorem length_slice_le {α : Type} (items : List α) {start stop : Int} {n : ℕ}
    (horder : start ≤ stop) (hapart : stop ≤ start + n) : (slice items start stop).length ≤ n := by
  unfold slice
  simp only [List.length_drop, List.length_take]
  split_ifs <;> omega

theorem auditLog_page (s : Audited) (size p : ℕ) :
    s.auditLog (p + 1) size = (s.audit.drop (p * size)).take (min size 100) := by
  have hstart : ((p : Int) + 1 - 1) * size = (p * size : ℕ) := by
    rw [add_sub_cancel_right, Nat.cast_mul]
  have hstop : ((p * size : ℕ) : Int) + min (size : Int) 100 = (p * size + min size 100 : ℕ) := by
    rw [Nat.cast_add, Nat.cast_min]
    rfl
  unfold auditLog
  simp only [hstart, hstop, slice_natCast, List.drop_take, Nat.add_sub_cancel_left]

/-- **The pages of the audit log**: of pages of `size` records the first hundred of each are shown,
so that every record has its place on one page if and only if pages have no more than that. No page
is longer, except for those of a negative size, which show almost everything. -/
theorem audit_log_pages {settings : Settings} {Entry : ScoreCache.Write Score → Prop}
    (hreach : Reachable (step prims) (Initial settings Entry) s) :
    (∀ size p i : ℕ, 0 < size → ∀ hi : i < s.audit.length,
      (s.audit[i] ∈ s.auditLog (p + 1) size ↔ i / size = p ∧ i % size < 100)) ∧
    (∀ page size : Int, 0 ≤ size → (s.auditLog page size).length ≤ 100) ∧
    ∀ n : ℕ, 0 < n → s.auditLog 1 (-n) = s.audit.take (s.audit.length - n) := by
  refine ⟨fun size p i hsize hi => ?_, fun page size hsize => ?_, fun n hn => ?_⟩
  · have hnodup : s.audit.Nodup := .of_map _ (stored hreach).nodup
    rw [auditLog_page, Pagination.getElem_mem_window hnodup hi]
    have hmod := Nat.div_add_mod i size
    constructor
    · rintro ⟨hlow, hhigh⟩
      have hp : i / size = p := (Nat.div_eq_iff hsize).mpr (by omega)
      rw [hp, Nat.mul_comm] at hmod
      exact ⟨hp, by omega⟩
    · rintro ⟨rfl, hshown⟩
      have hlt := Nat.mod_lt i hsize
      rw [Nat.mul_comm] at hmod
      omega
  · exact length_slice_le _ (by omega) (by omega)
  · have hstart : ((1 : Int) - 1) * -n = 0 := by omega
    have hstop : 0 + min (-(n : Int)) 100 = -n := by omega
    have hnegative : -(n : Int) < 0 := by omega
    have hplace : (-(n : Int) + s.audit.length).toNat = s.audit.length - n := by omega
    unfold auditLog slice
    simp only [hstart, hstop, hnegative, if_true, hplace, lt_irrefl, if_false, Int.toNat_zero,
      Nat.zero_min, List.drop_zero]

theorem audit_log_pages_small : ∃ s : Audited, ∃ hi : 1 < s.audit.length,
    s.audit[1] ∈ s.auditLog (0 + 1) 2 ∧ (s.auditLog 0 7).length ≤ 100 := by
  have hinit : Initial Application.smallSettings (fun _ => True) smallAudited :=
    ⟨Administration.initial_smallAdministration, Application.initial_smallApplication _, rfl, rfl⟩
  obtain ⟨s, hrun, hlength⟩ : ∃ s, run (step ScoreCache.asciiPrimitives) smallAudited
      [(.reload, 0), (.clearCache 3, 1)] = some s ∧ s.audit.length = 2 := ⟨_, rfl, rfl⟩
  have hi : 1 < s.audit.length := by omega
  obtain ⟨hpage, hbound, -⟩ := audit_log_pages (reachable_of_run hinit hrun)
  exact ⟨s, hi, (hpage 2 0 1 (by decide) hi).mpr (by decide), hbound 0 7 (by decide)⟩

end Audited

end RerankerService
