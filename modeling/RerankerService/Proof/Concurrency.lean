import RerankerService.Foundation.Permits
import RerankerService.Foundation.Run
import RerankerService.Proof.Steps

/-!
# The inference concurrency limit

Every semaphore of the runtime keeps its books: free permits and holders add up to its size. A
thread, however, is only covered by them while its call still waits for it and holds a permit of the
semaphore that later calls acquire; a cancelled call leaves its thread running without a permit, and
every completed prediction replaces the semaphore.
-/

namespace RerankerService

open Permits Transition

def PredictPhase.semaphore : PredictPhase → Option SemaphoreId
  | .waiting semaphore | .submitted semaphore _ | .running semaphore _ _
  | .answered semaphore _ => some semaphore
  | _ => none

theorem PredictPhase.semaphore_of_permit {phase : PredictPhase} {semaphore : SemaphoreId}
    (h : phase.permit = some semaphore) : phase.semaphore = some semaphore := by
  cases phase <;> simp_all [PredictPhase.permit, PredictPhase.semaphore]

namespace ModelRuntime

structure Concurrency where
  effective : Nat
  semaphore : SemaphoreId
  semaphores : SemaphoreId → Nat
  entered : Nat
  calls : PredictId → PredictCall

def concurrency (s : ModelRuntime) : Concurrency where
  effective := s.effectiveMaxConcurrency
  semaphore := s.semaphore
  semaphores := s.semaphores
  entered := s.entered
  calls := s.calls

/-- `_configure_concurrency`. -/
def Concurrency.renew (c : Concurrency) (effective : Nat) : Concurrency :=
  { c with
    effective
    semaphore := c.semaphore + 1
    semaphores := Function.update c.semaphores (c.semaphore + 1) effective }

variable {L base : Nat} {c : Concurrency} {s s' : ModelRuntime}

/-! ### The lifecycle touches permits only by renewing the semaphore -/

def Concurrency.RenewedTo (c c' : Concurrency) : Prop :=
  c' = c ∨ ∃ effective, c' = c.renew effective

theorem syncActiveBackendState_concurrency (s : ModelRuntime) :
    s.concurrency.RenewedTo s.syncActiveBackendState.concurrency := by
  unfold syncActiveBackendState
  split
  · exact .inr ⟨_, rfl⟩
  · exact .inl rfl

theorem reconfigure_concurrency (s : ModelRuntime) (maxConcurrency maxLength : Nat) :
    s.concurrency.RenewedTo (s.reconfigure maxConcurrency maxLength).concurrency := by
  unfold reconfigure
  simp only
  split
  · exact .inr ⟨_, rfl⟩
  · exact .inr ⟨_, rfl⟩

theorem Concurrency.RenewedTo.phase {c' : Concurrency} (h : c.RenewedTo c') (id : PredictId) :
    (c'.calls id).phase = (c.calls id).phase := by
  rcases h with rfl | ⟨effective, rfl⟩
  · rfl
  · rfl

/-! ### The books -/

def Concurrency.phase (c : Concurrency) (id : PredictId) : PredictPhase :=
  (c.calls id).phase

def Concurrency.book (c : Concurrency) : Book PredictId SemaphoreId where
  members := Finset.range c.entered
  free := c.semaphores
  holds id := (c.phase id).permit

def Concurrency.executions (c : Concurrency) : Finset PredictId :=
  (Finset.range c.entered).filter fun id => (c.phase id).executing

def Concurrency.Known (base : SemaphoreId) (c : Concurrency) (semaphore : SemaphoreId) : Prop :=
  base ≤ semaphore ∧ semaphore ≤ c.semaphore

/-- The books are kept: every semaphore from `base` on has `L` permits, free or held, and no call
refers to an older one. -/
structure Concurrency.Balanced (L base : Nat) (c : Concurrency) : Prop where
  effective : c.effective = L
  base_le : base ≤ c.semaphore
  balanced : c.book.Balanced (c.Known base) L
  known : ∀ id semaphore, (c.phase id).semaphore = some semaphore →
    c.Known base semaphore ∧ id < c.entered

theorem Concurrency.Balanced.renew (h : c.Balanced L base) : (c.renew L).Balanced L base where
  effective := rfl
  base_le := h.base_le.trans (Nat.le_succ _)
  balanced := by
    refine h.balanced.issue (k := c.semaphore + 1) (fun id _ hholds => ?_) fun k hk => ?_
    · exact Nat.not_succ_le_self _ (h.known id _ (PredictPhase.semaphore_of_permit hholds)).1.2
    · exact (Nat.le_succ_iff.mp hk.2).imp_left fun hle => ⟨hk.1, hle⟩
  known id semaphore hphase := by
    have := h.known id semaphore hphase
    exact ⟨⟨this.1.1, this.1.2.trans (Nat.le_succ _)⟩, this.2⟩

theorem Concurrency.Balanced.renewedTo (h : c.Balanced L base) {c' : Concurrency}
    (hrenewed : c.RenewedTo c') (hsteady : c'.effective = L) : c'.Balanced L base := by
  rcases hrenewed with rfl | ⟨effective, rfl⟩
  · exact h
  · obtain rfl : effective = L := hsteady
    exact h.renew

def Concurrency.setPhase (c : Concurrency) (id : PredictId) (phase : PredictPhase) : Concurrency :=
  { c with calls := Function.update c.calls id { c.calls id with phase } }

theorem Concurrency.phase_setPhase (c : Concurrency) (id : PredictId) (phase : PredictPhase) :
    (c.setPhase id phase).phase = Function.update c.phase id phase := by
  funext other
  unfold Concurrency.phase setPhase
  by_cases h : other = id
  · subst h
    simp
  · simp [h]

theorem Concurrency.book_setPhase (c : Concurrency) (id : PredictId) (phase : PredictPhase) :
    (c.setPhase id phase).book =
      { c.book with holds := Function.update c.book.holds id phase.permit } := by
  refine Book.ext rfl rfl (funext fun other => ?_)
  change ((c.setPhase id phase).phase other).permit = _
  rw [phase_setPhase]
  by_cases h : other = id
  · subst h
    simp
  · simp [h, book]

theorem Concurrency.known_setPhase {id : PredictId} {phase : PredictPhase}
    (h : ∀ id semaphore, (c.phase id).semaphore = some semaphore →
      c.Known base semaphore ∧ id < c.entered)
    (hphase : phase.semaphore = none ∨ phase.semaphore = (c.phase id).semaphore) :
    ∀ other semaphore, ((c.setPhase id phase).phase other).semaphore = some semaphore →
      c.Known base semaphore ∧ other < c.entered := by
  intro other semaphore hother
  rw [phase_setPhase] at hother
  by_cases heq : other = id
  · subst heq
    rw [Function.update_self] at hother
    rcases hphase with hnone | hsame
    · rw [hnone] at hother
      cases hother
    · exact h other semaphore (hsame ▸ hother)
  · rw [Function.update_of_ne heq] at hother
    exact h other semaphore hother

theorem Concurrency.Balanced.move (h : c.Balanced L base) {id : PredictId} {phase : PredictPhase}
    (hpermit : phase.permit = (c.phase id).permit)
    (hphase : phase.semaphore = none ∨ phase.semaphore = (c.phase id).semaphore) :
    (c.setPhase id phase).Balanced L base where
  effective := h.effective
  base_le := h.base_le
  balanced := by
    have hbook : (c.setPhase id phase).book = c.book := by
      rw [book_setPhase, hpermit]
      exact congrArg (fun holds => { c.book with holds }) (Function.update_eq_self id _)
    rw [hbook]
    exact h.balanced
  known := known_setPhase h.known hphase

theorem Concurrency.Balanced.acquire (h : c.Balanced L base) {id : PredictId}
    {semaphore : SemaphoreId} (hwaiting : c.phase id = .waiting semaphore)
    (hpermit : 0 < c.semaphores semaphore) (model : Option ModelId) :
    (Concurrency.setPhase { c with
      semaphores := Function.update c.semaphores semaphore (c.semaphores semaphore - 1) }
      id (.submitted semaphore model)).Balanced L base where
  effective := h.effective
  base_le := h.base_le
  balanced := by
    have hid : id < c.entered := (h.known id semaphore (by rw [hwaiting]; rfl)).2
    have hbook := h.balanced.acquire (Finset.mem_range.mpr hid)
      (show c.book.holds id = none by simp only [book, hwaiting]; rfl) hpermit
    rw [book_setPhase]
    exact hbook
  known := by
    refine known_setPhase h.known (.inr ?_)
    change _ = (c.phase id).semaphore
    rw [hwaiting]
    rfl

/-- A holder gives its permit back and ends, or leaves an orphan. -/
theorem Concurrency.Balanced.release (h : c.Balanced L base) {id : PredictId}
    {semaphore : SemaphoreId} (hholds : (c.phase id).permit = some semaphore)
    {phase : PredictPhase} (hphase : phase = .returned ∨ phase = .orphaned) :
    (Concurrency.setPhase { c with
      semaphores := Function.update c.semaphores semaphore (c.semaphores semaphore + 1) }
      id phase).Balanced L base where
  effective := h.effective
  base_le := h.base_le
  balanced := by
    have hid : id < c.entered :=
      (h.known id semaphore (PredictPhase.semaphore_of_permit hholds)).2
    have hbook := h.balanced.release (Finset.mem_range.mpr hid) hholds
    have hnone : phase.permit = none := by
      rcases hphase with rfl | rfl <;> rfl
    rw [book_setPhase, hnone]
    exact hbook
  known := known_setPhase h.known (by rcases hphase with rfl | rfl <;> exact .inl rfl)

def Concurrency.enter (c : Concurrency) (pairs : List Pair) : Concurrency :=
  { c with
    calls := Function.update c.calls c.entered { pairs, phase := .waiting c.semaphore }
    entered := c.entered + 1 }

theorem Concurrency.phase_enter (c : Concurrency) (pairs : List Pair) :
    (c.enter pairs).phase = Function.update c.phase c.entered (.waiting c.semaphore) := by
  funext other
  unfold Concurrency.phase enter
  by_cases h : other = c.entered
  · subst h
    simp
  · simp [h]

theorem Concurrency.Balanced.enter (h : c.Balanced L base) (pairs : List Pair) :
    (c.enter pairs).Balanced L base where
  effective := h.effective
  base_le := h.base_le
  balanced := by
    have hbook : (c.enter pairs).book = c.book.join c.entered := by
      refine Book.ext Finset.range_add_one rfl (funext fun other => ?_)
      change ((c.enter pairs).phase other).permit = _
      rw [phase_enter]
      by_cases hother : other = c.entered
      · subst hother
        simp [Book.join, PredictPhase.permit]
      · simp [Book.join, hother, book]
    rw [hbook]
    exact h.balanced.join (by simp [book])
  known := by
    intro id semaphore hphase
    rw [phase_enter] at hphase
    by_cases hid : id = c.entered
    · subst hid
      rw [Function.update_self] at hphase
      cases hphase
      exact ⟨⟨h.base_le, le_rfl⟩, Nat.lt_succ_self _⟩
    · rw [Function.update_of_ne hid] at hphase
      have := h.known id semaphore hphase
      exact ⟨this.1, this.2.trans (Nat.lt_succ_self _)⟩

/-! ### Steps -/

theorem phase_concurrency (s : ModelRuntime) (id : PredictId) :
    s.concurrency.phase id = s.phase id := rfl

/-- What an action does to the accounting; apart from the start of a thread, no call begins to
execute. -/
inductive Concurrency.Moves (c : Concurrency) (a : Action) : Concurrency → Prop where
  | renewed {c' : Concurrency} (hrenewed : c.RenewedTo c') : Moves c a c'
  | entered (pairs : List Pair) : Moves c a (c.enter pairs)
  | acquired {id : PredictId} {semaphore : SemaphoreId} {model : Option ModelId}
      (hphase : c.phase id = .waiting semaphore) (hpermit : 0 < c.semaphores semaphore) :
      Moves c a (Concurrency.setPhase { c with
        semaphores := Function.update c.semaphores semaphore (c.semaphores semaphore - 1) }
        id (.submitted semaphore model))
  | begun {id : PredictId} {semaphore : SemaphoreId} {model : Option ModelId}
      {source : Option Source} (ha : a = .begin id)
      (hphase : c.phase id = .submitted semaphore model) :
      Moves c a (c.setPhase id (.running semaphore model source))
  | moved {id : PredictId} {phase : PredictPhase} (hpermit : phase.permit = (c.phase id).permit)
      (hsemaphore : phase.semaphore = none ∨ phase.semaphore = (c.phase id).semaphore)
      (hexecuting : phase.executing = false) : Moves c a (c.setPhase id phase)
  | released {id : PredictId} {semaphore : SemaphoreId} {phase : PredictPhase} {c' : Concurrency}
      (hrenewed : c.RenewedTo c') (hpermit : (c.phase id).permit = some semaphore)
      (hphase : phase = .returned ∨ phase = .orphaned ∧ (c.phase id).executing) :
      Moves c a (Concurrency.setPhase { c' with
        semaphores := Function.update c'.semaphores semaphore (c'.semaphores semaphore + 1) }
        id phase)

theorem finish_concurrency (s : ModelRuntime) (fallback : Bool) (model : Option ModelId)
    (id : PredictId) (phase : PredictPhase) :
    (setPhase (if fallback then model.elim s s.fallBack else s) id phase).concurrency =
      s.concurrency.setPhase id phase := by
  cases model <;> cases fallback <;> rfl

theorem resumePredict_concurrency {id : PredictId} {reply : Reply Score}
    (h : s.resumePredict id = some (s', reply)) :
    s.concurrency.Moves (.resumePredict id) s'.concurrency := by
  unfold resumePredict at h
  split at h
  · rename_i semaphore values hphase
    cases h
    exact .released (syncActiveBackendState_concurrency s)
      (by rw [phase_concurrency, hphase]; rfl) (.inl rfl)
  · rename_i semaphore error hphase
    cases h
    exact .released (.inl rfl) (by rw [phase_concurrency, hphase]; rfl) (.inl rfl)
  · cases h

theorem cancelPredict_concurrency (s : ModelRuntime) (id : PredictId) :
    s.concurrency.Moves (.cancelPredict id) (s.cancelPredict id).concurrency := by
  unfold cancelPredict
  split
  · rename_i semaphore hphase
    exact .moved (by rw [phase_concurrency, hphase]; rfl) (.inl rfl) rfl
  · rename_i semaphore model hphase
    exact .released (.inl rfl) (by rw [phase_concurrency, hphase]; rfl) (.inl rfl)
  · rename_i semaphore reply hphase
    exact .released (.inl rfl) (by rw [phase_concurrency, hphase]; rfl) (.inl rfl)
  · rename_i semaphore model source hphase
    refine .released (.inl rfl) (by rw [phase_concurrency, hphase]; rfl) (.inr ⟨rfl, ?_⟩)
    rw [phase_concurrency, hphase]
    rfl
  · exact .renewed (.inl rfl)

/-- The lifecycle touches permits only by renewing the semaphore. -/
theorem step_concurrency {a : Action} (hstep : s.step a = some s') :
    s.concurrency.Moves a s'.concurrency := by
  obtain ⟨-, htakes⟩ := step_takes hstep
  cases htakes with
  | loadArrived hloading => exact .renewed (syncActiveBackendState_concurrency _)
  | activated hqueue hcandidate hinfo => exact .renewed (syncActiveBackendState_concurrency _)
  | rolledBack hqueue hprevious => exact .renewed (syncActiveBackendState_concurrency _)
  | reconfigured => exact .renewed (reconfigure_concurrency s _ _)
  | entered => exact .entered _
  | acquired hphase hpermit => exact .acquired hphase hpermit
  | begun hphase hfree => exact .begun rfl hphase
  | answered hphase =>
      rw [finish_concurrency]
      exact .moved (by rw [phase_concurrency, hphase]; rfl)
        (.inr (by rw [phase_concurrency, hphase]; rfl)) rfl
  | orphanEnded hphase => exact .moved (by rw [phase_concurrency, hphase]; rfl) (.inl rfl) rfl
  | resumed hresume => exact resumePredict_concurrency hresume
  | cancelled => exact cancelPredict_concurrency s _
  | _ => exact .renewed (.inl rfl)

/-- **Every step keeps the books** while the effective limit stays `L`. -/
theorem step_balanced {a : Action} (h : s.concurrency.Balanced L base) (hstep : s.step a = some s')
    (hsteady : s'.effectiveMaxConcurrency = L) : s'.concurrency.Balanced L base := by
  have hmoves := step_concurrency hstep
  replace hsteady : s'.concurrency.effective = L := hsteady
  generalize s'.concurrency = next at hmoves hsteady
  cases hmoves with
  | renewed hrenewed => exact h.renewedTo hrenewed hsteady
  | entered pairs => exact h.enter pairs
  | acquired hphase hpermit => exact h.acquire hphase hpermit _
  | begun ha hphase => exact h.move (by rw [hphase]; rfl) (.inr (by rw [hphase]; rfl))
  | moved hpermit hsemaphore hexecuting => exact h.move hpermit hsemaphore
  | released hrenewed hpermit hphase =>
      refine (h.renewedTo hrenewed hsteady).release ?_ (hphase.imp_right And.left)
      exact (congrArg PredictPhase.permit (hrenewed.phase _)).trans hpermit

/-! ### Executions in progress -/

theorem Concurrency.mem_executions {id : PredictId} :
    id ∈ c.executions ↔ id < c.entered ∧ (c.phase id).executing := by
  simp [executions]

theorem Concurrency.executions_setPhase_subset {id : PredictId} {phase : PredictPhase}
    (h : phase.executing → (c.phase id).executing) :
    (c.setPhase id phase).executions ⊆ c.executions := by
  intro other hother
  rw [mem_executions, phase_setPhase] at hother
  refine mem_executions.mpr ⟨hother.1, ?_⟩
  by_cases heq : other = id
  · rw [heq, Function.update_self] at hother
    exact heq ▸ h hother.2
  · rw [Function.update_of_ne heq] at hother
    exact hother.2

theorem Concurrency.executions_setPhase_insert (id : PredictId) (phase : PredictPhase) :
    (c.setPhase id phase).executions ⊆ insert id c.executions := by
  intro other hother
  rw [mem_executions, phase_setPhase] at hother
  refine Finset.mem_insert.mpr ?_
  by_cases heq : other = id
  · exact .inl heq
  · rw [Function.update_of_ne heq] at hother
    exact .inr (mem_executions.mpr hother)

theorem Concurrency.executions_enter_subset (c : Concurrency) (pairs : List Pair) :
    (c.enter pairs).executions ⊆ c.executions := by
  intro other hother
  rw [mem_executions, phase_enter] at hother
  by_cases heq : other = c.entered
  · rw [heq, Function.update_self] at hother
    exact absurd hother.2 (by simp [PredictPhase.executing])
  · rw [Function.update_of_ne heq] at hother
    exact mem_executions.mpr ⟨lt_of_le_of_ne (Nat.le_of_lt_succ hother.1) heq, hother.2⟩

theorem Concurrency.RenewedTo.executions {c' : Concurrency} (h : c.RenewedTo c') :
    c'.executions = c.executions := by
  rcases h with rfl | ⟨effective, rfl⟩ <;> rfl

theorem step_executions_subset {a : Action} (hstep : s.step a = some s')
    (ha : ∀ id, a ≠ .begin id) : s'.executions ⊆ s.executions := by
  have hmoves := step_concurrency hstep
  change s'.concurrency.executions ⊆ s.concurrency.executions
  generalize s'.concurrency = next at hmoves
  cases hmoves with
  | renewed hrenewed => exact hrenewed.executions.subset
  | entered pairs => exact s.concurrency.executions_enter_subset pairs
  | acquired hphase hpermit =>
      exact Concurrency.executions_setPhase_subset (c := s.concurrency) fun h => by cases h
  | begun hbegin hphase => exact absurd hbegin (ha _)
  | moved hpermit hsemaphore hexecuting =>
      refine Concurrency.executions_setPhase_subset fun h => ?_
      rw [hexecuting] at h
      cases h
  | @released id semaphore phase c' hrenewed hpermit hphase =>
      rw [← hrenewed.executions]
      refine Concurrency.executions_setPhase_subset (c := c') fun h => ?_
      rcases hphase with rfl | ⟨-, hexecuting⟩
      · cases h
      · exact (congrArg PredictPhase.executing (hrenewed.phase id)).trans hexecuting

/-! ### The limit -/

structure Ready (L : Nat) (s : ModelRuntime) : Prop where
  entered : s.entered = 0
  phase : ∀ id, s.phase id = .returned
  effective : s.effectiveMaxConcurrency = L
  permits : s.semaphores s.semaphore = L

def Steady (L : Nat) (s : ModelRuntime) (a : Action) : Prop :=
  ∀ s', s.step a = some s' → s'.effectiveMaxConcurrency = L

/-- When a thread starts for a call, the executor is not larger than the limit, or every execution in
progress holds a permit of the semaphore that the call holds a permit of. -/
def StartsCovered (L : Nat) (s : ModelRuntime) (a : Action) : Prop :=
  ∀ id, a = .begin id → s.maxWorkers ≤ L ∨
    ∀ other ∈ s.executions, (s.phase other).permit = (s.phase id).permit

theorem Ready.balanced (h : Ready L s) : s.concurrency.Balanced L s.semaphore := by
  refine ⟨h.effective, le_rfl, fun k hk => ?_, fun id semaphore hid => ?_⟩
  · have hempty : s.concurrency.book.holders k = ∅ := by
      refine Finset.filter_eq_empty_iff.mpr fun id hid => ?_
      simp [Concurrency.book, concurrency, h.entered] at hid
    rw [hempty, le_antisymm hk.2 hk.1]
    exact h.permits
  · rw [phase_concurrency, h.phase id] at hid
    cases hid

theorem Ready.executions (h : Ready L s) : s.executions.card ≤ L := by
  simp [ModelRuntime.executions, h.entered]

theorem begin_executions {id : PredictId} (h : s.concurrency.Balanced L base)
    (hcovered : StartsCovered L s (.begin id)) (hstep : s.step (.begin id) = some s') :
    s'.executions.card ≤ L := by
  obtain ⟨-, htakes⟩ := step_takes hstep
  cases htakes with
  | @begun _ semaphore model hphase hfree =>
      have hid : (s.phase id).permit = some semaphore := by
        rw [hphase]
        rfl
      refine (Finset.card_le_card (s.concurrency.executions_setPhase_insert id _)).trans ?_
      rcases hcovered id rfl with hworkers | hpermits
      · calc (insert id s.executions).card ≤ s.executions.card + 1 := Finset.card_insert_le _ _
          _ ≤ s.maxWorkers := hfree
          _ ≤ L := hworkers
      · have hknown := h.known id semaphore (PredictPhase.semaphore_of_permit hid)
        refine h.balanced.card_le hknown.1 fun other hother => ?_
        rcases Finset.mem_insert.mp hother with rfl | hother
        · exact ⟨Finset.mem_range.mpr hknown.2, hid⟩
        · exact ⟨(Finset.mem_filter.mp hother).1, (hpermits other hother).trans hid⟩

theorem reaches_balanced {C : ModelRuntime → Action → Prop} (hC : ∀ t a, C t a → Steady L t a)
    (hreach : Reaches step (Ready L) C s) : ∃ base, s.concurrency.Balanced L base := by
  induction hreach with
  | start hready => exact ⟨_, hready.balanced⟩
  | next _ hcond hstep ih =>
      obtain ⟨base, hbase⟩ := ih
      exact ⟨base, step_balanced hbase hstep (hC _ _ hcond _ hstep)⟩

/-- **The inference concurrency limit** holds in the runs whose starts are all covered. -/
theorem executions_card_le
    (hreach : Reaches step (Ready L) (fun s a => Steady L s a ∧ StartsCovered L s a) s) :
    s.executions.card ≤ L := by
  refine hreach.invariant_of (fun t ht => reaches_balanced (fun _ _ h => h.1) ht)
    (fun _ h => h.executions) fun t a t' ht hbound hcond hstep => ?_
  obtain ⟨base, hbase⟩ := ht
  by_cases hbegin : ∃ id, a = .begin id
  · obtain ⟨id, rfl⟩ := hbegin
    exact begin_executions hbase hcond.2 hstep
  · have hsubset := step_executions_subset hstep fun id heq => hbegin ⟨id, heq⟩
    exact (Finset.card_le_card hsubset).trans hbound

/-- A runtime on a GPU after its initial load: one execution at a time, two threads. -/
def gpuLoad : List Action :=
  [.loadBegin, .loadReturned (.ok
    { requestedRevision := [], cap := 8192, activeProvider := "CUDAExecutionProvider".toList }),
    .warmedUp (.ok ())]

def onePair : List Pair :=
  [(['q'], ['d'])]

def gpuRuntime : ModelRuntime :=
  (run step (new {} "auto".toList) gpuLoad).getD (new {} "auto".toList)

theorem reachable_gpuRuntime : Reachable step Initial gpuRuntime :=
  reachable_of_run ⟨{}, "auto".toList, rfl⟩ (rfl : run step (new {} "auto".toList) gpuLoad = some _)

theorem ready_gpuRuntime : Ready 1 gpuRuntime :=
  ⟨rfl, fun _ => rfl, rfl, rfl⟩

/-- Four threads, and a GPU that takes two executions at a time. -/
def sharedRuntime : ModelRuntime :=
  let settings : Settings :=
    { maxConcurrency := 4, gpuMaxConcurrency := 2, cpuMaxConcurrency := 4 }
  (run step (new settings "auto".toList) gpuLoad).getD (new settings "auto".toList)

theorem ready_sharedRuntime : Ready 2 sharedRuntime :=
  ⟨rfl, fun _ => rfl, rfl, rfl⟩

/-- Two calls execute with the permits of one semaphore, and the third one waits for it. -/
theorem executions_card_le_shared : ∃ s, run step sharedRuntime
      [.enter onePair, .enter onePair, .enter onePair, .acquire 0, .begin 0, .acquire 1, .begin 1] =
    some s ∧ s.executions = {0, 1} ∧ s.step (.acquire 2) = none ∧ s.executions.card ≤ 2 := by
  have hstart : Reaches step (Ready 2) (fun s a => Steady 2 s a ∧ StartsCovered 2 s a)
      sharedRuntime := .start ready_sharedRuntime
  have hsteady : ∀ {s s' : ModelRuntime} {a : Action}, s.step a = some s' →
      s'.effectiveMaxConcurrency = 2 → Steady 2 s a := by
    intro s s' a hstep h t ht
    obtain rfl := Option.some.inj (hstep.symm.trans ht)
    exact h
  have hfirst := hstart.next (a := .enter onePair) ⟨hsteady rfl rfl, fun _ h => nomatch h⟩ rfl
  have hsecond := hfirst.next (a := .enter onePair) ⟨hsteady rfl rfl, fun _ h => nomatch h⟩ rfl
  have hthird := hsecond.next (a := .enter onePair) ⟨hsteady rfl rfl, fun _ h => nomatch h⟩ rfl
  have hacquired := hthird.next (a := .acquire 0) ⟨hsteady rfl rfl, fun _ h => nomatch h⟩ rfl
  have hbegun := hacquired.next (a := .begin 0)
    ⟨hsteady rfl rfl, fun _ _ => .inr fun other hother => absurd hother (Finset.notMem_empty other)⟩
    rfl
  have hshared := hbegun.next (a := .acquire 1) ⟨hsteady rfl rfl, fun _ h => nomatch h⟩ rfl
  have hboth := hshared.next (a := .begin 1) ⟨hsteady rfl rfl, fun id h => .inr fun other hother => by
    cases h
    obtain rfl : other = 0 := Finset.mem_singleton.mp hother
    rfl⟩ rfl
  exact ⟨_, rfl, rfl, rfl, executions_card_le hboth⟩

/-- The first prediction replaces the semaphore while a second one waits for it; a third one gets a
permit of the new semaphore. -/
def overlappingPredictions : List Action :=
  [.enter onePair, .acquire 0, .begin 0, .enter onePair,
    .finish 0 { result := .ok [.finite 1] }, .resumePredict 0, .acquire 1, .begin 1,
    .enter onePair, .acquire 2, .begin 2]

theorem two_executions_on_gpu : ¬∀ L s₀ s, Reachable step Initial s₀ → Ready L s₀ →
    Reaches step (· = s₀) (Steady L) s → s.executions.card ≤ L := by
  intro hclaim
  have hrun : run (fun s a => (step s a).filter fun s => s.effectiveMaxConcurrency = 1) gpuRuntime
      overlappingPredictions = some _ := rfl
  have hchecked : Reaches step (· = gpuRuntime) _ _ := reaches_of_checked_run rfl hrun
  have hreach := hchecked.mono (D := Steady 1) fun s a h next hnext =>
    of_decide_eq_true (h next hnext)
  have hcard := hclaim 1 gpuRuntime _ reachable_gpuRuntime ready_gpuRuntime hreach
  revert hcard
  decide

end ModelRuntime

end RerankerService
