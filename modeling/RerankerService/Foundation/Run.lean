import Mathlib.Logic.Basic

/-!
# Runs of a partial step function

A system is a function `step : σ → α → Option σ`. An action carries every choice of the
environment (which coroutine is resumed, what a service answers), and `none` says that the action is
not enabled. A run is then a list of actions, and a run whose every action met a condition in the
state it was taken in is what the conditional invariants of this development speak about.
-/

namespace RerankerService.Transition

variable {σ α : Type*}

/-- Execute the actions in order, or fail at the first one that is not enabled. -/
def run (step : σ → α → Option σ) : σ → List α → Option σ
  | s, [] => some s
  | s, a :: rest => (step s a).bind fun next => run step next rest

/-- The states of runs from `init` whose every action met `C` in the state it was taken in. -/
inductive Reaches (step : σ → α → Option σ) (init : σ → Prop) (C : σ → α → Prop) : σ → Prop where
  | start {s : σ} (hinit : init s) : Reaches step init C s
  | next {s : σ} {a : α} {s' : σ} (hreach : Reaches step init C s) (hcond : C s a)
      (hstep : step s a = some s') : Reaches step init C s'

/-- The states of arbitrary runs from `init`. -/
abbrev Reachable (step : σ → α → Option σ) (init : σ → Prop) : σ → Prop :=
  Reaches step init fun _ _ => True

variable {step : σ → α → Option σ} {init : σ → Prop} {C D : σ → α → Prop}

theorem run_append (s : σ) (actions more : List α) :
    run step s (actions ++ more) = (run step s actions).bind fun next => run step next more := by
  induction actions generalizing s with
  | nil => rfl
  | cons a rest ih =>
      calc run step s (a :: rest ++ more)
          = (step s a).bind fun next => run step next (rest ++ more) := rfl
        _ = (step s a).bind fun next => (run step next rest).bind fun t => run step t more :=
          congrArg _ (funext ih)
        _ = (run step s (a :: rest)).bind fun t => run step t more :=
          (Option.bind_assoc _ _ _).symm

/-- The invariant rule: what holds at the start and is kept by every admitted step holds in every
state reached. -/
theorem Reaches.invariant {I : σ → Prop} (hinit : ∀ s, init s → I s)
    (hstep : ∀ s a s', I s → C s a → step s a = some s' → I s') {s : σ}
    (hreach : Reaches step init C s) : I s := by
  induction hreach with
  | start h => exact hinit _ h
  | next _ hcond h ih => exact hstep _ _ _ ih hcond h

/-- The invariant rule on top of an invariant that is already known. -/
theorem Reaches.invariant_of {I J : σ → Prop} (hknown : ∀ s, Reaches step init C s → I s)
    (hinit : ∀ s, init s → J s)
    (hstep : ∀ s a s', I s → J s → C s a → step s a = some s' → J s') {s : σ}
    (hreach : Reaches step init C s) : J s := by
  induction hreach with
  | start h => exact hinit _ h
  | next h hcond hs ih => exact hstep _ _ _ (hknown _ h) ih hcond hs

theorem Reaches.mono (hCD : ∀ s a, C s a → D s a) {s : σ} (hreach : Reaches step init C s) :
    Reaches step init D s := by
  induction hreach with
  | start h => exact .start h
  | next _ hcond h ih => exact .next ih (hCD _ _ hcond) h

theorem Reaches.reachable {s : σ} (hreach : Reaches step init C s) : Reachable step init s :=
  hreach.mono fun _ _ _ => trivial

theorem Reaches.of_init {init' : σ → Prop} (hinit : ∀ s, init s → init' s) {s : σ}
    (hreach : Reaches step init C s) : Reaches step init' C s := by
  induction hreach with
  | start h => exact .start (hinit _ h)
  | next _ hcond h ih => exact .next ih hcond h

theorem Reaches.trans {s s' : σ} (hreach : Reaches step init C s)
    (hrest : Reaches step (· = s) C s') : Reaches step init C s' := by
  induction hrest with
  | start h => exact h ▸ hreach
  | next _ hcond h ih => exact .next ih hcond h

/-- Actions that meet the condition in every state extend a run. -/
theorem Reaches.extend {s s' : σ} {actions : List α} (hreach : Reaches step init C s)
    (hcond : ∀ a ∈ actions, ∀ t, C t a) (hrun : run step s actions = some s') :
    Reaches step init C s' := by
  induction actions generalizing s with
  | nil =>
      obtain rfl : s = s' := Option.some.inj hrun
      exact hreach
  | cons a rest ih =>
      obtain ⟨next, hnext, hrest⟩ := Option.bind_eq_some_iff.mp hrun
      refine ih (.next hreach (hcond a List.mem_cons_self s) hnext) (fun b hb => ?_) hrest
      exact hcond b (List.mem_cons_of_mem a hb)

/-- **Forward simulation**: when every step is a step or nothing under `f`, as long as an invariant
holds, what is reached is reached under `f`. -/
theorem Reaches.simulated {τ β : Type*} {step' : τ → β → Option τ} {init' : τ → Prop} {f : σ → τ}
    {I : σ → Prop} (hinit : ∀ s, init s → I s ∧ init' (f s))
    (hstep : ∀ s a s', I s → C s a → step s a = some s' →
      I s' ∧ (f s' = f s ∨ ∃ b, step' (f s) b = some (f s'))) {s : σ}
    (hreach : Reaches step init C s) : I s ∧ Reachable step' init' (f s) := by
  induction hreach with
  | start h => exact (hinit _ h).imp_right .start
  | next _ hcond h ih =>
      obtain ⟨hinv, hsame | ⟨b, hb⟩⟩ := hstep _ _ _ ih.1 hcond h
      · exact ⟨hinv, hsame ▸ ih.2⟩
      · exact ⟨hinv, .next ih.2 trivial hb⟩

/-- **Purging**: when hidden steps change nothing under the mask and visible steps are the same under
it, the visible part of a run is a run between the masked states. -/
theorem run_filter (mask : σ → σ) (visible : α → Bool) {I : σ → Prop}
    (hkeeps : ∀ s a s', I s → C s a → step s a = some s' → I s')
    (hvisible : ∀ s a s', I s → C s a → visible a = true → step s a = some s' →
      step (mask s) a = some (mask s'))
    (hhidden : ∀ s a s', I s → C s a → visible a = false → step s a = some s' → mask s' = mask s)
    {s s' : σ} {actions : List α} (hinv : I s) (hcond : ∀ a ∈ actions, ∀ t, C t a)
    (hrun : run step s actions = some s') :
    run step (mask s) (actions.filter visible) = some (mask s') := by
  induction actions generalizing s with
  | nil =>
      obtain rfl : s = s' := Option.some.inj hrun
      rfl
  | cons a rest ih =>
      obtain ⟨next, hnext, hrest⟩ := Option.bind_eq_some_iff.mp hrun
      have ha := hcond a List.mem_cons_self s
      have hpurged := ih (hkeeps s a next hinv ha hnext)
        (fun b hb => hcond b (List.mem_cons_of_mem a hb)) hrest
      cases hseen : visible a with
      | true =>
          rw [List.filter_cons_of_pos hseen]
          exact Option.bind_eq_some_iff.mpr ⟨mask next, hvisible s a next hinv ha hseen hnext, hpurged⟩
      | false =>
          rw [List.filter_cons_of_neg (by simp [hseen]), ← hhidden s a next hinv ha hseen hnext]
          exact hpurged

/-- **Bounded runs**: when a measure never grows and drops with every counted action, as long as an
invariant holds, a run has at most as many of them as the measure says. -/
theorem run_countP_le (measure : σ → Nat) (counted : α → Bool) {I : σ → Prop}
    (hstep : ∀ s a s', I s → C s a → step s a = some s' →
      I s' ∧ measure s' + (if counted a then 1 else 0) ≤ measure s)
    {s s' : σ} {actions : List α} (hinv : I s) (hcond : ∀ a ∈ actions, ∀ t, C t a)
    (hrun : run step s actions = some s') :
    I s' ∧ measure s' + actions.countP counted ≤ measure s := by
  induction actions generalizing s with
  | nil =>
      obtain rfl : s = s' := Option.some.inj hrun
      exact ⟨hinv, Nat.le_refl _⟩
  | cons a rest ih =>
      obtain ⟨next, hnext, hrest⟩ := Option.bind_eq_some_iff.mp hrun
      obtain ⟨hkept, hdrop⟩ := hstep s a next hinv (hcond a List.mem_cons_self s) hnext
      obtain ⟨hlast, hle⟩ := ih hkept (fun b hb => hcond b (List.mem_cons_of_mem a hb)) hrest
      refine ⟨hlast, ?_⟩
      rw [List.countP_cons]
      omega

/-- A concrete execution from an initial state reaches its end. -/
theorem reachable_of_run {s s' : σ} {actions : List α} (hinit : init s)
    (hrun : run step s actions = some s') : Reachable step init s' :=
  .extend (.start hinit) (fun _ _ _ => trivial) hrun

/-- A concrete execution all of whose states pass a check. -/
theorem reaches_of_checked_run {s s' : σ} {actions : List α} {p : σ → Bool} (hinit : init s)
    (hrun : run (fun s a => (step s a).filter p) s actions = some s') :
    Reaches step init (fun s a => ∀ next, step s a = some next → p next = true) s' := by
  have hreach : ∀ t, Reaches step init (fun s a => ∀ next, step s a = some next → p next = true) t →
      run (fun s a => (step s a).filter p) t actions = some s' →
      Reaches step init (fun s a => ∀ next, step s a = some next → p next = true) s' := by
    clear hrun
    induction actions with
    | nil =>
        intro t ht hrun
        obtain rfl : t = s' := Option.some.inj hrun
        exact ht
    | cons a rest ih =>
        intro t ht hrun
        obtain ⟨next, hnext, hrest⟩ := Option.bind_eq_some_iff.mp hrun
        obtain ⟨hstep, hp⟩ := Option.filter_eq_some_iff.mp hnext
        refine ih next (.next ht (fun other hother => ?_) hstep) hrest
        rw [hstep] at hother
        exact Option.some.inj hother ▸ hp
  exact hreach s (.start hinit) hrun

end RerankerService.Transition
