import RerankerService.Runtime.Lifecycle

/-!
# Three slots for models

What the lifecycle is for, without locks, awaits and metrics: loaded objects move between the active
slot, the candidate slot and the slot kept for a rollback, and every slot has a name for what it
holds. `ModelRuntime.event` reads off which of these moves an action is.
-/

namespace RerankerService

/-- The name and revision a model is known by. -/
abbrev Identity := Text × Text

/-- `tested` is the candidate in its smoke test; `identity` says what each object was loaded for. -/
@[ext]
structure Slots where
  identity : ModelId → Identity
  loaded : Nat
  unloaded : List ModelId
  active : Option ModelId
  activeIdentity : Identity
  candidate : Option ModelId
  candidateIdentity : Option Identity
  previous : Option (Option ModelId × Identity)
  tested : Option (ModelId × Identity)

namespace Slots

inductive Event where
  | load (requested : Identity)
  | test (requested : Identity)
  | accept
  | reject
  | activate
  | rollback
  | close

def switchTo (t : Slots) (active : Option ModelId) (identity : Identity) : Slots :=
  { t with
    previous := some (t.active, t.activeIdentity)
    active
    activeIdentity := identity }

def step (t : Slots) : Event → Option Slots
  | .load requested =>
      some { t with
        identity := Function.update t.identity t.loaded requested
        loaded := t.loaded + 1
        active := some t.loaded }
  | .test requested =>
      if t.tested.isNone then
        some { t with
          identity := Function.update t.identity t.loaded requested
          loaded := t.loaded + 1
          tested := some (t.loaded, requested) }
      else none
  | .accept =>
      t.tested.map fun tested =>
        { t with
          candidate := some tested.1
          candidateIdentity := some tested.2
          tested := none }
  | .reject =>
      t.tested.map fun tested => { t with unloaded := t.unloaded ++ [tested.1], tested := none }
  | .activate =>
      match t.candidate, t.candidateIdentity with
      | some candidate, some identity =>
          some { t.switchTo (some candidate) identity with
            candidate := none
            candidateIdentity := none }
      | _, _ => none
  | .rollback => t.previous.map fun previous => t.switchTo previous.1 previous.2
  | .close =>
      if t.tested.isNone then
        some { t with
          unloaded := t.unloaded ++
            ModelRuntime.unloadOnce [] [t.active, t.candidate, t.previous.bind Prod.fst]
          active := none
          candidate := none
          previous := none }
      else none

/-- The slots after a move, or the same slots when there is none. -/
def MovesTo (t : Slots) (e : Option Event) (t' : Slots) : Prop :=
  match e with
  | none => t' = t
  | some e => t.step e = some t'

/-- What a slot holds was loaded for the name it has there. -/
structure Identified (t : Slots) : Prop where
  active : ∀ m, t.active = some m → m < t.loaded ∧ t.identity m = t.activeIdentity
  candidate : ∀ m, t.candidate = some m →
    m < t.loaded ∧ t.candidateIdentity = some (t.identity m)
  previous : ∀ m identity, t.previous = some (some m, identity) →
    m < t.loaded ∧ t.identity m = identity
  tested : ∀ m identity, t.tested = some (m, identity) → m < t.loaded ∧ t.identity m = identity

/-- How many slots hold the object. -/
def owners (t : Slots) (m : ModelId) : Nat :=
  (if t.active = some m then 1 else 0) + (if t.candidate = some m then 1 else 0) +
    (if t.previous.bind Prod.fst = some m then 1 else 0) +
    (if t.tested.map Prod.fst = some m then 1 else 0)

/-- Every loaded object is in one slot or was unloaded once. -/
def Owned (t : Slots) : Prop :=
  ∀ m, t.owners m + t.unloaded.count m = if m < t.loaded then 1 else 0

/-- The move does not overwrite a slot that holds an object. -/
def FillsEmpty (t : Slots) : Event → Prop
  | .load _ => t.active = none
  | .accept => t.candidate = none
  | .activate => t.previous.bind Prod.fst = none
  | _ => True

variable {t t' : Slots}

/-- The moves with what they find and what they make of it. -/
inductive Takes (t : Slots) : Event → Slots → Prop where
  | load {requested : Identity} :
      Takes t (.load requested) { t with
        identity := Function.update t.identity t.loaded requested
        loaded := t.loaded + 1
        active := some t.loaded }
  | test {requested : Identity} (htested : t.tested = none) :
      Takes t (.test requested) { t with
        identity := Function.update t.identity t.loaded requested
        loaded := t.loaded + 1
        tested := some (t.loaded, requested) }
  | accept {m : ModelId} {identity : Identity} (htested : t.tested = some (m, identity)) :
      Takes t .accept { t with
        candidate := some m
        candidateIdentity := some identity
        tested := none }
  | reject {m : ModelId} {identity : Identity} (htested : t.tested = some (m, identity)) :
      Takes t .reject { t with unloaded := t.unloaded ++ [m], tested := none }
  | activate {m : ModelId} {identity : Identity} (hcandidate : t.candidate = some m)
      (hidentity : t.candidateIdentity = some identity) :
      Takes t .activate { t.switchTo (some m) identity with
        candidate := none
        candidateIdentity := none }
  | rollback {active : Option ModelId} {identity : Identity}
      (hprevious : t.previous = some (active, identity)) :
      Takes t .rollback (t.switchTo active identity)
  | close (htested : t.tested = none) :
      Takes t .close { t with
        unloaded := t.unloaded ++
          ModelRuntime.unloadOnce [] [t.active, t.candidate, t.previous.bind Prod.fst]
        active := none
        candidate := none
        previous := none }

/-- **Inversion**: a move is one of these. -/
theorem step_takes {e : Event} (hstep : t.step e = some t') : t.Takes e t' := by
  cases e with
  | load requested =>
      cases hstep
      exact .load
  | test requested =>
      simp only [Slots.step] at hstep
      split at hstep
      · rename_i htested
        cases hstep
        exact .test (Option.isNone_iff_eq_none.mp htested)
      · cases hstep
  | accept =>
      obtain ⟨tested, htested, rfl⟩ := Option.map_eq_some_iff.mp hstep
      exact .accept htested
  | reject =>
      obtain ⟨tested, htested, rfl⟩ := Option.map_eq_some_iff.mp hstep
      exact .reject htested
  | activate =>
      simp only [Slots.step] at hstep
      split at hstep
      · rename_i hcandidate hidentity
        cases hstep
        exact .activate hcandidate hidentity
      · cases hstep
  | rollback =>
      obtain ⟨previous, hprevious, rfl⟩ := Option.map_eq_some_iff.mp hstep
      exact .rollback hprevious
  | close =>
      simp only [Slots.step] at hstep
      split at hstep
      · rename_i htested
        cases hstep
        exact .close (Option.isNone_iff_eq_none.mp htested)
      · cases hstep

/-- What the slots keep in every move, they keep. -/
theorem MovesTo.keeps {P : Slots → Prop} {e : Option Event} (hmoves : t.MovesTo e t') (h : P t)
    (hstep : ∀ e', e = some e' → t.step e' = some t' → P t') : P t' := by
  cases e with
  | none => exact hmoves ▸ h
  | some e' => exact hstep e' rfl hmoves

/-- A new object does not change what the older ones are. -/
theorem update_identity (t : Slots) (requested : Identity) {m : ModelId} (hm : m < t.loaded) :
    Function.update t.identity t.loaded requested m = t.identity m :=
  Function.update_of_ne hm.ne _ _

theorem Identified.switchTo (h : t.Identified) {active : Option ModelId} {identity : Identity}
    (hactive : ∀ m, active = some m → m < t.loaded ∧ t.identity m = identity) :
    (t.switchTo active identity).Identified where
  active := hactive
  candidate := h.candidate
  previous m identity hprevious := by
    obtain ⟨hm, rfl⟩ := Prod.mk.inj (Option.some.inj hprevious)
    exact h.active m hm
  tested := h.tested

theorem Identified.allocate (h : t.Identified) (requested : Identity) :
    { t with
      identity := Function.update t.identity t.loaded requested
      loaded := t.loaded + 1 }.Identified where
  active m hm := by
    obtain ⟨hlt, hidentity⟩ := h.active m hm
    exact ⟨hlt.trans (Nat.lt_succ_self _), (t.update_identity requested hlt).trans hidentity⟩
  candidate m hm := by
    obtain ⟨hlt, hidentity⟩ := h.candidate m hm
    exact ⟨hlt.trans (Nat.lt_succ_self _),
      hidentity.trans (congrArg some (t.update_identity requested hlt).symm)⟩
  previous m identity hm := by
    obtain ⟨hlt, hidentity⟩ := h.previous m identity hm
    exact ⟨hlt.trans (Nat.lt_succ_self _), (t.update_identity requested hlt).trans hidentity⟩
  tested m identity hm := by
    obtain ⟨hlt, hidentity⟩ := h.tested m identity hm
    exact ⟨hlt.trans (Nat.lt_succ_self _), (t.update_identity requested hlt).trans hidentity⟩

/-- Every move keeps the names right, if a load fills the active slot under the name that it
currently has. -/
theorem Identified.step (h : t.Identified) {e : Event}
    (hload : ∀ requested, e = .load requested → requested = t.activeIdentity)
    (hstep : t.step e = some t') : t'.Identified := by
  cases step_takes hstep with
  | @load requested =>
      obtain rfl := hload requested rfl
      exact { h.allocate t.activeIdentity with
        active := fun m hm => by
          obtain rfl := Option.some.inj hm
          exact ⟨Nat.lt_succ_self _, Function.update_self _ _ _⟩ }
  | @test requested htested =>
      exact { h.allocate requested with
        tested := fun m identity hm => by
          obtain ⟨rfl, rfl⟩ := Prod.mk.inj (Option.some.inj hm)
          exact ⟨Nat.lt_succ_self _, Function.update_self _ _ _⟩ }
  | @accept m identity htested =>
      obtain ⟨hlt, hidentity⟩ := h.tested m identity htested
      exact { h with
        candidate := fun other hother => by
          obtain rfl := Option.some.inj hother
          exact ⟨hlt, congrArg some hidentity.symm⟩
        tested := fun _ _ hnone => nomatch hnone }
  | reject htested => exact { h with tested := fun _ _ hnone => nomatch hnone }
  | @activate m identity hcandidate hidentity =>
      have hswitch : (t.switchTo (some m) identity).Identified := by
        refine h.switchTo fun other hother => ?_
        obtain rfl := Option.some.inj hother
        obtain ⟨hlt, hname⟩ := h.candidate m hcandidate
        exact ⟨hlt, (Option.some.inj (hidentity.symm.trans hname)).symm⟩
      exact { hswitch with candidate := fun _ hnone => nomatch hnone }
  | @rollback active identity hprevious =>
      refine h.switchTo fun m hm => ?_
      obtain rfl : active = some m := hm
      exact h.previous m identity hprevious
  | close htested =>
      exact { h with
        active := fun _ hnone => nomatch hnone
        candidate := fun _ hnone => nomatch hnone
        previous := fun _ _ hnone => nomatch hnone }

/-! ### The active and the candidate slot -/

/-- Only a load, a switch and the shutdown touch the active slot. -/
theorem active_of_step {e : Event} (hload : ∀ requested, e ≠ .load requested)
    (hclose : e ≠ .close) (hactivate : e ≠ .activate) (hrollback : e ≠ .rollback)
    (hstep : t.step e = some t') : t'.active = t.active ∧ t'.activeIdentity = t.activeIdentity := by
  cases step_takes hstep with
  | load => exact absurd rfl (hload _)
  | activate hcandidate hidentity => exact absurd rfl hactivate
  | rollback hprevious => exact absurd rfl hrollback
  | close htested => exact absurd rfl hclose
  | test _ | accept _ | reject _ => exact ⟨rfl, rfl⟩

/-- A candidate comes from its smoke test. -/
theorem candidate_of_step {e : Event} (hstep : t.step e = some t') :
    t'.candidate = t.candidate ∨ t'.candidate = none ∨
      e = .accept ∧ ∃ m identity, t.tested = some (m, identity) ∧ t'.candidate = some m := by
  cases step_takes hstep with
  | accept htested => exact .inr (.inr ⟨rfl, _, _, htested, rfl⟩)
  | activate _ _ | close _ => exact .inr (.inl rfl)
  | load | test _ | reject _ | rollback _ => exact .inl rfl

/-! ### Ownership -/

theorem count_unloadOnce (slots : List (Option ModelId)) (seen : List ModelId) (m : ModelId) :
    (ModelRuntime.unloadOnce seen slots).count m =
      if m ∈ seen then 0 else min 1 (slots.count (some m)) := by
  induction slots generalizing seen with
  | nil => simp [ModelRuntime.unloadOnce]
  | cons slot rest ih =>
      cases slot with
      | none => simp [ModelRuntime.unloadOnce, ih]
      | some x =>
          unfold ModelRuntime.unloadOnce
          by_cases hx : x ∈ seen
          · rw [if_pos hx, ih]
            by_cases hm : m ∈ seen
            · simp [hm]
            · have hne : x ≠ m := fun heq => hm (heq ▸ hx)
              simp [hm, hne]
          · rw [if_neg hx, List.count_cons, ih]
            by_cases heq : m = x
            · subst heq
              simp [hx]
            · simp [heq, Ne.symm heq]

/-- The object that a move drops from the slots without unloading it. -/
def dropped (t : Slots) : Event → Option ModelId
  | .load _ => t.active
  | .accept => t.candidate
  | .activate => t.previous.bind Prod.fst
  | _ => none

theorem FillsEmpty.dropped {e : Event} (h : t.FillsEmpty e) : t.dropped e = none := by
  cases e <;> first | exact h | rfl

theorem loaded_le {e : Event} (hstep : t.step e = some t') : t.loaded ≤ t'.loaded := by
  cases step_takes hstep with
  | load | test _ => exact Nat.le_succ _
  | accept _ | reject _ | activate _ _ | rollback _ | close _ => exact le_rfl

/-- A move neither duplicates an object nor loses one, apart from what it drops and the new object
of a load. -/
theorem step_accounts {e : Event} (hstep : t.step e = some t') {m : ModelId}
    (hm : t.owners m ≤ 1) :
    t'.owners m + t'.unloaded.count m + (if t.dropped e = some m then 1 else 0) =
      t.owners m + t.unloaded.count m + (if t.loaded ≤ m ∧ m < t'.loaded then 1 else 0) := by
  unfold owners at hm ⊢
  cases step_takes hstep with
  | load =>
      simp only [dropped, Option.some.injEq] at hm ⊢
      grind
  | test htested =>
      simp only [dropped, htested, Option.map_none, Option.map_some, Option.some.injEq] at hm ⊢
      grind
  | accept htested =>
      simp only [dropped, htested, Option.map_some, Option.map_none] at hm ⊢
      grind
  | reject htested =>
      simp only [dropped, htested, Option.map_some, Option.map_none, Option.some.injEq,
        List.count_append, List.count_singleton] at hm ⊢
      grind
  | activate hcandidate hidentity =>
      simp only [dropped, hcandidate, switchTo, Option.bind_some] at hm ⊢
      grind
  | rollback hprevious =>
      simp only [dropped, hprevious, switchTo, Option.bind_some] at hm ⊢
      grind
  | close htested =>
      simp only [dropped, htested, List.count_append, count_unloadOnce, Option.bind_none,
        Option.map_none, List.count_cons, List.count_nil] at hm ⊢
      grind

/-- Every move keeps the ownership, if it fills an empty slot. -/
theorem Owned.step (h : t.Owned) {e : Event} (hempty : t.FillsEmpty e)
    (hstep : t.step e = some t') : t'.Owned := by
  intro m
  have hm := h m
  have hle := loaded_le hstep
  have haccounts := step_accounts hstep (m := m) (by grind)
  rw [hempty.dropped] at haccounts
  grind

/-- No object is in two slots, or in a slot and unloaded, or unloaded twice. -/
def AtMostOnce (t : Slots) : Prop :=
  ∀ m, t.owners m + t.unloaded.count m ≤ if m < t.loaded then 1 else 0

theorem AtMostOnce.owners_le (h : t.AtMostOnce) (m : ModelId) : t.owners m ≤ 1 := by
  have hm := h m
  split at hm <;> omega

theorem AtMostOnce.step (h : t.AtMostOnce) {e : Event} (hstep : t.step e = some t') :
    t'.AtMostOnce := by
  intro m
  have hm := h m
  have hle := loaded_le hstep
  have haccounts := step_accounts hstep (h.owners_le m)
  grind

/-- The list of unloaded objects only grows. -/
theorem unloaded_grows {e : Event} (hstep : t.step e = some t') :
    t.unloaded <+: t'.unloaded := by
  cases step_takes hstep with
  | reject _ | close _ => exact List.prefix_append _ _
  | load | test _ | accept _ | activate _ _ | rollback _ => exact List.prefix_refl _

end Slots

namespace ModelRuntime

/-! ### The moves of the runtime -/

def slots (s : ModelRuntime) : Slots where
  identity m := ((s.models m).name, (s.models m).revision)
  loaded := s.loaded
  unloaded := s.unloaded
  active := s.model
  activeIdentity := (s.settings.model, s.settings.modelRevision)
  candidate := s.candidate
  candidateIdentity := s.candidateInfo.map fun info => (info.name, info.resolvedRevision)
  previous := s.previous.map fun previous => (previous.model, previous.name, previous.revision)
  tested :=
    match s.lockHolder with
    | some (.smoking check model _) => some (model, check.name, check.resolvedRevision.getD [])
    | _ => none

/-- The move that an action makes when it is taken in state `s`. -/
def event (s : ModelRuntime) : Action → Option Slots.Event
  | .loadReturned (.ok _) =>
      match s.initialLoad with
      | .loading name revision _ _ => some (.load (name, revision))
      | _ => none
  | .candidateReturned (.ok _) =>
      match s.lockHolder with
      | some (.loading check _ _) => some (.test (check.name, check.resolvedRevision.getD []))
      | _ => none
  | .candidateSmoked outcome =>
      match smokeTest outcome with
      | .ok _ => some .accept
      | .error _ => some .reject
  | .lockAcquired =>
      match s.lockQueue with
      | .activate _ :: _ =>
          if s.candidate.isSome ∧ s.candidateInfo.isSome then some .activate else none
      | .rollback _ :: _ => if s.previous.isSome then some .rollback else none
      | _ => none
  | .close => some .close
  | _ => none

end ModelRuntime

end RerankerService
