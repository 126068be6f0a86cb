import Mathlib.Tactic.ByContra
import RerankerService.Console.Sections
import RerankerService.Console.Texts

/-!
# Opting out of persistence

Unticking a box removes the flag, which every section that is mounted later reads as consent. While
no Playground is mounted after that, and if the Playground's own box was unticked only without saved
batch inputs, nothing is stored.
-/

namespace RerankerService.Console

variable {json : JsonLibrary} {s s' : Browser} {storage : LocalStorage} {event : Event}

def NoInputs (storage : LocalStorage) : Prop :=
  storage.getItem playgroundStorageKey = none ∧ storage.getItem batchStorageKey = none

/-- Once an opted out user's timers have fired, the storage has no inputs. -/
def Browser.StaysOut (s : Browser) : Prop :=
  s.optedOut = true → s.page.scheduled = false → NoInputs s.storage

/-- The event mounts a Playground. -/
def Browser.Mounts (s : Browser) : Event → Prop
  | .visit target => target ≠ .other ∧ target ≠ s.page.shown
  | .reload => s.page.shown ≠ .other
  | _ => False

/-- The event unticks the Playground's box. -/
def Browser.Unticks (s : Browser) : Event → Prop
  | .remember => s.page.shown = .playground ∧ s.page.remembers = true
  | _ => False

/-- No Playground is mounted while the user is opted out, and the Playground's box is not unticked
while batch inputs are stored. -/
def Browser.Careful (s : Browser) (event : Event) : Prop :=
  (s.optedOut = true → ¬s.Mounts event) ∧
    (s.Unticks event → s.storage.getItem batchStorageKey = none)

/-! ### What the handlers leave in the storage -/

theorem getItem_removeItem_eq_none {key other : JsString} (h : storage.getItem other = none) :
    (storage.removeItem key).getItem other = none := by
  by_cases heq : other = key
  · rw [heq, LocalStorage.getItem_removeItem]
  · rwa [LocalStorage.getItem_removeItem_of_ne heq]

/-- Without inputs and without the flag. -/
structure Cleared (storage : LocalStorage) : Prop where
  noInputs : NoInputs storage
  noFlag : storage.getItem playgroundRememberKey = none

theorem Cleared.removeItem (h : Cleared storage) (key : JsString) :
    Cleared (storage.removeItem key) where
  noInputs := ⟨getItem_removeItem_eq_none h.noInputs.1, getItem_removeItem_eq_none h.noInputs.2⟩
  noFlag := getItem_removeItem_eq_none h.noFlag

theorem Cleared.renderBatch (h : Cleared storage) : Cleared (renderBatch json storage) := by
  unfold Console.renderBatch loadBatchState
  split
  · exact h.removeItem batchStorageKey
  · exact h

/-- The box is unticked, there is nothing to save and nothing saved. -/
structure Quiet {σ : Type} (next : Form σ × LocalStorage) : Prop where
  unticked : next.1.rememberInputs = false
  unscheduled : next.1.scheduled = false
  cleared : Cleared next.2

theorem Quiet.of_effect {σ : Type} (form : Form σ) (h : form.rememberInputs = false)
    {key : JsString} (hcleared : Cleared (storage.removeItem key)) :
    Quiet (form.effect key storage) := by
  have heffect : form.effect key storage =
      ({ form with scheduled := false }, storage.removeItem key) := by
    unfold Form.effect
    rw [h]
    rfl
  rw [heffect]
  exact ⟨h, rfl, hcleared⟩

theorem effect_rememberInputs {σ : Type} (form : Form σ) (key : JsString) (storage : LocalStorage) :
    (form.effect key storage).1.rememberInputs = form.rememberInputs := by
  unfold Form.effect
  split <;> rfl

theorem playgroundEvent_quiet {form : Form PlaygroundState} (h : Quiet (form, storage))
    (event : PlaygroundEvent) : Quiet (playgroundEvent form storage event) := by
  have hedit : ∀ inputs : PlaygroundState,
      Quiet ({ form with inputs }.effect playgroundStorageKey storage) :=
    fun inputs => .of_effect { form with inputs } h.unticked
      (h.cleared.removeItem playgroundStorageKey)
  cases event with
  | setQuery query =>
      rw [playgroundEvent]
      split
      · exact h
      · exact hedit _
  | setDocuments documents => exact hedit _
  | setTopN topN =>
      rw [playgroundEvent]
      split
      · exact h
      · exact hedit _
  | clear =>
      exact .of_effect { form with inputs := emptyPlaygroundState } h.unticked
        ((h.cleared.removeItem playgroundStorageKey).removeItem playgroundStorageKey)

theorem batchEvent_quiet {form : Form BatchState} (h : Quiet (form, storage)) {event : BatchEvent}
    {next : Form BatchState × LocalStorage}
    (hnext : batchEvent json form storage event = some next) : Quiet next := by
  obtain ⟨inputs, -, rfl⟩ := Option.map_eq_some_iff.mp hnext
  exact .of_effect { form with inputs } h.unticked
    (h.cleared.renderBatch.removeItem batchStorageKey)

/-- The Playground's box takes it for granted that there are no batch inputs. -/
theorem rememberPlayground_quiet {form : Form PlaygroundState}
    (hticked : form.rememberInputs = true) (hbatch : storage.getItem batchStorageKey = none) :
    Quiet (rememberPlayground form storage) := by
  unfold rememberPlayground
  simp only [hticked, Bool.not_true, Bool.false_eq_true, if_false]
  refine .of_effect _ rfl ⟨⟨LocalStorage.getItem_removeItem, ?_⟩, ?_⟩
  · exact getItem_removeItem_eq_none
      (getItem_removeItem_eq_none (getItem_removeItem_eq_none hbatch))
  · exact getItem_removeItem_eq_none
      (getItem_removeItem_eq_none LocalStorage.getItem_removeItem)

theorem rememberBatch_quiet {form : Form BatchState} (hticked : form.rememberInputs = true) :
    Quiet (rememberBatch json form storage) := by
  unfold rememberBatch
  simp only [hticked, Bool.not_true, Bool.false_eq_true, if_false]
  refine .of_effect _ rfl (Cleared.removeItem (Cleared.renderBatch ⟨⟨?_, ?_⟩, ?_⟩) batchStorageKey)
  · exact LocalStorage.getItem_removeItem
  · exact getItem_removeItem_eq_none LocalStorage.getItem_removeItem
  · exact getItem_removeItem_eq_none
      (getItem_removeItem_eq_none LocalStorage.getItem_removeItem)

/-! ### Runs -/

/-- What an opted out user's browser keeps. -/
def Browser.Silent (s : Browser) : Prop :=
  s.optedOut = true →
    s.page.remembers = false ∧ s.page.scheduled = false ∧ Cleared s.storage

theorem Quiet.silent_playground {next : Form PlaygroundState × LocalStorage} (h : Quiet next)
    (hpage : s.page = .playground next.1) (hstorage : s.storage = next.2) : s.Silent := by
  intro _
  rw [hpage, hstorage]
  exact ⟨h.unticked, h.unscheduled, h.cleared⟩

theorem Quiet.silent_batch {next : Form BatchState × LocalStorage} (h : Quiet next)
    (hpage : s.page = .batch next.1) (hstorage : s.storage = next.2) : s.Silent := by
  intro _
  rw [hpage, hstorage]
  exact ⟨h.unticked, h.unscheduled, h.cleared⟩

theorem mount_silent (hs : s.Silent) {target : Section}
    (htarget : s.optedOut = true → target = .other) :
    (s.show (mount json s.storage target)).Silent := by
  intro hout
  obtain rfl := htarget hout
  exact ⟨rfl, rfl, (hs hout).2.2⟩

theorem playground_silent (hs : s.Silent) {event : PlaygroundEvent}
    (h : s.step json (.playground event) = some s') : s'.Silent := by
  cases hpage : s.page with
  | playground form =>
      simp only [Browser.step, hpage] at h
      cases h
      intro hout
      obtain ⟨hunticked, hunscheduled, hcleared⟩ := hs hout
      rw [hpage] at hunticked hunscheduled
      have hquiet := playgroundEvent_quiet ⟨hunticked, hunscheduled, hcleared⟩ event
      exact hquiet.silent_playground rfl rfl hout
  | batch form | other => simp [Browser.step, hpage] at h

theorem batch_silent (hs : s.Silent) {event : BatchEvent}
    (h : s.step json (.batch event) = some s') : s'.Silent := by
  cases hpage : s.page with
  | batch form =>
      simp only [Browser.step, hpage] at h
      obtain ⟨next, hnext, rfl⟩ := Option.map_eq_some_iff.mp h
      intro hout
      obtain ⟨hunticked, hunscheduled, hcleared⟩ := hs hout
      rw [hpage] at hunticked hunscheduled
      have hquiet := batchEvent_quiet ⟨hunticked, hunscheduled, hcleared⟩ hnext
      exact hquiet.silent_batch rfl rfl hout
  | playground form | other => simp [Browser.step, hpage] at h

/-- Ticking a box ends the opt-out; unticking one removes the inputs. -/
theorem remember_silent (hcareful : s.Careful .remember)
    (h : s.step json .remember = some s') : s'.Silent := by
  cases hpage : s.page with
  | playground form =>
      simp only [Browser.step, hpage] at h
      cases h
      cases hticked : form.rememberInputs with
      | true =>
          have hbatch := hcareful.2 ⟨by rw [hpage]; rfl, by rw [hpage]; exact hticked⟩
          exact (rememberPlayground_quiet hticked hbatch).silent_playground rfl rfl
      | false =>
          intro hout
          rw [rememberPlayground, effect_rememberInputs, hticked] at hout
          cases hout
  | batch form =>
      simp only [Browser.step, hpage] at h
      cases h
      cases hticked : form.rememberInputs with
      | true => exact (rememberBatch_quiet hticked).silent_batch rfl rfl
      | false =>
          intro hout
          rw [rememberBatch, effect_rememberInputs, hticked] at hout
          cases hout
  | other => simp [Browser.step, hpage] at h

theorem render_silent (hs : s.Silent) (h : s.step json .render = some s') : s'.Silent := by
  intro hout
  cases hpage : s.page with
  | batch form =>
      simp only [Browser.step, hpage] at h
      cases h
      obtain ⟨hunticked, hunscheduled, hcleared⟩ := hs hout
      rw [hpage] at hunticked hunscheduled
      exact ⟨hunticked, hunscheduled, hcleared.renderBatch⟩
  | playground form | other =>
      simp only [Browser.step, hpage] at h
      cases h
      rw [← hpage]
      exact hs hout

theorem timer_takes (h : s.step json .timer = some s') :
    s.page.scheduled = true ∧ s'.optedOut = s.optedOut := by
  cases hpage : s.page with
  | playground form | batch form =>
      simp only [Browser.step, hpage] at h
      split at h
      · cases h
        exact ⟨‹_›, rfl⟩
      · cases h
  | other => simp [Browser.step, hpage] at h

theorem step_silent (hs : s.Silent) (hcareful : s.Careful event) (h : s.step json event = some s') :
    s'.Silent := by
  cases event with
  | visit target =>
      cases h
      split
      · exact hs
      · rename_i hother
        refine mount_silent hs fun hout => ?_
        by_contra htarget
        exact hcareful.1 hout ⟨htarget, hother⟩
  | reload =>
      cases h
      refine mount_silent hs fun hout => ?_
      by_contra htarget
      exact hcareful.1 hout htarget
  | playground event => exact playground_silent hs h
  | batch event => exact batch_silent hs h
  | remember => exact remember_silent hcareful h
  | render => exact render_silent hs h
  | timer =>
      intro hout
      obtain ⟨hscheduled, hsame⟩ := timer_takes h
      rw [(hs (hsame ▸ hout)).2.1] at hscheduled
      cases hscheduled

theorem reaches_silent
    (hreach : Transition.Reaches (Browser.step json) Browser.Initial Browser.Careful s) :
    s.Silent := by
  refine hreach.invariant (fun s hinit hout => ?_) fun s event s' hs hcareful h =>
    step_silent hs hcareful h
  rw [hinit.2] at hout
  cases hout

/-- In a run whose steps were all careful, an opt-out sticks. -/
theorem staysOut_of_careful (json : JsonLibrary) {s : Browser}
    (hreach : Transition.Reaches (Browser.step json) Browser.Initial Browser.Careful s) :
    s.StaysOut :=
  fun hout _ => (reaches_silent hreach hout).2.2.noInputs

/-! ### Every other step leaks -/

theorem load_default (hcleared : Cleared storage) :
    loadPlaygroundState json storage = (defaultPlaygroundState, storage) := by
  rw [loadPlaygroundState, hcleared.noFlag, hcleared.noInputs.1]
  rfl

theorem loadBatch_default (hcleared : Cleared storage) :
    loadBatchState json storage = (defaultBatchState, storage) := by
  rw [loadBatchState, hcleared.noFlag, hcleared.noInputs.2]
  rfl

theorem mount_leaks (hcleared : Cleared storage) {target : Section} (htarget : target ≠ .other)
    (hout : s.optedOut = true) :
    ∃ s', (s.show (mount json storage target)).step json .timer = some s' ∧ ¬s'.StaysOut := by
  have hremember : rememberFlag storage = true := by
    rw [rememberFlag, hcleared.noFlag]
    rfl
  cases target with
  | playground =>
      have hmount : mount json storage .playground =
          (.playground ⟨defaultPlaygroundState, true, true⟩, storage) := by
        rw [mount, mountPlayground, load_default hcleared]
        simp only [hremember, Form.effect, if_true]
      rw [hmount]
      refine ⟨_, rfl, fun h => ?_⟩
      have hsaved : (storage.setItem playgroundStorageKey (json.stringify
          defaultPlaygroundState.persisted)).getItem playgroundStorageKey = some _ :=
        LocalStorage.getItem_setItem
      cases hsaved.symm.trans (h hout rfl).1
  | batch =>
      have hmount : mount json storage .batch =
          (.batch ⟨defaultBatchState, true, true⟩, storage) := by
        rw [mount, mountBatch, loadBatch_default hcleared]
        simp only [hremember, Form.effect, if_true]
      rw [hmount]
      refine ⟨_, rfl, fun h => ?_⟩
      have hsaved : (storage.setItem batchStorageKey
          (json.stringify defaultBatchState.persisted)).getItem batchStorageKey = some _ :=
        LocalStorage.getItem_setItem
      cases hsaved.symm.trans (h hout rfl).2
  | other => exact absurd rfl htarget

theorem untick_leaks {form : Form PlaygroundState} (hpage : s.page = .playground form)
    (hticked : form.rememberInputs = true) (hbatch : s.storage.getItem batchStorageKey ≠ none)
    (h : s.step json .remember = some s') : ¬s'.StaysOut := by
  simp only [Browser.step, hpage] at h
  cases h
  intro hstays
  have hremembered : rememberPlayground form s.storage =
      ({ form with rememberInputs := false, scheduled := false },
        ((s.storage.removeItem playgroundRememberKey).removeItem playgroundStorageKey).removeItem
          playgroundStorageKey) := by
    simp only [rememberPlayground, hticked, Bool.not_true, Bool.false_eq_true, if_false,
      Form.effect]
  rw [hremembered] at hstays
  have hnone := (hstays rfl rfl).2
  refine hbatch ?_
  rwa [Browser.show, LocalStorage.getItem_removeItem_of_ne (by decide),
    LocalStorage.getItem_removeItem_of_ne (by decide),
    LocalStorage.getItem_removeItem_of_ne (by decide)] at hnone

/-- After a step that was not careful, the inputs are stored already or when the timer fires. -/
theorem careless_leaks (hs : s.Silent) (hcareless : ¬s.Careful event)
    (h : s.step json event = some s') :
    ¬s'.StaysOut ∨ ∃ s'', s'.step json .timer = some s'' ∧ ¬s''.StaysOut := by
  by_cases hbox : s.Unticks event ∧ s.storage.getItem batchStorageKey ≠ none
  · left
    obtain ⟨hunticks, hbatch⟩ := hbox
    cases event with
    | remember =>
        obtain ⟨hshown, hticked⟩ := hunticks
        cases hpage : s.page with
        | playground form =>
            rw [hpage] at hticked
            exact untick_leaks hpage hticked hbatch h
        | batch form | other =>
            rw [hpage] at hshown
            cases hshown
    | _ => cases hunticks
  · right
    have hmounts : s.optedOut = true ∧ s.Mounts event := by
      by_contra hnot
      refine hcareless ⟨fun hout hm => hnot ⟨hout, hm⟩, fun hu => ?_⟩
      by_contra hbatch
      exact hbox ⟨hu, hbatch⟩
    obtain ⟨hout, hmounts⟩ := hmounts
    have hcleared := (hs hout).2.2
    cases event with
    | visit target =>
        rw [Browser.step, if_neg hmounts.2] at h
        cases h
        exact mount_leaks hcleared hmounts.1 hout
    | reload =>
        cases h
        exact mount_leaks hcleared hmounts hout
    | _ => cases hmounts

/-! ### Two runs -/

def start : Browser :=
  ⟨fun _ => none, .other, false⟩

def noTexts : Texts :=
  ⟨[], .nil, nofun⟩

def mounted : Browser :=
  ⟨fun _ => none, .playground ⟨defaultPlaygroundState, true, true⟩, false⟩

theorem staysOut_of_careful_untick :
    ∃ s, Transition.run (Browser.step noTexts.library) start [.visit .playground, .remember] =
        some s ∧
      s.optedOut = true ∧ s.StaysOut := by
  have hvisit : start.step noTexts.library (.visit .playground) = some mounted := rfl
  have hcareful : start.Careful (.visit .playground) :=
    ⟨fun hout => (by cases hout), fun hunticks => (by cases hunticks)⟩
  have hcareful' : mounted.Careful .remember :=
    ⟨fun _ hmounts => (by cases hmounts), fun _ => rfl⟩
  refine ⟨_, rfl, rfl, ?_⟩
  exact staysOut_of_careful noTexts.library
    (.next (.next (.start ⟨rfl, rfl⟩) hcareful hvisit) hcareful' rfl)

/-- A section that is visited again remembers again. -/
theorem not_staysOut_revisit :
    ∃ s, Transition.run (Browser.step noTexts.library) start
        [.visit .playground, .remember, .visit .other, .visit .playground,
          .playground (.setQuery (js "private")), .timer] = some s ∧ ¬s.StaysOut := by
  refine ⟨_, rfl, fun h => ?_⟩
  cases (h rfl rfl).1

end RerankerService.Console
