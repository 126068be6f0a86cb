import RerankerService.Proof.CacheKey
import RerankerService.Proof.Configuration
import RerankerService.Proof.Truncation

/-!
# What the cache holds

The settings from which the keys of `set_many` are computed are those in force after the inference.
An entry is what its key stands for when no activation, rollback or patch comes between the
prediction and the write, and when every model that becomes active, the first one included, has the
name in force and truncates where the settings say.
-/

namespace RerankerService

open List (Forall₂)
open Transition
open ScoreCache (asciiPrimitives)

namespace Application

/-- The source is the model that the settings name, truncating where they say. -/
def Fits (settings : Settings) (source : Option Source) : Prop :=
  ∃ model, source = some model ∧ model.name = settings.model ∧
    model.revision = settings.modelRevision ∧ model.maxLength = min settings.maxLength model.cap

/-- The score is for the pair, up to normalisation. -/
def ForPair (prims : Primitives) (pair : Pair) (score : Score) : Prop :=
  ∃ query document, score.pair = some (query, document) ∧
    normalizeText prims query = normalizeText prims pair.1 ∧
    normalizeText prims document = normalizeText prims pair.2

structure Truthful (prims : Primitives) (w : ScoreCache.Write Score) : Prop where
  key : w.key = ScoreCache.key prims w.settings w.query w.document
  source : Fits w.settings w.score.source
  pair : ForPair prims (w.query, w.document) w.score

/-- A hit of a lookup that Redis can answer now is a score for the pair that was asked for, computed
under the configuration it was asked under. -/
def HitsTruthful (prims : Primitives) (s : Application) : Prop :=
  ∀ id asked values i score, (s.calls id).phase = .lookup asked →
    (s.lookedUp prims id (some values)).isSome → values[i]? = some (some score) →
    ScoreCache.Distinct prims asked ((s.calls id).query, (s.calls id).textAt i) →
    Fits asked score.source ∧ ForPair prims ((s.calls id).query, (s.calls id).textAt i) score

/-- A change of the configuration finds nothing under way that does not suit it, and a model that
becomes active has the name in force and truncates where the settings say. -/
structure KeepsTruth (prims : Primitives) (s : Application) (a : Action) : Prop where
  undisturbed : Undisturbed Fits prims s a
  named : s.KeepsNames a
  lengths : ∀ b, a = .runtime b → s.runtime.LengthsCurrent b

variable {prims : Primitives} {s s' : Application}

theorem keepsTruth_of_quiet {a : Action} (h : a.quiet) : KeepsTruth prims s a where
  undisturbed hconfigures :=
    (not_reconfigures_of_harmless (Action.harmless_of_quiet h) hconfigures).elim
  named := keepsNames_of_quiet h
  lengths b ha := by
    subst ha
    cases b with
    | loadReturned _ | lockAcquired => cases h
    | _ => trivial

theorem keepsTruth_of_idle {b : ModelRuntime.Action} (hdetached : ∀ id, Detached (s.calls id).phase)
    (hnamed : s.KeepsNames (.runtime b)) (hlength : s.runtime.LengthsCurrent b) :
    KeepsTruth prims s (.runtime b) where
  undisturbed := undisturbed_of_detached hdetached prims _
  named := hnamed
  lengths _ ha := by
    cases ha
    exact hlength

/-! ### One step -/

theorem answersPairs_forPair (prims : Primitives) (r : ModelRuntime) (a : ModelRuntime.Action) :
    AnswersPairs (ForPair prims) r a := by
  intro predict execution values source _ _ hlength
  refine List.forall₂_iff_get.mpr ⟨?_, fun i hpair hvalue => ?_⟩
  · rw [length_tagScores, hlength]
  · refine ⟨_, _, ?_, rfl, rfl⟩
    simp [tagScores, List.getElem?_eq_getElem hpair]

theorem fits_activeSource (hprepared : s.runtime.Prepared) (hserving : s.runtime.Serving)
    (hsync : s.runtime.InSync) (hready : s.runtime.ready = true) :
    Fits s.settings s.runtime.activeSource := by
  obtain ⟨m, hm, -, hnamed⟩ := hprepared.named hserving hready
  have hactive : s.runtime.activeSource = some (s.runtime.sources m) := by
    rw [ModelRuntime.activeSource, hm, Option.map_some]
  exact ⟨_, hactive, hnamed.name, hnamed.revision, hsync _ hactive⟩

theorem inSync_of_sameModels {r r' : ModelRuntime} (hserving : r.Serving) (hsync : r.InSync)
    (hsame : r.SameModels r') (hmodel : r'.model = r.model) : r'.InSync := by
  intro source hsource
  rw [hsame.activeSource hserving hmodel] at hsource
  rw [hsame.settings]
  exact hsync source hsource

theorem inSync_of_loadBegin {settings : Settings} {device : Text} {r : ModelRuntime}
    (h : (ModelRuntime.new settings device).step .loadBegin = some r) : r.InSync := by
  cases h
  exact ModelRuntime.inSync_iff.mpr fun m hm => by cases hm

theorem step_inSync {a : Action} (hserving : s.runtime.Serving) (hsync : s.runtime.InSync)
    (hkeeps : KeepsTruth prims s a) (hstep : s.step prims a = some s') : s'.runtime.InSync := by
  cases (step_effect hstep).drives with
  | background ha hbackground hrun =>
      have holder := ModelRuntime.older_of_atMostOnce hserving.owned
      exact (ModelRuntime.step_inSync_iff holder hsync hrun).mpr (hkeeps.lengths _ ha)
  | patched ha =>
      subst ha
      obtain ⟨b, -, rfl⟩ := Option.map_eq_some_iff.mp hstep
      exact ModelRuntime.inSync_reconfigure _ _ _
  | predicts hpredicts =>
      exact inSync_of_sameModels hserving hsync hpredicts.sameModels hpredicts.model

structure Unpoisoned (prims : Primitives) (s : Application) : Prop where
  tracked : Tracked Fits (ForPair prims) s
  prepared : s.runtime.Prepared
  admits : s.Admits
  inSync : s.runtime.InSync
  keyed : ∀ w ∈ s.redis, w.key = ScoreCache.key prims w.settings w.query w.document

theorem Initial.unpoisoned {settings : Settings} (h : Initial settings (Truthful prims) s) :
    Unpoisoned prims s where
  tracked := h.tracked fun _ hw => ⟨hw.source, hw.pair⟩
  prepared := h.prepared
  admits := h.admits
  inSync := by
    obtain ⟨device, hbegin⟩ := h.runtime
    exact inSync_of_loadBegin hbegin
  keyed w hw := (h.redis w hw).key

theorem Unpoisoned.step {a : Action} (h : Unpoisoned prims s) (hkeeps : KeepsTruth prims s a)
    (hstep : s.step prims a = some s') : Unpoisoned prims s' where
  tracked := h.tracked.step
    (fun ⟨id, hflight⟩ =>
      fits_activeSource h.prepared h.tracked.serving h.inSync (h.admits id hflight))
    (fun b _ => answersPairs_forPair prims s.runtime b) hkeeps.undisturbed hstep
  prepared := prepared_step h.prepared hkeeps.named hstep
  admits := h.admits.step hstep
  inSync := step_inSync h.tracked.serving h.inSync hkeeps hstep
  keyed w hw := ((step_effect hstep).redis w hw).elim (h.keyed w) fun h => h.2.2

theorem Unpoisoned.truthful (h : Unpoisoned prims s) {w : ScoreCache.Write Score}
    (hw : w ∈ s.redis) : Truthful prims w :=
  ⟨h.keyed w hw, (h.tracked.redis w hw).1, (h.tracked.redis w hw).2⟩

/-! ### Hits -/

theorem Truthful.hit {w : ScoreCache.Write Score} (h : Truthful prims w) {asked : Settings}
    {pair : Pair} (hkey : w.key = ScoreCache.key prims asked pair.1 pair.2)
    (hdistinct : ScoreCache.Distinct prims asked pair) :
    Fits asked w.score.source ∧ ForPair prims pair w.score := by
  obtain ⟨hsame, hquery, hdocument⟩ := hdistinct _ _ _ (h.key.symm.trans hkey)
  obtain ⟨model, hmodel, hname, hrevision, hlength⟩ := h.source
  obtain ⟨query, document, hpair, hquery', hdocument'⟩ := h.pair
  refine ⟨⟨model, hmodel, hname.trans hsame.model, hrevision.trans hsame.modelRevision, ?_⟩,
    ⟨query, document, hpair, hquery'.trans hquery, hdocument'.trans hdocument⟩⟩
  rw [hlength, hsame.maxLength]

/-- **No cache poisoning** in the runs whose changes of the configuration keep the truth. -/
theorem no_cache_poisoning {settings : Settings}
    (hreach : Reaches (step prims) (Initial settings (Truthful prims)) (KeepsTruth prims) s) :
    (∀ w ∈ s.redis, Truthful prims w) ∧ HitsTruthful prims s := by
  have hunpoisoned : Unpoisoned prims s :=
    hreach.invariant (fun _ h => Initial.unpoisoned h) fun _ _ _ h hkeeps hstep =>
      h.step hkeeps hstep
  refine ⟨fun w hw => hunpoisoned.truthful hw, ?_⟩
  intro id asked values i score hphase hanswer hi hdistinct
  obtain ⟨-, w, hw, rfl, hkey⟩ := exists_of_hit hphase hanswer hi
  exact (hunpoisoned.truthful hw).hit hkey hdistinct

def cachedRun : List Action :=
  [.rerank oneDocument, .lookedUp 0 (some [none])] ++ prediction ++
    [.predicted 0, .written 0, .rerank oneDocument]

theorem no_cache_poisoning_after_activation : ∃ s w, s.redis = [w] ∧
    w.settings.modelRevision = List.replicate 40 'b' ∧
    (s.lookedUp asciiPrimitives 1 (some [some w.score])).isSome ∧
    (∀ w ∈ s.redis, Truthful asciiPrimitives w) ∧ HitsTruthful asciiPrimitives s := by
  have hstart : Reaches (step asciiPrimitives) (Initial smallSettings (Truthful asciiPrimitives))
      (KeepsTruth asciiPrimitives) smallApplication := .start (initial_smallApplication _)
  have hquiet : ∀ actions : List Action, actions.all Action.quiet → ∀ a ∈ actions,
      ∀ t : Application, KeepsTruth asciiPrimitives t a := fun actions hall a ha t =>
    keepsTruth_of_quiet (List.all_eq_true.mp hall a ha)
  -- The candidate is checked while the initial load still awaits its model.
  have hchecked := hstart.extend (hquiet (activation.take 1) rfl) rfl
  have harrived := hchecked.next (a := .runtime (.loadReturned (.ok ModelRuntime.loadedModel)))
    (keepsTruth_of_idle (by intro _; trivial)
      (keepsNames_of_arrival fun _ h => by cases h; rfl) (by rfl)) rfl
  have hloaded := harrived.extend (hquiet loading.tail rfl) rfl
  have hlocked := hloaded.next (a := .runtime .lockAcquired)
    (keepsTruth_of_idle (by intro _; trivial) (keepsNames_of_lock fun h => by cases h)
      (by trivial)) rfl
  have hqueued := hlocked.extend (hquiet (activation.tail.tail.take 3) rfl) rfl
  have hactivated := hqueued.next (a := .runtime .lockAcquired)
    (keepsTruth_of_idle (by intro _; trivial) (keepsNames_of_lock fun h => by cases h)
      (by intro m hm _; cases hm; rfl)) rfl
  have hcached := hactivated.extend (hquiet cachedRun rfl) rfl
  exact ⟨_, _, rfl, rfl, rfl, no_cache_poisoning hcached⟩

/-- The model is exchanged while the runtime computes the score. -/
def poisonedRun : List Action :=
  loading ++ [.rerank oneDocument, .lookedUp 0 (some [none])] ++ prediction.take 2 ++ activation ++
    prediction.drop 2 ++ [.predicted 0]

theorem entry_of_another_model : ¬∀ settings s,
    Reachable (step asciiPrimitives) (Initial settings (Truthful asciiPrimitives)) s →
    ∀ w ∈ s.redis, Truthful asciiPrimitives w := by
  intro hclaim
  obtain ⟨s, hrun, w, hw, hkey, hcomputed⟩ : ∃ s,
      run (step asciiPrimitives) smallApplication poisonedRun = some s ∧
      ∃ w ∈ s.redis, w.settings.modelRevision = List.replicate 40 'b' ∧
        w.score.source.map Source.revision = some (List.replicate 40 'a') :=
    ⟨_, rfl, _, List.mem_cons_self, rfl, rfl⟩
  have hreach := reachable_of_run (initial_smallApplication (Truthful asciiPrimitives)) hrun
  obtain ⟨model, hmodel, -, hrevision, -⟩ := (hclaim _ _ hreach w hw).source
  rw [hmodel] at hcomputed
  rw [hkey, Option.some.inj hcomputed] at hrevision
  revert hrevision
  decide

end Application

end RerankerService
