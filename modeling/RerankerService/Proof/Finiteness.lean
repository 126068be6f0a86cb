import Mathlib.Data.List.ReduceOption
import RerankerService.Backend.Scores
import RerankerService.Proof.Course

/-!
# Which scores are finite

Three of the four backends check what their model returns. The fourth hands over whatever converts
to floats, so that a right number of values reaches the cache and the ranking unchecked.
-/

namespace RerankerService

def FiniteFor (pairs : List Pair) (values : List Value) : Prop :=
  values.length = pairs.length ∧ ∀ value ∈ values, value.isFinite = true

variable {mock : MockPrimitives} {outputIndex : Option Nat}
  {returned : Except Error ModelOutput} {pairs : List Pair} {values : List Value}

theorem finiteFor_map (f : Pair → Rat) (pairs : List Pair) :
    FiniteFor pairs (pairs.map fun pair => .finite (f pair)) := by
  refine ⟨List.length_map _, fun value hvalue => ?_⟩
  obtain ⟨pair, -, rfl⟩ := List.mem_map.mp hvalue
  rfl

theorem length_of_mapM_float {cells : List Cell} (h : cells.mapM Cell.float = .ok values) :
    values.length = cells.length :=
  (Outcome.mapM_eq_ok.mp h).length_eq.symm

namespace OnnxPairwiseBackend

theorem length_extractScores {pairCount : Nat} {output : NdArray}
    (h : extractScores outputIndex pairCount output = .ok values) : values.length = pairCount := by
  obtain ⟨selected, -, h⟩ := Outcome.bind_eq_ok.mp h
  split at h
  · split at h
    · rename_i cells hlength
      rw [length_of_mapM_float h, hlength]
    · cases h
  · cases h

theorem finiteFor_rerank (h : rerank outputIndex returned pairs = .ok values) :
    FiniteFor pairs values := by
  unfold rerank at h
  split at h
  · rename_i hempty
    obtain rfl := Except.ok.inj h
    rw [hempty]
    exact ⟨rfl, fun value hvalue => by cases hvalue⟩
  obtain ⟨output, -, h⟩ := Outcome.bind_eq_ok.mp h
  unfold scoresFromOutputs at h
  split at h
  · obtain ⟨scores, hscores, h⟩ := Outcome.bind_eq_ok.mp h
    split at h
    · rename_i hfinite
      obtain rfl := Except.ok.inj h
      exact ⟨length_extractScores hscores, List.all_eq_true.mp hfinite⟩
    · cases h
  · cases h

end OnnxPairwiseBackend

theorem AlibabaGteBackend.finiteFor_rerank {mockModel : Bool}
    (h : rerank mock mockModel returned pairs = .ok values) : FiniteFor pairs values := by
  unfold rerank at h
  split at h
  · obtain rfl := Except.ok.inj h
    exact finiteFor_map _ pairs
  obtain ⟨output, -, h⟩ := Outcome.bind_eq_ok.mp h
  dsimp only at h
  split at h
  · cases h
  · rename_i hchecked
    obtain rfl := Except.ok.inj h
    rw [not_or, not_not, Bool.not_eq_false] at hchecked
    exact ⟨hchecked.1, List.all_eq_true.mp hchecked.2⟩

namespace JinaListwiseBackend

/-- The scores placed so far are finite, and their places stay. -/
def Placed (documents : Nat) (scores : List (Option Value)) : Prop :=
  scores.length = documents ∧ ∀ value, some value ∈ scores → value.isFinite = true

theorem Placed.place {documents : Nat} {scores scores' : List (Option Value)} {result : JinaResult}
    (h : Placed documents scores) (hplace : place scores result = .ok scores') :
    Placed documents scores' := by
  unfold JinaListwiseBackend.place at hplace
  split at hplace
  · cases hplace
  split at hplace
  · cases hplace
  obtain ⟨score, -, hplace⟩ := Outcome.bind_eq_ok.mp hplace
  split at hplace
  · rename_i hfinite
    obtain rfl := Except.ok.inj hplace
    refine ⟨List.length_set.trans h.1, fun value hvalue => ?_⟩
    rcases List.mem_or_eq_of_mem_set hvalue with hold | hnew
    · exact h.2 value hold
    · rw [Option.some.inj hnew]
      exact hfinite
  · cases hplace

theorem Placed.foldlM {documents : Nat} {ranked : List JinaResult}
    {scores scores' : List (Option Value)} (h : Placed documents scores)
    (hfold : ranked.foldlM JinaListwiseBackend.place scores = .ok scores') :
    Placed documents scores' := by
  induction ranked generalizing scores with
  | nil =>
      obtain rfl := Except.ok.inj hfold
      exact h
  | cons result rest ih =>
      obtain ⟨next, hnext, hrest⟩ := Outcome.bind_eq_ok.mp hfold
      exact ih (h.place hnext) hrest

theorem finiteFor_collect {ranked : List JinaResult}
    (h : collect pairs.length ranked = .ok values) : FiniteFor pairs values := by
  obtain ⟨scores, hscores, h⟩ := Outcome.bind_eq_ok.mp h
  have hplaced : Placed pairs.length scores := by
    apply Placed.foldlM _ hscores
    refine ⟨List.length_replicate, fun value hvalue => ?_⟩
    cases List.eq_of_mem_replicate hvalue
  split at h
  · cases h
  · rename_i hfull
    obtain rfl := Except.ok.inj h
    refine ⟨?_, fun value hvalue => hplaced.2 value (List.reduceOption_mem_iff.mp hvalue)⟩
    have hnone : (scores.filter Option.isNone).length = 0 := by
      rw [List.length_eq_zero_iff, List.filter_eq_nil_iff]
      exact fun score hscore hmissing => hfull (List.any_eq_true.mpr ⟨score, hscore, hmissing⟩)
    have hlength := List.length_eq_reduceOption_length_add_filter_none (l := scores)
    have hplaces := hplaced.1
    omega

theorem finiteFor_rerank {settings : Settings}
    (h : rerank mock settings returned pairs = .ok values) : FiniteFor pairs values := by
  unfold rerank at h
  split at h
  · obtain rfl := Except.ok.inj h
    exact ⟨rfl, fun value hvalue => by cases hvalue⟩
  split at h
  · cases h
  split at h
  · cases h
  split at h
  · obtain rfl := Except.ok.inj h
    exact finiteFor_map _ _
  obtain ⟨output, -, h⟩ := Outcome.bind_eq_ok.mp h
  exact finiteFor_collect h

end JinaListwiseBackend

/-! ### The backend that checks nothing -/

/-- The model of the legacy backend returns the right number of values, not all of them finite. -/
def Unchecked (settings : Settings) (returned : Except Error ModelOutput) (pairs : List Pair) :
    Prop :=
  settings.backend = .legacyCrossEncoder ∧ settings.mockModel = false ∧
    ∃ output cells, returned = .ok output ∧ output.predictions = some cells ∧
      cells.length = pairs.length ∧ (∀ cell ∈ cells, ∃ value, cell = .number value) ∧
      ∃ value, Cell.number value ∈ cells ∧ value.isFinite = false

theorem forall₂_float {cells : List Cell} (h : cells.mapM Cell.float = .ok values) :
    cells = values.map .number := by
  have hcells := Outcome.mapM_eq_ok.mp h
  rw [← List.forall₂_eq_eq_eq, List.forall₂_map_right_iff]
  refine hcells.imp fun cell value hfloat => ?_
  cases cell with
  | number value' => rw [Except.ok.inj hfloat]
  | other => cases hfloat

theorem mapM_float (values : List Value) :
    (values.map Cell.number).mapM Cell.float = .ok values := by
  rw [Outcome.mapM_eq_ok, List.forall₂_map_left_iff]
  exact List.forall₂_same.mpr fun _ _ => rfl

theorem finiteFor_of_not_unchecked {settings : Settings}
    (h : settings.rerank mock outputIndex returned pairs = .ok values)
    (hlength : values.length = pairs.length) (hchecked : ¬Unchecked settings returned pairs) :
    FiniteFor pairs values := by
  unfold Settings.rerank at h
  split at h
  · exact OnnxPairwiseBackend.finiteFor_rerank h
  · rename_i hbackend
    unfold LegacyCrossEncoderBackend.rerank at h
    split at h
    · obtain rfl := Except.ok.inj h
      exact finiteFor_map _ pairs
    · rename_i hmock
      obtain ⟨output, houtput, h⟩ := Outcome.bind_eq_ok.mp h
      split at h
      · rename_i cells hcells
        have hnumbers := forall₂_float h
        refine ⟨hlength, fun value hvalue => ?_⟩
        by_contra hinfinite
        refine hchecked ⟨hbackend, Bool.eq_false_iff.mpr hmock, output, cells, houtput, hcells, ?_,
          fun cell hcell => ?_, value, ?_, Bool.eq_false_iff.mpr hinfinite⟩
        · rw [← length_of_mapM_float h, hlength]
        · rw [hnumbers] at hcell
          obtain ⟨value', -, rfl⟩ := List.mem_map.mp hcell
          exact ⟨value', rfl⟩
        · rw [hnumbers]
          exact List.mem_map_of_mem hvalue
      · cases h
  · exact AlibabaGteBackend.finiteFor_rerank h
  · exact JinaListwiseBackend.finiteFor_rerank h

/-- The unchecked values come through, one for each pair. -/
theorem rerank_of_unchecked (mock : MockPrimitives) (outputIndex : Option Nat) {settings : Settings}
    (h : Unchecked settings returned pairs) :
    ∃ values, settings.rerank mock outputIndex returned pairs = .ok values ∧
      values.length = pairs.length ∧ ∃ value ∈ values, value.isFinite = false := by
  obtain ⟨hbackend, hmock, output, cells, rfl, hcells, hlength, hnumbers, value, hvalue, hinfinite⟩ := h
  obtain ⟨values, rfl⟩ : ∃ values : List Value, cells = values.map .number := by
    clear hcells hlength hvalue
    induction cells with
    | nil => exact ⟨[], rfl⟩
    | cons cell rest ih =>
        obtain ⟨first, rfl⟩ := hnumbers cell List.mem_cons_self
        obtain ⟨others, rfl⟩ := ih fun c hc => hnumbers c (List.mem_cons_of_mem _ hc)
        exact ⟨first :: others, rfl⟩
  refine ⟨values, ?_, by rwa [List.length_map] at hlength, value, ?_, hinfinite⟩
  · simp only [Settings.rerank, hbackend, LegacyCrossEncoderBackend.rerank, hmock]
    exact Outcome.bind_eq_ok.mpr ⟨output, rfl, by rw [hcells]; exact mapM_float values⟩
  · obtain ⟨value', hvalue', heq⟩ := List.mem_map.mp hvalue
    exact Cell.number.inj heq ▸ hvalue'

/-! ### Every run -/

/-- The answers of the executions are those of the backend, and none comes through unchecked. -/
def Checked (mock : MockPrimitives) (s : Application) (a : Application.Action) : Prop :=
  ∀ predict execution, a = .runtime (.finish predict execution) →
    ∃ outputIndex returned,
      execution.result =
        s.settings.rerank mock outputIndex returned (s.runtime.calls predict).pairs ∧
      ¬Unchecked s.settings returned (s.runtime.calls predict).pairs

def FinitePair (_pair : Pair) (score : Score) : Prop :=
  score.value.isFinite = true

structure History.Finite (history : History) : Prop where
  cached : ∀ score, some score ∈ history.cached.getD [] → score.value.isFinite = true
  inferred : ∀ score ∈ history.inferred.getD [], score.value.isFinite = true

open Application

variable {prims : Primitives} {s s' : Application} {id : CallId}

theorem answersPairs_finite {a : ModelRuntime.Action} (h : Checked mock s (.runtime a)) :
    AnswersPairs FinitePair s.runtime a := by
  rintro predict execution values source rfl hresult hlength
  obtain ⟨outputIndex, returned, hrerank, hchecked⟩ := h predict execution rfl
  have hfinite := finiteFor_of_not_unchecked (hrerank.symm.trans hresult) hlength hchecked
  refine List.forall₂_iff_get.mpr ⟨?_, fun i hpair hscore => ?_⟩
  · rw [length_tagScores, hlength]
  · rw [length_tagScores] at hscore
    simp only [FinitePair, tagScores, List.get_eq_getElem, List.getElem_mapIdx]
    exact hfinite.2 _ (List.getElem_mem hscore)

theorem sound_of_reply {M : Settings → Option Source → Prop} {P : Pair → Score → Prop}
    (h : Tracked M P s) {scores : List (Option Score)} {values : List Score}
    (hphase : (∃ predict, (s.calls id).phase = .direct scores predict) ∨
      ∃ job, (s.calls id).phase = .batched scores job)
    (hreply : s.reply id = some (.scores values)) :
    (Reply.scores values).Sound (Good M P s.settings)
      ((s.calls id).missingPairs (RerankService.missing scores)) := by
  have hcall := h.calls id
  unfold CallGood at hcall
  rcases hphase with ⟨predict, hphase⟩ | ⟨job, hphase⟩
  · simp only [hphase] at hcall
    simp only [Application.reply, hphase, Option.map_eq_some_iff] at hreply
    obtain ⟨⟨r, reply⟩, hresume, rfl⟩ := hreply
    exact hcall.2.reply hresume hcall.1.2
  · simp only [hphase] at hcall
    simp only [Application.reply, hphase, jobReply] at hreply
    split at hreply
    · cases hreply
    · rename_i values' hresult
      obtain rfl := Reply.scores.inj (Option.some.inj hreply)
      have hscored := (hcall.2 (by rw [hresult]; rfl)).result _ hresult
      rw [hcall.1.2] at hscored
      intro checked hcheck
      obtain ⟨rfl, -⟩ := length_of_check hcheck
      exact hscored
    · cases hreply
    · cases hreply

theorem brings_finite (h : Tracked (fun _ _ => True) FinitePair s) (id : CallId)
    (a : Application.Action) : Course.Brings prims History.Finite id s a where
  fresh settings := ⟨fun score hscore => (by cases hscore), fun score hscore => (by cases hscore)⟩
  later history s hfinite := ⟨hfinite.cached, hfinite.inferred⟩
  cached history answer asked _ hphase hanswer hfinite := by
    refine ⟨fun score hscore => ?_, hfinite.inferred⟩
    simp only [Option.getD_some, ScoreCache.getMany] at hscore
    split at hscore
    · cases answer with
      | none => cases List.eq_of_mem_replicate hscore
      | some values =>
          obtain ⟨i, hi⟩ := List.mem_iff_getElem?.mp hscore
          obtain ⟨-, w, hw, rfl, -⟩ := exists_of_hit hphase hanswer hi
          exact (h.redis w hw).2
    · cases List.eq_of_mem_replicate hscore
  inferred history scores values _ hphase hreply hlength hfinite := by
    refine ⟨hfinite.cached, fun score hscore => ?_⟩
    have hchecked : (Reply.scores values).check
        ((s.calls id).missingPairs (RerankService.missing scores)) = .ok values := by
      rw [Reply.check, RerankCall.missingPairs, List.length_map, if_pos hlength]
    have hsound := sound_of_reply h hphase hreply values hchecked
    obtain ⟨pair, -, hpair⟩ := Outcome.forall₂_mem_right hsound hscore
    exact hpair.2

structure FiniteRun (prims : Primitives) (s : Application) : Prop where
  tracked : Tracked (fun _ _ => True) FinitePair s
  followed : ∀ id, Course.Followed prims History.Finite id s

theorem Application.Initial.finiteRun {settings : Settings}
    (h : Initial settings (fun w => w.score.value.isFinite = true) s) : FiniteRun prims s where
  tracked := h.tracked fun _ hw => ⟨trivial, hw⟩
  followed id := Course.followed_of_created
    (fun _ => ⟨fun score hscore => (by cases hscore), fun score hscore => (by cases hscore)⟩)
    (h.calls id)

theorem FiniteRun.step {a : Action} (h : FiniteRun prims s) (hchecked : Checked mock s a)
    (hstep : s.step prims a = some s') : FiniteRun prims s' where
  tracked := by
    refine h.tracked.step (fun _ => trivial) (fun b ha => ?_) (fun _ _ _ _ _ => trivial) hstep
    subst ha
    exact answersPairs_finite hchecked
  followed id := (h.followed id).step (brings_finite h.tracked id a) hstep

theorem finite_of_ownScore {history : History} (h : history.Finite) {call : RerankCall} {i : Nat}
    {score : Score} (hown : RerankService.ownScore (history.known call)
      (history.inferred.getD []) i = some score) : score.value.isFinite = true := by
  rcases RerankService.mem_of_ownScore hown with hmem | hmem
  · apply h.cached score
    cases hcached : history.cached with
    | none =>
        rw [History.known, hcached] at hmem
        cases List.eq_of_mem_replicate hmem
    | some cached => rwa [History.known, hcached] at hmem
  · exact h.inferred score hmem

theorem ne_nan_of_isFinite {value : Value} (h : value.isFinite = true) : value ≠ .nan := by
  rintro rfl
  cases h

theorem finite_of_returned {history : History} (hcourse : Course prims id history s)
    (hfinite : history.Finite) {response : RerankResponse}
    (hphase : (s.calls id).phase = .returned response) :
    (∀ i < (s.calls id).request.documents.length, ∃ score,
      RerankService.ownScore (history.known (s.calls id)) (history.inferred.getD []) i =
        some score ∧ score.value.isFinite = true) ∧
    ∀ result ∈ response.results, result.score.value.isFinite = true := by
  have hstage := hcourse.stage
  simp only [Course.Stage, hphase] at hstage
  obtain ⟨haccepted, misses, scores, normalizedBy, hmerged, hresults, -⟩ := hstage
  have hplaces : (history.inferred.getD []).length =
      (RerankService.missing (history.known (s.calls id))).length :=
    hmerged.places ▸ hmerged.length
  refine ⟨fun i hi => ?_, fun result hresult => ?_⟩
  · rw [← haccepted.documents, List.length_map, ← haccepted.length] at hi
    have hown := RerankService.ownScore_eq hplaces hi
    exact ⟨_, hown, finite_of_ownScore hfinite hown⟩
  · rw [hresults, hmerged.merged, hmerged.places] at hresult
    have hranked := RerankService.rankedResults_topRanked history.settings
      normalizedBy haccepted.documents haccepted.length hplaces
      fun i score hown => ne_nan_of_isFinite (finite_of_ownScore hfinite hown)
    obtain ⟨position, hposition⟩ := List.mem_iff_getElem?.mp hresult
    obtain ⟨i, document, -, -, hown, -⟩ := hranked.own position result hposition
    exact finite_of_ownScore hfinite hown

/-- **What a prediction hands over is finite exactly when it is not unchecked**; in a run without
unchecked answers nothing else is cached or ranked. -/
theorem finite_unless_unchecked (prims : Primitives) (mock : MockPrimitives) :
    (∀ (settings : Settings) outputIndex returned pairs source,
      (∀ scores, (({ result := settings.rerank mock outputIndex returned pairs } :
          Execution).reply source pairs).check pairs = .ok scores →
        ∀ score ∈ scores, score.value.isFinite = true) ↔ ¬Unchecked settings returned pairs) ∧
    ∀ settings s, Transition.Reaches (Application.step prims)
        (Initial settings fun w => w.score.value.isFinite = true) (Checked mock) s →
      (∀ w ∈ s.redis, w.score.value.isFinite = true) ∧
      ∀ id response, (s.calls id).phase = .returned response → ∃ history,
        Course prims id history s ∧
        (∀ i < (s.calls id).request.documents.length, ∃ score,
          RerankService.ownScore (history.known (s.calls id)) (history.inferred.getD []) i =
            some score ∧ score.value.isFinite = true) ∧
        ∀ result ∈ response.results, result.score.value.isFinite = true := by
  refine ⟨fun settings outputIndex returned pairs source => ⟨fun hall hunchecked => ?_,
    fun hchecked scores hscores score hscore => ?_⟩, fun settings s hreach => ?_⟩
  · obtain ⟨values, hrerank, hlength, value, hvalue, hinfinite⟩ :=
      rerank_of_unchecked mock outputIndex hunchecked
    obtain ⟨i, hi, rfl⟩ := List.getElem_of_mem hvalue
    have hcheck : (({ result := settings.rerank mock outputIndex returned pairs } :
        Execution).reply source pairs).check pairs = .ok (tagScores source pairs values) := by
      rw [hrerank]
      simp only [Execution.reply, Reply.check, length_tagScores, hlength, ↓reduceIte]
    have hmem : ({ value := values[i], source, pair := pairs[i]? } : Score) ∈
        tagScores source pairs values := List.mem_mapIdx.mpr ⟨i, hi, rfl⟩
    have hfinite := hall _ hcheck _ hmem
    rw [hinfinite] at hfinite
    cases hfinite
  · cases hrerank : settings.rerank mock outputIndex returned pairs with
    | error error =>
        rw [hrerank] at hscores
        cases hscores
    | ok values =>
        rw [hrerank] at hscores
        obtain ⟨rfl, hlength⟩ := length_of_check hscores
        rw [length_tagScores] at hlength
        obtain ⟨i, hi, rfl⟩ := List.mem_mapIdx.mp hscore
        exact (finiteFor_of_not_unchecked hrerank hlength hchecked).2 _ (List.getElem_mem hi)
  · have hrun : FiniteRun prims s := hreach.invariant (I := FiniteRun prims)
      (fun _ h => h.finiteRun) fun _ _ _ h hchecked hstep => h.step hchecked hstep
    refine ⟨fun w hw => (hrun.tracked.redis w hw).2, fun id response hphase => ?_⟩
    rcases hrun.followed id with ⟨history, hcourse, hfinite⟩ | ⟨error, hraised⟩
    · exact ⟨history, hcourse, finite_of_returned hcourse hfinite hphase⟩
    · rw [hphase] at hraised
      cases hraised

theorem checked_of_all (actions : List Action)
    (h : (actions.all fun a => match a with | .runtime (.finish _ _) => false | _ => true) = true) :
    ∀ a ∈ actions, ∀ s : Application, Checked mock s a := by
  rintro a ha s predict execution rfl
  cases List.all_eq_true.mp h _ ha

theorem checked_of_finish {s : Application} (predict : PredictId) (execution : Execution)
    {outputIndex : Option Nat} {returned : Except Error ModelOutput}
    (hresult : execution.result =
      s.settings.rerank mock outputIndex returned (s.runtime.calls predict).pairs)
    (hbackend : s.settings.backend ≠ .legacyCrossEncoder) :
    Checked mock s (.runtime (.finish predict execution)) := by
  rintro _ _ ⟨⟩
  exact ⟨outputIndex, returned, hresult, fun h => hbackend h.1⟩

/-- Words are single characters, and arithmetic is exact. -/
def exactMock : MockPrimitives where
  words text := text.map fun c => [c]
  round quotient := quotient

theorem finite_unless_unchecked_direct : ∃ (s : Application) (response : RerankResponse),
    (s.calls 0).phase = .returned response ∧
      (∀ w ∈ s.redis, w.score.value.isFinite = true) ∧
      ∀ result ∈ response.results, result.score.value.isFinite = true := by
  have hstart : Transition.Reaches (Application.step ScoreCache.asciiPrimitives)
      (Initial smallSettings fun w => w.score.value.isFinite = true) (Checked exactMock)
      smallApplication := .start (initial_smallApplication _)
  have hbegun := hstart.extend (checked_of_all (loading ++ [.rerank oneDocument, .lookedUp 0 none,
    .runtime (.acquire 0), .runtime (.begin 0)]) rfl) rfl
  have hanswer : OnnxPairwiseBackend.rerank none
      (.ok { outputs := [.vector [.number (.finite 1)]] }) [(['q'], ['d'])] = .ok [.finite 1] := rfl
  have hfinished := hbegun.next
    (checked_of_finish 0 { result := .ok [.finite 1] } hanswer.symm (by decide)) rfl
  have hwritten := hfinished.extend
    (checked_of_all [.predicted 0, .written 0] rfl) rfl
  obtain ⟨s, hreach, response, hphase⟩ : ∃ s : Application,
      Transition.Reaches (Application.step ScoreCache.asciiPrimitives)
        (Initial smallSettings fun w => w.score.value.isFinite = true) (Checked exactMock) s ∧
      ∃ response, (s.calls 0).phase = .returned response := ⟨_, hwritten, _, rfl⟩
  obtain ⟨hredis, hresponses⟩ :=
    (finite_unless_unchecked ScoreCache.asciiPrimitives exactMock).2 smallSettings s hreach
  obtain ⟨-, -, -, hresults⟩ := hresponses 0 response hphase
  exact ⟨s, response, hphase, hredis, hresults⟩

/-! ### A run in which an infinity is cached and returned -/

def legacySettings : Settings :=
  { smallSettings with backend := .legacyCrossEncoder }

def legacyApplication : Application :=
  started legacySettings "cpu".toList

/-- The model answers the only pair with this number. -/
def answeredWith (value : Value) : List Action :=
  loading ++ [.rerank oneDocument, .lookedUp 0 none, .runtime (.acquire 0), .runtime (.begin 0),
    .runtime (.finish 0 { result := .ok [value] }), .predicted 0, .written 0]

/-- The sigmoid of the infinity is one, and the call returns its response. -/
theorem infinity_cached_and_returned :
    legacySettings.rerank exactMock none (.ok { predictions := some [.number .posInf] })
      [(['q'], ['d'])] = .ok [.posInf] ∧
    ∃ (s : Application) (response : RerankResponse),
      Transition.Reachable (Application.step ScoreCache.asciiPrimitives)
        (Initial legacySettings fun w => w.score.value.isFinite = true) s ∧
      (s.runtime.calls 0).pairs = [(['q'], ['d'])] ∧
      (s.calls 0).phase = .returned response ∧
      s.redis.map (fun w => w.score.value) = [.posInf] ∧
      response.results.map (fun result => result.score.value) = [.posInf] := by
  refine ⟨rfl, ?_⟩
  obtain ⟨s, response, hrun, hpairs, hphase, hredis, hresults⟩ :
      ∃ (s : Application) (response : RerankResponse),
        Transition.run (Application.step ScoreCache.asciiPrimitives) legacyApplication
          (answeredWith .posInf) = some s ∧
        (s.runtime.calls 0).pairs = [(['q'], ['d'])] ∧ (s.calls 0).phase = .returned response ∧
        s.redis.map (fun w => w.score.value) = [.posInf] ∧
        response.results.map (fun result => result.score.value) = [.posInf] :=
    ⟨_, _, rfl, rfl, rfl, rfl, rfl⟩
  have hconfigured : Configured legacySettings := ⟨by decide, by decide, by decide, by decide⟩
  exact ⟨s, response, Transition.reachable_of_run (initial_started hconfigured _ _) hrun, hpairs,
    hphase, hredis, hresults⟩

/-- A NaN is cached too, but the response that holds it is refused. -/
example : ∃ s : Application,
    Transition.run (Application.step ScoreCache.asciiPrimitives) legacyApplication
      (answeredWith .nan) = some s ∧
    s.redis.map (fun w => w.score.value) = [.nan] ∧
    (s.calls 0).phase = .raised invalidResult :=
  ⟨_, rfl, rfl, rfl⟩

end RerankerService
