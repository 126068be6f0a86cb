import Mathlib.Data.List.Perm.Basic
import Mathlib.Data.Set.List
import RerankerService.Proof.Finiteness

/-!
# Listwise results go back to input order

The loop over the results fills an array of empty places. It accepts exactly the results that name
an empty place and carry a finite number, so an accepted list is a list of entries with distinct
places; the completeness check then leaves only permutations of all places.
-/

namespace RerankerService.JinaListwiseBackend

/-- The result in which the model gives `entry.2` to the document number `entry.1`. -/
def answer (entry : Nat × Value) : JinaResult where
  index := some entry.1
  relevanceScore := .number entry.2

variable {scores scores' : List (Option Value)} {result : JinaResult} {ranked : List JinaResult}
  {entries : List (Nat × Value)} {documents : Nat} {values : List Value}

theorem place_eq_ok : place scores result = .ok scores' ↔
    ∃ entry, result = answer entry ∧ scores[entry.1]? = some none ∧ entry.2.isFinite = true ∧
      scores' = scores.set entry.1 (some entry.2) := by
  constructor
  · intro h
    unfold place at h
    split at h
    · cases h
    · rename_i index hindex
      split at h
      · cases h
      · rename_i hplace
        rw [not_or, not_lt, not_not] at hplace
        obtain ⟨score, hscore, hset⟩ := Outcome.bind_eq_ok.mp h
        split at hset
        · rename_i hfinite
          refine ⟨(index.toNat, score), ?_, hplace.2, hfinite, (Except.ok.inj hset).symm⟩
          cases result with
          | mk resultIndex relevanceScore =>
              cases relevanceScore with
              | other => cases hscore
              | number value =>
                  cases hindex
                  cases hscore
                  rw [answer, Int.toNat_of_nonneg hplace.1]
        · cases hset
  · rintro ⟨entry, rfl, hempty, hfinite, rfl⟩
    have hopen : ¬((entry.1 : Int) < 0 ∨ scores[(entry.1 : Int).toNat]? ≠ some none) := by
      rw [Int.toNat_natCast, hempty, not_or]
      exact ⟨Int.not_lt.mpr (Int.natCast_nonneg entry.1), fun hne => hne rfl⟩
    refine (if_neg hopen).trans (Outcome.bind_eq_ok.mpr ⟨entry.2, rfl, ?_⟩)
    exact if_pos hfinite

/-- The array with the scores of `entries` in their places. -/
def fill (scores : List (Option Value)) (entries : List (Nat × Value)) : List (Option Value) :=
  entries.foldl (fun scores entry => scores.set entry.1 (some entry.2)) scores

theorem length_fill (scores : List (Option Value)) (entries : List (Nat × Value)) :
    (fill scores entries).length = scores.length := by
  induction entries generalizing scores with
  | nil => rfl
  | cons entry rest ih => exact (ih _).trans List.length_set

theorem getElem?_fill_of_notMem {i : Nat} (hi : i ∉ entries.map Prod.fst)
    (scores : List (Option Value)) : (fill scores entries)[i]? = scores[i]? := by
  induction entries generalizing scores with
  | nil => rfl
  | cons entry rest ih =>
      rw [List.map_cons, List.mem_cons, not_or] at hi
      exact (ih hi.2 _).trans (List.getElem?_set_ne (Ne.symm hi.1))

theorem getElem?_fill_of_mem (hnodup : (entries.map Prod.fst).Nodup) {entry : Nat × Value}
    (hentry : entry ∈ entries) (hlt : entry.1 < scores.length) :
    (fill scores entries)[entry.1]? = some (some entry.2) := by
  induction entries generalizing scores with
  | nil => cases hentry
  | cons head rest ih =>
      rw [List.map_cons, List.nodup_cons] at hnodup
      rcases List.mem_cons.mp hentry with rfl | hrest
      · exact (getElem?_fill_of_notMem hnodup.1 _).trans (List.getElem?_set_self hlt)
      · apply ih hnodup.2 hrest
        rwa [List.length_set]

/-- **The loop accepts exactly the entries with distinct empty places and finite scores.** -/
theorem foldlM_place_eq_ok : ranked.foldlM place scores = .ok scores' ↔
    ∃ entries, ranked = entries.map answer ∧ (entries.map Prod.fst).Nodup ∧
      (∀ entry ∈ entries, scores[entry.1]? = some none ∧ entry.2.isFinite = true) ∧
      scores' = fill scores entries := by
  induction ranked generalizing scores with
  | nil =>
      constructor
      · intro h
        exact ⟨[], rfl, List.nodup_nil, by simp, (Except.ok.inj h).symm⟩
      · rintro ⟨entries, hentries, -, -, rfl⟩
        rw [List.map_eq_nil_iff.mp hentries.symm]
        rfl
  | cons result rest ih =>
      rw [List.foldlM_cons, Outcome.bind_eq_ok]
      constructor
      · rintro ⟨next, hnext, hrest⟩
        obtain ⟨entry, rfl, hempty, hfinite, rfl⟩ := place_eq_ok.mp hnext
        obtain ⟨others, rfl, hnodup, hopen, rfl⟩ := ih.mp hrest
        have hplaces : ∀ other ∈ others, other.1 ≠ entry.1 ∧ scores[other.1]? = some none := by
          intro other hother
          have hset := (hopen other hother).1
          by_cases heq : other.1 = entry.1
          · rw [heq, List.getElem?_set_self (List.getElem?_eq_some_iff.mp hempty).1] at hset
            cases hset
          · rw [List.getElem?_set_ne (Ne.symm heq)] at hset
            exact ⟨heq, hset⟩
        refine ⟨entry :: others, rfl, ?_, ?_, rfl⟩
        · rw [List.map_cons, List.nodup_cons, List.mem_map]
          refine ⟨?_, hnodup⟩
          rintro ⟨other, hother, heq⟩
          exact (hplaces other hother).1 heq
        · rw [List.forall_mem_cons]
          exact ⟨⟨hempty, hfinite⟩, fun other hother =>
            ⟨(hplaces other hother).2, (hopen other hother).2⟩⟩
      · rintro ⟨entries, hentries, hnodup, hopen, rfl⟩
        obtain ⟨entry, others, rfl, rfl, rfl⟩ := List.map_eq_cons_iff.mp hentries.symm
        rw [List.map_cons, List.nodup_cons] at hnodup
        rw [List.forall_mem_cons] at hopen
        refine ⟨_, place_eq_ok.mpr ⟨entry, rfl, hopen.1.1, hopen.1.2, rfl⟩, ?_⟩
        refine ih.mpr ⟨others, rfl, hnodup.2, fun other hother => ?_, rfl⟩
        have hne : entry.1 ≠ other.1 := fun heq =>
          hnodup.1 (List.mem_map.mpr ⟨other, hother, heq.symm⟩)
        rw [List.getElem?_set_ne hne]
        exact hopen.2 other hother

/-! ### The completeness check -/

/-- A list without empty places is the list of its values. -/
theorem map_some_reduceOption (hfull : scores.any Option.isNone = false) :
    scores.reduceOption.map some = scores := by
  induction scores with
  | nil => rfl
  | cons head rest ih =>
      rw [List.any_cons, Bool.or_eq_false_iff] at hfull
      cases head with
      | none => cases hfull.1
      | some value => rw [List.reduceOption_cons_of_some, List.map_cons, ih hfull.2]

/-- Without empty places left, the places of the entries are all places. -/
theorem perm_range_of_full (hnodup : (entries.map Prod.fst).Nodup)
    (hplaces : ∀ entry ∈ entries, entry.1 < documents)
    (hfull : (fill (List.replicate documents none) entries).any Option.isNone = false) :
    (entries.map Prod.fst).Perm (List.range documents) := by
  rw [List.perm_ext_iff_of_nodup hnodup List.nodup_range]
  intro i
  rw [List.mem_range]
  constructor
  · intro hi
    obtain ⟨entry, hentry, rfl⟩ := List.mem_map.mp hi
    exact hplaces entry hentry
  · intro hi
    by_contra hmissing
    have hempty : (fill (List.replicate documents none) entries)[i]? = some none := by
      rw [getElem?_fill_of_notMem hmissing, List.getElem?_replicate, if_pos hi]
    have hnone := List.any_eq_false.mp hfull none (List.mem_of_getElem? hempty)
    exact hnone rfl

theorem not_isNone_of_perm (hperm : (entries.map Prod.fst).Perm (List.range documents)) :
    (fill (List.replicate documents none) entries).any Option.isNone = false := by
  rw [List.any_eq_false]
  intro score hscore hnone
  obtain ⟨i, hi⟩ := List.mem_iff_getElem?.mp hscore
  have hlt : i < documents := by
    have hplace := (List.getElem?_eq_some_iff.mp hi).1
    rwa [length_fill, List.length_replicate] at hplace
  obtain ⟨entry, hentry, rfl⟩ := List.mem_map.mp (hperm.mem_iff.mpr (List.mem_range.mpr hlt))
  rw [getElem?_fill_of_mem (hperm.nodup_iff.mpr List.nodup_range) hentry
    (by rwa [List.length_replicate])] at hi
  obtain rfl := Option.some.inj hi
  cases hnone

/-- **The results that are accepted, and what becomes of them.** -/
theorem collect_eq_ok : collect documents ranked = .ok values ↔
    ∃ entries : List (Nat × Value), ranked = entries.map answer ∧
      (entries.map Prod.fst).Perm (List.range documents) ∧
      (∀ entry ∈ entries, entry.2.isFinite = true) ∧
      values.map some = fill (List.replicate documents none) entries := by
  rw [collect, Outcome.bind_eq_ok]
  constructor
  · rintro ⟨scores, hscores, h⟩
    obtain ⟨entries, rfl, hnodup, hopen, rfl⟩ := foldlM_place_eq_ok.mp hscores
    split at h
    · cases h
    · rename_i hfull
      rw [Bool.not_eq_true] at hfull
      obtain rfl := Except.ok.inj h
      refine ⟨entries, rfl, perm_range_of_full hnodup (fun entry hentry => ?_) hfull,
        fun entry hentry => (hopen entry hentry).2, map_some_reduceOption hfull⟩
      have hlt := (List.getElem?_eq_some_iff.mp (hopen entry hentry).1).1
      rwa [List.length_replicate] at hlt
  · rintro ⟨entries, rfl, hperm, hfinite, hvalues⟩
    have hfull := not_isNone_of_perm hperm
    refine ⟨_, foldlM_place_eq_ok.mpr ⟨entries, rfl, hperm.nodup_iff.mpr List.nodup_range,
      fun entry hentry => ⟨?_, hfinite entry hentry⟩, rfl⟩, ?_⟩
    · have hmem : entry.1 ∈ entries.map Prod.fst := List.mem_map_of_mem hentry
      rw [List.getElem?_replicate, if_pos (List.mem_range.mp (hperm.mem_iff.mp hmem))]
    · rw [← hvalues] at hfull ⊢
      have hsame : (values.map some).reduceOption = values :=
        List.map_injective_iff.mpr (Option.some_injective Value) (map_some_reduceOption hfull)
      simp only [hfull, Bool.false_eq_true, ↓reduceIte, hsame]
      rfl

/-- The results name every document once. -/
def Complete (documents : Nat) (ranked : List JinaResult) : Prop :=
  (ranked.map JinaResult.index).Perm ((List.range documents).map fun i : Nat => some (i : Int))

/-- The score of a result is a finite number. -/
def JinaResult.Finite (result : JinaResult) : Prop :=
  ∃ value : Value, result.relevanceScore = .number value ∧ value.isFinite = true

theorem exists_entries (hcomplete : Complete documents ranked)
    (hfinite : ∀ result ∈ ranked, JinaResult.Finite result) :
    ∃ entries : List (Nat × Value), ranked = entries.map answer ∧
      (∀ entry ∈ entries, entry.2.isFinite = true) ∧
      (entries.map Prod.fst).Perm (List.range documents) := by
  have hanswers : ranked ∈ Set.range (List.map answer) := by
    rw [Set.range_list_map]
    intro result hresult
    have hindex : result.index ∈ (List.range documents).map fun i : Nat => some (i : Int) :=
      hcomplete.mem_iff.mp (List.mem_map_of_mem hresult)
    obtain ⟨i, -, hi⟩ := List.mem_map.mp hindex
    obtain ⟨value, hvalue, -⟩ := hfinite result hresult
    refine ⟨(i, value), ?_⟩
    rw [answer, hi, ← hvalue]
  obtain ⟨entries, rfl⟩ := hanswers
  refine ⟨entries, rfl, fun entry hentry => ?_, ?_⟩
  · obtain ⟨value, hvalue, hnumber⟩ := hfinite _ (List.mem_map_of_mem hentry)
    rwa [Cell.number.inj hvalue]
  · have hinjective : Function.Injective fun i : Nat => some (i : Int) :=
      (Option.some_injective Int).comp Nat.cast_injective
    rw [Complete, List.map_map] at hcomplete
    rw [← List.map_perm_map_iff hinjective, List.map_map]
    exact hcomplete

/-! ### The backend -/

variable {settings : Settings} {mock : MockPrimitives} {pairs : List Pair} {output : ModelOutput}

theorem rerank_of_differing (returned : Except Error ModelOutput) {first second : Pair}
    (hfirst : first ∈ pairs) (hsecond : second ∈ pairs) (hdiffer : first.1 ≠ second.1) :
    rerank mock settings returned pairs =
      .error (.valueError "listwise inference cannot combine different queries") := by
  cases pairs with
  | nil => cases hfirst
  | cons head rest =>
      refine if_pos ?_
      rw [List.any_eq_true]
      by_contra! hsame
      have hquery : ∀ pair ∈ head :: rest, pair.1 = head.1 := by
        intro pair hpair
        rcases List.mem_cons.mp hpair with rfl | hrest
        · rfl
        · simpa using hsame pair hrest
      exact hdiffer ((hquery first hfirst).trans (hquery second hsecond).symm)

theorem rerank_of_common (hmock : settings.mockModel = false)
    (hpairs : pairs ≠ []) (hquery : ∀ first ∈ pairs, ∀ second ∈ pairs, first.1 = second.1)
    (hlength : pairs.length ≤ min settings.maxDocuments 64) :
    rerank mock settings (.ok output) pairs = collect pairs.length output.ranked := by
  obtain ⟨head, rest, rfl⟩ := List.exists_cons_of_ne_nil hpairs
  have hcommon : (rest.any fun pair => pair.1 ≠ head.1) = false := by
    rw [List.any_eq_false]
    intro pair hpair
    simpa using hquery pair (List.mem_cons_of_mem _ hpair) head List.mem_cons_self
  have hfew : ¬min settings.maxDocuments 64 < (head :: rest).length := Nat.not_lt.mpr hlength
  simp only [rerank, hcommon, if_neg hfew, hmock, Bool.false_eq_true, ↓reduceIte]
  rfl

/-- **Listwise results are mapped back to input order, and nothing else is accepted.** -/
theorem rerank_listwise (mock : MockPrimitives) (settings : Settings) (pairs : List Pair) :
    (∀ returned, ∀ first ∈ pairs, ∀ second ∈ pairs, first.1 ≠ second.1 →
      ∃ error, rerank mock settings returned pairs = .error error) ∧
    ∀ output, settings.mockModel = false → pairs ≠ [] →
      (∀ first ∈ pairs, ∀ second ∈ pairs, first.1 = second.1) →
      pairs.length ≤ min settings.maxDocuments 64 →
      ((∃ scores, rerank mock settings (.ok output) pairs = .ok scores) ↔
        Complete pairs.length output.ranked ∧
          ∀ result ∈ output.ranked, JinaResult.Finite result) ∧
      ∀ scores, rerank mock settings (.ok output) pairs = .ok scores →
        scores.length = pairs.length ∧
        ∀ i < pairs.length, ∃ result ∈ output.ranked, result.index = some (i : Int) ∧
          ∃ score, result.relevanceScore = .number score ∧ scores[i]? = some score := by
  refine ⟨fun returned first hfirst second hsecond hdiffer =>
    ⟨_, rerank_of_differing returned hfirst hsecond hdiffer⟩, ?_⟩
  intro output hmock hpairs hquery hlength
  rw [rerank_of_common hmock hpairs hquery hlength]
  refine ⟨⟨?_, ?_⟩, ?_⟩
  · rintro ⟨scores, hscores⟩
    obtain ⟨entries, hranked, hperm, hfinite, -⟩ := collect_eq_ok.mp hscores
    rw [hranked]
    refine ⟨?_, ?_⟩
    · rw [Complete, List.map_map]
      have hindexes := hperm.map fun i : Nat => some (i : Int)
      rw [List.map_map] at hindexes
      exact hindexes
    · rw [List.forall_mem_map]
      exact fun entry hentry => ⟨entry.2, rfl, hfinite entry hentry⟩
  · rintro ⟨hcomplete, hfinite⟩
    obtain ⟨entries, hranked, hnumbers, hperm⟩ := exists_entries hcomplete hfinite
    exact ⟨_, collect_eq_ok.mpr ⟨entries, hranked, hperm, hnumbers,
      map_some_reduceOption (not_isNone_of_perm hperm)⟩⟩
  · intro scores hscores
    obtain ⟨entries, hranked, hperm, -, hfill⟩ := collect_eq_ok.mp hscores
    have hplaces : scores.length = pairs.length := by
      have hlengths := congrArg List.length hfill
      rwa [List.length_map, length_fill, List.length_replicate] at hlengths
    refine ⟨hplaces, fun i hi => ?_⟩
    obtain ⟨entry, hentry, rfl⟩ := List.mem_map.mp (hperm.mem_iff.mpr (List.mem_range.mpr hi))
    refine ⟨answer entry, hranked ▸ List.mem_map_of_mem hentry, rfl, entry.2, rfl, ?_⟩
    have hscore : (fill (List.replicate pairs.length none) entries)[entry.1]? =
        some (some entry.2) :=
      getElem?_fill_of_mem (hperm.nodup_iff.mpr List.nodup_range) hentry
        (by rwa [List.length_replicate])
    rw [← hfill, List.getElem?_map, Option.map_eq_some_iff] at hscore
    obtain ⟨score, hget, hsome⟩ := hscore
    rw [hget, Option.some.inj hsome]

/-- The model returns the second document first. -/
def sortedOutput : ModelOutput where
  ranked := [⟨some 1, .number (.finite (3 / 4))⟩, ⟨some 0, .number (.finite (-1 / 4))⟩]

def twoDocuments : List Pair :=
  [(['q'], ['a']), (['q'], ['b'])]

theorem rerank_listwise_sorted :
    ∃ scores, rerank exactMock {} (.ok sortedOutput) twoDocuments = .ok scores ∧
      scores.length = 2 ∧
      ∀ i : Nat, i < 2 → ∃ result ∈ sortedOutput.ranked, result.index = some (i : Int) ∧
        ∃ score, result.relevanceScore = .number score ∧ scores[i]? = some score := by
  obtain ⟨haccepted, hscores⟩ := (rerank_listwise exactMock {} twoDocuments).2 sortedOutput rfl
    (by decide) (by decide) (by decide)
  have hcomplete : Complete twoDocuments.length sortedOutput.ranked := by
    unfold Complete
    decide
  obtain ⟨scores, hrerank⟩ := haccepted.mpr
    ⟨hcomplete, by simp [sortedOutput, JinaResult.Finite, Value.isFinite]⟩
  exact ⟨scores, hrerank, hscores scores hrerank⟩

end RerankerService.JinaListwiseBackend
