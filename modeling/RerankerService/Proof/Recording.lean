import RerankerService.Proof.Answering
import RerankerService.Proof.Course
import RerankerService.Service.Recording

/-!
# Every delivered response is recorded once

A call that has returned is never touched again, so its response can be recorded only in the step in
which its handler receives it: the step of the call itself, or the return of the `gather`.
-/

namespace RerankerService.Recording

open Application Course

variable {prims : Primitives} {app app' : Application} {a : Application.Action} {id : CallId}

/-! ### Calls that have returned -/

theorem responseOf_eq_some {response : RerankResponse} :
    app.responseOf id = some response ↔ (app.calls id).phase = .returned response := by
  unfold Application.responseOf
  split
  · rename_i other hphase
    rw [hphase, Option.some.injEq, RerankPhase.returned.injEq]
  · rename_i hphase
    exact ⟨nofun, fun h => absurd h (hphase response)⟩

theorem responseOf_congr (hcall : app'.calls id = app.calls id) :
    app'.responseOf id = app.responseOf id := by
  unfold Application.responseOf
  rw [hcall]

/-- A call that takes a step has not returned. -/
theorem pending_of_acting (hstep : app.step prims a = some app') (hid : id < app.created)
    (hacting : acting app a = some id) : app.responseOf id = none := by
  refine Option.eq_none_iff_forall_not_mem.mpr fun response hresponse => ?_
  have hreturned := responseOf_eq_some.mp hresponse
  cases Application.step_takes hstep with
  | called _ => exact absurd (Option.some.inj hacting) hid.ne'
  | begun hbegin =>
      obtain rfl := Option.some.inj hacting
      cases (Application.beginCall_cases hbegin).1.symm.trans hreturned
  | lookedUp hphase _ | predicted hphase _ | jobSettled hphase _ | timedOut hphase
  | jobTimedOut hphase | written hphase =>
      obtain rfl := Option.some.inj hacting
      cases hphase.symm.trans hreturned
  | _ => cases hacting

theorem created_foldl (requests : List RerankRequest) (app : Application) :
    (requests.foldl create app).created = app.created + requests.length ∧
      ∀ id < app.created, (requests.foldl create app).calls id = app.calls id := by
  induction requests generalizing app with
  | nil => exact ⟨rfl, fun _ _ => rfl⟩
  | cons request rest ih =>
      obtain ⟨hcreated, hcalls⟩ := ih (app.create request)
      refine ⟨hcreated.trans (Nat.succ_add_eq_add_succ _ _), fun id hid => ?_⟩
      exact (hcalls id (hid.trans (Nat.lt_succ_self _))).trans (Function.update_of_ne hid.ne _ _)

theorem calls_of_not_acting (hstep : app.step prims a = some app') (hid : id < app.created)
    (hacting : acting app a ≠ some id) : app'.calls id = app.calls id := by
  have hne : ∀ {other : CallId}, acting app a = some other → id ≠ other := fun hother heq =>
    hacting (heq ▸ hother)
  cases Application.step_takes hstep with
  | @called request app' hbegin =>
      have hcall : (app.create request).calls id = app.calls id := Function.update_of_ne hid.ne _ _
      exact (calls_beginCall_of_ne hid.ne hbegin).trans hcall
  | @batchCreated requests =>
      unfold Application.rerankBatch
      split
      · rfl
      · exact (created_foldl requests app).2 id hid
  | begun hbegin => exact calls_beginCall_of_ne (hne rfl) hbegin
  | lookedUp _ _ => exact calls_infer_of_ne (hne rfl) _ _
  | predicted _ _ | jobSettled _ _ => exact calls_received_of_ne (hne rfl) _ _ _
  | timedOut _ | jobTimedOut _ | written _ => exact calls_setPhase_of_ne (hne rfl) _ _
  | _ => exact congrFun (calls_of_apart hstep rfl) id

/-- **A response is final.** -/
theorem calls_of_responded (hstep : app.step prims a = some app') (hid : id < app.created)
    {response : RerankResponse} (hresponse : app.responseOf id = some response) :
    app'.calls id = app.calls id :=
  calls_of_not_acting hstep hid fun hacting => by
    cases hresponse.symm.trans (pending_of_acting hstep hid hacting)

/-! ### Calls and batches that are created -/

/-- No call and no batch is new. -/
structure SameLedger (app app' : Application) : Prop where
  created : app'.created = app.created
  batches : app'.batches = app.batches

theorem sameLedger_infer (app : Application) (id : CallId) (scores : List (Option Score)) :
    SameLedger app (app.infer id scores) := by
  unfold Application.infer
  simp only
  split
  · exact ⟨rfl, rfl⟩
  split
  · exact ⟨rfl, rfl⟩
  split <;> exact ⟨rfl, rfl⟩

theorem sameLedger_received (prims : Primitives) (app : Application) (id : CallId)
    (scores : List (Option Score)) (reply : Reply Score) :
    SameLedger app (app.received prims id scores reply) := by
  cases reply with
  | scores values =>
      simp only [Application.received, inferred]
      split
      · exact ⟨rfl, rfl⟩
      split <;> exact ⟨rfl, rfl⟩
  | raised error => exact ⟨rfl, rfl⟩

theorem sameLedger_beginCall (hbegin : app.beginCall id = some app') : SameLedger app app' := by
  obtain ⟨-, -, ⟨error, rfl⟩ | ⟨-, query, prepared, -, rfl | ⟨-, rfl⟩⟩⟩ :=
    Application.beginCall_cases hbegin
  · exact ⟨rfl, rfl⟩
  · have hsame := sameLedger_infer (app.accept id query prepared) id
      (List.replicate prepared.length none)
    exact ⟨hsame.created, hsame.batches⟩
  · exact ⟨rfl, rfl⟩

theorem sameLedger_callPredictor (app : Application) : SameLedger app app.callPredictor := by
  unfold callPredictor
  split <;> exact ⟨rfl, rfl⟩

/-- What a step does to calls and batches. -/
inductive Ledger (app : Application) : Application.Action → Application → Prop where
  | called {request : RerankRequest} {app' : Application}
      (hcreated : app'.created = app.created + 1) (hbatches : app'.batches = app.batches) :
      Ledger app (.rerank request) app'
  | opened {requests : List RerankRequest} {batch : BatchCall} {app' : Application}
      (hcreated : app'.created = app.created + batch.calls.length)
      (hbatches : app'.batches = app.batches ++ [batch])
      (hcalls : batch.calls = List.range' app.created batch.calls.length)
      (hopen : batch.succeeded = false) : Ledger app (.rerankBatch requests) app'
  | gathered {i : Nat} {batch : BatchCall} {response : BatchResponse} {app' : Application}
      (hbatch : app.batches[i]? = some batch) (hopen : batch.outcome = none)
      (hresponded : ∀ id ∈ batch.calls, (app.responseOf id).isSome = true)
      (hsame : app' = { app with
        batches := app.batches.set i { batch with outcome := some (.ok response) } }) :
      Ledger app (.gathered i) app'
  | raised {i : Nat} {id : CallId} {batch : BatchCall} {error : Error} {app' : Application}
      (hbatch : app.batches[i]? = some batch) (hopen : batch.outcome = none)
      (hsame : app' = { app with
        batches := app.batches.set i { batch with outcome := some (.error error) } }) :
      Ledger app (.gatherRaised i id) app'
  | other {a : Application.Action} {app' : Application} (hsame : SameLedger app app')
      (hcalled : ∀ request, a ≠ .rerank request) (hgathered : ∀ batch, a ≠ .gathered batch) :
      Ledger app a app'

theorem responded_of_mapM {calls : List CallId} {responses : List RerankResponse}
    (hresponses : calls.mapM app.responseOf = some responses) :
    ∀ id ∈ calls, (app.responseOf id).isSome = true := by
  induction calls generalizing responses with
  | nil => nofun
  | cons first rest ih =>
      rw [List.mapM_cons] at hresponses
      obtain ⟨response, hresponse, hrest⟩ := Option.bind_eq_some_iff.mp hresponses
      obtain ⟨others, hothers, -⟩ := Option.bind_eq_some_iff.mp hrest
      intro id hid
      rcases List.mem_cons.mp hid with rfl | hlater
      · exact Option.isSome_of_eq_some hresponse
      · exact ih hothers id hlater

theorem step_ledger (hstep : app.step prims a = some app') : Ledger app a app' := by
  cases Application.step_takes hstep with
  | @called request app' hbegin =>
      have hsame := sameLedger_beginCall hbegin
      exact .called hsame.created hsame.batches
  | @batchCreated requests =>
      unfold Application.rerankBatch
      split
      · exact .opened rfl rfl rfl rfl
      · obtain ⟨calls, created, heq⟩ := foldl_create requests app
        have hcreated := (created_foldl requests app).1
        rw [heq] at hcreated ⊢
        have hlength : (List.range' app.created requests.length).length = requests.length :=
          List.length_range'
        exact .opened (hlength.symm ▸ hcreated) rfl (hlength.symm ▸ rfl) rfl
  | begun hbegin => exact .other (sameLedger_beginCall hbegin) nofun nofun
  | lookedUp _ _ => exact .other (sameLedger_infer _ _ _) nofun nofun
  | @predicted id scores predict r reply _ _ =>
      have hsame := sameLedger_received prims { app with runtime := r } id scores reply
      exact .other ⟨hsame.created, hsame.batches⟩ nofun nofun
  | jobSettled _ _ => exact .other (sameLedger_received _ _ _ _ _) nofun nofun
  | gathered hbatch hresponses => exact .gathered hbatch rfl (responded_of_mapM hresponses) rfl
  | gatherRaised hbatch _ _ => exact .raised hbatch rfl rfl
  | @windowClosed batcher _ =>
      have hsame := sameLedger_callPredictor { app with batcher }
      exact .other ⟨hsame.created, hsame.batches⟩ nofun nofun
  | @workerPredicted predict r reply batcher _ _ _ =>
      have hsame := sameLedger_callPredictor { app with runtime := r, batcher }
      exact .other ⟨hsame.created, hsame.batches⟩ nofun nofun
  | timedOut _ | jobTimedOut _ | written _ | took _ | workerCancelled _ | closeReturned _
  | ran _ _ => exact .other ⟨rfl, rfl⟩ nofun nofun
  | patched hpatch =>
      obtain ⟨batcher, -, rfl⟩ := Option.map_eq_some_iff.mp hpatch
      exact .other ⟨rfl, rfl⟩ nofun nofun

/-! ### Whose response is delivered -/

variable {s s' : Recording} {action : Action}

/-- The response of the call has been received by a handler. -/
def Delivered (s : Recording) (id : CallId) : Prop :=
  (id ∈ s.singles ∧ (s.app.responseOf id).isSome = true) ∨
    ∃ batch ∈ s.app.batches, batch.succeeded = true ∧ id ∈ batch.calls

/-- Every call belongs to one handler. -/
structure Owned (s : Recording) : Prop where
  singles : ∀ id ∈ s.singles, id < s.app.created
  calls : ∀ batch ∈ s.app.batches, ∀ id ∈ batch.calls, id < s.app.created ∧ id ∉ s.singles
  apart : (s.app.batches.flatMap BatchCall.calls).Nodup
  succeeded : ∀ batch ∈ s.app.batches, batch.succeeded = true →
    ∀ id ∈ batch.calls, (s.app.responseOf id).isSome = true

/-- The step of the application, before anything is recorded. -/
def after (s : Recording) (app : Application) (action : Action) : Recording :=
  { s with app, singles := s.singlesAfter action }

theorem singlesAfter_of_not_called (s : Recording)
    (hcalled : ∀ request, action.serve ≠ .rerank request) :
    s.singlesAfter action = s.singles := by
  unfold singlesAfter
  split
  · rename_i request hserve _
    exact absurd hserve (hcalled request)
  · rfl

theorem mem_singlesAfter (hmem : id ∈ s.singlesAfter action) :
    id ∈ s.singles ∨ id = s.app.created := by
  unfold singlesAfter at hmem
  split at hmem
  · exact (List.mem_append.mp hmem).imp_right List.mem_singleton.mp
  · exact .inl hmem

theorem responded_after (hstep : s.app.step prims a = some app') {id : CallId}
    (hid : id < s.app.created) (hresponded : (s.app.responseOf id).isSome = true) :
    (app'.responseOf id).isSome = true := by
  obtain ⟨response, hresponse⟩ := Option.isSome_iff_exists.mp hresponded
  rw [responseOf_congr (calls_of_responded hstep hid hresponse)]
  exact hresponded

theorem flatMap_calls_set {batches : List BatchCall} {i : Nat} {batch : BatchCall}
    (hbatch : batches[i]? = some batch) (outcome : Option (Except Error BatchResponse)) :
    (batches.set i { batch with outcome }).flatMap BatchCall.calls =
      batches.flatMap BatchCall.calls := by
  have hmap : (batches.set i { batch with outcome }).map BatchCall.calls =
      batches.map BatchCall.calls := by
    rw [List.map_set]
    obtain ⟨hlt, rfl⟩ := List.getElem?_eq_some_iff.mp hbatch
    have hlt' : i < (batches.map BatchCall.calls).length := by simpa using hlt
    have hself := List.set_getElem_self hlt'
    rw [List.getElem_map] at hself
    exact hself
  rw [List.flatMap_def, List.flatMap_def, hmap]

theorem Owned.after (h : s.Owned) (hstep : s.app.step prims action.serve = some app') :
    (s.after app' action).Owned := by
  obtain ⟨serve, handled, stamp⟩ := action
  cases step_ledger hstep with
  | @called request app' hcreated hbatches =>
      refine ⟨fun id hid => ?_, fun batch hbatch id hid => ?_, ?_, fun batch hbatch hok id hid => ?_⟩
      · rw [Recording.after, hcreated]
        rcases mem_singlesAfter hid with hold | hnew
        · exact (h.singles id hold).trans (Nat.lt_succ_self _)
        · exact hnew.le.trans_lt (Nat.lt_succ_self _)
      · obtain ⟨hlt, hnot⟩ := h.calls batch (hbatches ▸ hbatch) id hid
        refine ⟨hlt.trans_le (hcreated ▸ Nat.le_succ _), fun hmem => ?_⟩
        rcases mem_singlesAfter hmem with hold | hnew
        · exact hnot hold
        · exact hlt.ne hnew
      · exact hbatches ▸ h.apart
      · have hold := hbatches ▸ hbatch
        exact responded_after hstep (h.calls batch hold id hid).1 (h.succeeded batch hold hok id hid)
  | @opened requests batch app' hcreated hbatches hcalls hopen =>
      have hnew : ∀ id ∈ batch.calls, s.app.created ≤ id ∧ id < app'.created := by
        intro id hid
        rw [hcalls] at hid
        exact (List.mem_range'_1.mp hid).imp_right fun hlt => hcreated ▸ hlt
      refine ⟨fun id hid => (h.singles id hid).trans_le (hcreated ▸ Nat.le_add_right _ _),
        fun other hother id hid => ?_, ?_, fun other hother hok id hid => ?_⟩
      · rcases List.mem_append.mp (hbatches ▸ hother) with hold | hlast
        · exact (h.calls other hold id hid).imp_left fun hlt =>
            hlt.trans_le (hcreated ▸ Nat.le_add_right _ _)
        · obtain rfl := List.mem_singleton.mp hlast
          exact ⟨(hnew id hid).2, fun hmem =>
            absurd (h.singles id hmem) (not_lt.mpr (hnew id hid).1)⟩
      · change (app'.batches.flatMap BatchCall.calls).Nodup
        rw [hbatches, List.flatMap_append, List.flatMap_singleton]
        refine h.apart.append (hcalls ▸ List.nodup_range') fun id hold hlast => ?_
        obtain ⟨other, hother, hid⟩ := List.mem_flatMap.mp hold
        exact absurd (h.calls other hother id hid).1 (not_lt.mpr (hnew id hlast).1)
      · rcases List.mem_append.mp (hbatches ▸ hother) with hold | hlast
        · exact responded_after hstep (h.calls other hold id hid).1
            (h.succeeded other hold hok id hid)
        · obtain rfl := List.mem_singleton.mp hlast
          cases hopen.symm.trans hok
  | @gathered i batch response app' hbatch hopen hresponded hsame =>
      subst hsame
      have hmem := List.mem_of_getElem? hbatch
      refine ⟨h.singles, fun other hother => ?_, ?_, fun other hother hok => ?_⟩
      · rcases List.mem_or_eq_of_mem_set hother with hold | rfl
        · exact h.calls other hold
        · exact h.calls batch hmem
      · exact (flatMap_calls_set hbatch _).symm ▸ h.apart
      · rcases List.mem_or_eq_of_mem_set hother with hold | rfl
        · exact h.succeeded other hold hok
        · exact hresponded
  | @raised i id batch error app' hbatch hopen hsame =>
      subst hsame
      have hmem := List.mem_of_getElem? hbatch
      refine ⟨h.singles, fun other hother => ?_, ?_, fun other hother hok => ?_⟩
      · rcases List.mem_or_eq_of_mem_set hother with hold | rfl
        · exact h.calls other hold
        · exact h.calls batch hmem
      · exact (flatMap_calls_set hbatch _).symm ▸ h.apart
      · rcases List.mem_or_eq_of_mem_set hother with hold | rfl
        · exact h.succeeded other hold hok
        · cases hok
  | other hsame hcalled _ =>
      have hsingles := s.singlesAfter_of_not_called hcalled
      refine ⟨fun id hid => ?_, fun batch hbatch id hid => ?_, ?_, fun batch hbatch hok id hid => ?_⟩
      · exact (h.singles id (hsingles ▸ hid)).trans_eq hsame.created.symm
      · obtain ⟨hlt, hnot⟩ := h.calls batch (hsame.batches ▸ hbatch) id hid
        exact ⟨hlt.trans_eq hsame.created.symm, fun hmem => hnot (hsingles ▸ hmem)⟩
      · exact hsame.batches ▸ h.apart
      · have hold := hsame.batches ▸ hbatch
        exact responded_after hstep (h.calls batch hold id hid).1 (h.succeeded batch hold hok id hid)

theorem Owned.responded (h : s.Owned) (hdelivered : s.Delivered id) :
    id < s.app.created ∧ (s.app.responseOf id).isSome = true := by
  rcases hdelivered with ⟨hsingle, hresponded⟩ | ⟨batch, hbatch, hok, hid⟩
  · exact ⟨h.singles id hsingle, hresponded⟩
  · exact ⟨(h.calls batch hbatch id hid).1, h.succeeded batch hbatch hok id hid⟩

/-- The calls whose responses are received in the step. -/
def news (s : Recording) (app : Application) (action : Action) : List CallId :=
  (s.received action).filter fun id => (app.responseOf id).isSome

/-- What a step delivers is new, and delivered once. -/
structure Delivers (s : Recording) (app : Application) (action : Action) : Prop where
  delivered : ∀ id, (s.after app action).Delivered id ↔ s.Delivered id ∨ id ∈ s.news app action
  fresh : ∀ id ∈ s.news app action, ¬s.Delivered id
  nodup : (s.news app action).Nodup

/-- The steps in which at most the acting call is delivered. -/
theorem delivers_acting (h : s.Owned) (hstep : s.app.step prims action.serve = some app')
    (hsingles : s.singlesAfter action = s.singles)
    (hgathered : ∀ batch, action.serve ≠ .gathered batch)
    (hbatches : ∀ id, (∃ batch ∈ app'.batches, batch.succeeded = true ∧ id ∈ batch.calls) ↔
      ∃ batch ∈ s.app.batches, batch.succeeded = true ∧ id ∈ batch.calls) :
    s.Delivers app' action := by
  have hreceived : s.received action =
      (acting s.app action.serve).toList.filter fun id => id ∈ s.singlesAfter action := by
    unfold received
    split
    · rename_i batch hserve
      exact absurd hserve (hgathered batch)
    · rfl
  have hmem : ∀ id, id ∈ s.news app' action ↔
      acting s.app action.serve = some id ∧ id ∈ s.singles ∧ (app'.responseOf id).isSome = true := by
    intro id
    simp only [news, hreceived, hsingles, List.mem_filter, Option.mem_toList,
      decide_eq_true_eq, and_assoc]
  refine ⟨fun id => ?_, fun id hid hdelivered => ?_, ?_⟩
  · unfold Delivered Recording.after
    rw [hbatches, hmem, hsingles]
    by_cases hacting : acting s.app action.serve = some id
    · constructor
      · rintro (⟨hsingle, hresponded⟩ | hbatch)
        · exact .inr ⟨hacting, hsingle, hresponded⟩
        · exact .inl (.inr hbatch)
      · rintro ((⟨hsingle, hresponded⟩ | hbatch) | ⟨-, hsingle, hresponded⟩)
        · exact .inl ⟨hsingle, responded_after hstep (h.singles id hsingle) hresponded⟩
        · exact .inr hbatch
        · exact .inl ⟨hsingle, hresponded⟩
    · constructor
      · rintro (⟨hsingle, hresponded⟩ | hbatch)
        · rw [responseOf_congr (calls_of_not_acting hstep (h.singles id hsingle) hacting)]
            at hresponded
          exact .inl (.inl ⟨hsingle, hresponded⟩)
        · exact .inl (.inr hbatch)
      · rintro ((⟨hsingle, hresponded⟩ | hbatch) | ⟨hcontra, -⟩)
        · exact .inl ⟨hsingle, responded_after hstep (h.singles id hsingle) hresponded⟩
        · exact .inr hbatch
        · exact absurd hcontra hacting
  · obtain ⟨hlt, hresponded⟩ := h.responded hdelivered
    rw [pending_of_acting hstep hlt ((hmem id).mp hid).1] at hresponded
    cases hresponded
  · unfold news
    rw [hreceived]
    refine List.Nodup.filter _ (List.Nodup.filter _ ?_)
    cases acting s.app action.serve with
    | none => exact .nil
    | some id => exact List.nodup_singleton id

/-- The batch that is gathered was not delivered before. -/
theorem Owned.undelivered (h : s.Owned) {i : Nat} {batch : BatchCall}
    (hbatch : s.app.batches[i]? = some batch) (hopen : batch.outcome = none) {id : CallId}
    (hid : id ∈ batch.calls) : ¬s.Delivered id := by
  have hmem := List.mem_of_getElem? hbatch
  rintro (⟨hsingle, -⟩ | ⟨other, hother, hok, hid'⟩)
  · exact (h.calls batch hmem id hid).2 hsingle
  · have hne : batch ≠ other := by
      rintro rfl
      simp [BatchCall.succeeded, hopen] at hok
    have hpairwise := (List.nodup_flatMap.mp h.apart).2
    have hsymmetric : Std.Symm (Function.onFun List.Disjoint BatchCall.calls) :=
      ⟨fun _ _ hdisjoint => hdisjoint.symm⟩
    exact hpairwise.forall hmem hother hne hid hid'

theorem mem_set_of_ne {batches : List BatchCall} {i : Nat} {batch other new : BatchCall}
    (hbatch : batches[i]? = some batch) (hother : other ∈ batches) (hne : other ≠ batch) :
    other ∈ batches.set i new := by
  obtain ⟨j, hj, rfl⟩ := List.mem_iff_getElem.mp hother
  have hij : i ≠ j := by
    rintro rfl
    exact hne (Option.some.inj ((List.getElem?_eq_getElem hj).symm.trans hbatch))
  refine List.mem_iff_getElem.mpr ⟨j, by simpa using hj, ?_⟩
  exact List.getElem_set_ne hij _

/-- A call of a handler that may have returned at once. -/
theorem delivers_called (h : s.Owned) {request : RerankRequest} {stamp : CallId → Stamp}
    (hstep : s.app.step prims (.rerank request) = some app')
    (hbatches : app'.batches = s.app.batches) :
    s.Delivers app' { serve := .rerank request, stamp } := by
  have hnew : s.news app' { serve := .rerank request, stamp } =
      [s.app.created].filter fun id => (app'.responseOf id).isSome := by
    simp [news, received, acting, singlesAfter]
  refine ⟨fun id => ?_, fun id hid hdelivered => ?_, ?_⟩
  · unfold Delivered Recording.after singlesAfter
    simp only [hbatches, hnew, List.mem_filter, List.mem_append, List.mem_singleton]
    constructor
    · rintro (⟨hsingle | rfl, hresponded⟩ | hbatch)
      · have hlt := h.singles id hsingle
        rw [responseOf_congr (calls_of_not_acting hstep hlt fun hacting =>
          hlt.ne' (Option.some.inj hacting))] at hresponded
        exact .inl (.inl ⟨hsingle, hresponded⟩)
      · exact .inr ⟨rfl, hresponded⟩
      · exact .inl (.inr hbatch)
    · rintro ((⟨hsingle, hresponded⟩ | hbatch) | ⟨rfl, hresponded⟩)
      · exact .inl ⟨.inl hsingle, responded_after hstep (h.singles id hsingle) hresponded⟩
      · exact .inr hbatch
      · exact .inl ⟨.inr rfl, hresponded⟩
  · rw [hnew] at hid
    have heq := List.mem_singleton.mp (List.mem_filter.mp hid).1
    exact (h.responded hdelivered).1.ne heq
  · rw [hnew]
    exact (List.nodup_singleton _).filter _

theorem delivers (h : s.Owned) (hstep : s.app.step prims action.serve = some app') :
    s.Delivers app' action := by
  obtain ⟨serve, handled, stamp⟩ := action
  cases step_ledger hstep with
  | @called request app' _ hbatches =>
      cases handled with
      | true => exact delivers_called h hstep hbatches
      | false => exact delivers_acting h hstep rfl nofun fun id => by rw [hbatches]
  | @opened requests batch app' hcreated hbatches hcalls hopen =>
      refine delivers_acting h hstep rfl nofun fun id => ?_
      rw [hbatches]
      constructor
      · rintro ⟨other, hother, hok, hid⟩
        rcases List.mem_append.mp hother with hold | hlast
        · exact ⟨other, hold, hok, hid⟩
        · rw [List.mem_singleton.mp hlast, hopen] at hok
          cases hok
      · rintro ⟨other, hother, hok, hid⟩
        exact ⟨other, List.mem_append_left _ hother, hok, hid⟩
  | @gathered i batch response app' hbatch hopen hresponded hsame =>
      subst hsame
      have hmem := List.mem_of_getElem? hbatch
      have hnew : s.news { s.app with
          batches := s.app.batches.set i { batch with outcome := some (.ok response) } }
          { serve := .gathered i, handled, stamp } = batch.calls := by
        simp only [news, received, hbatch, Option.elim_some]
        exact List.filter_eq_self.mpr hresponded
      refine ⟨fun id => ?_, fun id hid => ?_, ?_⟩
      · rw [hnew]
        constructor
        · rintro (hsingle | ⟨other, hother, hok, hid⟩)
          · exact .inl (.inl hsingle)
          · rcases List.mem_or_eq_of_mem_set hother with hold | rfl
            · exact .inl (.inr ⟨other, hold, hok, hid⟩)
            · exact .inr hid
        · rintro ((hsingle | ⟨other, hother, hok, hid⟩) | hid)
          · exact .inl hsingle
          · have hne : other ≠ batch := by
              rintro rfl
              simp [BatchCall.succeeded, hopen] at hok
            exact .inr ⟨other, mem_set_of_ne hbatch hother hne, hok, hid⟩
          · have hlt := (List.getElem?_eq_some_iff.mp hbatch).1
            exact .inr ⟨_, List.mem_set hlt _, rfl, hid⟩
      · rw [hnew] at hid
        exact h.undelivered hbatch hopen hid
      · rw [hnew]
        exact (List.nodup_flatMap.mp h.apart).1 batch hmem
  | @raised i id batch error app' hbatch hopen hsame =>
      subst hsame
      refine delivers_acting h hstep rfl nofun fun id => ?_
      constructor
      · rintro ⟨other, hother, hok, hid⟩
        rcases List.mem_or_eq_of_mem_set hother with hold | rfl
        · exact ⟨other, hold, hok, hid⟩
        · cases hok
      · rintro ⟨other, hother, hok, hid⟩
        have hne : other ≠ batch := by
          rintro rfl
          simp [BatchCall.succeeded, hopen] at hok
        exact ⟨other, mem_set_of_ne hbatch hother hne, hok, hid⟩
  | other hsame hcalled hgathered =>
      exact delivers_acting h hstep (s.singlesAfter_of_not_called hcalled) hgathered
        fun id => by rw [hsame.batches]

/-! ### What is recorded -/

/-- The records are those of the responses, and the deque has the newest. -/
structure Kept (s : Recording) : Prop where
  truthful : ∀ row ∈ s.recorded, ∃ serial stamp response,
    s.app.responseOf row.1 = some response ∧
      row.2 = .ofResponse serial stamp (s.app.calls row.1).request response
  serials : s.recorded.map (fun row => row.2.serial) = List.range s.recorded.length
  newest : s.requests = (s.recorded.reverse.map Prod.snd).take AdminState.capacity

theorem Kept.record (h : s.Kept) (stamp : Stamp) (id : CallId) :
    (s.recordResponse stamp id).Kept := by
  unfold recordResponse
  cases hresponse : s.app.responseOf id with
  | none => exact h
  | some response =>
      refine ⟨fun row hrow => ?_, ?_, ?_⟩
      · rcases List.mem_append.mp hrow with hold | hnew
        · exact h.truthful row hold
        · obtain rfl := List.mem_singleton.mp hnew
          exact ⟨_, stamp, response, hresponse, rfl⟩
      · simp only [List.map_append, List.map_cons, List.map_nil, List.length_append,
          List.length_cons, List.length_nil, Nat.zero_add, List.range_succ, h.serials]
        rfl
      · simp only [List.reverse_append, List.reverse_cons, List.reverse_nil, List.nil_append,
          List.singleton_append, List.map_cons]
        rw [h.newest, AdminState.capacity, List.take_succ_cons, List.take_succ_cons,
          List.take_take]
        rfl

/-- The fold over the responses that are received. -/
def recordAll (stamp : CallId → Stamp) (s : Recording) (ids : List CallId) : Recording :=
  ids.foldl (fun s id => s.recordResponse (stamp id) id) s

theorem recordResponse_app (s : Recording) (stamp : Stamp) (id : CallId) :
    (s.recordResponse stamp id).app = s.app ∧ (s.recordResponse stamp id).singles = s.singles := by
  unfold recordResponse
  split <;> exact ⟨rfl, rfl⟩

theorem recordResponse_ids (s : Recording) (stamp : Stamp) (id : CallId) :
    (s.recordResponse stamp id).recorded.map Prod.fst = s.recorded.map Prod.fst ++
      if (s.app.responseOf id).isSome then [id] else [] := by
  unfold recordResponse
  cases hresponse : s.app.responseOf id with
  | none => exact (List.append_nil _).symm
  | some response => exact List.map_append

theorem recordAll_spec (stamp : CallId → Stamp) (s : Recording) (ids : List CallId) :
    (recordAll stamp s ids).app = s.app ∧ (recordAll stamp s ids).singles = s.singles ∧
      (recordAll stamp s ids).recorded.map Prod.fst = s.recorded.map Prod.fst ++
        ids.filter fun id => (s.app.responseOf id).isSome := by
  induction ids generalizing s with
  | nil => exact ⟨rfl, rfl, (List.append_nil _).symm⟩
  | cons id rest ih =>
      obtain ⟨happ, hsingles⟩ := recordResponse_app s (stamp id) id
      obtain ⟨happ', hsingles', hids⟩ := ih (s.recordResponse (stamp id) id)
      refine ⟨happ'.trans happ, hsingles'.trans hsingles, ?_⟩
      change (recordAll stamp (s.recordResponse (stamp id) id) rest).recorded.map Prod.fst = _
      rw [hids, recordResponse_ids, happ, List.append_assoc]
      cases hresponse : (s.app.responseOf id).isSome with
      | true => simp only [List.filter_cons, hresponse, if_true, List.singleton_append]
      | false => simp only [List.filter_cons, hresponse, Bool.false_eq_true, if_false, List.nil_append]

theorem Kept.recordAll (h : s.Kept) (stamp : CallId → Stamp) (ids : List CallId) :
    (recordAll stamp s ids).Kept :=
  List.foldlRecOn ids _ h fun _ ht id _ => ht.record (stamp id) id

structure Booked (s : Recording) : Prop where
  owned : s.Owned
  kept : s.Kept
  nodup : (s.recorded.map Prod.fst).Nodup
  exact : ∀ id, id ∈ s.recorded.map Prod.fst ↔ s.Delivered id

theorem Booked.step (h : s.Booked) (hstep : s.step prims action = some s') : s'.Booked := by
  obtain ⟨app', happ, rfl⟩ := Option.map_eq_some_iff.mp hstep
  obtain ⟨hsame, hsingles, hids⟩ :=
    recordAll_spec action.stamp (s.after app' action) (s.received action)
  have howned := h.owned.after happ
  have hdelivers := delivers h.owned happ
  have hdelivered : ∀ id, (recordAll action.stamp (s.after app' action)
      (s.received action)).Delivered id ↔ s.Delivered id ∨ id ∈ s.news app' action := by
    intro id
    rw [← hdelivers.delivered id]
    unfold Delivered
    rw [hsame, hsingles]
  have hafter : (s.after app' action).Kept := by
    refine ⟨fun row hrow => ?_, h.kept.serials, h.kept.newest⟩
    obtain ⟨serial, stamp, response, hresponse, hrecord⟩ := h.kept.truthful row hrow
    have hlt := (h.owned.responded ((h.exact row.1).mp (List.mem_map_of_mem hrow))).1
    have hcall := calls_of_responded happ hlt hresponse
    exact ⟨serial, stamp, response, (responseOf_congr hcall).trans hresponse,
      hrecord.trans (by rw [Recording.after, hcall])⟩
  change (recordAll action.stamp (s.after app' action) (s.received action)).Booked
  refine ⟨⟨?_, ?_, ?_, ?_⟩, hafter.recordAll _ _, ?_, fun id => ?_⟩
  · rw [hsame, hsingles]
    exact howned.singles
  · rw [hsame, hsingles]
    exact howned.calls
  · rw [hsame]
    exact howned.apart
  · rw [hsame]
    exact howned.succeeded
  · rw [hids]
    refine h.nodup.append hdelivers.nodup fun id hold hnew => ?_
    exact hdelivers.fresh id hnew ((h.exact id).mp hold)
  · rw [hids, List.mem_append, hdelivered]
    exact or_congr_left (h.exact id)

theorem booked {settings : Settings} {Entry : ScoreCache.Write Score → Prop}
    (hreach : Transition.Reachable (step prims) (Initial settings Entry) s) : s.Booked := by
  refine hreach.invariant (fun s hinit => ?_) fun _ _ _ h _ hstep => h.step hstep
  have hbatches := hinit.app.batches
  refine ⟨⟨?_, ?_, ?_, ?_⟩, ⟨?_, ?_, ?_⟩, ?_, fun id => ?_⟩
  · simp [hinit.singles]
  · simp [hbatches]
  · simp [hbatches]
  · simp [hbatches]
  · simp [hinit.recorded]
  · simp [hinit.recorded]
  · simp [hinit.requests, hinit.recorded]
  · simp [hinit.recorded]
  · simp [Delivered, hinit.recorded, hinit.singles, hbatches]

/-- **Every delivered response is recorded exactly once**, and nothing else is: the records are those
of the responses that handlers have received, with what request and response say and no more than
500 characters of the query and 200 of any document; and the deque has the newest thousand of them,
no two with the same serial. -/
theorem recorded_once {settings : Settings} {Entry : ScoreCache.Write Score → Prop}
    (hreach : Transition.Reachable (step prims) (Initial settings Entry) s) :
    (s.recorded.map Prod.fst).Nodup ∧
      (∀ id, id ∈ s.recorded.map Prod.fst ↔ s.Delivered id) ∧
      (∀ row ∈ s.recorded, ∃ serial stamp response, s.app.responseOf row.1 = some response ∧
        row.2 = .ofResponse serial stamp (s.app.calls row.1).request response ∧
        row.2.query.length ≤ 500 ∧ ∀ document ∈ row.2.documents, document.2.length ≤ 200) ∧
      s.requests = (s.recorded.reverse.map Prod.snd).take 1000 ∧
      (s.requests.map fun record => record.serial).Nodup := by
  have h := booked hreach
  refine ⟨h.nodup, h.exact, fun row hrow => ?_, h.kept.newest, ?_⟩
  · obtain ⟨serial, stamp, response, hresponse, hrecord⟩ := h.kept.truthful row hrow
    refine ⟨serial, stamp, response, hresponse, hrecord, ?_, fun document hdocument => ?_⟩
    · rw [hrecord]
      exact List.length_take_le _ _
    · rw [hrecord] at hdocument
      obtain ⟨original, -, rfl⟩ := List.mem_map.mp hdocument
      exact List.length_take_le _ _
  · have hserials : (s.recorded.reverse.map fun row => row.2.serial).Nodup := by
      rw [List.map_reverse, h.kept.serials]
      exact List.nodup_reverse.mpr List.nodup_range
    rw [h.kept.newest, List.map_take, List.map_map]
    exact hserials.sublist (List.take_sublist _ _)

/-- Two calls, of which the second is a batch of one and finds what the first one has computed. -/
def smallRun : List Application.Action :=
  loading ++ [.rerank oneDocument, .lookedUp 0 none] ++ prediction ++ [.predicted 0, .written 0] ++
    [.rerankBatch [oneDocument], .beginCall 1,
      .lookedUp 1 (some [some
        { value := .finite 1, source := some smallSource, pair := some (['q'], ['d']) }]),
      .gathered 0]

def smallStamp (id : CallId) : Stamp where
  timestamp := id
  latencyMs := 5
  correlationId := ['c']

theorem recorded_once_small : ∃ s : Recording,
    Transition.run (step ScoreCache.asciiPrimitives) { app := smallApplication }
      (smallRun.map fun serve => { serve, stamp := smallStamp }) = some s ∧
    s.recorded.map Prod.fst = [0, 1] ∧ (s.requests.map fun record => record.serial).Nodup := by
  obtain ⟨s, hrun, hids⟩ : ∃ s : Recording,
      Transition.run (step ScoreCache.asciiPrimitives) { app := smallApplication }
        (smallRun.map fun serve => { serve, stamp := smallStamp }) = some s ∧
      s.recorded.map Prod.fst = [0, 1] := ⟨_, rfl, rfl⟩
  have hinit : Initial smallSettings (fun _ => True) { app := smallApplication } :=
    ⟨initial_smallApplication _, rfl, rfl, rfl⟩
  exact ⟨s, hrun, hids, (recorded_once (Transition.reachable_of_run hinit hrun)).2.2.2.2⟩

end RerankerService.Recording
