import RerankerService.Proof.Admission

/-!
# What a refused request changes

Nothing but its own rows: the run in which it never arrived ends in the same state, with the same
answers to everybody else. Refused are the requests without the token of their route among others,
so a client without a token can neither use up the limit of another client nor reach the service.
-/

namespace RerankerService

/-- What the front decides about a request without asking the limiter or the schema. -/
def HttpRequest.refused (config : HttpConfig) (request : HttpRequest) : Bool :=
  (request.turnedAway config).isSome || request.wrongBackend config ||
    match request.routing with
    | .unmatched _ | .partly _ => true
    | .matched endpoint => request.body ≠ .json || endpoint.authorize config request ≠ .ok ()

namespace HttpServer

open Transition

variable {σ α : Type} {config : HttpConfig} {handlers : Handlers σ α} {limit : Nat}
  {hidden : Nat → Bool} {s s' : HttpServer σ} {a : Action α} {id : Nat}

/-- The hidden requests that are in progress. -/
def hiddenLive (hidden : Nat → Bool) (s : HttpServer σ) : Nat :=
  Table.live ((s.arrived.map Prod.fst).filter hidden) s.active

/-- The state without the rows of the hidden requests. -/
def without (hidden : Nat → Bool) (s : HttpServer σ) : HttpServer σ :=
  { s with
    inProgress := s.inProgress - s.hiddenLive hidden
    arrived := s.arrived.filter fun row => !hidden row.1
    active := fun id => if hidden id then none else s.active id
    served := s.served.filter fun row => !hidden row.1
    errors := s.errors.filter fun id => !hidden id
    answers := s.answers.filter fun row => !hidden row.1 }

def visible (hidden : Nat → Bool) : Action α → Bool
  | .arrive id _ _ | .callNext id | .reply id | .cancel id => !hidden id
  | .tick _ | .serve _ => true

theorem filter_concat {ν : Type} {rows : List ν} {row : ν} {p : ν → Bool} :
    (rows ++ [row]).filter p = rows.filter p ++ if p row then [row] else [] := by
  rw [List.filter_append]
  cases hp : p row with
  | true => rw [List.filter_cons_of_pos hp]; rfl
  | false => rw [List.filter_cons_of_neg (by simp [hp])]; rfl

/-! ### Visible requests -/

theorem without_active (hid : hidden id = false) : (s.without hidden).active id = s.active id := by
  simp [without, hid]

theorem without_update (hid : hidden id = false) (row : Option Active) :
    (fun other => if hidden other then none else Function.update s.active id row other) =
      Function.update (s.without hidden).active id row := by
  funext other
  by_cases heq : other = id
  · subst heq
    simp [hid]
  · simp [without, Function.update_of_ne heq]

theorem hiddenLive_update (hid : hidden id = false) (row : Option Active) :
    Table.live ((s.arrived.map Prod.fst).filter hidden) (Function.update s.active id row) =
      s.hiddenLive hidden := by
  refine Table.live_update_of_not_mem (fun hmem => ?_) row
  rw [(List.mem_filter.mp hmem).2] at hid
  cases hid

theorem without_answer (hid : hidden id = false) (answer : Answer) :
    (s.answer id answer).without hidden = (s.without hidden).answer id answer := by
  simp only [without, HttpServer.answer, filter_concat, hid, Bool.not_false, if_true]
  rfl

theorem without_leave (hid : hidden id = false) (label : Text) (status : Nat) :
    (s.leave id label status).without hidden = (s.without hidden).leave id label status := by
  have hlive := hiddenLive_update (s := s) hid none
  have hupdate := without_update (s := s) hid none
  simp only [without, HttpServer.leave, filter_concat, hid, Bool.not_false, if_true] at hupdate ⊢
  rw [hupdate, hiddenLive, hlive, sub_right_comm]

theorem without_respond (hid : hidden id = false) (entry : Active) (label : Text) (status : Nat)
    (error : Option (Text × Text)) : (s.respond id entry label status error).without hidden =
      (s.without hidden).respond id entry label status error := by
  rw [HttpServer.respond, without_answer hid, without_leave hid]
  rfl

theorem without_errors (hid : hidden id = false) :
    without hidden { s with errors := s.errors ++ [id] } =
      { s.without hidden with errors := (s.without hidden).errors ++ [id] } := by
  simp only [without, hiddenLive, filter_concat, hid, Bool.not_false, if_true]

theorem without_raised (hid : hidden id = false) (entry : Active) (error : Error) :
    (s.raised id entry error).without hidden = (s.without hidden).raised id entry error := by
  have hunhandled : ((leave { s with errors := s.errors ++ [id] } id entry.request.label 500).answer
      id internalError).without hidden = (leave { s.without hidden with
        errors := (s.without hidden).errors ++ [id] } id entry.request.label 500).answer id
          internalError := by
    rw [without_answer hid, without_leave hid, without_errors hid]
  cases error with
  | service _ _ _ => exact without_respond hid _ _ _ _
  | cancelled => exact without_leave hid _ _
  | runtimeError _ | valueError _ | exception _ _ => exact hunhandled

theorem without_received (hid : hidden id = false) (request : HttpRequest) :
    (s.received id request).without hidden = (s.without hidden).received id request := by
  simp only [without, received, hiddenLive, List.map_append, List.map_cons, List.map_nil,
    filter_concat, hid, Bool.not_false, if_true, Bool.false_eq_true, if_false, List.append_nil]

theorem without_enter (hid : hidden id = false) (entry : Active) :
    (s.enter id entry).without hidden = (s.without hidden).enter id entry := by
  have hlive := hiddenLive_update (s := s) hid (some entry)
  have hupdate := without_update (s := s) hid (some entry)
  simp only [without, HttpServer.enter] at hupdate ⊢
  rw [hupdate, hiddenLive, hlive, add_sub_right_comm]

theorem without_start (hid : hidden id = false) (entry : Active) (endpoint : Endpoint) :
    (s.start handlers id entry endpoint).without hidden =
      (s.without hidden).start handlers id entry endpoint := by
  have hlive := hiddenLive_update (s := s) hid (some { entry with phase := .handling })
  have hupdate := without_update (s := s) hid (some { entry with phase := .handling })
  simp only [without, HttpServer.start] at hupdate ⊢
  rw [hupdate, hiddenLive, hlive]

theorem without_handle (hid : hidden id = false) (entry : Active) (endpoint : Endpoint) :
    (s.handle config handlers id entry endpoint).without hidden =
      (s.without hidden).handle config handlers id entry endpoint := by
  have hconsult : (s.consult config id entry endpoint).without hidden =
      (s.without hidden).consult config id entry endpoint := rfl
  have houtcome : (s.without hidden).outcome config entry endpoint =
      s.outcome config entry endpoint := rfl
  simp only [handle, houtcome]
  cases s.outcome config entry endpoint with
  | error error => exact hconsult ▸ without_raised hid entry error
  | ok =>
      simp only [validate]
      cases entry.request.schema with
      | fits => exact hconsult ▸ without_start hid _ _
      | violated => exact hconsult ▸ without_respond hid _ _ _ _
      | unwritable kind message => exact hconsult ▸ without_raised hid entry _

theorem without_route (hid : hidden id = false) (entry : Active) :
    (s.route config handlers id entry).without hidden =
      (s.without hidden).route config handlers id entry := by
  unfold route
  cases entry.request.routing with
  | unmatched status => exact without_respond hid _ _ _ _
  | partly endpoint => exact without_respond hid _ _ _ _
  | matched endpoint =>
      cases entry.request.body with
      | json => exact without_handle hid entry endpoint
      | malformed | unreadable => exact without_respond hid _ _ _ _

theorem mem_without_arrived (hid : hidden id = false) :
    id ∈ (s.without hidden).arrived.map Prod.fst ↔ id ∈ s.arrived.map Prod.fst := by
  simp only [without, List.mem_map, List.mem_filter, Prod.exists]
  constructor
  · rintro ⟨other, request, ⟨hmem, -⟩, rfl⟩
    exact ⟨other, request, hmem, rfl⟩
  · rintro ⟨other, request, hmem, rfl⟩
    exact ⟨other, request, ⟨hmem, by simp [hid]⟩, rfl⟩

/-- **A visible step does not look at the hidden requests.** -/
theorem step_without (hvisible : visible hidden a = true)
    (hstep : s.step config handlers a = some s') :
    (s.without hidden).step config handlers a = some (s'.without hidden) := by
  cases a with
  | tick elapsed =>
      simp only [step] at hstep ⊢
      split_ifs at hstep ⊢
      exact Option.some.inj hstep ▸ rfl
  | arrive id request uuid =>
      have hid : hidden id = false := by simpa [visible] using hvisible
      simp only [step, arrive] at hstep ⊢
      by_cases hknown : id ∈ s.arrived.map Prod.fst
      · rw [if_pos hknown] at hstep
        cases hstep
      rw [if_neg hknown] at hstep
      rw [if_neg fun h => hknown ((mem_without_arrived hid).mp h)]
      have hreceived := without_received (s := s) hid request
      unfold received at hreceived
      rw [← hreceived]
      cases hanswer : request.turnedAway config with
      | some answer =>
          rw [hanswer] at hstep
          exact Option.some.inj hstep ▸ (without_answer hid _).symm ▸ rfl
      | none =>
          simp only [hanswer] at hstep ⊢
          by_cases hbackend : request.wrongBackend config = true
          · rw [if_pos hbackend] at hstep ⊢
            rw [← Option.some.inj hstep, without_respond hid, without_enter hid]
          · rw [if_neg hbackend] at hstep ⊢
            rw [← Option.some.inj hstep, without_enter hid]
  | callNext id =>
      have hid : hidden id = false := by simpa [visible] using hvisible
      simp only [step, callNext, without_active hid] at hstep ⊢
      cases hentry : s.active id with
      | none =>
          rw [hentry] at hstep
          cases hstep
      | some entry =>
          simp only [hentry] at hstep ⊢
          split_ifs at hstep ⊢
          rw [← Option.some.inj hstep, without_route hid]
  | reply id =>
      have hid : hidden id = false := by simpa [visible] using hvisible
      simp only [step, reply, without_active hid] at hstep ⊢
      cases hentry : s.active id with
      | none =>
          rw [hentry] at hstep
          cases hstep
      | some entry =>
          simp only [hentry] at hstep ⊢
          split_ifs at hstep ⊢
          obtain ⟨outcome, houtcome, rfl⟩ := Option.map_eq_some_iff.mp hstep
          refine Option.map_eq_some_iff.mpr ⟨outcome, houtcome, ?_⟩
          cases outcome with
          | ok status => exact (without_respond hid _ _ _ _).symm
          | error error => exact (without_raised hid _ _).symm
  | cancel id =>
      have hid : hidden id = false := by simpa [visible] using hvisible
      obtain ⟨entry, hentry, rfl⟩ := Option.map_eq_some_iff.mp hstep
      refine Option.map_eq_some_iff.mpr ⟨entry, (without_active hid).trans hentry, ?_⟩
      have hleave := without_leave (s := s) hid entry.request.label 500
      cases entry.phase with
      | reading => exact hleave.symm
      | handling => exact hleave ▸ rfl
  | serve b =>
      obtain ⟨service, hservice, rfl⟩ := Option.map_eq_some_iff.mp hstep
      exact Option.map_eq_some_iff.mpr ⟨service, hservice, rfl⟩

/-! ### Hidden requests -/

/-- The hidden requests are refused, so they get no further than the route. -/
structure Kept (config : HttpConfig) (hidden : Nat → Bool) (s : HttpServer σ) : Prop where
  accounted : s.Accounted config
  screened : s.Screened config
  refused : ∀ id entry, s.active id = some entry → hidden id = true →
    entry.request.refused config = true ∧ entry.phase = .reading

/-- The hidden requests of the run are refused. -/
def Refuses (config : HttpConfig) (hidden : Nat → Bool) : Action α → Prop
  | .arrive id request _ => hidden id = true → request.refused config = true
  | _ => True

theorem hidden_update (hid : hidden id = true) (row : Option Active) :
    (fun other => if hidden other then none else Function.update s.active id row other) =
      (s.without hidden).active := by
  funext other
  by_cases heq : other = id
  · subst heq
    simp [without, hid]
  · simp [without, Function.update_of_ne heq]

theorem hidden_answer (hid : hidden id = true) (answer : Answer) :
    (s.answer id answer).without hidden = s.without hidden := by
  simp only [without, HttpServer.answer, hiddenLive, filter_concat, hid, Bool.not_true,
    Bool.false_eq_true, if_false, List.append_nil]

theorem hidden_errors (hid : hidden id = true) :
    without hidden { s with errors := s.errors ++ [id] } = s.without hidden := by
  simp only [without, hiddenLive, filter_concat, hid, Bool.not_true, Bool.false_eq_true, if_false,
    List.append_nil]

namespace Kept

variable {entry : Active}

theorem leave (h : s.Accounted config) (hid : hidden id = true) (hentry : s.active id = some entry)
    (label : Text) (status : Nat) :
    (s.leave id label status).without hidden = s.without hidden := by
  have hmem : id ∈ (s.arrived.map Prod.fst).filter hidden :=
    List.mem_filter.mpr ⟨h.mem_arrived hentry, hid⟩
  have hlive := Table.live_update_none (h.nodup.filter hidden) hmem hentry
  have hgauge : s.inProgress - 1 - (Table.live ((s.arrived.map Prod.fst).filter hidden)
      (Function.update s.active id none) : Nat) = s.inProgress - s.hiddenLive hidden := by
    unfold hiddenLive
    omega
  have hactive := hidden_update (s := s) hid none
  simp only [without, HttpServer.leave, hiddenLive, filter_concat, hid, Bool.not_true,
    Bool.false_eq_true, if_false, List.append_nil] at hgauge hactive ⊢
  rw [hgauge, hactive]

theorem respond (h : s.Accounted config) (hid : hidden id = true)
    (hentry : s.active id = some entry) (entry' : Active) (label : Text) (status : Nat)
    (error : Option (Text × Text)) :
    (s.respond id entry' label status error).without hidden = s.without hidden :=
  (hidden_answer hid _).trans (leave h hid hentry label status)

theorem raised (h : s.Accounted config) (hid : hidden id = true)
    (hentry : s.active id = some entry) (error : Error) :
    (s.raised id entry error).without hidden = s.without hidden := by
  cases error with
  | service status _ _ => exact respond h hid hentry _ _ _ _
  | cancelled => exact leave h hid hentry _ _
  | runtimeError _ | valueError _ | exception _ _ =>
      exact (hidden_answer hid _).trans
        ((leave (h.of_errors (s.errors ++ [id])) hid hentry entry.request.label 500).trans
          (hidden_errors hid))

theorem received (h : s.Accounted config) (hid : hidden id = true)
    (hnew : id ∉ s.arrived.map Prod.fst) (request : HttpRequest) :
    (s.received id request).without hidden = s.without hidden := by
  have hlive := Table.live_concat_none ((s.arrived.map Prod.fst).filter hidden) (h.fresh hnew)
  simp only [without, HttpServer.received, hiddenLive, List.map_append, List.map_cons,
    List.map_nil, filter_concat, hid, if_true, hlive, Bool.not_true, Bool.false_eq_true, if_false,
    List.append_nil]

theorem enter (hid : hidden id = true)
    (hnew : id ∉ s.arrived.map Prod.fst) :
    ((s.received id entry.request).enter id entry).without hidden = s.without hidden := by
  have hfresh : id ∉ (s.arrived.map Prod.fst).filter hidden := fun hmem =>
    hnew (List.mem_filter.mp hmem).1
  have hlive := Table.live_concat s.active hfresh entry
  have hgauge : s.inProgress + 1 - (Table.live ((s.arrived.map Prod.fst).filter hidden ++ [id])
      (Function.update s.active id (some entry)) : Nat) = s.inProgress - s.hiddenLive hidden := by
    unfold hiddenLive
    omega
  have hactive := hidden_update (s := s) hid (some entry)
  simp only [without, HttpServer.enter, HttpServer.received, hiddenLive, List.map_append,
    List.map_cons, List.map_nil, filter_concat, hid, if_true, Bool.not_true, Bool.false_eq_true,
    if_false, List.append_nil] at hgauge hactive ⊢
  rw [hgauge, hactive]

/-- A request that is refused passes no dependencies. -/
theorem unauthorized (h : s.Kept config hidden) (hid : hidden id = true)
    (hentry : s.active id = some entry) {endpoint : Endpoint}
    (hrouting : entry.request.routing = .matched endpoint)
    (hbody : entry.request.body = .json) :
    endpoint.authorize config entry.request ≠ .ok () := by
  have hrefused := (h.refused id entry hentry hid).1
  obtain ⟨hfits, hbackend⟩ := h.screened.active id entry hentry
  simpa [HttpRequest.refused, hfits, hbackend, hrouting, hbody] using hrefused

/-- **A hidden step shows nothing.** -/
theorem hides (h : s.Kept config hidden) (hhidden : visible hidden a = false)
    (hstep : s.step config handlers a = some s') : s'.without hidden = s.without hidden := by
  have hid : ∀ {id : Nat}, (!hidden id) = false → hidden id = true := fun hnot => by simpa using hnot
  cases step_takes hstep with
  | ticked _ | served _ => cases hhidden
  | @turnedAway id request uuid answer hnew hanswer =>
      exact (hidden_answer (hid hhidden) _).trans (received h.accounted (hid hhidden) hnew request)
  | wrongBackend hnew hfits hbackend =>
      exact (respond (h.accounted.enter hnew hfits) (hid hhidden)
        ((enter_active _ _ _ _).trans (if_pos rfl)) _ _ _ _).trans (enter (hid hhidden) hnew)
  | entered hnew _ _ _ => exact enter (hid hhidden) hnew
  | unmatched hentry _ _ | undecoded hentry _ _ =>
      exact respond h.accounted (hid hhidden) hentry _ _ _ _
  | rejected hentry hphase hrouting hbody herror =>
      rw [consult_of_unauthorized (h.unauthorized (hid hhidden) hentry hrouting hbody)]
      exact raised h.accounted (hid hhidden) hentry _
  | invalid hentry _ hrouting hbody hpassed _ | unwritable hentry _ hrouting hbody hpassed _
  | started hentry _ hrouting hbody hpassed _ =>
      exact absurd (authorize_of_outcome hpassed)
        (h.unauthorized (hid hhidden) hentry hrouting hbody)
  | replied hentry hphase _ | raised hentry hphase _ | cancelled hentry hphase =>
      cases hphase.symm.trans (h.refused _ _ hentry (hid hhidden)).2
  | left hentry _ => exact leave h.accounted (hid hhidden) hentry _ _

theorem step (h : s.Kept config hidden) (hrefuses : Refuses config hidden a)
    (hstep : s.step config handlers a = some s') : s'.Kept config hidden := by
  refine ⟨h.accounted.step hstep, h.screened.step hstep, fun other entry' hother hid => ?_⟩
  -- a row that was there before is refused; a new one is refused by the run
  have hleft : ∀ {t : HttpServer σ} (id : Nat), t.active = s.active → (if other = id then none else
      t.active other) = some entry' → entry'.request.refused config = true ∧
        entry'.phase = .reading := by
    intro t id hactive hsome
    split_ifs at hsome
    exact h.refused other entry' (hactive ▸ hsome) hid
  have hraised : ∀ {t : HttpServer σ} (id : Nat) (entry : Active) (error : Error),
      t.active = s.active → (t.raised id entry error).active other = some entry' →
      entry'.request.refused config = true ∧ entry'.phase = .reading := by
    intro t id entry error hactive hsome
    refine hleft (t := t) id hactive ?_
    rw [← leave_active t id entry.request.label 500, ← hsome]
    cases error <;> rfl
  cases step_takes hstep with
  | ticked _ | served _ | turnedAway _ _ => exact h.refused other entry' hother hid
  | @wrongBackend id uuid entry error hnew hfits hbackend =>
      rw [HttpServer.respond, HttpServer.answer, leave_active, enter_active] at hother
      split_ifs at hother
      exact h.refused other entry' hother hid
  | @entered id uuid entry hnew hfits hbackend hphase =>
      rw [enter_active] at hother
      split_ifs at hother with heq
      · obtain rfl := Option.some.inj hother
        exact ⟨hrefuses (heq ▸ hid), hphase⟩
      · exact h.refused other entry' hother hid
  | @unmatched id entry status hentry hphase hrouting =>
      exact hleft id rfl ((leave_active s id entry.request.label status other).symm.trans hother)
  | @undecoded id entry status error hentry hphase hbody =>
      exact hleft id rfl ((leave_active s id entry.request.label status other).symm.trans hother)
  | @rejected id entry endpoint error hentry hphase hrouting hbody herror =>
      exact hraised (t := s.consult config id entry endpoint) id entry error rfl hother
  | @invalid id entry endpoint hentry hphase hrouting hbody hpassed hschema =>
      exact hleft id rfl ((leave_active (s.consult config id entry endpoint) id
        entry.request.label 422 other).symm.trans hother)
  | @unwritable id entry endpoint kind message hentry hphase hrouting hbody hpassed hschema =>
      exact hraised (t := s.consult config id entry endpoint) id entry _ rfl hother
  | @started id entry endpoint hentry hphase hrouting hbody hpassed hschema =>
      rw [start_active] at hother
      split_ifs at hother with heq
      · exact absurd (authorize_of_outcome hpassed)
          (h.unauthorized (heq ▸ hid) hentry hrouting hbody)
      · exact h.refused other entry' hother hid
  | @replied id entry status hentry hphase hreply =>
      exact hleft id rfl ((leave_active s id entry.request.label status other).symm.trans hother)
  | @raised id entry error hentry hphase hreply => exact hraised id entry error rfl hother
  | @left id entry hentry hphase | @cancelled id entry hentry hphase =>
      exact hleft id rfl ((leave_active s id entry.request.label 500 other).symm.trans hother)

end Kept

theorem kept_of_initial (hinit : Initial limit s) : s.Kept config hidden := by
  refine ⟨accounted_of_initial hinit, screened_of_initial hinit, fun id entry hentry => ?_⟩
  obtain ⟨service, rfl⟩ := hinit
  cases hentry

theorem without_of_initial (hinit : Initial limit s) : s.without hidden = s := by
  obtain ⟨service, rfl⟩ := hinit
  simp [without, hiddenLive, Table.live]

/-- **Refused requests do not interfere**: a run in which some requests are refused (they are too
large, meant for another backend or for no route, not readable as JSON, or without the token) ends
in the state in which the run without them ends, except for their own rows. In particular it leaves
the service as it was, takes nothing from the limits of anybody, and everybody else gets the same
answers. -/
theorem noninterference {actions : List (Action α)} (hinit : Initial limit s)
    (hrefused : ∀ a ∈ actions, Refuses config hidden a)
    (hrun : run (step config handlers) s actions = some s') :
    run (step config handlers) s (actions.filter (visible hidden)) = some (s'.without hidden) := by
  have hpurged := run_filter (without hidden) (visible hidden)
    (C := fun _ a => Refuses config hidden a) (I := Kept config hidden)
    (fun _ _ _ h hrefuses hstep => h.step hrefuses hstep)
    (fun _ _ _ _ _ hvisible hstep => step_without hvisible hstep)
    (fun _ _ _ h _ hhidden hstep => h.hides hhidden hstep)
    (kept_of_initial hinit) (fun a ha _ => hrefused a ha) hrun
  rwa [without_of_initial hinit] at hpurged

/-- The request without a token is hidden. -/
theorem noninterference_small : ∃ s,
    run (step smallConfig smallHandlers) smallServer smallRun = some s ∧
    run (step smallConfig smallHandlers) smallServer
      (smallRun.filter (visible fun id => id = 0)) = some (s.without fun id => id = 0) ∧
    s.service = [1] := by
  obtain ⟨s, hrun, hservice⟩ : ∃ s,
      run (step smallConfig smallHandlers) smallServer smallRun = some s ∧ s.service = [1] :=
    ⟨_, rfl, rfl⟩
  have hinit : Initial 1 smallServer := ⟨[], rfl⟩
  refine ⟨s, hrun, noninterference hinit (fun a ha => ?_) hrun, hservice⟩
  simp only [smallRun, List.mem_cons, List.not_mem_nil, or_false] at ha
  rcases ha with rfl | rfl | rfl | rfl | rfl | rfl | rfl
  · exact fun _ => rfl
  · exact fun hid => absurd hid (by decide)
  · exact fun hid => absurd hid (by decide)
  · trivial
  · trivial
  · trivial
  · trivial

end HttpServer

end RerankerService
