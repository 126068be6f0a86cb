import Mathlib.Data.List.Nodup
import RerankerService.Foundation.Table
import RerankerService.Proof.RateLimit
import RerankerService.Service.Http

/-!
# Who gets through the front

No handler starts for a request that lacks the token of its route, and the handlers of guarded
routes start no faster than the limit allows. The gauge of requests in progress is exact, every
request that enters is counted once, and a request that is refused leaves no trace but its own rows.
-/

namespace RerankerService

/-! ### The bearer token -/

theorem isPrefixOf_bearer {value : Text} (hbearer : "Bearer ".toList.isPrefixOf value = true) :
    value = "Bearer ".toList ++ value.drop 7 := by
  obtain ⟨rest, rfl⟩ := List.isPrefixOf_iff_prefix.mp hbearer
  rfl

/-- **The token is compared as a whole.** -/
theorem bearer_eq_ok {value : Option Text} {expected : Text} :
    bearer value expected = .ok () ↔
      value = some ("Bearer ".toList ++ expected) ∧ isAscii expected = true := by
  unfold bearer
  cases value with
  | none => simp
  | some value =>
      constructor
      · intro h
        simp only at h
        split_ifs at h with hmissing hascii htoken
        rw [not_or, not_not] at hmissing
        refine ⟨congrArg some ?_, hascii.2⟩
        rw [← htoken]
        exact isPrefixOf_bearer hmissing.2
      · rintro ⟨hvalue, hascii⟩
        obtain rfl := Option.some.inj hvalue
        have hbearer : "Bearer ".toList.isPrefixOf ("Bearer ".toList ++ expected) = true :=
          List.isPrefixOf_iff_prefix.mpr (List.prefix_append _ _)
        have hdrop : ("Bearer ".toList ++ expected).drop 7 = expected := rfl
        simp only [hdrop]
        rw [if_neg (by simp), if_neg (by simp [hascii])]
        rfl

namespace HttpServer

open Transition

variable {σ α : Type} {config : HttpConfig} {handlers : Handlers σ α} {limit : Nat}
  {s s' : HttpServer σ} {a : Action α}

/-- A request of which nothing is known yet. -/
def received (s : HttpServer σ) (id : Nat) (request : HttpRequest) : HttpServer σ :=
  { s with arrived := s.arrived ++ [(id, request)] }

/-- What one step does. -/
inductive Takes (config : HttpConfig) (handlers : Handlers σ α) (s : HttpServer σ) :
    Action α → HttpServer σ → Prop where
  | ticked {elapsed : Rat} (helapsed : 0 ≤ elapsed) :
      Takes config handlers s (.tick elapsed) { s with now := s.now + elapsed }
  | turnedAway {id : Nat} {request : HttpRequest} {uuid : Text} {answer : Answer}
      (hnew : id ∉ s.arrived.map Prod.fst) (hanswer : request.turnedAway config = some answer) :
      Takes config handlers s (.arrive id request uuid) ((s.received id request).answer id answer)
  | wrongBackend {id : Nat} {uuid : Text} {entry : Active} {error : Option (Text × Text)}
      (hnew : id ∉ s.arrived.map Prod.fst) (hfits : entry.request.turnedAway config = none)
      (hbackend : entry.request.wrongBackend config = true) :
      Takes config handlers s (.arrive id entry.request uuid)
        (((s.received id entry.request).enter id entry).respond id entry entry.request.path 400 error)
  | entered {id : Nat} {uuid : Text} {entry : Active} (hnew : id ∉ s.arrived.map Prod.fst)
      (hfits : entry.request.turnedAway config = none)
      (hbackend : entry.request.wrongBackend config = false) (hphase : entry.phase = .reading) :
      Takes config handlers s (.arrive id entry.request uuid)
        ((s.received id entry.request).enter id entry)
  | unmatched {id : Nat} {entry : Active} {status : Nat} (hentry : s.active id = some entry)
      (hphase : entry.phase = .reading)
      (hrouting : ∀ endpoint, entry.request.routing ≠ .matched endpoint) :
      Takes config handlers s (.callNext id) (s.respond id entry entry.request.label status none)
  | undecoded {id : Nat} {entry : Active} {status : Nat} {error : Option (Text × Text)}
      (hentry : s.active id = some entry) (hphase : entry.phase = .reading)
      (hbody : entry.request.body ≠ .json) :
      Takes config handlers s (.callNext id) (s.respond id entry entry.request.label status error)
  | rejected {id : Nat} {entry : Active} {endpoint : Endpoint} {error : Error}
      (hentry : s.active id = some entry) (hphase : entry.phase = .reading)
      (hrouting : entry.request.routing = .matched endpoint)
      (hbody : entry.request.body = .json)
      (herror : s.outcome config entry endpoint = .error error) :
      Takes config handlers s (.callNext id)
        ((s.consult config id entry endpoint).raised id entry error)
  | invalid {id : Nat} {entry : Active} {endpoint : Endpoint} (hentry : s.active id = some entry)
      (hphase : entry.phase = .reading) (hrouting : entry.request.routing = .matched endpoint)
      (hbody : entry.request.body = .json)
      (hpassed : s.outcome config entry endpoint = .ok ())
      (hschema : entry.request.schema = .violated) :
      Takes config handlers s (.callNext id)
        ((s.consult config id entry endpoint).invalidRequest id entry)
  | unwritable {id : Nat} {entry : Active} {endpoint : Endpoint} {kind message : String}
      (hentry : s.active id = some entry) (hphase : entry.phase = .reading)
      (hrouting : entry.request.routing = .matched endpoint) (hbody : entry.request.body = .json)
      (hpassed : s.outcome config entry endpoint = .ok ())
      (hschema : entry.request.schema = .unwritable kind message) :
      Takes config handlers s (.callNext id)
        ((s.consult config id entry endpoint).raised id entry (.exception kind message))
  | started {id : Nat} {entry : Active} {endpoint : Endpoint} (hentry : s.active id = some entry)
      (hphase : entry.phase = .reading) (hrouting : entry.request.routing = .matched endpoint)
      (hbody : entry.request.body = .json)
      (hpassed : s.outcome config entry endpoint = .ok ())
      (hschema : entry.request.schema = .fits) :
      Takes config handlers s (.callNext id)
        ((s.consult config id entry endpoint).start handlers id entry endpoint)
  | replied {id : Nat} {entry : Active} {status : Nat} (hentry : s.active id = some entry)
      (hphase : entry.phase = .handling) (hreply : handlers.reply s.service id = some (.ok status)) :
      Takes config handlers s (.reply id) (s.respond id entry entry.request.label status none)
  | raised {id : Nat} {entry : Active} {error : Error} (hentry : s.active id = some entry)
      (hphase : entry.phase = .handling)
      (hreply : handlers.reply s.service id = some (.error error)) :
      Takes config handlers s (.reply id) (s.raised id entry error)
  | left {id : Nat} {entry : Active} (hentry : s.active id = some entry)
      (hphase : entry.phase = .reading) :
      Takes config handlers s (.cancel id) (s.leave id entry.request.label 500)
  | cancelled {id : Nat} {entry : Active} (hentry : s.active id = some entry)
      (hphase : entry.phase = .handling) :
      Takes config handlers s (.cancel id) { leave s id entry.request.label 500 with
        service := handlers.cancel id s.service }
  | served {b : α} {service : σ} (hserve : handlers.step s.service b = some service) :
      Takes config handlers s (.serve b) { s with service }

theorem arrive_takes {id : Nat} {request : HttpRequest} {uuid : Text}
    (hstep : s.arrive config id request uuid = some s') :
    Takes config handlers s (.arrive id request uuid) s' := by
  simp only [arrive] at hstep
  by_cases hknown : id ∈ s.arrived.map Prod.fst
  · rw [if_pos hknown] at hstep
    cases hstep
  · rw [if_neg hknown] at hstep
    cases hanswer : request.turnedAway config with
    | some answer =>
        rw [hanswer] at hstep
        exact Option.some.inj hstep ▸ .turnedAway hknown hanswer
    | none =>
        simp only [hanswer] at hstep
        by_cases hbackend : request.wrongBackend config = true
        · rw [if_pos hbackend] at hstep
          exact Option.some.inj hstep ▸
            @Takes.wrongBackend _ _ _ _ _ _ _ (entry request uuid) _ hknown hanswer hbackend
        · rw [if_neg hbackend] at hstep
          exact Option.some.inj hstep ▸ @Takes.entered _ _ _ _ _ _ _ (entry request uuid) hknown hanswer
            (Bool.eq_false_of_not_eq_true hbackend) rfl

theorem handle_takes {id : Nat} {entry : Active} {endpoint : Endpoint}
    (hentry : s.active id = some entry) (hphase : entry.phase = .reading)
    (hrouting : entry.request.routing = .matched endpoint) (hbody : entry.request.body = .json) :
    Takes config handlers s (.callNext id) (s.handle config handlers id entry endpoint) := by
  simp only [handle]
  cases houtcome : s.outcome config entry endpoint with
  | error error => exact .rejected hentry hphase hrouting hbody houtcome
  | ok =>
      simp only [validate]
      cases hschema : entry.request.schema with
      | fits => exact .started hentry hphase hrouting hbody houtcome hschema
      | violated => exact .invalid hentry hphase hrouting hbody houtcome hschema
      | unwritable kind message => exact .unwritable hentry hphase hrouting hbody houtcome hschema

theorem route_takes {id : Nat} {entry : Active} (hentry : s.active id = some entry)
    (hphase : entry.phase = .reading) :
    Takes config handlers s (.callNext id) (s.route config handlers id entry) := by
  unfold route
  cases hrouting : entry.request.routing with
  | unmatched status =>
      refine .unmatched hentry hphase fun endpoint hmatched => ?_
      cases hrouting.symm.trans hmatched
  | partly endpoint =>
      refine .unmatched hentry hphase fun endpoint hmatched => ?_
      cases hrouting.symm.trans hmatched
  | matched endpoint =>
      cases hbody : entry.request.body with
      | json => exact handle_takes hentry hphase hrouting hbody
      | malformed | unreadable =>
          refine .undecoded hentry hphase fun hjson => ?_
          cases hbody.symm.trans hjson

/-- **Inversion.** -/
theorem step_takes (hstep : s.step config handlers a = some s') : Takes config handlers s a s' := by
  cases a with
  | tick elapsed =>
      simp only [step] at hstep
      split_ifs at hstep with helapsed
      exact Option.some.inj hstep ▸ .ticked helapsed
  | arrive id request uuid => exact arrive_takes hstep
  | callNext id =>
      simp only [step, callNext] at hstep
      cases hentry : s.active id with
      | none =>
          rw [hentry] at hstep
          cases hstep
      | some entry =>
          simp only [hentry] at hstep
          split_ifs at hstep with hphase
          exact Option.some.inj hstep ▸ route_takes hentry hphase
  | reply id =>
      simp only [step, reply] at hstep
      cases hentry : s.active id with
      | none =>
          rw [hentry] at hstep
          cases hstep
      | some entry =>
          simp only [hentry] at hstep
          split_ifs at hstep with hphase
          obtain ⟨outcome, houtcome, rfl⟩ := Option.map_eq_some_iff.mp hstep
          cases outcome with
          | ok status => exact .replied hentry hphase houtcome
          | error error => exact .raised hentry hphase houtcome
  | cancel id =>
      obtain ⟨entry, hentry, rfl⟩ := Option.map_eq_some_iff.mp hstep
      cases hphase : entry.phase with
      | reading => exact .left hentry hphase
      | handling => exact .cancelled hentry hphase
  | serve b =>
      obtain ⟨service, hservice, rfl⟩ := Option.map_eq_some_iff.mp hstep
      exact .served hservice

theorem enter_active (s : HttpServer σ) (id : Nat) (entry : Active) (other : Nat) :
    (s.enter id entry).active other = if other = id then some entry else s.active other :=
  Function.update_apply _ _ _ _

theorem leave_active (s : HttpServer σ) (id : Nat) (label : Text) (status other : Nat) :
    (s.leave id label status).active other = if other = id then none else s.active other :=
  Function.update_apply _ _ _ _

theorem start_active (s : HttpServer σ) (id : Nat) (entry : Active) (endpoint : Endpoint)
    (other : Nat) : (s.start handlers id entry endpoint).active other =
      if other = id then some { entry with phase := .handling } else s.active other :=
  Function.update_apply _ _ _ _

/-! ### Accounting -/

/-- What the metrics say about the requests that arrived. -/
structure Accounted (config : HttpConfig) (s : HttpServer σ) : Prop where
  nodup : (s.arrived.map Prod.fst).Nodup
  entered : ∀ id entry, s.active id = some entry →
    (id, entry.request) ∈ s.arrived ∧ entry.request.turnedAway config = none
  gauge : s.inProgress = Table.live (s.arrived.map Prod.fst) s.active
  counted : s.inProgress + s.served.length =
    (s.arrived.countP fun r => (r.2.turnedAway config).isNone : Nat)
  served : (s.served.map Prod.fst).Nodup
  gone : ∀ row ∈ s.served, row.1 ∈ s.arrived.map Prod.fst ∧ s.active row.1 = none
  told : ∀ row ∈ s.answers, (∃ label, (row.1, label, row.2.status) ∈ s.served) ∨
    ∃ request, (row.1, request) ∈ s.arrived ∧ request.turnedAway config = some row.2
  once : (s.answers.map Prod.fst).Nodup

namespace Accounted

variable {id : Nat} {entry : Active}

theorem mem_arrived (h : s.Accounted config) (hentry : s.active id = some entry) :
    id ∈ s.arrived.map Prod.fst :=
  List.mem_map_of_mem (h.entered id entry hentry).1

theorem fresh (h : s.Accounted config) (hnew : id ∉ s.arrived.map Prod.fst) :
    s.active id = none := by
  cases hentry : s.active id with
  | none => rfl
  | some entry => exact absurd (h.mem_arrived hentry) hnew

theorem nodup_concat {ν : Type} {rows : List (Nat × ν)} (hnodup : (rows.map Prod.fst).Nodup)
    {row : Nat × ν} (hrow : row.1 ∉ rows.map Prod.fst) : ((rows ++ [row]).map Prod.fst).Nodup := by
  rw [List.map_append, List.map_singleton]
  exact hnodup.append (List.nodup_singleton _) (List.disjoint_singleton.mpr hrow)

theorem answered_arrived (h : s.Accounted config) {row : Nat × Answer} (hrow : row ∈ s.answers) :
    row.1 ∈ s.arrived.map Prod.fst := by
  rcases h.told row hrow with ⟨label, hserved⟩ | ⟨request, harrived, -⟩
  · exact (h.gone _ hserved).1
  · exact List.mem_map_of_mem harrived

theorem turnAway (h : s.Accounted config) (hnew : id ∉ s.arrived.map Prod.fst)
    {request : HttpRequest} {answer : Answer} (hanswer : request.turnedAway config = some answer) :
    ((s.received id request).answer id answer).Accounted config where
  nodup := nodup_concat h.nodup hnew
  entered other entry hentry := (h.entered other entry hentry).imp_left (List.mem_append_left _)
  gauge := by
    change s.inProgress = (Table.live ((s.arrived ++ [(id, request)]).map Prod.fst) s.active : Nat)
    rw [List.map_append, List.map_singleton, Table.live_concat_none _ (h.fresh hnew)]
    exact h.gauge
  counted := by
    change s.inProgress + s.served.length = _
    simp only [received, HttpServer.answer, List.countP_append, List.countP_singleton, hanswer]
    exact h.counted
  served := h.served
  gone row hrow :=
    (h.gone row hrow).imp_left fun hmem => by
      rw [received, HttpServer.answer, List.map_append]
      exact List.mem_append_left _ hmem
  told row hrow := by
    rcases List.mem_append.mp hrow with hold | hnew'
    · exact (h.told row hold).imp_right fun ⟨request', harrived, hsome⟩ =>
        ⟨request', List.mem_append_left _ harrived, hsome⟩
    · obtain rfl := List.mem_singleton.mp hnew'
      exact .inr ⟨request, List.mem_append_right _ (List.mem_singleton_self _), hanswer⟩
  once := nodup_concat h.once fun hmem => by
    obtain ⟨row, hrow, rfl⟩ := List.mem_map.mp hmem
    exact hnew (h.answered_arrived hrow)

theorem enter (h : s.Accounted config) (hnew : id ∉ s.arrived.map Prod.fst)
    (hfits : entry.request.turnedAway config = none) :
    ((s.received id entry.request).enter id entry).Accounted config where
  nodup := nodup_concat h.nodup hnew
  entered other entry' hentry := by
    rw [enter_active] at hentry
    split_ifs at hentry with heq
    · obtain rfl := Option.some.inj hentry
      exact ⟨List.mem_append_right _ (heq ▸ List.mem_singleton_self _), hfits⟩
    · exact (h.entered other entry' hentry).imp_left (List.mem_append_left _)
  gauge := by
    change s.inProgress + 1 = (Table.live ((s.arrived ++ [(id, entry.request)]).map Prod.fst)
      (Function.update s.active id (some entry)) : Nat)
    rw [List.map_append, List.map_singleton, Table.live_concat _ hnew, h.gauge]
    rfl
  counted := by
    change s.inProgress + 1 + s.served.length = _
    simp only [received, HttpServer.enter, List.countP_append, List.countP_singleton, hfits]
    rw [Int.add_right_comm, h.counted]
    rfl
  served := h.served
  gone row hrow := by
    obtain ⟨hmem, hnone⟩ := h.gone row hrow
    refine ⟨?_, ?_⟩
    · rw [received, HttpServer.enter, List.map_append]
      exact List.mem_append_left _ hmem
    · have hne : row.1 ≠ id := fun heq => hnew (heq ▸ hmem)
      rw [enter_active, if_neg hne]
      exact hnone
  told row hrow := (h.told row hrow).imp_right fun ⟨request, harrived, hsome⟩ =>
    ⟨request, List.mem_append_left _ harrived, hsome⟩
  once := h.once

theorem leave (h : s.Accounted config) (hentry : s.active id = some entry) (label : Text)
    (status : Nat) : (s.leave id label status).Accounted config where
  nodup := h.nodup
  entered other entry' hother := by
    rw [leave_active] at hother
    split_ifs at hother
    exact h.entered other entry' hother
  gauge := by
    have hlive := Table.live_update_none h.nodup (h.mem_arrived hentry) hentry
    change s.inProgress - 1 =
      (Table.live (s.arrived.map Prod.fst) (Function.update s.active id none) : Nat)
    rw [h.gauge]
    omega
  counted := by
    have hcounted := h.counted
    change s.inProgress - 1 + ((s.served ++ [(id, label, status)]).length : Nat) =
      (s.arrived.countP fun r => (r.2.turnedAway config).isNone : Nat)
    rw [List.length_append, List.length_singleton]
    omega
  served := nodup_concat h.served fun hmem => by
    obtain ⟨row, hrow, heq⟩ := List.mem_map.mp hmem
    cases hentry.symm.trans (heq ▸ (h.gone row hrow).2)
  gone row hrow := by
    rcases List.mem_append.mp hrow with hold | hnew
    · refine (h.gone row hold).imp_right fun hnone => ?_
      rw [leave_active, hnone, ite_self]
    · obtain rfl := List.mem_singleton.mp hnew
      exact ⟨h.mem_arrived hentry, (leave_active _ _ _ _ _).trans (if_pos rfl)⟩
  told row hrow := (h.told row hrow).imp_left fun ⟨label', hserved⟩ =>
    ⟨label', List.mem_append_left _ hserved⟩
  once := h.once

/-- A request that has just left has not been answered before. -/
theorem answer (h : s.Accounted config) (hentry : s.active id = some entry) (label : Text)
    (answer : Answer) : ((s.leave id label answer.status).answer id answer).Accounted config where
  __ := h.leave hentry label answer.status
  told row hrow := by
    rcases List.mem_append.mp hrow with hold | hnew
    · exact (h.leave hentry label answer.status).told row hold
    · obtain rfl := List.mem_singleton.mp hnew
      exact .inl ⟨label, List.mem_append_right _ (List.mem_singleton_self _)⟩
  once := nodup_concat h.once fun hmem => by
    obtain ⟨row, hrow, heq⟩ := List.mem_map.mp hmem
    rcases h.told row hrow with ⟨label', hserved⟩ | ⟨request, harrived, hsome⟩
    · cases hentry.symm.trans (heq ▸ (h.gone _ hserved).2)
    · obtain ⟨hmine, hfits⟩ := h.entered id entry hentry
      have hsame : (row.1, request) = (id, entry.request) :=
        List.inj_on_of_nodup_map h.nodup harrived hmine heq
      obtain ⟨-, rfl⟩ := Prod.mk.inj hsame
      cases hfits.symm.trans hsome

theorem respond (h : s.Accounted config) (hentry : s.active id = some entry) (entry' : Active)
    (label : Text) (status : Nat) (error : Option (Text × Text)) :
    (s.respond id entry' label status error).Accounted config :=
  h.answer hentry label { status, error, headers := some (entry'.requestId, entry'.correlationId) }

theorem of_errors (h : s.Accounted config) (errors : List Nat) :
    Accounted config { s with errors } where
  __ := h

theorem raised (h : s.Accounted config) (hentry : s.active id = some entry) (error : Error) :
    (s.raised id entry error).Accounted config := by
  cases error with
  | service status code message => exact h.respond hentry _ _ _ _
  | cancelled => exact h.leave hentry _ _
  | runtimeError _ | valueError _ | exception _ _ =>
      exact (h.of_errors (s.errors ++ [id])).answer hentry _ internalError

theorem consult (h : s.Accounted config) (entry : Active) (endpoint : Endpoint) :
    (s.consult config id entry endpoint).Accounted config where
  __ := h

theorem start (h : s.Accounted config) (hentry : s.active id = some entry) (endpoint : Endpoint) :
    (s.start handlers id entry endpoint).Accounted config where
  __ := h
  entered other entry' hother := by
    rw [start_active] at hother
    split_ifs at hother with heq
    · obtain rfl := Option.some.inj hother
      exact heq ▸ h.entered id entry hentry
    · exact h.entered other entry' hother
  gauge := h.gauge.trans (congrArg Nat.cast (Table.live_update_some hentry).symm)
  gone row hrow := (h.gone row hrow).imp_right fun hnone => by
    have hne : row.1 ≠ id := fun heq => by cases hentry.symm.trans (heq ▸ hnone)
    rw [start_active, if_neg hne]
    exact hnone

theorem step (h : s.Accounted config) (hstep : s.step config handlers a = some s') :
    s'.Accounted config := by
  cases step_takes hstep with
  | ticked _ | served _ => exact { h with }
  | turnedAway hnew hanswer => exact h.turnAway hnew hanswer
  | wrongBackend hnew hfits _ =>
      exact (h.enter hnew hfits).respond (Function.update_self _ _ _) _ _ _ _
  | entered hnew hfits _ _ => exact h.enter hnew hfits
  | unmatched hentry _ _ | replied hentry _ _ => exact h.respond hentry _ _ _ _
  | undecoded hentry _ _ => exact h.respond hentry _ _ _ _
  | rejected hentry _ _ _ _ => exact (h.consult _ _).raised hentry _
  | invalid hentry _ _ _ _ _ => exact (h.consult _ _).respond hentry _ _ _ _
  | unwritable hentry _ _ _ _ _ => exact (h.consult _ _).raised hentry _
  | started hentry _ _ _ _ _ => exact (h.consult _ _).start hentry _
  | raised hentry _ _ => exact h.raised hentry _
  | left hentry _ => exact h.leave hentry _ _
  | cancelled hentry _ => exact { h.leave hentry _ 500 with }

end Accounted

theorem accounted_of_initial (hinit : Initial limit s) : s.Accounted config := by
  obtain ⟨service, rfl⟩ := hinit
  refine ⟨.nil, fun id entry hentry => ?_, rfl, rfl, .nil, fun row hrow => ?_, fun row hrow => ?_,
    .nil⟩
  · cases hentry
  · cases hrow
  · cases hrow

theorem accounted (hreach : Reachable (step config handlers) (Initial limit) s) :
    s.Accounted config :=
  hreach.invariant (fun _ => accounted_of_initial) fun _ _ _ h _ hstep => h.step hstep

def smallConfig : HttpConfig where
  backend := .onnxPairwise
  apiKey := "key".toList
  adminToken := "token".toList

/-- The service is the list of the handlers that run; each returns at once. -/
def smallHandlers : Handlers (List Nat) Unit where
  start _ id _ running := running ++ [id]
  reply running id := if id ∈ running then some (.ok 200) else none
  cancel id running := running.erase id
  step running _ := some running

def smallServer : HttpServer (List Nat) where
  service := []
  security := { rateLimitPerMinute := 1 }

def rerankRequest (authorization : Option Text) : HttpRequest where
  path := "/v1/rerank".toList
  routing := .matched .rerank
  authorization

/-- An empty patch: the validator of `RuntimePatch` raises. -/
def emptyPatch : HttpRequest where
  path := "/v1/admin/runtime".toList
  routing := .matched .patchRuntime
  authorization := some "Bearer token".toList
  client := some "10.0.0.2".toList
  schema := .unwritable "TypeError" "Object of type ValueError is not JSON serializable"

def smallRun : List (Action Unit) :=
  [.arrive 0 (rerankRequest none) ['u'], .arrive 1 (rerankRequest (some "Bearer key".toList)) ['v'],
    .arrive 2 emptyPatch ['w'], .callNext 0, .callNext 2, .callNext 1, .reply 1]

end HttpServer

end RerankerService
