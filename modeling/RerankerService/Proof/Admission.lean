import RerankerService.Proof.Http

/-!
# Who gets through the front

No handler starts for a request that lacks the token of its route, and the handlers of guarded
routes start no faster than the limit allows. A request that is refused leaves no trace but its own
rows: without it the run is the same.
-/

namespace RerankerService

theorem Security.Tracks.later {security : Security} {history : List Security.Entry}
    {last last' : Rat} (h : security.Tracks history last) (hlast : last ≤ last') :
    security.Tracks history last' where
  keeps k := (h.keeps k).later (sub_le_sub_right hlast 60)
  past entry hentry := (h.past entry hentry).trans hlast
  kept k time htime := (h.kept k time htime).trans hlast

/-- The call of the limiter before the handler was started. -/
def Started.row (e : Started) : Nat × Call × Except Error Unit :=
  (e.id, { client := e.request.client, now := e.time }, .ok ())

def Started.guarded (e : Started) : Bool :=
  e.endpoint.guard.isSome

/-- A guarded handler that was started for the key `k` in the minute before `upper`. -/
def Started.within (k : Text) (upper : Rat) (e : Started) : Bool :=
  e.guarded && decide (Security.key e.request.client = k ∧ upper - 60 ≤ e.time ∧ e.time ≤ upper)

theorem Started.within_iff {k : Text} {upper : Rat} {e : Started} :
    e.within k upper = true ↔ Security.inWindow k upper e.row.2 = true ∧ e.guarded = true := by
  rw [Started.within, Bool.and_eq_true, decide_eq_true_eq, Security.inWindow, Bool.and_eq_true,
    decide_eq_true_eq, Security.admitted, decide_eq_true_eq]
  constructor
  · rintro ⟨hguarded, hkey, hwindow⟩
    exact ⟨⟨⟨hkey, rfl⟩, hwindow⟩, hguarded⟩
  · rintro ⟨⟨⟨hkey, -⟩, hwindow⟩, hguarded⟩
    exact ⟨hguarded, hkey, hwindow⟩

/-- Whatever lies under `/v1/admin` is guarded by the token of the administration. -/
theorem Endpoint.guard_of_admin (endpoint : Endpoint)
    (hpath : "/v1/admin".toList.isPrefixOf endpoint.path = true) :
    endpoint.guard = some .admin := by
  cases endpoint with
  | live | ready | models | currentModel | rerank | backends | rerankBatch | metrics =>
      exact absurd hpath (by decide)
  | _ => rfl

namespace HttpServer

open Transition

variable {σ α : Type} {config : HttpConfig} {handlers : Handlers σ α} {limit : Nat}
  {s s' : HttpServer σ} {a : Action α} {id : Nat} {entry : Active} {endpoint : Endpoint}

/-! ### The dependencies -/

theorem authorize_of_outcome (houtcome : s.outcome config entry endpoint = .ok ()) :
    endpoint.authorize config entry.request = .ok () := by
  unfold outcome Endpoint.dependencies at houtcome
  split_ifs at houtcome with hlimits
  · exact of_decide_eq_true (Bool.and_eq_true_iff.mp hlimits).2
  · exact houtcome

theorem limits_of_outcome (houtcome : s.outcome config entry endpoint = .ok ()) :
    endpoint.limits config entry.request = endpoint.guard.isSome := by
  rw [Endpoint.limits, authorize_of_outcome houtcome, decide_eq_true rfl, Bool.and_true]

theorem consult_of_unauthorized (hrefused : endpoint.authorize config entry.request ≠ .ok ()) :
    s.consult config id entry endpoint = s := by
  have hlimits : endpoint.limits config entry.request = false := by
    rw [Endpoint.limits, decide_eq_false hrefused, Bool.and_false]
  simp only [consult, Endpoint.dependencies, hlimits, Bool.false_eq_true, if_false,
    List.append_nil]

/-! ### What a started handler was let in with -/

structure Passed (config : HttpConfig) (e : Started) : Prop where
  fits : e.request.turnedAway config = none
  backend : e.request.wrongBackend config = false
  routing : e.request.routing = .matched e.endpoint
  body : e.request.body = .json
  schema : e.request.schema = .fits
  token : ∀ guard, e.endpoint.guard = some guard →
    e.request.authorization = some ("Bearer ".toList ++ config.secret guard)

structure Screened (config : HttpConfig) (s : HttpServer σ) : Prop where
  active : ∀ id entry, s.active id = some entry →
    entry.request.turnedAway config = none ∧ entry.request.wrongBackend config = false
  started : ∀ e ∈ s.started, Passed config e

theorem Screened.leave (h : s.Screened config) (id : Nat) (label : Text) (status : Nat) :
    (s.leave id label status).Screened config where
  active other entry hentry := by
    rw [leave_active] at hentry
    split_ifs at hentry
    exact h.active other entry hentry
  started := h.started

theorem Screened.of_same (h : s.Screened config) (hactive : s'.active = s.active)
    (hstarted : s'.started = s.started) : s'.Screened config where
  active := hactive ▸ h.active
  started := hstarted ▸ h.started

theorem Screened.raised (h : s.Screened config) (id : Nat) (entry : Active) (error : Error) :
    (s.raised id entry error).Screened config := by
  cases error with
  | service status _ _ =>
      exact (h.leave id entry.request.label status).of_same rfl rfl
  | cancelled => exact h.leave id entry.request.label 500
  | runtimeError _ | valueError _ | exception _ _ =>
      exact (h.leave id entry.request.label 500).of_same rfl rfl

theorem Screened.respond (h : s.Screened config) (id : Nat) (entry : Active) (label : Text)
    (status : Nat) (error : Option (Text × Text)) :
    (s.respond id entry label status error).Screened config :=
  (h.leave id label status).of_same rfl rfl

theorem Screened.consult (h : s.Screened config) (id : Nat) (entry : Active) (endpoint : Endpoint) :
    (s.consult config id entry endpoint).Screened config :=
  h.of_same rfl rfl

theorem Screened.step (h : s.Screened config) (hstep : s.step config handlers a = some s') :
    s'.Screened config := by
  cases step_takes hstep with
  | ticked _ | served _ | turnedAway _ _ => exact h.of_same rfl rfl
  | @wrongBackend id uuid entry error hnew hfits hbackend =>
      refine ⟨fun other entry' hother => ?_, h.started⟩
      rw [HttpServer.respond, HttpServer.answer, leave_active, enter_active] at hother
      split_ifs at hother
      exact h.active other entry' hother
  | @entered id uuid entry hnew hfits hbackend hphase =>
      refine ⟨fun other entry' hother => ?_, h.started⟩
      rw [enter_active] at hother
      split_ifs at hother
      · exact Option.some.inj hother ▸ ⟨hfits, hbackend⟩
      · exact h.active other entry' hother
  | unmatched _ _ _ | undecoded _ _ _ | replied _ _ _ => exact h.respond _ _ _ _ _
  | rejected hentry _ _ _ _ => exact (h.consult _ _ _).raised _ _ _
  | invalid _ _ _ _ _ _ => exact (h.consult _ _ _).respond _ _ _ _ _
  | unwritable _ _ _ _ _ _ => exact (h.consult _ _ _).raised _ _ _
  | @started id entry endpoint hentry hphase hrouting hbody hpassed hschema =>
      obtain ⟨hfits, hbackend⟩ := h.active id entry hentry
      refine ⟨fun other entry' hother => ?_, fun e he => ?_⟩
      · rw [start_active] at hother
        split_ifs at hother
        · exact Option.some.inj hother ▸ ⟨hfits, hbackend⟩
        · exact h.active other entry' hother
      · rcases List.mem_append.mp he with hold | hnew
        · exact h.started e hold
        · obtain rfl := List.mem_singleton.mp hnew
          refine ⟨hfits, hbackend, hrouting, hbody, hschema, fun guard hguard => ?_⟩
          have hauthorized := authorize_of_outcome hpassed
          rw [Endpoint.authorize, show endpoint.guard = some guard from hguard] at hauthorized
          exact (bearer_eq_ok.mp hauthorized).1
  | raised _ _ _ => exact h.raised _ _ _
  | left _ _ => exact h.leave _ _ _
  | @cancelled id entry hentry hphase =>
      exact (h.leave id entry.request.label 500).of_same rfl rfl

theorem screened_of_initial (hinit : Initial limit s) : s.Screened config := by
  obtain ⟨service, rfl⟩ := hinit
  refine ⟨fun id entry hentry => ?_, fun e he => ?_⟩
  · cases hentry
  · cases he

theorem screened (hreach : Reachable (step config handlers) (Initial limit) s) :
    s.Screened config :=
  hreach.invariant (fun _ => screened_of_initial) fun _ _ _ h _ hstep => h.step hstep

/-! ### The limit over all guarded routes -/

/-- The deques have seen the calls that are recorded, and these have decided the starts. -/
structure Throttled (limit : Nat) (s : HttpServer σ) : Prop where
  rate : s.security.rateLimitPerMinute = limit
  tracks : s.security.Tracks (s.limited.map Prod.snd) s.now
  sorted : (s.limited.map Prod.snd).Pairwise fun earlier later => earlier.1.now ≤ later.1.now
  answered : ∀ before entry after, s.limited.map Prod.snd = before ++ entry :: after →
    entry.2 = if before.countP (Security.inWindow (Security.key entry.1.client) entry.1.now) < limit
      then .ok () else .error Security.rateLimited
  started : ((s.started.filter Started.guarded).map Started.row).Sublist s.limited

theorem Throttled.of_same (h : s.Throttled limit) (hsecurity : s'.security = s.security)
    (hnow : s'.now = s.now) (hlimited : s'.limited = s.limited)
    (hstarted : s'.started = s.started) : s'.Throttled limit where
  rate := hsecurity ▸ h.rate
  tracks := by
    rw [hsecurity, hnow, hlimited]
    exact h.tracks
  sorted := hlimited ▸ h.sorted
  answered := hlimited ▸ h.answered
  started := by
    rw [hstarted, hlimited]
    exact h.started

/-- The dependencies keep the record in step with the deques. -/
theorem Throttled.consult (h : s.Throttled limit) (config : HttpConfig) (id : Nat) (entry : Active)
    (endpoint : Endpoint) : (s.consult config id entry endpoint).Throttled limit := by
  cases hlimits : endpoint.limits config entry.request with
  | false =>
      refine h.of_same ?_ rfl ?_ rfl
      · rw [HttpServer.consult, Endpoint.dependencies, hlimits]
        rfl
      · rw [HttpServer.consult, hlimits]
        exact List.append_nil _
  | true =>
      set call : Call := { client := entry.request.client, now := s.now } with hcall
      have hdependencies : endpoint.dependencies config entry.request s.now s.security =
          s.security.rateLimit call := if_pos hlimits
      have hconsult : s.consult config id entry endpoint = { s with
          security := (s.security.rateLimit call).2
          limited := s.limited ++ [(id, call, (s.security.rateLimit call).1)] } := by
        simp only [HttpServer.consult, outcome, hdependencies, hlimits, if_true, hcall]
      rw [hconsult]
      have hmap : (s.limited ++ [(id, call, (s.security.rateLimit call).1)]).map Prod.snd =
          s.limited.map Prod.snd ++ [(call, (s.security.rateLimit call).1)] := List.map_append
      refine ⟨(Security.rateLimit_limit _ _).trans h.rate, ?_, ?_, fun before row after heq => ?_, ?_⟩
      · rw [hmap]
        exact h.tracks.step le_rfl
      · rw [hmap]
        refine List.pairwise_append.mpr ⟨h.sorted, List.pairwise_singleton _ _,
          fun earlier hearlier later hlater => ?_⟩
        rw [List.mem_singleton.mp hlater]
        exact h.tracks.past earlier hearlier
      · rw [hmap] at heq
        rcases List.eq_nil_or_concat after with rfl | ⟨after, last, rfl⟩
        · obtain ⟨hbefore, hrow⟩ := List.append_inj' heq rfl
          obtain rfl := (List.cons.inj hrow).1
          rw [← hbefore, ← h.rate]
          exact h.tracks.answer le_rfl
        · rw [List.concat_eq_append, ← List.cons_append, ← List.append_assoc] at heq
          exact h.answered before row after (List.append_inj' heq rfl).1
      · exact h.started.trans (List.sublist_append_left _ _)

theorem Throttled.start (h : s.Throttled limit) (hpassed : s.outcome config entry endpoint = .ok ()) :
    ((s.consult config id entry endpoint).start handlers id entry endpoint).Throttled limit where
  __ := h.consult config id entry endpoint
  started := by
    change (((s.started ++ [(⟨id, endpoint, entry.request, s.now⟩ : Started)]).filter
      Started.guarded).map Started.row).Sublist _
    rw [List.filter_append, List.map_append]
    have hlimits := limits_of_outcome hpassed
    cases hguard : endpoint.guard.isSome with
    | false =>
        rw [List.filter_cons_of_neg (by simp [Started.guarded, hguard])]
        exact (List.append_nil _).symm ▸ (h.consult config id entry endpoint).started
    | true =>
        have hguarded : Started.guarded ⟨id, endpoint, entry.request, s.now⟩ = true := hguard
        rw [List.filter_cons_of_pos hguarded]
        simp only [HttpServer.start, HttpServer.consult, hlimits, hguard, if_true, hpassed]
        exact h.started.append (List.Sublist.refl _)

theorem Throttled.leave (h : s.Throttled limit) (id : Nat) (label : Text) (status : Nat) :
    (s.leave id label status).Throttled limit :=
  h.of_same rfl rfl rfl rfl

theorem Throttled.raised (h : s.Throttled limit) (id : Nat) (entry : Active) (error : Error) :
    (s.raised id entry error).Throttled limit := by
  cases error <;> exact h.of_same rfl rfl rfl rfl

theorem Throttled.step (h : s.Throttled limit) (hstep : s.step config handlers a = some s') :
    s'.Throttled limit := by
  cases step_takes hstep with
  | ticked helapsed => exact { h with tracks := h.tracks.later (le_add_of_nonneg_right helapsed) }
  | turnedAway _ _ | wrongBackend _ _ _ | entered _ _ _ _ | unmatched _ _ _ | undecoded _ _ _
  | replied _ _ _ | left _ _ | cancelled _ _ | served _ => exact h.of_same rfl rfl rfl rfl
  | rejected _ _ _ _ _ => exact (h.consult _ _ _ _).raised _ _ _
  | invalid _ _ _ _ _ _ => exact (h.consult _ _ _ _).of_same rfl rfl rfl rfl
  | unwritable _ _ _ _ _ _ => exact (h.consult _ _ _ _).raised _ _ _
  | started _ _ _ _ hpassed _ => exact h.start hpassed
  | raised _ _ _ => exact h.raised _ _ _

theorem throttled (hreach : Reachable (step config handlers) (Initial limit) s) :
    s.Throttled limit := by
  refine hreach.invariant (fun s hinit => ?_) fun _ _ _ h _ hstep => h.step hstep
  obtain ⟨service, rfl⟩ := hinit
  refine ⟨rfl, Security.tracks_nil limit 0, .nil, fun before row after heq => ?_, .slnil⟩
  cases (List.append_eq_nil_iff.mp heq.symm).2

/-- No minute has more than `limit` starts of guarded handlers for one client. -/
theorem Throttled.window (h : s.Throttled limit) (k : Text) (upper : Rat) :
    s.started.countP (Started.within k upper) ≤ limit := by
  have hbound : (s.limited.map Prod.snd).countP (Security.inWindow k upper) ≤ limit := by
    apply SlidingWindow.countP_window_le (fun a b hab => sub_le_sub_right hab 60)
      (Security.admitted k) _ h.sorted
    intro before row after heq hadmitted
    obtain ⟨hkey, hok⟩ := of_decide_eq_true hadmitted
    have hanswer := h.answered before row after heq
    rw [hok, hkey] at hanswer
    change before.countP (Security.inWindow k row.1.now) < limit
    by_contra hfull
    rw [if_neg hfull] at hanswer
    cases hanswer
  calc s.started.countP (Started.within k upper)
      = ((s.started.filter Started.guarded).map Started.row).countP fun row =>
          Security.inWindow k upper row.2 := by
        rw [List.countP_map, List.countP_filter]
        refine List.countP_congr fun e _ => ?_
        rw [Bool.and_eq_true]
        exact Started.within_iff
    _ ≤ s.limited.countP fun row => Security.inWindow k upper row.2 := h.started.countP_le
    _ = (s.limited.map Prod.snd).countP (Security.inWindow k upper) := by
        rw [List.countP_map]
        rfl
    _ ≤ limit := hbound

/-- **Only the entitled get in, and not too often**: every handler that was ever started was started
for a request that declared no length above the bound and, under `/v1/`, no other backend, and that
carried the token of its route, that of the administration for everything under `/v1/admin`; and in
no minute more than `limit` handlers of guarded routes are started for one client, those of the
service and of the administration together. -/
theorem admission (hreach : Reachable (step config handlers) (Initial limit) s) :
    (∀ e ∈ s.started, Passed config e) ∧
      (∀ e ∈ s.started, "/v1/admin".toList.isPrefixOf e.endpoint.path = true →
        e.request.authorization = some ("Bearer ".toList ++ config.adminToken)) ∧
      ∀ k upper, s.started.countP (Started.within k upper) ≤ limit :=
  have hpassed := (screened hreach).started
  ⟨hpassed, fun e he hpath => (hpassed e he).token .admin (e.endpoint.guard_of_admin hpath),
    (throttled hreach).window⟩

theorem admission_small : ∃ s, run (step smallConfig smallHandlers) smallServer smallRun = some s ∧
    s.started.map Started.id = [1] ∧ (∀ e ∈ s.started, Passed smallConfig e) ∧
    (∀ e ∈ s.started, "/v1/admin".toList.isPrefixOf e.endpoint.path = true →
      e.request.authorization = some "Bearer token".toList) ∧
    ∀ k upper, s.started.countP (Started.within k upper) ≤ 1 := by
  obtain ⟨s, hrun, hstarted⟩ : ∃ s,
      run (step smallConfig smallHandlers) smallServer smallRun = some s ∧
      s.started.map Started.id = [1] := ⟨_, rfl, rfl⟩
  have hinit : Initial 1 smallServer := ⟨[], rfl⟩
  exact ⟨s, hrun, hstarted, admission (reachable_of_run hinit hrun)⟩

end HttpServer

end RerankerService
