import RerankerService.Security

/-!
# The rate limiter is an exact sliding window

The deque of a client and the times at which its calls were admitted agree from the last cutoff on.
Calls with a non-decreasing clock only move the cutoff forward, so the length of the trimmed deque is
the number of admitted calls in the window.
-/

namespace RerankerService.Security

open SlidingWindow

abbrev Entry := Call × Except Error Unit

/-- An entry of the log that was admitted for the client `k`. -/
def admitted (k : Text) (entry : Entry) : Bool :=
  key entry.1.client = k ∧ entry.2 = .ok ()

/-- An admitted entry for the client `k` in the window `[now - 60, now]`. -/
def inWindow (k : Text) (now : Rat) (entry : Entry) : Bool :=
  admitted k entry && decide (now - 60 ≤ entry.1.now ∧ entry.1.now ≤ now)

def admittedTimes (k : Text) (history : List Entry) : List Rat :=
  (history.filter (admitted k)).map fun entry => entry.1.now

theorem admittedTimes_concat (k : Text) (history : List Entry) (call : Call)
    (answer : Except Error Unit) :
    admittedTimes k (history ++ [(call, answer)]) = admittedTimes k history ++
      if key call.client = k ∧ answer = .ok () then [call.now] else [] := by
  rw [admittedTimes, List.filter_append, List.map_append]
  by_cases hadmitted : key call.client = k ∧ answer = .ok ()
  · rw [if_pos hadmitted]
    simp [admittedTimes, admitted, hadmitted]
  · rw [if_neg hadmitted]
    simp [admittedTimes, admitted, hadmitted]

/-- The deque of the client of `call`, without what is too old at `call.now`. -/
def window (security : Security) (call : Call) : List Rat :=
  expire (call.now - 60) (security.requests (key call.client))

theorem rateLimit_of_full {security : Security} {call : Call}
    (hfull : security.rateLimitPerMinute ≤ (security.window call).length) :
    security.rateLimit call = (.error rateLimited, { security with
      requests := Function.update security.requests (key call.client) (security.window call) }) :=
  if_pos hfull

theorem rateLimit_of_room {security : Security} {call : Call}
    (hroom : (security.window call).length < security.rateLimitPerMinute) :
    security.rateLimit call = (.ok (), { security with
      requests := Function.update security.requests (key call.client)
        (security.window call ++ [call.now]) }) :=
  if_neg hroom.not_ge

/-- What the deques hold after `history`, whose last call was made at `last`. -/
structure Tracks (security : Security) (history : List Entry) (last : Rat) : Prop where
  keeps : ∀ k, Keeps (last - 60) (admittedTimes k history) (security.requests k)
  past : ∀ entry ∈ history, entry.1.now ≤ last
  kept : ∀ k, ∀ time ∈ security.requests k, time ≤ last

namespace Tracks

variable {security : Security} {history : List Entry} {last : Rat} {call : Call}

theorem window_length (h : security.Tracks history last) (hlast : last ≤ call.now) :
    (security.window call).length =
      history.countP (inWindow (key call.client) call.now) := by
  have hcutoff : last - 60 ≤ call.now - 60 := sub_le_sub_right hlast 60
  rw [window, (h.keeps (key call.client)).expire_eq hcutoff, admittedTimes, List.filter_map,
    List.length_map, List.filter_filter, ← List.countP_eq_length_filter]
  apply List.countP_congr
  intro entry hentry
  have hnow : entry.1.now ≤ call.now := (h.past entry hentry).trans hlast
  simp only [inWindow, Function.comp_apply, Bool.and_eq_true, decide_eq_true_eq]
  constructor
  · rintro ⟨hlower, hadmitted⟩
    exact ⟨hadmitted, hlower, hnow⟩
  · rintro ⟨hadmitted, hlower, -⟩
    exact ⟨hlower, hadmitted⟩

/-- **One call is answered by the number of admitted calls in its window.** -/
theorem answer (h : security.Tracks history last) (hlast : last ≤ call.now) :
    (security.rateLimit call).1 =
      if history.countP (inWindow (key call.client) call.now) < security.rateLimitPerMinute
        then .ok () else .error rateLimited := by
  rw [← h.window_length hlast]
  by_cases hroom : (security.window call).length < security.rateLimitPerMinute
  · rw [rateLimit_of_room hroom, if_pos hroom]
  · rw [rateLimit_of_full (Nat.not_lt.mp hroom), if_neg hroom]

/-- A call only touches the deque of its own client. -/
theorem update (h : security.Tracks history last) (hlast : last ≤ call.now)
    (answer : Except Error Unit) {deque : List Rat}
    (hkeeps : Keeps (call.now - 60)
      (admittedTimes (key call.client) (history ++ [(call, answer)])) deque)
    (hdeque : ∀ time ∈ deque, time ≤ call.now) :
    { security with
        requests := Function.update security.requests (key call.client) deque }.Tracks
      (history ++ [(call, answer)]) call.now where
  keeps k := by
    by_cases hk : k = key call.client
    · subst hk
      simpa using hkeeps
    · have hother : ¬(key call.client = k ∧ answer = .ok ()) := fun hsame => hk hsame.1.symm
      rw [admittedTimes_concat, if_neg hother, List.append_nil]
      simpa [hk] using (h.keeps k).later (sub_le_sub_right hlast 60)
  past entry hentry := by
    rcases List.mem_append.mp hentry with hold | hnew
    · exact (h.past entry hold).trans hlast
    · rw [List.mem_singleton.mp hnew]
  kept k time htime := by
    by_cases hk : k = key call.client
    · subst hk
      exact hdeque time (by simpa using htime)
    · refine (h.kept k time ?_).trans hlast
      simpa [hk] using htime

/-- **One call keeps the deques in step with the history.** -/
theorem step (h : security.Tracks history last) (hlast : last ≤ call.now) :
    (security.rateLimit call).2.Tracks (history ++ [(call, (security.rateLimit call).1)])
      call.now := by
  have hkeeps : Keeps (call.now - 60) (admittedTimes (key call.client) history)
      (security.window call) :=
    (h.keeps (key call.client)).expire (sub_le_sub_right hlast 60)
  have hwindow : ∀ time ∈ security.window call, time ≤ call.now := fun time htime =>
    (h.kept (key call.client) time (mem_of_mem_expire htime)).trans hlast
  by_cases hroom : (security.window call).length < security.rateLimitPerMinute
  · rw [rateLimit_of_room hroom]
    refine h.update hlast (.ok ()) ?_ ?_
    · rw [admittedTimes_concat, if_pos ⟨rfl, rfl⟩]
      exact hkeeps.append hwindow
    · intro time htime
      rcases List.mem_append.mp htime with hold | hnew
      · exact hwindow time hold
      · exact (List.mem_singleton.mp hnew).le
  · rw [rateLimit_of_full (Nat.not_lt.mp hroom)]
    refine h.update hlast (.error rateLimited) ?_ hwindow
    rw [admittedTimes_concat, if_neg (by simp), List.append_nil]
    exact hkeeps

end Tracks

/-! ### A whole sequence of calls -/

theorem rateLimit_limit (security : Security) (call : Call) :
    (security.rateLimit call).2.rateLimitPerMinute = security.rateLimitPerMinute := by
  by_cases hroom : (security.window call).length < security.rateLimitPerMinute
  · rw [rateLimit_of_room hroom]
  · rw [rateLimit_of_full (Nat.not_lt.mp hroom)]

theorem map_fst_log (security : Security) (calls : List Call) :
    (security.log calls).map Prod.fst = calls := by
  induction calls generalizing security with
  | nil => rfl
  | cons call rest ih => rw [log, List.map_cons, ih]

theorem Tracks.log {security : Security} {history : List Entry} {last : Rat}
    (h : security.Tracks history last) {calls : List Call}
    (hlater : ∀ call ∈ calls, last ≤ call.now)
    (hclock : calls.Pairwise fun earlier later => earlier.now ≤ later.now)
    {before after : List Entry} {entry : Entry}
    (hlog : security.log calls = before ++ entry :: after) :
    entry.2 = if (history ++ before).countP (inWindow (key entry.1.client) entry.1.now) <
      security.rateLimitPerMinute then .ok () else .error rateLimited := by
  induction calls generalizing security history last before with
  | nil => simp [Security.log] at hlog
  | cons call rest ih =>
      rw [Security.log] at hlog
      have hlast := hlater call List.mem_cons_self
      cases before with
      | nil =>
          obtain ⟨rfl, -⟩ := List.cons.inj hlog
          rw [List.append_nil]
          exact h.answer hlast
      | cons head before =>
          obtain ⟨rfl, hrest⟩ := List.cons.inj hlog
          have hnext := ih (h.step hlast) (fun _ hmem => List.rel_of_pairwise_cons hclock hmem)
            hclock.of_cons hrest
          rw [rateLimit_limit, List.append_assoc] at hnext
          exact hnext

theorem rateLimit_requests_of_ne (security : Security) {call : Call} {k : Text}
    (hk : key call.client ≠ k) : (security.rateLimit call).2.requests k = security.requests k := by
  by_cases hroom : (security.window call).length < security.rateLimitPerMinute
  · rw [rateLimit_of_room hroom]
    exact Function.update_of_ne hk.symm _ _
  · rw [rateLimit_of_full (Nat.not_lt.mp hroom)]
    exact Function.update_of_ne hk.symm _ _

/-- The answer and the new deque of a client depend on its own deque only. -/
theorem rateLimit_congr {security alone : Security} {call : Call}
    (hlimit : security.rateLimitPerMinute = alone.rateLimitPerMinute)
    (hrequests : security.requests (key call.client) = alone.requests (key call.client)) :
    (security.rateLimit call).1 = (alone.rateLimit call).1 ∧
      (security.rateLimit call).2.requests (key call.client) =
        (alone.rateLimit call).2.requests (key call.client) := by
  have hwindow : security.window call = alone.window call := by rw [window, window, hrequests]
  by_cases hroom : (security.window call).length < security.rateLimitPerMinute
  · have halone : (alone.window call).length < alone.rateLimitPerMinute := by
      rwa [← hwindow, ← hlimit]
    rw [rateLimit_of_room hroom, rateLimit_of_room halone]
    exact ⟨rfl, by simp [hwindow]⟩
  · have halone : ¬(alone.window call).length < alone.rateLimitPerMinute := by
      rwa [← hwindow, ← hlimit]
    rw [rateLimit_of_full (Nat.not_lt.mp hroom), rateLimit_of_full (Nat.not_lt.mp halone)]
    exact ⟨rfl, by simp [hwindow]⟩

/-- The calls of one client are answered as if there were no others. -/
theorem filter_log {security alone : Security} (k : Text)
    (hlimit : security.rateLimitPerMinute = alone.rateLimitPerMinute)
    (hrequests : security.requests k = alone.requests k) (calls : List Call) :
    (security.log calls).filter (fun entry => key entry.1.client = k) =
      alone.log (calls.filter fun call => key call.client = k) := by
  induction calls generalizing security alone with
  | nil => rfl
  | cons call rest ih =>
      by_cases hk : key call.client = k
      · subst hk
        obtain ⟨hanswer, hdeque⟩ := rateLimit_congr hlimit hrequests
        have hnext := ih (by rw [rateLimit_limit, rateLimit_limit, hlimit]) hdeque
        rw [log, List.filter_cons_of_pos (by simp), List.filter_cons_of_pos (by simp), log, hnext,
          hanswer]
      · rw [log, List.filter_cons_of_neg (by simpa using hk),
          List.filter_cons_of_neg (by simpa using hk)]
        apply ih ((rateLimit_limit security call).trans hlimit)
        rw [rateLimit_requests_of_ne security hk, hrequests]

theorem tracks_nil (limit : Nat) (last : Rat) :
    Tracks { rateLimitPerMinute := limit } [] last where
  keeps _ := .nil _
  past _ h := by cases h
  kept _ _ h := by cases h

theorem log_spec (limit : Nat) {calls : List Call}
    (hclock : calls.Pairwise fun earlier later => earlier.now ≤ later.now)
    {before after : List Entry} {entry : Entry}
    (hlog : log { rateLimitPerMinute := limit } calls = before ++ entry :: after) :
    entry.2 = if before.countP (inWindow (key entry.1.client) entry.1.now) < limit
      then .ok () else .error rateLimited := by
  cases hcalls : calls with
  | nil => simp [hcalls, log] at hlog
  | cons first rest =>
      have hfirst : ∀ call ∈ calls, first.now ≤ call.now := by
        rw [hcalls] at hclock ⊢
        intro call hcall
        rcases List.mem_cons.mp hcall with rfl | hlater
        · exact le_rfl
        · exact List.rel_of_pairwise_cons hclock hlater
      exact (tracks_nil limit first.now).log hfirst hclock hlog

/-- **The rate limiter is an exact sliding window for each client.** -/
theorem rateLimit_exact (limit : Nat) (calls : List Call)
    (hclock : calls.Pairwise fun earlier later => earlier.now ≤ later.now) :
    let history := log { rateLimitPerMinute := limit } calls
    history.map Prod.fst = calls ∧
      (∀ before entry after, history = before ++ entry :: after →
        entry.2 = if before.countP (inWindow (key entry.1.client) entry.1.now) < limit
          then .ok () else .error rateLimited) ∧
      (∀ k upper, history.countP (inWindow k upper) ≤ limit) ∧
      ∀ k, history.filter (fun entry => key entry.1.client = k) =
        log { rateLimitPerMinute := limit } (calls.filter fun call => key call.client = k) := by
  intro history
  have hcalls : history.map Prod.fst = calls := map_fst_log _ calls
  have hsorted : history.Pairwise fun earlier later => earlier.1.now ≤ later.1.now := by
    rw [← hcalls, List.pairwise_map] at hclock
    exact hclock
  refine ⟨hcalls, fun before entry after => log_spec limit hclock, fun k upper => ?_,
    fun k => filter_log k rfl rfl calls⟩
  apply countP_window_le (fun a b hab => sub_le_sub_right hab 60) (admitted k) history hsorted
  intro before entry after hlog hadmitted
  have hanswer := log_spec limit hclock hlog
  obtain ⟨hkey, hok⟩ := of_decide_eq_true hadmitted
  rw [hok, hkey] at hanswer
  change before.countP (inWindow k entry.1.now) < limit
  by_contra hfull
  rw [if_neg hfull] at hanswer
  cases hanswer

/-- Two calls a minute. -/
def rateLimitCalls : List Call :=
  [⟨some "a".toList, 0⟩, ⟨some "a".toList, 10⟩, ⟨some "b".toList, 10⟩, ⟨some "a".toList, 60⟩,
    ⟨some "a".toList, 61⟩]

theorem rateLimit_exact_calls :
    let history := log { rateLimitPerMinute := 2 } rateLimitCalls
    history.map Prod.fst = rateLimitCalls ∧
      (∀ before entry after, history = before ++ entry :: after →
        entry.2 = if before.countP (inWindow (key entry.1.client) entry.1.now) < 2
          then .ok () else .error rateLimited) ∧
      (∀ k upper, history.countP (inWindow k upper) ≤ 2) ∧
      ∀ k, history.filter (fun entry => key entry.1.client = k) =
        log { rateLimitPerMinute := 2 } (rateLimitCalls.filter fun call => key call.client = k) :=
  rateLimit_exact 2 rateLimitCalls (by decide)

/-- A call exactly 60 seconds old still counts. -/
example : (log { rateLimitPerMinute := 2 } rateLimitCalls).map Prod.snd =
    [.ok (), .ok (), .ok (), .error rateLimited, .ok ()] := by decide +kernel

end RerankerService.Security
