import Mathlib.Data.List.Induction
import Mathlib.Order.Lattice

/-!
# Sliding windows over a clock

A log keeps the times of the events that were admitted, oldest first. `expire` drops what lies before
a cutoff; because the log is sorted, walking from the front finds everything that is too old. What is
kept decides the next admission as the whole history would.
-/

namespace RerankerService.SlidingWindow

variable {τ : Type} [LinearOrder τ]

def expire (cutoff : τ) : List τ → List τ
  | [] => []
  | first :: rest => if first < cutoff then expire cutoff rest else first :: rest

theorem mem_of_mem_expire {cutoff time : τ} {times : List τ} (h : time ∈ expire cutoff times) :
    time ∈ times := by
  induction times with
  | nil => exact h
  | cons first rest ih =>
      rw [expire] at h
      split at h
      · exact List.mem_cons_of_mem first (ih h)
      · exact h

theorem expire_eq_filter {times : List τ} (hsorted : times.Pairwise (· ≤ ·)) (cutoff : τ) :
    expire cutoff times = times.filter fun time => cutoff ≤ time := by
  induction hsorted with
  | nil => rfl
  | @cons first rest hle hrest ih =>
      by_cases hold : first < cutoff
      · rw [expire, if_pos hold, ih, List.filter_cons_of_neg (by simpa using hold)]
      · rw [expire, if_neg hold]
        have hall : ∀ time ∈ first :: rest, decide (cutoff ≤ time) = true := by
          intro time htime
          rw [decide_eq_true_eq]
          rcases List.mem_cons.mp htime with rfl | hlater
          · exact not_lt.mp hold
          · exact (not_lt.mp hold).trans (hle time hlater)
        exact (List.filter_eq_self.mpr hall).symm

/-- The sorted log `kept` and everything that was `admitted` agree from `cutoff` on. -/
structure Keeps (cutoff : τ) (admitted kept : List τ) : Prop where
  sorted : kept.Pairwise (· ≤ ·)
  agrees : ∀ later, cutoff ≤ later →
    kept.filter (fun time => later ≤ time) = admitted.filter fun time => later ≤ time

namespace Keeps

variable {cutoff cutoff' : τ} {admitted kept : List τ}

theorem nil (cutoff : τ) : Keeps cutoff [] [] where
  sorted := .nil
  agrees _ _ := rfl

theorem later (h : Keeps cutoff admitted kept) (hcutoff : cutoff ≤ cutoff') :
    Keeps cutoff' admitted kept where
  sorted := h.sorted
  agrees later hlater := h.agrees later (hcutoff.trans hlater)

/-- Expiry recovers exactly the admitted times that still count. -/
theorem expire_eq (h : Keeps cutoff admitted kept) (hcutoff : cutoff ≤ cutoff') :
    SlidingWindow.expire cutoff' kept = admitted.filter fun time => cutoff' ≤ time :=
  (expire_eq_filter h.sorted cutoff').trans (h.agrees cutoff' hcutoff)

theorem expire (h : Keeps cutoff admitted kept) (hcutoff : cutoff ≤ cutoff') :
    Keeps cutoff' admitted (expire cutoff' kept) where
  sorted := by
    rw [expire_eq_filter h.sorted]
    exact h.sorted.filter _
  agrees later hlater := by
    rw [← h.agrees later (hcutoff.trans hlater), expire_eq_filter h.sorted, List.filter_filter]
    apply List.filter_congr
    intro time _
    rw [← Bool.decide_and, decide_eq_decide]
    exact and_iff_left_of_imp hlater.trans

theorem append (h : Keeps cutoff admitted kept) {now : τ} (hnow : ∀ time ∈ kept, time ≤ now) :
    Keeps cutoff (admitted ++ [now]) (kept ++ [now]) where
  sorted := by
    rw [List.pairwise_append]
    refine ⟨h.sorted, List.pairwise_singleton _ _, fun time htime now' hmem => ?_⟩
    rw [List.mem_singleton.mp hmem]
    exact hnow time htime
  agrees later hlater := by
    rw [List.filter_append, List.filter_append, h.agrees later hlater]

end Keeps

/-! ### Every window holds few admissions -/

section Bound

variable {ε : Type} {time : ε → τ} {ago : τ → τ} {limit : Nat}

/-- If every counted event of a sorted history saw fewer than `limit` counted events in the window
that ends with it, no window holds more than `limit` of them. -/
theorem countP_window_le (hago : Monotone ago) (counts : ε → Bool) (history : List ε)
    (hsorted : history.Pairwise fun earlier later => time earlier ≤ time later)
    (hadmitted : ∀ before event after, history = before ++ event :: after → counts event = true →
      before.countP (fun e => counts e && decide (ago (time event) ≤ time e ∧ time e ≤ time event))
        < limit)
    (upper : τ) :
    history.countP (fun e => counts e && decide (ago upper ≤ time e ∧ time e ≤ upper)) ≤ limit := by
  induction history using List.reverseRecOn with
  | nil => exact Nat.zero_le _
  | append_singleton before event ih =>
      obtain ⟨hbefore, -, hlast⟩ := List.pairwise_append.mp hsorted
      have hprior := ih hbefore fun front e back heq => by
        apply hadmitted front e (back ++ [event])
        rw [heq, List.append_assoc, List.cons_append]
      rw [List.countP_append, List.countP_singleton]
      split
      · rename_i hcounted
        rw [Bool.and_eq_true, decide_eq_true_eq] at hcounted
        obtain ⟨hcounts, hlower, hupper⟩ := hcounted
        have hsub : before.countP
              (fun e => counts e && decide (ago upper ≤ time e ∧ time e ≤ upper))
            ≤ before.countP fun e =>
              counts e && decide (ago (time event) ≤ time e ∧ time e ≤ time event) := by
          apply List.countP_mono_left
          intro e hmem he
          rw [Bool.and_eq_true, decide_eq_true_eq] at he ⊢
          exact ⟨he.1, (hago hupper).trans he.2.1, hlast e hmem event List.mem_cons_self⟩
        have hfew := hadmitted before event [] rfl hcounts
        omega
      · exact hprior

end Bound

end RerankerService.SlidingWindow
