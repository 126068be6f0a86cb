import Mathlib.Algebra.Order.Ring.Rat
import Mathlib.Logic.Function.Basic
import RerankerService.Errors
import RerankerService.Foundation.SlidingWindow
import RerankerService.Settings

/-!
# Rate limiting: `Security.rate_limit`

The coroutine has no await, so calls run one after the other. Readings of `time.monotonic()` are
rationals: `now - 60` is exact on doubles from 60 seconds on, and before that it is negative and so
below every reading, as the exact difference is.
-/

namespace RerankerService

/-- `settings.rate_limit_per_minute` and `_requests`; a host without an entry has an empty deque. -/
structure Security where
  rateLimitPerMinute : Nat := 120
  requests : Text → List Rat := fun _ => []

/-- What `rate_limit` reads of a call: the client of the request and the clock. -/
structure Call where
  client : Option Text
  now : Rat
  deriving DecidableEq

namespace Security

def rateLimited : Error :=
  .service 429 "rate_limited" "rate limit exceeded"

/-- `request.client.host if request.client else "unknown"`. -/
def key (client : Option Text) : Text :=
  client.getD "unknown".toList

def rateLimit (security : Security) (call : Call) : Except Error Unit × Security :=
  let window := SlidingWindow.expire (call.now - 60) (security.requests (key call.client))
  if security.rateLimitPerMinute ≤ window.length then
    (.error rateLimited,
      { security with requests := Function.update security.requests (key call.client) window })
  else
    (.ok (), { security with
      requests := Function.update security.requests (key call.client) (window ++ [call.now]) })

/-- A sequence of calls, each with the answer it got. -/
def log (security : Security) : List Call → List (Call × Except Error Unit)
  | [] => []
  | call :: rest =>
      (call, (security.rateLimit call).1) :: (security.rateLimit call).2.log rest

end Security

end RerankerService
