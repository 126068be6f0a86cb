import RerankerService.Service.Application

/-!
# The course of one call

One call of `rerank` among all other coroutines: between two of its own steps the application may
change in any way that leaves the locals of the call alone. The history records what the call has
exchanged with the cache and the predictor.
-/

namespace RerankerService

/-- `settings` are those in force at the latest step of the call. `cached` is what `get_many` has
returned, `asked` the arguments of the calls of `predict`, `inferred` what the predictor has
returned. -/
structure History where
  settings : Settings
  cached : Option (List (Option Score)) := none
  asked : List (List Pair) := []
  inferred : Option (List Score) := none

namespace Application

/-- The pairs of the `predict` that the call awaits. -/
def requested (s : Application) (id : CallId) : List (List Pair) :=
  match (s.calls id).phase with
  | .direct _ predict => [(s.runtime.calls predict).pairs]
  | .batched _ job => [(s.batcher.jobs job).pairs]
  | _ => []

/-- What the awaited predictor has answered. -/
def reply (s : Application) (id : CallId) : Option (Reply Score) :=
  match (s.calls id).phase with
  | .direct _ predict => (s.runtime.resumePredict predict).map Prod.snd
  | .batched _ job => jobReply (s.batcher.jobs job).future
  | _ => none

end Application

/-- The call has taken a step of its own, to `s`. -/
def History.after (history : History) (s : Application) (id : CallId) : History :=
  { history with settings := s.settings, asked := history.asked ++ s.requested id }

/-- The call has not ended with results that the schema refuses. -/
def Application.Unrefused (s : Application) (id : CallId) : Prop :=
  (s.calls id).phase ≠ .raised Application.invalidResult

open Application in
/-- The predictor returns one score per requested pair, and the schema accepts the results. -/
inductive Course (prims : Primitives) (id : CallId) : History → Application → Prop where
  | created {s : Application} (hphase : (s.calls id).phase = .created) :
      Course prims id { settings := s.settings } s
  | elsewhere {history : History} {s s' : Application} (h : Course prims id history s)
      (hcall : s'.calls id = s.calls id) : Course prims id history s'
  | begun {history : History} {s s' : Application} (h : Course prims id history s)
      (hstep : s.beginCall id = some s') (haccepted : s'.Unrefused id) :
      Course prims id (history.after s' id) s'
  | lookedUp {history : History} {s s' : Application} {asked : Settings}
      {answer : Option (List (Option Score))} (h : Course prims id history s)
      (hphase : (s.calls id).phase = .lookup asked)
      (hstep : s.lookedUp prims id answer = some s') (haccepted : s'.Unrefused id) :
      Course prims id
        ({ history with
          cached := some (ScoreCache.getMany asked (s.calls id).texts answer) }.after s' id) s'
  | predicted {history : History} {s s' : Application} {pairs : List Pair} {values : List Score}
      (h : Course prims id history s) (hasked : history.asked = [pairs])
      (hreply : s.reply id = some (.scores values)) (hlength : values.length = pairs.length)
      (hstep : s.predicted prims id = some s') (haccepted : s'.Unrefused id) :
      Course prims id ({ history with inferred := some values }.after s' id) s'
  | written {history : History} {s s' : Application} (h : Course prims id history s)
      (hstep : s.written id = some s') (haccepted : s'.Unrefused id) :
      Course prims id (history.after s' id) s'

namespace RerankService

/-! ### What a ranking is -/

/-- The score that belongs to document `i`: the cached one, or the one inferred for its place among
the documents without one. -/
def ownScore (cached : List (Option Score)) (inferred : List Score) (i : Nat) : Option Score :=
  match cached[i]?.join with
  | some score => some score
  | none => inferred[(cached.take i).countP Option.isNone]?

/-- The `(query, text)` pairs of the documents without a cached score, in input order. -/
def unscoredPairs (query : Text) (prepared : List PreparedDocument)
    (cached : List (Option Score)) : List Pair :=
  (prepared.zip cached).filterMap fun entry =>
    if entry.2.isNone then some (query, entry.1.text) else none

/-- Document `i` comes before document `j`: its score is larger, or they are equal and it came first
in the request. -/
def Before (score : Nat → Option Score) (i j : Nat) : Prop :=
  ∃ a b, score i = some a ∧ score j = some b ∧
    (Value.lt b.value a.value = true ∨ a.value = b.value ∧ i < j)

/-- The results are the first `k` documents of the stable order by descending score, each with its
own data. -/
structure TopRanked (request : RerankRequest) (cached : List (Option Score)) (inferred : List Score)
    (k : Nat) (results : List Result) (order : List Nat) : Prop where
  perm : order.Perm (List.range request.documents.length)
  sorted : order.Pairwise (Before (ownScore cached inferred))
  length : results.length = k
  own : ∀ position result, results[position]? = some result → ∃ i document,
    order[position]? = some i ∧ request.documents[i]? = some document ∧
      ownScore cached inferred i = some result.score ∧ result.rank = position + 1 ∧
      result.id = document.id ∧ result.metadata = document.metadata ∧
      result.cacheHit = (cached[i]?.join).isSome

end RerankService

end RerankerService
