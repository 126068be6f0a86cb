import RerankerService.Foundation.KeyValue
import RerankerService.Service.Application

/-!
# The cache and its Redis

The commands that `cache.py` sends to Redis: `mget`, `set` with an expiry in pipelines that are not
transactions, and the loop over `scan_iter` that `clear` deletes with. Redis is a parameter. Any number
of processes and coroutines send commands in any order; a pipeline may lose its connection after any of
its commands.
-/

namespace RerankerService

open KeyValue

/-- `json.dumps(value)`, and `float(text)` where it does not raise. -/
structure Codec where
  dumps : Value → Text
  float : Text → Option Value

/-- `float(json.dumps(value))` is `value` again. -/
def Codec.Faithful (codec : Codec) : Prop :=
  ∀ value, codec.float (codec.dumps value) = some value

/-- The pattern of `scan_iter`. -/
def isScoreKey (key : Text) : Bool :=
  "reranker:score:".toList.isPrefixOf key

/-- One `set` of a pipeline, with its `ex`. -/
structure SetCommand where
  write : ScoreCache.Write Score
  ttl : Nat

/-- A call of `clear`. `since` is the number of `set`s before it, `pending` are the keys that the last
`scan` answered and that are not deleted yet. -/
structure Clear (γ : Type) where
  since : Nat
  progress : Position γ := .next none
  pending : List Text := []
  count : Nat := 0
  returned : Bool := false

/-- Redis with its clients. `handed` are the writes that were sent, `executed` those that Redis has
executed, and `counted` the keys that a `clear` has counted. -/
structure RedisCache (σ γ : Type) where
  redis : σ
  handed : List (ScoreCache.Write Score) := []
  inFlight : List SetCommand := []
  executed : List (ScoreCache.Write Score) := []
  clears : List (Clear γ) := []
  counted : List Text := []

namespace RedisCache

variable {σ ε γ : Type} (server : Server Text Text σ ε γ) (prims : Primitives) (codec : Codec)

/-! ### Reading -/

/-- The list comprehension of `get_many` over the answer of `mget`; `none` when `float` raises. -/
def floats (texts : List (Option Text)) : Option (List (Option Value)) :=
  texts.mapM fun text =>
    match text with
    | none => some none
    | some text => (codec.float text).map some

def mget (s : RedisCache σ γ) (keys : List Text) : List (Option Text) :=
  keys.map (server.get s.redis)

/-! ### Writing -/

/-- A pipeline is sent. -/
def send (s : RedisCache σ γ) (ttl : Nat) (writes : List (ScoreCache.Write Score)) :
    RedisCache σ γ :=
  { s with
    handed := s.handed ++ writes
    inFlight := s.inFlight ++ writes.map fun write => { write, ttl } }

def setMany (s : RedisCache σ γ) (settings : Settings) (ttl : Nat) (query : Text)
    (documents : List Text) (scores : List Score) : RedisCache σ γ :=
  s.send ttl (ScoreCache.setMany prims settings query documents scores)

/-- Redis executes a `set`. -/
def execute (s : RedisCache σ γ) (i : Nat) : Option (RedisCache σ γ) :=
  s.inFlight[i]?.map fun command =>
    { s with
      redis := server.set s.redis command.write.key (codec.dumps command.write.score.value) command.ttl
      inFlight := s.inFlight.eraseIdx i
      executed := s.executed ++ [command.write] }

/-- The connection is lost before the command. -/
def lose (s : RedisCache σ γ) (i : Nat) : RedisCache σ γ :=
  { s with inFlight := s.inFlight.eraseIdx i }

def occur (s : RedisCache σ γ) (event : ε) : Option (RedisCache σ γ) :=
  (server.occur s.redis event).map fun redis => { s with redis }

/-! ### Clearing -/

/-- `clear` up to its first `scan`. -/
def clearBegin (s : RedisCache σ γ) : RedisCache σ γ :=
  { s with clears := s.clears ++ [{ since := s.executed.length }] }

/-- The iterator has no key left and asks for more. -/
def scan (s : RedisCache σ γ) (i : Nat) : Option (RedisCache σ γ) :=
  match s.clears[i]? with
  | some clear =>
      match clear.pending, clear.progress with
      | [], .next cursor =>
          let answer := server.scan s.redis cursor
          some { s with
            clears := s.clears.set i
              { clear with pending := answer.1, progress := .after answer.2 } }
      | _, _ => none
  | none => none

/-- The body of the loop: `count += await self.client.delete(key)`. -/
def delete (s : RedisCache σ γ) (i : Nat) : Option (RedisCache σ γ) :=
  match s.clears[i]? with
  | some clear =>
      match clear.pending with
      | key :: rest =>
          let answer := server.delete s.redis key
          some { s with
            redis := answer.2
            clears := s.clears.set i { clear with pending := rest, count := clear.count + answer.1 }
            counted := s.counted ++ List.replicate answer.1 key }
      | [] => none
  | none => none

/-- `return count`. -/
def clearReturn (s : RedisCache σ γ) (i : Nat) : Option (RedisCache σ γ) :=
  match s.clears[i]? with
  | some clear =>
      match clear.pending, clear.progress, clear.returned with
      | [], .finished, false => some { s with clears := s.clears.set i { clear with returned := true } }
      | _, _, _ => none
  | none => none

/-! ### The system -/

inductive Action (ε : Type) where
  | setMany (settings : Settings) (ttl : Nat) (query : Text) (documents : List Text)
      (scores : List Score)
  | execute (i : Nat)
  | lose (i : Nat)
  | occur (event : ε)
  | clearBegin
  | scan (i : Nat)
  | delete (i : Nat)
  | clearReturn (i : Nat)

/-- `RERANKER_CACHE_TTL_SECONDS` and `CachePatch` accept no time below one second. -/
def step (s : RedisCache σ γ) : Action ε → Option (RedisCache σ γ)
  | .setMany settings ttl query documents scores =>
      if 1 ≤ ttl then some (s.setMany prims settings ttl query documents scores) else none
  | .execute i => s.execute server codec i
  | .lose i => some (s.lose i)
  | .occur event => s.occur server event
  | .clearBegin => some s.clearBegin
  | .scan i => s.scan server i
  | .delete i => s.delete server i
  | .clearReturn i => s.clearReturn i

/-- No command is on its way, and what can be read was written by earlier processes. -/
structure Initial (s : RedisCache σ γ) : Prop where
  stored : ∀ key text, isScoreKey key = true → server.get s.redis key = some text →
    ∃ write ∈ s.executed, write.key = key ∧ codec.dumps write.score.value = text
  executed : s.executed = s.handed
  inFlight : s.inFlight = []
  clears : s.clears = []
  counted : s.counted = []

end RedisCache

/-! ### The application over Redis -/

/-- The application with the Redis it is connected to. The `redis` of the application is the record of
what it has handed over; what a lookup finds is what Redis has. -/
structure CachedService (σ γ : Type) where
  app : Application
  cache : RedisCache σ γ

namespace CachedService

variable {σ ε γ : Type} (server : Server Text Text σ ε γ) (prims : Primitives) (codec : Codec)

/-- The values of scores, without what is known of where they come from. -/
def valuesOf (scores : List (Option Score)) : List (Option Value) :=
  scores.map fun score => score.map Score.value

/-- What `get_many` makes of its keys, where it does not raise. -/
def found (s : CachedService σ γ) (id : CallId) (asked : Settings) : Option (List (Option Value)) :=
  RedisCache.floats codec (s.cache.mget server
    (ScoreCache.keys prims asked (s.app.calls id).query (s.app.calls id).texts))

/-- `get_many` with the command that it sends, and the rest of `rerank` up to the next await. The
scores have the values that Redis answers; `none` is a command that raised. -/
def lookup (s : CachedService σ γ) (id : CallId) (connected : Bool)
    (answer : Option (List (Option Score))) : Option (CachedService σ γ) :=
  match (s.app.calls id).phase with
  | .lookup asked =>
      let values := if connected then s.found server prims codec id asked else none
      if answer.map valuesOf = values then
        (s.app.lookedUp prims id answer).map fun app => { s with app }
      else none
  | _ => none

/-- What a step of the application hands over is sent. -/
def serve (s : CachedService σ γ) (ttl : Nat) (action : Application.Action) :
    Option (CachedService σ γ) :=
  match action with
  | .lookedUp _ _ => none
  | action =>
      (s.app.step prims action).map fun app =>
        { app, cache := s.cache.send ttl (app.redis.drop s.app.redis.length) }

inductive Action (ε : Type) where
  | serve (ttl : Nat) (action : Application.Action)
  | lookup (id : CallId) (connected : Bool) (answer : Option (List (Option Score)))
  | cache (action : RedisCache.Action ε)

def step (s : CachedService σ γ) : Action ε → Option (CachedService σ γ)
  | .serve ttl action => if 1 ≤ ttl then s.serve prims ttl action else none
  | .lookup id connected answer => s.lookup server prims codec id connected answer
  | .cache (.setMany ..) => none
  | .cache action => (s.cache.step server prims codec action).map fun cache => { s with cache }

/-- Earlier processes may have used the same Redis. -/
structure Initial (settings : Settings) (Entry : ScoreCache.Write Score → Prop)
    (s : CachedService σ γ) : Prop where
  app : s.app.Initial settings Entry
  cache : RedisCache.Initial server codec s.cache
  handed : s.cache.handed = s.app.redis

end CachedService

end RerankerService
