import Mathlib.Data.Rat.Encodable
import RerankerService.Proof.CacheKey
import RerankerService.Service.Redis

/-!
# What Redis answers

Whatever can be read under the key of a score was handed over by some `set_many`, at every position of
an `mget`. A `clear` that returns has removed every score that was there before, whatever was written
meanwhile, and no score is counted twice.
-/

namespace RerankerService.RedisCache

open KeyValue Transition
open List (Forall₂)

variable {σ ε γ : Type} {server : Server Text Text σ ε γ} {prims : Primitives} {codec : Codec}
  {s s' : RedisCache σ γ} {a : Action ε} {key : Text} {clear : Clear γ}

/-- What one step does. -/
inductive Takes (server : Server Text Text σ ε γ) (prims : Primitives) (codec : Codec)
    (s : RedisCache σ γ) : Action ε → RedisCache σ γ → Prop where
  | sent {settings : Settings} {ttl : Nat} {query : Text} {documents : List Text}
      {scores : List Score} :
      Takes server prims codec s (.setMany settings ttl query documents scores)
        (s.setMany prims settings ttl query documents scores)
  | executed {i : Nat} {command : SetCommand} (hcommand : s.inFlight[i]? = some command) :
      Takes server prims codec s (.execute i) { s with
        redis :=
          server.set s.redis command.write.key (codec.dumps command.write.score.value) command.ttl
        inFlight := s.inFlight.eraseIdx i
        executed := s.executed ++ [command.write] }
  | lost {i : Nat} : Takes server prims codec s (.lose i) (s.lose i)
  | occurred {event : ε} {redis : σ} (hevent : server.occur s.redis event = some redis) :
      Takes server prims codec s (.occur event) { s with redis }
  | clearBegun : Takes server prims codec s .clearBegin s.clearBegin
  | scanned {i : Nat} {clear : Clear γ} {cursor : Option γ} (hclear : s.clears[i]? = some clear)
      (hpending : clear.pending = []) (hprogress : clear.progress = .next cursor) :
      Takes server prims codec s (.scan i) { s with
        clears := s.clears.set i { clear with
          pending := (server.scan s.redis cursor).1
          progress := .after (server.scan s.redis cursor).2 } }
  | deleted {i : Nat} {clear : Clear γ} {key : Text} {rest : List Text}
      (hclear : s.clears[i]? = some clear) (hpending : clear.pending = key :: rest) :
      Takes server prims codec s (.delete i) { s with
        redis := (server.delete s.redis key).2
        clears := s.clears.set i { clear with
          pending := rest, count := clear.count + (server.delete s.redis key).1 }
        counted := s.counted ++ List.replicate (server.delete s.redis key).1 key }
  | clearReturned {i : Nat} {clear : Clear γ} (hclear : s.clears[i]? = some clear)
      (hpending : clear.pending = []) (hprogress : clear.progress = .finished) :
      Takes server prims codec s (.clearReturn i)
        { s with clears := s.clears.set i { clear with returned := true } }

/-- **Inversion.** -/
theorem step_takes (hstep : s.step server prims codec a = some s') :
    Takes server prims codec s a s' := by
  cases a with
  | setMany settings ttl query documents scores =>
      simp only [step] at hstep
      split_ifs at hstep
      exact Option.some.inj hstep ▸ .sent
  | execute i =>
      obtain ⟨command, hcommand, rfl⟩ := Option.map_eq_some_iff.mp hstep
      exact .executed hcommand
  | lose i => exact Option.some.inj hstep ▸ .lost
  | occur event =>
      obtain ⟨redis, hevent, rfl⟩ := Option.map_eq_some_iff.mp hstep
      exact .occurred hevent
  | clearBegin => exact Option.some.inj hstep ▸ .clearBegun
  | scan i =>
      simp only [step, RedisCache.scan] at hstep
      split at hstep
      · rename_i clear hclear
        split at hstep
        · exact Option.some.inj hstep ▸ .scanned hclear ‹_› ‹_›
        · cases hstep
      · cases hstep
  | delete i =>
      simp only [step, RedisCache.delete] at hstep
      split at hstep
      · rename_i clear hclear
        split at hstep
        · exact Option.some.inj hstep ▸ .deleted hclear ‹_›
        · cases hstep
      · cases hstep
  | clearReturn i =>
      simp only [step, clearReturn] at hstep
      split at hstep
      · rename_i clear hclear
        split at hstep
        · exact Option.some.inj hstep ▸ .clearReturned hclear ‹_› ‹_›
        · cases hstep
      · cases hstep

/-! ### What is stored -/

/-- What is stored under the key of a score was handed over by the cache. -/
structure Kept (server : Server Text Text σ ε γ) (codec : Codec) (s : RedisCache σ γ) : Prop where
  stored : ∀ key text, isScoreKey key = true → server.get s.redis key = some text →
    ∃ write ∈ s.executed, write.key = key ∧ codec.dumps write.score.value = text
  executed : ∀ write ∈ s.executed, write ∈ s.handed
  inFlight : ∀ command ∈ s.inFlight, command.write ∈ s.handed

theorem Kept.send (h : s.Kept server codec) (ttl : Nat) (writes : List (ScoreCache.Write Score)) :
    (s.send ttl writes).Kept server codec where
  stored := h.stored
  executed write hwrite := List.mem_append_left _ (h.executed write hwrite)
  inFlight command hcommand := by
    rcases List.mem_append.mp hcommand with hold | hnew
    · exact List.mem_append_left _ (h.inFlight command hold)
    · obtain ⟨write, hwrite, rfl⟩ := List.mem_map.mp hnew
      exact List.mem_append_right _ hwrite

/-- What could be read stays what it was, or cannot be read any more. -/
theorem Kept.fewer (h : s.Kept server codec) {redis : σ} {clears : List (Clear γ)}
    {counted : List Text} (hfewer : ∀ key text, isScoreKey key = true →
      server.get redis key = some text → server.get s.redis key = some text) :
    Kept server codec { s with redis, clears, counted } where
  stored key text hkey hget := h.stored key text hkey (hfewer key text hkey hget)
  executed := h.executed
  inFlight := h.inFlight

theorem Kept.step (hserver : server.Lawful fun key => isScoreKey key = true)
    (h : s.Kept server codec) (hstep : s.step server prims codec a = some s') :
    s'.Kept server codec := by
  cases step_takes hstep with
  | sent => exact h.send _ _
  | lost =>
      exact ⟨h.stored, h.executed, fun command hcommand =>
        h.inFlight command (List.mem_of_mem_eraseIdx hcommand)⟩
  | clearBegun | scanned | clearReturned => exact ⟨h.stored, h.executed, h.inFlight⟩
  | @executed i command hcommand =>
      refine ⟨fun key text hkey hget => ?_, fun write hwrite => ?_, fun other hother =>
        h.inFlight other (List.mem_of_mem_eraseIdx hother)⟩
      · rcases hserver.set _ _ _ _ key text hget with ⟨rfl, rfl⟩ | hbefore
        · exact ⟨command.write, List.mem_append_right _ (List.mem_singleton_self _), rfl, rfl⟩
        · obtain ⟨write, hwrite, hholds⟩ := h.stored key text hkey hbefore
          exact ⟨write, List.mem_append_left _ hwrite, hholds⟩
      · rcases List.mem_append.mp hwrite with hold | hnew
        · exact h.executed write hold
        · obtain rfl := List.mem_singleton.mp hnew
          exact h.inFlight command (List.mem_of_getElem? hcommand)
  | occurred hevent => exact h.fewer fun key text => hserver.occur _ _ _ hevent key text
  | deleted =>
      refine h.fewer fun key text _ hget => ?_
      rw [hserver.delete] at hget
      split at hget
      · cases hget
      · exact hget

theorem Initial.kept (h : Initial server codec s) : s.Kept server codec := by
  refine ⟨h.stored, fun write hwrite => h.executed ▸ hwrite, fun command hcommand => ?_⟩
  rw [h.inFlight] at hcommand
  cases hcommand

theorem kept (hserver : server.Lawful fun key => isScoreKey key = true)
    (hreach : Reachable (step server prims codec) (Initial server codec) s) :
    s.Kept server codec :=
  hreach.invariant (fun _ h => h.kept) fun _ _ _ h _ hstep => Kept.step hserver h hstep

theorem floats_eq {texts : List (Option Text)} {values : List (Option Value)}
    (h : Forall₂ (fun text value => text.map codec.float = value.map some) texts values) :
    floats codec texts = some values := by
  induction h with
  | nil => rfl
  | @cons text value texts values hfirst _ ih =>
      unfold floats at ih ⊢
      rw [List.mapM_cons, ih]
      cases text with
      | none =>
          cases value with
          | none => rfl
          | some value => cases hfirst
      | some text =>
          cases value with
          | none => cases hfirst
          | some value =>
              have hfloat : codec.float text = some value := Option.some.inj hfirst
              simp only [hfloat]
              rfl

/-- The read of one key. -/
theorem Kept.value (h : s.Kept server codec) (hcodec : codec.Faithful) (hkey : isScoreKey key = true) :
    ∃ value, (server.get s.redis key).map codec.float = value.map some ∧
      ∀ x, value = some x → ∃ write ∈ s.handed, write.key = key ∧ write.score.value = x := by
  cases hget : server.get s.redis key with
  | none => exact ⟨none, rfl, nofun⟩
  | some text =>
      obtain ⟨write, hwrite, hsame, rfl⟩ := h.stored key text hkey hget
      refine ⟨some write.score.value, congrArg some (hcodec write.score.value), fun x hx => ?_⟩
      exact ⟨write, h.executed write hwrite, hsame, Option.some.inj hx⟩

theorem isScoreKey_key (prims : Primitives) (settings : Settings) (query document : Text) :
    isScoreKey (ScoreCache.key prims settings query document) = true :=
  List.isPrefixOf_iff_prefix.mpr (List.prefix_append _ _)

/-- What one position of an answer says about the key at this position. -/
structure Reads (server : Server Text Text σ ε γ) (s : RedisCache σ γ) (key : Text)
    (value : Option Value) : Prop where
  miss : value = none ↔ server.get s.redis key = none
  written : ∀ x, value = some x → ∃ write ∈ s.handed, write.key = key ∧ write.score.value = x

theorem Kept.reads (h : s.Kept server codec) (hcodec : codec.Faithful) {keys : List Text}
    (hkeys : ∀ key ∈ keys, isScoreKey key = true) : ∃ values,
      floats codec (s.mget server keys) = some values ∧ Forall₂ (s.Reads server) keys values := by
  have hall : ∃ values, Forall₂ (fun text value => text.map codec.float = value.map some)
      (s.mget server keys) values ∧ Forall₂ (s.Reads server) keys values := by
    induction keys with
    | nil => exact ⟨[], .nil, .nil⟩
    | cons key rest ih =>
        obtain ⟨value, hvalue, hwritten⟩ := h.value hcodec (hkeys key List.mem_cons_self)
        obtain ⟨values, hvalues, hreads⟩ := ih fun key hkey => hkeys key (List.mem_cons_of_mem _ hkey)
        refine ⟨value :: values, .cons hvalue hvalues, .cons ⟨?_, hwritten⟩ hreads⟩
        rw [← Option.map_eq_none_iff (f := codec.float), hvalue, Option.map_eq_none_iff]
  obtain ⟨values, hvalues, hreads⟩ := hall
  exact ⟨values, floats_eq hvalues, hreads⟩

/-- **What is read was written**: at every position of an `mget` there is a miss, exactly where Redis
has nothing, or the value of a score that was handed over under the key of this position. -/
theorem read_written (hserver : server.Lawful fun key => isScoreKey key = true)
    (hcodec : codec.Faithful)
    (hreach : Reachable (step server prims codec) (Initial server codec) s) (settings : Settings)
    (query : Text) (documents : List Text) : ∃ values,
      floats codec (s.mget server (ScoreCache.keys prims settings query documents)) = some values ∧
      Forall₂ (s.Reads server) (ScoreCache.keys prims settings query documents) values := by
  refine (kept hserver hreach).reads hcodec fun key hkey => ?_
  obtain ⟨document, -, rfl⟩ := List.mem_map.mp hkey
  exact isScoreKey_key prims settings query document

/-- Texts that are read back, those of the service's own scores as Python has them. -/
def smallCodec : Codec where
  dumps
    | .nan => "NaN".toList
    | .negInf => "-Infinity".toList
    | .posInf => "Infinity".toList
    | .finite q => if q = 1 then "1.0".toList else '#' :: List.replicate (Encodable.encode q) '1'
  float
    | 'N' :: _ => some .nan
    | '-' :: _ => some .negInf
    | 'I' :: _ => some .posInf
    | '1' :: _ => some (.finite 1)
    | '#' :: rest => (Encodable.decode rest.length).map .finite
    | _ => none

theorem smallCodec_faithful : smallCodec.Faithful := by
  intro value
  cases value with
  | nan | negInf | posInf => rfl
  | finite q =>
      by_cases hq : q = 1
      · rw [hq]
        rfl
      · simp [smallCodec, hq]

/-- A Redis that answers all keys to one `scan`, as the real one does while they are few. -/
def smallServer : Server Text Text (AList fun _ : Text => Text) Text Unit :=
  listing isScoreKey

def smallScore : Score :=
  { value := .finite 1, source := none, pair := none }

/-- Two scores are sent, and one of them is stored. -/
def smallWrites : List (Action Text) :=
  [.setMany {} 60 ['q'] [['d'], ['e']] [smallScore, smallScore], .execute 0]

def smallStored : RedisCache (AList fun _ : Text => Text) Unit :=
  (run (step smallServer ScoreCache.asciiPrimitives smallCodec) { redis := ∅ } smallWrites).getD
    { redis := ∅ }

theorem initial_small : Initial smallServer smallCodec
    ({ redis := ∅ } : RedisCache (AList fun _ : Text => Text) Unit) :=
  ⟨fun key text _ hget => (by cases hget), rfl, rfl, rfl, rfl⟩

theorem reachable_smallStored : Reachable (step smallServer ScoreCache.asciiPrimitives smallCodec)
    (Initial smallServer smallCodec) smallStored := by
  have hrun : run (step smallServer ScoreCache.asciiPrimitives smallCodec) { redis := ∅ }
      smallWrites = some smallStored := rfl
  exact reachable_of_run initial_small hrun

theorem read_written_small : floats smallCodec (smallStored.mget smallServer
    (ScoreCache.keys ScoreCache.asciiPrimitives {} ['q'] [['d'], ['e']])) =
      some [some (.finite 1), none] ∧
    ∃ write ∈ smallStored.handed,
      write.key = ScoreCache.key ScoreCache.asciiPrimitives {} ['q'] ['d'] ∧
      write.score.value = .finite 1 := by
  obtain ⟨values, hvalues, hreads⟩ := read_written (listing_lawful isScoreKey)
    smallCodec_faithful reachable_smallStored {} ['q'] [['d'], ['e']]
  have hfloats : floats smallCodec (smallStored.mget smallServer
      (ScoreCache.keys ScoreCache.asciiPrimitives {} ['q'] [['d'], ['e']])) =
      some [some (.finite 1), none] := rfl
  obtain rfl := Option.some.inj (hfloats.symm.trans hvalues)
  refine ⟨hfloats, ?_⟩
  cases hreads with
  | cons hfirst _ => exact hfirst.written _ rfl

/-! ### Clearing -/

/-- Every score that can be read is from after the beginning of the `clear`, or could be read all the
time, and then the iteration has yet to answer its key or the key is yet to be deleted. -/
structure Sweeps (server : Server Text Text σ ε γ) (s : RedisCache σ γ) (clear : Clear γ) :
    Prop where
  since : clear.since ≤ s.executed.length
  iteration : ∃ answered kept, server.Iteration answered kept clear.progress s.redis ∧
    (∀ key, isScoreKey key = true → server.Readable s.redis key →
      (∃ write ∈ s.executed.drop clear.since, write.key = key) ∨ kept key) ∧
    ∀ key ∈ answered, key ∈ clear.pending ∨ ¬kept key
  returned : clear.returned = true → clear.pending = [] ∧ clear.progress = .finished
  own : ∀ key ∈ clear.pending, isScoreKey key = true

/-- A command or an event that makes nothing readable but what has been executed since. -/
theorem Sweeps.changed (h : s.Sweeps server clear) (hchange : server.Changes s.redis s'.redis)
    {more : List (ScoreCache.Write Score)} (hexecuted : s'.executed = s.executed ++ more)
    (hnew : ∀ key, isScoreKey key = true → server.Readable s'.redis key →
      server.Readable s.redis key ∨ ∃ write ∈ more, write.key = key) : s'.Sweeps server clear := by
  obtain ⟨answered, kept, hiteration, hswept, hanswered⟩ := h.iteration
  have hdrop : s'.executed.drop clear.since = s.executed.drop clear.since ++ more := by
    rw [hexecuted, List.drop_append_of_le_length h.since]
  refine ⟨?_, ⟨answered, _, hiteration.changed hchange, fun key hkey hreadable => ?_,
    fun key hkey => ?_⟩, h.returned, h.own⟩
  · rw [hexecuted, List.length_append]
    exact h.since.trans (Nat.le_add_right _ _)
  · rw [hdrop]
    rcases hnew key hkey hreadable with hbefore | ⟨write, hwrite, hsame⟩
    · rcases hswept key hkey hbefore with ⟨write, hwrite, hsame⟩ | hkept
      · exact .inl ⟨write, List.mem_append_left _ hwrite, hsame⟩
      · exact .inr ⟨hkept, hreadable⟩
    · exact .inl ⟨write, List.mem_append_right _ hwrite, hsame⟩
  · exact (hanswered key hkey).imp_right fun hnot hkept => hnot hkept.1

/-- The `clear` that deletes the key has dealt with it. -/
theorem Sweeps.deleted (hserver : server.Lawful fun key => isScoreKey key = true)
    (h : s.Sweeps server clear) {rest : List Text} {count : Nat}
    {clears : List (Clear γ)} {counted : List Text} (hpending : clear.pending = key :: rest) :
    Sweeps server { s with redis := (server.delete s.redis key).2, clears, counted }
      { clear with pending := rest, count } := by
  obtain ⟨answered, kept, hiteration, hswept, hanswered⟩ := h.iteration
  refine ⟨h.since, ⟨answered, _, hiteration.changed (.delete key), fun other hother hreadable => ?_,
    fun other hother => ?_⟩, fun hreturned => ?_, fun other hother => ?_⟩
  · exact (hswept other hother (hserver.readable_delete hreadable).2).imp_right fun hkept =>
      ⟨hkept, hreadable⟩
  · rcases hanswered other hother with hmem | hnot
    · rw [hpending] at hmem
      rcases List.mem_cons.mp hmem with rfl | hrest
      · exact .inr fun hkept => (hserver.readable_delete hkept.2).1 rfl
      · exact .inl hrest
    · exact .inr fun hkept => hnot hkept.1
  · have hnil := (h.returned hreturned).1
    rw [hpending] at hnil
    cases hnil
  · exact h.own other (hpending ▸ List.mem_cons_of_mem key hother)

theorem Sweeps.step (hserver : server.Lawful fun key => isScoreKey key = true)
    (h : ∀ clear ∈ s.clears, s.Sweeps server clear)
    (hstep : s.step server prims codec a = some s') :
    ∀ clear ∈ s'.clears, s'.Sweeps server clear := by
  cases step_takes hstep with
  | sent | lost =>
      intro clear hclear
      exact ⟨(h clear hclear).since, (h clear hclear).iteration, (h clear hclear).returned,
        (h clear hclear).own⟩
  | @executed i command hcommand =>
      refine fun clear hclear => (h clear hclear).changed (.set _ _ _) rfl fun key _ hreadable => ?_
      rcases hserver.readable_set hreadable with hsame | hbefore
      · exact .inr ⟨command.write, List.mem_singleton_self _, hsame.symm⟩
      · exact .inl hbefore
  | occurred hevent =>
      refine fun clear hclear => (h clear hclear).changed (.occurred hevent)
        (List.append_nil _).symm fun key hkey hreadable => .inl ?_
      exact hserver.readable_occur hevent hkey hreadable
  | clearBegun =>
      intro clear hclear
      rcases List.mem_append.mp hclear with hold | hnew
      · exact ⟨(h clear hold).since, (h clear hold).iteration, (h clear hold).returned,
          (h clear hold).own⟩
      · obtain rfl := List.mem_singleton.mp hnew
        refine ⟨le_rfl, ⟨[], _, .start s.redis, fun key _ hreadable => .inr hreadable, nofun⟩, nofun,
          nofun⟩
  | @scanned i clear cursor hclear hpending hprogress =>
      intro clear' hclear'
      rcases List.mem_or_eq_of_mem_set hclear' with hold | rfl
      · exact ⟨(h clear' hold).since, (h clear' hold).iteration, (h clear' hold).returned,
          (h clear' hold).own⟩
      · have hsweeps := h clear (List.mem_of_getElem? hclear)
        obtain ⟨answered, kept, hiteration, hswept, hanswered⟩ := hsweeps.iteration
        rw [hprogress] at hiteration
        refine ⟨hsweeps.since, ⟨_, kept, hiteration.scanned, hswept, fun key hkey => ?_⟩,
          fun hreturned => ?_, hserver.scan s.redis cursor⟩
        · rcases List.mem_append.mp hkey with hold | hnew
          · refine (hanswered key hold).imp_left fun hmem => ?_
            rw [hpending] at hmem
            cases hmem
          · exact .inl hnew
        · have hfinished := (hsweeps.returned hreturned).2
          rw [hprogress] at hfinished
          cases hfinished
  | @deleted i clear key rest hclear hpending =>
      intro clear' hclear'
      rcases List.mem_or_eq_of_mem_set hclear' with hold | rfl
      · refine (h clear' hold).changed (.delete key) (List.append_nil _).symm
          fun other _ hreadable => .inl ?_
        exact (hserver.readable_delete hreadable).2
      · exact Sweeps.deleted hserver (h clear (List.mem_of_getElem? hclear)) hpending
  | @clearReturned i clear hclear hpending hprogress =>
      intro clear' hclear'
      rcases List.mem_or_eq_of_mem_set hclear' with hold | rfl
      · exact ⟨(h clear' hold).since, (h clear' hold).iteration, (h clear' hold).returned,
          (h clear' hold).own⟩
      · have hsweeps := h clear (List.mem_of_getElem? hclear)
        exact ⟨hsweeps.since, hsweeps.iteration, fun _ => ⟨hpending, hprogress⟩, hsweeps.own⟩

theorem sweeping (hserver : server.Lawful fun key => isScoreKey key = true)
    (hreach : Reachable (step server prims codec) (Initial server codec) s) :
    ∀ clear ∈ s.clears, s.Sweeps server clear := by
  refine hreach.invariant (fun s hinit => ?_) fun _ _ _ h _ hstep => Sweeps.step hserver h hstep
  rw [hinit.clears]
  exact fun _ => nofun

/-- What a call of `clear` began with stays, and so does its return. -/
theorem clears_step (hstep : s.step server prims codec a = some s') {i : Nat}
    (hclear : s.clears[i]? = some clear) : ∃ clear', s'.clears[i]? = some clear' ∧
      clear'.since = clear.since ∧ (clear.returned = true → clear'.returned = true) := by
  have hlt := (List.getElem?_eq_some_iff.mp hclear).1
  have hset : ∀ {j : Nat} {old new : Clear γ}, s.clears[j]? = some old → new.since = old.since →
      (old.returned = true → new.returned = true) → ∃ clear', (s.clears.set j new)[i]? = some clear' ∧
        clear'.since = clear.since ∧ (clear.returned = true → clear'.returned = true) := by
    intro j old new hold hsince hreturned
    by_cases heq : j = i
    · subst heq
      obtain rfl := Option.some.inj (hclear.symm.trans hold)
      exact ⟨new, List.getElem?_set_self hlt, hsince, hreturned⟩
    · exact ⟨clear, (List.getElem?_set_ne heq).trans hclear, rfl, id⟩
  cases step_takes hstep with
  | sent | executed | lost | occurred => exact ⟨clear, hclear, rfl, id⟩
  | clearBegun => exact ⟨clear, (List.getElem?_append_left hlt).trans hclear, rfl, id⟩
  | scanned hold | deleted hold => exact hset hold rfl id
  | clearReturned hold => exact hset hold rfl fun _ => rfl

theorem clears_run {t : RedisCache σ γ} (hrest : Reachable (step server prims codec) (· = s) t)
    {i : Nat} (hclear : s.clears[i]? = some clear) : ∃ clear', t.clears[i]? = some clear' ∧
      clear'.since = clear.since ∧ (clear.returned = true → clear'.returned = true) := by
  induction hrest with
  | start h => exact ⟨clear, h ▸ hclear, rfl, id⟩
  | next _ _ hstep ih =>
      obtain ⟨mid, hmid, hsince, hreturned⟩ := ih
      obtain ⟨last, hlast, hsince', hreturned'⟩ := clears_step hstep hmid
      exact ⟨last, hlast, hsince'.trans hsince, hreturned' ∘ hreturned⟩

/-- **`clear` is complete**: from its return on, whatever else was going on, the key of every score
that can be read was written after it began; and what any `clear` deletes are scores. -/
theorem clear_complete (hserver : server.Lawful fun key => isScoreKey key = true)
    {begun returned returned' last : RedisCache σ γ}
    (hreach : Reachable (step server prims codec) (Initial server codec) s)
    (hbegin : s.step server prims codec .clearBegin = some begun)
    (hmeanwhile : Reachable (step server prims codec) (· = begun) returned)
    (hreturn : returned.step server prims codec (.clearReturn s.clears.length) = some returned')
    (hrest : Reachable (step server prims codec) (· = returned') last) :
    (∀ key, isScoreKey key = true → server.Readable last.redis key →
      ∃ write ∈ last.executed.drop s.executed.length, write.key = key) ∧
    ∀ clear ∈ last.clears, ∀ key ∈ clear.pending, isScoreKey key = true := by
  have hlast : Reachable (step server prims codec) (Initial server codec) last :=
    (((hreach.next trivial hbegin).trans hmeanwhile).next trivial hreturn).trans hrest
  refine ⟨fun key hkey hreadable => ?_, fun clear hclear => (sweeping hserver hlast clear hclear).own⟩
  obtain rfl := Option.some.inj hbegin
  have hfirst : s.clearBegin.clears[s.clears.length]? = some { since := s.executed.length } := by
    rw [clearBegin, List.getElem?_concat_length]
  obtain ⟨clear, hclear, hsince, -⟩ := clears_run hmeanwhile hfirst
  -- At its return it is marked, and it stays so.
  obtain ⟨clear', hclear', hsince', hmarked⟩ : ∃ clear',
      returned'.clears[s.clears.length]? = some clear' ∧ clear'.since = clear.since ∧
        clear'.returned = true := by
    have hlt := (List.getElem?_eq_some_iff.mp hclear).1
    cases step_takes hreturn with
    | clearReturned hsame =>
        obtain rfl := Option.some.inj (hclear.symm.trans hsame)
        exact ⟨_, List.getElem?_set_self hlt, rfl, rfl⟩
  obtain ⟨final, hfinal, hsince'', hstill⟩ := clears_run hrest hclear'
  have hsweeps := sweeping hserver hlast final (List.mem_of_getElem? hfinal)
  obtain ⟨hnil, hfinished⟩ := hsweeps.returned (hstill hmarked)
  obtain ⟨answered, kept, hiteration, hswept, hanswered⟩ := hsweeps.iteration
  rw [hsince'', hsince', hsince] at hswept
  refine (hswept key hkey hreadable).resolve_right fun hkept => ?_
  rw [hfinished] at hiteration
  rcases hanswered key (hserver.complete answered kept _ hiteration key hkey hkept) with hmem | hnot
  · rw [hnil] at hmem
    cases hmem
  · exact hnot hkept

/-- The second score is stored between the `scan` and the deletion of the first. -/
theorem clear_complete_small : ∃ returned : RedisCache (AList fun _ : Text => Text) Unit,
    run (step smallServer ScoreCache.asciiPrimitives smallCodec) smallStored
      [.clearBegin, .scan 0, .execute 0, .delete 0, .clearReturn 0] = some returned ∧
    returned.clears.map Clear.count = [1] ∧
    ∀ key, isScoreKey key = true → smallServer.Readable returned.redis key →
      key = ScoreCache.key ScoreCache.asciiPrimitives {} ['q'] ['e'] := by
  obtain ⟨meanwhile, returned, hmeanwhile, hreturn, hrun, hcount, hexecuted⟩ :
      ∃ meanwhile returned, run (step smallServer ScoreCache.asciiPrimitives smallCodec)
        smallStored.clearBegin [.scan 0, .execute 0, .delete 0] = some meanwhile ∧
      step smallServer ScoreCache.asciiPrimitives smallCodec meanwhile (.clearReturn 0) =
        some returned ∧
      run (step smallServer ScoreCache.asciiPrimitives smallCodec) smallStored
        [.clearBegin, .scan 0, .execute 0, .delete 0, .clearReturn 0] = some returned ∧
      returned.clears.map Clear.count = [1] ∧
      (returned.executed.drop 1).map ScoreCache.Write.key =
        [ScoreCache.key ScoreCache.asciiPrimitives {} ['q'] ['e']] :=
    ⟨_, _, rfl, rfl, rfl, rfl, rfl⟩
  refine ⟨returned, hrun, hcount, fun key hkey hreadable => ?_⟩
  obtain ⟨write, hwrite, rfl⟩ := (clear_complete (listing_lawful isScoreKey) reachable_smallStored rfl
    (reachable_of_run rfl hmeanwhile) hreturn (.start rfl)).1 key hkey hreadable
  have hmem : write.key ∈ (returned.executed.drop 1).map ScoreCache.Write.key :=
    List.mem_map_of_mem hwrite
  rw [hexecuted] at hmem
  exact List.mem_singleton.mp hmem

/-! ### The number that `clear` returns -/

/-- What the calls of `clear` have counted together, and of each key no more than was written and
cannot be read any more. -/
structure Counts (server : Server Text Text σ ε γ) (s : RedisCache σ γ) : Prop where
  total : (s.clears.map Clear.count).sum = s.counted.length
  once : ∀ key, isScoreKey key = true →
    s.counted.count key + (if (server.get s.redis key).isSome then 1 else 0) ≤
      s.executed.countP fun write => write.key = key

theorem sum_set {i : Nat} (new : Clear γ) (hclear : s.clears[i]? = some clear) :
    ((s.clears.set i new).map Clear.count).sum + clear.count =
      (s.clears.map Clear.count).sum + new.count := by
  obtain ⟨hlt, rfl⟩ := List.getElem?_eq_some_iff.mp hclear
  have hsplit := List.take_append_drop i s.clears
  rw [List.drop_eq_getElem_cons hlt] at hsplit
  rw [List.set_eq_take_append_cons_drop, if_pos hlt]
  conv_rhs => rw [← hsplit]
  simp only [List.map_append, List.map_cons, List.sum_append, List.sum_cons]
  omega

theorem isSome_le {redis redis' : σ}
    (h : server.Readable redis' key → server.Readable redis key) :
    (if (server.get redis' key).isSome then 1 else 0) ≤
      if (server.get redis key).isSome then 1 else 0 := by
  by_cases hreadable : (server.get redis' key).isSome = true
  · have hbefore : (server.get redis key).isSome = true := h hreadable
    rw [if_pos hreadable, if_pos hbefore]
  · rw [if_neg hreadable]
    exact Nat.zero_le _

theorem Counts.step (hserver : server.Lawful fun key => isScoreKey key = true)
    (h : s.Counts server) (hstep : s.step server prims codec a = some s') : s'.Counts server := by
  cases step_takes hstep with
  | sent | lost => exact ⟨h.total, h.once⟩
  | @executed i command hcommand =>
      refine ⟨h.total, fun key hkey => ?_⟩
      have honce := h.once key hkey
      rw [List.countP_append, List.countP_singleton]
      by_cases hsame : command.write.key = key
      · rw [if_pos (decide_eq_true hsame)]
        have hle : (if (server.get (server.set s.redis command.write.key
            (codec.dumps command.write.score.value) command.ttl) key).isSome then 1 else 0) ≤ 1 := by
          split <;> simp
        have hcount : s.counted.count key ≤ s.executed.countP fun write => write.key = key :=
          (Nat.le_add_right _ _).trans honce
        exact Nat.add_le_add hcount hle
      · refine le_trans (Nat.add_le_add_left (isSome_le fun hreadable => ?_) _)
          (honce.trans (Nat.le_add_right _ _))
        exact (hserver.readable_set hreadable).resolve_left fun heq => hsame heq.symm
  | occurred hevent =>
      refine ⟨h.total, fun key hkey => le_trans (Nat.add_le_add_left ?_ _) (h.once key hkey)⟩
      exact isSome_le (hserver.readable_occur hevent hkey)
  | clearBegun =>
      refine ⟨?_, h.once⟩
      rw [clearBegin, List.map_append, List.sum_append, h.total]
      rfl
  | @scanned i clear cursor hclear =>
      have hsum := sum_set { clear with
        pending := (server.scan s.redis cursor).1
        progress := .after (server.scan s.redis cursor).2 } hclear
      exact ⟨(Nat.add_right_cancel hsum).trans h.total, h.once⟩
  | @deleted i clear key rest hclear hpending =>
      refine ⟨?_, fun other hother => ?_⟩
      · have hsum := sum_set { clear with
          pending := rest, count := clear.count + (server.delete s.redis key).1 } hclear
        rw [h.total] at hsum
        rw [List.length_append, List.length_replicate]
        dsimp only at hsum ⊢
        omega
      · have honce := h.once other hother
        rw [List.count_append, List.count_replicate, hserver.delete, hserver.deleted]
        by_cases hsame : key = other
        · subst hsame
          simpa using honce
        · simpa [hsame, Ne.symm hsame] using honce
  | @clearReturned i clear hclear =>
      have hsum := sum_set { clear with returned := true } hclear
      exact ⟨(Nat.add_right_cancel hsum).trans h.total, h.once⟩

/-- **No score is counted twice**, however many calls of `clear` overlap: together they return the
number of the keys that they found, and of each key they have found no more entries than were written
and are gone. -/
theorem clear_counts (hserver : server.Lawful fun key => isScoreKey key = true)
    (hreach : Reachable (step server prims codec) (Initial server codec) s) :
    (s.clears.map Clear.count).sum = s.counted.length ∧
      ∀ key, isScoreKey key = true →
        s.counted.count key + (if (server.get s.redis key).isSome then 1 else 0) ≤
          s.executed.countP fun write => write.key = key := by
  have h : s.Counts server := by
    refine hreach.invariant (fun s hinit => ⟨?_, fun key hkey => ?_⟩)
      fun _ _ _ h _ hstep => Counts.step hserver h hstep
    · rw [hinit.clears, hinit.counted]
      rfl
    · rw [hinit.counted, List.count_nil, Nat.zero_add]
      split
      · rename_i hreadable
        obtain ⟨text, hget⟩ := Option.isSome_iff_exists.mp hreadable
        obtain ⟨write, hwrite, hsame, -⟩ := hinit.stored key text hkey hget
        exact List.countP_pos_iff.mpr ⟨write, hwrite, decide_eq_true hsame⟩
      · exact Nat.zero_le _
  exact ⟨h.total, h.once⟩

/-- Two calls have been answered the same key. -/
theorem clear_counts_small : ∃ s : RedisCache (AList fun _ : Text => Text) Unit,
    run (step smallServer ScoreCache.asciiPrimitives smallCodec) smallStored
      [.clearBegin, .clearBegin, .scan 0, .scan 1, .delete 1, .delete 0] = some s ∧
    s.clears.map Clear.count = [0, 1] ∧ s.counted.length = 1 := by
  obtain ⟨s, hrun, hcounts⟩ : ∃ s, run (step smallServer ScoreCache.asciiPrimitives smallCodec)
      smallStored [.clearBegin, .clearBegin, .scan 0, .scan 1, .delete 1, .delete 0] = some s ∧
      s.clears.map Clear.count = [0, 1] := ⟨_, rfl, rfl⟩
  have hreach := reachable_smallStored.extend (fun _ _ _ => trivial) hrun
  have htotal := (clear_counts (listing_lawful isScoreKey) hreach).1
  rw [hcounts] at htotal
  exact ⟨s, hrun, hcounts, htotal.symm⟩

end RerankerService.RedisCache
