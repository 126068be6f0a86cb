import RerankerService.Proof.Configuration
import RerankerService.Proof.Redis

/-!
# The application over Redis

The application was stated over a record of what it handed over, from which a lookup finds whatever
it likes. Over a Redis that loses entries, with clears and connections that are lost, it does nothing
else.
-/

namespace RerankerService.CachedService

open KeyValue Transition
open List (Forall₂)

variable {σ ε γ : Type} {server : Server Text Text σ ε γ} {prims : Primitives} {codec : Codec}
  {settings : Settings} {Entry : ScoreCache.Write Score → Prop} {s s' : CachedService σ γ}

/-- A step of the application hands over the scores of one call, or nothing. -/
theorem handed_over {app app' : Application} {a : Application.Action}
    (hstep : app.step prims a = some app') : ∃ writes, app'.redis = app.redis ++ writes := by
  have hnothing : ∀ {t : Application}, t.redis = app.redis →
      ∃ writes, t.redis = app.redis ++ writes := fun hredis =>
    ⟨[], hredis.trans (List.append_nil _).symm⟩
  have hreceived : ∀ {t : Application} (id : CallId) (scores : List (Option Score))
      (reply : Reply Score), t.redis = app.redis →
      ∃ writes, (t.received prims id scores reply).redis = app.redis ++ writes := by
    intro t id scores reply hredis
    cases reply with
    | raised error => exact hnothing hredis
    | scores values =>
        simp only [Application.received, Application.inferred]
        split
        · exact hnothing hredis
        split
        · exact hnothing hredis
        · exact ⟨_, congrArg (· ++ _) hredis⟩
  cases Application.step_takes hstep with
  | called hbegin => exact hnothing (Application.beginCall_redis (s := app.create _) hbegin)
  | @batchCreated requests =>
      unfold Application.rerankBatch
      split
      · exact hnothing rfl
      · obtain ⟨calls, created, heq⟩ := Application.foldl_create requests app
        rw [heq]
        exact hnothing rfl
  | begun hbegin => exact hnothing (Application.beginCall_redis hbegin)
  | lookedUp _ _ => exact hnothing (Application.infer_redis _ _ _)
  | predicted _ _ => exact hreceived _ _ _ rfl
  | jobSettled _ _ => exact hreceived _ _ _ rfl
  | timedOut _ | jobTimedOut _ | written _ | gathered _ _ | gatherRaised _ _ _ | took _
  | workerCancelled _ | closeReturned _ | ran _ _ => exact hnothing rfl
  | windowClosed _ | workerPredicted _ _ _ => exact hnothing (Application.callPredictor_redis _)
  | patched hpatch =>
      obtain ⟨batcher, -, rfl⟩ := Option.map_eq_some_iff.mp hpatch
      exact hnothing rfl

/-- What the application has handed over is what Redis was sent. -/
structure Joined (server : Server Text Text σ ε γ) (codec : Codec) (s : CachedService σ γ) :
    Prop where
  handed : s.cache.handed = s.app.redis
  kept : s.cache.Kept server codec

/-- What Redis answers are values of scores that the application knows of. -/
theorem answers_of_reads {cache : RedisCache σ γ} {keys : List Text} {values : List (Option Value)}
    (h : Forall₂ (cache.Reads server) keys values) :
    ∃ scores, valuesOf scores = values ∧ Application.answers cache.handed keys scores = true := by
  induction h with
  | nil => exact ⟨[], rfl, rfl⟩
  | @cons key value keys values hfirst _ ih =>
      obtain ⟨scores, rfl, hanswers⟩ := ih
      obtain ⟨score, hscore, hknown⟩ : ∃ score : Option Score, score.map Score.value = value ∧
          score.all (fun score => cache.handed.any fun write =>
            write.key = key ∧ write.score = score) = true := by
        cases value with
        | none => exact ⟨none, rfl, rfl⟩
        | some x =>
            obtain ⟨write, hwrite, hkey, hvalue⟩ := hfirst.written x rfl
            refine ⟨some write.score, congrArg some hvalue, ?_⟩
            exact List.any_eq_true.mpr ⟨write, hwrite, by simp [hkey]⟩
      refine ⟨score :: scores, by rw [← hscore]; rfl, ?_⟩
      simp only [Application.answers, Bool.and_eq_true, decide_eq_true_eq, List.length_cons,
        List.zip_cons_cons, List.all_cons] at hanswers ⊢
      exact ⟨congrArg (· + 1) hanswers.1, hknown, hanswers.2⟩

/-- The application has a step for what Redis answers. -/
theorem Joined.answered (prims : Primitives) (h : s.Joined server codec) (hcodec : codec.Faithful)
    {id : CallId} {asked : Settings} (hphase : (s.app.calls id).phase = .lookup asked) :
    ∃ scores next, s.found server prims codec id asked = some (valuesOf scores) ∧
      s.app.step prims (.lookedUp id (some scores)) = some next := by
  have hkeys : ∀ key ∈ ScoreCache.keys prims asked (s.app.calls id).query (s.app.calls id).texts,
      isScoreKey key = true := by
    intro key hkey
    obtain ⟨document, -, rfl⟩ := List.mem_map.mp hkey
    exact RedisCache.isScoreKey_key prims asked _ document
  obtain ⟨values, hvalues, hreads⟩ := h.kept.reads hcodec hkeys
  obtain ⟨scores, rfl, hanswers⟩ := answers_of_reads hreads
  rw [h.handed] at hanswers
  refine ⟨scores, s.app.infer id (ScoreCache.getMany asked (s.app.calls id).texts (some scores)),
    hvalues, ?_⟩
  simp only [Application.step, Application.lookedUp, hphase]
  exact if_pos hanswers

theorem Joined.lookup (h : s.Joined server codec) {id : CallId} {connected : Bool}
    {answer : Option (List (Option Score))}
    (hlookup : s.lookup server prims codec id connected answer = some s') :
    s'.Joined server codec ∧ s.app.step prims (.lookedUp id answer) = some s'.app := by
  simp only [CachedService.lookup] at hlookup
  split at hlookup
  · rename_i asked hphase
    rw [Option.ite_none_right_eq_some] at hlookup
    obtain ⟨app, hstep, rfl⟩ := Option.map_eq_some_iff.mp hlookup.2
    refine ⟨⟨?_, h.kept⟩, hstep⟩
    simp only [Application.lookedUp, hphase] at hstep
    split_ifs at hstep
    obtain rfl := Option.some.inj hstep
    exact h.handed.trans (Application.infer_redis _ _ _).symm
  · cases hlookup

theorem Joined.serve (h : s.Joined server codec) {ttl : Nat} {a : Application.Action}
    (hserve : s.serve prims ttl a = some s') :
    s'.Joined server codec ∧ s.app.step prims a = some s'.app := by
  have hmap : (s.app.step prims a).map (fun app => CachedService.mk app
      (s.cache.send ttl (app.redis.drop s.app.redis.length))) = some s' := by
    unfold CachedService.serve at hserve
    split at hserve
    · cases hserve
    · exact hserve
  obtain ⟨app, hstep, rfl⟩ := Option.map_eq_some_iff.mp hmap
  obtain ⟨writes, hwrites⟩ := handed_over hstep
  refine ⟨?_, hstep⟩
  have hdrop : app.redis.drop s.app.redis.length = writes := by
    rw [hwrites, List.drop_left]
  rw [hdrop]
  exact ⟨(congrArg (· ++ writes) h.handed).trans hwrites.symm, h.kept.send ttl writes⟩

/-- Redis alone takes nothing from the record. -/
theorem handed_of_step {r r' : RedisCache σ γ} {a : RedisCache.Action ε}
    (hsilent : ∀ settings ttl query documents scores,
      a ≠ .setMany settings ttl query documents scores)
    (hstep : r.step server prims codec a = some r') : r'.handed = r.handed := by
  cases RedisCache.step_takes hstep with
  | sent => exact absurd rfl (hsilent _ _ _ _ _)
  | executed | lost | occurred | clearBegun | scanned | deleted | clearReturned => rfl

theorem Joined.cache (hserver : server.Lawful fun key => isScoreKey key = true)
    (h : s.Joined server codec) {a : RedisCache.Action ε}
    (hstep : s.step server prims codec (.cache a) = some s') :
    s'.Joined server codec ∧ s'.app = s.app := by
  have hmap : (∀ settings ttl query documents scores,
      a ≠ .setMany settings ttl query documents scores) ∧
      (s.cache.step server prims codec a).map (fun cache => { s with cache }) = some s' := by
    cases a with
    | setMany => cases hstep
    | _ => exact ⟨nofun, hstep⟩
  obtain ⟨cache, hcache, rfl⟩ := Option.map_eq_some_iff.mp hmap.2
  exact ⟨⟨(handed_of_step hmap.1 hcache).trans h.handed, RedisCache.Kept.step hserver h.kept hcache⟩,
    rfl⟩

/-- **The application over Redis refines the application**: entries that expire, are evicted, cleared
or were never written, pipelines that are executed in part and the commands of others make no run that
the record does not have, and a lookup of a call is never refused: the application has a step for the
values that Redis answers. -/
theorem refines (hserver : server.Lawful fun key => isScoreKey key = true) (hcodec : codec.Faithful)
    (hreach : Reachable (step server prims codec) (Initial server codec settings Entry) s) :
    Reachable (Application.step prims) (Application.Initial settings Entry) s.app ∧
      s.cache.handed = s.app.redis ∧
      ∀ id asked, (s.app.calls id).phase = .lookup asked →
        ∃ scores next, s.found server prims codec id asked = some (valuesOf scores) ∧
          s.app.step prims (.lookedUp id (some scores)) = some next ∧
          s.step server prims codec (.lookup id true (some scores)) =
            some { s with app := next } := by
  have hboth : s.Joined server codec ∧
      Reachable (Application.step prims) (Application.Initial settings Entry) s.app := by
    refine hreach.simulated (f := CachedService.app) (fun s hinit => ?_) fun s a s' h _ hstep => ?_
    · exact ⟨⟨hinit.handed, hinit.cache.kept⟩, hinit.app⟩
    · cases a with
      | serve ttl action =>
          simp only [step] at hstep
          split_ifs at hstep
          exact (h.serve hstep).imp_right fun hnext => .inr ⟨action, hnext⟩
      | lookup id connected answer => exact (h.lookup hstep).imp_right fun hnext => .inr ⟨_, hnext⟩
      | cache action => exact (h.cache hserver hstep).imp_right .inl
  refine ⟨hboth.2, hboth.1.handed, fun id asked hphase => ?_⟩
  obtain ⟨scores, next, hfound, hnext⟩ := hboth.1.answered prims hcodec hphase
  refine ⟨scores, next, hfound, hnext, ?_⟩
  have hlooked : s.app.lookedUp prims id (some scores) = some next := hnext
  simp only [step, CachedService.lookup, hphase, hfound, hlooked, if_true, Option.map_some]

open RedisCache (smallServer smallCodec smallCodec_faithful initial_small)

/-- A score is computed, written and stored, and looked up by the next call. -/
def storedRun : List (Action Text) :=
  Application.loading.map (.serve 60) ++
    [.serve 60 (.rerank Application.oneDocument), .lookup 0 true (some [none])] ++
    Application.prediction.map (.serve 60) ++
    [.serve 60 (.predicted 0), .cache (.execute 0), .serve 60 (.written 0),
      .serve 60 (.rerank Application.oneDocument)]

theorem refines_stored : ∃ s scores, run (step smallServer ScoreCache.asciiPrimitives smallCodec)
      { app := Application.smallApplication, cache := { redis := ∅ } } storedRun = some s ∧
    (s.app.calls 1).phase = .lookup s.app.settings ∧
    s.found smallServer ScoreCache.asciiPrimitives smallCodec 1 s.app.settings =
      some [some (.finite 1)] ∧
    valuesOf scores = [some (.finite 1)] ∧
    (s.app.step ScoreCache.asciiPrimitives (.lookedUp 1 (some scores))).isSome = true := by
  obtain ⟨s, hrun, hphase, hvalues⟩ : ∃ s,
      run (step smallServer ScoreCache.asciiPrimitives smallCodec)
        { app := Application.smallApplication, cache := { redis := ∅ } } storedRun = some s ∧
      (s.app.calls 1).phase = .lookup s.app.settings ∧
      s.found smallServer ScoreCache.asciiPrimitives smallCodec 1 s.app.settings =
        some [some (.finite 1)] := ⟨_, rfl, rfl, rfl⟩
  have hinit : Initial smallServer smallCodec Application.smallSettings (fun _ => True)
      { app := Application.smallApplication, cache := { redis := ∅ } } :=
    ⟨Application.initial_smallApplication _, initial_small, rfl⟩
  obtain ⟨-, -, hlookups⟩ := refines (listing_lawful isScoreKey) smallCodec_faithful
    (reachable_of_run hinit hrun)
  obtain ⟨scores, next, hfound, hnext, -⟩ := hlookups 1 _ hphase
  refine ⟨s, scores, hrun, hphase, hvalues, ?_, ?_⟩
  · exact Option.some.inj (hfound.symm.trans hvalues)
  · rw [hnext]
    rfl

end RerankerService.CachedService
