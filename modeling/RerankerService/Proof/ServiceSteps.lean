import RerankerService.Service.Application

/-!
# What a step of the application can do

The actions of the application with what they find and what they make of it.
-/

namespace RerankerService

namespace Application

variable {prims : Primitives} {s s' : Application} {a : Action}

inductive Takes (prims : Primitives) (s : Application) : Action → Application → Prop where
  | called {request : RerankRequest} {s' : Application}
      (hbegin : (s.create request).beginCall s.created = some s') :
      Takes prims s (.rerank request) s'
  | batchCreated {requests : List RerankRequest} :
      Takes prims s (.rerankBatch requests) (s.rerankBatch requests)
  | begun {id : CallId} {s' : Application} (hbegin : s.beginCall id = some s') :
      Takes prims s (.beginCall id) s'
  | lookedUp {id : CallId} {answer : Option (List (Option Score))} {asked : Settings}
      (hphase : (s.calls id).phase = .lookup asked)
      (hanswer : (answer.all fun values => answers s.redis
        (ScoreCache.keys prims asked (s.calls id).query (s.calls id).texts) values) = true) :
      Takes prims s (.lookedUp id answer)
        (s.infer id (ScoreCache.getMany asked (s.calls id).texts answer))
  | predicted {id : CallId} {scores : List (Option Score)} {predict : PredictId}
      {r : ModelRuntime} {reply : Reply Score} (hphase : (s.calls id).phase = .direct scores predict)
      (hresume : s.runtime.resumePredict predict = some (r, reply)) :
      Takes prims s (.predicted id) ({ s with runtime := r }.received prims id scores reply)
  | jobSettled {id : CallId} {scores : List (Option Score)} {job : JobId} {reply : Reply Score}
      (hphase : (s.calls id).phase = .batched scores job)
      (hreply : jobReply (s.batcher.jobs job).future = some reply) :
      Takes prims s (.predicted id) (s.received prims id scores reply)
  | timedOut {id : CallId} {scores : List (Option Score)} {predict : PredictId}
      (hphase : (s.calls id).phase = .direct scores predict) :
      Takes prims s (.timedOut id) (setPhase { s with runtime := s.runtime.cancelPredict predict }
        id (.raised inferenceTimeout))
  | jobTimedOut {id : CallId} {scores : List (Option Score)} {job : JobId}
      (hphase : (s.calls id).phase = .batched scores job) :
      Takes prims s (.timedOut id) (setPhase { s with batcher := s.batcher.cancelJob job }
        id (.raised inferenceTimeout))
  | written {id : CallId} {misses : List Nat} {scores : List (Option Score)}
      (hphase : (s.calls id).phase = .writing misses scores) :
      Takes prims s (.written id) (s.respond id misses scores)
  | gathered {batch : Nat} {requests : List RerankRequest} {calls : List CallId}
      {responses : List RerankResponse}
      (hbatch : s.batches[batch]? = some { requests, calls, outcome := none })
      (hresponses : calls.mapM s.responseOf = some responses) :
      Takes prims s (.gathered batch) { s with
        batches := s.batches.set batch
          { requests, calls, outcome := some (.ok
            { responses
              totalPairs := (requests.map fun request => request.documents.length).sum }) } }
  | gatherRaised {batch : Nat} {id : CallId} {requests : List RerankRequest} {calls : List CallId}
      {error : Error} (hbatch : s.batches[batch]? = some { requests, calls, outcome := none })
      (hphase : (s.calls id).phase = .raised error) (hid : id ∈ calls) :
      Takes prims s (.gatherRaised batch id) { s with
        batches := s.batches.set batch { requests, calls, outcome := some (.error error) } }
  | took {batcher : DynamicBatcher Score} (htake : s.batcher.take = some batcher) :
      Takes prims s .take { s with batcher }
  | windowClosed {batcher : DynamicBatcher Score}
      (hclosed : s.batcher.windowClosed = some batcher) :
      Takes prims s .windowClosed { s with batcher }.callPredictor
  | workerPredicted {predict : PredictId} {r : ModelRuntime} {reply : Reply Score}
      {batcher : DynamicBatcher Score} (hcall : s.workerCall = some predict)
      (hresume : s.runtime.resumePredict predict = some (r, reply))
      (hreplied : s.batcher.replied reply = some batcher) :
      Takes prims s .workerPredicted { s with runtime := r, batcher }.callPredictor
  | workerCancelled {batcher : DynamicBatcher Score}
      (hcancelled : s.batcher.workerCancelled = some batcher) :
      Takes prims s .workerCancelled { s with
        batcher
        runtime := s.workerCall.elim s.runtime s.runtime.cancelPredict
        workerCall := none }
  | closeReturned {batcher : DynamicBatcher Score}
      (hreturn : s.batcher.closeReturn = some batcher) :
      Takes prims s .closeReturn { s with batcher }
  | patched {patch : RuntimePatch} {s' : Application} (hpatch : s.patchRuntime patch = some s') :
      Takes prims s (.patchRuntime patch) s'
  | ran {b : ModelRuntime.Action} {r : ModelRuntime} (hbackground : background b = true)
      (hstep : s.runtime.step b = some r) : Takes prims s (.runtime b) { s with runtime := r }

/-- The tasks that `gather` makes of the requests are all that is new. -/
theorem foldl_create (requests : List RerankRequest) (s : Application) :
    ∃ calls created, requests.foldl create s = { s with calls, created } := by
  induction requests generalizing s with
  | nil => exact ⟨s.calls, s.created, rfl⟩
  | cons request rest ih => exact ih (s.create request)

theorem predicted_takes {id : CallId} (h : s.predicted prims id = some s') :
    Takes prims s (.predicted id) s' := by
  unfold predicted at h
  split at h
  · rename_i hphase
    obtain ⟨⟨r, reply⟩, hresume, rfl⟩ := Option.map_eq_some_iff.mp h
    exact .predicted hphase hresume
  · rename_i hphase
    obtain ⟨reply, hreply, rfl⟩ := Option.map_eq_some_iff.mp h
    exact .jobSettled hphase hreply
  · cases h

theorem timedOut_takes {id : CallId} (h : s.timedOut id = some s') :
    Takes prims s (.timedOut id) s' := by
  unfold timedOut at h
  split at h
  · rename_i hphase
    cases h
    exact .timedOut hphase
  · rename_i hphase
    cases h
    exact .jobTimedOut hphase
  · cases h

theorem gatherRaised_takes {batch : Nat} {id : CallId} (h : s.gatherRaised batch id = some s') :
    Takes prims s (.gatherRaised batch id) s' := by
  unfold gatherRaised at h
  split at h
  · rename_i hbatch hphase
    split at h
    · rename_i hid
      cases h
      exact .gatherRaised hbatch hphase hid
    · cases h
  · cases h

/-- **Inversion**: a step is one of these. -/
theorem step_takes (h : s.step prims a = some s') : Takes prims s a s' := by
  cases a with
  | rerank request => exact .called h
  | rerankBatch requests =>
      simp only [step] at h
      split at h
      · cases h
      · cases h
        exact .batchCreated
  | beginCall id => exact .begun h
  | lookedUp id answer =>
      simp only [step, lookedUp] at h
      split at h
      · rename_i hphase
        split at h
        · rename_i hanswer
          cases h
          exact .lookedUp hphase hanswer
        · cases h
      · cases h
  | predicted id => exact predicted_takes h
  | timedOut id => exact timedOut_takes h
  | written id =>
      simp only [step, written] at h
      split at h
      · rename_i hphase
        cases h
        exact .written hphase
      · cases h
  | gathered batch =>
      simp only [step, gathered] at h
      split at h
      · rename_i hbatch
        obtain ⟨responses, hresponses, rfl⟩ := Option.map_eq_some_iff.mp h
        exact .gathered hbatch hresponses
      · cases h
  | gatherRaised batch id => exact gatherRaised_takes h
  | take =>
      obtain ⟨batcher, htake, rfl⟩ := Option.map_eq_some_iff.mp h
      exact .took htake
  | windowClosed =>
      obtain ⟨batcher, hclosed, rfl⟩ := Option.map_eq_some_iff.mp h
      exact .windowClosed hclosed
  | workerPredicted =>
      obtain ⟨predict, hcall, h⟩ := Option.bind_eq_some_iff.mp h
      obtain ⟨⟨r, reply⟩, hresume, h⟩ := Option.bind_eq_some_iff.mp h
      obtain ⟨batcher, hreplied, rfl⟩ := Option.map_eq_some_iff.mp h
      exact .workerPredicted hcall hresume hreplied
  | workerCancelled =>
      obtain ⟨batcher, hcancelled, rfl⟩ := Option.map_eq_some_iff.mp h
      exact .workerCancelled hcancelled
  | closeReturn =>
      obtain ⟨batcher, hreturn, rfl⟩ := Option.map_eq_some_iff.mp h
      exact .closeReturned hreturn
  | patchRuntime patch => exact .patched h
  | runtime b =>
      simp only [step] at h
      split at h
      · rename_i hbackground
        obtain ⟨r, hstep, rfl⟩ := Option.map_eq_some_iff.mp h
        exact .ran hbackground hstep
      · cases h

end Application

end RerankerService
