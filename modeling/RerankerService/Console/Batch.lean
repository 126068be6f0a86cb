import RerankerService.Console.Playground

/-!
# The saved inputs of the Batch Playground

`loadBatchState` and `saveBatchState`. They share the flag of the Playground.
-/

namespace RerankerService.Console

structure BatchItem where
  key : Value
  query : JsString
  documents : JsString
  topN : Value

structure BatchState where
  items : List BatchItem
  nextKey : Value

def batchStorageKey : JsString := js "reranker.batch.v1"

def defaultBatchState : BatchState where
  items := [⟨.finite 1, js "Kubernetes experience",
    js "Production Kubernetes operations\nMicrosoft SQL Server administration", .finite 2⟩]
  nextKey := .finite 2

def readBatchItem (item : JsonValue) : Option BatchItem :=
  match item.get? (js "key"), item.get? (js "query"), item.get? (js "documents"),
    item.get? (js "topN") with
  | some (.number key), some (.string query), some (.string documents), some (.number topN) =>
      some ⟨key, query, documents, topN⟩
  | _, _, _, _ => none

def readBatchState (value : JsonValue) : Option BatchState :=
  match value.get? (js "items") with
  | some (.array items) =>
      ((items.mapM readBatchItem).filter fun items => items.length ≤ 32).map fun items =>
        { items
          nextKey :=
            match value.get? (js "nextKey") with
            | some (.number nextKey) => nextKey
            | _ => .finite (items.length + 1) }
  | _ => none

def BatchItem.persisted (item : BatchItem) : JsonValue :=
  .object [(js "documents", .string item.documents), (js "key", .number item.key),
    (js "query", .string item.query), (js "topN", .number item.topN)]

def BatchState.persisted (state : BatchState) : JsonValue :=
  .object [(js "items", .array (state.items.map BatchItem.persisted)),
    (js "nextKey", .number state.nextKey), (js "version", .number (.finite 1))]

section Library

variable (json : JsonLibrary)

def loadBatchState (storage : LocalStorage) : BatchState × LocalStorage :=
  if storage.getItem playgroundRememberKey = some (js "false") then
    (defaultBatchState, storage.removeItem batchStorageKey)
  else
    let raw := (storage.getItem batchStorageKey).filter (· ≠ [])
    (((raw.bind json.parse).bind readBatchState).getD defaultBatchState, storage)

def saveBatchState (storage : LocalStorage) (state : BatchState) : LocalStorage :=
  storage.setItem batchStorageKey (json.stringify state.persisted)

end Library

end RerankerService.Console
