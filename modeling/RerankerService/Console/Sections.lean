import RerankerService.Console.Batch
import RerankerService.Foundation.Run

/-!
# The sections of the console

One section is mounted at a time. The two Playgrounds keep their inputs in component state, read the
storage when they are mounted, and save with a delay; unmounting a section clears its timer. An
event handler, the render after it and the effects of that render are one step.
-/

namespace RerankerService.Console

/-- The state of a mounted Playground; `scheduled` says that a save waits for its timer. -/
structure Form (σ : Type) where
  inputs : σ
  rememberInputs : Bool
  scheduled : Bool := false

/-- The persistence effect: it clears the timer of the effect before it. -/
def Form.effect {σ : Type} (form : Form σ) (key : JsString) (storage : LocalStorage) :
    Form σ × LocalStorage :=
  if form.rememberInputs then ({ form with scheduled := true }, storage)
  else ({ form with scheduled := false }, storage.removeItem key)

/-- What the box starts with. -/
def rememberFlag (storage : LocalStorage) : Bool :=
  storage.getItem playgroundRememberKey ≠ some (js "false")

inductive Section where
  | playground
  | batch
  | other
  deriving DecidableEq

inductive Page where
  | playground (form : Form PlaygroundState)
  | batch (form : Form BatchState)
  | other

namespace Page

def shown : Page → Section
  | .playground _ => .playground
  | .batch _ => .batch
  | .other => .other

def scheduled : Page → Bool
  | .playground form => form.scheduled
  | .batch form => form.scheduled
  | .other => false

def remembers : Page → Bool
  | .playground form => form.rememberInputs
  | .batch form => form.rememberInputs
  | .other => false

end Page

/-! ### The Playground -/

section Playground

variable (json : JsonLibrary)

def mountPlayground (storage : LocalStorage) : Form PlaygroundState × LocalStorage :=
  let (inputs, storage) := loadPlaygroundState json storage
  { inputs, rememberInputs := rememberFlag storage : Form PlaygroundState }.effect
    playgroundStorageKey storage

/-- What a user does to the inputs. `setDocuments` stands for the import and for all edits of the
list of documents. -/
inductive PlaygroundEvent where
  | setQuery (query : JsString)
  | setDocuments (documents : List PlaygroundDocument)
  | setTopN (topN : Value)
  | clear

/-- What is left after "Clear Playground". -/
def emptyPlaygroundState : PlaygroundState :=
  ⟨[], [], .finite 10⟩

/-- Setting an equal string or number renders nothing. -/
def playgroundEvent (form : Form PlaygroundState) (storage : LocalStorage) :
    PlaygroundEvent → Form PlaygroundState × LocalStorage
  | .setQuery query =>
      if query = form.inputs.query then (form, storage)
      else { form with inputs := { form.inputs with query } }.effect playgroundStorageKey storage
  | .setDocuments documents =>
      { form with inputs := { form.inputs with documents } }.effect playgroundStorageKey storage
  | .setTopN topN =>
      if topN = form.inputs.topN then (form, storage)
      else { form with inputs := { form.inputs with topN } }.effect playgroundStorageKey storage
  | .clear =>
      { form with inputs := emptyPlaygroundState }.effect playgroundStorageKey
        (storage.removeItem playgroundStorageKey)

/-- The box is changed: unticking removes the flag, it does not set it to `false`. -/
def rememberPlayground (form : Form PlaygroundState) (storage : LocalStorage) :
    Form PlaygroundState × LocalStorage :=
  let remember := !form.rememberInputs
  { form with rememberInputs := remember }.effect playgroundStorageKey
    (if remember then storage.setItem playgroundRememberKey (js "true")
    else (storage.removeItem playgroundRememberKey).removeItem playgroundStorageKey)

end Playground

/-! ### The Batch Playground -/

section Batch

variable (json : JsonLibrary)

def mountBatch (storage : LocalStorage) : Form BatchState × LocalStorage :=
  let (inputs, storage) := loadBatchState json storage
  { inputs, rememberInputs := rememberFlag storage : Form BatchState }.effect batchStorageKey
    storage

/-- Every render loads the state again; only what this removes from the storage matters. -/
def renderBatch (storage : LocalStorage) : LocalStorage :=
  (loadBatchState json storage).2

inductive BatchPatch where
  | query (query : JsString)
  | documents (documents : JsString)
  | topN (topN : Value)

def BatchPatch.apply (item : BatchItem) : BatchPatch → BatchItem
  | .query value => { item with query := value }
  | .documents value => { item with documents := value }
  | .topN value => { item with topN := value }

inductive BatchEvent where
  | add
  | remove (key : Value)
  | update (key : Value) (patch : BatchPatch)

def increment : Value → Value
  | .finite value => .finite (value + 1)
  | value => value

/-- `none` where the button is disabled. -/
def batchInputs (inputs : BatchState) : BatchEvent → Option BatchState
  | .add =>
      if inputs.items.length < 32 then
        some ⟨inputs.items ++ [⟨inputs.nextKey, [], [], .finite 10⟩], increment inputs.nextKey⟩
      else none
  | .remove key =>
      if inputs.items.length = 1 then none
      else some { inputs with items := inputs.items.filter fun item => item.key ≠ key }
  | .update key patch =>
      some { inputs with items := inputs.items.map fun item =>
        if item.key = key then patch.apply item else item }

def batchEvent (form : Form BatchState) (storage : LocalStorage) (event : BatchEvent) :
    Option (Form BatchState × LocalStorage) :=
  (batchInputs form.inputs event).map fun inputs =>
    { form with inputs }.effect batchStorageKey (renderBatch json storage)

/-- Unticking removes the inputs of both Playgrounds here. -/
def rememberBatch (form : Form BatchState) (storage : LocalStorage) :
    Form BatchState × LocalStorage :=
  let remember := !form.rememberInputs
  { form with rememberInputs := remember }.effect batchStorageKey (renderBatch json
    (if remember then storage.setItem playgroundRememberKey (js "true")
    else ((storage.removeItem playgroundRememberKey).removeItem batchStorageKey).removeItem
      playgroundStorageKey))

end Batch

/-! ### The console -/

/-- `optedOut` records whether the last change of a box was to unticked. -/
structure Browser where
  storage : LocalStorage
  page : Page
  optedOut : Bool

/-- A console that is opened on any storage. -/
def Browser.Initial (s : Browser) : Prop :=
  s.page = .other ∧ s.optedOut = false

inductive Event where
  | visit (target : Section)
  | reload
  | playground (event : PlaygroundEvent)
  | batch (event : BatchEvent)
  | remember
  | render
  | timer

section Steps

variable (json : JsonLibrary)

def mount (storage : LocalStorage) : Section → Page × LocalStorage
  | .playground =>
      let (form, storage) := mountPlayground json storage
      (.playground form, storage)
  | .batch =>
      let (form, storage) := mountBatch json storage
      (.batch form, storage)
  | .other => (.other, storage)

def Browser.show (s : Browser) (next : Page × LocalStorage) : Browser :=
  { s with page := next.1, storage := next.2 }

/-- Visiting the section that is shown does not mount it again; a reload does. -/
def Browser.step (s : Browser) : Event → Option Browser
  | .visit target =>
      some (if target = s.page.shown then s else s.show (mount json s.storage target))
  | .reload => some (s.show (mount json s.storage s.page.shown))
  | .playground event =>
      match s.page with
      | .playground form =>
          let (form, storage) := playgroundEvent form s.storage event
          some (s.show (.playground form, storage))
      | _ => none
  | .batch event =>
      match s.page with
      | .batch form =>
          (batchEvent json form s.storage event).map fun next => s.show (.batch next.1, next.2)
      | _ => none
  | .remember =>
      match s.page with
      | .playground form =>
          let (form, storage) := rememberPlayground form s.storage
          some { s.show (.playground form, storage) with optedOut := !form.rememberInputs }
      | .batch form =>
          let (form, storage) := rememberBatch json form s.storage
          some { s.show (.batch form, storage) with optedOut := !form.rememberInputs }
      | .other => none
  | .render =>
      match s.page with
      | .batch form => some (s.show (.batch form, renderBatch json s.storage))
      | page => some (s.show (page, s.storage))
  | .timer =>
      match s.page with
      | .playground form =>
          if form.scheduled then
            some (s.show (.playground { form with scheduled := false },
              savePlaygroundState json s.storage form.inputs))
          else none
      | .batch form =>
          if form.scheduled then
            some (s.show (.batch { form with scheduled := false },
              saveBatchState json s.storage form.inputs))
          else none
      | .other => none

end Steps

end RerankerService.Console
