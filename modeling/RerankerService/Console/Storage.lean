import Mathlib.Logic.Function.Basic
import RerankerService.Console.Strings
import RerankerService.Foundation.Json
import RerankerService.Scores

/-!
# JSON and the local storage

`JSON.parse` and `JSON.stringify` are taken with their laws, not from a model of their text. The
local storage works: nothing is full or denied.
-/

namespace RerankerService.Console

/-- What `JSON.parse` returns. Objects are equal if they have the same properties. -/
abbrev JsonValue := Json JsString Value

/-- `{}`. -/
def emptyObject : JsonValue := .object []

/-- `JSON`. A number that is not finite, which `JSON.parse` returns for one such as `1e999`, is
written `null`. -/
structure JsonLibrary where
  /-- `none` where `JSON.parse` throws. -/
  parse : JsString → Option JsonValue
  stringify : JsonValue → JsString
  parse_wellFormed : ∀ {text : JsString} {v : JsonValue}, parse text = some v → v.WellFormed
  parse_nil : parse [] = none
  parse_stringify : ∀ {v : JsonValue}, v.WellFormed →
    parse (stringify v) = some (v.written Value.isFinite)

/-- The origin's items by their keys. -/
abbrev LocalStorage := JsString → Option JsString

namespace LocalStorage

def getItem (storage : LocalStorage) (key : JsString) : Option JsString :=
  storage key

def setItem (storage : LocalStorage) (key value : JsString) : LocalStorage :=
  Function.update storage key (some value)

def removeItem (storage : LocalStorage) (key : JsString) : LocalStorage :=
  Function.update storage key none

variable {storage : LocalStorage} {key other value : JsString}

@[simp] theorem getItem_setItem : (storage.setItem key value).getItem key = some value := by
  simp [getItem, setItem]

@[simp] theorem getItem_removeItem : (storage.removeItem key).getItem key = none := by
  simp [getItem, removeItem]

theorem getItem_setItem_of_ne (h : other ≠ key) :
    (storage.setItem key value).getItem other = storage.getItem other := by
  simp [getItem, setItem, h]

theorem getItem_removeItem_of_ne (h : other ≠ key) :
    (storage.removeItem key).getItem other = storage.getItem other := by
  simp [getItem, removeItem, h]

end LocalStorage

end RerankerService.Console
