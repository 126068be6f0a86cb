import Mathlib.Algebra.Order.Field.Basic
import Mathlib.Algebra.Order.Floor.Ring
import Mathlib.Data.Rat.Floor
import RerankerService.Errors

/-!
# Python's arithmetic over exact numbers

Divisions that can be refused, `round`, and indexing. Floats are the numbers of an ordered field.
-/

namespace RerankerService

variable {K : Type} [Field K] [LinearOrder K]

/-- `a / b` on floats. -/
def floatDivide (a b : K) : Except Error K :=
  if b = 0 then .error (.exception "ZeroDivisionError" "float division by zero") else .ok (a / b)

/-- `int(a // b)`. -/
def floorDivide (a : Rat) (b : Int) : Except Error Int :=
  if b = 0 then .error (.exception "ZeroDivisionError" "float floor division by zero")
  else .ok ⌊a / b⌋

/-- `round(x)`: a half goes to the even neighbour. -/
def roundHalfEven (x : Rat) : Int :=
  let rest := x - ⌊x⌋
  if rest < 1 / 2 then ⌊x⌋
  else if 1 / 2 < rest then ⌊x⌋ + 1
  else if ⌊x⌋ % 2 = 0 then ⌊x⌋
  else ⌊x⌋ + 1

/-- `values[index]`; a negative index counts from the end. -/
def getIndex {α : Type} (values : List α) (index : Int) : Except Error α :=
  let position := if index < 0 then index + values.length else index
  if position < 0 then .error (.exception "IndexError" "list index out of range")
  else
    match values[position.toNat]? with
    | some value => .ok value
    | none => .error (.exception "IndexError" "list index out of range")

theorem floatDivide_eq {a b : K} (hb : 0 < b) : floatDivide a b = .ok (a / b) :=
  if_neg hb.ne'

theorem floorDivide_eq {b : Int} (hb : 0 < b) (a : Rat) : floorDivide a b = .ok ⌊a / b⌋ :=
  if_neg hb.ne'

theorem roundHalfEven_nonneg {x : Rat} (hx : 0 ≤ x) : 0 ≤ roundHalfEven x := by
  have hfloor : 0 ≤ ⌊x⌋ := Int.floor_nonneg.mpr hx
  unfold roundHalfEven
  dsimp only
  split_ifs <;> omega

/-- An index from the front that is in range. -/
theorem getIndex_mem {α : Type} {values : List α} {index : Int} (hlow : 0 ≤ index)
    (hhigh : index < values.length) : ∃ value ∈ values, getIndex values index = .ok value := by
  have hlt : index.toNat < values.length := by omega
  refine ⟨values[index.toNat], List.getElem_mem hlt, ?_⟩
  unfold getIndex
  rw [if_neg (by omega : ¬index < 0), if_neg (by omega : ¬index < 0), List.getElem?_eq_getElem hlt]

end RerankerService
