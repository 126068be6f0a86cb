import Mathlib.Algebra.Order.Ring.Int
import Mathlib.Algebra.Order.Ring.Rat
import Mathlib.Data.Finset.Card
import RerankerService.Errors

/-!
# Rank parity: `parity.py`

`ranking_parity` over exact numbers, with the divisions that Python can refuse. Ids are compared for
equality only.
-/

namespace RerankerService

/-- The returned `dict`; `overlaps` are the entries written under `top_{requested_top}_overlap`. -/
structure RankingParity where
  spearman : Rat
  kendallTau : Rat
  topOneAgreement : Rat
  overlaps : List (Int × Rat)
  deriving DecidableEq

namespace Parity

variable {α : Type} [DecidableEq α]

/-- `a / b`. -/
def divide (a b : Rat) : Except Error Rat :=
  if b = 0 then .error (.exception "ZeroDivisionError" "division by zero") else .ok (a / b)

/-- `{id: index for index, id in enumerate(ranking)}[id]`: the last index wins. -/
def rank (ranking : List α) (id : α) : Nat :=
  ranking.length - 1 - ranking.reverse.idxOf id

def squaredDifference (baseline candidate : List α) : Int :=
  (baseline.map fun id => ((rank baseline id : Int) - rank candidate id) ^ 2).sum

def spearman (baseline candidate : List α) : Except Error Rat :=
  let count := baseline.length
  if count < 2 then .ok 1
  else
    (divide (6 * squaredDifference baseline candidate) (count * (count ^ 2 - 1))).map fun ratio =>
      1 - ratio

/-- `(baseline[left], baseline[right])` in the order of the two loops. -/
def orderedPairs : List α → List (α × α)
  | [] => []
  | id :: rest => rest.map (fun other => (id, other)) ++ orderedPairs rest

def concordant (baseline candidate : List α) : Nat :=
  (orderedPairs baseline).countP fun ordered => rank candidate ordered.1 < rank candidate ordered.2

def discordant (baseline candidate : List α) : Nat :=
  (orderedPairs baseline).countP fun ordered =>
    ¬rank candidate ordered.1 < rank candidate ordered.2

def kendall (baseline candidate : List α) : Except Error Rat :=
  if baseline.length < 2 then .ok 1
  else
    divide (concordant baseline candidate - discordant baseline candidate)
      (concordant baseline candidate + discordant baseline candidate)

/-- `ranking[:top]`; a negative `top` counts from the end. -/
def leading (ranking : List α) (top : Int) : List α :=
  if 0 ≤ top then ranking.take top.toNat else ranking.take (ranking.length - (-top).toNat)

def overlap (baseline candidate : List α) (requestedTop : Int) : Rat :=
  let top := min requestedTop baseline.length
  if top = 0 then 1
  else ((leading baseline top).toFinset ∩ (leading candidate top).toFinset).card / top

def topOneAgreement (baseline candidate : List α) : Rat :=
  if baseline ≠ [] ∧ baseline.head? = candidate.head? then 1 else 0

def rankingParity (baseline candidate : List α)
    (topValues : List Int := [1, 3, 10]) : Except Error RankingParity :=
  if baseline.length ≠ candidate.length ∨ baseline.toFinset ≠ candidate.toFinset then
    .error (.valueError "rankings must contain the same unique document IDs")
  else if baseline.toFinset.card ≠ baseline.length then
    .error (.valueError "rankings must not contain duplicate document IDs")
  else do
    let spearman ← spearman baseline candidate
    let kendallTau ← kendall baseline candidate
    return {
      spearman, kendallTau
      topOneAgreement := topOneAgreement baseline candidate
      overlaps := topValues.map fun top => (top, overlap baseline candidate top) }

end Parity

end RerankerService
