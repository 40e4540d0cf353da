import Mathlib.Data.Rat.Floor
import Gam.Database.ClusterSync

/-!
# Primary keys of the benchmark

The key functions of `TpccKeyGenerator.h` shift the ids of a row into a word, next to the number of its
table. The scale of the benchmark is set by `FillScaleParams` from two factors of the command line. An `int`
is an `Int`, a `double` a rational, and a failed assertion is `none`.
-/

namespace Gam.Database.Tpcc

/-- The number of an enumerator of `TableType`. -/
inductive TableType where
  | item | stock | warehouse | district | districtNewOrder | newOrder | order | orderLine | customer | history
deriving DecidableEq, Repr

def TableType.id : TableType → BitVec 64
  | .item => 0
  | .stock => 1
  | .warehouse => 2
  | .district => 3
  | .districtNewOrder => 4
  | .newOrder => 5
  | .order => 6
  | .orderLine => 7
  | .customer => 8
  | .history => 9

/-- The conversion of a `double` to an `int`, which is defined when the result is one. -/
def toInt (x : ℚ) : Option Int :=
  let whole := if 0 ≤ x then ⌊x⌋ else ⌈x⌉
  if -2 ^ 31 ≤ whole ∧ whole < 2 ^ 31 then some whole else none

/-- `(IndexKey) id` for an `int`. -/
def key (id : Int) : BitVec 64 := BitVec.ofInt 64 id

variable (params : ScaleParams)

/-- A row by its table and its ids. -/
inductive Row where
  | item (iId wId : Int)
  | stock (iId wId : Int)
  | warehouse (wId : Int)
  | district (dId wId : Int)
  | districtNewOrder (dId wId : Int)
  | newOrder (oId dId wId : Int)
  | order (oId dId wId : Int)
  | orderLine (oId dId wId olNo : Int)
  | customer (cId dId wId : Int)
  | history (cId dId wId : Int)
deriving DecidableEq, Repr

end Gam.Database.Tpcc
