/-
# Numbers for new variables

All sessions of a process share one pool.  A session takes numbers from the
pool in blocks and hands them out one by one, so two sessions that draw from
the pool never give out the same number.  A session may instead start at a
chosen number, and then it turns to the pool only after the last number.
-/

import TypeInference.Fault

namespace TypeInference

/-- The largest number that bounds a supply; no variable has it. -/
def maxVarId : Nat := 4294967295

/-- How many numbers a session takes from the pool at a time. -/
def blockSize : Nat := 1024

/-- The numbers of the process that have not been claimed: `next` and above. -/
structure VarPool where
  next : Nat
  deriving DecidableEq, Inhabited, Repr

/-- The numbers a session may still hand out: from `next` up to, not including, `stop`. -/
structure VarSupply where
  next : Nat
  stop : Nat
  deriving DecidableEq, Inhabited, Repr

/-- Take the next block of numbers out of the pool. -/
def VarPool.claim (pool : VarPool) : Except Fault (VarSupply × VarPool) :=
  if pool.next + blockSize ≤ maxVarId then
    .ok (⟨pool.next, pool.next + blockSize⟩, ⟨pool.next + blockSize⟩)
  else
    .error .idsExhausted

namespace VarSupply

/-- The supply of a session that starts at a chosen number. -/
def startingAt (offset : Nat) : VarSupply := ⟨offset, maxVarId⟩

/-- The supply of a new session. -/
def new (offset : Option Nat) (pool : VarPool) : Except Fault (VarSupply × VarPool) :=
  match offset with
  | some offset => .ok (startingAt offset, pool)
  | none => pool.claim

/-- Draw one number, claiming a new block when the supply is used up. -/
def draw (supply : VarSupply) (pool : VarPool) :
    Except Fault (VarId × VarSupply × VarPool) := do
  let (supply, pool) ← if supply.next = supply.stop then pool.claim else .ok (supply, pool)
  .ok (supply.next, { supply with next := supply.next + 1 }, pool)

/-- Draw several numbers, one after the other. -/
def drawMany (supply : VarSupply) (pool : VarPool) :
    Nat → Except Fault (List VarId × VarSupply × VarPool)
  | 0 => .ok ([], supply, pool)
  | count + 1 => do
      let (v, supply, pool) ← supply.draw pool
      let (rest, supply, pool) ← supply.drawMany pool count
      .ok (v :: rest, supply, pool)

end VarSupply

end TypeInference
