/-
Calls that break their contract.

A fault is not an answer: it says that the call could not be carried out at all, and it is kept
apart from the domain errors that a call reports. Sizes are computed exactly in `Nat` and then
checked against the width in which they are to be held.
-/
namespace RenderFold

/-- The ways in which a call can break its contract. -/
inductive Fault where
  /-- An index lies outside the storage it is used on. -/
  | outOfRange
  /-- A number does not fit the width in which it is held. -/
  | overflow
  /-- An argument violates the stated precondition. -/
  | precondition
deriving DecidableEq, Repr

def range32 : Nat := 0x100000000

def range64 : Nat := 0x10000000000000000

/-- A coordinate held in 32 bits. -/
def size32 (n : Nat) : Except Fault Nat :=
  if n < range32 then .ok n else .error .overflow

/-- A size held in 64 bits. -/
def size64 (n : Nat) : Except Fault Nat :=
  if n < range64 then .ok n else .error .overflow

theorem size32_eq_ok {n : Nat} (h : n < range32) : size32 n = .ok n := if_pos h

theorem size64_eq_ok {n : Nat} (h : n < range64) : size64 n = .ok n := if_pos h

end RenderFold
