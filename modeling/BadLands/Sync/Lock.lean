import Mathlib.Data.BitVec
import BadLands.Core.Monitor

/-!
# Atomics and the spin lock

`SimpleAtomic` calls the `__blatomic` routines (`common/src/shared/AtomicImpl.asm`), one
locked instruction each; they are modelled at any width `w` as functions from the cell to
the cell and what the routine leaves in its registers. `Utils::Lock` spins on one byte.

A `LockGuard` takes the lock in its constructor and gives it back in its destructor, so a
function that begins with one is an operation of `BadLands.Core.Monitor`.
-/
namespace BadLands.Sync

open BadLands.Core.Monitor

section
variable {w : Nat}

/-- The value read, and the cell after `lock cmpxchg`; on failure `*expected` gets the value read.
The result is (returned, cell, expected).
mirrors common/src/shared/AtomicImpl.asm:159-169 -/
def compareExchange (cell expected desired : BitVec w) : Bool × BitVec w × BitVec w :=
  if cell = expected then (true, desired, expected) else (false, cell, cell)

/-- mirrors common/src/shared/AtomicImpl.asm:31-40 -/
def store (_cell val : BitVec w) : BitVec w := val

end

/-- mirrors common/include/shared/Lock.hpp:20-51 -/
structure Lock where
  pvt_lock : BitVec 8
  deriving DecidableEq, Repr

/-- `pvt_lock{false}`.
mirrors common/include/shared/Lock.hpp:50 -/
def Lock.init : Lock := ⟨0#8⟩

/-- `expected` is `false` and `desired` is `true`.
mirrors common/include/shared/Lock.hpp:22-31 -/
def Lock.trylock (l : Lock) : Bool × Lock :=
  let r := compareExchange l.pvt_lock 0#8 1#8
  (r.1, ⟨r.2.1⟩)

/-- mirrors common/include/shared/Lock.hpp:37-39 -/
def Lock.unlock (l : Lock) : Lock := ⟨store l.pvt_lock 0#8⟩

def Lock.held (l : Lock) : Bool := decide (l.pvt_lock ≠ 0#8)

theorem Lock.trylock_fst (l : Lock) : l.trylock.1 = !l.held := by
  unfold Lock.trylock compareExchange Lock.held
  by_cases h : l.pvt_lock = 0#8
  · simp [h]
  · simp [h]

theorem Lock.held_trylock (l : Lock) : l.trylock.2.held = true := by
  unfold Lock.trylock compareExchange Lock.held
  by_cases h : l.pvt_lock = 0#8
  · simp [h]
  · simp [h]

theorem Lock.held_unlock (l : Lock) : l.unlock.held = false := rfl

/-- The lock of the code is a lock. -/
def Lock.spinlock : Spinlock Lock where
  held := Lock.held
  trylock := Lock.trylock
  unlock := Lock.unlock
  trylock_fst := Lock.trylock_fst
  held_trylock := Lock.held_trylock
  held_unlock := Lock.held_unlock

end BadLands.Sync
