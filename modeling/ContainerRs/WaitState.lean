import Mathlib.Init

/-!
# The Exit Code Cell

`WaitState` (async_container.rs) is the exit code of a container's init process, shared
under a mutex between the waiter threads that record it and whoever asks for it. The
generation moves on with every restart, so that a waiter of an earlier run no longer
writes.

## Main results

* `exitCode_bump`, `storeIfCurrent_exitCode`: what the two writers leave in the cell.
-/

namespace ContainerRs

/-- The exit code cell with the generation its writers must hold. -/
structure WaitState where
  generation : UInt64
  exitCode : Option Int
  deriving DecidableEq, Repr

namespace WaitState

/-- The cell of a container that has just been created. -/
def new : WaitState := { generation := 0, exitCode := none }

/-- Record an exit code if the generation is still the current one, and say whether it
was. -/
def storeIfCurrent (w : WaitState) (generation : UInt64) (code : Int) : WaitState × Bool :=
  if w.generation = generation then ({ w with exitCode := some code }, true) else (w, false)

/-- Move to the next generation, wrapping, and clear the cell. -/
def bump (w : WaitState) : WaitState :=
  { generation := w.generation + 1, exitCode := none }

@[simp] theorem generation_bump (w : WaitState) : w.bump.generation = w.generation + 1 := rfl

@[simp] theorem exitCode_bump (w : WaitState) : w.bump.exitCode = none := rfl

/-- Recording never changes the generation. -/
@[simp] theorem storeIfCurrent_generation (w : WaitState) (generation : UInt64) (code : Int) :
    (w.storeIfCurrent generation code).1.generation = w.generation := by
  rw [storeIfCurrent]
  split <;> rfl

/-- The cell after a recording: the new code for the current generation, else as before. -/
theorem storeIfCurrent_exitCode (w : WaitState) (generation : UInt64) (code : Int) :
    (w.storeIfCurrent generation code).1.exitCode =
      if w.generation = generation then some code else w.exitCode := by
  rw [storeIfCurrent]
  split <;> rfl

/-- A recording is made exactly for the current generation. -/
@[simp] theorem storeIfCurrent_stored (w : WaitState) (generation : UInt64) (code : Int) :
    (w.storeIfCurrent generation code).2 = decide (w.generation = generation) := by
  rw [storeIfCurrent]
  split <;> simp [*]

/-- A recording never empties the cell. -/
theorem isSome_storeIfCurrent {w : WaitState} (generation : UInt64) (code : Int)
    (h : w.exitCode.isSome) : (w.storeIfCurrent generation code).1.exitCode.isSome := by
  rw [storeIfCurrent_exitCode]
  split
  · rfl
  · exact h

end WaitState

end ContainerRs
