import TickScript.Condition
/-!
# Programs

A program is a list of steps and a cursor into it.  Steps that are inserted while the
program runs go right behind the step at the cursor.

* `Program.splice`: inserting steps.
* `Program.current?`: the step at the cursor.
* `Program.pending_splice`: inserted steps come before everything that was still to come.
-/

namespace TickScript

structure Program where
  steps : List Step
  cursor : Nat := 0
  deriving Inhabited

namespace Program

def ofSteps (steps : List Step) : Program := ⟨steps, 0⟩

def size (p : Program) : Nat := p.steps.length

def isExhausted (p : Program) : Bool := p.steps.length ≤ p.cursor

def current? (p : Program) : Option Step := p.steps[p.cursor]?

/-- The steps behind the step at the cursor. -/
def pending (p : Program) : List Step := p.steps.drop (p.cursor + 1)

def advance (p : Program) : Program := { p with cursor := p.cursor + 1 }

/-- Inserts steps right behind the step at the cursor. -/
def splice (p : Program) (fresh : List Step) : Program :=
  { p with steps := p.steps.take (p.cursor + 1) ++ fresh ++ p.pending }

/-- Replaces the condition of a step. -/
def setCondition (p : Program) (index : Nat) (c : Condition) : Program :=
  { p with steps := p.steps.modify index (·.withCondition c) }

/-- The position in the list that an index stands for; negative ones count from the end. -/
def place? (p : Program) (index : Int) : Option Nat :=
  if 0 ≤ index then
    if index < p.steps.length then some index.toNat else none
  else if -index ≤ p.steps.length then some (p.steps.length + index).toNat
  else none

/-- The step at an index. -/
def get? (p : Program) (index : Int) : Option Step := (p.place? index).bind (p.steps[·]?)

theorem place?_lt {p : Program} {index : Int} {i : Nat} (h : p.place? index = some i) :
    i < p.steps.length := by
  unfold place? at h
  split at h
  · split at h
    · cases h
      omega
    · cases h
  · split at h
    · cases h
      omega
    · cases h

@[simp] theorem cursor_splice (p : Program) (fresh : List Step) :
    (p.splice fresh).cursor = p.cursor := rfl

theorem current?_eq_none_iff (p : Program) : p.current? = none ↔ p.isExhausted = true := by
  simp [current?, isExhausted]

/-- Inserted steps come before everything that was still to come. -/
theorem pending_splice (p : Program) (h : p.cursor < p.steps.length) (fresh : List Step) :
    (p.splice fresh).pending = fresh ++ p.pending := by
  have hlen : (p.steps.take (p.cursor + 1)).length = p.cursor + 1 := by
    rw [List.length_take]
    omega
  simp only [pending, splice, List.append_assoc]
  rw [List.drop_append, hlen]
  simp

theorem size_splice (p : Program) (fresh : List Step) :
    (p.splice fresh).size = p.size + fresh.length := by
  simp only [size, splice, pending, List.length_append, List.length_take, List.length_drop]
  omega

end Program

end TickScript
