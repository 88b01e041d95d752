import TickScript.Engine.Basic

/-!
# What remains of a program

The steps from the cursor on are all of a program that still matters. Each operation on a
program is described here by what it does to them.
-/

namespace TickScript

namespace Program

/-- The step at the cursor and all that follow. -/
def remaining (p : Program) : List Step := p.steps.drop p.cursor

variable {p : Program} {s : Step} {rest : List Step}

theorem current?_eq_head? (p : Program) : p.current? = p.remaining.head? := by
  rw [remaining, List.head?_drop, current?]

theorem current?_of_remaining (h : p.remaining = s :: rest) : p.current? = some s := by
  rw [current?_eq_head?, h, List.head?_cons]

theorem remaining_of_current? (h : p.current? = some s) : p.remaining = s :: p.pending := by
  obtain ⟨hlt, hget⟩ := List.getElem?_eq_some_iff.mp h
  rw [remaining, List.drop_eq_getElem_cons hlt, hget]
  rfl

theorem cursor_lt (h : p.remaining = s :: rest) : p.cursor < p.steps.length := by
  have hlength := congrArg List.length h
  rw [remaining, List.length_drop, List.length_cons] at hlength
  omega

theorem remaining_advance (p : Program) : p.advance.remaining = p.remaining.tail := by
  rw [remaining, remaining, List.tail_drop]
  rfl

theorem splice_remaining (hle : p.cursor ≤ p.steps.length) (fresh : List Step) :
    (p.splice fresh).remaining = p.remaining.take 1 ++ (fresh ++ p.remaining.tail) := by
  have hlength : p.cursor ≤ (p.steps.take (p.cursor + 1)).length := by
    rw [List.length_take]
    omega
  rw [remaining, remaining, cursor_splice, splice, pending, List.append_assoc,
    List.drop_append_of_le_length hlength, List.drop_take, List.tail_drop, Nat.add_sub_cancel_left]

/-- Steps that are inserted come right behind the step at the cursor. -/
theorem remaining_splice (h : p.remaining = s :: rest) (fresh : List Step) :
    (p.splice fresh).remaining = s :: (fresh ++ rest) := by
  rw [splice_remaining (Nat.le_of_lt (cursor_lt h)), h]
  rfl

/-- At the end of the program, steps that are inserted are all that remains. -/
theorem remaining_splice_nil (h : p.remaining = []) (hle : p.cursor ≤ p.steps.length)
    (fresh : List Step) : (p.splice fresh).remaining = fresh := by
  rw [splice_remaining hle, h]
  exact List.append_nil fresh

theorem length_le_splice (p : Program) (fresh : List Step) :
    p.steps.length ≤ (p.splice fresh).steps.length := by
  have hsize := p.size_splice fresh
  rw [size, size] at hsize
  omega

/-- A step is changed where it stands among the remaining ones, if it is one of them. -/
theorem remaining_modify (p : Program) (index : Nat) (f : Step → Step) :
    ({ p with steps := p.steps.modify index f } : Program).remaining =
      if index < p.cursor then p.remaining else p.remaining.modify (index - p.cursor) f := by
  rw [remaining, remaining]
  split
  · next hlt => exact List.drop_modify_of_lt f index p.cursor p.steps hlt
  · next hge => exact List.drop_modify_of_ge f index p.cursor p.steps (Nat.le_of_not_lt hge)

end Program

/-- A condition that may reach the program inserts its steps there. -/
theorem Engine.expand_of_program {e : Engine} {p : Program} (hparts : e.parts.program = true)
    (hp : e.program = some p) (steps : List Step) :
    e.expand steps = (.ok (), { e with program := some (p.splice steps) }) := by
  unfold expand splice
  rw [if_pos hparts, hp]

end TickScript
