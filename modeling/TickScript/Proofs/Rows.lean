import Mathlib.Data.Nat.Count
import TickScript.Cells

/-!
# Rows of a program

A program is a flat list of cells without delimiters. Whether a text is an input, a flag or the
condition of an input depends on what stands in front of it. So the cells fall into rows: an input
with its condition, or a condition alone. A program that can be read ends with a whole row, and
whatever is written behind it is read as if it stood alone (`Cells.programs_concatenate`).

* `Catalogue.firstRow`: what a program that was read begins with. `Catalogue.readCells_held` and
  `Catalogue.readCells_alone` are the way back.
* `Cells.isInputAt`: the cells that are inputs, told from their texts.
* `Cells.LaidOut`: every input is followed by its condition, and every row is one step.
-/

namespace TickScript

theorem exists_of_bind_ok {ε α β : Type} {x : Except ε α} {f : α → Except ε β} {b : β}
    (h : x >>= f = .ok b) : ∃ a, x = .ok a ∧ f a = .ok b := by
  cases x with
  | error _ => cases h
  | ok a => exact ⟨a, rfl, h⟩

theorem exists_of_map_ok {ε α β : Type} {x : Except ε α} {f : α → β} {b : β}
    (h : x.map f = .ok b) : ∃ a, x = .ok a ∧ f a = b := by
  cases x with
  | error _ => cases h
  | ok a =>
    cases h
    exact ⟨a, rfl, rfl⟩

/-! ## Reading row by row -/

/-- A text that names no flag. Where a row begins, it is an input and takes the next cell. -/
def Value.takesNext : Value → Bool
  | .text s => (Flag.ofName? s).isNone
  | _ => false

namespace Catalogue

variable {known : Catalogue}

theorem readCondition_flag {s : String} {f : Flag} (hf : Flag.ofName? s = some f) :
    known.readCondition (.text s) = .ok (.toggle f) := by
  rw [readCondition, Condition.ofWord, hf]

/-- A row of two cells: an input, and the condition that ends it. -/
theorem readCells_held {s : String} {v : Value} {inputs : Inputs} {c : Condition}
    (hs : Flag.ofName? s = none) (hinputs : Inputs.read (.text s) = .ok inputs)
    (hc : known.readCondition v = .ok c) (rest : List Value) :
    known.readCells (.text s :: v :: rest) =
      (known.readCells rest).map (.mk inputs c :: ·) := by
  simp only [readCells, hs, hinputs, hc]
  cases known.readCells rest <;> rfl

/-- A row of one cell: a flag, or a condition without input. -/
theorem readCells_alone {cell : Value} {c : Condition} (hcell : cell.takesNext = false)
    (hc : known.readCondition cell = .ok c) (rest : List Value) :
    known.readCells (cell :: rest) = (known.readCells rest).map (.mk .none c :: ·) := by
  cases cell with
  | text s =>
    obtain ⟨f, hf⟩ := Option.isSome_iff_exists.mp (Option.isNone_eq_false_iff.mp hcell)
    cases (readCondition_flag hf).symm.trans hc
    conv_lhs => rw [readCells.eq_def]
    simp only [hf]
    cases known.readCells rest <;> rfl
  | _ =>
    simp only [readCells, hc]
    cases known.readCells rest <;> rfl

/-- What the cells of a program begin with, and the step that the first row is read as. -/
inductive FirstRow (known : Catalogue) : List Value → List Step → Prop
  | none : FirstRow known [] []
  | held {s : String} {v : Value} {inputs : Inputs} {c : Condition} {rest : List Value}
      {steps : List Step} (hs : Flag.ofName? s = none)
      (hinputs : Inputs.read (.text s) = .ok inputs) (hc : known.readCondition v = .ok c)
      (hrest : known.readCells rest = .ok steps) :
      FirstRow known (.text s :: v :: rest) (.mk inputs c :: steps)
  | alone {cell : Value} {c : Condition} {rest : List Value} {steps : List Step}
      (hcell : cell.takesNext = false) (hc : known.readCondition cell = .ok c)
      (hrest : known.readCells rest = .ok steps) :
      FirstRow known (cell :: rest) (.mk .none c :: steps)

/-- Whatever was read as a program was read row by row. -/
theorem firstRow {cells : List Value} {steps : List Step} (h : known.readCells cells = .ok steps) :
    known.FirstRow cells steps := by
  unfold readCells at h
  split at h
  · cases h
    exact .none
  · split at h
    · next s rest f _ hf =>
      obtain ⟨read, hread, h⟩ := exists_of_bind_ok h
      cases h
      exact .alone (congrArg Option.isNone hf) (readCondition_flag hf) hread
    · cases h
    · next hs =>
      obtain ⟨inputs, hinputs, h⟩ := exists_of_bind_ok h
      obtain ⟨c, hc, h⟩ := exists_of_bind_ok h
      obtain ⟨read, hread, h⟩ := exists_of_bind_ok h
      cases h
      exact .held hs hinputs hc hread
  · next cell rest hcell =>
    obtain ⟨c, hc, h⟩ := exists_of_bind_ok h
    obtain ⟨read, hread, h⟩ := exists_of_bind_ok h
    cases h
    refine .alone ?_ hc hread
    cases cell with
    | text s => exact absurd rfl (hcell s)
    | _ => rfl

/-- What follows cells that can be read is read on its own. -/
theorem readCells_append {a : List Value} {before : List Step}
    (h : known.readCells a = .ok before) (b : List Value) :
    known.readCells (a ++ b) = (known.readCells b).map (before ++ ·) := by
  cases firstRow h with
  | none =>
    rw [List.nil_append]
    cases known.readCells b <;> rfl
  | held hs hinputs hc hrest =>
    rw [List.cons_append, List.cons_append, readCells_held hs hinputs hc, readCells_append hrest b]
    cases known.readCells b <;> rfl
  | alone hcell hc hrest =>
    rw [List.cons_append, readCells_alone hcell hc, readCells_append hrest b]
    cases known.readCells b <;> rfl
termination_by sizeOf a

end Catalogue

namespace Cells

/-! ## Inputs among the cells -/

/-- Whether the cell at a position is an input: a text that names no flag, unless it is the
condition of the input before it. -/
def isInputAt (cells : List Value) : Nat → Bool
  | 0 => cells[0]?.any Value.takesNext
  | i + 1 => cells[i + 1]?.any Value.takesNext && !isInputAt cells i

/-- The number of inputs in front of a position. -/
def inputsBefore (cells : List Value) (n : Nat) : Nat :=
  Nat.count (fun i => isInputAt cells i = true) n

theorem lt_of_isInputAt {cells : List Value} {i : Nat} (h : isInputAt cells i = true) :
    i < cells.length := by
  by_contra hi
  have hnone : cells[i]? = none := List.getElem?_eq_none (Nat.le_of_not_lt hi)
  cases i with
  | zero | succ =>
    rw [isInputAt, hnone] at h
    cases h

/-- The last cell is no input, so it ends a row. -/
def EndsRow (cells : List Value) : Prop :=
  ∀ i, isInputAt cells i = true → i + 1 < cells.length

section

variable {a b : List Value}

theorem isInputAt_append_left {i : Nat} (hi : i < a.length) :
    isInputAt (a ++ b) i = isInputAt a i := by
  induction i with
  | zero => rw [isInputAt, isInputAt, List.getElem?_append_left hi]
  | succ i ih =>
    rw [isInputAt, isInputAt, List.getElem?_append_left hi, ih (Nat.lt_of_succ_lt hi)]

/-- Behind the end of a row, inputs are told as if nothing stood in front. -/
theorem isInputAt_append_right (ha : EndsRow a) (i : Nat) :
    isInputAt (a ++ b) (a.length + i) = isInputAt b i := by
  induction i with
  | zero =>
    cases hlength : a.length with
    | zero =>
      obtain rfl := List.length_eq_zero_iff.mp hlength
      rfl
    | succ n =>
      have hlast : isInputAt (a ++ b) n = false := by
        rw [isInputAt_append_left (by omega)]
        refine Bool.eq_false_iff.mpr fun h => ?_
        have := ha n h
        omega
      rw [Nat.add_zero, isInputAt, isInputAt, hlast, ← hlength,
        List.getElem?_append_right (Nat.le_refl _), Nat.sub_self, Bool.not_false, Bool.and_true]
  | succ i ih =>
    rw [← Nat.add_assoc, isInputAt, isInputAt, ih, Nat.add_assoc,
      List.getElem?_append_right (Nat.le_add_right ..), Nat.add_sub_cancel_left]

theorem inputsBefore_append_left {n : Nat} (hn : n ≤ a.length) :
    inputsBefore (a ++ b) n = inputsBefore a n := by
  induction n with
  | zero => rfl
  | succ n ih =>
    have hn' := ih (Nat.le_of_succ_le hn)
    rw [inputsBefore, inputsBefore] at hn' ⊢
    rw [Nat.count_succ, Nat.count_succ, hn', isInputAt_append_left hn]

theorem inputsBefore_append_right (ha : EndsRow a) (n : Nat) :
    inputsBefore (a ++ b) (a.length + n) = inputsBefore a a.length + inputsBefore b n := by
  have hleft := inputsBefore_append_left (b := b) (Nat.le_refl a.length)
  rw [inputsBefore] at hleft ⊢
  rw [Nat.count_add, hleft]
  simp only [isInputAt_append_right ha, inputsBefore]

end

/-! ## Cells and steps -/

/-- The step whose row begins at a position: every row in front of it has one cell that is no
input. -/
def StepAt (cells : List Value) (steps : List Step) (i : Nat) (s : Step) : Prop :=
  ∃ k, k + inputsBefore cells i = i ∧ steps[k]? = some s

/-- How cells make up steps. The steps are as many as the cells that are no inputs. Each input
stands in front of the cell that is its condition, and every other row is a condition alone. -/
structure LaidOut (known : Catalogue) (cells : List Value) (steps : List Step) : Prop where
  length : steps.length + inputsBefore cells cells.length = cells.length
  held : ∀ i, isInputAt cells i = true → ∃ s v inputs c,
    cells[i]? = some (.text s) ∧ cells[i + 1]? = some v ∧
    Inputs.read (.text s) = .ok inputs ∧ known.readCondition v = .ok c ∧
    StepAt cells steps i (.mk inputs c)
  alone : ∀ i v, cells[i]? = some v → isInputAt cells i = false →
    (∀ j, j + 1 = i → isInputAt cells j = false) → ∃ c,
    known.readCondition v = .ok c ∧ StepAt cells steps i (.mk .none c)

section

variable {known : Catalogue} {a b : List Value} {before after : List Step}

theorem getElem?_append_of_eq_some {α : Type} {l m : List α} {i : Nat} {x : α}
    (h : l[i]? = some x) : (l ++ m)[i]? = some x :=
  (List.getElem?_append_left (List.getElem?_eq_some_iff.mp h).1).trans h

theorem getElem?_append_length {α : Type} (l m : List α) (i : Nat) :
    (l ++ m)[l.length + i]? = m[i]? := by
  rw [List.getElem?_append_right (Nat.le_add_right ..), Nat.add_sub_cancel_left]

theorem StepAt.append_left {i : Nat} {s : Step} (h : StepAt a before i s) (hi : i < a.length) :
    StepAt (a ++ b) (before ++ after) i s := by
  obtain ⟨k, hk, hs⟩ := h
  refine ⟨k, ?_, getElem?_append_of_eq_some hs⟩
  rw [inputsBefore_append_left (Nat.le_of_lt hi)]
  exact hk

theorem LaidOut.endsRow (h : LaidOut known a before) : EndsRow a := by
  intro i hi
  obtain ⟨_, _, _, _, -, hv, -⟩ := h.held i hi
  exact (List.getElem?_eq_some_iff.mp hv).1

theorem StepAt.append_right (ha : LaidOut known a before) {i : Nat} {s : Step}
    (h : StepAt b after i s) : StepAt (a ++ b) (before ++ after) (a.length + i) s := by
  obtain ⟨k, hk, hs⟩ := h
  refine ⟨before.length + k, ?_, (getElem?_append_length ..).trans hs⟩
  rw [inputsBefore_append_right ha.endsRow]
  have := ha.length
  omega

/-- Rows and what follows them make up the steps of both. -/
theorem LaidOut.append (ha : LaidOut known a before) (hb : LaidOut known b after) :
    LaidOut known (a ++ b) (before ++ after) where
  length := by
    rw [List.length_append, List.length_append, inputsBefore_append_right ha.endsRow]
    have := ha.length
    have := hb.length
    omega
  held i hi := by
    obtain hlt | hge := Nat.lt_or_ge i a.length
    · rw [isInputAt_append_left hlt] at hi
      obtain ⟨s, v, inputs, c, hs, hv, hinputs, hc, hstep⟩ := ha.held i hi
      exact ⟨s, v, inputs, c, getElem?_append_of_eq_some hs, getElem?_append_of_eq_some hv,
        hinputs, hc, hstep.append_left hlt⟩
    · obtain ⟨j, rfl⟩ := Nat.exists_eq_add_of_le hge
      rw [isInputAt_append_right ha.endsRow] at hi
      obtain ⟨s, v, inputs, c, hs, hv, hinputs, hc, hstep⟩ := hb.held j hi
      exact ⟨s, v, inputs, c, (getElem?_append_length ..).trans hs,
        (getElem?_append_length a b (j + 1)).trans hv, hinputs, hc, hstep.append_right ha⟩
  alone i v hv hi hfirst := by
    obtain hlt | hge := Nat.lt_or_ge i a.length
    · rw [List.getElem?_append_left hlt] at hv
      rw [isInputAt_append_left hlt] at hi
      obtain ⟨c, hc, hstep⟩ := ha.alone i v hv hi fun j hj => by
        rw [← isInputAt_append_left (b := b) (by omega)]
        exact hfirst j hj
      exact ⟨c, hc, hstep.append_left hlt⟩
    · obtain ⟨j, rfl⟩ := Nat.exists_eq_add_of_le hge
      rw [getElem?_append_length] at hv
      rw [isInputAt_append_right ha.endsRow] at hi
      obtain ⟨c, hc, hstep⟩ := hb.alone j v hv hi fun n hn => by
        rw [← isInputAt_append_right (b := b) ha.endsRow]
        exact hfirst _ (by omega)
      exact ⟨c, hc, hstep.append_right ha⟩

theorem laidOut_nil : LaidOut known [] [] where
  length := rfl
  held _ hi := absurd (lt_of_isInputAt hi) (Nat.not_lt_zero _)
  alone _ _ hv := nomatch hv

/-- A row of two cells. -/
theorem laidOut_held {s : String} {v : Value} {inputs : Inputs} {c : Condition}
    (hs : Flag.ofName? s = none) (hinputs : Inputs.read (.text s) = .ok inputs)
    (hc : known.readCondition v = .ok c) :
    LaidOut known [.text s, v] [.mk inputs c] := by
  have hfirst : isInputAt [.text s, v] 0 = true := Option.isNone_iff_eq_none.mpr hs
  have hsecond : isInputAt [.text s, v] 1 = false := by
    rw [isInputAt, hfirst]
    exact Bool.and_false _
  refine ⟨?_, fun i hi => ?_, fun i w hw hi hbegins => ?_⟩
  · simp [inputsBefore, Nat.count_succ, hfirst, hsecond]
  · obtain _ | _ | i := i
    · exact ⟨s, v, inputs, c, rfl, rfl, hinputs, hc, 0, rfl, rfl⟩
    · cases hsecond.symm.trans hi
    · exact absurd (lt_of_isInputAt hi) (by simp)
  · obtain _ | _ | i := i
    · cases hfirst.symm.trans hi
    · cases hfirst.symm.trans (hbegins 0 rfl)
    · cases hw

/-- A row of one cell. -/
theorem laidOut_alone {cell : Value} {c : Condition} (hcell : cell.takesNext = false)
    (hc : known.readCondition cell = .ok c) : LaidOut known [cell] [.mk .none c] := by
  have hnone : isInputAt [cell] 0 = false := hcell
  refine ⟨?_, fun i hi => ?_, fun i w hw _ _ => ?_⟩
  · simp [inputsBefore, Nat.count_succ, hnone]
  · obtain _ | i := i
    · cases hnone.symm.trans hi
    · exact absurd (lt_of_isInputAt hi) (by simp)
  · obtain _ | i := i
    · cases hw
      exact ⟨c, hc, 0, rfl, rfl⟩
    · cases hw

/-- Whatever was read is laid out in rows. -/
theorem laidOut_of_readCells {cells : List Value} {steps : List Step}
    (h : known.readCells cells = .ok steps) : LaidOut known cells steps := by
  cases Catalogue.firstRow h with
  | none => exact laidOut_nil
  | held hs hinputs hc hrest =>
    exact (laidOut_held hs hinputs hc).append (laidOut_of_readCells hrest)
  | alone hcell hc hrest => exact (laidOut_alone hcell hc).append (laidOut_of_readCells hrest)
termination_by sizeOf cells

end

/-! ## The statement -/

/-- Programs can be written one behind the other. If the cells of the first can be read, then both
together are read as its steps and, behind them, the steps of the second, and fail as the second
does if that cannot be read. In whatever is read, the steps are as many as the cells that are no
inputs, and each input is followed by the cell that became its condition. -/
theorem programs_concatenate {known : Catalogue} {a : List Value} {before : List Step}
    (ha : known.readCells a = .ok before) (b : List Value) :
    known.readCells (a ++ b) = (known.readCells b).map (before ++ ·) ∧
    ∀ steps, known.readCells (a ++ b) = .ok steps → LaidOut known (a ++ b) steps :=
  ⟨Catalogue.readCells_append ha b, fun _ h => laidOut_of_readCells h⟩

/-- The same text twice, as a condition and then, at the beginning of a row, as an input. -/
theorem programs_concatenate_at_same_text :
    let a : List Value := [.text "ignorePause", .text "r", .text "t"]
    let b : List Value := [.text "t", .list [.int 2]]
    let before : List Step := [.mk .none (.toggle .ignorePause),
      .mk (.ofKeys (.ofList [.right])) (.call "t" [])]
    let after : List Step := [.mk (.ofKeys (.ofList [.altRun])) (.countdown 2)]
    Catalogue.standard.readCells a = .ok before ∧
      Catalogue.standard.readCells (a ++ b) = .ok (before ++ after) ∧
      inputsBefore (a ++ b) 5 = 2 ∧ LaidOut .standard (a ++ b) (before ++ after) := by
  intro a b before after
  have hbefore : Catalogue.standard.readCells a = .ok before := by cbv
  have hafter : Catalogue.standard.readCells b = .ok after := by cbv
  obtain ⟨hread, hlaid⟩ := programs_concatenate hbefore b
  rw [hafter] at hread
  exact ⟨hbefore, hread, by decide, hlaid _ hread⟩

/-- An input at the end cannot be read, but is followed by its condition in a longer program. -/
example :
    let input : List Value := [.text "r"]
    let rest : List Value := [.int 3]
    Catalogue.empty.readCells input = .error (.inputWithoutCondition "r") ∧
      Catalogue.empty.readCells rest = .ok [.mk .none (.countdown 3)] ∧
      Catalogue.empty.readCells (input ++ rest) =
        .ok [.mk (.ofKeys (.ofList [.right])) (.countdown 3)] := by
  cbv

end Cells

end TickScript
