import TickScript.Proofs.Unread

/-!
# Reading a program late

A program may be read with no builtin known. Every argument stays as it is written then, and is
read when it is needed. Such a program runs like the one that was read with all builtins known
(`Engine.run_of_late_reading`).

There is an exception. One list of conditions that is the only argument of `or` is taken apart only
if it is known what `or` takes, and it is a row of conditions otherwise. The same happens to `then`,
but a row is the same in a row of its own (`Catalogue.readRow`). Of random inputs nothing is said:
what they choose from has to be read ahead.

* `Catalogue.readArgs_late`: arguments that are read, and the values they are read from.
* `Catalogue.readCells_late`: programs.
-/

namespace TickScript

/-- A condition whose arguments have to be read ahead: a random input, or alternatives that are
written as one argument. -/
def Condition.isSensitive : Condition → Bool
  | .call "randomInput" _ => true
  | .call "or" [_] => true
  | _ => false

theorem Builtin.name_of_ofName? {name : String} {b : Builtin} (h : Builtin.ofName? name = some b) :
    name = b.name := by
  unfold Builtin.ofName? at h
  split at h <;> cases h <;> rfl

/-- Only `randomInput` has inputs to choose from. -/
theorem Builtin.kindFor_ne_inputChoices {b : Builtin} (h : b ≠ .expand .randomInput) (index : Nat) :
    b.spec.kindFor index ≠ .inputChoices := by
  cases b with
  | check c => exact nofun
  | compare r => rcases index with _ | _ | index <;> exact nofun
  | expand m =>
    cases m with
    | randomInput => exact absurd rfl h
    | inOrder | anyOf =>
      rw [Expander.kindFor_of_isVariadic rfl]
      exact nofun
    | _ => rcases index with _ | _ | _ | _ | _ | _ | _ | index <;> exact nofun

namespace Catalogue

/-! ## Arguments -/

/-- What is read from an argument is what is read from it later on. -/
theorem readArgs_late {spec : Spec} (hspec : ∀ i, spec.kindFor i ≠ .inputChoices) :
    ∀ (vs : List Value) (index : Nat) {args : List Arg},
      standard.readArgs spec index vs = .ok args → ArgsLate spec index (vs.map .raw) args
  | [], index, args, h => by
    rw [readArgs] at h
    cases h
    exact .nil
  | v :: rest, index, args, h => by
    rw [readArgs] at h
    obtain ⟨a, hfirst, h⟩ : ∃ a, (Arg.raw v).Late (spec.kindFor index) a ∧
        (standard.readArgs spec (index + 1) rest >>= fun read => .ok (a :: read)) = .ok args := by
      split at h
      · exact ⟨.raw v, .same _ _, h⟩
      · split at h
        · next hkind =>
          obtain ⟨a, ha, h⟩ := exists_of_bind_ok h
          obtain ⟨c, hc, rfl⟩ := exists_of_map_ok ha
          exact ⟨.condition c, hkind ▸ .condition hc, h⟩
        · next hkind =>
          obtain ⟨a, ha, h⟩ := exists_of_bind_ok h
          obtain ⟨body, hbody, rfl⟩ := exists_of_map_ok ha
          exact ⟨.steps body, hkind ▸ .steps hbody, h⟩
        · next hkind =>
          obtain ⟨a, ha, h⟩ := exists_of_bind_ok h
          obtain ⟨i, hi, rfl⟩ := exists_of_map_ok ha
          exact ⟨.inputs i, hkind ▸ .inputs hi, h⟩
        · next hkind => exact absurd hkind (hspec index)
        · next hkind =>
          obtain ⟨a, ha, h⟩ := exists_of_bind_ok h
          obtain ⟨entries, hentries, rfl⟩ := exists_of_map_ok ha
          exact ⟨.script entries, hkind ▸ .script hentries, h⟩
        · exact ⟨.raw v, .same _ _, h⟩
        · exact ⟨.raw v, .same _ _, h⟩
    obtain ⟨read, hread, h⟩ := exists_of_bind_ok h
    cases h
    exact .cons hfirst (readArgs_late hspec rest (index + 1) hread)

/-! ## Rows -/

/-- A list that starts with a list is read as the row of its items. If there is only one item, which
is such a list itself, it is taken apart first, and stands in a row of its own otherwise. -/
theorem readRow (items rest : List Value) :
    ReadAlike Condition.SameReading (standard.readCondition (.list (.list items :: rest)))
      ((standard.readArgs (Builtin.expand .inOrder).spec 0 (.list items :: rest)).map
        (.call (Builtin.expand .inOrder).name)) := by
  have hspec : standard.spec? "then" = some (Builtin.expand .inOrder).spec := rfl
  have hvariadic : (Builtin.expand .inOrder).spec.variadic = true := rfl
  rw [readCondition, readCall, hspec]
  dsimp only
  rw [hvariadic, Bool.true_and]
  split
  · next hwrapped =>
    obtain ⟨inner, others, heq⟩ := exists_of_isWrapped hwrapped
    cases heq
    have hinner := readRow inner others
    have hend : standard.readArgs (Builtin.expand .inOrder).spec (0 + 1) [] = .ok [] := by
      rw [readArgs]
    rw [readArgs_cons_of_isVariadic rfl rfl 0 [], hend]
    change ReadAlike _ ((standard.readArgs (Builtin.expand .inOrder).spec 0
      (.list inner :: others)).map (Condition.call (Builtin.expand .inOrder).name)) _
    generalize (standard.readArgs (Builtin.expand .inOrder).spec 0
      (.list inner :: others)).map (Condition.call (Builtin.expand .inOrder).name) = y
      at hinner ⊢
    cases hc : standard.readCondition (.list (.list inner :: others)) with
    | error f =>
      rw [hc] at hinner
      cases hinner
      exact .failed f
    | ok c =>
      -- What is read is a row, which is the same in a row of its own.
      obtain ⟨args, rfl⟩ := readCondition_row hc
      rw [hc] at hinner
      cases hinner with
      | read h => exact .read (h.symm.trans (.symm (.alone args)))
  · cases standard.readArgs (Builtin.expand .inOrder).spec 0 (.list items :: rest) with
    | error f => exact .failed f
    | ok args => exact .read (.refl _)
termination_by sizeOf items

/-- One list that is the only argument of a row is read late as a row in a row of its own. -/
theorem readRow_late {items rest : List Value} {args : List Arg}
    (h : standard.readArgs (Builtin.expand .inOrder).spec 0 (.list items :: rest) = .ok args) :
    (Condition.call (Builtin.expand .inOrder).name
      [.raw (.list (.list items :: rest))]).SameReading
        (.call (Builtin.expand .inOrder).name args) := by
  have hrow := readRow items rest
  rw [h] at hrow
  cases hc : standard.readCondition (.list (.list items :: rest)) with
  | error f =>
    rw [hc] at hrow
    cases hrow
  | ok c =>
    obtain ⟨xs, rfl⟩ := readCondition_row hc
    rw [hc] at hrow
    cases hrow with
    | read hxs =>
      have hread : ArgsLate (Builtin.expand .inOrder).spec 0 [.raw (.list (.list items :: rest))]
          [.condition (.call (Builtin.expand .inOrder).name xs)] := .cons (.condition hc) .nil
      exact .trans (.read _ hread) (.trans (.alone xs) hxs)

/-! ## Conditions and steps -/

/-- A call whose arguments stay as they are written, and the call that is read. -/
theorem readCall_late (name : String) (args : List Value) {c : Condition}
    (h : standard.readCall name args (fun spec => standard.readArgs spec 0 args)
      (fun spec => standard.readWrapped spec args) = .ok c)
    (hsensitive : (Condition.call name (args.map .raw)).isSensitive = false) :
    (Condition.call name (args.map .raw)).SameReading c := by
  unfold readCall at h
  cases hname : Builtin.ofName? name with
  | none =>
    have hspec : standard.spec? name = none := congrArg (Option.map Builtin.spec) hname
    rw [hspec] at h
    cases h
    exact .refl _
  | some b =>
    have hspec : standard.spec? name = some b.spec := congrArg (Option.map Builtin.spec) hname
    have hb : b ≠ .expand .randomInput := by
      rintro rfl
      cases Builtin.name_of_ofName? hname
      cases hsensitive
    rw [hspec] at h
    obtain rfl := Builtin.name_of_ofName? hname
    obtain ⟨read, hread, rfl⟩ := exists_of_map_ok h
    split at hread
    · next hwrapped =>
      obtain ⟨hvariadic, hwrapped⟩ := Bool.and_eq_true_iff.mp hwrapped
      obtain ⟨items, rest, rfl⟩ := exists_of_isWrapped hwrapped
      obtain rfl : b = .expand .inOrder := by
        cases b with
        | check | compare => cases hvariadic
        | expand m =>
          cases m with
          | inOrder => rfl
          | anyOf => cases hsensitive
          | _ => cases hvariadic
      simp only [readWrapped] at hread
      exact readRow_late hread
    · exact .read b (readArgs_late (Builtin.kindFor_ne_inputChoices hb) args 0 hread)

/-- What a condition is written as, when no builtin is known. -/
theorem readCondition_late {v : Value} {c : Condition} (h : standard.readCondition v = .ok c) :
    ∃ d, empty.readCondition v = .ok d ∧ (d.isSensitive = false → d.SameReading c) := by
  unfold readCondition at h ⊢
  split at h
  · exact ⟨c, h, fun _ => .refl c⟩
  · exact ⟨c, h, fun _ => .refl c⟩
  · exact ⟨c, h, fun _ => .refl c⟩
  · cases h
  · next items rest =>
    refine ⟨_, rfl, readCall_late "then" (.list items :: rest) ?_⟩
    simp only [readWrapped]
    exact h
  · exact ⟨c, h, fun _ => .refl c⟩
  · cases h
  · split at h
    · exact ⟨c, h, fun _ => .refl c⟩
    · exact ⟨_, rfl, readCall_late _ _ h⟩
  · exact ⟨c, h, fun _ => .refl c⟩
  · exact ⟨c, h, fun _ => .refl c⟩
  · cases h

/-- What a program is written as, when no builtin is known. -/
theorem readCells_late : ∀ (cells : List Value) {steps : List Step},
    standard.readCells cells = .ok steps → ∃ late, empty.readCells cells = .ok late ∧
      ((∀ s ∈ late, s.condition.isSensitive = false) →
        List.Forall₂ (Step.Mirrored Condition.SameReading) late steps)
  | cells, steps, h => by
    cases firstRow h with
    | none => exact ⟨[], rfl, fun _ => .nil⟩
    | held hs hinputs hc hrest =>
      obtain ⟨d, hd, hcondition⟩ := readCondition_late hc
      obtain ⟨late, hlate, hmirrored⟩ := readCells_late _ hrest
      rw [readCells_held hs hinputs hd, hlate]
      refine ⟨_, rfl, fun hs => ?_⟩
      obtain ⟨hfirst, hrest⟩ := List.forall_mem_cons.mp hs
      exact .cons ⟨rfl, hcondition hfirst⟩ (hmirrored hrest)
    | alone hcell hc hrest =>
      obtain ⟨d, hd, hcondition⟩ := readCondition_late hc
      obtain ⟨late, hlate, hmirrored⟩ := readCells_late _ hrest
      rw [readCells_alone hcell hd, hlate]
      refine ⟨_, rfl, fun hs => ?_⟩
      obtain ⟨hfirst, hrest⟩ := List.forall_mem_cons.mp hs
      exact .cons ⟨rfl, hcondition hfirst⟩ (hmirrored hrest)
termination_by cells => sizeOf cells

end Catalogue

/-! ## The statement -/

namespace Engine

/-- A program that is read late means the same. Whatever cells can be read with all builtins known
can be read with none known. If no step is a random input or has alternatives that are written as
one argument, the two programs run alike on every engine: every tick has the same outcome or error,
and leaves the same flags, random numbers, record of the search, script and override. -/
theorem run_of_late_reading {cells : List Value} {steps : List Step}
    (hread : Catalogue.standard.readCells cells = .ok steps) :
    ∃ late, Catalogue.empty.readCells cells = .ok late ∧
      ((∀ s ∈ late, s.condition.isSensitive = false) →
        ∀ e : Engine, e.parts.program = true → ∀ (budget : Nat) (ms : List Moment),
          ((e.load (some late)).run budget ms).1 = ((e.load (some steps)).run budget ms).1 ∧
          SameEffects ((e.load (some late)).run budget ms).2
            ((e.load (some steps)).run budget ms).2) := by
  obtain ⟨late, hlate, hmirrored⟩ := Catalogue.readCells_late cells hread
  refine ⟨late, hlate, fun hsensitive e hparts budget ms => ?_⟩
  exact run_alike Condition.SameReading.simulates e hparts (hmirrored hsensitive) budget ms
    (.inl Condition.SameReading.keepsRests)

/-- A row that is written as one argument, and a step that is inserted in the air. -/
theorem run_of_late_reading_of_row :
    let ground := Value.list [.text "tg"]
    let air := Value.list [.text "ntg"]
    let cells := [.list [.text "then", .list [ground, air]],
      .list [.text "when", air, .list [.int 1]]]
    let steps := [Step.mk .none (.call "then" [.condition (.call "tg" []),
        .condition (.call "ntg" [])]),
      .mk .none (.call "when" [.condition (.call "ntg" []), .steps [.mk .none (.countdown 1)]])]
    let late := [Step.mk .none (.call "then" [.raw (.list [ground, air])]),
      .mk .none (.call "when" [.raw air, .raw (.list [.int 1])])]
    let ms : List Moment := [{ player := { onGround := true } }, { player := {} }, { player := {} }]
    Catalogue.standard.readCells cells = .ok steps ∧ Catalogue.empty.readCells cells = .ok late ∧
      (((default : Engine).load (some late)).run 5 ms).1 =
        (((default : Engine).load (some steps)).run 5 ms).1 := by
  intro ground air cells steps late ms
  have hread : Catalogue.standard.readCells cells = .ok steps := by cbv
  have hlate : Catalogue.empty.readCells cells = .ok late := by cbv
  obtain ⟨late', hlate', hrun⟩ := run_of_late_reading hread
  cases hlate.symm.trans hlate'
  have hsensitive : ∀ s ∈ late, s.condition.isSensitive = false := by
    intro s hs
    rcases List.mem_pair.mp hs with rfl | rfl <;> rfl
  exact ⟨hread, hlate, (hrun hsensitive default rfl 5 ms).1⟩

/-- Alternatives that are written as one argument and read late are waited for as a row. -/
example :
    let cells := [Value.list [.text "or", .list [.list [.text "tg"], .list [.text "ntg"]]]]
    let ms : List Moment := [{ player := { onGround := true } }]
    let kinds := fun read : Except Fault (List Step) => read.map fun steps =>
      (((default : Engine).load (some steps)).run 5 ms).1.map kindOf
    kinds (Catalogue.standard.readCells cells) = .ok [some .exhausted] ∧
      kinds (Catalogue.empty.readCells cells) = .ok [some .committed] := by
  cbv

end Engine

end TickScript
