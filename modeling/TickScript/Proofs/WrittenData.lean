import Mathlib.Tactic.IntervalCases
import TickScript.Json.Writer
import TickScript.Proofs.Digits

/-!
# Data that is written and read

The text of a value is read as the value if the dialect of the reader can hold it
(`Legible`): its whole numbers fit, it has no decimal numbers and no built-in tests, it is not
nested too deeply, and no object has a key twice. Every text is legible, whatever its
characters (`chars?_escape`).

* `Json.value?_writeAt`: a value in the middle of a text.
* `Json.read?_write`: a whole text.
-/

namespace TickScript.Json

variable {d : Dialect} {levels depth budget : Nat} {rest : List Char}

/-! ## Blanks -/

theorem skip_cons {c : Char} (hc : isSpace c = false) (cs : List Char) :
    skip (c :: cs) = c :: cs := by
  simp [skip, hc]

theorem skip_newline (depth : Nat) (cs : List Char) :
    skip ((newline depth).toList ++ cs) = skip cs := by
  have hspaces : ∀ n : Nat, skip (List.replicate n ' ' ++ cs) = skip cs := by
    intro n
    induction n with
    | zero => rfl
    | succ n ih => simpa [List.replicate_succ, skip, isSpace] using ih
  have hnewline : (newline depth).toList = '\n' :: List.replicate (2 * depth) ' ' := by
    simp [newline, String.toList_append]
  rw [hnewline]
  exact hspaces _

theorem value?_skip {cs ds : List Char} (h : skip cs = skip ds) (budget : Nat) :
    value? d levels budget cs = value? d levels budget ds := by
  cases budget with
  | zero => rfl
  | succ budget => rw [value?, value?, h]

theorem items?_skip {cs ds : List Char} (h : skip cs = skip ds) (budget : Nat)
    (seen : List Value) : items? d levels budget cs seen = items? d levels budget ds seen := by
  cases budget with
  | zero => rfl
  | succ budget => rw [items?, items?, value?_skip h]

theorem fields?_skip {cs ds : List Char} (h : skip cs = skip ds) (budget : Nat)
    (seen : List (String × Value)) :
    fields? d levels budget cs seen = fields? d levels budget ds seen := by
  cases budget with
  | zero => rfl
  | succ budget => rw [fields?, fields?, h]

/-! ## Texts -/

theorem unicode?_hex {n : Nat} (h : n < 0x20) (cs : List Char) :
    unicode? (Text.Quoted.hex 4 n ++ cs) = some (Char.ofNat n, cs) := by
  interval_cases n <;> rfl

/-- The escape of a character is read as the character. -/
theorem chars?_escape_cons (c : Char) (cs seen : List Char) (budget : Nat) :
    chars? (budget + 1) (escape c ++ cs) seen = chars? budget cs (c :: seen) := by
  by_cases hquote : c = '"'
  · subst hquote
    simp [escape, chars?]
  by_cases hslash : c = '\\'
  · subst hslash
    simp [escape, chars?]
  by_cases hback : c = '\x08'
  · subst hback
    simp [escape, chars?]
  by_cases htab : c = '\t'
  · subst htab
    simp [escape, chars?]
  by_cases hline : c = '\n'
  · subst hline
    simp [escape, chars?]
  by_cases hform : c = '\x0c'
  · subst hform
    simp [escape, chars?]
  by_cases hreturn : c = '\r'
  · subst hreturn
    simp [escape, chars?]
  by_cases hcontrol : c.toNat < 0x20
  · simp [escape, chars?, unicode?_hex hcontrol, *]
  · simp [escape, chars?, *]

theorem chars?_escape (s : List Char) : ∀ (seen : List Char) (budget : Nat), s.length < budget →
    chars? budget (s.flatMap escape ++ '"' :: rest) seen =
      some (String.ofList (seen.reverse ++ s), rest) := by
  induction s with
  | nil =>
    intro seen budget hbudget
    obtain ⟨budget, rfl⟩ : ∃ b, budget = b + 1 := ⟨budget - 1, by simp at hbudget; omega⟩
    simp [chars?]
  | cons c s ih =>
    intro seen budget hbudget
    obtain ⟨budget, rfl⟩ : ∃ b, budget = b + 1 := ⟨budget - 1, by omega⟩
    have hbudget' : s.length < budget := by simpa using hbudget
    rw [List.flatMap_cons, List.append_assoc, chars?_escape_cons, ih _ _ hbudget']
    simp

theorem length_flatMap_escape (s : List Char) : s.length ≤ (s.flatMap escape).length := by
  have hpos : ∀ c, 1 ≤ (escape c).length := by
    intro c
    unfold escape
    repeat' split
    all_goals simp
  induction s with
  | nil => simp
  | cons c s ih =>
    have hc := hpos c
    simp only [List.flatMap_cons, List.length_append, List.length_cons]
    omega

/-- A quoted text is read as the text. -/
theorem chars?_quote (s : String) (rest : List Char) : ∃ cs,
    (quote s).toList ++ rest = '"' :: cs ∧ chars? (cs.length + 1) cs [] = some (s, rest) := by
  refine ⟨s.toList.flatMap escape ++ '"' :: rest, by simp [quote], ?_⟩
  have hlength := length_flatMap_escape s.toList
  rw [chars?_escape _ _ _ (by simp only [List.length_append, List.length_cons]; omega)]
  simp

/-! ## Values -/

mutual

/-- A reader of the dialect can hold the value within so many levels. -/
def Legible (d : Dialect) (levels : Nat) : Value → Prop
  | .null | .bool _ | .text _ => True
  | .int n => d.Fits n
  | .list items =>
    (levels ≠ 0 ∨ items = [] ∧ d.emptyLevels = false) ∧ AllLegible d (levels - 1) items
  | .object fields =>
    (levels ≠ 0 ∨ fields = [] ∧ d.emptyLevels = false) ∧ (fields.map (·.1)).Nodup ∧
      FieldsLegible d (levels - 1) fields
  | .float _ | .native .. => False

def AllLegible (d : Dialect) (levels : Nat) : List Value → Prop
  | [] => True
  | v :: rest => Legible d levels v ∧ AllLegible d levels rest

def FieldsLegible (d : Dialect) (levels : Nat) : List (String × Value) → Prop
  | [] => True
  | (_, v) :: rest => Legible d levels v ∧ FieldsLegible d levels rest

end

theorem allLegible_iff {items : List Value} :
    AllLegible d levels items ↔ ∀ v ∈ items, Legible d levels v := by
  induction items with
  | nil => simp [AllLegible]
  | cons v items ih => simp [AllLegible, ih]

theorem fieldsLegible_iff {fields : List (String × Value)} :
    FieldsLegible d levels fields ↔ ∀ f ∈ fields, Legible d levels f.2 := by
  induction fields with
  | nil => simp [FieldsLegible]
  | cons f fields ih => simp [FieldsLegible, ih]

/-- The items behind the first one, each on a line of its own. -/
def itemLines (depth : Nat) (items : List Value) : List Char :=
  items.flatMap fun v => ',' :: ((newline depth).toList ++ (writeAt depth v).toList)

/-- The text of a field. -/
def fieldText (depth : Nat) (key : String) (v : Value) : List Char :=
  (quote key).toList ++ ':' :: ' ' :: (writeAt depth v).toList

/-- The fields behind the first one, each on a line of its own. -/
def fieldLines (depth : Nat) (fields : List (String × Value)) : List Char :=
  fields.flatMap fun f => ',' :: ((newline depth).toList ++ fieldText depth f.1 f.2)

theorem toList_items (depth : Nat) (v : Value) (items : List Value) :
    (",".intercalate (writeItems depth (v :: items))).toList =
      (newline depth).toList ++ (writeAt depth v).toList ++ itemLines depth items := by
  induction items generalizing v with
  | nil => simp [writeItems, itemLines, String.toList_append]
  | cons w items ih =>
    have hrest := ih w
    rw [writeItems] at hrest ⊢
    rw [writeItems, String.intercalate_cons_cons]
    rw [String.toList_append, String.toList_append, hrest]
    simp [itemLines, String.toList_append]

theorem toList_fields (depth : Nat) (key : String) (v : Value) (fields : List (String × Value)) :
    (",".intercalate (writeFields depth ((key, v) :: fields))).toList =
      (newline depth).toList ++ fieldText depth key v ++ fieldLines depth fields := by
  induction fields generalizing key v with
  | nil => simp [writeFields, fieldLines, fieldText, String.toList_append]
  | cons f fields ih =>
    obtain ⟨key', w⟩ := f
    have hrest := ih key' w
    rw [writeFields] at hrest ⊢
    rw [writeFields, String.intercalate_cons_cons]
    rw [String.toList_append, String.toList_append, hrest]
    simp [fieldLines, fieldText, String.toList_append]

/-- The text of a list with items. -/
theorem toList_list (depth : Nat) (v : Value) (items : List Value) :
    (writeAt depth (.list (v :: items))).toList =
      '[' :: ((newline (depth + 1)).toList ++ ((writeAt (depth + 1) v).toList ++
        (itemLines (depth + 1) items ++ ((newline depth).toList ++ [']'])))) := by
  rw [writeAt]
  · simp only [String.toList_append, toList_items, List.append_assoc]
    rfl
  · simp

theorem toList_object (depth : Nat) (key : String) (v : Value)
    (fields : List (String × Value)) :
    (writeAt depth (.object ((key, v) :: fields))).toList =
      '\x7b' :: ((newline (depth + 1)).toList ++ (fieldText (depth + 1) key v ++
        (fieldLines (depth + 1) fields ++ ((newline depth).toList ++ ['\x7d'])))) := by
  rw [writeAt]
  · simp only [String.toList_append, toList_fields, List.append_assoc]
    rfl
  · simp

/-- A written value starts with a character that is no blank and closes no list. -/
theorem exists_head {v : Value} (h : Legible d levels v) (depth : Nat) :
    ∃ c cs, (writeAt depth v).toList = c :: cs ∧ isSpace c = false ∧ c ≠ ']' := by
  cases v with
  | null => exact ⟨'n', ['u', 'l', 'l'], by rw [writeAt]; rfl, rfl, by decide⟩
  | bool b =>
    cases b with
    | true => exact ⟨'t', ['r', 'u', 'e'], by rw [writeAt]; rfl, rfl, by decide⟩
    | false => exact ⟨'f', ['a', 'l', 's', 'e'], by rw [writeAt]; rfl, rfl, by decide⟩
  | int n =>
    rw [writeAt, Numeral.toList_toString]
    split
    · exact ⟨'-', _, rfl, rfl, by decide⟩
    · cases hd : Nat.toDigits 10 n.natAbs with
      | nil => exact absurd hd Nat.toDigits_ne_nil
      | cons c cs =>
        have hc : isDigit c = true := Numeral.isDigit_of_mem (n := n.natAbs) (by simp [hd])
        refine ⟨c, cs, rfl, ?_, ?_⟩
        · cases hspace : isSpace c with
          | false => rfl
          | true =>
            simp only [isSpace, Bool.or_eq_true, beq_iff_eq] at hspace
            rcases hspace with ((rfl | rfl) | rfl) | rfl <;> exact absurd hc (by decide)
        · rintro rfl
          exact absurd hc (by decide)
  | text s => exact ⟨'"', _, by rw [writeAt, quote, String.toList_ofList]; rfl, rfl, by decide⟩
  | list items =>
    cases items with
    | nil => exact ⟨'[', [']'], by rw [writeAt]; rfl, rfl, by decide⟩
    | cons v items => exact ⟨'[', _, toList_list depth v items, rfl, by decide⟩
  | object fields =>
    cases fields with
    | nil => exact ⟨'\x7b', ['\x7d'], by rw [writeAt]; rfl, rfl, by decide⟩
    | cons f fields => exact ⟨'\x7b', _, toList_object depth f.1 f.2 fields, rfl, by decide⟩
  | float x => exact h.elim
  | native test label => exact h.elim

theorem exists_budget {v : Value} (h : Legible d levels v)
    (hbudget : (writeAt depth v).toList.length ≤ budget) : ∃ b, budget = b + 1 := by
  obtain ⟨c, cs, htext, -⟩ := exists_head h depth
  rw [htext, List.length_cons] at hbudget
  exact ⟨budget - 1, by omega⟩

theorem toList_newline (depth : Nat) :
    (newline depth).toList = '\n' :: List.replicate (2 * depth) ' ' := by
  simp [newline, String.toList_append]

theorem stops_itemLines (depth depth' : Nat) (items : List Value) (cs : List Char) :
    Stops (itemLines depth items ++ ((newline depth').toList ++ cs)) := by
  cases items with
  | nil =>
    exact .inr ⟨List.replicate (2 * depth') ' ' ++ cs,
      .inr (by simp [itemLines, toList_newline])⟩
  | cons v items => exact .inr ⟨_, .inl rfl⟩

theorem stops_fieldLines (depth depth' : Nat) (fields : List (String × Value)) (cs : List Char) :
    Stops (fieldLines depth fields ++ ((newline depth').toList ++ cs)) := by
  cases fields with
  | nil =>
    exact .inr ⟨List.replicate (2 * depth') ' ' ++ cs,
      .inr (by simp [fieldLines, toList_newline])⟩
  | cons f fields => exact .inr ⟨_, .inl rfl⟩

theorem setField_of_not_mem {seen : List (String × Value)} {key : String}
    (h : key ∉ seen.map (·.1)) (v : Value) : setField seen key v = seen ++ [(key, v)] := by
  have hnone : ¬seen.any (·.1 == key) = true := by
    intro hany
    obtain ⟨f, hf, hkey⟩ := List.any_eq_true.mp hany
    exact h (List.mem_map.mpr ⟨f, hf, by simpa using hkey⟩)
  rw [setField, if_neg hnone]

/-! ### Brackets -/

theorem empty?_eq_some (h : levels ≠ 0 ∨ d.emptyLevels = false) (v : Value) :
    empty? d levels v rest = some (v, rest) := by
  unfold empty?
  rcases h with hne | hall
  · simp [hne]
  · simp [hall]

theorem value?_bracket {cs ds : List Char} {c : Char} (h : skip cs = c :: ds) (hc : c ≠ ']')
    (hlevels : levels ≠ 0) :
    value? d levels (budget + 1) ('[' :: cs) = items? d (levels - 1) budget (c :: ds) [] := by
  rw [value?, skip_cons rfl]
  simp [h, hc, hlevels]

theorem value?_brace {cs ds : List Char} (h : skip cs = '"' :: ds) (hlevels : levels ≠ 0) :
    value? d levels (budget + 1) ('\x7b' :: cs) = fields? d (levels - 1) budget ('"' :: ds) [] := by
  rw [value?, skip_cons rfl]
  simp [h, hlevels]

/-- The lines of a list, without the blanks before the first one. -/
def itemsText (depth : Nat) : List Value → List Char
  | [] => []
  | v :: items => (writeAt depth v).toList ++ itemLines depth items

def fieldsText (depth : Nat) : List (String × Value) → List Char
  | [] => []
  | (key, v) :: fields => fieldText depth key v ++ fieldLines depth fields

mutual

/-- A value that the dialect can hold is read as it was written. -/
theorem value?_writeAt : ∀ (v : Value) ⦃levels depth budget : Nat⦄ ⦃rest : List Char⦄,
    Legible d levels v → Stops rest → (writeAt depth v).toList.length ≤ budget →
      value? d levels budget ((writeAt depth v).toList ++ rest) = some (v, rest)
  | .null => fun levels depth budget rest h _ hbudget => by
    obtain ⟨budget, rfl⟩ := exists_budget h hbudget
    rw [writeAt]
    rfl
  | .bool b => fun levels depth budget rest h _ hbudget => by
    obtain ⟨budget, rfl⟩ := exists_budget h hbudget
    rw [writeAt]
    cases b <;> rfl
  | .int n => fun levels depth budget rest h hrest hbudget => by
    obtain ⟨budget, rfl⟩ := exists_budget h hbudget
    rw [writeAt]
    exact value?_int h hrest
  | .text s => fun levels depth budget rest h hrest hbudget => by
    obtain ⟨budget, rfl⟩ := exists_budget h hbudget
    obtain ⟨cs, hquote, hchars⟩ := chars?_quote s rest
    rw [writeAt, hquote, value?, skip_cons rfl]
    simp [hchars]
  | .list [] => fun levels depth budget rest h _ hbudget => by
    obtain ⟨budget, rfl⟩ := exists_budget h hbudget
    rw [writeAt]
    exact empty?_eq_some (h.1.imp_right And.right) _
  | .list (v :: items) => fun levels depth budget rest h _ hbudget => by
    obtain ⟨budget, rfl⟩ := exists_budget h hbudget
    obtain ⟨hlevels, hitems⟩ := h
    have hne : levels ≠ 0 := hlevels.resolve_right fun hnil => List.cons_ne_nil _ _ hnil.1
    obtain ⟨c, cs, htext, hspace, hclose⟩ := exists_head hitems.1 (depth + 1)
    have hread : items? d (levels - 1) budget (itemsText (depth + 1) (v :: items) ++
        ((newline depth).toList ++ ']' :: rest)) [] = some (.list (v :: items), rest) := by
      refine items?_writeAt (v :: items) [] (List.cons_ne_nil _ _) hitems ?_
      rw [toList_list] at hbudget
      simp only [itemsText, List.length_cons, List.length_append] at hbudget ⊢
      omega
    simp only [itemsText, List.append_assoc, htext, List.cons_append] at hread
    rw [toList_list]
    simp only [List.cons_append, List.append_assoc, List.nil_append, htext]
    rw [value?_bracket (by rw [skip_newline, skip_cons hspace]) hclose hne, hread]
  | .object [] => fun levels depth budget rest h _ hbudget => by
    obtain ⟨budget, rfl⟩ := exists_budget h hbudget
    rw [writeAt]
    exact empty?_eq_some (h.1.imp_right And.right) _
  | .object ((key, v) :: fields) => fun levels depth budget rest h _ hbudget => by
    obtain ⟨budget, rfl⟩ := exists_budget h hbudget
    obtain ⟨hlevels, hkeys, hfields⟩ := h
    have hne : levels ≠ 0 := hlevels.resolve_right fun hnil => List.cons_ne_nil _ _ hnil.1
    have hread : fields? d (levels - 1) budget (fieldsText (depth + 1) ((key, v) :: fields) ++
        ((newline depth).toList ++ '\x7d' :: rest)) [] =
          some (.object ((key, v) :: fields), rest) := by
      refine fields?_writeAt ((key, v) :: fields) [] (List.cons_ne_nil _ _) hfields hkeys ?_
      rw [toList_object] at hbudget
      simp only [fieldsText, List.length_cons, List.length_append] at hbudget ⊢
      omega
    obtain ⟨cs, hquote⟩ : ∃ cs, (quote key).toList = '"' :: cs :=
      ⟨_, by rw [quote, String.toList_ofList]; rfl⟩
    simp only [fieldsText, fieldText, List.append_assoc, hquote, List.cons_append] at hread
    rw [toList_object]
    simp only [fieldText, List.cons_append, List.append_assoc, List.nil_append, hquote]
    rw [value?_brace (by rw [skip_newline, skip_cons rfl]) hne, hread]
  | .float x => fun _ _ _ _ h => h.elim
  | .native test label => fun _ _ _ _ h => h.elim

theorem items?_writeAt : ∀ (items : List Value) ⦃levels depth depth' budget : Nat⦄
    ⦃rest : List Char⦄ (seen : List Value), items ≠ [] → AllLegible d levels items →
      (itemsText depth items).length + 1 ≤ budget →
      items? d levels budget
          (itemsText depth items ++ ((newline depth').toList ++ ']' :: rest)) seen =
        some (.list (seen.reverse ++ items), rest)
  | [] => fun _ _ _ _ _ _ hne => absurd rfl hne
  | v :: items => fun levels depth depth' budget rest seen _ h hbudget => by
    obtain ⟨budget, rfl⟩ : ∃ b, budget = b + 1 := ⟨budget - 1, by omega⟩
    rw [itemsText, List.length_append] at hbudget
    rw [itemsText, List.append_assoc, items?,
      value?_writeAt v h.1 (stops_itemLines depth depth' items _) (by omega)]
    cases items with
    | nil =>
      rw [itemLines, List.flatMap_nil, List.nil_append]
      simp only [Option.bind_eq_bind, Option.bind_some, skip_newline, skip_cons (c := ']') rfl]
      simp
    | cons w items =>
      have hlines : itemLines depth (w :: items) =
          ',' :: ((newline depth).toList ++ itemsText depth (w :: items)) := by
        simp [itemLines, itemsText]
      rw [hlines, List.length_cons, List.length_append] at hbudget
      have hread : items? d levels budget (itemsText depth (w :: items) ++
          ((newline depth').toList ++ ']' :: rest)) (v :: seen) =
            some (.list ((v :: seen).reverse ++ w :: items), rest) :=
        items?_writeAt (w :: items) (v :: seen) (List.cons_ne_nil _ _) h.2 (by omega)
      rw [hlines]
      simp only [Option.bind_eq_bind, Option.bind_some, List.cons_append,
        skip_cons (c := ',') rfl, List.append_assoc]
      rw [items?_skip (skip_newline _ _), hread]
      simp

theorem fields?_writeAt : ∀ (fields : List (String × Value)) ⦃levels depth depth' budget : Nat⦄
    ⦃rest : List Char⦄ (seen : List (String × Value)), fields ≠ [] →
      FieldsLegible d levels fields → ((seen ++ fields).map (·.1)).Nodup →
      (fieldsText depth fields).length + 1 ≤ budget →
      fields? d levels budget
          (fieldsText depth fields ++ ((newline depth').toList ++ '\x7d' :: rest)) seen =
        some (.object (seen ++ fields), rest)
  | [] => fun _ _ _ _ _ _ hne => absurd rfl hne
  | (key, v) :: fields => fun levels depth depth' budget rest seen _ h hkeys hbudget => by
    obtain ⟨budget, rfl⟩ : ∃ b, budget = b + 1 := ⟨budget - 1, by omega⟩
    have hnew : key ∉ seen.map (·.1) := by
      intro hmem
      rw [List.map_append, List.map_cons] at hkeys
      exact (List.nodup_append.mp hkeys).2.2 _ hmem _ List.mem_cons_self rfl
    have hadded : setField seen key v = seen ++ [(key, v)] := setField_of_not_mem hnew v
    rw [fieldsText, fieldText, List.length_append, List.length_append, List.length_cons,
      List.length_cons] at hbudget
    have hvalue : value? d levels budget (' ' :: ((writeAt depth v).toList ++
        (fieldLines depth fields ++ ((newline depth').toList ++ '\x7d' :: rest)))) =
          some (v, fieldLines depth fields ++ ((newline depth').toList ++ '\x7d' :: rest)) := by
      have hlength : (writeAt depth v).toList.length ≤ budget := by omega
      rw [← value?_writeAt v h.1 (stops_fieldLines depth depth' fields _) hlength]
      refine value?_skip ?_ budget
      rfl
    obtain ⟨cs, hquote, hchars⟩ := chars?_quote key (':' :: ' ' :: ((writeAt depth v).toList ++
      (fieldLines depth fields ++ ((newline depth').toList ++ '\x7d' :: rest))))
    rw [fieldsText, fieldText]
    simp only [List.append_assoc, List.cons_append]
    rw [hquote, fields?, skip_cons rfl]
    simp only [hchars, Option.bind_eq_bind, Option.bind_some, skip_cons (c := ':') rfl, hvalue]
    cases fields with
    | nil =>
      rw [fieldLines, List.flatMap_nil, List.nil_append]
      simp only [skip_newline, skip_cons (c := '\x7d') rfl, hadded]
    | cons f fields =>
      obtain ⟨key', w⟩ := f
      have hlines : fieldLines depth ((key', w) :: fields) =
          ',' :: ((newline depth).toList ++ fieldsText depth ((key', w) :: fields)) := by
        simp [fieldLines, fieldsText]
      rw [hlines, List.length_cons, List.length_append] at hbudget
      have hread : fields? d levels budget (fieldsText depth ((key', w) :: fields) ++
          ((newline depth').toList ++ '\x7d' :: rest)) (seen ++ [(key, v)]) =
            some (.object (seen ++ [(key, v)] ++ (key', w) :: fields), rest) :=
        fields?_writeAt ((key', w) :: fields) (seen ++ [(key, v)]) (List.cons_ne_nil _ _) h.2
          (by simpa using hkeys) (by omega)
      rw [hlines]
      simp only [List.cons_append, skip_cons (c := ',') rfl, List.append_assoc, hadded]
      rw [fields?_skip (skip_newline _ _), hread]
      simp

end

/-- Reading gives back what was written. -/
theorem read?_write {v : Value}
    (h : Legible d (d.levels.getD (write v).toList.length) v) : read? d (write v) = some v := by
  have hread : value? d (d.levels.getD (write v).toList.length)
      (2 * (write v).toList.length + 2) ((write v).toList ++ []) = some (v, []) :=
    value?_writeAt v h (.inl rfl) (by rw [write]; omega)
  rw [List.append_nil] at hread
  unfold read?
  dsimp only
  rw [hread]
  rfl

end TickScript.Json
