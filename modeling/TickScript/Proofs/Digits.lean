import Mathlib.Algebra.Ring.Int.Defs
import Mathlib.Data.List.TakeDrop
import Mathlib.Data.List.TakeWhile
import TickScript.Json.Reader

/-!
# The digits of a number

What a whole number is written with: decimal digits, at least one, no zero in front unless it
is the only digit, and a minus in front of a negative number. Taken as numbers again, the digits
are the number (`ofDigits_toDigits`), and the readers give it back, that of numbers
(`number?_toDigits`) and that of numerals in texts (`wholeInt?_toString`).
-/

namespace TickScript.Numeral

theorem isDigit_of_mem {n : Nat} {c : Char} (h : c ∈ Nat.toDigits 10 n) :
    Json.isDigit c = true := by
  have hdigit := Nat.isDigit_of_mem_toDigits (by omega) (by omega) h
  simpa [Json.isDigit, Char.isDigit, Char.le_def] using hdigit

/-- Only zero starts with a zero. -/
theorem head_toDigits (n : Nat) : (Nat.toDigits 10 n).head? = some '0' → n = 0 := by
  induction n using Nat.strongRecOn with
  | ind n ih =>
    intro h
    rw [Nat.toDigits_eq_if (by omega)] at h
    split at h
    · next hlt =>
      have hdigits : ∀ m < 10, [Nat.digitChar m].head? = some '0' → m = 0 := by decide
      exact hdigits n hlt h
    · next hge =>
      have hne : Nat.toDigits 10 (n / 10) ≠ [] := Nat.toDigits_ne_nil
      have hhead : (Nat.toDigits 10 (n / 10)).head? = some '0' := by
        cases hd : Nat.toDigits 10 (n / 10) with
        | nil => exact absurd hd hne
        | cons c cs =>
          rw [hd] at h
          exact h
      have hzero := ih (n / 10) (by omega) hhead
      omega

theorem ofDigits_toDigits (n : Nat) :
    ofDigits ((Nat.toDigits 10 n).map fun c => c.toNat - '0'.toNat) = n := by
  have h := Nat.ofDigitChars_ten_toDigits (n := n)
  rw [Nat.ofDigitChars_eq_foldl] at h
  rw [ofDigits, List.foldl_map]
  exact h

/-- A negative number is written with a minus in front of its digits. -/
theorem toList_toString (n : Int) :
    (toString n).toList =
      if n < 0 then '-' :: Nat.toDigits 10 n.natAbs else Nat.toDigits 10 n.natAbs := by
  rw [Int.toString_eq_repr, Int.repr_eq_if]
  by_cases hneg : n < 0
  · have hlt : ¬0 ≤ n := by omega
    have habs : (-n).toNat = n.natAbs := by omega
    rw [if_neg hlt, if_pos hneg, habs, String.toList_append, Nat.toList_repr]
    rfl
  · have hge : 0 ≤ n := by omega
    have habs : n.toNat = n.natAbs := by omega
    rw [if_pos hge, if_neg hneg, habs, Nat.toList_repr]

/-! ## Whole numbers in data -/

section

variable {cs : List Char}

theorem asciiDigit?_of_isDigit {c : Char} (hc : Json.isDigit c = true) :
    Text.asciiDigit? c = some (c.toNat - '0'.toNat) := by
  rw [Text.asciiDigit?, if_pos (by simpa [Json.isDigit] using hc)]

theorem isBlank_of_isDigit {c : Char} (hc : Json.isDigit c = true) : Text.isBlank c = false := by
  have hrange : 48 ≤ c.toNat ∧ c.toNat ≤ 57 := by
    simpa [Json.isDigit, Char.le_def, UInt32.le_iff_toNat_le] using hc
  simp only [Text.isBlank, Bool.or_eq_false_iff, Bool.and_eq_false_iff, decide_eq_false_iff_not,
    beq_eq_false_iff_ne]
  omega

theorem trim_eq_self (h : ∀ c ∈ cs, Text.isBlank c = false) : Text.trim cs = cs := by
  have hkeep : ∀ ds : List Char, (∀ c ∈ ds, Text.isBlank c = false) →
      ds.dropWhile Text.isBlank = ds := by
    intro ds hds
    cases ds with
    | nil => rfl
    | cons c ds => rw [List.dropWhile_cons, hds c List.mem_cons_self, if_neg Bool.false_ne_true]
  rw [Text.trim, hkeep cs h, hkeep cs.reverse fun c hc => h c (List.mem_reverse.mp hc),
    List.reverse_reverse]

theorem dropFraction_eq_self (h : ∀ c ∈ cs, Json.isDigit c = true) : dropFraction cs = cs := by
  have hnone : cs.dropWhile (· != '.') = [] := by
    rw [List.dropWhile_eq_nil_iff]
    rintro c hc
    rw [bne_iff_ne]
    rintro rfl
    exact absurd (h _ hc) (by decide)
  simp [dropFraction, List.span_eq_takeWhile_dropWhile, hnone]

theorem dropUnderscores_eq_self (h : ∀ c ∈ cs, Json.isDigit c = true) :
    dropUnderscores cs = cs := by
  have hkeep : cs.filter (· != '_') = cs := by
    rw [List.filter_eq_self]
    rintro c hc
    rw [bne_iff_ne]
    rintro rfl
    exact absurd (h _ hc) (by decide)
  simp [dropUnderscores, hkeep]

theorem dropZeros?_toDigits (n : Nat) :
    dropZeros? (Nat.toDigits 10 n) = some (Nat.toDigits 10 n) := by
  cases hd : Nat.toDigits 10 n with
  | nil => exact absurd hd Nat.toDigits_ne_nil
  | cons c cs =>
    by_cases hzero : c = '0'
    · have hn : n = 0 := head_toDigits n (by rw [hd, hzero]; rfl)
      rw [hn] at hd
      rw [← hd]
      rfl
    · have hc : Json.isDigit c = true := isDigit_of_mem (n := n) (by simp [hd])
      simp [dropZeros?, hzero, asciiDigit?_of_isDigit hc]

theorem mapM_asciiDigit? (h : ∀ c ∈ cs, Json.isDigit c = true) :
    cs.mapM Text.asciiDigit? = some (cs.map fun c => c.toNat - '0'.toNat) := by
  induction cs with
  | nil => rfl
  | cons c cs ih =>
    rw [List.mapM_cons, asciiDigit?_of_isDigit (h c List.mem_cons_self),
      ih fun d hd => h d (List.mem_cons_of_mem _ hd)]
    rfl

/-- Digits have no sign in front. -/
theorem sign_toDigits (n : Nat) : sign (Nat.toDigits 10 n) = (false, Nat.toDigits 10 n) := by
  cases hd : Nat.toDigits 10 n with
  | nil => exact absurd hd Nat.toDigits_ne_nil
  | cons c cs =>
    have hc : Json.isDigit c = true := isDigit_of_mem (n := n) (by simp [hd])
    unfold sign
    split
    · next heq => exact absurd ((List.cons.inj heq).1 ▸ hc) (by decide)
    · next heq => exact absurd ((List.cons.inj heq).1 ▸ hc) (by decide)
    · rfl

theorem bareInt?_toString {n : Int} (h : (toString n).length ≤ digitLimit) :
    bareInt? (toString n).toList = some n := by
  have hdigits : (Nat.toDigits 10 n.natAbs).mapM Text.asciiDigit? =
      some ((Nat.toDigits 10 n.natAbs).map fun c => c.toNat - '0'.toNat) :=
    mapM_asciiDigit? fun c hc => isDigit_of_mem hc
  have hvalue : ofDigits ((Nat.toDigits 10 n.natAbs).map fun c => c.toNat - '0'.toNat) = n.natAbs :=
    ofDigits_toDigits n.natAbs
  have hlead : ¬((Nat.toDigits 10 n.natAbs).head? == some '0' &&
      (Nat.toDigits 10 n.natAbs).length != 1) = true := by
    by_cases hz : (Nat.toDigits 10 n.natAbs).head? = some '0'
    · rw [head_toDigits _ hz]
      decide
    · simp [hz]
  have hempty : (Nat.toDigits 10 n.natAbs).isEmpty = false := by simp [Nat.toDigits_ne_nil]
  rw [← String.length_toList, toList_toString] at h
  rw [toList_toString]
  by_cases hneg : n < 0
  · have hn : signed true n.natAbs = n := by
      rw [signed, if_pos rfl]
      omega
    rw [if_pos hneg] at h ⊢
    have hlimit : ¬digitLimit < ('-' :: Nat.toDigits 10 n.natAbs).length := by omega
    rw [bareInt?]
    rw [hempty, decide_eq_false hlimit, if_neg (by decide), if_neg hlead, hdigits, Option.map_some,
      hvalue, hn]
  · have hn : signed false n.natAbs = n := by
      rw [signed, if_neg Bool.false_ne_true]
      omega
    rw [if_neg hneg] at h ⊢
    have hlimit : ¬digitLimit < (Nat.toDigits 10 n.natAbs).length := by omega
    have hbody : ∀ rest, Nat.toDigits 10 n.natAbs ≠ '-' :: rest := by
      intro rest heq
      have hminus : Json.isDigit '-' = true :=
        isDigit_of_mem (n := n.natAbs) (by rw [heq]; exact List.mem_cons_self)
      exact absurd hminus (by decide)
    unfold bareInt?
    split
    next x negative body hbody' =>
    split at hbody'
    · next heq => exact absurd heq (hbody _)
    · cases hbody'
      rw [hempty, decide_eq_false hlimit, if_neg (by decide), if_neg hlead, hdigits,
        Option.map_some, hvalue, hn]

/-- A whole number that is not too long is read as it was written. -/
theorem wholeInt?_toString {n : Int} (h : (toString n).length ≤ digitLimit) :
    wholeInt? (toString n) = some n := by
  have hbare := bareInt?_toString h
  have hdigits : ∀ c ∈ Nat.toDigits 10 n.natAbs, Json.isDigit c = true :=
    fun c hc => isDigit_of_mem hc
  have hblank : ∀ c ∈ Nat.toDigits 10 n.natAbs, Text.isBlank c = false :=
    fun c hc => isBlank_of_isDigit (hdigits c hc)
  rw [toList_toString] at hbare
  rw [wholeInt?, toList_toString]
  by_cases hneg : n < 0
  · rw [if_pos hneg] at hbare ⊢
    have htrim : Text.trim ('-' :: Nat.toDigits 10 n.natAbs) = '-' :: Nat.toDigits 10 n.natAbs :=
      trim_eq_self (List.forall_mem_cons.mpr ⟨by decide, hblank⟩)
    simp [htrim, sign, dropZeros?_toDigits, dropFraction_eq_self hdigits,
      dropUnderscores_eq_self hdigits, hbare]
  · rw [if_neg hneg] at hbare ⊢
    simp [trim_eq_self hblank, sign_toDigits, dropZeros?_toDigits, dropFraction_eq_self hdigits,
      dropUnderscores_eq_self hdigits, hbare]

end
end TickScript.Numeral

namespace TickScript.Json

/-- Where a written value ends: at the end of the text, or before the next line or item. -/
def Stops (rest : List Char) : Prop :=
  rest = [] ∨ ∃ cs, rest = ',' :: cs ∨ rest = '\n' :: cs

/-- A dialect can hold a whole number: it has few enough characters, and is small enough unless
all numbers stay whole. -/
structure Dialect.Fits (d : Dialect) (n : Int) : Prop where
  length : ∀ limit, d.length = some limit → (toString n).length ≤ limit
  size : d.wide = true ∨ -2 ^ 63 ≤ n ∧ n < 2 ^ 64

theorem span_digits {ds rest : List Char} (hds : ∀ c ∈ ds, isDigit c = true)
    (hrest : Stops rest) : (ds ++ rest).span isDigit = (ds, rest) := by
  have hstop : rest.takeWhile isDigit = [] ∧ rest.dropWhile isDigit = rest := by
    rcases hrest with rfl | ⟨cs, rfl | rfl⟩ <;> simp [isDigit]
  rw [List.span_eq_takeWhile_dropWhile, List.takeWhile_append_of_pos hds,
    List.dropWhile_append_of_pos hds, hstop.1, hstop.2, List.append_nil]

/-- The digits of a number are read as the number. -/
theorem number?_toDigits {d : Dialect} {negative : Bool} {n : Nat} {rest : List Char}
    (hrest : Stops rest)
    (hlength : ∀ limit, d.length = some limit →
      (Nat.toDigits 10 n).length + (if negative then 1 else 0) ≤ limit)
    (hsize : d.wide = true ∨
      -2 ^ 63 ≤ Numeral.signed negative n ∧ Numeral.signed negative n < 2 ^ 64) :
    number? d negative (Nat.toDigits 10 n ++ rest) =
      some (.int (Numeral.signed negative n), rest) := by
  have hne : (Nat.toDigits 10 n).isEmpty = false := by
    simp [Nat.toDigits_ne_nil]
  have hzero : ((Nat.toDigits 10 n).head? == some '0' && (Nat.toDigits 10 n).length != 1) =
      false := by
    by_cases h : (Nat.toDigits 10 n).head? = some '0'
    · rw [Numeral.head_toDigits n h]
      decide
    · simp [h]
  have hshort : (d.length.any fun limit =>
      limit < (Nat.toDigits 10 n).length + if negative then 1 else 0) = false := by
    cases hlimit : d.length with
    | none => rfl
    | some limit =>
      have hle := hlength limit hlimit
      simpa using hle
  have hvalue : d.wide = false → -Int.pow 2 63 ≤ Numeral.signed negative n ∧
      Numeral.signed negative n < Int.pow 2 64 :=
    fun hnarrow => hsize.resolve_left (by simp [hnarrow])
  have hdigits : Numeral.ofDigits ((Nat.toDigits 10 n).map fun c => c.toNat - 48) = n :=
    Numeral.ofDigits_toDigits n
  unfold number?
  rw [span_digits (fun c => Numeral.isDigit_of_mem) hrest]
  rcases hrest with rfl | ⟨cs, rfl | rfl⟩ <;>
    simpa [hne, hzero, hshort, hdigits] using hvalue

/-- Nothing else that a value can start with starts with a digit. -/
theorem value?_of_isDigit (d : Dialect) (levels budget : Nat) {c : Char}
    (hc : isDigit c = true) (cs : List Char) :
    value? d levels (budget + 1) (c :: cs) = number? d false (c :: cs) := by
  have hrange : 48 ≤ c.toNat ∧ c.toNat ≤ 57 := by
    simpa [isDigit, Char.le_def, UInt32.le_iff_toNat_le] using hc
  have hten : c.toNat = '0'.toNat ∨ c.toNat = '1'.toNat ∨ c.toNat = '2'.toNat ∨
      c.toNat = '3'.toNat ∨ c.toNat = '4'.toNat ∨ c.toNat = '5'.toNat ∨ c.toNat = '6'.toNat ∨
      c.toNat = '7'.toNat ∨ c.toNat = '8'.toNat ∨ c.toNat = '9'.toNat := by
    simp only [Char.reduceToNat]
    omega
  simp only [Char.toNat_inj] at hten
  rcases hten with rfl | rfl | rfl | rfl | rfl | rfl | rfl | rfl | rfl | rfl <;> rfl

theorem value?_toDigits (d : Dialect) (levels budget : Nat) (n : Nat) (rest : List Char) :
    value? d levels (budget + 1) (Nat.toDigits 10 n ++ rest) =
      number? d false (Nat.toDigits 10 n ++ rest) := by
  cases hd : Nat.toDigits 10 n with
  | nil => exact absurd hd Nat.toDigits_ne_nil
  | cons c cs =>
    have hc : c ∈ Nat.toDigits 10 n := by simp [hd]
    exact value?_of_isDigit d levels budget (Numeral.isDigit_of_mem hc) _

theorem value?_minus (d : Dialect) (levels budget : Nat) (n : Nat) (rest : List Char) :
    value? d levels (budget + 1) ('-' :: Nat.toDigits 10 n ++ rest) =
      number? d true (Nat.toDigits 10 n ++ rest) := by
  cases hd : Nat.toDigits 10 n with
  | nil => exact absurd hd Nat.toDigits_ne_nil
  | cons c cs =>
    have hc : isDigit c = true := Numeral.isDigit_of_mem (n := n) (by simp [hd])
    have hne : c ≠ 'I' := by
      rintro rfl
      exact absurd hc (by decide)
    rw [value?]
    have hskip : skip ('-' :: (c :: cs) ++ rest) = '-' :: (c :: cs ++ rest) := rfl
    rw [hskip]
    simp [hne]

/-- A whole number that a dialect can hold is read as it was written. -/
theorem value?_int {d : Dialect} {levels budget : Nat} {n : Int} (h : d.Fits n)
    {rest : List Char} (hrest : Stops rest) :
    value? d levels (budget + 1) ((toString n).toList ++ rest) = some (.int n, rest) := by
  obtain ⟨hlength, hsize⟩ := h
  simp only [← String.length_toList, Numeral.toList_toString] at hlength
  rw [Numeral.toList_toString]
  by_cases hneg : n < 0
  · have hn : Numeral.signed true n.natAbs = n := by
      rw [Numeral.signed, if_pos rfl]
      omega
    simp only [if_pos hneg, List.length_cons] at hlength ⊢
    rw [value?_minus, number?_toDigits hrest (by simpa using hlength) (by rwa [hn]), hn]
  · have hn : Numeral.signed false n.natAbs = n := by
      rw [Numeral.signed, if_neg Bool.false_ne_true]
      omega
    simp only [if_neg hneg] at hlength ⊢
    rw [value?_toDigits, number?_toDigits hrest (by simpa using hlength) (by rwa [hn]), hn]

end TickScript.Json
