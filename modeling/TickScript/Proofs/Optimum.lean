import Mathlib.Data.List.Induction
import TickScript.Proofs.SearchCourse
import TickScript.Proofs.Searching

/-!
# The reported optimum

A classification of candidates is ordered if everything below a candidate that is too low is
too low, and everything above one that is too high is too high. A search whose probes are
classified in such a way moves its bounds so that they keep apart the candidates that were too
low and those that were too high (`Tells.step`); what is left open is whether the bounds meet on
a candidate that is within range.

* `Engine.optimum_not_rejected`: a search that converges on a candidate which it rejected has
  found it too low and the next one too high, so that no candidate at all is within range.
* `Engine.rejected_optimum_reported`: this happens when doubling tests two neighbours.
-/

namespace TickScript

/-- Below what is too low everything is too low, and above what is too high too high. -/
structure Ordered (f : Int → Outcome) : Prop where
  low : ∀ {c c'}, c' < c → f c = .tooLow → f c' = .tooLow
  high : ∀ {c c'}, c < c' → f c = .tooHigh → f c' = .tooHigh

namespace Ordered

variable {f : Int → Outcome} {c c' : Int}

theorem lt_of_tooLow (hf : Ordered f) (hlow : f c = .tooLow) (h : f c' ≠ .tooLow) : c < c' := by
  rcases Int.lt_trichotomy c c' with hlt | rfl | hgt
  · exact hlt
  · exact absurd hlow h
  · exact absurd (hf.low hgt hlow) h

/-- Between two neighbours of which one is too low and the other too high nothing fits. -/
theorem not_withinRange (hf : Ordered f) (hlow : f c = .tooLow) (hhigh : f (c + 1) = .tooHigh)
    (c' : Int) : f c' ≠ .withinRange := by
  intro hwithin
  have hlt : c < c' := hf.lt_of_tooLow hlow (by simp [hwithin])
  rcases Int.lt_or_eq_of_le (Int.add_one_le_of_lt hlt) with hgt | rfl
  · rw [hf.high hgt hhigh] at hwithin
    cases hwithin
  · rw [hhigh] at hwithin
    cases hwithin

end Ordered

/-! ## What the bounds tell -/

/-- What the bounds tell about the candidates that were tested. -/
structure Tells (f : Int → Outcome) (tested : List Int) (low : Int) (high : Option Int) :
    Prop where
  tooLow : ∀ c ∈ tested, f c = .tooLow → c ≤ low
  tooHigh : ∀ c ∈ tested, f c = .tooHigh → ∃ h, high = some h ∧ h < c
  /-- An upper bound is next to a candidate that is too high, or within range itself, or the
  lower bound has left behind all candidates that were too low. -/
  closed : ∀ h, high = some h →
    f (h + 1) = .tooHigh ∨ f h = .withinRange ∨ ∀ c ∈ tested, f c = .tooLow → c < low

namespace Tells

variable {f : Int → Outcome} {tested : List Int} {low : Int} {mode : Mode} {r r' : SearchRecord}

theorem nil (low : Int) (high : Option Int) : Tells f [] low high :=
  ⟨nofun, nofun, fun _ _ => .inr (.inr nofun)⟩

/-- One more candidate, under bounds that may have moved. -/
theorem concat {c low' : Int} {high' : Option Int}
    (hlow : ∀ x ∈ tested, f x = .tooLow → x ≤ low') (hlow' : f c = .tooLow → c ≤ low')
    (hhigh : ∀ x ∈ tested, f x = .tooHigh → ∃ h, high' = some h ∧ h < x)
    (hhigh' : f c = .tooHigh → ∃ h, high' = some h ∧ h < c)
    (hclosed : ∀ h, high' = some h → f (h + 1) = .tooHigh ∨ f h = .withinRange ∨
      (∀ x ∈ tested, f x = .tooLow → x < low') ∧ (f c = .tooLow → c < low')) :
    Tells f (tested ++ [c]) low' high' := by
  refine ⟨?_, ?_, ?_⟩
  · exact List.forall_mem_append.mpr ⟨hlow, List.forall_mem_singleton.mpr hlow'⟩
  · exact List.forall_mem_append.mpr ⟨hhigh, List.forall_mem_singleton.mpr hhigh'⟩
  · intro h hh
    rcases hclosed h hh with hnext | hwithin | ⟨hold, hnew⟩
    · exact .inl hnext
    · exact .inr (.inl hwithin)
    · exact .inr (.inr (List.forall_mem_append.mpr ⟨hold, List.forall_mem_singleton.mpr hnew⟩))

/-- As long as no upper bound is known, a candidate that is too low is the next lower bound. -/
theorem step_open (hf : Ordered f) (h : Tells f tested low none) (hlow : r.low = some low)
    (hopen : r.high = none) (hmiddle : r.middle = some (r.next mode))
    (happly : r.apply mode (f (r.next mode)) = .ok r') :
    ∃ low', r'.low = some low' ∧ Tells f (tested ++ [r.next mode]) low' r'.high := by
  have hnext : r.next mode = max (low * 2) 1 := by
    rw [SearchRecord.next_open hopen, SearchRecord.lowest, hlow]
    rfl
  have hbelow := h.tooLow
  have hnone : ∀ x ∈ tested, f x ≠ .tooHigh := by
    intro x hx hxhigh
    obtain ⟨_, hsome, _⟩ := h.tooHigh x hx hxhigh
    cases hsome
  generalize r.next mode = c at *
  cases hout : f c with
  | tooLow =>
    rw [hout, SearchRecord.apply, hopen] at happly
    cases happly
    refine ⟨c, by rw [hlow, hnext]; rfl, concat ?_ ?_ ?_ ?_ ?_⟩
    · intro x hx hxlow
      have hle := hbelow x hx hxlow
      omega
    · exact fun _ => Int.le_refl c
    · exact fun x hx hxhigh => absurd hxhigh (hnone x hx)
    · simp [hout]
    · simp
  | tooHigh =>
    rw [hout, SearchRecord.apply, hmiddle] at happly
    cases happly
    refine ⟨low, hlow, concat hbelow ?_ ?_ ?_ ?_⟩
    · simp [hout]
    · exact fun x hx hxhigh => absurd hxhigh (hnone x hx)
    · exact fun _ => ⟨c - 1, rfl, by omega⟩
    · intro h' hh'
      cases hh'
      rw [Int.sub_add_cancel]
      exact .inl hout
  | withinRange =>
    rw [hout] at happly
    cases mode with
    | lo =>
      cases happly
      refine ⟨low, hlow, concat hbelow ?_ ?_ ?_ ?_⟩
      · simp [hout]
      · exact fun x hx hxhigh => absurd hxhigh (hnone x hx)
      · simp [hout]
      · intro h' hh'
        cases hmiddle.symm.trans hh'
        exact .inr (.inl hout)
    | hi =>
      cases happly
      refine ⟨c, hmiddle, concat ?_ ?_ ?_ ?_ ?_⟩
      · intro x hx hxlow
        exact Int.le_of_lt (hf.lt_of_tooLow hxlow (by simp [hout]))
      · simp [hout]
      · exact fun x hx hxhigh => absurd hxhigh (hnone x hx)
      · simp [hout]
      · simp [hopen]

/-- Between two bounds that are apart, a candidate that is too low is left behind. -/
theorem step_closed (hf : Ordered f) {high : Int} (h : Tells f tested low (some high))
    (hlow : r.low = some low) (hclosed : r.high = some high) (hapart : tested ≠ [] → low < high)
    (hmiddle : r.middle = some (r.next mode))
    (happly : r.apply mode (f (r.next mode)) = .ok r') :
    ∃ low', r'.low = some low' ∧ Tells f (tested ++ [r.next mode]) low' r'.high := by
  have hbetween : low < high → low ≤ r.next mode ∧ r.next mode ≤ high :=
    fun hlt => SearchRecord.next_between hlow hclosed (Int.le_of_lt hlt) mode
  have hbelow : ∀ x ∈ tested, f x = .tooLow → x ≤ low ∧ x ≤ r.next mode := by
    intro x hx hxlow
    have hle := h.tooLow x hx hxlow
    have hlt := hapart (List.ne_nil_of_mem hx)
    have hmid := hbetween hlt
    omega
  have habove : ∀ x ∈ tested, f x = .tooHigh → high < x ∧ r.next mode < x := by
    intro x hx hxhigh
    obtain ⟨_, hsome, hgt⟩ := h.tooHigh x hx hxhigh
    cases hsome
    have hlt := hapart (List.ne_nil_of_mem hx)
    have hmid := hbetween hlt
    omega
  have hupper := h.closed high rfl
  generalize r.next mode = c at *
  cases hout : f c with
  | tooLow =>
    rw [hout, SearchRecord.apply, hclosed, hmiddle] at happly
    cases happly
    refine ⟨c + 1, rfl, concat ?_ ?_ ?_ ?_ ?_⟩
    · intro x hx hxlow
      have hle := (hbelow x hx hxlow).2
      omega
    · intro _
      omega
    · exact fun x hx hxhigh => ⟨high, rfl, (habove x hx hxhigh).1⟩
    · simp [hout]
    · intro _ _
      refine .inr (.inr ⟨?_, fun _ => by omega⟩)
      intro x hx hxlow
      have hle := (hbelow x hx hxlow).2
      omega
  | tooHigh =>
    rw [hout, SearchRecord.apply, hmiddle] at happly
    cases happly
    refine ⟨low, hlow, concat (fun x hx hxlow => (hbelow x hx hxlow).1) ?_ ?_ ?_ ?_⟩
    · simp [hout]
    · intro x hx hxhigh
      have hgt := (habove x hx hxhigh).2
      exact ⟨c - 1, rfl, by omega⟩
    · exact fun _ => ⟨c - 1, rfl, by omega⟩
    · intro h' hh'
      cases hh'
      rw [Int.sub_add_cancel]
      exact .inl hout
  | withinRange =>
    rw [hout] at happly
    cases mode with
    | lo =>
      cases happly
      refine ⟨low, hlow, concat (fun x hx hxlow => (hbelow x hx hxlow).1) ?_ ?_ ?_ ?_⟩
      · simp [hout]
      · exact fun x hx hxhigh => ⟨c, hmiddle, (habove x hx hxhigh).2⟩
      · simp [hout]
      · intro h' hh'
        cases hmiddle.symm.trans hh'
        exact .inr (.inl hout)
    | hi =>
      cases happly
      have hlt : ∀ x ∈ tested, f x = .tooLow → x < c :=
        fun x _ hxlow => hf.lt_of_tooLow hxlow (by simp [hout])
      refine ⟨c, hmiddle, concat ?_ ?_ ?_ ?_ ?_⟩
      · exact fun x hx hxlow => Int.le_of_lt (hlt x hx hxlow)
      · simp [hout]
      · exact fun x hx hxhigh => ⟨high, hclosed, (habove x hx hxhigh).1⟩
      · simp [hout]
      · intro h' hh'
        cases hclosed.symm.trans hh'
        rcases hupper with hnext | hwithin | -
        · exact .inl hnext
        · exact .inr (.inl hwithin)
        · exact .inr (.inr ⟨hlt, by simp [hout]⟩)

theorem step (hf : Ordered f) (h : Tells f tested low r.high) (hlow : r.low = some low)
    (hapart : tested ≠ [] → ∀ high, r.high = some high → low < high)
    (hmiddle : r.middle = some (r.next mode))
    (happly : r.apply mode (f (r.next mode)) = .ok r') :
    ∃ low', r'.low = some low' ∧ Tells f (tested ++ [r.next mode]) low' r'.high := by
  cases hhigh : r.high with
  | none =>
    rw [hhigh] at h
    exact h.step_open hf hlow hhigh hmiddle happly
  | some high =>
    rw [hhigh] at h
    exact h.step_closed hf hlow hhigh (fun hne => hapart hne high hhigh) hmiddle happly

end Tells

/-! ## Bounds along a search -/

namespace SearchRecord

variable {r r' : SearchRecord} {outcome : Outcome} {low high : Int}

/-- While the search goes on, the bounds are apart. -/
theorem lt_of_probed (hlow : r.low = some low) (hhigh : r.high = some high)
    (h : (r.report outcome).reason = .probed) : low < high := by
  unfold report at h
  split at h
  · cases h
  · split at h
    · cases h
    · next hconverged hexhausted =>
      have hne : low ≠ high := by simpa [converged, hlow, hhigh] using hconverged
      have hle : ¬high < low := by simpa [exhausted, hlow, hhigh] using hexhausted
      omega

/-- A search converges where the bounds meet. -/
theorem met_of_converged (h : (r.report outcome).reason = .converged) {v : Int}
    (hvalue : (r.report outcome).value = some v) : r.low = some v ∧ r.high = some v := by
  unfold report at h hvalue
  split at h
  · next hconverged =>
    rw [if_pos hconverged] at hvalue
    have hmet : r.low.isSome = true ∧ r.low = r.high := by simpa [converged] using hconverged
    have hlow : r.low = some v := hvalue
    exact ⟨hlow, hmet.2.symm.trans hlow⟩
  · split at h <;> cases h

theorem high_of_apply {mode : Mode} (h : r.apply mode outcome = .ok r') (hhigh : r'.high = none)
    (hmiddle : r.middle ≠ none) : r.high = none := by
  obtain ⟨_, high, middle, _, _⟩ := r
  cases middle with
  | none => exact absurd rfl hmiddle
  | some m =>
    cases outcome with
    | tooLow =>
      cases high with
      | none => rfl
      | some high =>
        cases h
        cases hhigh
    | tooHigh =>
      cases h
      cases hhigh
    | withinRange =>
      cases mode with
      | lo =>
        cases h
        cases hhigh
      | hi =>
        cases h
        exact hhigh

end SearchRecord

namespace Engine

variable {f : Int → Outcome} {args : List Arg} {mode : Mode}

/-- With the bounds seeded the lower one is known, and the upper one is unless the arguments
have none. -/
theorem seeded_bounds {r low high : SearchRecord} (hlow : seedLow r args = .ok low)
    (hhigh : seedHigh low args = .ok high) :
    (∃ n, high.low = some n) ∧ (high.high = none → boundAt? args 6 = .ok none) := by
  obtain ⟨n, rfl⟩ := seedLow_ok hlow
  refine ⟨?_, ?_⟩
  · obtain ⟨_, rfl⟩ := seedHigh_ok hhigh
    exact ⟨n, rfl⟩
  · intro hnone
    unfold seedHigh at hhigh
    split at hhigh
    · next hsome =>
      cases hhigh
      rw [hsome] at hnone
      cases hnone
    · cases hbound : boundAt? args 6 with
      | error f =>
        rw [hbound] at hhigh
        cases hhigh
      | ok b =>
        rw [hbound] at hhigh
        cases hhigh
        exact congrArg Except.ok hnone

/-- Bounds that were seeded once stay as they are. -/
theorem seeded_again {r : SearchRecord} {n : Int} (hlow : r.low = some n)
    (hhigh : r.high = none → boundAt? args 6 = .ok none) :
    seedLow r args = .ok r ∧ seedHigh r args = .ok r := by
  refine ⟨by rw [seedLow, hlow], ?_⟩
  unfold seedHigh
  split
  · rfl
  · next hnone =>
    rw [hhigh hnone, ← hnone]
    rfl

/-- One probe of a search, as it was opened and as it was settled. -/
structure Sample where
  opened : Probe
  candidate : Int
  settled : Probe
  report : Report

/-- The deeds of a probe whose candidate is classified by a function. -/
def Sample.deeds (f : Int → Outcome) (args : List Arg) (s : Sample) : List Deed :=
  [.opened args s.opened s.candidate, .settled s.settled (f s.candidate) s.report]

/-- The records before and after a sample. -/
structure Sample.Tries (f : Int → Outcome) (args : List Arg) (mode : Mode) (s : Sample)
    (r r' : SearchRecord) : Prop where
  seeded : ∃ low high, seedLow r args = .ok low ∧ seedHigh low args = .ok high ∧
    s.candidate = high.next mode ∧ ∃ stamp stamp' record,
      SearchRecord.apply { high.probed mode with lastSaved := stamp } mode (f s.candidate) =
        .ok record ∧
      r' = { record with lastSaved := stamp' }
  report : s.report = r'.report (f s.candidate)

theorem Sample.tries {e₀ e : Engine} {deeds : List Deed} {s : Sample}
    (h : Course e₀ (deeds ++ s.deeds f args) e) (hopened : s.opened.mode = mode)
    (hsettled : s.settled.mode = mode) :
    ∃ e₁, Course e₀ deeds e₁ ∧ s.Tries f args mode e₁.record e.record := by
  have hsplit : deeds ++ s.deeds f args = deeds ++ [.opened args s.opened s.candidate] ++
      [.settled s.settled (f s.candidate) s.report] := by simp [Sample.deeds]
  rw [hsplit] at h
  obtain ⟨e₃, e₄, h, hsettle, hsame⟩ := h.last
  obtain ⟨e₁, e₂, h, hopen, hsame'⟩ := h.last
  refine ⟨e₁, h, ?_⟩
  cases hopen with
  | opened hread hstart =>
    obtain ⟨probe, hread', hopens⟩ := opens_of_startSearch hstart
    rw [hread] at hread'
    cases hread'
    obtain ⟨low, high, hlow, hhigh, hcandidate, hrecord⟩ := hopens.seeded
    cases hsettle with
    | settled hsettle =>
      obtain ⟨record, happly, rfl, hreport⟩ := settled_of_settle hsettle
      rw [hsame'.record, hrecord, hsettled, hopened] at happly
      rw [hopened] at hcandidate
      refine ⟨⟨low, high, hlow, hhigh, hcandidate, _, _, record, happly, hsame.record⟩, ?_⟩
      rw [hreport, hsame.record]

/-- What a search has found out with its samples: how its bounds lie to the candidates. -/
structure Found (f : Int → Outcome) (args : List Arg) (samples : List Sample)
    (r : SearchRecord) : Prop where
  low : ∃ low, r.low = some low ∧ Tells f (samples.map (·.candidate)) low r.high
  high : r.high = none → boundAt? args 6 = .ok none

theorem Sample.Tries.found (hf : Ordered f) {samples : List Sample} {s : Sample}
    {r r' low high : SearchRecord} {n : Int} (h : s.Tries f args mode r r')
    (hlow : seedLow r args = .ok low) (hhigh : seedHigh low args = .ok high)
    (hn : high.low = some n) (htells : Tells f (samples.map (·.candidate)) n high.high)
    (hapart : samples ≠ [] → ∀ m, high.high = some m → n < m) :
    Found f args (samples ++ [s]) r' := by
  obtain ⟨⟨low', high', hlow', hhigh', hcandidate, stamp, stamp', record, happly, rfl⟩, -⟩ := h
  cases hlow.symm.trans hlow'
  cases hhigh.symm.trans hhigh'
  obtain ⟨-, hargs⟩ := seeded_bounds hlow hhigh
  rw [hcandidate] at happly
  obtain ⟨n', hn', htells'⟩ := Tells.step hf
    (r := { high.probed mode with lastSaved := stamp }) htells hn
    (fun hne => hapart (by simpa using hne)) rfl happly
  refine ⟨⟨n', hn', ?_⟩, ?_⟩
  · rw [List.map_append, List.map_singleton, hcandidate]
    exact htells'
  · intro hnone
    have hopen : high.high = none :=
      SearchRecord.high_of_apply (r := { high.probed mode with lastSaved := stamp }) happly hnone
        (Option.some_ne_none _)
    exact hargs hopen

/-- A search with the same arguments throughout, whose candidates are classified by a function:
all samples but the last one reported that the search goes on. -/
structure SearchesBy (f : Int → Outcome) (args : List Arg) (mode : Mode) (e₀ : Engine)
    (samples : List Sample) (last : Sample) (e : Engine) : Prop where
  course : Course e₀ ((samples ++ [last]).flatMap (Sample.deeds f args)) e
  mode : ∀ s ∈ samples ++ [last], s.opened.mode = mode ∧ s.settled.mode = mode
  goesOn : ∀ s ∈ samples, s.report.reason = .probed

theorem SearchesBy.found (hf : Ordered f) {e₀ : Engine} {samples : List Sample} :
    ∀ {last : Sample} {e : Engine}, SearchesBy f args mode e₀ samples last e →
      Found f args (samples ++ [last]) e.record ∧
        last.report = e.record.report (f last.candidate) := by
  induction samples using List.reverseRecOn with
  | nil =>
    intro last e ⟨hcourse, hmode, _⟩
    obtain ⟨hopened, hsettled⟩ := hmode last (by simp)
    have hcourse' : Course e₀ ([] ++ last.deeds f args) e := by simpa using hcourse
    obtain ⟨e₁, -, htries⟩ := Sample.tries hcourse' hopened hsettled
    obtain ⟨low, high, hseedLow, hseedHigh, -⟩ := htries.seeded
    obtain ⟨⟨n, hn⟩, -⟩ := seeded_bounds hseedLow hseedHigh
    exact ⟨htries.found hf hseedLow hseedHigh hn (.nil n _) (absurd rfl), htries.report⟩
  | append_singleton samples s ih =>
    intro last e ⟨hcourse, hmode, hgoesOn⟩
    obtain ⟨hopened, hsettled⟩ := hmode last (by simp)
    rw [List.flatMap_append, List.flatMap_singleton] at hcourse
    obtain ⟨e₁, hcourse, htries⟩ := Sample.tries hcourse hopened hsettled
    have hfront : SearchesBy f args mode e₀ samples s e₁ :=
      ⟨hcourse, fun t ht => hmode t (List.mem_append_left _ ht),
        fun t ht => hgoesOn t (List.mem_append_left _ ht)⟩
    obtain ⟨⟨⟨n, hn, htells⟩, hargs⟩, hreport⟩ := ih hfront
    have hprobed : (e₁.record.report (f s.candidate)).reason = .probed := by
      rw [← hreport]
      exact hgoesOn s (by simp)
    obtain ⟨hseedLow, hseedHigh⟩ := seeded_again hn hargs
    refine ⟨htries.found hf hseedLow hseedHigh hn htells ?_, htries.report⟩
    intro _ m hm
    exact SearchRecord.lt_of_probed hn hm hprobed

/-- If a search converges on a candidate that it tested, then that candidate is within range, or
nothing is: the candidate is too low and the next one too high. -/
theorem optimum_not_rejected (hf : Ordered f) {e₀ e : Engine} {samples : List Sample}
    {last : Sample} (h : SearchesBy f args mode e₀ samples last e)
    (hreason : last.report.reason = .converged) {v : Int} (hvalue : last.report.value = some v) :
    ∀ s ∈ samples ++ [last], s.candidate = v → f v = .withinRange ∨
      f v = .tooLow ∧ f (v + 1) = .tooHigh ∧ ∀ c, f c ≠ .withinRange := by
  intro s hs hv
  obtain ⟨⟨⟨low, hlow, htells⟩, -⟩, hreport⟩ := h.found hf
  rw [hreport] at hreason hvalue
  obtain ⟨hmet, hhigh⟩ := SearchRecord.met_of_converged hreason hvalue
  cases hlow.symm.trans hmet
  have htested : v ∈ (samples ++ [last]).map (·.candidate) :=
    List.mem_map.mpr ⟨s, hs, hv⟩
  cases hout : f v with
  | withinRange => exact .inl rfl
  | tooHigh =>
    obtain ⟨high, hsome, hlt⟩ := htells.tooHigh v htested hout
    cases hhigh.symm.trans hsome
    exact absurd hlt (Int.lt_irrefl v)
  | tooLow =>
    rcases htells.closed v hhigh with hnext | hwithin | hleft
    · exact .inr ⟨rfl, hnext, hf.not_withinRange hout hnext⟩
    · rw [hout] at hwithin
      cases hwithin
    · exact absurd (hleft v htested hout) (Int.lt_irrefl v)

/-- The shortest duration of at least one tick: one tick is within range, none is too low. -/
theorem optimum_not_rejected_at_one :
    let f : Int → Outcome := fun c => if c < 1 then .tooLow else .withinRange
    let below : Condition := .atEnd (·.sectionId.toNat) fun ticks => ticks < 1
    let never : Condition := .atEnd (·.sectionId.toNat) fun _ => false
    let always : Condition := .atEnd (·.sectionId.toNat) fun _ => true
    let probe : Probe := ⟨.ofKeys .directions, .lo, below, never, always, none⟩
    let args : List Arg := [.inputs probe.inputs, .raw (.int 0), .condition below,
      .condition never, .condition always]
    ∃ e₀ e report report',
      SearchesBy f args .lo e₀ [⟨probe, 1, probe, report⟩] ⟨probe, 0, probe, report'⟩ e ∧
      report'.reason = .converged ∧ report'.value = some 1 ∧
      (f 1 = .withinRange ∨ f 1 = .tooLow ∧ f (1 + 1) = .tooHigh ∧ ∀ c, f c ≠ .withinRange) := by
  intro f below never always probe args
  let store (r : SearchRecord) (files : Files) : Engine :=
    { (default : Engine).load (some []) with record := r, files }
  have hread : readProbe args none = .ok probe := rfl
  -- What the search knows after each deed, whatever else is in the files.
  let r₁ : SearchRecord := ⟨some 0, none, some 1, [1], ""⟩
  let r₂ : SearchRecord := ⟨some 0, some 1, some 1, [1], ""⟩
  let r₃ : SearchRecord := ⟨some 0, some 1, some 0, [1, 0], ""⟩
  let e₁ := ((store (.fresh "") .empty).startSearch args none).2
  let e₂ := ((store r₁ e₁.files).settle probe (.ok (some .withinRange))).2
  let e₃ := ((store r₂ e₂.files).startSearch args none).2
  let e₄ := ((store r₃ e₃.files).settle probe (.ok (some .tooLow))).2
  have hstart : ((store (.fresh "") .empty).startSearch args none).1 = .ok 1 := rfl
  have hsettle : ((store r₁ e₁.files).settle probe (.ok (some .withinRange))).1 =
      .ok (some ⟨.probed, "Within range! 1 ticks", some 1, [1]⟩) := rfl
  have hstart' : ((store r₂ e₂.files).startSearch args none).1 = .ok 0 := rfl
  have hsettle' : ((store r₃ e₃.files).settle probe (.ok (some .tooLow))).1 =
      .ok (some ⟨.converged, "Optimal time: 1 ticks", some 1, [1, 0]⟩) := rfl
  have hkept : SameStore e₁ (store r₁ e₁.files) := ⟨rfl, rfl, rfl⟩
  have hkept' : SameStore e₂ (store r₂ e₂.files) := ⟨rfl, rfl, rfl⟩
  have hkept'' : SameStore e₃ (store r₃ e₃.files) := ⟨rfl, rfl, rfl⟩
  have hcourse : Course (store (.fresh "") .empty) (([] ++ [.opened args probe 1] ++
      [.settled probe .withinRange _]) ++ [.opened args probe 0] ++ [.settled probe .tooLow _])
      e₄ :=
    .done (.kept (.done (.kept (.done (.kept (.done .start (.opened hread (Prod.ext hstart rfl)))
      hkept) (.settled (Prod.ext hsettle rfl))) hkept')
      (.opened hread (Prod.ext hstart' rfl))) hkept'') (.settled (Prod.ext hsettle' rfl))
  have hordered : Ordered f := by
    refine ⟨?_, ?_⟩
    · intro c c' hlt hc
      have hc1 : c < 1 := by
        by_cases h : c < 1
        · exact h
        · simp [f, h] at hc
      simp [f, Int.lt_trans hlt hc1]
    · intro c c' _ hc
      by_cases h : c < 1 <;> simp [f, h] at hc
  have hsearch : SearchesBy f args .lo (store (.fresh "") .empty)
      [⟨probe, 1, probe, ⟨.probed, "Within range! 1 ticks", some 1, [1]⟩⟩]
      ⟨probe, 0, probe, ⟨.converged, "Optimal time: 1 ticks", some 1, [1, 0]⟩⟩ e₄ :=
    ⟨hcourse, by simp [probe], by simp⟩
  exact ⟨_, e₄, _, _, hsearch, rfl, rfl,
    optimum_not_rejected hordered hsearch rfl rfl _ List.mem_cons_self rfl⟩

/-- Two trials in which less than two ticks are too low and more than one tick is too high: the
first one tests one tick, which is too low, and the second one reports it as the optimum. -/
theorem rejected_optimum_reported :
    let i : Inputs := .ofKeys (.ofList [.right])
    let step : Step := .mk .none (.call (Builtin.expand .optimize).name
      [.inputs i, .raw (.int 0),
        .condition (.atEnd (·.sectionId.toNat) fun ticks => ticks < 2),
        .condition (.atEnd (·.sectionId.toNat) fun ticks => 1 < ticks),
        .condition (.atEnd (·.sectionId.toNat) fun _ => true)])
    ∃ trial trial' report', Searches 3 (fun _ e => { player := { sectionId := e.commits } })
        (fun _ => default) step 0 default [trial, trial'] ∧
      trial.Probes i .lo (default : Engine).record 1 ∧
      trial.report?.map (·.message) = some "Too low! 1 ticks" ∧
      trial'.report? = some report' ∧ report'.reason = .converged ∧
      report'.value = some 1 := by
  intro i step
  have hscene : Shows (fun p => p.sectionId.toNat)
      (fun e => { player := { sectionId := e.commits } }) :=
    ⟨fun _ => ⟨rfl, rfl⟩, fun e => Int.toNat_natCast e.commits⟩
  let probe : Probe :=
    { inputs := i
      mode := .lo
      failLow := .atEnd (·.sectionId.toNat) fun ticks => ticks < 2
      failHigh := .atEnd (·.sectionId.toNat) fun ticks => 1 < ticks
      success := .atEnd (·.sectionId.toNat) fun _ => true
      origin := none }
  have hdecides : probe.Decides (·.sectionId.toNat) 2 1 :=
    ⟨Condition.atEnd_tells .., Condition.atEnd_tells .., Condition.atEnd_tells ..⟩
  have hread : readProbe [.inputs i, .raw (.int 0), .condition probe.failLow,
      .condition probe.failHigh, .condition probe.success] none = .ok probe := rfl
  have hfresh : (default : Engine).IsFresh := ⟨rfl, rfl, rfl, rfl, rfl⟩
  obtain ⟨trial, htrial, hprobes, ⟨stamp, hrecord⟩, hreport⟩ :=
    ends_optimize hscene hfresh rfl rfl hread hdecides .none 0 (n := 1) rfl
  have honStore : ((default : Engine).onStore trial.engine).IsFresh := ⟨rfl, rfl, rfl, rfl, rfl⟩
  have hnext : ((default : Engine).onStore trial.engine).record.next probe.mode = (2 : Nat) := by
    change trial.engine.record.next .lo = 2
    rw [hrecord]
    rfl
  obtain ⟨trial', htrial', -, ⟨stamp', hrecord'⟩, hreport'⟩ :=
    ends_optimize hscene honStore rfl rfl hread hdecides .none 0 hnext
  have hrecord'' : trial'.engine.record =
      { trial.engine.record.tried .lo .tooHigh with lastSaved := stamp' } := hrecord'
  rw [hrecord] at hreport
  rw [hrecord'', hrecord] at hreport'
  refine ⟨trial, trial', _, .probed htrial ?_ (.settled htrial' ?_), hprobes, ?_, hreport', rfl,
    rfl⟩
  · rw [Trial.isProbed, hreport]
    rfl
  · rw [Trial.isProbed, hreport']
    rfl
  · rw [hreport]
    rfl

end Engine

end TickScript
