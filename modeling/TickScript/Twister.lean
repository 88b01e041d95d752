/-!
# The Mersenne twister

The generator MT19937 of 32-bit words, seeded by the words of a number of any size, and
whole numbers drawn from it: the bits of a draw that is too large are thrown away and
drawn again.

* `Twister.ofSeed`: the generator of a seed; a number and its negative give the same one.
* `Twister.bits`: a number of so many random bits.
* `Twister.below`: a number below a bound.
-/

namespace TickScript

/-- The state of the generator: its words and the position of the next one. -/
structure Twister where
  words : Array UInt32
  position : Nat
  deriving Inhabited

namespace Twister

/-- The number of words of a state. -/
def size : Nat := 624

/-- The distance of the word that is mixed into a new one. -/
def shift : Nat := 397

def word (a : Array UInt32) (i : Nat) : UInt32 := a.getD i 0

/-! ## Seeding -/

/-- The state that a single word leads to. -/
def ofWord (seed : UInt32) : Array UInt32 :=
  (List.range (size - 1)).foldl (fun a i =>
    let last := word a i
    a.push ((1812433253 : UInt32) * (last ^^^ (last >>> 30)) + (i + 1).toUInt32)) #[seed]

/-- A position in a state that is mixed in a circle: behind the last word follows the
second one, and the first word becomes equal to the last. -/
def around (a : Array UInt32) (i : Nat) : Array UInt32 × Nat :=
  if i ≥ size then (a.setIfInBounds 0 (word a (size - 1)), 1) else (a, i)

/-- Mixes the words of a key into a state, each word in turn. -/
def mixKey (key : Array UInt32) :
    Nat → Array UInt32 → Nat → Nat → Array UInt32 × Nat
  | 0, a, i, _ => (a, i)
  | count + 1, a, i, j =>
    let last := word a (i - 1)
    let mixed :=
      (word a i ^^^ ((last ^^^ (last >>> 30)) * (1664525 : UInt32))) + word key j + j.toUInt32
    let (a, i) := around (a.setIfInBounds i mixed) (i + 1)
    mixKey key count a i (if j + 1 ≥ key.size then 0 else j + 1)

/-- Mixes the positions of a state into it. -/
def mixPositions : Nat → Array UInt32 → Nat → Array UInt32
  | 0, a, _ => a
  | count + 1, a, i =>
    let last := word a (i - 1)
    let mixed := (word a i ^^^ ((last ^^^ (last >>> 30)) * (1566083941 : UInt32))) - i.toUInt32
    let (a, i) := around (a.setIfInBounds i mixed) (i + 1)
    mixPositions count a i

/-- The 32-bit words of a number, least significant first; at least one. -/
def keyWords (n : Nat) : Array UInt32 :=
  let count := max 1 ((n.log2 / 32) + 1)
  (List.range count).foldl (fun a i => a.push (n >>> (32 * i)).toUInt32) #[]

/-- The generator of a seed. -/
def ofSeed (seed : Int) : Twister :=
  let key := keyWords seed.natAbs
  let (a, i) := mixKey key (max size key.size) (ofWord 19650218) 1 0
  ⟨(mixPositions (size - 1) a i).setIfInBounds 0 0x80000000, size⟩

/-! ## Words -/

/-- The next state after all words of one are used up. -/
def refill (a : Array UInt32) : Array UInt32 :=
  (List.range size).foldl (fun a i =>
    let y := (word a i &&& 0x80000000) ||| (word a ((i + 1) % size) &&& 0x7fffffff)
    let odd : UInt32 := if y &&& 1 = 0 then 0 else 0x9908b0df
    a.setIfInBounds i (word a ((i + shift) % size) ^^^ (y >>> 1) ^^^ odd)) a

/-- The output form of a word. -/
def temper (y : UInt32) : UInt32 :=
  let y := y ^^^ (y >>> 11)
  let y := y ^^^ ((y <<< 7) &&& 0x9d2c5680)
  let y := y ^^^ ((y <<< 15) &&& 0xefc60000)
  y ^^^ (y >>> 18)

/-- The next word. -/
def next (t : Twister) : UInt32 × Twister :=
  let t := if t.position ≥ size then ⟨refill t.words, 0⟩ else t
  (temper (word t.words t.position), ⟨t.words, t.position + 1⟩)

/-! ## Numbers -/

/-- A number of `count` words, the least significant drawn first, of which the last one
gives only its top `tail` bits. -/
def wordsNumber (tail : Nat) : Nat → Twister → Nat × Twister
  | 0, t =>
    let (w, t) := t.next
    (w.toNat >>> (32 - tail), t)
  | full + 1, t =>
    let (w, t) := t.next
    let (high, t) := wordsNumber tail full t
    (w.toNat + (high <<< 32), t)

/-- A number of `k` random bits, for `k` positive. -/
def bits (k : Nat) (t : Twister) : Nat × Twister :=
  let full := (k - 1) / 32
  wordsNumber (k - 32 * full) full t

/-- Draws `k` bits until they are below the bound, at most so many times. -/
def draw (k bound : Nat) : Nat → Twister → Option Nat × Twister
  | 0, t => (none, t)
  | tries + 1, t =>
    let (r, t) := t.bits k
    if r < bound then (some r, t) else draw k bound tries t

/-- How often a draw is repeated.  At least half of all draws are below the bound, so
so many failures in a row do not happen. -/
def patience : Nat := 1000000

/-- A number below a positive bound. -/
def below (bound : Nat) (t : Twister) : Option Nat × Twister :=
  draw (bound.log2 + 1) bound patience t

/-- A whole number between two bounds, both included, of which the first is not larger. -/
def between (low high : Int) (t : Twister) : Option Int × Twister :=
  let (r, t) := t.below (high - low + 1).toNat
  (r.map fun n => low + n, t)

/-- So many whole numbers between two bounds. -/
def sample (low high : Int) : Nat → Twister → List (Option Int) × Twister
  | 0, t => ([], t)
  | count + 1, t =>
    let (r, t) := t.between low high
    let (rs, t) := sample low high count t
    (r :: rs, t)

theorem draw_lt {k bound tries : Nat} {t : Twister} {r : Nat}
    (h : (draw k bound tries t).1 = some r) : r < bound := by
  induction tries generalizing t with
  | zero => simp [draw] at h
  | succ tries ih =>
    unfold draw at h
    dsimp only at h
    split at h
    · next hlt => exact Option.some.inj h ▸ hlt
    · exact ih h

end Twister

end TickScript
