/-!
# Keys and key sets

The ten input channels of a run, and the sets of them that can be held on one tick.
A set of keys is a bit vector with one bit for each channel, so two sets with the same
members are equal (`KeySet.ext_mem`).  A set is written as one code letter for each
member, always in the order of `Key.all`.

* `KeySet.ext_mem`: a key set is determined by its members.
* `KeySet.mem_union`, `KeySet.mem_diff`, `KeySet.mem_insert`: members of the operations.
* `KeySet.ofList_toList`: listing the members and collecting them again changes nothing.
-/

namespace TickScript

/-- An input channel. -/
inductive Key where
  | run | altRun | up | down | left | right | jump | altJump | dropItem | pause
  deriving DecidableEq, Repr, Inhabited

namespace Key

/-- Every channel, in the order in which a set of keys is written out. -/
def all : List Key :=
  [.run, .altRun, .up, .down, .left, .right, .jump, .altJump, .dropItem, .pause]

/-- The position of a channel in `Key.all`. -/
def index : Key → Nat
  | .run => 0
  | .altRun => 1
  | .up => 2
  | .down => 3
  | .left => 4
  | .right => 5
  | .jump => 6
  | .altJump => 7
  | .dropItem => 8
  | .pause => 9

/-- The letter that stands for a channel in an input cell. -/
def code : Key → Char
  | .run => 'n'
  | .altRun => 't'
  | .up => 'u'
  | .down => 'd'
  | .left => 'l'
  | .right => 'r'
  | .jump => 'j'
  | .altJump => 'a'
  | .dropItem => 'i'
  | .pause => 'p'

/-- The full name of a channel. -/
def name : Key → String
  | .run => "run"
  | .altRun => "altRun"
  | .up => "up"
  | .down => "down"
  | .left => "left"
  | .right => "right"
  | .jump => "jump"
  | .altJump => "altJump"
  | .dropItem => "dropItem"
  | .pause => "pause"

/-- The channel with the given code letter. -/
def ofCode? (c : Char) : Option Key := all.find? fun k => k.code == c

/-- The channel with the given full name. -/
def ofName? (s : String) : Option Key := all.find? fun k => k.name == s

theorem mem_all (k : Key) : k ∈ all := by cases k <;> decide

theorem index_lt (k : Key) : k.index < 10 := by cases k <;> decide

theorem getElem?_index (k : Key) : all[k.index]? = some k := by cases k <;> rfl

theorem index_injective {a b : Key} (h : a.index = b.index) : a = b := by
  have := getElem?_index a
  rw [h, getElem?_index b] at this
  exact (Option.some.inj this).symm

theorem exists_index_eq : ∀ i < 10, ∃ k ∈ all, k.index = i := by decide

theorem ofCode?_code (k : Key) : ofCode? k.code = some k := by cases k <;> decide

end Key

/-- A set of keys: bit `Key.index k` says whether `k` is a member. -/
structure KeySet where
  bits : BitVec 10
  deriving DecidableEq, Repr, Inhabited

namespace KeySet

/-- No key at all. -/
def empty : KeySet := ⟨0⟩

def contains (s : KeySet) (k : Key) : Bool := s.bits.getLsbD k.index

instance : Membership Key KeySet := ⟨fun s k => s.contains k = true⟩

instance (k : Key) (s : KeySet) : Decidable (k ∈ s) :=
  inferInstanceAs (Decidable (s.contains k = true))

def insert (s : KeySet) (k : Key) : KeySet := ⟨s.bits ||| BitVec.twoPow 10 k.index⟩

def union (s t : KeySet) : KeySet := ⟨s.bits ||| t.bits⟩

def diff (s t : KeySet) : KeySet := ⟨s.bits &&& ~~~t.bits⟩

def ofList (ks : List Key) : KeySet := ks.foldl insert empty

/-- The members, in the order of `Key.all`. -/
def toList (s : KeySet) : List Key := Key.all.filter s.contains

def isEmpty (s : KeySet) : Bool := s == empty

def size (s : KeySet) : Nat := s.toList.length

/-- The code letters of the members, in the order of `Key.all`. -/
def codes (s : KeySet) : String := String.ofList (s.toList.map Key.code)

/-- The four directions. -/
def directions : KeySet := ofList [.up, .down, .left, .right]

/-! ## Members -/

theorem mem_iff {k : Key} {s : KeySet} : k ∈ s ↔ s.bits.getLsbD k.index = true := Iff.rfl

@[simp] theorem not_mem_empty (k : Key) : k ∉ empty := by
  simp [mem_iff, empty]

@[simp] theorem mem_union {k : Key} {s t : KeySet} : k ∈ s.union t ↔ k ∈ s ∨ k ∈ t := by
  simp [mem_iff, union]

@[simp] theorem mem_diff {k : Key} {s t : KeySet} : k ∈ s.diff t ↔ k ∈ s ∧ k ∉ t := by
  simp [mem_iff, diff, k.index_lt]

@[simp] theorem mem_insert {k j : Key} {s : KeySet} : k ∈ s.insert j ↔ k ∈ s ∨ k = j := by
  simp only [mem_iff, insert, BitVec.getLsbD_or, Bool.or_eq_true, BitVec.getLsbD_twoPow,
    j.index_lt, Bool.and_eq_true, decide_eq_true_eq, true_and]
  constructor
  · rintro (h | h)
    · exact Or.inl h
    · exact Or.inr (Key.index_injective h.symm)
  · rintro (h | h)
    · exact Or.inl h
    · exact Or.inr (congrArg Key.index h).symm

/-- A key set is determined by its members. -/
theorem ext_mem {s t : KeySet} (h : ∀ k, k ∈ s ↔ k ∈ t) : s = t := by
  have key : ∀ i, i < 10 → s.bits.getLsbD i = t.bits.getLsbD i := by
    intro i hi
    obtain ⟨k, -, rfl⟩ := Key.exists_index_eq i hi
    exact Bool.eq_iff_iff.mpr (h k)
  cases s
  cases t
  exact congrArg KeySet.mk (BitVec.eq_of_getLsbD_eq key)

@[simp] theorem mem_toList {k : Key} {s : KeySet} : k ∈ s.toList ↔ k ∈ s := by
  simp only [toList, List.mem_filter, Key.mem_all, true_and]
  exact Iff.rfl

theorem mem_foldl_insert {k : Key} (ks : List Key) (s : KeySet) :
    k ∈ ks.foldl insert s ↔ k ∈ s ∨ k ∈ ks := by
  induction ks generalizing s with
  | nil => simp
  | cons j js ih =>
    rw [List.foldl_cons, ih, mem_insert, List.mem_cons, or_assoc]

@[simp] theorem mem_ofList {k : Key} {ks : List Key} : k ∈ ofList ks ↔ k ∈ ks := by
  simp [ofList, mem_foldl_insert]

/-- Listing the members and collecting them again changes nothing. -/
theorem ofList_toList (s : KeySet) : ofList s.toList = s :=
  ext_mem fun k => by simp

end KeySet

end TickScript
