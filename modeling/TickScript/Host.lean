import TickScript.Key
/-!
# What the simulation shows

A program is driven against a simulation that shows the state of the player on each tick,
and on demand the state of the player on the overlay (the map screen).  A run that is over
is reported to the simulation.
-/

namespace TickScript

/-- The player on one tick. -/
structure Player where
  x : Float := 0
  y : Float := 0
  speedX : Float := 0
  speedY : Float := 0
  onGround : Bool := false
  inWater : Bool := false
  climbing : Bool := false
  forcedState : Bool := false
  dead : Bool := false
  standingOnNpc : Bool := false
  holdingNpc : Bool := false
  sectionId : Int := 0
  deriving Inhabited, Repr

/-- The player on the overlay. -/
structure Overlay where
  x : Float := 0
  y : Float := 0
  state : Int := 0
  deriving Inhabited, Repr

/-- Why a run was ended. -/
inductive EndReason where
  /-- One candidate of a search was classified. -/
  | probed
  /-- The search found its answer. -/
  | converged
  /-- The search ran out of candidates. -/
  | exhausted
  | playerDied
  deriving DecidableEq, Repr, Inhabited

def EndReason.name : EndReason → String
  | .probed => "probed"
  | .converged => "converged"
  | .exhausted => "exhausted"
  | .playerDied => "player_died"

/-- Carried by the signal that ends a run. -/
structure Report where
  reason : EndReason
  message : String := ""
  value : Option Int := none
  history : List Int := []
  deriving DecidableEq, Repr, Inhabited

/-- A test that the program's author built into the program.  It learns whether the
program is exhausted, and may then look at the player. -/
structure Native where
  name : String
  test : Bool → Bool ⊕ (Player → Bool)

instance : Inhabited Native := ⟨⟨"never", fun _ => .inl false⟩⟩

end TickScript
