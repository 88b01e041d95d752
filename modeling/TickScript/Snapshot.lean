import TickScript.Field
/-!
# Snapshots as data

What a simulation shows of the player and of the overlay, field by field under the names
that data files use.  A field that is not given keeps its value.

* `Player.override?`, `Overlay.override?`: some fields set anew.
* `Player.toFields`, `Overlay.toFields`: every field, in order.
-/

namespace TickScript

namespace Player

/-- Sets the fields that are given; unknown fields are left alone. -/
def override? (p : Player) (fields : List (String × Value)) : Option Player := do
  let x ← Field.get fields "x" p.x Field.float?
  let y ← Field.get fields "y" p.y Field.float?
  let speedX ← Field.get fields "speed_x" p.speedX Field.float?
  let speedY ← Field.get fields "speed_y" p.speedY Field.float?
  let onGround ← Field.get fields "on_ground" p.onGround Field.bool?
  let inWater ← Field.get fields "in_water" p.inWater Field.bool?
  let climbing ← Field.get fields "climbing" p.climbing Field.bool?
  let forcedState ← Field.get fields "forced_state" p.forcedState Field.bool?
  let dead ← Field.get fields "dead" p.dead Field.bool?
  let standingOnNpc ← Field.get fields "standing_on_npc" p.standingOnNpc Field.bool?
  let holdingNpc ← Field.get fields "holding_npc" p.holdingNpc Field.bool?
  let sectionId ← Field.get fields "section" p.sectionId Field.int?
  return { x, y, speedX, speedY, onGround, inWater, climbing, forcedState, dead,
           standingOnNpc, holdingNpc, sectionId }

def ofValue? (v : Value) : Option Player := Field.object? v >>= override? {}

def toFields (p : Player) : List (String × Value) :=
  [("x", .float p.x), ("y", .float p.y), ("speed_x", .float p.speedX),
   ("speed_y", .float p.speedY), ("on_ground", .bool p.onGround),
   ("in_water", .bool p.inWater), ("climbing", .bool p.climbing),
   ("forced_state", .bool p.forcedState), ("dead", .bool p.dead),
   ("standing_on_npc", .bool p.standingOnNpc), ("holding_npc", .bool p.holdingNpc),
   ("section", .int p.sectionId)]

end Player

namespace Overlay

/-- Sets the fields that are given; unknown fields are left alone. -/
def override? (o : Overlay) (fields : List (String × Value)) : Option Overlay := do
  let x ← Field.get fields "x" o.x Field.float?
  let y ← Field.get fields "y" o.y Field.float?
  let state ← Field.get fields "state" o.state Field.int?
  return { x, y, state }

def ofValue? (v : Value) : Option Overlay := Field.object? v >>= override? {}

def toFields (o : Overlay) : List (String × Value) :=
  [("x", .float o.x), ("y", .float o.y), ("state", .int o.state)]

end Overlay

end TickScript
