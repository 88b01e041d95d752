import TickScript.Simulation
/-!
# A small platformer

A demonstration level to drive programs against: one flat floor for each section, perhaps
with pits, and an exit on the right that leads to the next section.

* `Platformer.advance`: one tick of movement.
* `Platformer.player`: what a program sees.
-/

namespace TickScript

/-- A section of the level: its width and the pits in its floor. -/
structure Stage where
  width : Float := 800
  pits : List (Float × Float) := []
  deriving Inhabited, Repr

/-- There is floor everywhere but in the pits. -/
def Stage.hasFloor (s : Stage) (x : Float) : Bool :=
  !s.pits.any fun (low, high) => decide (low ≤ x) && decide (x < high)

structure Platformer where
  stages : List Stage
  ticks : Nat := 0
  paused : Bool := false
  finished : Bool := false
  won : Bool := false
  stage : Nat := 0
  x : Float := 0
  y : Float := 0
  speedX : Float := 0
  speedY : Float := 0
  onGround : Bool := true
  dead : Bool := false
  deriving Inhabited, Repr

namespace Platformer

def walkSpeed : Float := 3
def runSpeed : Float := 6
def acceleration : Float := 0.5
def friction : Float := 0.25
def gravity : Float := 0.4
def jumpSpeed : Float := -7
def floorY : Float := 0
def deathY : Float := 300

/-- A level of the given stages; without any it has one plain stage. -/
def ofStages (stages : List Stage) : Platformer :=
  { stages := if stages.isEmpty then [{}] else stages }

/-- What a program sees. -/
def player (p : Platformer) : Player :=
  { x := p.x
    y := p.y
    speedX := p.speedX
    speedY := p.speedY
    onGround := p.onGround
    dead := p.dead
    sectionId := p.stage }

/-- The first number, unless the second is smaller. -/
def atMost (a bound : Float) : Float := if bound < a then bound else a

/-- The first number, unless the second is larger. -/
def atLeast (a bound : Float) : Float := if a < bound then bound else a

/-- The speed to the side after one tick of keys. -/
def steer (keys : KeySet) (speed : Float) : Float :=
  let top := if keys.contains .run || keys.contains .altRun then runSpeed else walkSpeed
  let right := keys.contains .right
  let left := keys.contains .left
  if right && !left then atMost (speed + acceleration) top
  else if left && !right then atLeast (speed - acceleration) (-top)
  else if 0 < speed then atLeast (speed - friction) 0
  else atMost (speed + friction) 0

/-- One tick of movement under the given keys. -/
def advance (p : Platformer) (keys : KeySet) : Platformer :=
  let p := { p with ticks := p.ticks + 1 }
  if p.paused || p.dead then p
  else
    let speedX := steer keys p.speedX
    let jumps := p.onGround && (keys.contains .jump || keys.contains .altJump)
    let x := atLeast (p.x + speedX) 0
    let speedY := (if jumps then jumpSpeed else p.speedY) + gravity
    let y := p.y + speedY
    let stage := p.stages.getD p.stage {}
    let lands := decide (floorY ≤ y) && stage.hasFloor x && decide (y - speedY ≤ floorY)
    let p := { p with
      x, speedX
      y := if lands then floorY else y
      speedY := if lands then 0 else speedY
      onGround := lands }
    if deathY < p.y then { p with dead := true }
    else if stage.width ≤ x then
      if p.stage + 1 < p.stages.length then { p with stage := p.stage + 1, x := 0 }
      else { p with finished := true, won := true }
    else p

/-- How the level is called in messages. -/
def name : String := "ToyPlatformer"

/-- The simulation that a new level shows. -/
def simulation (p : Platformer) : Simulation := { name, player := p.player, paused := p.paused }

/-- One tick of the level under the keys that were written, and what it shows then. -/
def play (p : Platformer) (s : Simulation) : Platformer × Simulation :=
  let p := { p with paused := s.paused }.advance s.current.keys
  (p, { s.endTick with player := p.player })

/-- The level is over when it was won or the run was ended. -/
def isOver (p : Platformer) (s : Simulation) : Bool := p.finished || !s.reports.isEmpty

end Platformer

end TickScript
