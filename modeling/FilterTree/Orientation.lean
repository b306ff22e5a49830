import FilterTree.Numeral.Conversion

/-!
# Orientations of crystals

An orientation is a rotation, kept as a quaternion with its vector part first.
Two crystals of one kind are misoriented by the rotation that takes one to the
other; but a symmetry of the crystal changes nothing that can be seen, so the
misorientation is the least angle among that rotation followed by each of the
symmetries. `LaueClass.operators` lists the symmetries of the classes of
crystals that are supported, the identity first.

A quaternion and its negative are the same rotation, which is why an angle
looks at the magnitude of the scalar part only. Rounding may push the scalar
part of a unit quaternion above one, and there as well as where it is no number
the angle is zero.

Sine, cosine and arc cosine are functions of the platform. The arc cosine of a
number from zero to one is at most a quarter of a turn, so its double is an angle
that `cutOff` leaves as it is.
-/

namespace FilterTree

/-- A quaternion, vector part first. -/
structure Quaternion where
  x : Float
  y : Float
  z : Float
  w : Float

namespace Quaternion

/-- The rotation that moves nothing. -/
def identity : Quaternion := ⟨0, 0, 0, 1⟩

/-- Lengths up to this one are taken for zero. -/
def leastLength : Float := 2.220446049250313e-16

/-- The length of a quaternion. -/
def length (q : Quaternion) : Float := (q.x * q.x + q.y * q.y + q.z * q.z + q.w * q.w).sqrt

/-- The quaternion of length one in the same direction; one without a length has no direction. -/
def normalized? (q : Quaternion) : Option Quaternion :=
  let length := q.length
  if leastLength < length then some ⟨q.x / length, q.y / length, q.z / length, q.w / length⟩
  else none

/-- The orientation that four components of 32 bits stand for. -/
def ofComponents? : List Float32 → Option Quaternion
  | [x, y, z, w] =>
    normalized? ⟨Numeral.widened x, Numeral.widened y, Numeral.widened z, Numeral.widened w⟩
  | _ => none

/-- The rotation back. -/
def conjugate (q : Quaternion) : Quaternion := ⟨-q.x, -q.y, -q.z, q.w⟩

/-- One rotation after another. -/
def mul (p q : Quaternion) : Quaternion where
  x := p.w * q.x + p.x * q.w + p.y * q.z - p.z * q.y
  y := p.w * q.y - p.x * q.z + p.y * q.w + p.z * q.x
  z := p.w * q.z + p.x * q.y - p.y * q.x + p.z * q.w
  w := p.w * q.w - p.x * q.x - p.y * q.y - p.z * q.z

instance : Mul Quaternion := ⟨mul⟩

/-- Half a turn. -/
def halfTurn : Float := 3.141592653589793

/-- An angle from zero to half a turn; what is none is cut off there. -/
def cutOff (angle : Float) : Float := if 0 ≤ angle ∧ angle ≤ halfTurn then angle else halfTurn

/-- The angle of a rotation, between zero and half a turn. -/
def angle (q : Quaternion) : Float :=
  let cosine := q.w.abs
  if cosine < 1 then cutOff (2 * cosine.acos) else 0

/-- The rotations by multiples of an `n`-th of a turn about the z axis. -/
def aboutZ (n : Nat) : List Quaternion :=
  (List.range n).map fun k =>
    let half := halfTurn * k.toFloat / n.toFloat
    ⟨0, 0, half.sin, half.cos⟩

/-- The half turns about `n` axes across the z axis, evenly spread over half a circle. -/
def acrossZ (n : Nat) : List Quaternion :=
  (List.range n).map fun k =>
    let direction := halfTurn * k.toFloat / n.toFloat
    ⟨direction.cos, direction.sin, 0, 0⟩

/-- The half turns about the axes of coordinates. -/
def axisHalfTurns : List Quaternion := [⟨1, 0, 0, 0⟩, ⟨0, 1, 0, 0⟩, ⟨0, 0, 1, 0⟩]

end Quaternion

/-- A class of crystals with the same rotations as symmetries. -/
inductive LaueClass where
  | hexagonalHigh
  | cubicHigh
  | triclinic
  | monoclinic
  | orthorhombic
  | tetragonalHigh
deriving DecidableEq, Repr

namespace LaueClass

/-- The class with a code; not every class that has a code is supported. -/
def ofCode? : Nat → Option LaueClass
  | 0 => some hexagonalHigh
  | 1 => some cubicHigh
  | 4 => some triclinic
  | 5 => some monoclinic
  | 6 => some orthorhombic
  | 8 => some tetragonalHigh
  | _ => none

/-- The rotations of a cube: about its faces, its edges and its corners. -/
def cubeRotations : List Quaternion :=
  let r : Float := 0.7071067811865475244
  let quarterTurns : List Quaternion :=
    [⟨r, 0, 0, r⟩, ⟨-r, 0, 0, r⟩, ⟨0, r, 0, r⟩, ⟨0, -r, 0, r⟩, ⟨0, 0, r, r⟩, ⟨0, 0, -r, r⟩]
  let edges : List Quaternion :=
    [⟨r, r, 0, 0⟩, ⟨r, -r, 0, 0⟩, ⟨0, r, r, 0⟩, ⟨0, r, -r, 0⟩, ⟨r, 0, r, 0⟩, ⟨r, 0, -r, 0⟩]
  let halves : List Float := [0.5, -0.5]
  let corners : List Quaternion :=
    halves.flatMap fun x => halves.flatMap fun y => halves.map fun z => ⟨x, y, z, 0.5⟩
  .identity :: Quaternion.axisHalfTurns ++ quarterTurns ++ edges ++ corners

/-- The rotations that are symmetries of a class. -/
def operators : LaueClass → List Quaternion
  | triclinic => [.identity]
  | monoclinic => [.identity, ⟨0, 1, 0, 0⟩]
  | orthorhombic => .identity :: Quaternion.axisHalfTurns
  | tetragonalHigh => Quaternion.aboutZ 4 ++ Quaternion.acrossZ 4
  | hexagonalHigh => Quaternion.aboutZ 6 ++ Quaternion.acrossZ 6
  | cubicHigh => cubeRotations

end LaueClass

/-- The least angle, in degrees, of a rotation from one orientation to another under symmetries. -/
def misorientation (operators : List Quaternion) (p q : Quaternion) : Float :=
  let delta := p.conjugate * q
  let least (best : Float) (operator : Quaternion) : Float :=
    let angle := (delta * operator).angle
    if angle < best then angle else best
  operators.foldl least (1 / 0) * (180 / Quaternion.halfTurn)

end FilterTree
