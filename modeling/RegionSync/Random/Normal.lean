import RegionSync.Binary.Elementary
import RegionSync.Random.Generator
import RegionSync.Random.Layers

/-!
Normally distributed samples by rejection. A draw picks a layer and a point across it; nearly always
the point lies under the graph already, else the wedge at the layer's edge or the tail decides. What is
rejected is drawn anew, for as long as it takes.
-/

namespace RegionSync.Random

/-- A table entry as a number. -/
def entry (n : Nat) : Double :=
  .ofRatio false n (10 ^ 18)

def edges : Array Double := layerEdges.map entry

def heights : Array Double := layerHeights.map entry

def edge (i : Nat) : Double := edges.getD i .zero

def height (i : Nat) : Double := heights.getD i .zero

/-- The number of `[-1, 1)` that the high 52 bits of a word place on a grid. -/
def acrossLayer (bits : UInt64) : Double :=
  let k := (bits >>> 12).toNat
  if k < 2 ^ 51 then .ofRatio true (2 ^ 51 - k) (2 ^ 51) else .ofRatio false (k - 2 ^ 51) (2 ^ 51)

/-- How often a draw is tried. A generator has fewer states, so one that is rejected as often comes back to
a state where it has been before, and is rejected forever. -/
def patience : Nat := 2 ^ 70

/-- Tries from one state of the generator after the other, until one succeeds. -/
def persist {α : Type} (attempt : Generator → Except Generator α) : Nat → Generator → Option α
  | 0, _ => none
  | tries + 1, g =>
    match attempt g with
    | .ok drawn => some drawn
    | .error g => persist attempt tries g

/-- Tries a sample beyond the tail's start, on the side of `negative`. -/
def tailOnce (negative : Bool) (g : Generator) : Except Generator (Double × Generator) :=
  let (a, g) := g.openFraction
  let (b, g) := g.openFraction
  let x := a.log.div (entry tailStart)
  let y := b.log
  if Binary.lt (Binary.mul (.neg (.ofNat 2)) y) (x.mul x) then .error g
  else if negative then .ok (x.sub (entry tailStart), g)
  else .ok ((entry tailStart).sub x, g)

def tail? (negative : Bool) (g : Generator) : Option (Double × Generator) :=
  persist (tailOnce negative) patience g

/-- Tries a point in a layer. In the last one the sample may come from the tail, if that has one. -/
def layerOnce (g : Generator) : Except Generator (Option (Double × Generator)) :=
  let (bits, g) := g.long
  let i := (bits &&& 0xff).toNat
  let u := acrossLayer bits
  let x := u.mul (edge i)
  if x.abs.lt (edge (i + 1)) then .ok (some (x, g))
  else if i = 0 then .ok (tail? (u.lt .zero) g)
  else
    let (f, g) := g.fraction64
    let level := (height (i + 1)).add (((height i).sub (height (i + 1))).mul f)
    if level.lt (Binary.expNeg ((x.mul x).div (.ofNat 2))) then .ok (some (x, g)) else .error g

/-- A sample of the standard normal distribution, unless the draw goes on forever. -/
def standardNormal? (g : Generator) : Option (Double × Generator) :=
  (persist layerOnce patience g).join

/-- A sample with mean zero and this standard deviation. A draw that goes on forever stands here as
zero. -/
def normal (deviation : Single) (g : Generator) : Single × Generator :=
  let (z, g) := (standardNormal? g).getD (.zero, g)
  (Binary.zero.add (deviation.mul (z.convert .single)), g)

end RegionSync.Random
