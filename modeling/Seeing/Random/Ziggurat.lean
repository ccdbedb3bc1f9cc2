import Seeing.Random.ChaCha

/-!
# Uniform and normal deviates

A uniform deviate is the highest bits of a word as a fraction. A normal deviate is drawn by covering
the bell curve with 256 layers of equal area: a word picks a layer and a place in it. The place is
taken if it lies under the narrower layer above, or under the curve by a second draw. The lowest
layer also stands for the tail.
-/

namespace Seeing.Ziggurat

/-- The bell curve, one at its top. -/
def bell (x : Float) : Float := Float.exp (-x * x / 2)

/-- The place where the tail starts. -/
def tailStart : Float := 3.654152885361008796

/-- The area of a layer. -/
def layerArea : Float := 0.00492867323399

/-- The half widths of the layers from the lowest one, which is widened by the area of the tail, up
to the top, which has no width. -/
def widths : FloatArray :=
  let start : FloatArray := ⟨#[layerArea / bell tailStart, tailStart]⟩
  (Nat.fold 254 (fun k _ (widths : FloatArray) =>
    let x := widths.get! (k + 1)
    widths.push (Float.sqrt (-2 * Float.log (layerArea / x + bell x)))) start).push 0

/-- The heights of the curve at the half widths. -/
def heights : FloatArray := ⟨widths.data.map bell⟩

/-- A uniform deviate from zero inclusive to one exclusive. -/
def uniform (c : ChaCha) : Float × ChaCha :=
  let (w, c) := c.next
  ((w >>> 11).toFloat * 1.1102230246251565e-16, c)

/-- A uniform deviate strictly between zero and one. -/
def openUniform (c : ChaCha) : Float × ChaCha :=
  let (w, c) := c.next
  (Float.ofBits ((w >>> 12) ||| 0x3ff0000000000000) - 0.9999999999999999, c)

/-- A deviate of the tail by at most `fuel` trials: its excess over the start of the tail is
exponential, accepted with the ratio of the curve to the exponential. -/
def tail (negative : Bool) : Nat → ChaCha → Float × ChaCha
  | 0, c => (0, c)
  | fuel + 1, c =>
    let (a, c) := openUniform c
    let (b, c) := openUniform c
    let x := Float.log a / tailStart
    let y := Float.log b
    if -2 * y < x * x then tail negative fuel c
    else (if negative then x - tailStart else tailStart - x, c)

/-- A normal deviate by at most `fuel` trials. -/
def normalWithin : Nat → ChaCha → Float × ChaCha
  | 0, c => (0, c)
  | fuel + 1, c =>
    let (w, c) := c.next
    let layer := (w &&& 0xff).toNat
    let u := Float.ofBits ((w >>> 12) ||| 0x4000000000000000) - 3
    let x := u * widths.get! layer
    if x.abs < widths.get! (layer + 1) then (x, c)
    else if layer = 0 then tail (u < 0) fuel c
    else
      let (v, c) := uniform c
      let low := heights.get! layer
      let high := heights.get! (layer + 1)
      if high + (low - high) * v < bell x then (x, c) else normalWithin fuel c

/-- The trials after which a draw is given up. A trial fails about once in a hundred times. -/
def trials : Nat := 10000

/-- A normal deviate. -/
def normal (c : ChaCha) : Float × ChaCha := normalWithin trials c

end Seeing.Ziggurat
