/-!
# Colours

The colour scale of the figure runs from dark purple over green to yellow. It is the cubic B-spline
through a table of 256 colours, evaluated in single precision.
-/

namespace Seeing

/-- A colour by its red, green and blue parts. -/
structure Colour where
  /-- The red part. -/
  red : UInt8
  /-- The green part. -/
  green : UInt8
  /-- The blue part. -/
  blue : UInt8
  deriving DecidableEq, Repr

namespace Colour

/-- White. -/
def white : Colour := ⟨255, 255, 255⟩

/-- The colour of a number in base 256 with the digits red, green and blue. -/
def ofCode (code : Nat) : Colour :=
  ⟨(code / 65536).toUInt8, (code / 256).toUInt8, code.toUInt8⟩

/-- The codes of the colours of the scale. -/
def scaleCodes : Array Nat := #[
  0x440154, 0x440256, 0x450457, 0x450559, 0x46075a, 0x46085c, 0x460a5d, 0x460b5e,
  0x470d60, 0x470e61, 0x471063, 0x471164, 0x471365, 0x481467, 0x481668, 0x481769,
  0x48186a, 0x481a6c, 0x481b6d, 0x481c6e, 0x481d6f, 0x481f70, 0x482071, 0x482173,
  0x482374, 0x482475, 0x482576, 0x482677, 0x482878, 0x482979, 0x472a7a, 0x472c7a,
  0x472d7b, 0x472e7c, 0x472f7d, 0x46307e, 0x46327e, 0x46337f, 0x463480, 0x453581,
  0x453781, 0x453882, 0x443983, 0x443a83, 0x443b84, 0x433d84, 0x433e85, 0x423f85,
  0x424086, 0x424186, 0x414287, 0x414487, 0x404588, 0x404688, 0x3f4788, 0x3f4889,
  0x3e4989, 0x3e4a89, 0x3e4c8a, 0x3d4d8a, 0x3d4e8a, 0x3c4f8a, 0x3c508b, 0x3b518b,
  0x3b528b, 0x3a538b, 0x3a548c, 0x39558c, 0x39568c, 0x38588c, 0x38598c, 0x375a8c,
  0x375b8d, 0x365c8d, 0x365d8d, 0x355e8d, 0x355f8d, 0x34608d, 0x34618d, 0x33628d,
  0x33638d, 0x32648e, 0x32658e, 0x31668e, 0x31678e, 0x31688e, 0x30698e, 0x306a8e,
  0x2f6b8e, 0x2f6c8e, 0x2e6d8e, 0x2e6e8e, 0x2e6f8e, 0x2d708e, 0x2d718e, 0x2c718e,
  0x2c728e, 0x2c738e, 0x2b748e, 0x2b758e, 0x2a768e, 0x2a778e, 0x2a788e, 0x29798e,
  0x297a8e, 0x297b8e, 0x287c8e, 0x287d8e, 0x277e8e, 0x277f8e, 0x27808e, 0x26818e,
  0x26828e, 0x26828e, 0x25838e, 0x25848e, 0x25858e, 0x24868e, 0x24878e, 0x23888e,
  0x23898e, 0x238a8d, 0x228b8d, 0x228c8d, 0x228d8d, 0x218e8d, 0x218f8d, 0x21908d,
  0x21918c, 0x20928c, 0x20928c, 0x20938c, 0x1f948c, 0x1f958b, 0x1f968b, 0x1f978b,
  0x1f988b, 0x1f998a, 0x1f9a8a, 0x1e9b8a, 0x1e9c89, 0x1e9d89, 0x1f9e89, 0x1f9f88,
  0x1fa088, 0x1fa188, 0x1fa187, 0x1fa287, 0x20a386, 0x20a486, 0x21a585, 0x21a685,
  0x22a785, 0x22a884, 0x23a983, 0x24aa83, 0x25ab82, 0x25ac82, 0x26ad81, 0x27ad81,
  0x28ae80, 0x29af7f, 0x2ab07f, 0x2cb17e, 0x2db27d, 0x2eb37c, 0x2fb47c, 0x31b57b,
  0x32b67a, 0x34b679, 0x35b779, 0x37b878, 0x38b977, 0x3aba76, 0x3bbb75, 0x3dbc74,
  0x3fbc73, 0x40bd72, 0x42be71, 0x44bf70, 0x46c06f, 0x48c16e, 0x4ac16d, 0x4cc26c,
  0x4ec36b, 0x50c46a, 0x52c569, 0x54c568, 0x56c667, 0x58c765, 0x5ac864, 0x5cc863,
  0x5ec962, 0x60ca60, 0x63cb5f, 0x65cb5e, 0x67cc5c, 0x69cd5b, 0x6ccd5a, 0x6ece58,
  0x70cf57, 0x73d056, 0x75d054, 0x77d153, 0x7ad151, 0x7cd250, 0x7fd34e, 0x81d34d,
  0x84d44b, 0x86d549, 0x89d548, 0x8bd646, 0x8ed645, 0x90d743, 0x93d741, 0x95d840,
  0x98d83e, 0x9bd93c, 0x9dd93b, 0xa0da39, 0xa2da37, 0xa5db36, 0xa8db34, 0xaadc32,
  0xaddc30, 0xb0dd2f, 0xb2dd2d, 0xb5de2b, 0xb8de29, 0xbade28, 0xbddf26, 0xc0df25,
  0xc2df23, 0xc5e021, 0xc8e020, 0xcae11f, 0xcde11d, 0xd0e11c, 0xd2e21b, 0xd5e21a,
  0xd8e219, 0xdae319, 0xdde318, 0xdfe318, 0xe2e418, 0xe5e419, 0xe7e419, 0xeae51a,
  0xece51b, 0xefe51c, 0xf1e51d, 0xf4e61e, 0xf6e620, 0xf8e621, 0xfbe723, 0xfde725]

/-- The table of the colour scale. -/
def scaleTable : Array Colour := scaleCodes.map ofCode

/-- The value of the B-spline with four neighbouring control values, at the fraction `t` of the way
from the second to the third. -/
def spline (v₀ v₁ v₂ v₃ t : Float32) : Float32 :=
  let t2 := t * t
  let t3 := t2 * t
  ((1 - 3 * t + 3 * t2 - t3) * v₀ + (4 - 6 * t2 + 3 * t3) * v₁ +
    (1 + 3 * t + 3 * t2 - 3 * t3) * v₂ + t3 * v₃) / 6

/-- One part of the colour in the interval number `i` of the scale, at the fraction `t` of it.
Beyond the ends of the table the values continue in a straight line. -/
def part (select : Colour → UInt8) (i : Nat) (t : Float32) : UInt8 :=
  let value (k : Nat) : Float32 := (select (scaleTable.getD k white)).toFloat32
  let v₁ := value i
  let v₂ := value (i + 1)
  let v₀ := if 0 < i then value (i - 1) else 2 * v₁ - v₂
  let v₃ := if i < 254 then value (i + 2) else 2 * v₂ - v₁
  (spline v₀ v₁ v₂ v₃ t).toUInt8

/-- The colour of the scale at a parameter from zero to one. What is no number gets no light. -/
def ofParameter (t : Float) : Colour :=
  let t := (if t < 0 then 0 else if 1 < t then 1 else t).toFloat32
  let i := Nat.min (t * 255).toUInt64.toNat 254
  let f := (t - i.toFloat32 / 255) * 255
  ⟨part (·.red) i f, part (·.green) i f, part (·.blue) i f⟩

/-- The two hexadecimal digits of a byte. -/
def byteDigits (b : UInt8) : List Char :=
  [Nat.digitChar (b.toNat / 16), Nat.digitChar (b.toNat % 16)]

/-- The six hexadecimal digits of a colour. -/
def hex (c : Colour) : String :=
  .ofList (byteDigits c.red ++ byteDigits c.green ++ byteDigits c.blue)

end Colour

end Seeing
