import Seeing.Figure.Colour
import Seeing.Grid

/-!
# Rasters

A raster is a rectangle of coloured pixels. `Raster.encode` gives its bytes as a portable network
graphic: the pixels row after row, each row after a byte that says that it is not filtered, in
blocks that are not compressed.
-/

namespace Seeing

/-- A rectangle of coloured pixels. -/
structure Raster where
  /-- The number of columns. -/
  width : Nat
  /-- The number of rows. -/
  height : Nat
  /-- The colours of the pixels. -/
  pixels : Grid width height Colour

namespace Raster

/-- A white raster. -/
def blank (width height : Nat) : Raster := ⟨width, height, .constant width height .white⟩

/-- The raster with one pixel coloured. A place outside it is left alone. -/
def paint (r : Raster) (x y : Nat) (c : Colour) : Raster :=
  if h : x < r.width ∧ y < r.height then
    { r with pixels := r.pixels.modify ⟨x, h.1⟩ ⟨y, h.2⟩ fun _ => c }
  else r

/-- The raster with the pixels of a rectangle coloured: `w` columns from `x` on and `h` rows from
`y` on. -/
def fill (r : Raster) (x y w h : Nat) (c : Colour) : Raster :=
  Nat.fold h (fun j _ r => Nat.fold w (fun i _ r => r.paint (x + i) (y + j) c) r) r

/-- The highest bytes first of a number of thirty two bits. -/
def bigEndian (n : UInt32) : List UInt8 :=
  [(n >>> 24).toUInt8, (n >>> 16).toUInt8, (n >>> 8).toUInt8, n.toUInt8]

/-- One bit of the division by which the check sum of a chunk is computed. -/
def checkStep (c : UInt32) : UInt32 :=
  if c &&& 1 = 1 then (0xedb88320 : UInt32) ^^^ (c >>> 1) else c >>> 1

/-- The check sum of the bytes of a chunk. -/
def checkSum (bytes : ByteArray) : UInt32 :=
  (bytes.foldl (fun c b => Nat.fold 8 (fun _ _ c => checkStep c) (c ^^^ b.toUInt32))
    0xffffffff) ^^^ 0xffffffff

/-- The check sum of the bytes before compression. -/
def adler (bytes : ByteArray) : UInt32 :=
  let (a, b) := bytes.foldl (fun (a, b) x =>
    let a := (a + x.toUInt32) % 65521
    (a, (b + a) % 65521)) ((1 : UInt32), (0 : UInt32))
  (b <<< 16) ||| a

/-- The largest number of bytes in a block. -/
def blockSize : Nat := 65535

/-- The bytes in blocks that are not compressed. -/
def stored (bytes : ByteArray) : ByteArray :=
  let blocks := (bytes.size + blockSize - 1) / blockSize
  let body := Nat.fold blocks (fun k _ (out : ByteArray) =>
    let block := bytes.extract (k * blockSize) ((k + 1) * blockSize)
    let last : UInt8 := if k + 1 = blocks then 1 else 0
    let size := block.size.toUInt16
    let header : List UInt8 :=
      [last, size.toUInt8, (size >>> 8).toUInt8, (~~~size).toUInt8, (~~~size >>> 8).toUInt8]
    out ++ header.toByteArray ++ block) [0x78, 0x01].toByteArray
  body ++ (bigEndian (adler bytes)).toByteArray

/-- A chunk: its length, name, bytes and check sum. -/
def chunk (name : String) (bytes : ByteArray) : ByteArray :=
  let named := name.toUTF8 ++ bytes
  (bigEndian bytes.size.toUInt32).toByteArray ++ named ++ (bigEndian (checkSum named)).toByteArray

/-- The rows of the pixels, each after the byte of no filter. -/
def scanLines (r : Raster) : ByteArray :=
  Nat.fold r.height (fun j hj (out : ByteArray) =>
    Nat.fold r.width (fun i hi (out : ByteArray) =>
      let c := r.pixels.get ⟨i, hi⟩ ⟨j, hj⟩
      ((out.push c.red).push c.green).push c.blue) (out.push 0)) ByteArray.empty

/-- The bytes of the raster as a portable network graphic. -/
def encode (r : Raster) : ByteArray :=
  let header := bigEndian r.width.toUInt32 ++ bigEndian r.height.toUInt32 ++ [8, 2, 0, 0, 0]
  [0x89, 0x50, 0x4e, 0x47, 0x0d, 0x0a, 0x1a, 0x0a].toByteArray ++
    chunk "IHDR" header.toByteArray ++ chunk "IDAT" (stored r.scanLines) ++
    chunk "IEND" ByteArray.empty

end Raster

end Seeing
