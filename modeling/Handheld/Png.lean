import Handheld.Frame.Basic

/-!
# PNG files

A frame as the bytes of a PNG file: eight bits to the channel, with alpha, every row unfiltered, and
the rows in uncompressed blocks.
-/

namespace Handheld.Png

/-- A number as four bytes, the most significant first. -/
def bigEndian (n : UInt32) : List UInt8 :=
  [(n >>> 24).toUInt8, (n >>> 16).toUInt8, (n >>> 8).toUInt8, n.toUInt8]

/-- A number as two bytes, the least significant first. -/
def littleEndian (n : UInt16) : List UInt8 := [n.toUInt8, (n >>> 8).toUInt8]

/-- One bit of the cyclic check: the polynomial is subtracted where a bit falls out. -/
def checkBit (crc : UInt32) : UInt32 :=
  if crc &&& 1 = 1 then (0xedb88320 : UInt32) ^^^ (crc >>> 1) else crc >>> 1

/-- One byte of the cyclic check. -/
def checkByte (crc : UInt32) (b : UInt8) : UInt32 :=
  (List.range 8).foldl (fun crc _ => checkBit crc) (crc ^^^ b.toUInt32)

/-- The cyclic check of a chunk. -/
def cyclicCheck (bytes : Array UInt8) : UInt32 := ~~~bytes.foldl checkByte 0xffffffff

/-- The sum that closes a stream: the sum of the bytes, and the sum of those sums. -/
def streamSum (bytes : Array UInt8) : UInt32 :=
  let (a, b) := bytes.foldl
    (fun (a, b) byte =>
      let a := (a + byte.toUInt32) % 65521
      (a, (b + a) % 65521))
    ((1, 0) : UInt32 × UInt32)
  b <<< 16 ||| a

/-- A chunk: its length, its name, its content, and the check of name and content. -/
def chunk (name : String) (content : Array UInt8) : Array UInt8 :=
  let checked := name.toUTF8.data ++ content
  (bigEndian (UInt32.ofNat content.size)).toArray ++ checked ++
    (bigEndian (cyclicCheck checked)).toArray

/-- The most bytes that a block holds. -/
def blockSize : Nat := 65535

/-- Uncompressed blocks that hold the bytes from position `start` on. -/
def blocks (bytes : Array UInt8) (start : Nat) : Array UInt8 :=
  let content := bytes.extract start (start + blockSize)
  let last := bytes.size ≤ start + blockSize
  let length := UInt16.ofNat content.size
  let block := #[if last then 1 else 0] ++ (littleEndian length).toArray ++
    (littleEndian (~~~length)).toArray ++ content
  if _h : bytes.size ≤ start + blockSize then block else block ++ blocks bytes (start + blockSize)
termination_by bytes.size - start
decreasing_by
  unfold blockSize at *
  omega

/-- A stream of uncompressed blocks with its sum. -/
def stream (bytes : Array UInt8) : Array UInt8 :=
  #[0x78, 0x01] ++ blocks bytes 0 ++ (bigEndian (streamSum bytes)).toArray

/-- The rows of a frame, each after a byte that says that it is unfiltered. -/
def rows (f : Frame) : Array UInt8 :=
  (Array.range f.height).flatMap fun y =>
    #[0] ++ (f.pixels.extract (y * f.width) ((y + 1) * f.width)).flatMap Color.bytes

/-- The bytes of the file. -/
def encode (f : Frame) : ByteArray :=
  let header := (bigEndian (UInt32.ofNat f.width) ++ bigEndian (UInt32.ofNat f.height)).toArray ++
    #[8, 6, 0, 0, 0]
  ⟨#[0x89, 0x50, 0x4e, 0x47, 0x0d, 0x0a, 0x1a, 0x0a] ++ chunk "IHDR" header ++
    chunk "IDAT" (stream (rows f)) ++ chunk "IEND" #[]⟩

end Handheld.Png
