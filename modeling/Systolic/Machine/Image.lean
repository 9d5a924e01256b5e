import Systolic.Machine.Basic
import Systolic.Text.Bytes

/-!
# Memory images

A memory image is a flat run of signed big-endian elements, row by row, each in as many bytes as the data width needs.
Loading starts at address 0 and goes on past the depth, where addresses wrap around.
-/

namespace Systolic

/-- The memories that an image can be loaded into. -/
inductive ImageKind
  | host
  | weight
  deriving DecidableEq

def ImageKind.name : ImageKind → String
  | host => "host"
  | weight => "weight"

/-- An image of `length` bytes is no whole number of pieces of `piece` bytes. -/
structure RaggedImage where
  kind : ImageKind
  length : Nat
  piece : Nat
  deriving DecidableEq

def RaggedImage.message (e : RaggedImage) : String :=
  s!"{e.kind.name} image is {e.length} bytes, not a multiple of {e.piece}"

namespace Image

/-- Bytes of one element. -/
def elementBytes (chip : Chip) : Nat := (chip.dataWidth + 7) / 8

/-- The element that `bytes` spell. -/
def element (bytes : List UInt8) : Word :=
  Word.wrap (8 * bytes.length) (UInt64.ofNat (Bytes.value bytes)).toInt64

/-- The bytes of an element. -/
def elementToBytes (width : Nat) (v : Word) : List UInt8 := Bytes.bigEndian width v.toUInt64.toNat

/-- The elements of `bytes`, `width` bytes each. -/
def elements (width : Nat) (bytes : List UInt8) : Row :=
  (Bytes.chunks width (bytes.length / width) bytes).map element

/-- Cut an image into pieces of `count` elements. -/
def split (chip : Chip) (kind : ImageKind) (count : Nat) (bytes : List UInt8) : Except RaggedImage (List Row) :=
  let width := elementBytes chip
  let piece := count * width
  if bytes.length % piece = 0 then
    .ok ((Bytes.chunks piece (bytes.length / piece) bytes).map (elements width))
  else .error ⟨kind, bytes.length, piece⟩

end Image

namespace Machine

/-- Hand the pieces to `put` at the addresses from 0 on. -/
def place (put : Machine → UInt64 → Row → Machine) (m : Machine) (pieces : List Row) : Machine :=
  pieces.zipIdx.foldl (fun m (row, addr) => put m (.ofNat addr) row) m

/-- Load host rows from row 0 on; also how many there were. -/
def loadHost (m : Machine) (bytes : List UInt8) : Except RaggedImage (Machine × Nat) :=
  (Image.split m.chip .host m.chip.size bytes).map fun rows => (place writeHost m rows, rows.length)

/-- Load weight tiles from tile 0 on; also how many there were. -/
def loadWeights (m : Machine) (bytes : List UInt8) : Except RaggedImage (Machine × Nat) :=
  (Image.split m.chip .weight (m.chip.size * m.chip.size) bytes).map fun tiles =>
    (place storeTile m tiles, tiles.length)

/-- The whole host memory as an image. -/
def dumpHost (m : Machine) : List UInt8 :=
  m.memories.host.rows.toList.flatMap fun row => row.flatMap (Image.elementToBytes (Image.elementBytes m.chip))

end Machine

end Systolic
