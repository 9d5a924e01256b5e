import Systolic.Storage.Row

/-!
# Weight tiles

A tile is an `N × N` block of weights, row after row. The weight store keeps one tile per address; addresses wrap
around at its capacity.
-/

namespace Systolic

structure Tile where
  size : Nat
  /-- Row by row. -/
  cells : Row
  deriving DecidableEq

namespace Tile

/-- The tile that starts with `cells`; what is missing is zero. -/
def ofRow (size : Nat) (cells : Row) : Tile := ⟨size, Row.fit (size * size) cells⟩

def get (t : Tile) (row column : Nat) : Word := t.cells.getD (row * t.size + column) 0

def row (t : Tile) (row : Nat) : Row := (t.cells.drop (row * t.size)).take t.size

@[simp] theorem length_cells_ofRow (size : Nat) (cells : Row) : (ofRow size cells).cells.length = size * size := by
  simp [ofRow]

theorem getD_row {t : Tile} {column : Nat} (h : column < t.size) (row : Nat) :
    (t.row row).getD column 0 = t.get row column := by
  simp [Tile.row, get, h]

end Tile

/-- Tiles by address. -/
structure TileStore where
  tiles : Array Row
  deriving DecidableEq

namespace TileStore

/-- `capacity` tiles of zeros. -/
def blank (capacity size : Nat) : TileStore := ⟨.replicate capacity (.replicate (size * size) 0)⟩

def slot (m : TileStore) (addr : UInt64) : Nat := addr.toNat % m.tiles.size

def read (m : TileStore) (addr : UInt64) : Row := m.tiles.getD (m.slot addr) []

/-- Replace a tile; zeros fill up what `cells` does not reach. -/
def store (m : TileStore) (addr : UInt64) (cells : Row) : TileStore :=
  ⟨m.tiles.setIfInBounds (m.slot addr) (Row.fit (m.read addr).length cells)⟩

end TileStore

end Systolic
