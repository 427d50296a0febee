import MeridianMcp.Dmi.Cache
import MeridianMcp.Numbering
import Mathlib.Data.Finset.Basic

namespace Dmi

open MeridianMcp

structure Pixel where
  r : UInt8
  g : UInt8
  b : UInt8
  a : UInt8
  deriving DecidableEq, Repr

def Pixel.clear : Pixel := ⟨0, 0, 0, 0⟩

inductive Dir where
  | north
  | south
  | east
  | west
  | northeast
  | northwest
  | southeast
  | southwest
  deriving DecidableEq, Repr

inductive Dirs where
  | one
  | four
  | eight
  deriving DecidableEq, Repr

def Dirs.count : Dirs → Nat
  | one => 1
  | four => 4
  | eight => 8

def orderedDirs : Dirs → List Dir
  | .one => [.south]
  | .four => [.south, .north, .east, .west]
  | .eight => [.south, .north, .east, .west, .southeast, .southwest, .northeast, .northwest]

inductive GeometricTransform where
  | identity
  | mirrorHorizontal
  | mirrorVertical
  | rotate90
  | rotate180
  | rotate270
  deriving DecidableEq, Repr

def transforms : List GeometricTransform :=
  [.identity, .mirrorHorizontal, .mirrorVertical, .rotate90, .rotate180, .rotate270]

structure State (M : Type) where
  name : Text
  duplicateIndex : Nat
  dirs : Dirs
  frames : M
  movement : Bool
  loop : Nat
  rewind : Bool

-- What the icon parser's library answers about directions, frame counts and frame positions.
structure IconLibrary (M : Type) where
  flipEw : Dir → Dir
  flipNs : Dir → Dir
  flip : Dir → Dir
  count : M → Nat
  indexOfFrame : State M → Dir → Nat → Nat

structure IconFile (M : Type) where
  cellWidth : Nat
  cellHeight : Nat
  states : List (State M)
  imageWidth : Nat
  data : List Pixel
  width_lt : cellWidth < 2 ^ 32
  height_lt : cellHeight < 2 ^ 32
  states_distinct : (states.map fun state => (state.name, state.duplicateIndex)).Nodup

structure AlphaBounds where
  minX : Nat
  minY : Nat
  maxX : Nat
  maxY : Nat
  deriving DecidableEq, Repr

namespace AlphaBounds

def width (bounds : AlphaBounds) : Nat := bounds.maxX - bounds.minX + 1

def height (bounds : AlphaBounds) : Nat := bounds.maxY - bounds.minY + 1

def widen (bounds : Option AlphaBounds) (x y : Nat) : AlphaBounds :=
  match bounds with
  | none => ⟨x, y, x, y⟩
  | some old => ⟨min old.minX x, min old.minY y, max old.maxX x, max old.maxY y⟩

end AlphaBounds

structure NormalizedFrame where
  width : Nat
  height : Nat
  pixels : List Pixel
  alphaBounds : Option AlphaBounds
  deriving DecidableEq, Repr

-- The pairs (x, y) in the order of a loop over y around a loop over x.
def cells (width height : Nat) : List (Nat × Nat) :=
  (List.range height).flatMap fun y => (List.range width).map fun x => (x, y)

def pixelAt (pixels : List Pixel) (index : Nat) : Pixel := (pixels[index]?).getD Pixel.clear

def pixelStats (pixels : List Pixel) (width height : Nat) : Option AlphaBounds :=
  (cells width height).foldl
    (fun bounds cell =>
      if (pixelAt pixels (cell.2 * width + cell.1)).a ≠ 0 then
        some (AlphaBounds.widen bounds cell.1 cell.2)
      else bounds)
    none

def Pixel.normalize (pixel : Pixel) : Pixel := if pixel.a = 0 then Pixel.clear else pixel

def normalizeFrame (width height : Nat) (pixels : List Pixel) : NormalizedFrame :=
  let pixels := pixels.map Pixel.normalize
  ⟨width, height, pixels, pixelStats pixels width height⟩

def target (frame : NormalizedFrame) : GeometricTransform → Nat × Nat → Nat × Nat
  | .identity, (x, y) => (x, y)
  | .mirrorHorizontal, (x, y) => (frame.width - 1 - x, y)
  | .mirrorVertical, (x, y) => (x, frame.height - 1 - y)
  | .rotate90, (x, y) => (frame.height - 1 - y, x)
  | .rotate180, (x, y) => (frame.width - 1 - x, frame.height - 1 - y)
  | .rotate270, (x, y) => (y, frame.width - 1 - x)

def transformedSize (frame : NormalizedFrame) : GeometricTransform → Nat × Nat
  | .rotate90 | .rotate270 => (frame.height, frame.width)
  | _ => (frame.width, frame.height)

def transformFrame (frame : NormalizedFrame) (transform : GeometricTransform) : NormalizedFrame :=
  let size := transformedSize frame transform
  let out := (cells frame.width frame.height).foldl
    (fun out cell =>
      let moved := target frame transform cell
      out.set (moved.2 * size.1 + moved.1) (pixelAt frame.pixels (cell.2 * frame.width + cell.1)))
    (List.replicate (size.1 * size.2) Pixel.clear)
  normalizeFrame size.1 size.2 out

def IconFile.rectOfIndex {M : Type} (icon : IconFile M) (index : Nat) : Nat × Nat × Nat × Nat :=
  let count := icon.imageWidth / icon.cellWidth
  (index % count * icon.cellWidth, index / count * icon.cellHeight, icon.cellWidth, icon.cellHeight)

def framePixels {M : Type} (icon : IconFile M) (rect : Nat × Nat × Nat × Nat) : List Pixel :=
  (cells rect.2.2.1 rect.2.2.2).map fun cell =>
    (pixelAt icon.data ((rect.2.1 + cell.2) * icon.imageWidth + (rect.1 + cell.1))).normalize

def transformDirection {M : Type} (library : IconLibrary M) (dir : Dir) : GeometricTransform → Dir
  | .identity => dir
  | .mirrorHorizontal => library.flipEw dir
  | .mirrorVertical => library.flipNs dir
  | .rotate90 =>
    match dir with
    | .north => .east
    | .east => .south
    | .south => .west
    | .west => .north
    | .northeast => .southeast
    | .southeast => .southwest
    | .southwest => .northwest
    | .northwest => .northeast
  | .rotate180 => library.flip dir
  | .rotate270 =>
    match dir with
    | .north => .west
    | .west => .south
    | .south => .east
    | .east => .north
    | .northeast => .northwest
    | .northwest => .southwest
    | .southwest => .southeast
    | .southeast => .northeast

variable {M : Type} (library : IconLibrary M)

def normalizedIconFrame (icon : IconFile M) (state : State M) (dir : Dir) (frame : Nat) :
    NormalizedFrame :=
  let rect := icon.rectOfIndex (library.indexOfFrame state dir frame)
  normalizeFrame rect.2.2.1 rect.2.2.2 (framePixels icon rect)

-- The pairs of a frame number and a direction in the order of the loops.
def views (dirs : Dirs) (count : Nat) : List (Nat × Dir) :=
  (List.range count).flatMap fun frame => (orderedDirs dirs).map fun dir => (frame, dir)

def sourceDir (dirs : Dirs) (transform : GeometricTransform) (canonical : Dir) : Option Dir :=
  (orderedDirs dirs).find? fun source => transformDirection library source transform = canonical

def transformedView (icon : IconFile M) (state : State M) (transform : GeometricTransform)
    (view : Nat × Dir) : Option NormalizedFrame :=
  (sourceDir library state.dirs transform view.2).map fun source =>
    transformFrame (normalizedIconFrame library icon state source view.1) transform

end Dmi
