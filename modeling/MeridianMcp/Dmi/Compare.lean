import MeridianMcp.Dmi.Frames

namespace Dmi

open MeridianMcp Numbering

inductive MatchKind where
  | exact
  | transformed
  | padded
  | palette
  | near
  | different
  deriving DecidableEq, Repr

def matchRank : MatchKind → Nat
  | .exact => 0
  | .transformed => 1
  | .padded => 2
  | .palette => 3
  | .near => 4
  | .different => 5

-- The single precision numbers: what the sum of the channel differences gives for a size, the
-- clamped minimum, the mean, and the comparisons.
structure Similarity (S : Type) where
  zero : S
  one : S
  ofDelta : Nat → Nat → Nat → S
  clamp : S → S
  mean : List S → S
  gt : S → S → Bool
  ge : S → S → Bool

structure FrameComparison (S : Type) where
  kind : MatchKind
  transform : GeometricTransform
  offset : Int × Int
  similarity : S
  changedPixels : Nat
  maxChannelDelta : Nat

def absDiff (a b : UInt8) : Nat := (a.toNat - b.toNat) + (b.toNat - a.toNat)

def channelDeltas (a b : Pixel) : List Nat :=
  [absDiff a.r b.r, absDiff a.g b.g, absDiff a.b b.b, absDiff a.a b.a]

structure Tally where
  delta : Nat
  changed : Nat
  maxDelta : Nat
  paletteLeft : List Pixel
  paletteRight : List Pixel
  paletteEqual : Bool

def Tally.start : Tally := ⟨0, 0, 0, [], [], true⟩

-- The colours met on each side stand in the order of their first occurrence in this frame.
def Tally.compare (tally : Tally) (a b : Pixel) : Tally where
  delta := (channelDeltas a b).foldl (· + ·) tally.delta
  changed := if a ≠ b then tally.changed + 1 else tally.changed
  maxDelta := (channelDeltas a b).foldl max tally.maxDelta
  paletteLeft := enter tally.paletteLeft a
  paletteRight := enter tally.paletteRight b
  paletteEqual := tally.paletteEqual &&
    decide (tally.paletteLeft.idxOf a = tally.paletteRight.idxOf b) && decide (a.a = b.a)

def boundedPixel (frame : NormalizedFrame) (bounds : AlphaBounds) (cell : Nat × Nat) : Pixel :=
  pixelAt frame.pixels ((bounds.minY + cell.2) * frame.width + (bounds.minX + cell.1))

def offsetOf (lb rb : AlphaBounds) : Int × Int :=
  ((rb.minX : Int) - lb.minX, (rb.minY : Int) - lb.minY)

variable {S : Type} (similarity : Similarity S)

def compareAligned (left right : NormalizedFrame) (transform : GeometricTransform) :
    FrameComparison S :=
  match left.alphaBounds, right.alphaBounds with
  | some lb, some rb =>
    if lb.width ≠ rb.width ∨ lb.height ≠ rb.height then
      ⟨.different, transform, offsetOf lb rb, similarity.zero, lb.width * lb.height, 255⟩
    else
      let tally := (cells lb.width lb.height).foldl
        (fun tally cell =>
          tally.compare (boundedPixel left lb cell) (boundedPixel right rb cell))
        Tally.start
      let padded := lb.minX ≠ rb.minX ∨ lb.minY ≠ rb.minY ∨ left.width ≠ right.width ∨
        left.height ≠ right.height
      let kind :=
        if tally.changed = 0 then
          if transform ≠ .identity then .transformed
          else if padded then .padded
          else .exact
        else if tally.paletteEqual then .palette
        else .different
      ⟨kind, transform, offsetOf lb rb, similarity.ofDelta tally.delta lb.width lb.height,
        tally.changed, tally.maxDelta⟩
  | none, none => ⟨.exact, transform, (0, 0), similarity.one, 0, 0⟩
  | _, _ => ⟨.different, transform, (0, 0), similarity.zero, 1, 255⟩

def withNear (threshold : S) (comparison : FrameComparison S) : FrameComparison S :=
  if comparison.kind = .different ∧ similarity.ge comparison.similarity threshold then
    { comparison with kind := .near }
  else comparison

-- The last of the kinds with the highest rank.
def worst (kinds : List MatchKind) : Option MatchKind :=
  kinds.foldl
    (fun best kind =>
      match best with
      | none => some kind
      | some old => if matchRank old ≤ matchRank kind then some kind else some old)
    none

structure StateLocator (P : Type) where
  dmiPath : P
  state : Text
  duplicateIndex : Nat

structure StateComparison (P S : Type) where
  left : StateLocator P
  right : StateLocator P
  imageMatch : MatchKind
  metadataDifferences : List Text
  frames : List (FrameComparison S)

variable {P M : Type} [DecidableEq M] (library : IconLibrary M)

def metadataDifferences (a b : State M) : List Text :=
  (if a.dirs ≠ b.dirs then ["directions".toList] else []) ++
    (if a.frames ≠ b.frames then ["frames_or_delays".toList] else []) ++
    (if a.movement ≠ b.movement then ["movement".toList] else []) ++
    (if a.loop ≠ b.loop then ["loop".toList] else []) ++
    (if a.rewind ≠ b.rewind then ["rewind".toList] else [])

def findState (icon : IconFile M) (name : Text) (duplicate : Nat) :
    Except DmiError (State M) :=
  match icon.states.find? fun state => state.name = name ∧ state.duplicateIndex = duplicate with
  | some state => .ok state
  | none => .error (.invalid ("state " ++ String.ofList name ++ " duplicate " ++
      toString duplicate ++ " not found"))

def locator (asset : DecodedDmi P (IconFile M)) (state : State M) : StateLocator P :=
  ⟨asset.identity.path, state.name, state.duplicateIndex⟩

def compareView (left right : IconFile M) (ls rs : State M) (threshold : S)
    (transform : GeometricTransform) (view : Nat × Dir) : Option (FrameComparison S) :=
  (transformedView library right rs transform view).map fun transformed =>
    withNear similarity threshold
      (compareAligned similarity (normalizedIconFrame library left ls view.2 view.1) transformed
        transform)

structure Ranked (S : Type) where
  rank : Nat
  similarity : S
  comparisons : List (FrameComparison S)

def rankOf (comparisons : List (FrameComparison S)) : Nat :=
  matchRank ((worst (comparisons.map FrameComparison.kind)).getD .different)

def better (best : Option (Ranked S)) (rank : Nat) (mean : S) : Bool :=
  match best with
  | none => true
  | some old => rank < old.rank || (rank = old.rank && similarity.gt mean old.similarity)

def tryTransform (left right : IconFile M) (ls rs : State M) (threshold : S)
    (best : Option (Ranked S)) (transform : GeometricTransform) : Option (Ranked S) :=
  match (views ls.dirs (library.count ls.frames)).mapM
      (compareView similarity library left right ls rs threshold transform) with
  | none => best
  | some comparisons =>
    let mean := similarity.mean (comparisons.map FrameComparison.similarity)
    if better similarity best (rankOf comparisons) mean then
      some ⟨rankOf comparisons, mean, comparisons⟩
    else best

def compareStates (left : DecodedDmi P (IconFile M)) (leftName : Text) (leftDuplicate : Nat)
    (right : DecodedDmi P (IconFile M)) (rightName : Text) (rightDuplicate : Nat) (minimum : S) :
    Except DmiError (StateComparison P S) := do
  let ls ← findState left.icon leftName leftDuplicate
  let rs ← findState right.icon rightName rightDuplicate
  if ls.dirs.count ≠ rs.dirs.count ∨ library.count ls.frames ≠ library.count rs.frames then
    .ok ⟨locator left ls, locator right rs, .different, metadataDifferences ls rs, []⟩
  else
    let best := transforms.foldl
      (tryTransform similarity library left.icon right.icon ls rs (similarity.clamp minimum)) none
    let comparisons := (best.map Ranked.comparisons).getD []
    .ok ⟨locator left ls, locator right rs,
      (worst (comparisons.map FrameComparison.kind)).getD .different,
      metadataDifferences ls rs, comparisons⟩

end Dmi
