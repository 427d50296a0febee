import Mathlib.Data.Int.ConditionallyCompleteOrder
import Mathlib.Order.ConditionallyCompleteLattice.Basic
import Mathlib.Data.List.Destutter
import Mathlib.Data.List.Sort
import MeridianMcp.Effects.FileSystem

namespace Reuse

open Effects

-- Instants in nanoseconds.
abbrev Instant := Int

def mtimeSettleWindow : Int := 2000000000

structure Node where
  isFile : Bool
  content : Bytes
  modified : Instant
  deriving DecidableEq

-- Where a path leads, and what is there.
structure World (P : Type) where
  links : P → P
  nodes : P → Option Node

-- Which system calls answer; `linked` is `symlink_metadata` of a path that leads to nothing.
structure Probe where
  metadata : Bool
  linked : Bool
  canonicalize : Bool
  modified : Bool

structure FingerprintEntry (P : Type) where
  path : P
  resolved : P
  len : Nat
  modified : Instant
  deriving DecidableEq

structure SourceFingerprint (P : Type) where
  entries : List (FingerprintEntry P)
  discoveryPaths : List P
  reusable : Bool

structure ProjectProfile (P : Type) where
  spacemanConfig : Option P
  spacemanConfigCandidate : P

structure Snapshot (P : Type) where
  environmentPath : P
  sourceInputs : List P
  sourceFingerprint : SourceFingerprint P

variable {P : Type}

-- The earliest time that the platform's clock type can hold.
variable (earliest : Instant)

def checkedSub (t : Instant) (d : Int) : Option Instant := if earliest ≤ t - d then some (t - d) else none

-- One turn of the loop: the entry, and whether the fingerprint stays reusable.
def look (settledBefore : Instant) (path : P) (optional : Bool) (w : World P) (probe : Probe) :
    Option (FingerprintEntry P) × Bool :=
  if ¬ probe.metadata then (none, false)
  else
    match w.nodes (w.links path) with
    | none => (none, optional && !probe.linked)
    | some node =>
      if ¬ probe.canonicalize then (none, false)
      else if ¬ probe.modified then (none, false)
      else (some ⟨path, w.links path, node.content.length, node.modified⟩,
        decide (node.modified < settledBefore) && node.isFile)

def recorded (inputs discoveryPaths : List P) : List (P × Bool) :=
  inputs.map (fun path => (path, false)) ++ discoveryPaths.map fun path => (path, true)

variable [LinearOrder P]

-- `seen i` is what the look at the path number `i` finds.
def captureWithDiscovery (inputs discoveryPaths : List P) (seen : Nat → World P × Probe) (observedAt : Instant) :
    SourceFingerprint P :=
  let settledBefore := (checkedSub earliest observedAt mtimeSettleWindow).getD observedAt
  let looks := (recorded inputs discoveryPaths).mapIdx fun i input =>
    look settledBefore input.1 input.2 (seen i).1 (seen i).2
  { entries := (looks.filterMap Prod.fst).insertionSort fun left right => left.path ≤ right.path
    discoveryPaths := discoveryPaths
    reusable := looks.all Prod.snd }

def SourceFingerprint.matches (self other : SourceFingerprint P) : Bool :=
  self.reusable && other.reusable && decide (self.entries = other.entries) &&
    decide (self.discoveryPaths = other.discoveryPaths)

def buildSourceInputs (filePaths : List P) (environmentPath : P) (profile : Option (ProjectProfile P))
    (canonicalize : P → Option P) : List P :=
  let inputs := filePaths ++ [environmentPath] ++ (profile.bind ProjectProfile.spacemanConfig).toList
  ((inputs ++ inputs.filterMap canonicalize).insertionSort (· ≤ ·)).destutter (· ≠ ·)

def configCandidate (profile : Option (ProjectProfile P)) (rootConfig : P) : P :=
  (profile.map ProjectProfile.spacemanConfigCandidate).getD rootConfig

def fromParse (environmentPath : P) (filePaths : List P) (profile : Option (ProjectProfile P)) (rootConfig : P)
    (canonicalize : P → Option P) (seen : Nat → World P × Probe) (parseStartedAt : Instant) : Snapshot P :=
  let sourceInputs := buildSourceInputs filePaths environmentPath profile canonicalize
  { environmentPath := environmentPath
    sourceInputs := sourceInputs
    sourceFingerprint :=
      captureWithDiscovery earliest sourceInputs [configCandidate profile rootConfig] seen parseStartedAt }

def reusableSnapshot (snapshot : Option (Snapshot P)) (path : P) (seen : Nat → World P × Probe) (now : Instant) :
    Option (Snapshot P) := do
  let snapshot ← snapshot
  if snapshot.environmentPath ≠ path then none
  else
    let current := captureWithDiscovery earliest snapshot.sourceInputs snapshot.sourceFingerprint.discoveryPaths
      seen now
    if snapshot.sourceFingerprint.matches current then some snapshot else none

-- A write or a creation at time `t`, a deletion, and the deletion of a link: every path then
-- leads where it led, or to nothing.
inductive Edit (t : Instant) (w : World P) : World P → Prop
  | stay : Edit t w w
  | write (r : P) (node : Node) (hearly : t - mtimeSettleWindow ≤ node.modified) (hlate : node.modified ≤ t) :
      Edit t w { w with nodes := Function.update w.nodes r (some node) }
  | delete (r : P) : Edit t w { w with nodes := Function.update w.nodes r none }
  | unlink (links : P → P) (h : ∀ p, links p = w.links p ∨ w.nodes (links p) = none) :
      Edit t w { w with links := links }

inductive Change (t : Instant) (w : World P) : World P → Prop
  | edit {v : World P} (h : Edit t w v) : Change t w v
  | retarget (links : P → P) : Change t w { w with links := links }

-- What one path stands for.
def view (w : World P) (p : P) : Option (P × Bytes) :=
  (w.nodes (w.links p)).map fun node => (w.links p, node.content)

-- The moments are numbered; the parse lasts from `started` to `built`.
structure History (P : Type) [LinearOrder P] where
  world : Nat → World P
  clock : Nat → Instant
  monotone : Monotone clock
  started : Nat
  built : Nat
  representable : earliest ≤ clock started - mtimeSettleWindow
  edits : ∀ n, started ≤ n → n < built → Edit (clock n) (world n) (world (n + 1))
  changes : ∀ n, started ≤ n → Change (clock n) (world n) (world (n + 1))

end Reuse
