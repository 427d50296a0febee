import Mathlib.Algebra.BigOperators.Group.List.Basic
import Mathlib.Data.List.MinMax
import Mathlib.Data.Prod.Lex
import MeridianMcp.Text
import MeridianMcp.Effects.FileSystem

namespace Dmi

open MeridianMcp Effects

inductive DmiError where
  | io (e : IoError)
  | invalid (message : String)
  | limit (name : String)
  deriving DecidableEq, Repr

structure ServerLimits where
  maxDmiMetadataBytes : Nat
  maxDmiCacheEntries : Nat
  maxDmiCacheBytes : Nat

structure DmiAssetId (P : Type) where
  path : P
  sha256 : Text
  size : Nat

structure DecodedDmi (P I : Type) where
  identity : DmiAssetId P
  icon : I
  assetGeneration : Nat
  metadataBytes : Nat

structure PreparedDmi (P I : Type) where
  identity : DmiAssetId P
  icon : I
  decodedBytes : Nat
  metadataBytes : Nat

structure DmiInput (P : Type) where
  identity : DmiAssetId P
  bytes : Bytes

structure CacheEntry (P I : Type) where
  asset : DecodedDmi P I
  decodedBytes : Nat
  lastUse : Nat
  metadataBytes : Nat

-- What the decoder makes of the bytes of a file; `decode` also says whether it has come to decode.
structure Decoder (I : Type) where
  dimensions : Bytes → Except DmiError Nat
  validateMetadata : I → Except DmiError Unit
  decode : Bytes → Bool × Except DmiError (I × Nat)
  dataLen : I → Nat

abbrev Entries (P I : Type) := List (P × CacheEntry P I)

structure DmiCache (P I : Type) where
  entries : Entries P I
  decodedBytes : Nat
  nextGeneration : Nat
  clock : Nat
  decodeCount : Nat

def DmiCache.empty (P I : Type) : DmiCache P I := ⟨[], 0, 0, 0, 0⟩

def maxCounter : Nat := 2 ^ 64 - 1

def saturatingAdd (a b : Nat) : Nat := min (a + b) maxCounter

namespace DmiCache

variable {P I : Type} [LinearOrder P] (limits : ServerLimits) (decoder : Decoder I)

def entry (cache : DmiCache P I) (path : P) : Option (CacheEntry P I) :=
  (cache.entries.find? fun e => e.1 = path).map Prod.snd

def touch (entries : Entries P I) (path : P) (clock : Nat) : Entries P I :=
  entries.map fun e => if e.1 = path then (e.1, { e.2 with lastUse := clock }) else e

def remove (cache : DmiCache P I) (path : P) : DmiCache P I :=
  match cache.entry path with
  | some old => { cache with
      entries := cache.entries.filter fun e => e.1 ≠ path
      decodedBytes := cache.decodedBytes - old.decodedBytes }
  | none => cache

def victim (entries : Entries P I) : Option P :=
  (entries.argmin fun e => toLex (e.2.lastUse, e.1)).map Prod.fst

-- Each round takes one entry out, so there are no more rounds than entries.
def evictRounds : Nat → DmiCache P I → DmiCache P I
  | 0, cache => cache
  | n + 1, cache =>
    if cache.entries.length > limits.maxDmiCacheEntries ∨ cache.decodedBytes > limits.maxDmiCacheBytes then
      match victim cache.entries with
      | some path => evictRounds n (cache.remove path)
      | none => cache
    else cache

def evict (cache : DmiCache P I) : DmiCache P I := evictRounds limits cache.entries.length cache

def insert (cache : DmiCache P I) (path : P) (new : CacheEntry P I) : DmiCache P I :=
  let decodedBytes := match cache.entry path with
    | some old => cache.decodedBytes - old.decodedBytes
    | none => cache.decodedBytes
  { cache with
    entries := (path, new) :: cache.entries.filter fun e => e.1 ≠ path
    decodedBytes := saturatingAdd decodedBytes new.decodedBytes }

-- The entry for the same content of the same file.
def cached (cache : DmiCache P I) (identity : DmiAssetId P) : Option (CacheEntry P I) :=
  (cache.entry identity.path).filter fun entry => entry.asset.identity.sha256 = identity.sha256

def install (prepared : PreparedDmi P I) (cache : DmiCache P I) : DecodedDmi P I × DmiCache P I :=
  let path := prepared.identity.path
  let clock := saturatingAdd cache.clock 1
  match cache.cached prepared.identity with
  | some entry => (entry.asset, { cache with entries := touch cache.entries path clock, clock := clock })
  | none =>
    let generation := saturatingAdd cache.nextGeneration 1
    let asset : DecodedDmi P I := ⟨prepared.identity, prepared.icon, generation, prepared.metadataBytes⟩
    let new : CacheEntry P I := ⟨asset, prepared.decodedBytes, clock, prepared.metadataBytes⟩
    (asset, evict limits ({ cache with nextGeneration := generation, clock := clock }.insert path new))

def prepareInput (input : DmiInput P) : Except DmiError (PreparedDmi P I) := do
  let (icon, metadataBytes) ← (decoder.decode input.bytes).2
  pure ⟨input.identity, icon, decoder.dataLen icon * 4, metadataBytes⟩

def loadInput (input : DmiInput P) (remainingDecodedBytes : Nat) (cache : DmiCache P I) :
    Except DmiError (DecodedDmi P I) × DmiCache P I :=
  match decoder.dimensions input.bytes with
  | .error e => (.error e, cache)
  | .ok decodedBytes =>
    if decodedBytes > remainingDecodedBytes then (.error (.limit "max_dmi_scan_decoded_bytes"), cache)
    else
      match cache.cached input.identity with
      | some entry =>
        match decoder.validateMetadata entry.asset.icon with
        | .error e => (.error e, cache)
        | .ok _ =>
          if entry.metadataBytes > limits.maxDmiMetadataBytes then (.error (.limit "max_dmi_metadata_bytes"), cache)
          else
            let clock := saturatingAdd cache.clock 1
            (.ok entry.asset, { cache with entries := touch cache.entries input.identity.path clock, clock := clock })
      | none =>
        let decodes := if (decoder.decode input.bytes).1 then 1 else 0
        let cache := { cache with decodeCount := cache.decodeCount + decodes }
        match prepareInput decoder input with
        | .error e => (.error e, cache)
        | .ok prepared =>
          let (asset, cache) := install limits prepared cache
          (.ok asset, cache)

end DmiCache

inductive CacheOperation (P I : Type) where
  | loadInput (input : DmiInput P) (remainingDecodedBytes : Nat)
  | install (prepared : PreparedDmi P I)

variable {P I : Type} [LinearOrder P]

def CacheOperation.perform (limits : ServerLimits) (decoder : Decoder I) (cache : DmiCache P I) :
    CacheOperation P I → Except DmiError (DecodedDmi P I) × DmiCache P I
  | .loadInput input remainingDecodedBytes => cache.loadInput limits decoder input remainingDecodedBytes
  | .install prepared =>
    let (asset, cache) := cache.install limits prepared
    (.ok asset, cache)

end Dmi
