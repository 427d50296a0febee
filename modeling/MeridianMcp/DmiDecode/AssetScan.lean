import Mathlib.Algebra.BigOperators.Group.Finset.Basic
import MeridianMcp.DmiDecode.Recorded

namespace DmiDecode

open MeridianMcp Dmi Effects Machine Fallible

variable {M R P E : Type} [LinearOrder P] {libraries : Libraries M R} {sha256 : Bytes → Text}

structure ScanLimits where
  load : LoadLimits
  maxDmiScanDecodedBytes : Nat
  maxDmiScanMetadataBytes : Nat
  maxDmiScanStates : Nat
  maxDmiScanFrames : Nat

structure AssetScan (P M : Type) [LinearOrder P] where
  assets : FinMap P (DecodedDmi P (Icon M))
  decodedBytes : Nat
  metadataBytes : Nat
  states : Nat
  frames : Nat

-- What a load fails with: what is wrong with the file, or what ends the whole tool call.
inductive LoadError (E : Type) where
  | dmi (e : DmiError)
  | other (e : E)

structure ScanState (P M : Type) [LinearOrder P] where
  scan : AssetScan P M
  cache : DmiCache P (Icon M)
  reasons : List String

def ScanState.empty : ScanState P M := ⟨⟨FinMap.empty, 0, 0, 0, 0⟩, DmiCache.empty P (Icon M), []⟩

def fileInput (sha256 : Bytes → Text) (path : P) (bytes : Bytes) : DmiInput P :=
  ⟨⟨path, sha256 bytes, bytes.length⟩, bytes⟩

-- `read` is what the checks of the path and the reading of the file come to.
def loadWithBudget (libraries : Libraries M R) (sha256 : Bytes → Text)
    (cache : DmiCache P (Icon M)) (read : Except (LoadError E) (P × Bytes))
    (remainingDecodedBytes : Nat) (limits : LoadLimits) :
    Except (LoadError E) (DecodedDmi P (Icon M)) × DmiCache P (Icon M) :=
  match read with
  | .error e => (.error e, cache)
  | .ok (path, bytes) =>
    let loaded := cache.loadInput limits.cache (decoder libraries limits)
      (fileInput sha256 path bytes) remainingDecodedBytes
    (loaded.1.mapError .dmi, loaded.2)

namespace AssetScan

def budgetLimits (limits : ScanLimits) (scan : AssetScan P M) : LoadLimits :=
  { limits.load with
    decode := { limits.load.decode with
      maxDmiMetadataBytes := min limits.load.decode.maxDmiMetadataBytes
        (limits.maxDmiScanMetadataBytes - scan.metadataBytes)
      maxDmiStates := min limits.load.decode.maxDmiStates (limits.maxDmiScanStates - scan.states)
      maxDmiFrames := min limits.load.decode.maxDmiFrames
        (limits.maxDmiScanFrames - scan.frames) } }

def reasonOf (limits : ServerLimits) (budget : ServerLimits) : DmiError → String
  | .limit reason =>
    if reason = "max_dmi_metadata_bytes" ∧ budget.maxDmiMetadataBytes < limits.maxDmiMetadataBytes
    then "max_dmi_scan_metadata_bytes"
    else if reason = "max_dmi_states" ∧ budget.maxDmiStates < limits.maxDmiStates
    then "max_dmi_scan_states"
    else if reason = "max_dmi_frames" ∧ budget.maxDmiFrames < limits.maxDmiFrames
    then "max_dmi_scan_frames"
    else reason
  | _ => "dmi_load_failed"

def add (count : M → Nat) (scan : AssetScan P M) (path : P) (asset : DecodedDmi P (Icon M)) :
    AssetScan P M where
  assets := scan.assets.insert path asset
  decodedBytes := scan.decodedBytes + DmiDecode.decodedBytes asset
  metadataBytes := scan.metadataBytes + asset.metadataBytes
  states := scan.states + asset.icon.metadata.states.length
  frames := scan.frames + framesOf count asset.icon.metadata.states

def load (libraries : Libraries M R) (sha256 : Bytes → Text) (limits : ScanLimits)
    (state : ScanState P M) (checked : Except E P) (read : Except (LoadError E) (P × Bytes)) :
    Except E (Option (DecodedDmi P (Icon M))) × ScanState P M :=
  match checked with
  | .error e => (.error e, state)
  | .ok path =>
    match state.scan.assets.get path with
    | some asset => (.ok (some asset), state)
    | none =>
      let budget := budgetLimits limits state.scan
      let loaded := loadWithBudget libraries sha256 state.cache read
        (limits.maxDmiScanDecodedBytes - state.scan.decodedBytes) budget
      match loaded.1 with
      | .ok asset =>
        (.ok (some asset),
          { state with scan := state.scan.add libraries.count path asset, cache := loaded.2 })
      | .error (.dmi e) =>
        let reason := reasonOf limits.load.decode budget.decode e
        (.ok none,
          { state with
            cache := loaded.2
            reasons := if reason ∈ state.reasons then state.reasons
              else state.reasons ++ [reason] })
      | .error (.other e) => (.error e, { state with cache := loaded.2 })

end AssetScan

-- A load of the scan, or what the server does with its cache meanwhile.
inductive ScanEvent (P E : Type) where
  | load (checked : Except E P) (read : Except (LoadError E) (P × Bytes))
  | loadInput (limits : LoadLimits) (path : P) (bytes : Bytes) (remainingDecodedBytes : Nat)
  | install (prepareLimits limits : LoadLimits) (path : P) (bytes : Bytes)

def ScanEvent.content : ScanEvent P E → Option Bytes
  | .load _ (.ok (_, bytes)) => some bytes
  | .load _ (.error _) => none
  | .loadInput _ _ bytes _ => some bytes
  | .install _ _ _ bytes => some bytes

-- The asset that the scan gives under a path, if the event is a load that has one.
def given (checked : Except E P) (result : Except E (Option (DecodedDmi P (Icon M)))) :
    List (P × DecodedDmi P (Icon M)) :=
  match checked, result with
  | .ok path, .ok (some asset) => [(path, asset)]
  | _, _ => []

def ScanEvent.perform (libraries : Libraries M R) (sha256 : Bytes → Text) (limits : ScanLimits)
    (state : ScanState P M) :
    ScanEvent P E → List (P × DecodedDmi P (Icon M)) × ScanState P M
  | .load checked read =>
    let loaded := AssetScan.load libraries sha256 limits state checked read
    (given checked loaded.1, loaded.2)
  | .loadInput loadLimits path bytes remainingDecodedBytes =>
    ([], { state with
      cache := (state.cache.loadInput loadLimits.cache (decoder libraries loadLimits)
        (fileInput sha256 path bytes) remainingDecodedBytes).2 })
  | .install prepareLimits loadLimits path bytes =>
    match DmiCache.prepareInput (decoder libraries prepareLimits) (fileInput sha256 path bytes) with
    | .ok prepared => ([], { state with cache := (state.cache.install loadLimits.cache prepared).2 })
    | .error _ => ([], state)

-- What the scan has given, and the state that it has come to.
def scanRun (libraries : Libraries M R) (sha256 : Bytes → Text) (limits : ScanLimits)
    (events : List (ScanEvent P E)) : List (P × DecodedDmi P (Icon M)) × ScanState P M :=
  events.foldl
    (fun run event =>
      let performed := event.perform libraries sha256 limits run.2
      (run.1 ++ performed.1, performed.2))
    ([], ScanState.empty)

inductive Budget where
  | decodedBytes
  | metadataBytes
  | states
  | frames

def Budget.weight (count : M → Nat) (asset : DecodedDmi P (Icon M)) : Budget → Nat
  | decodedBytes => DmiDecode.decodedBytes asset
  | metadataBytes => asset.metadataBytes
  | states => asset.icon.metadata.states.length
  | frames => framesOf count asset.icon.metadata.states

def AssetScan.spent (scan : AssetScan P M) : Budget → Nat
  | .decodedBytes => scan.decodedBytes
  | .metadataBytes => scan.metadataBytes
  | .states => scan.states
  | .frames => scan.frames

def ScanLimits.allowed (limits : ScanLimits) : Budget → Nat
  | .decodedBytes => limits.maxDmiScanDecodedBytes
  | .metadataBytes => limits.maxDmiScanMetadataBytes
  | .states => limits.maxDmiScanStates
  | .frames => limits.maxDmiScanFrames

-- Every path with the asset that was given for it, and each of them counted once.
structure Accounts (count : M → Nat) (limits : ScanLimits)
    (returned : List (P × DecodedDmi P (Icon M))) (scan : AssetScan P M) : Prop where
  assets : ∀ path asset, scan.assets.get path = some asset ↔ (path, asset) ∈ returned
  spent : ∀ budget, scan.spent budget =
    ∑ path ∈ scan.assets.keys, (scan.assets.get path).elim 0 fun asset => budget.weight count asset
  within : ∀ budget, scan.spent budget ≤ limits.allowed budget

section Loading

variable {contents : Set Bytes} {limits : ScanLimits} {state : ScanState P M}
  {scan : AssetScan P M} {returned : List (P × DecodedDmi P (Icon M))} {count : M → Nat}
  {path : P} {asset : DecodedDmi P (Icon M)} {read : Except (LoadError E) (P × Bytes)}

theorem recorded_loadWithBudget {cache : DmiCache P (Icon M)} {remaining : Nat}
    {budget : LoadLimits} (h : Recorded libraries sha256 contents cache)
    (hcontent : ∀ path bytes, read = .ok (path, bytes) → bytes ∈ contents) :
    Recorded libraries sha256 contents
      (loadWithBudget libraries sha256 cache read remaining budget).2 := by
  cases read with
  | error e => exact h
  | ok file => exact h.loadInput rfl (hcontent file.1 file.2 rfl)

theorem within_loadWithBudget (hcodec : libraries.codec.Lawful)
    (hcollision : Set.InjOn sha256 contents) {cache : DmiCache P (Icon M)} {remaining : Nat}
    {budget : LoadLimits} (hcache : Recorded libraries sha256 contents cache)
    (hcontent : ∀ path bytes, read = .ok (path, bytes) → bytes ∈ contents)
    (h : (loadWithBudget libraries sha256 cache read remaining budget).1 = .ok asset) :
    Within libraries.count budget.decode remaining asset := by
  cases read with
  | error e => cases h
  | ok file =>
    exact loadInput_within hcodec hcollision hcache rfl (hcontent file.1 file.2 rfl) (mapError_ok h)

-- Each lowered limit bounds what its budget is charged with.
theorem Within.weight_le
    (h : Within count (AssetScan.budgetLimits limits scan).decode
      (limits.maxDmiScanDecodedBytes - scan.decodedBytes) asset) (budget : Budget) :
    budget.weight count asset ≤ limits.allowed budget - scan.spent budget := by
  cases budget with
  | decodedBytes => exact h.decodedBytes
  | metadataBytes => exact h.metadataBytes.trans (min_le_right _ _)
  | states => exact h.states.trans (min_le_right _ _)
  | frames => exact h.frames.trans (min_le_right _ _)

theorem AssetScan.spent_add (budget : Budget) :
    (scan.add count path asset).spent budget = scan.spent budget + budget.weight count asset := by
  cases budget <;> rfl

theorem sum_assets_insert {weight : DecodedDmi P (Icon M) → Nat} {assets : FinMap P (DecodedDmi P (Icon M))}
    (h : assets.get path = none) :
    (∑ p ∈ (assets.insert path asset).keys, ((assets.insert path asset).get p).elim 0 weight) =
      (∑ p ∈ assets.keys, (assets.get p).elim 0 weight) + weight asset := by
  have hnot : path ∉ assets.keys := fun hmem => (assets.mem_keys path).mp hmem h
  have hsame : ∀ p ∈ assets.keys, ((assets.insert path asset).get p).elim 0 weight =
      (assets.get p).elim 0 weight := by
    intro p hp
    have hne : p ≠ path := by
      rintro rfl
      exact hnot hp
    rw [FinMap.get_insert, Function.update_of_ne hne]
  rw [FinMap.keys_insert, Finset.sum_insert hnot, Finset.sum_congr rfl hsame, FinMap.get_insert,
    Function.update_self, add_comm]
  rfl

theorem Accounts.add (h : Accounts count limits returned scan) (hnew : scan.assets.get path = none)
    (hweight : ∀ budget : Budget, budget.weight count asset ≤
      limits.allowed budget - scan.spent budget) :
    Accounts count limits (returned ++ [(path, asset)]) (scan.add count path asset) where
  assets p other := by
    rw [AssetScan.add, FinMap.get_insert, List.mem_append, List.mem_singleton, ← h.assets,
      Prod.mk.injEq]
    rcases eq_or_ne p path with rfl | hne
    · rw [Function.update_self, hnew, Option.some.injEq]
      simp [eq_comm]
    · rw [Function.update_of_ne hne]
      simp [hne]
  spent budget := by
    rw [AssetScan.spent_add, h.spent, ← sum_assets_insert hnew]
    rfl
  within budget := by
    have hroom := hweight budget
    have hspent := h.within budget
    rw [AssetScan.spent_add]
    omega

inductive LoadStep (libraries : Libraries M R) (sha256 : Bytes → Text) (limits : ScanLimits)
    (state : ScanState P M) (read : Except (LoadError E) (P × Bytes)) :
    Except E P → Except E (Option (DecodedDmi P (Icon M))) → ScanState P M → Prop
  | refused (e : E) : LoadStep libraries sha256 limits state read (.error e) (.error e) state
  | known (path : P) (asset : DecodedDmi P (Icon M)) : state.scan.assets.get path = some asset →
    LoadStep libraries sha256 limits state read (.ok path) (.ok (some asset)) state
  | loaded (path : P) (asset : DecodedDmi P (Icon M)) (cache : DmiCache P (Icon M)) :
    state.scan.assets.get path = none →
    loadWithBudget libraries sha256 state.cache read
      (limits.maxDmiScanDecodedBytes - state.scan.decodedBytes)
      (AssetScan.budgetLimits limits state.scan) = (.ok asset, cache) →
    LoadStep libraries sha256 limits state read (.ok path) (.ok (some asset))
      { state with scan := state.scan.add libraries.count path asset, cache := cache }
  | failed (path : P) (result : Except E (Option (DecodedDmi P (Icon M)))) (reasons : List String) :
    (∀ asset, result ≠ .ok (some asset)) →
    LoadStep libraries sha256 limits state read (.ok path) result
      { state with
        cache := (loadWithBudget libraries sha256 state.cache read
          (limits.maxDmiScanDecodedBytes - state.scan.decodedBytes)
          (AssetScan.budgetLimits limits state.scan)).2
        reasons := reasons }

theorem load_step (libraries : Libraries M R) (sha256 : Bytes → Text) (limits : ScanLimits)
    (state : ScanState P M) (checked : Except E P) (read : Except (LoadError E) (P × Bytes)) :
    LoadStep libraries sha256 limits state read checked
      (AssetScan.load libraries sha256 limits state checked read).1
      (AssetScan.load libraries sha256 limits state checked read).2 := by
  cases checked with
  | error e => exact .refused e
  | ok path =>
    rw [AssetScan.load]
    cases hassets : state.scan.assets.get path with
    | some asset => exact .known path asset hassets
    | none =>
      dsimp only
      split
      · rename_i asset hloaded
        exact .loaded path asset _ hassets (Prod.ext hloaded rfl)
      · exact .failed path _ _ nofun
      · exact .failed path _ _ nofun

theorem accounts_load (hcodec : libraries.codec.Lawful) (hcollision : Set.InjOn sha256 contents)
    (hcache : Recorded libraries sha256 contents state.cache)
    (haccounts : Accounts libraries.count limits returned state.scan)
    (hcontent : ∀ path bytes, read = .ok (path, bytes) → bytes ∈ contents) {checked : Except E P}
    {result : Except E (Option (DecodedDmi P (Icon M)))} {after : ScanState P M}
    (h : LoadStep libraries sha256 limits state read checked result after) :
    Recorded libraries sha256 contents after.cache ∧
      Accounts libraries.count limits (returned ++ given checked result) after.scan := by
  have hrecorded := @recorded_loadWithBudget _ _ _ _ _ libraries sha256 contents read _
    (limits.maxDmiScanDecodedBytes - state.scan.decodedBytes)
    (AssetScan.budgetLimits limits state.scan) hcache hcontent
  cases h with
  | refused e => exact ⟨hcache, by simpa only [given, List.append_nil] using haccounts⟩
  | known path asset hassets =>
    refine ⟨hcache, fun p other => ?_, haccounts.spent, haccounts.within⟩
    have hmem := (haccounts.assets path asset).mp hassets
    rw [haccounts.assets, given, List.mem_append, List.mem_singleton]
    refine ⟨.inl, fun h => h.elim id fun heq => ?_⟩
    rwa [heq]
  | loaded path asset cache hnew hloaded =>
    have hwithin := within_loadWithBudget hcodec hcollision hcache hcontent
      (congrArg Prod.fst hloaded)
    rw [hloaded] at hrecorded
    exact ⟨hrecorded, haccounts.add hnew hwithin.weight_le⟩
  | failed path _ reasons hfailed =>
    have hnone : given (.ok path) result = [] := by
      unfold given
      split
      · exact absurd rfl (hfailed _)
      · rfl
    rw [hnone, List.append_nil]
    exact ⟨hrecorded, haccounts⟩

theorem load_unchanged {checked : Except E P}
    {result : Except E (Option (DecodedDmi P (Icon M)))} {after : ScanState P M}
    (h : LoadStep libraries sha256 limits state read checked result after)
    (hfailed : ∀ asset, result ≠ .ok (some asset)) : after.scan = state.scan := by
  cases h with
  | refused e => rfl
  | known path asset _ => exact absurd rfl (hfailed asset)
  | loaded path asset _ _ _ => exact absurd rfl (hfailed asset)
  | failed path _ _ _ => rfl

theorem accounts_perform (hcodec : libraries.codec.Lawful) (hcollision : Set.InjOn sha256 contents)
    (hcache : Recorded libraries sha256 contents state.cache)
    (haccounts : Accounts libraries.count limits returned state.scan) {event : ScanEvent P E}
    (hcontent : ∀ bytes, event.content = some bytes → bytes ∈ contents) :
    Recorded libraries sha256 contents (event.perform libraries sha256 limits state).2.cache ∧
      Accounts libraries.count limits
        (returned ++ (event.perform libraries sha256 limits state).1)
        (event.perform libraries sha256 limits state).2.scan := by
  cases event with
  | load checked read =>
    refine accounts_load hcodec hcollision hcache haccounts (fun path bytes hread => ?_)
      (load_step libraries sha256 limits state checked read)
    exact hcontent bytes (by rw [hread]; rfl)
  | loadInput loadLimits path bytes remaining =>
    refine ⟨hcache.loadInput rfl (hcontent bytes rfl), ?_⟩
    rw [ScanEvent.perform, List.append_nil]
    exact haccounts
  | install prepareLimits loadLimits path bytes =>
    rw [ScanEvent.perform]
    cases hprepared : DmiCache.prepareInput (decoder libraries prepareLimits)
        (fileInput sha256 path bytes) with
    | error e =>
      dsimp only
      rw [List.append_nil]
      exact ⟨hcache, haccounts⟩
    | ok prepared =>
      obtain ⟨icon, size, hdecoded, rfl⟩ := prepareInput_eq_ok.mp hprepared
      dsimp only
      rw [List.append_nil]
      exact ⟨hcache.install ⟨bytes, hcontent bytes rfl, rfl, _, hdecoded⟩, haccounts⟩

end Loading

theorem accounts_empty (count : M → Nat) (limits : ScanLimits) :
    Accounts count limits [] (ScanState.empty : ScanState P M).scan where
  assets path asset := ⟨nofun, nofun⟩
  spent budget := by cases budget <;> rfl
  within budget := by cases budget <;> exact Nat.zero_le _

theorem accounts_scanRun (hcodec : libraries.codec.Lawful) (limits : ScanLimits)
    {contents : Set Bytes} (hcollision : Set.InjOn sha256 contents) (events : List (ScanEvent P E))
    (hcontents : ∀ event ∈ events, ∀ bytes, event.content = some bytes → bytes ∈ contents) :
    Recorded libraries sha256 contents (scanRun libraries sha256 limits events).2.cache ∧
      Accounts libraries.count limits (scanRun libraries sha256 limits events).1
        (scanRun libraries sha256 limits events).2.scan := by
  induction events using List.reverseRecOn with
  | nil => exact ⟨nofun, accounts_empty _ _⟩
  | append_singleton events event ih =>
    obtain ⟨hcache, haccounts⟩ := ih fun earlier hearlier =>
      hcontents earlier (List.mem_append_left _ hearlier)
    rw [scanRun, List.foldl_append]
    exact accounts_perform hcodec hcollision hcache haccounts
      (hcontents event (List.mem_append_right _ (List.mem_singleton_self _)))

theorem scan_accounts (hcodec : libraries.codec.Lawful) (limits : ScanLimits)
    (events : List (ScanEvent P E))
    (hcollision : Set.InjOn sha256 {bytes | ∃ event ∈ events, event.content = some bytes}) :
    Accounts libraries.count limits (scanRun libraries sha256 limits events).1
        (scanRun libraries sha256 limits events).2.scan ∧
      ∀ (checked : Except E P) (read : Except (LoadError E) (P × Bytes)),
        (∀ asset, (AssetScan.load libraries sha256 limits
          (scanRun libraries sha256 limits events).2 checked read).1 ≠ .ok (some asset)) →
        (AssetScan.load libraries sha256 limits
          (scanRun libraries sha256 limits events).2 checked read).2.scan =
          (scanRun libraries sha256 limits events).2.scan :=
  ⟨(accounts_scanRun hcodec limits hcollision events fun event hevent _ hbytes =>
    ⟨event, hevent, hbytes⟩).2, fun checked read =>
    load_unchanged (load_step libraries sha256 limits _ checked read)⟩

def wallScanLimits : ScanLimits := ⟨narrow, 4, 200, 1, 1⟩

def wallSha256 (bytes : Bytes) : Text :=
  if bytes = wallFile then "12680ebce120bee33584e353393278779c2213e01d50535380ecaf7022e7bea9".toList
  else []

-- Decoded for another user of the cache, then loaded twice, and then too much under another path.
def wallEvents : List (ScanEvent Nat Unit) :=
  [.loadInput wide 7 wallFile 100, .load (.ok 7) (.ok (7, wallFile)),
    .load (.ok 7) (.ok (7, wallFile)), .load (.ok 8) (.ok (8, wallFile))]

def wallRun : List (Nat × DecodedDmi Nat (Icon Nat)) × ScanState Nat Nat :=
  scanRun wallLibraries wallSha256 wallScanLimits wallEvents

theorem wallRun_counts : wallRun.1.length = 2 ∧ wallRun.2.scan.decodedBytes = 4 ∧
    wallRun.2.reasons = ["max_dmi_scan_decoded_bytes"] := by
  decide +kernel

theorem scan_accounts_wall : (wallRun.1.length = 2 ∧ wallRun.2.scan.decodedBytes = 4 ∧
      wallRun.2.reasons = ["max_dmi_scan_decoded_bytes"]) ∧
    Accounts wallLibraries.count wallScanLimits wallRun.1 wallRun.2.scan := by
  have hsame : ∀ bytes, (∃ event ∈ wallEvents, event.content = some bytes) → bytes = wallFile := by
    rintro bytes ⟨event, hevent, hbytes⟩
    simp only [wallEvents, List.mem_cons, List.not_mem_nil, or_false] at hevent
    rcases hevent with rfl | rfl | rfl | rfl <;> exact (Option.some.inj hbytes).symm
  refine ⟨wallRun_counts, (scan_accounts lawful_wallCodec wallScanLimits wallEvents ?_).1⟩
  intro bytes hbytes other hother _
  rw [hsame bytes hbytes, hsame other hother]

end DmiDecode
