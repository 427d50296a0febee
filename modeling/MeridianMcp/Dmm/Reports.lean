import Mathlib.Algebra.BigOperators.Group.List.Basic
import Mathlib.Data.List.Infix
import Mathlib.Data.List.Lex
import Mathlib.Data.Prod.Lex
import Mathlib.Order.Lex
import MeridianMcp.Dmm.Accepted
import MeridianMcp.Tally

namespace Dmm

open MeridianMcp Effects Fallible

variable {C E : Type}

-- The coordinates have the order of a tuple of them.
structure Coordinate where
  x : Nat
  y : Nat
  z : Nat

namespace Coordinate

def key (c : Coordinate) : Nat ×ₗ (Nat ×ₗ Nat) := toLex (c.x, toLex (c.y, c.z))

theorem key_injective : Function.Injective key := by
  intro c c' h
  obtain ⟨x, y, z⟩ := c
  obtain ⟨x', y', z'⟩ := c'
  simp only [key, EmbeddingLike.apply_eq_iff_eq, Prod.mk.injEq] at h
  obtain ⟨rfl, rfl, rfl⟩ := h
  rfl

instance coordinateOrder : LinearOrder Coordinate := LinearOrder.lift' key key_injective

end Coordinate

section Model

variable (constants : Constants C E)

def Prefab.display (fab : Prefab C) : Text :=
  fab.path ++
    if fab.vars.entries = [] then []
    else " \x7b".toList ++
      List.intercalate "; ".toList (fab.vars.entries.map fun var => var.1 ++ " = ".toList ++ constants.display var.2) ++
      "\x7d".toList

def modelString (model : List (Prefab C)) : Text :=
  List.intercalate ",".toList (model.map (Prefab.display constants))

def cellModel (map : Map C) (key : Key) : Text :=
  match map.dictionary.get key with
  | some model => modelString constants model
  | none => "<missing dictionary key>".toList

-- A level lists its tiles from the top row, which has the highest coordinate.
def cellPairs (map : Map C) : List (Coordinate × Text) :=
  (List.range map.grid.dimZ).flatMap fun z => (List.range map.grid.dimY).flatMap fun y =>
    (List.range map.grid.dimX).map fun x =>
      (⟨x + 1, map.grid.dimY - y, z + 1⟩, cellModel constants map (map.grid.at z y x))

def cells (map : Map C) : FinMap Coordinate Text := (cellPairs constants map).foldl FinMap.insertPair .empty

end Model

structure CoordinateDifference where
  coordinate : Coordinate
  left : Option Text
  right : Option Text

structure MapDifference where
  coordinates : List CoordinateDifference
  leftDimensions : Nat × Nat × Nat
  rightDimensions : Nat × Nat × Nat
  truncated : Bool

-- The search stops at the first difference that does not fit any more.
def collect (limit : Nat) (left right : FinMap Coordinate Text) :
    List CoordinateDifference → List Coordinate → List CoordinateDifference × Bool
  | differences, [] => (differences, false)
  | differences, c :: rest =>
    if left.get c ≠ right.get c then
      if limit ≤ differences.length then (differences, true)
      else collect limit left right (differences ++ [⟨c, left.get c, right.get c⟩]) rest
    else collect limit left right differences rest

def Map.dimXyz (map : Map C) : Nat × Nat × Nat := (map.grid.dimX, map.grid.dimY, map.grid.dimZ)

def differences (constants : Constants C E) (left right : Map C) (limit : Nat) : MapDifference :=
  let leftCells := cells constants left
  let rightCells := cells constants right
  let found := collect limit leftCells rightCells [] (FinMap.sortKeys (leftCells.keys ∪ rightCells.keys))
  ⟨found.1, left.dimXyz, right.dimXyz, found.2⟩

def diffMaps (constants : Constants C E) (left right : Bytes) (limit : Nat) : Except (ReadError E) MapDifference := do
  let left ← parseMap constants left
  let right ← parseMap constants right
  pure (differences constants left right limit)

-- What a map has at a coordinate, on the map's own terms.
def tile (constants : Constants C E) (map : Map C) (c : Coordinate) : Option Text :=
  if (0 < c.x ∧ c.x ≤ map.grid.dimX) ∧ (0 < c.y ∧ c.y ≤ map.grid.dimY) ∧ (0 < c.z ∧ c.z ≤ map.grid.dimZ) then
    some (cellModel constants map (map.grid.at (c.z - 1) (map.grid.dimY - c.y) (c.x - 1)))
  else none

section Cells

variable {constants : Constants C E} {map : Map C} {c : Coordinate} {text : Text}

theorem mem_cellPairs : (c, text) ∈ cellPairs constants map ↔ tile constants map c = some text := by
  unfold tile cellPairs
  simp only [List.mem_flatMap, List.mem_range, List.mem_map]
  constructor
  · rintro ⟨z, hz, y, hy, x, hx, heq⟩
    obtain ⟨rfl, rfl⟩ := Prod.mk.inj heq
    have hback : map.grid.dimY - (map.grid.dimY - y) = y := by omega
    rw [if_pos ⟨⟨Nat.succ_pos x, hx⟩, ⟨Nat.sub_pos_of_lt hy, Nat.sub_le ..⟩, Nat.succ_pos z, hz⟩]
    simp only [Nat.add_sub_cancel, hback]
  · intro h
    obtain ⟨⟨⟨hx, hmaxX⟩, ⟨hy, hmaxY⟩, hz, hmaxZ⟩, htext⟩ := Option.ite_none_right_eq_some.mp h
    refine ⟨c.z - 1, by omega, map.grid.dimY - c.y, by omega, c.x - 1, by omega, ?_⟩
    refine Prod.ext ?_ (Option.some.inj htext)
    obtain ⟨x, y, z⟩ := c
    dsimp only at *
    congr 1 <;> omega

-- The cells of a map are its tiles.
theorem get_cells : (cells constants map).get c = tile constants map c := by
  cases htile : tile constants map c with
  | none =>
    by_contra hsome
    obtain ⟨text, htext⟩ := Option.ne_none_iff_exists'.mp hsome
    rcases FinMap.get_foldl_insertPair htext with hpair | hempty
    · rw [mem_cellPairs, htile] at hpair
      cases hpair
    · cases hempty
  | some text =>
    have hpair : (c, text) ∈ cellPairs constants map := mem_cellPairs.mpr htile
    have hkey : (cells constants map).get c ≠ none :=
      FinMap.get_foldl_insertPair_ne (m := .empty) (Or.inl (List.mem_map.mpr ⟨(c, text), hpair, rfl⟩))
    obtain ⟨text', htext'⟩ := Option.ne_none_iff_exists'.mp hkey
    rcases FinMap.get_foldl_insertPair htext' with hpair' | hempty
    · rw [mem_cellPairs, htile] at hpair'
      rw [htext', hpair']
    · cases hempty

end Cells

section Collect

variable {left right : FinMap Coordinate Text} {limit : Nat}

def differenceAt (left right : FinMap Coordinate Text) (c : Coordinate) : CoordinateDifference :=
  ⟨c, left.get c, right.get c⟩

-- By induction on the coordinates that are left, with what has been collected so far.
theorem collect_eq {cs : List Coordinate} {found : List CoordinateDifference} (hfound : found.length ≤ limit) :
    collect limit left right found cs =
      ((found ++ (cs.filter fun c => left.get c ≠ right.get c).map (differenceAt left right)).take limit,
        decide (limit <
          (found ++ (cs.filter fun c => left.get c ≠ right.get c).map (differenceAt left right)).length)) := by
  induction cs generalizing found with
  | nil =>
    simp only [collect, List.filter_nil, List.map_nil, List.append_nil]
    rw [List.take_of_length_le hfound, decide_eq_false (Nat.not_lt.mpr hfound)]
  | cons c cs ih =>
    rw [collect]
    by_cases hdiffer : left.get c ≠ right.get c
    · have hfilter : (c :: cs).filter (fun c => left.get c ≠ right.get c) =
          c :: cs.filter fun c => left.get c ≠ right.get c := List.filter_cons_of_pos (decide_eq_true hdiffer)
      rw [if_pos hdiffer, hfilter, List.map_cons]
      by_cases hfull : limit ≤ found.length
      · have hlength : found.length = limit := le_antisymm hfound hfull
        rw [if_pos hfull, ← hlength, List.take_left, decide_eq_true]
        rw [List.length_append, List.length_cons]
        omega
      · have hroom : (found ++ [differenceAt left right c]).length ≤ limit := by
          rw [List.length_append, List.length_singleton]
          omega
        rw [if_neg hfull]
        refine (ih hroom).trans ?_
        rw [List.append_assoc, List.singleton_append]
    · have hfilter : (c :: cs).filter (fun c => left.get c ≠ right.get c) =
          cs.filter fun c => left.get c ≠ right.get c := List.filter_cons_of_neg (by simpa using hdiffer)
      rw [if_neg hdiffer, ih hfound, hfilter]

end Collect

variable {constants : Constants C E} {left right : Map C} {limit : Nat}

def differing (constants : Constants C E) (left right : Map C) : List Coordinate :=
  (FinMap.sortKeys ((cells constants left).keys ∪ (cells constants right).keys)).filter fun c =>
    (cells constants left).get c ≠ (cells constants right).get c

theorem mem_differing {c : Coordinate} :
    c ∈ differing constants left right ↔ tile constants left c ≠ tile constants right c := by
  rw [differing, List.mem_filter, FinMap.mem_sortKeys, Finset.mem_union, FinMap.mem_keys, FinMap.mem_keys,
    decide_eq_true_iff, get_cells, get_cells, and_iff_right_iff_imp]
  intro hne
  by_contra hnone
  obtain ⟨hleft, hright⟩ := not_or.mp hnone
  rw [not_not] at hleft hright
  exact hne (hleft.trans hright.symm)

theorem differences_eq : (differences constants left right limit).coordinates =
      ((differing constants left right).map (differenceAt (cells constants left) (cells constants right))).take limit ∧
    ((differences constants left right limit).truncated = true ↔ limit < (differing constants left right).length) := by
  unfold differences
  dsimp only
  rw [collect_eq (Nat.zero_le limit), List.nil_append]
  refine ⟨rfl, ?_⟩
  rw [decide_eq_true_iff, List.length_map]
  rfl

-- What a comparison of two maps says about them.
structure Compared (left right : Coordinate → Option Text) (limit : Nat) (difference : MapDifference) : Prop where
  length_le : difference.coordinates.length ≤ limit
  ordered : difference.coordinates.Pairwise fun d d' => d.coordinate < d'.coordinate
  sound : ∀ d ∈ difference.coordinates,
    d.left = left d.coordinate ∧ d.right = right d.coordinate ∧ d.left ≠ d.right
  complete : ∀ c, left c ≠ right c → c ∈ difference.coordinates.map CoordinateDifference.coordinate ∨
    difference.truncated = true ∧ difference.coordinates.length = limit ∧ ∀ d ∈ difference.coordinates, d.coordinate < c
  truncated : difference.truncated = true ↔
    ∃ c, left c ≠ right c ∧ c ∉ difference.coordinates.map CoordinateDifference.coordinate

theorem differences_compared :
    Compared (tile constants left) (tile constants right) limit (differences constants left right limit) := by
  obtain ⟨hcoordinates, htruncated⟩ : (differences constants left right limit).coordinates =
      ((differing constants left right).map (differenceAt (cells constants left) (cells constants right))).take limit ∧
    ((differences constants left right limit).truncated = true ↔ limit < (differing constants left right).length) :=
    differences_eq
  have hsorted : (differing constants left right).Pairwise (· < ·) := (FinMap.sortKeys_pairwise _).filter _
  have hlisted : (differences constants left right limit).coordinates.map CoordinateDifference.coordinate =
      (differing constants left right).take limit := by
    rw [hcoordinates, List.map_take, List.map_map]
    exact congrArg _ (List.map_id _)
  have hlength : (differences constants left right limit).coordinates.length =
      ((differing constants left right).take limit).length := by
    rw [← hlisted, List.length_map]
  have hdropped : ∀ c ∈ (differing constants left right).drop limit,
      limit < (differing constants left right).length ∧ ∀ c' ∈ (differing constants left right).take limit, c' < c := by
    intro c hc
    refine ⟨?_, fun c' hc' => ?_⟩
    · by_contra hshort
      rw [List.drop_eq_nil_of_le (Nat.not_lt.mp hshort)] at hc
      exact List.not_mem_nil hc
    · rw [← List.take_append_drop limit (differing constants left right)] at hsorted
      exact (List.pairwise_append.mp hsorted).2.2 c' hc' c hc
  have hcomplete : ∀ c, tile constants left c ≠ tile constants right c →
      c ∈ (differing constants left right).take limit ∨ c ∈ (differing constants left right).drop limit := by
    intro c hc
    have hin := mem_differing.mpr hc
    rw [← List.take_append_drop limit (differing constants left right)] at hin
    exact List.mem_append.mp hin
  refine ⟨?_, ?_, ?_, ?_, ?_⟩
  · rw [hlength]
    exact List.length_take_le ..
  · rw [← List.pairwise_map, hlisted]
    exact hsorted.take
  · intro d hd
    rw [hcoordinates] at hd
    obtain ⟨c, hc, rfl⟩ := List.mem_map.mp (List.mem_of_mem_take hd)
    rw [differenceAt, get_cells, get_cells]
    exact ⟨rfl, rfl, mem_differing.mp hc⟩
  · intro c hc
    rw [hlisted]
    refine (hcomplete c hc).imp_right fun hlater => ?_
    obtain ⟨hlong, hbefore⟩ := hdropped c hlater
    refine ⟨htruncated.mpr hlong, ?_, fun d hd => hbefore d.coordinate ?_⟩
    · rw [hlength, List.length_take_of_le hlong.le]
    · rw [← hlisted]
      exact List.mem_map.mpr ⟨d, hd, rfl⟩
  · rw [hlisted, htruncated]
    constructor
    · intro hlong
      obtain ⟨c, hc⟩ : ∃ c, c ∈ (differing constants left right).drop limit :=
        ⟨_, List.getElem_mem (n := 0) (by rw [List.length_drop]; omega)⟩
      refine ⟨c, mem_differing.mp (List.mem_of_mem_drop hc), fun htaken => ?_⟩
      exact absurd ((hdropped c hc).2 c htaken) (lt_irrefl c)
    · rintro ⟨c, hc, hnot⟩
      exact (hdropped c ((hcomplete c hc).resolve_left hnot)).1

theorem diffMaps_compared {leftFile rightFile : Bytes} {difference : MapDifference}
    (h : diffMaps constants leftFile rightFile limit = .ok difference) :
    ∃ left right, parseMap constants leftFile = .ok left ∧ parseMap constants rightFile = .ok right ∧
      difference.leftDimensions = left.dimXyz ∧ difference.rightDimensions = right.dimXyz ∧
      Compared (tile constants left) (tile constants right) limit difference := by
  obtain ⟨left, hleft, h⟩ := bind_ok h
  obtain ⟨right, hright, h⟩ := bind_ok h
  cases h
  exact ⟨left, right, hleft, hright, rfl, rfl, differences_compared⟩

def oneTile : Bytes := utf8 "\"a\" = (/turf)\n(1,1,1) = \x7b\"\na\n\"\x7d\n".toList

def otherTile : Bytes := utf8 "\"a\" = (/turf/floor)\n(1,1,1) = \x7b\"\na\n\"\x7d\n".toList

theorem diffMaps_compared_tiles : ∃ difference left right, diffMaps pathOnly oneTile otherTile 5 = .ok difference ∧
    difference.coordinates.length = 1 ∧ Compared (tile pathOnly left) (tile pathOnly right) 5 difference := by
  have hone : (diffMaps pathOnly oneTile otherTile 5).map (fun difference => difference.coordinates.length) = .ok 1 := by
    decide +kernel
  obtain ⟨difference, hdifference, hlength⟩ := map_ok hone
  obtain ⟨left, right, -, -, -, -, hcompared⟩ := diffMaps_compared hdifference
  exact ⟨difference, left, right, hdifference, hlength, hcompared⟩

end Dmm

namespace Dmm

open MeridianMcp Effects Fallible Tally

variable {C E : Type}

inductive DmmError (E : Type) where
  | parse (e : ReadError E)
  | io
  deriving DecidableEq

structure MapBounds where
  min : Nat × Nat × Nat
  max : Nat × Nat × Nat

structure MapProfile where
  format : Text
  dimensions : Nat × Nat × Nat
  bounds : MapBounds
  dictionaryEntries : Nat
  uniqueModels : Nat
  modelUseCounts : List (Text × Nat)
  warnings : List Text

def readToString (file : Bytes) : Option Text := file.toByteArray.utf8Decode?.map Array.toList

def formatOf (content : Text) : Text :=
  if "//MAP CONVERTED BY dmm2tgm.py".toList <:+: content then "TGM".toList else "DMM".toList

def Grid.tiles (grid : Grid) : List Key :=
  (List.range grid.dimZ).flatMap fun z => (List.range grid.dimY).flatMap fun y =>
    (List.range grid.dimX).map fun x => grid.at z y x

section Profile

variable (constants : Constants C E)

def models (map : Map C) : List Text :=
  map.grid.tiles.filterMap fun key => (map.dictionary.get key).map (modelString constants)

def profileOf (map : Map C) (content : Text) (limit : Nat) : MapProfile :=
  let counts := (tally (models constants map)).entries
  { format := formatOf content
    dimensions := map.dimXyz
    bounds := ⟨(1, 1, 1), map.dimXyz⟩
    dictionaryEntries := map.dictionary.keys.card
    uniqueModels := counts.length
    modelUseCounts := top limit counts
    warnings := [] }

def profileMap (file : Bytes) (limit : Nat) : Except (DmmError E) MapProfile := do
  let map ← (parseMap constants file).mapError .parse
  match readToString file with
  | none => .error .io
  | some content => .ok (profileOf constants map content limit)

-- The entries of a hash map come in some order.
structure HashOrder where
  entries : FinMap Text Nat → List (Text × Nat)
  perm : ∀ counts, (entries counts).Perm counts.entries

inductive InfoError (E : Type) where
  | dmm (e : DmmError E)
  | missingDictionaryKey
  deriving DecidableEq

def baseType (fab : Prefab C) : Option Text :=
  ((fab.path.splitOn '/')[1]?.filter fun segment => segment ≠ []).map fun segment => '/' :: segment

def areaPath (fab : Prefab C) : Option Text :=
  if fab.path = "/area".toList ∨ "/area/".toList <+: fab.path then some fab.path else none

structure MapInfo where
  format : Text
  dimensions : Nat × Nat × Nat
  uniqueTiles : Nat
  fileSizeBytes : Nat
  topTypes : List (Text × Nat)
  topAreas : List (Text × Nat)
  profile : MapProfile

def prefabsAt (map : Map C) (key : Key) : Except (InfoError E) (List (Prefab C)) :=
  match map.dictionary.get key with
  | some prefabs => .ok prefabs
  | none => .error .missingDictionaryKey

def standing (map : Map C) : Except (InfoError E) (List (Prefab C)) :=
  (map.grid.tiles.mapM (prefabsAt map)).map List.flatten

def mapInfo (order : HashOrder) (file : Bytes) : Except (InfoError E) MapInfo := do
  let map ← (parseMap constants file).mapError fun e => .dmm (.parse e)
  let prefabs ← standing map
  match readToString file with
  | none => .error (.dmm .io)
  | some content => do
    let profile ← (profileMap constants file 10000).mapError .dmm
    pure
      { format := formatOf content
        dimensions := map.dimXyz
        uniqueTiles := map.dictionary.keys.card
        fileSizeBytes := file.length
        topTypes := top 20 (order.entries (tally (prefabs.filterMap baseType)))
        topAreas := top 20 (order.entries (tally (prefabs.filterMap areaPath)))
        profile := profile }

end Profile

theorem HashOrder.counted (order : HashOrder) (names : List Text) : Entries names (order.entries (tally names)) where
  nodup := (order.perm _).nodup_iff.mpr (entries_tally names).nodup
  mem entry := (order.perm _).mem_iff.trans ((entries_tally names).mem entry)

theorem length_tiles (grid : Grid) : grid.tiles.length = grid.dimZ * (grid.dimY * grid.dimX) := by
  unfold Grid.tiles
  simp only [List.length_flatMap, List.length_map, List.length_range, List.map_const', List.sum_replicate_nat]

variable {constants : Constants C E} {map : Map C} {order : HashOrder} {file : Bytes}

-- Everything that stands on a map, tile by tile.
def allPrefabs (map : Map C) : List (Prefab C) := map.grid.tiles.flatMap fun key => (map.dictionary.get key).getD []

theorem standing_ok {prefabs : List (Prefab C)}
    (h : (standing map : Except (InfoError E) (List (Prefab C))) = .ok prefabs) :
    (∀ key ∈ map.grid.tiles, map.dictionary.get key ≠ none) ∧ prefabs = allPrefabs map := by
  obtain ⟨found, hfound, rfl⟩ := map_ok h
  have hall := forall₂_of_mapM_ok hfound
  have hat : ∀ key prefabs, (prefabsAt map key : Except (InfoError E) (List (Prefab C))) = .ok prefabs →
      map.dictionary.get key = some prefabs := by
    intro key prefabs hat
    unfold prefabsAt at hat
    split at hat
    · rename_i hget
      cases hat
      exact hget
    · cases hat
  constructor
  · intro key hkey hnone
    obtain ⟨prefabs, -, hprefabs⟩ := exists_of_mem_left hall hkey
    rw [hat key prefabs hprefabs] at hnone
    cases hnone
  · have hsame : found.map id = map.grid.tiles.map fun key => (map.dictionary.get key).getD [] :=
      map_eq_of_forall₂ hall fun key prefabs hprefabs => by rw [hat key prefabs hprefabs]; rfl
    rw [List.map_id] at hsame
    rw [hsame]
    rfl

theorem length_models (h : ∀ key ∈ map.grid.tiles, map.dictionary.get key ≠ none) :
    (models constants map).length = map.grid.dimZ * (map.grid.dimY * map.grid.dimX) := by
  rw [← length_tiles, models, List.length_filterMap_eq_countP, List.countP_eq_length]
  intro key hkey
  obtain ⟨model, hmodel⟩ := Option.ne_none_iff_exists'.mp (h key hkey)
  rw [hmodel]
  rfl

-- What the information on a map says about it.
structure Informed (constants : Constants C E) (map : Map C) (info : MapInfo) : Prop where
  dimensions : info.dimensions = map.dimXyz ∧ info.profile.dimensions = map.dimXyz
  known : ∀ key ∈ map.grid.tiles, map.dictionary.get key ≠ none
  types : Ranking ((allPrefabs map).filterMap baseType) 20 info.topTypes
  areas : Ranking ((allPrefabs map).filterMap areaPath) 20 info.topAreas
  models : Ranking (models constants map) 10000 info.profile.modelUseCounts
  unique : info.profile.uniqueModels = (Dmm.models constants map).dedup.length
  total : info.profile.uniqueModels ≤ 10000 →
    (info.profile.modelUseCounts.map Prod.snd).sum = map.grid.dimZ * (map.grid.dimY * map.grid.dimX)

theorem mapInfo_ok {info : MapInfo} (h : mapInfo constants order file = .ok info) :
    ∃ map, parseMap constants file = .ok map ∧ Informed constants map info := by
  obtain ⟨map, hmap, h⟩ := bind_ok h
  obtain ⟨prefabs, hprefabs, h⟩ := bind_ok h
  have hparsed := mapError_ok hmap
  obtain ⟨hknown, rfl⟩ := standing_ok hprefabs
  split at h
  · cases h
  · rename_i content hcontent
    obtain ⟨profile, hprofile, h⟩ := bind_ok h
    have hprofiled := mapError_ok hprofile
    obtain ⟨map', hmap', hprofiled⟩ := bind_ok hprofiled
    rw [hparsed] at hmap'
    obtain rfl := Except.ok.inj hmap'
    rw [hcontent] at hprofiled
    obtain rfl := Except.ok.inj hprofiled
    obtain rfl := Except.ok.inj h
    have hmodels : Entries (models constants map) (tally (models constants map)).entries := entries_tally _
    refine ⟨map, hparsed, ⟨rfl, rfl⟩, hknown, (order.counted _).ranking, (order.counted _).ranking, hmodels.ranking,
      hmodels.length, fun hall => ?_⟩
    rw [← length_models hknown]
    exact hmodels.sum_top hall

-- The order in which a hash map lists its entries leaves no trace.
theorem mapInfo_order (order' : HashOrder) : mapInfo constants order' file = mapInfo constants order file := by
  have htop : ∀ names, top 20 (order'.entries (tally names)) = top 20 (order.entries (tally names)) := fun names =>
    (order'.counted names).top_eq (order.counted names)
  unfold mapInfo
  simp only [htop]

theorem mapInfo_informed {info : MapInfo} (h : mapInfo constants order file = .ok info) :
    (∃ map, parseMap constants file = .ok map ∧ Informed constants map info) ∧
      ∀ order', mapInfo constants order' file = .ok info :=
  ⟨mapInfo_ok h, fun order' => (mapInfo_order order').trans h⟩

def sorted : HashOrder := ⟨FinMap.entries, fun _ => .refl _⟩

theorem mapInfo_informed_twoTiles : ∃ info map, mapInfo pathOnly sorted twoTiles = .ok info ∧
    parseMap pathOnly twoTiles = .ok map ∧ Informed pathOnly map info ∧
      info.topTypes = [("/area".toList, 2), ("/turf".toList, 2)] := by
  have htypes : (mapInfo pathOnly sorted twoTiles).map MapInfo.topTypes =
      .ok [("/area".toList, 2), ("/turf".toList, 2)] := by
    decide +kernel
  obtain ⟨info, hinfo, hrows⟩ := map_ok htypes
  obtain ⟨⟨map, hmap, hinformed⟩, -⟩ := mapInfo_informed hinfo
  exact ⟨info, map, hinfo, hmap, hinformed, hrows⟩

end Dmm
