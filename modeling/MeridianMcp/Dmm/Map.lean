import Mathlib.Data.Fin.Basic
import Mathlib.Data.List.DropRight
import MeridianMcp.Effects.FileSystem
import MeridianMcp.Effects.FinMap
import MeridianMcp.Scanning
import MeridianMcp.Utf8

namespace Dmm

open MeridianMcp Effects

-- A map that keeps its keys in the order in which they came.
structure IndexMap (K V : Type) [DecidableEq K] where
  entries : List (K × V)
  nodup : (entries.map Prod.fst).Nodup

section IndexMap

variable {K V : Type} [DecidableEq K]

def IndexMap.empty : IndexMap K V := ⟨[], List.nodup_nil⟩

def replaced (k : K) (v : V) (entry : K × V) : K × V := if entry.1 = k then (k, v) else entry

theorem replaced_fst (k : K) (v : V) (entry : K × V) : (replaced k v entry).1 = entry.1 := by
  unfold replaced
  split
  · rename_i h
    exact h.symm
  · rfl

def IndexMap.insert (m : IndexMap K V) (k : K) (v : V) : IndexMap K V :=
  if h : k ∈ m.entries.map Prod.fst then
    ⟨m.entries.map (replaced k v), by
      rw [List.map_map, show Prod.fst ∘ replaced k v = Prod.fst from funext (replaced_fst k v)]
      exact m.nodup⟩
  else
    ⟨m.entries ++ [(k, v)], by
      rw [List.map_append]
      exact m.nodup.append (List.nodup_singleton k) (by simpa using h)⟩

theorem IndexMap.insert_new {m : IndexMap K V} {k : K} (h : k ∉ m.entries.map Prod.fst) (v : V) :
    (m.insert k v).entries = m.entries ++ [(k, v)] := by
  rw [insert, dif_neg h]

theorem IndexMap.ext_entries {m m' : IndexMap K V} (h : m.entries = m'.entries) : m = m' := by
  obtain ⟨entries, hnodup⟩ := m
  obtain rfl : entries = m'.entries := h
  rfl

end IndexMap

def maxKeyLength : Nat := 3

def usizeBound : Nat := 2 ^ 64

abbrev Key := Fin 65536

def base52 : Bytes := utf8 "abcdefghijklmnopqrstuvwxyzABCDEFGHIJKLMNOPQRSTUVWXYZ".toList

def base52Reverse (ch : UInt8) : Option Nat :=
  if 'a'.toUInt8 ≤ ch ∧ ch ≤ 'z'.toUInt8 then some (ch.toNat - 'a'.toNat)
  else if 'A'.toUInt8 ≤ ch ∧ ch ≤ 'Z'.toUInt8 then some (26 + ch.toNat - 'A'.toNat)
  else none

def advanceKey (current : Key) (nextDigit : Nat) : Option Key :=
  if h : current.val * 52 + nextDigit < 65536 then some ⟨current.val * 52 + nextDigit, h⟩ else none

namespace Key

def first : Key := 0

def digits (key : Key) : Nat → Nat → Bytes
  | 0, _ => []
  | length + 1, current => base52.getD (key.val / current % 52) 0 :: digits key length (current / 52)

-- Without a result the formatting panics.
def display (key : Key) (keyLength : Nat) : Option Bytes :=
  if keyLength = 0 ∨ usizeBound ≤ 52 ^ (keyLength - 1) then none
  else if keyLength < maxKeyLength ∧ 52 ^ keyLength ≤ key.val then none
  else some (key.digits keyLength (52 ^ (keyLength - 1)))

end Key

theorem base52_reverse_digit : ∀ digit < 52, base52Reverse (base52.getD digit 0) = some digit := by
  decide +kernel

-- What has been read of a key after some of its digits is the key without the others.
theorem advanceKey_digit (key : Key) (current : Nat) {before : Key}
    (hbefore : before.val = key.val / (current * 52)) :
    ∃ after : Key, advanceKey before (key.val / current % 52) = some after ∧ after.val = key.val / current := by
  have hvalue : before.val * 52 + key.val / current % 52 = key.val / current := by
    rw [hbefore, ← Nat.div_div_eq_div_mul]
    exact Nat.div_add_mod' (key.val / current) 52
  have hsmall : key.val / current < 65536 := (Nat.div_le_self _ _).trans_lt key.isLt
  refine ⟨⟨key.val / current, hsmall⟩, ?_, rfl⟩
  unfold advanceKey
  simp only [hvalue, hsmall, dif_pos]

-- What the parser needs of the constants: their text, and what it is read as.
structure Constants (C E : Type) where
  display : C → Text
  evaluateStr : Bytes → Except E C

structure Prefab (C : Type) where
  path : Text
  vars : IndexMap Text C

structure Grid where
  dimZ : Nat
  dimY : Nat
  dimX : Nat
  cell : Fin dimZ → Fin dimY → Fin dimX → Key

def Grid.fromShapeFn (dimZ dimY dimX : Nat) (f : Nat → Nat → Nat → Key) : Grid :=
  ⟨dimZ, dimY, dimX, fun z y x => f z y x⟩

structure Map (C : Type) where
  keyLength : Nat
  dictionary : FinMap Key (List (Prefab C))
  grid : Grid

open MeridianMcp Effects Scanning

variable {C E : Type}

-- An overflow counts as a panic, as in a build that checks for it. The note of a constant's
-- error shows the key.
inductive ReadError (E : Type) where
  | notBase52 (ch : UInt8)
  | keyOverflow
  | constant (e : E) (withinKey : Bytes)
  | coordinates
  | badDigit (ch : UInt8)
  | multipleEntries (x y z : Nat)
  | noValue (x y z : Nat)
  | panicked
  deriving DecidableEq

def fromUtf8OrLatin1 (bytes : Bytes) : Text :=
  match bytes.toByteArray.utf8Decode? with
  | some text => text.toList
  | none => bytes.map fun byte => Char.ofNat byte.toNat

theorem fromUtf8OrLatin1_utf8 (text : Text) : fromUtf8OrLatin1 (utf8 text) = text := by
  have hdecoded : (utf8 text).toByteArray.utf8Decode? = some text.toArray := List.utf8Decode?_utf8Encode
  rw [fromUtf8OrLatin1, hdecoded]

-- The white space among the characters with the codes of a byte.
def isWhitespace (byte : UInt8) : Bool :=
  (9 ≤ byte && byte ≤ 13) || byte = 32 || byte = 0x85 || byte = 0xa0

def emptyPrefab : Prefab C := ⟨[], .empty⟩

-- The dictionary is read up to the parenthesis that opens the first coordinates.
structure DictionaryState (C : Type) where
  inCommentLine : Bool
  commentTrigger : Bool
  currData : List (Prefab C)
  currPrefab : Prefab C
  currVar : Bytes
  currDatum : Bytes
  currKey : Key
  currKeyLength : Nat
  inQuoteBlock : Bool
  inKeyBlock : Bool
  inDataBlock : Bool
  inVareditBlock : Bool
  afterDataBlock : Bool
  escaping : Bool
  skipWhitespace : Bool
  keyLength : Nat
  dictionary : FinMap Key (List (Prefab C))

namespace DictionaryState

def new (C : Type) : DictionaryState C where
  inCommentLine := false
  commentTrigger := false
  currData := []
  currPrefab := emptyPrefab
  currVar := []
  currDatum := []
  currKey := .first
  currKeyLength := 0
  inQuoteBlock := false
  inKeyBlock := false
  inDataBlock := false
  inVareditBlock := false
  afterDataBlock := false
  escaping := false
  skipWhitespace := false
  keyLength := 0
  dictionary := .empty

def insertCurrentVar (constants : Constants C E) (s : DictionaryState C) : Except (ReadError E) (DictionaryState C) :=
  match constants.evaluateStr s.currDatum with
  | .error e =>
    match s.currKey.display s.currKeyLength with
    | none => .error .panicked
    | some key => .error (.constant e key)
  | .ok value => .ok { s with
      currPrefab.vars := s.currPrefab.vars.insert (fromUtf8OrLatin1 s.currVar) value
      currVar := []
      currDatum := [] }

def push (s : DictionaryState C) (ch : UInt8) : DictionaryState C := { s with currDatum := s.currDatum ++ [ch] }

def inQuote (s : DictionaryState C) (ch : UInt8) : DictionaryState C :=
  if ch = '\\'.toUInt8 then { s.push ch with escaping := true }
  else if s.escaping then { s.push ch with escaping := false }
  else if ch = '"'.toUInt8 then { s.push ch with inQuoteBlock := false }
  else s.push ch

def inVaredit (constants : Constants C E) (s : DictionaryState C) (ch : UInt8) :
    Except (ReadError E) (DictionaryState C) :=
  if s.skipWhitespace ∧ ch = ' '.toUInt8 then .ok { s with skipWhitespace := false }
  else
    let s := { s with skipWhitespace := false }
    if ch = '"'.toUInt8 then .ok { s.push ch with inQuoteBlock := true }
    else if ch = '='.toUInt8 ∧ s.currVar = [] then
      .ok { s with currVar := s.currDatum.rdropWhile isWhitespace, currDatum := [], skipWhitespace := true }
    else if ch = ';'.toUInt8 then do
      let s ← s.insertCurrentVar constants
      .ok { s with skipWhitespace := true }
    else if ch = '}'.toUInt8 then do
      let s ← if s.currVar ≠ [] then s.insertCurrentVar constants else .ok s
      .ok { s with inVareditBlock := false }
    else .ok (s.push ch)

-- The prefab is complete; without a variable block its path is what was read since the last one.
def pushPrefab (s : DictionaryState C) : DictionaryState C :=
  let s := if s.currPrefab.path = [] ∧ s.currDatum ≠ [] then
      { s with currPrefab.path := fromUtf8OrLatin1 s.currDatum, currDatum := [] }
    else s
  { s with currData := s.currData ++ [s.currPrefab], currPrefab := emptyPrefab }

def inData (constants : Constants C E) (s : DictionaryState C) (ch : UInt8) :
    Except (ReadError E) (DictionaryState C) :=
  if s.inVareditBlock then
    if s.inQuoteBlock then .ok (s.inQuote ch) else s.inVaredit constants ch
  else if ch = '{'.toUInt8 then
    .ok { s with
      currPrefab.path := fromUtf8OrLatin1 s.currDatum
      currDatum := []
      inVareditBlock := true }
  else if ch = ','.toUInt8 then .ok s.pushPrefab
  else if ch = ')'.toUInt8 then
    let s := s.pushPrefab
    .ok { s with
      dictionary := s.dictionary.insert s.currKey s.currData
      currKey := .first
      currData := []
      currKeyLength := 0
      inDataBlock := false
      afterDataBlock := true }
  else .ok (s.push ch)

def inKey (s : DictionaryState C) (ch : UInt8) : Except (ReadError E) (DictionaryState C) :=
  if ch = '"'.toUInt8 then
    if s.keyLength = 0 ∨ s.keyLength = s.currKeyLength then
      .ok { s with inKeyBlock := false, keyLength := s.currKeyLength }
    else .error .panicked
  else
    match base52Reverse ch with
    | none => .error (.notBase52 ch)
    | some digit =>
      match advanceKey s.currKey digit with
      | none => .error .keyOverflow
      | some key =>
        if s.currKeyLength + 1 < 256 then .ok { s with currKey := key, currKeyLength := s.currKeyLength + 1 }
        else .error .panicked

def block (constants : Constants C E) (s : DictionaryState C) (ch : UInt8) :
    Except (ReadError E) (Next (DictionaryState C)) :=
  if s.inDataBlock then (s.inData constants ch).map .going
  else if s.inKeyBlock then (s.inKey ch).map .going
  else if ch = '"'.toUInt8 then .ok (.going { s with inKeyBlock := true, afterDataBlock := false })
  else if ch = '('.toUInt8 then
    if s.afterDataBlock then .ok (.stopped { s with currKey := .first, currKeyLength := 0 })
    else .ok (.going { s with inDataBlock := true, afterDataBlock := false })
  else .ok (.going s)

def step (constants : Constants C E) (s : DictionaryState C) (ch : UInt8) :
    Except (ReadError E) (Next (DictionaryState C)) :=
  if ch = '\n'.toUInt8 ∨ ch = '\r'.toUInt8 then
    .ok (.going { s with inCommentLine := false, commentTrigger := false })
  else if s.inCommentLine then .ok (.going s)
  else if ch = '\t'.toUInt8 then .ok (.going s)
  else if ch = '/'.toUInt8 ∧ s.inQuoteBlock = false then
    if s.commentTrigger then .ok (.going { s with inCommentLine := true })
    else block constants { s with commentTrigger := true } ch
  else block constants { s with commentTrigger := false } ch

end DictionaryState

inductive Coord where
  | x | y | z
  deriving DecidableEq

abbrev Cells := Nat × Nat × Nat → Option Key

structure GridState where
  grid : Cells
  readingCoord : Coord
  currX : Nat
  currY : Nat
  currZ : Nat
  maxX : Nat
  maxY : Nat
  maxZ : Nat
  currNum : Nat
  baseX : Nat
  inCoordBlock : Bool
  inMapString : Bool
  adjustY : Bool
  currKey : Key
  currKeyLength : Nat

namespace GridState

def new : GridState where
  grid _ := none
  readingCoord := .x
  currX := 0
  currY := 0
  currZ := 0
  maxX := 0
  maxY := 0
  maxZ := 0
  currNum := 0
  baseX := 0
  inCoordBlock := true
  inMapString := false
  adjustY := true
  currKey := .first
  currKeyLength := 0

def toDigit (ch : UInt8) : Option Nat :=
  if '0'.toUInt8 ≤ ch ∧ ch ≤ '9'.toUInt8 then some (ch.toNat - '0'.toNat) else none

def inCoords (s : GridState) (ch : UInt8) : Except (ReadError E) GridState :=
  if ch = ','.toUInt8 then
    match s.readingCoord with
    | .x => .ok { s with
        currX := s.currNum
        currNum := 0
        maxX := max s.maxX s.currNum
        baseX := s.currNum
        readingCoord := .y }
    | .y => .ok { s with
        currY := s.currNum
        currNum := 0
        maxY := max s.maxY s.currNum
        readingCoord := .z }
    | .z => .error .coordinates
  else if ch = ')'.toUInt8 then
    match s.readingCoord with
    | .z => .ok { s with
        currZ := s.currNum
        currNum := 0
        maxZ := max s.maxZ s.currNum
        inCoordBlock := false
        readingCoord := .x }
    | .x | .y => .error .panicked
  else
    match toDigit ch with
    | none => .error (.badDigit ch)
    | some digit =>
      if 10 * s.currNum + digit < usizeBound then .ok { s with currNum := 10 * s.currNum + digit }
      else .error .panicked

-- A tile is complete as soon as its key has the length that the keys of the dictionary have.
def placeKey (keyLength : Nat) (s : GridState) : Except (ReadError E) GridState :=
  if s.currKeyLength = keyLength then
    match s.grid (s.currX, s.currY, s.currZ) with
    | some _ => .error (.multipleEntries s.currX s.currY s.currZ)
    | none =>
      if s.currX + 1 < usizeBound then
        .ok { s with
          grid := Function.update s.grid (s.currX, s.currY, s.currZ) (some s.currKey)
          currKey := .first
          currKeyLength := 0
          maxX := max s.maxX s.currX
          currX := s.currX + 1 }
      else .error .panicked
  else .ok s

def inString (keyLength : Nat) (s : GridState) (ch : UInt8) : Except (ReadError E) GridState :=
  if ch = '"'.toUInt8 then
    if s.currY = 0 then .error .panicked
    else .ok { s with inMapString := false, adjustY := true, currY := s.currY - 1 }
  else if ch = '\r'.toUInt8 then .ok s
  else if ch = '\n'.toUInt8 then
    if s.adjustY then .ok { s with adjustY := false, currX := s.baseX }
    else if s.currY + 1 < usizeBound then .ok { s with currY := s.currY + 1, currX := s.baseX }
    else .error .panicked
  else
    match base52Reverse ch with
    | none => .error (.notBase52 ch)
    | some digit =>
      match advanceKey s.currKey digit with
      | none => .error .keyOverflow
      | some key =>
        if s.currKeyLength + 1 < 256 then
          placeKey keyLength { s with currKey := key, currKeyLength := s.currKeyLength + 1 }
        else .error .panicked

def step (keyLength : Nat) (s : GridState) (ch : UInt8) : Except (ReadError E) (Next GridState) :=
  if s.inCoordBlock then (s.inCoords ch).map .going
  else if s.inMapString then (s.inString keyLength ch).map .going
  else if ch = '('.toUInt8 then .ok (.going { s with inCoordBlock := true })
  else if ch = '"'.toUInt8 then .ok (.going { s with inMapString := true })
  else .ok (.going s)

end GridState

def coordinates (dimZ dimY dimX : Nat) : List (Nat × Nat × Nat) :=
  (List.range dimZ).flatMap fun z => (List.range dimY).flatMap fun y => (List.range dimX).map fun x =>
    (x + 1, y + 1, z + 1)

-- The error is that of the last tile without a value.
def gridOf (cells : Cells) (dimZ dimY dimX : Nat) : Except (ReadError E) Grid :=
  match ((coordinates dimZ dimY dimX).filter fun c => (cells c).isNone).getLast? with
  | some (x, y, z) => .error (.noValue x y z)
  | none => .ok (.fromShapeFn dimZ dimY dimX fun z y x => (cells (x + 1, y + 1, z + 1)).getD .first)

def byteOrderMark : Bytes := [0xef, 0xbb, 0xbf]

def parseMap (constants : Constants C E) (file : Bytes) : Except (ReadError E) (Map C) := do
  let file := if byteOrderMark <+: file then file.drop 3 else file
  let (read, rest) ← scan (DictionaryState.step constants) (.new C) file
  let (placed, _) ← scan (GridState.step read.keyLength) .new rest
  let grid ← gridOf placed.grid placed.maxZ (max placed.maxY placed.currY) placed.maxX
  pure ⟨read.keyLength, read.dictionary, grid⟩

section Save

variable (constants : Constants C E)

def tgmHeader : Text :=
  "//MAP CONVERTED BY dmm2tgm.py THIS HEADER COMMENT PREVENTS RECONVERSION, DO NOT REMOVE".toList

def saveVars : List (Text × C) → Bytes
  | [] => []
  | [var] => utf8 ['\n', '\t'] ++ utf8 var.1 ++ utf8 [' ', '=', ' '] ++ utf8 (constants.display var.2)
  | var :: vars =>
    utf8 ['\n', '\t'] ++ utf8 var.1 ++ utf8 [' ', '=', ' '] ++ utf8 (constants.display var.2) ++ utf8 [';'] ++
      saveVars vars

def savePrefab (fab : Prefab C) : Bytes :=
  utf8 fab.path ++
    if fab.vars.entries = [] then []
    else utf8 ['{'] ++ saveVars constants fab.vars.entries ++ utf8 ['\n', '\t', '}']

def savePrefabs : List (Prefab C) → Bytes
  | [] => []
  | [fab] => savePrefab constants fab
  | fab :: prefabs => savePrefab constants fab ++ utf8 [',', '\n'] ++ savePrefabs prefabs

def saveEntry (keyLength : Nat) (entry : Key × List (Prefab C)) : Option Bytes :=
  (entry.1.display keyLength).map fun key =>
    utf8 ['"'] ++ key ++ utf8 ['"', ' ', '=', ' ', '(', '\n'] ++ savePrefabs constants entry.2 ++ utf8 [')', '\n']

def Grid.at (grid : Grid) (z y x : Nat) : Key :=
  if h : z < grid.dimZ ∧ y < grid.dimY ∧ x < grid.dimX then grid.cell ⟨z, h.1⟩ ⟨y, h.2.1⟩ ⟨x, h.2.2⟩ else .first

def decimal (n : Nat) : Bytes := utf8 (Nat.toDigits 10 n)

def saveColumn (keyLength : Nat) (grid : Grid) (z x : Nat) : Option Bytes :=
  ((List.range grid.dimY).mapM fun y => (grid.at z y x).display keyLength).map fun keys =>
    utf8 ['('] ++ decimal (x + 1) ++ utf8 [',', '1', ','] ++ decimal (z + 1) ++
      utf8 [')', ' ', '=', ' ', '{', '"', '\n'] ++ (keys.flatMap fun key => key ++ utf8 ['\n']) ++
      utf8 ['"', '}', '\n']

def saveLevel (keyLength : Nat) (grid : Grid) (z : Nat) : Option Bytes :=
  ((List.range grid.dimX).mapM (saveColumn keyLength grid z)).map fun columns => utf8 ['\n'] ++ columns.flatten

-- Writing panics on a key that does not fit the length of the keys.
def saveTgm (map : Map C) : Option Bytes := do
  let entries ← map.dictionary.entries.mapM (saveEntry constants map.keyLength)
  let levels ← (List.range map.grid.dimZ).mapM (saveLevel map.keyLength map.grid)
  pure (utf8 tgmHeader ++ utf8 ['\n'] ++ entries.flatten ++ levels.flatten)

end Save

-- The reader takes two slashes for the start of a comment.
def Uncommented : Bool → Bytes → Prop
  | _, [] => True
  | slash, ch :: bytes => ¬ (ch = '/'.toUInt8 ∧ slash = true) ∧ Uncommented (ch = '/'.toUInt8) bytes

instance decidableUncommented : (slash : Bool) → (bytes : Bytes) → Decidable (Uncommented slash bytes)
  | _, [] => .isTrue trivial
  | slash, ch :: bytes =>
    have := decidableUncommented (ch = '/'.toUInt8) bytes
    inferInstanceAs (Decidable (¬ (ch = '/'.toUInt8 ∧ slash = true) ∧ Uncommented (ch = '/'.toUInt8) bytes))

def slashed (slash : Bool) (bytes : Bytes) : Bool := bytes.foldl (fun _ ch => ch = '/'.toUInt8) slash

-- Text that the reader copies as it stands.
structure Copied (excluded : List Char) (bytes : Bytes) : Prop where
  allowed : ∀ ch ∈ bytes, ch ∉ (['\n', '\r', '\t'] ++ excluded).map Char.toUInt8
  uncommented : Uncommented false bytes

-- Where the reader is within the text of a constant.
structure Quoting where
  quoted : Bool
  escaping : Bool
  slash : Bool
  deriving DecidableEq

def Quoting.next (q : Quoting) (ch : UInt8) : Option Quoting :=
  if ch ∈ ['\n', '\r', '\t'].map Char.toUInt8 then none
  else if q.quoted then
    if ch = '\\'.toUInt8 then some { q with escaping := true, slash := false }
    else if q.escaping then some { q with escaping := false, slash := false }
    else if ch = '"'.toUInt8 then some ⟨false, false, false⟩
    else some { q with slash := false }
  else if ch ∈ [';', '}'].map Char.toUInt8 then none
  else if ch = '/'.toUInt8 ∧ q.slash = true then none
  else some ⟨ch = '"'.toUInt8, q.escaping, ch = '/'.toUInt8⟩

def Quoting.over : Quoting → Bytes → Option Quoting
  | q, [] => some q
  | q, ch :: bytes => (q.next ch).bind fun q => q.over bytes

-- A constant's text ends where it began: outside of quotes and not on a backslash.
def legible (bytes : Bytes) : Bool :=
  match (⟨false, false, false⟩ : Quoting).over bytes with
  | some q => !q.quoted && !q.escaping
  | none => false

structure StorableVar (constants : Constants C E) (var : Text × C) : Prop where
  copied : Copied ['"', '=', ';', '}'] (utf8 var.1)
  nonempty : var.1 ≠ []
  start : (utf8 var.1).head? ≠ some ' '.toUInt8
  stop : ∀ ch, (utf8 var.1).getLast? = some ch → isWhitespace ch = false
  legible : legible (utf8 (constants.display var.2)) = true
  evaluates : constants.evaluateStr (utf8 (constants.display var.2)) = .ok var.2

structure Storable (constants : Constants C E) (fab : Prefab C) : Prop where
  path : Copied ['{', ',', ')'] (utf8 fab.path)
  vars : ∀ var ∈ fab.vars.entries, StorableVar constants var

end Dmm
