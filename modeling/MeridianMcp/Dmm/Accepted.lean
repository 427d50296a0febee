import MeridianMcp.Dmm.Map
import MeridianMcp.Fallible

namespace Dmm

open MeridianMcp Effects Scanning Fallible

variable {C E : Type} {constants : Constants C E}

theorem base52Reverse_lt {ch : UInt8} {digit : Nat} (h : base52Reverse ch = some digit) : digit < 52 := by
  unfold base52Reverse at h
  split at h
  · rename_i hlower
    have hhigh : ch.toNat ≤ 122 := UInt8.le_iff_toNat_le.mp hlower.2
    obtain rfl := Option.some.inj h
    change ch.toNat - 97 < 52
    omega
  · split at h
    · rename_i hupper
      have hhigh : ch.toNat ≤ 90 := UInt8.le_iff_toNat_le.mp hupper.2
      obtain rfl := Option.some.inj h
      change 26 + ch.toNat - 65 < 52
      omega
    · cases h

theorem advanceKey_lt {current key : Key} {digit length : Nat} (hcurrent : current.val < 52 ^ length)
    (hdigit : digit < 52) (h : advanceKey current digit = some key) : key.val < 52 ^ (length + 1) := by
  unfold advanceKey at h
  split at h
  · obtain rfl := Option.some.inj h
    change current.val * 52 + digit < 52 ^ (length + 1)
    rw [pow_succ]
    omega
  · cases h

-- What of the reader's state decides on the keys of the dictionary.
structure Keying (C : Type) where
  currKey : Key
  currKeyLength : Nat
  keyLength : Nat
  inKeyBlock : Bool
  inDataBlock : Bool
  dictionary : FinMap Key (List (Prefab C))

def DictionaryState.keying (s : DictionaryState C) : Keying C :=
  ⟨s.currKey, s.currKeyLength, s.keyLength, s.inKeyBlock, s.inDataBlock, s.dictionary⟩

structure Keyed (k : Keying C) : Prop where
  currKey : k.currKey.val < 52 ^ k.currKeyLength
  settled : k.inKeyBlock = false → k.currKeyLength = 0 ∨ k.currKeyLength = k.keyLength
  apart : k.inDataBlock = true → k.inKeyBlock = false
  dictionary : ∀ key, k.dictionary.get key ≠ none → key.val < 52 ^ k.keyLength

namespace DictionaryState

variable {s s' : DictionaryState C} {ch : UInt8}

theorem insertCurrentVar_keying (h : s.insertCurrentVar constants = .ok s') : s'.keying = s.keying := by
  unfold insertCurrentVar at h
  split at h
  · split at h <;> cases h
  · cases h
    rfl

theorem inQuote_keying : (s.inQuote ch).keying = s.keying := by
  unfold inQuote
  split_ifs <;> rfl

theorem inVaredit_keying (h : s.inVaredit constants ch = .ok s') : s'.keying = s.keying := by
  unfold inVaredit at h
  dsimp only at h
  split_ifs at h
  · cases h
    rfl
  · cases h
    rfl
  · cases h
    rfl
  · obtain ⟨inserted, hinserted, hdone⟩ := bind_ok h
    cases hdone
    have hkeying := insertCurrentVar_keying hinserted
    exact hkeying
  · obtain ⟨inserted, hinserted, hdone⟩ := bind_ok h
    cases hdone
    have hkeying := insertCurrentVar_keying hinserted
    exact hkeying
  · cases h
    rfl
  · cases h
    rfl

theorem pushPrefab_keying : s.pushPrefab.keying = s.keying := by
  unfold pushPrefab
  dsimp only
  split_ifs <;> rfl

-- At the end of an entry its key has the length that all keys have, or there was none.
theorem inData_keyed (h : Keyed s.keying) (hdata : s.inDataBlock = true)
    (hdone : s.inData constants ch = .ok s') : Keyed s'.keying := by
  unfold inData at hdone
  dsimp only at hdone
  split_ifs at hdone
  · cases hdone
    rwa [inQuote_keying]
  · rwa [inVaredit_keying hdone]
  · cases hdone
    exact h
  · cases hdone
    rwa [pushPrefab_keying]
  · cases hdone
    have hsettled := h.settled (h.apart hdata)
    have hcurrent : s.currKey.val < 52 ^ s.keyLength := by
      refine h.currKey.trans_le (Nat.pow_le_pow_right (by decide) ?_)
      change s.currKeyLength = 0 ∨ s.currKeyLength = s.keyLength at hsettled
      change s.currKeyLength ≤ s.keyLength
      omega
    have hpushed : s.pushPrefab.keying = s.keying := pushPrefab_keying
    have hkey : s.pushPrefab.currKey = s.currKey := congrArg Keying.currKey hpushed
    have hlength : s.pushPrefab.keyLength = s.keyLength := congrArg Keying.keyLength hpushed
    have hdictionary : s.pushPrefab.dictionary = s.dictionary := congrArg Keying.dictionary hpushed
    have hblock : s.pushPrefab.inKeyBlock = s.inKeyBlock := congrArg Keying.inKeyBlock hpushed
    refine ⟨Nat.one_pos, fun _ => .inl rfl, fun hfalse => absurd hfalse Bool.false_ne_true, fun key hkeys => ?_⟩
    change (s.pushPrefab.dictionary.insert s.pushPrefab.currKey s.pushPrefab.currData).get key ≠ none at hkeys
    change key.val < 52 ^ s.pushPrefab.keyLength
    rw [hkey, hdictionary, FinMap.get_insert] at hkeys
    rw [hlength]
    by_cases hsame : key = s.currKey
    · rwa [hsame]
    · rw [Function.update_of_ne hsame] at hkeys
      exact h.dictionary key hkeys
  · cases hdone
    exact h

theorem inKey_keyed (h : Keyed s.keying) (hkey : s.inKeyBlock = true) (hdata : s.inDataBlock = false)
    (hdone : (s.inKey ch : Except (ReadError E) (DictionaryState C)) = .ok s') : Keyed s'.keying := by
  unfold inKey at hdone
  split at hdone
  · split at hdone
    · rename_i hlength
      cases hdone
      refine ⟨h.currKey, fun _ => .inr rfl, fun hin => absurd hin (by simp [keying, hdata]), fun key hin => ?_⟩
      have hold : key.val < 52 ^ s.keyLength := h.dictionary key hin
      rcases hlength with hzero | hsame
      · rw [hzero, pow_zero] at hold
        exact hold.trans_le (Nat.one_le_pow _ _ (by decide))
      · rwa [hsame] at hold
    · cases hdone
  · split at hdone
    · cases hdone
    · rename_i digit hdigit
      split at hdone
      · cases hdone
      · rename_i key hadvance
        split at hdone
        · cases hdone
          exact ⟨advanceKey_lt h.currKey (base52Reverse_lt hdigit) hadvance, fun hopen => absurd hopen (by simp [keying, hkey]),
            fun hin => absurd hin (by simp [keying, hdata]), h.dictionary⟩
        · cases hdone

theorem block_keyed {next : Next (DictionaryState C)} (h : Keyed s.keying) (hdone : block constants s ch = .ok next) :
    Keyed next.state.keying := by
  unfold block at hdone
  split at hdone
  · rename_i hdata
    obtain ⟨s', hs', rfl⟩ := map_ok hdone
    exact inData_keyed h hdata hs'
  · rename_i hdata
    have hno : s.inDataBlock = false := by simpa using hdata
    split at hdone
    · rename_i hkey
      obtain ⟨s', hs', rfl⟩ := map_ok hdone
      exact inKey_keyed h hkey hno hs'
    · rename_i hkey
      have hclosed : s.inKeyBlock = false := by simpa using hkey
      split_ifs at hdone
      · cases hdone
        exact ⟨h.currKey, fun hopen => absurd hopen (by simp [Next.state, keying]),
          fun hin => absurd hin (by simp [Next.state, keying, hno]), h.dictionary⟩
      · cases hdone
        exact ⟨Nat.one_pos, fun _ => .inl rfl, h.apart, h.dictionary⟩
      · cases hdone
        exact ⟨h.currKey, h.settled, fun _ => hclosed, h.dictionary⟩
      · cases hdone
        exact h

theorem step_keyed {next : Next (DictionaryState C)} (h : Keyed s.keying) (hdone : step constants s ch = .ok next) :
    Keyed next.state.keying := by
  unfold step at hdone
  split_ifs at hdone
  · cases hdone
    exact h
  · cases hdone
    exact h
  · cases hdone
    exact h
  · cases hdone
    exact h
  · exact block_keyed (s := { s with commentTrigger := true }) h hdone
  · exact block_keyed (s := { s with commentTrigger := false }) h hdone

end DictionaryState

-- The keys in the grid, and the one that is being read.
structure Charted (keyLength : Nat) (s : GridState) : Prop where
  currKey : s.currKey.val < 52 ^ s.currKeyLength
  cells : ∀ c key, s.grid c = some key → key.val < 52 ^ keyLength

namespace GridState

variable {keyLength : Nat} {s s' : GridState} {ch : UInt8}

theorem inCoords_charted (h : Charted keyLength s) (hdone : (s.inCoords ch : Except (ReadError E) GridState) = .ok s') :
    Charted keyLength s' := by
  unfold inCoords at hdone
  split at hdone
  · split at hdone <;> cases hdone
    · exact ⟨h.currKey, h.cells⟩
    · exact ⟨h.currKey, h.cells⟩
  · split at hdone
    · split at hdone <;> cases hdone
      exact ⟨h.currKey, h.cells⟩
    · split at hdone
      · cases hdone
      · split at hdone <;> cases hdone
        exact ⟨h.currKey, h.cells⟩

theorem placeKey_charted (h : Charted keyLength s)
    (hdone : (placeKey keyLength s : Except (ReadError E) GridState) = .ok s') : Charted keyLength s' := by
  unfold placeKey at hdone
  split at hdone
  · rename_i hcomplete
    split at hdone
    · cases hdone
    · split at hdone
      · cases hdone
        refine ⟨Nat.one_pos, fun c key hget => ?_⟩
        dsimp only at hget
        by_cases hhere : c = (s.currX, s.currY, s.currZ)
        · rw [hhere, Function.update_self] at hget
          obtain rfl := Option.some.inj hget
          exact hcomplete ▸ h.currKey
        · rw [Function.update_of_ne hhere] at hget
          exact h.cells c key hget
      · cases hdone
  · cases hdone
    exact h

theorem inString_charted (h : Charted keyLength s)
    (hdone : (s.inString keyLength ch : Except (ReadError E) GridState) = .ok s') : Charted keyLength s' := by
  unfold inString at hdone
  split at hdone
  · split at hdone <;> cases hdone
    exact ⟨h.currKey, h.cells⟩
  · split at hdone
    · cases hdone
      exact h
    · split at hdone
      · split at hdone
        · cases hdone
          exact ⟨h.currKey, h.cells⟩
        · split at hdone <;> cases hdone
          exact ⟨h.currKey, h.cells⟩
      · split at hdone
        · cases hdone
        · rename_i digit hdigit
          split at hdone
          · cases hdone
          · rename_i key hadvance
            split at hdone
            · exact placeKey_charted (s := { s with currKey := key, currKeyLength := s.currKeyLength + 1 })
                ⟨advanceKey_lt h.currKey (base52Reverse_lt hdigit) hadvance, h.cells⟩ hdone
            · cases hdone

theorem step_charted {next : Next GridState} (h : Charted keyLength s)
    (hdone : (step keyLength s ch : Except (ReadError E) (Next GridState)) = .ok next) :
    Charted keyLength next.state := by
  unfold step at hdone
  split_ifs at hdone
  · obtain ⟨s', hs', rfl⟩ := map_ok hdone
    exact inCoords_charted h hs'
  · obtain ⟨s', hs', rfl⟩ := map_ok hdone
    exact inString_charted h hs'
  · cases hdone
    exact ⟨h.currKey, h.cells⟩
  · cases hdone
    exact ⟨h.currKey, h.cells⟩
  · cases hdone
    exact h

end GridState

theorem display_isSome {key : Key} {keyLength : Nat} (hpositive : 0 < keyLength)
    (hlength : 52 ^ (keyLength - 1) < usizeBound) (hkey : key.val < 52 ^ keyLength) :
    ∃ shown, key.display keyLength = some shown := by
  unfold Key.display
  rw [if_neg (by omega), if_neg fun h => absurd hkey (Nat.not_lt.mpr h.2)]
  exact ⟨_, rfl⟩

-- The keys of a map that has been read all fit the length of its keys.
theorem parseMap_keys {file : Bytes} {map : Map C} (h : parseMap constants file = .ok map) :
    (∀ key, map.dictionary.get key ≠ none → key.val < 52 ^ map.keyLength) ∧
      ∀ z y x, (map.grid.cell z y x).val < 52 ^ map.keyLength := by
  unfold parseMap at h
  dsimp only at h
  obtain ⟨⟨read, rest⟩, hread, h⟩ := bind_ok h
  obtain ⟨⟨placed, done⟩, hplaced, h⟩ := bind_ok h
  obtain ⟨grid, hgrid, h⟩ := bind_ok h
  cases h
  have hkeyed : Keyed read.keying := by
    refine scan_invariant (I := fun s => Keyed s.keying) (fun s ch next hs hstep => DictionaryState.step_keyed hs hstep)
      ?_ hread
    exact ⟨Nat.one_pos, fun _ => .inl rfl, fun _ => rfl, fun key hkey => absurd rfl hkey⟩
  have hcharted : Charted read.keyLength placed := by
    refine scan_invariant (fun s ch next hs hstep => GridState.step_charted hs hstep) ?_ hplaced
    exact ⟨Nat.one_pos, fun c key hget => absurd hget.symm (Option.some_ne_none key)⟩
  refine ⟨hkeyed.dictionary, fun z y x => ?_⟩
  unfold gridOf at hgrid
  split at hgrid
  · cases hgrid
  · cases hgrid
    change ((placed.grid (x.val + 1, y.val + 1, z.val + 1)).getD .first).val < _
    cases hcell : placed.grid (x.val + 1, y.val + 1, z.val + 1) with
    | none => exact Nat.pow_pos (by decide)
    | some key => exact hcharted.cells _ key hcell

def pathOnly : Constants Unit Unit where
  display _ := []
  evaluateStr _ := .error ()

def twoTiles : Bytes := utf8 "\"b\" = (/turf,/area)\n(1,1,1) = \x7b\"\nbb\n\"\x7d\n".toList

end Dmm
