import MeridianMcp.Evidence.Timeline
import MeridianMcp.Fallible

namespace Evidence

open MeridianMcp Effects Fallible

variable {F : Type} {formats : Formats F} {phases : List PhaseInput} {record : EvidenceRecord F}

section Ranges

theorem contains_eq_true {start stop value : Option Int} :
    contains start stop value = true ↔
      ∃ a b v, start = some a ∧ stop = some b ∧ value = some v ∧ a ≤ v ∧ v < b := by
  constructor
  · intro h
    cases start with
    | none => cases h
    | some a =>
      cases stop with
      | none => cases h
      | some b =>
        cases value with
        | none => cases h
        | some v =>
          simp only [contains, Bool.and_eq_true, decide_eq_true_eq] at h
          exact ⟨a, b, v, rfl, rfl, rfl, h⟩
  · rintro ⟨a, b, v, rfl, rfl, rfl, hle, hlt⟩
    simp [contains, hle, hlt]

-- Two half-open ranges with an instant in common overlap.
theorem overlaps_of_contains {aStart aEnd bStart bEnd value : Option Int}
    (ha : contains aStart aEnd value = true) (hb : contains bStart bEnd value = true) :
    overlaps aStart aEnd bStart bEnd = true := by
  obtain ⟨a, b, v, rfl, rfl, rfl, hav, hvb⟩ := contains_eq_true.mp ha
  obtain ⟨c, d, _, rfl, rfl, hv, hcv, hvd⟩ := contains_eq_true.mp hb
  obtain rfl := Option.some.inj hv
  simp only [overlaps, Bool.and_eq_true, decide_eq_true_eq]
  exact ⟨hav.trans_lt hvd, hcv.trans_lt hvb⟩

theorem wallMs_ok {value : Option Text} {ms : Option Int} (h : wallMs formats value = .ok ms) :
    wallMs? formats value = ms := by
  cases value with
  | none =>
    cases h
    rfl
  | some value =>
    rw [wallMs] at h
    cases hparse : formats.parseRfc3339Ms value with
    | none =>
      rw [hparse] at h
      cases h
    | some parsed =>
      rw [hparse] at h
      cases h
      exact hparse

end Ranges

section Validation

-- What the validation leaves between two phases.
structure Apart (formats : Formats F) (left right : PhaseInput) : Prop where
  world : overlaps left.worldStartDs left.worldEndDs right.worldStartDs right.worldEndDs = false
  wall : overlaps (wallMs? formats left.wallStart) (wallMs? formats left.wallEnd)
    (wallMs? formats right.wallStart) (wallMs? formats right.wallEnd) = false

theorem validatePair_apart {left right : PhaseInput}
    (h : validatePair formats left right = .ok ()) : Apart formats left right := by
  rw [validatePair] at h
  split at h
  · cases h
  · rename_i hworld
    obtain ⟨leftStart, hleftStart, h⟩ := bind_ok h
    obtain ⟨leftEnd, hleftEnd, h⟩ := bind_ok h
    obtain ⟨rightStart, hrightStart, h⟩ := bind_ok h
    obtain ⟨rightEnd, hrightEnd, h⟩ := bind_ok h
    split at h
    · cases h
    · rename_i hwall
      refine ⟨Bool.not_eq_true _ ▸ hworld, ?_⟩
      rw [wallMs_ok hleftStart, wallMs_ok hleftEnd, wallMs_ok hrightStart, wallMs_ok hrightEnd]
      exact Bool.not_eq_true _ ▸ hwall

theorem validatePairs_apart (h : validatePairs formats phases = .ok ()) :
    phases.Pairwise (Apart formats) := by
  induction phases with
  | nil => exact .nil
  | cons left rest ih =>
    obtain ⟨⟨⟩, hleft, hrest⟩ := bind_ok h
    exact .cons (fun right hright => validatePair_apart (forM_ok_iff.mp hleft right hright))
      (ih hrest)

theorem validatePhases_apart (h : validatePhases formats phases = .ok ()) :
    phases.Pairwise (Apart formats) := by
  obtain ⟨⟨⟩, -, hpairs⟩ := bind_ok h
  exact validatePairs_apart hpairs

end Validation

section Selection

def OnWall (formats : Formats F) (record : EvidenceRecord F) (phase : PhaseInput) : Prop :=
  contains (wallMs? formats phase.wallStart) (wallMs? formats phase.wallEnd) record.wallUnixMs

def OnWorld (record : EvidenceRecord F) (phase : PhaseInput) : Prop :=
  contains phase.worldStartDs phase.worldEndDs record.worldDeciseconds

theorem filter_exclusive {α : Type} {l : List α} {p : α → Bool}
    (h : l.Pairwise fun a b => ¬(p a = true ∧ p b = true)) :
    ∃ selected : Option α, l.filter p = selected.toList ∧
      ∀ a, selected = some a ↔ a ∈ l ∧ p a = true := by
  have hpairs := h.filter p
  match hfilter : l.filter p with
  | [] =>
    refine ⟨none, rfl, fun a => ?_⟩
    rw [← List.mem_filter, hfilter]
    exact iff_of_false nofun List.not_mem_nil
  | [b] =>
    refine ⟨some b, rfl, fun a => ?_⟩
    rw [← List.mem_filter, hfilter, List.mem_singleton, Option.some.injEq, eq_comm]
  | a :: b :: rest =>
    have hmem (c : α) (hc : c ∈ a :: b :: rest) : p c = true := by
      rw [← hfilter] at hc
      exact (List.mem_filter.mp hc).2
    rw [hfilter] at hpairs
    exact absurd ⟨hmem a (List.mem_cons_self ..),
      hmem b (List.mem_cons_of_mem _ (List.mem_cons_self ..))⟩
      ((List.pairwise_cons.mp hpairs).1 b (List.mem_cons_self ..))

theorem onWall_exclusive (h : phases.Pairwise (Apart formats)) :
    phases.Pairwise fun left right => ¬(contains (wallMs? formats left.wallStart)
      (wallMs? formats left.wallEnd) record.wallUnixMs = true ∧
        contains (wallMs? formats right.wallStart) (wallMs? formats right.wallEnd)
          record.wallUnixMs = true) := by
  refine h.imp fun hapart hboth => ?_
  have hoverlaps := overlaps_of_contains hboth.1 hboth.2
  rw [hapart.wall] at hoverlaps
  cases hoverlaps

theorem onWorld_exclusive (h : phases.Pairwise (Apart formats)) :
    phases.Pairwise fun left right => ¬(contains left.worldStartDs left.worldEndDs
      record.worldDeciseconds = true ∧ contains right.worldStartDs right.worldEndDs
        record.worldDeciseconds = true) := by
  refine h.imp fun hapart hboth => ?_
  have hoverlaps := overlaps_of_contains hboth.1 hboth.2
  rw [hapart.world] at hoverlaps
  cases hoverlaps

-- What `assign` makes of the phases that the clocks select.
structure Assigned (formats : Formats F) (record : EvidenceRecord F) (phases : List PhaseInput)
    (result : Except EvidenceError (Option Text)) : Prop where
  wall_unique : ∀ left ∈ phases, ∀ right ∈ phases,
    OnWall formats record left → OnWall formats record right → left = right
  world_unique : ∀ left ∈ phases, ∀ right ∈ phases,
    OnWorld record left → OnWorld record right → left = right
  not_multiple : result ≠ .error (.message "record matches multiple phases")
  error_iff : (∃ e, result = .error e) ↔ ∃ left ∈ phases, ∃ right ∈ phases,
    OnWall formats record left ∧ OnWorld record right ∧ left ≠ right
  selects : ∀ selected, result = .ok selected → ∀ id, selected = some id ↔
    ∃ phase ∈ phases, (OnWall formats record phase ∨ OnWorld record phase) ∧ phase.id = id

theorem assign_eq {wall world : Option PhaseInput}
    (hwall : phases.filter (fun phase => contains (wallMs? formats phase.wallStart)
      (wallMs? formats phase.wallEnd) record.wallUnixMs) = wall.toList)
    (hworld : phases.filter (fun phase => contains phase.worldStartDs phase.worldEndDs
      record.worldDeciseconds) = world.toList) :
    assign formats record phases =
      match wall, world with
      | some left, some right =>
        if left.id ≠ right.id then
          .error (.message "wall and world clocks assign different phases")
        else .ok (some left.id)
      | some phase, none => .ok (some phase.id)
      | none, some phase => .ok (some phase.id)
      | none, none => .ok none := by
  rw [assign, hwall, hworld]
  cases wall <;> cases world <;> rfl

theorem assign_assigned (hvalid : validatePhases formats phases = .ok ())
    (hunique : (phases.map PhaseInput.id).Nodup) (record : EvidenceRecord F) :
    Assigned formats record phases (assign formats record phases) := by
  have hapart := validatePhases_apart hvalid
  obtain ⟨wall, hwall, hwalliff⟩ := filter_exclusive (@onWall_exclusive _ _ _ record hapart)
  obtain ⟨world, hworld, hworldiff⟩ := filter_exclusive (@onWorld_exclusive _ _ _ record hapart)
  have honwall (phase : PhaseInput) (hphase : phase ∈ phases) :
      OnWall formats record phase ↔ wall = some phase :=
    ⟨fun h => (hwalliff phase).mpr ⟨hphase, h⟩, fun h => ((hwalliff phase).mp h).2⟩
  have honworld (phase : PhaseInput) (hphase : phase ∈ phases) :
      OnWorld record phase ↔ world = some phase :=
    ⟨fun h => (hworldiff phase).mpr ⟨hphase, h⟩, fun h => ((hworldiff phase).mp h).2⟩
  have hid : ∀ left ∈ phases, ∀ right ∈ phases, left.id = right.id → left = right :=
    fun left hleft right hright => List.inj_on_of_nodup_map hunique hleft hright
  rw [assign_eq hwall hworld]
  constructor
  · intro left hleft right hright hl hr
    exact Option.some.inj (((honwall left hleft).mp hl).symm.trans ((honwall right hright).mp hr))
  · intro left hleft right hright hl hr
    exact Option.some.inj (((honworld left hleft).mp hl).symm.trans ((honworld right hright).mp hr))
  · cases wall with
    | none => cases world <;> exact nofun
    | some left =>
      cases world with
      | none => exact nofun
      | some right =>
        dsimp only
        split
        · intro heq
          exact absurd (EvidenceError.message.inj (Except.error.inj heq)) (by decide)
        · exact nofun
  · constructor
    · rintro ⟨e, he⟩
      cases wall with
      | none => cases world <;> cases he
      | some left =>
        cases world with
        | none => cases he
        | some right =>
          have hleft := (hwalliff left).mp rfl
          have hright := (hworldiff right).mp rfl
          refine ⟨left, hleft.1, right, hright.1, hleft.2, hright.2, ?_⟩
          rintro rfl
          dsimp only at he
          rw [if_neg (not_not.mpr rfl)] at he
          cases he
    · rintro ⟨left, hleft, right, hright, hl, hr, hne⟩
      rw [(honwall left hleft).mp hl, (honworld right hright).mp hr]
      exact ⟨_, if_pos (mt (hid left hleft right hright) hne)⟩
  · intro selected hselected id
    have hon (phase : PhaseInput) : (phase ∈ phases ∧
        (OnWall formats record phase ∨ OnWorld record phase)) ↔
          wall = some phase ∨ world = some phase := by
      rw [hwalliff, hworldiff, ← and_or_left]
      rfl
    simp only [← and_assoc, hon]
    cases wall with
    | none =>
      cases world with
      | none =>
        obtain rfl := Except.ok.inj hselected
        simp
      | some right =>
        obtain rfl := Except.ok.inj hselected
        simp
    | some left =>
      cases world with
      | none =>
        obtain rfl := Except.ok.inj hselected
        simp
      | some right =>
        dsimp only at hselected
        split at hselected
        · cases hselected
        · rename_i hsame
          obtain rfl := Except.ok.inj hselected
          obtain rfl := hid left ((hwalliff left).mp rfl).1 right ((hworldiff right).mp rfl).1
            (not_not.mp hsame)
          simp

-- Formats that know two instants, a minute apart.
def minuteFormats : Formats Int where
  fromUtf8 _ := none
  isWhitespace _ := false
  fromStr _ := none
  fromStr_nodup _ _ h := by cases h
  csvRecords _ := none
  parseFloat _ := none
  isFinite _ := true
  ofInt n := n
  parseRfc3339Ms text :=
    if text = "2024-01-01T00:00:00Z".toList then some 1704067200000
    else if text = "2024-01-01T00:01:00Z".toList then some 1704067260000
    else none

-- The second phase starts where the first one ends on the world's clock, and has no wall clock.
def minutePhases : List PhaseInput :=
  [⟨"warmup".toList, some "2024-01-01T00:00:00Z".toList, some "2024-01-01T00:01:00Z".toList,
      some 0, some 600⟩,
    ⟨"main".toList, none, none, some 600, some 1200⟩]

def boundaryRecord : EvidenceRecord Int := ⟨none, some 600, 0, .empty, .empty⟩

theorem boundary_assigned :
    assign minuteFormats boundaryRecord minutePhases = .ok (some "main".toList) ∧
      Assigned minuteFormats boundaryRecord minutePhases
        (assign minuteFormats boundaryRecord minutePhases) :=
  ⟨by decide, assign_assigned (by decide) (by decide) boundaryRecord⟩

end Selection

end Evidence
