import Mathlib.Algebra.Ring.Nat
import MeridianMcp.Dmi.Frames
import MeridianMcp.Fallible
import MeridianMcp.Machine
import Mathlib.Algebra.BigOperators.Group.List.Basic

namespace DmiDecode

open MeridianMcp Dmi Machine Fallible

structure ServerLimits where
  maxDmiDecodedPixels : Nat
  maxDmiMetadataBytes : Nat
  maxDmiDecoderBytes : Nat
  maxDmiStates : Nat
  maxDmiFrames : Nat

def boundedFrames (limits : ServerLimits) (dirs frames total : Nat) : Except DmiError Nat :=
  match ((checkedMul dirs frames).bind (checkedAdd total)).filter
      fun value => value ≤ limits.maxDmiFrames && value ≤ 2 ^ 32 - 1 with
  | some value => .ok value
  | none => .error (.limit "max_dmi_frames")

-- What the pinned parser makes of a text.
structure Metadata (M : Type) where
  width : Nat
  height : Nat
  states : List (State M)

variable {M : Type} (count : M → Nat)

def countFrames (limits : ServerLimits) (states : List (State M)) : Except DmiError Nat :=
  states.foldlM
    (fun frames state => boundedFrames limits state.dirs.count (count state.frames) frames) 0

def validateMetadata (limits : ServerLimits) (metadata : Metadata M) (width height : Nat) :
    Except DmiError Unit := do
  ensure (¬(metadata.width = 0 ∨ metadata.height = 0 ∨ width < metadata.width ∨
    height < metadata.height)) (.invalid "DMI cell dimensions are outside image")
  ensure (metadata.states.length ≤ limits.maxDmiStates) (.limit "max_dmi_states")
  let frames ← countFrames count limits metadata.states
  ensure (frames ≤ width / metadata.width * (height / metadata.height))
    (.invalid "DMI frames exceed image cells")

def framesOf (states : List (State M)) : Nat :=
  (states.map fun state => state.dirs.count * count state.frames).sum

theorem boundedFrames_eq_ok {limits : ServerLimits} {dirs frames total n : Nat} :
    boundedFrames limits dirs frames total = .ok n ↔
      n = total + dirs * frames ∧ n ≤ limits.maxDmiFrames ∧ n < 2 ^ 32 := by
  have hvalue : ((checkedMul dirs frames).bind (checkedAdd total)).filter
      (fun value => value ≤ limits.maxDmiFrames && value ≤ 2 ^ 32 - 1) = some n ↔
      n = total + dirs * frames ∧ n ≤ limits.maxDmiFrames ∧ n < 2 ^ 32 := by
    simp only [Option.filter_eq_some_iff, Option.bind_eq_some_iff, checkedMul_eq_some,
      checkedAdd_eq_some, Bool.and_eq_true, decide_eq_true_eq, wordSize]
    constructor
    · rintro ⟨⟨product, ⟨rfl, -⟩, rfl, -⟩, hframes, hword⟩
      omega
    · rintro ⟨rfl, hframes, hword⟩
      exact ⟨⟨dirs * frames, ⟨rfl, by omega⟩, rfl, by omega⟩, hframes, by omega⟩
  rw [boundedFrames, ← hvalue]
  cases ((checkedMul dirs frames).bind (checkedAdd total)).filter
      fun value => value ≤ limits.maxDmiFrames && value ≤ 2 ^ 32 - 1 with
  | none => exact ⟨nofun, nofun⟩
  | some value => rw [Except.ok.injEq, Option.some.injEq]

theorem foldlM_boundedFrames {limits : ServerLimits} {states : List (State M)} {start n : Nat} :
    states.foldlM
      (fun frames state => boundedFrames limits state.dirs.count (count state.frames) frames)
      start = .ok n ↔
    n = start + framesOf count states ∧
      (states ≠ [] → n ≤ limits.maxDmiFrames ∧ n < 2 ^ 32) := by
  induction states generalizing start with
  | nil =>
    constructor
    · intro h
      obtain rfl := Except.ok.inj h
      exact ⟨rfl, fun hne => absurd rfl hne⟩
    · rintro ⟨rfl, -⟩
      rfl
  | cons state states ih =>
    rw [List.foldlM_cons, bind_ok_iff, framesOf, List.map_cons, List.sum_cons, ← Nat.add_assoc]
    simp only [boundedFrames_eq_ok, ih]
    constructor
    · rintro ⟨total, ⟨rfl, hframes, hword⟩, rfl, hrest⟩
      refine ⟨rfl, fun _ => ?_⟩
      by_cases hne : states = []
      · subst hne
        exact ⟨hframes, hword⟩
      · exact hrest hne
    · rintro ⟨rfl, hbound⟩
      obtain ⟨hframes, hword⟩ := hbound (List.cons_ne_nil state states)
      have hle := Nat.le_add_right (start + state.dirs.count * count state.frames)
        (framesOf count states)
      exact ⟨_, ⟨rfl, hle.trans hframes, hle.trans_lt hword⟩, rfl, fun _ => ⟨hframes, hword⟩⟩

theorem countFrames_eq_ok {limits : ServerLimits} {states : List (State M)} {n : Nat} :
    countFrames count limits states = .ok n ↔
      n = framesOf count states ∧ (states ≠ [] → n ≤ limits.maxDmiFrames ∧ n < 2 ^ 32) := by
  rw [countFrames, foldlM_boundedFrames, Nat.zero_add]

-- What an image can rely on once its metadata has been accepted.
structure Valid (limits : ServerLimits) (metadata : Metadata M) (width height : Nat) : Prop where
  width_pos : 0 < metadata.width
  height_pos : 0 < metadata.height
  width_le : metadata.width ≤ width
  height_le : metadata.height ≤ height
  states : metadata.states.length ≤ limits.maxDmiStates
  cells : framesOf count metadata.states ≤ width / metadata.width * (height / metadata.height)
  frames : metadata.states ≠ [] →
    framesOf count metadata.states ≤ limits.maxDmiFrames ∧ framesOf count metadata.states < 2 ^ 32

theorem validateMetadata_ok {limits : ServerLimits} {metadata : Metadata M} {width height : Nat} :
    validateMetadata count limits metadata width height = .ok () ↔
      Valid count limits metadata width height := by
  rw [validateMetadata, ensure_bind_ok_iff, ensure_bind_ok_iff, bind_ok_iff]
  simp only [ensure_ok_iff, countFrames_eq_ok, not_or, not_lt]
  constructor
  · rintro ⟨⟨hwidth, hheight, hwidth_le, hheight_le⟩, hstates, _, ⟨rfl, hframes⟩, hcells⟩
    exact ⟨Nat.pos_of_ne_zero hwidth, Nat.pos_of_ne_zero hheight, hwidth_le, hheight_le, hstates,
      hcells, hframes⟩
  · rintro ⟨hwidth, hheight, hwidth_le, hheight_le, hstates, hcells, hframes⟩
    exact ⟨⟨hwidth.ne', hheight.ne', hwidth_le, hheight_le⟩, hstates, _, ⟨rfl, hframes⟩, hcells⟩

theorem Valid.frames_lt {limits : ServerLimits} {metadata : Metadata M} {width height : Nat}
    (h : Valid count limits metadata width height) : framesOf count metadata.states < 2 ^ 32 := by
  by_cases hne : metadata.states = []
  · rw [hne]
    exact Nat.two_pow_pos 32
  · exact (h.frames hne).2

end DmiDecode
