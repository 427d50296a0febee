import MeridianMcp.DmiDecode.Preflight

namespace DmiDecode

open MeridianMcp Dmi Machine Fallible

-- What a line is held against, after the entries before it.
def Holds (limits : ServerLimits) (before : List (Key × Text)) (entry : Key × Text) : Prop :=
  match entry.1 with
  | .dimension => True
  | .state => imagesIn before ≤ limits.maxDmiFrames ∧
      (stateSettings (before ++ [entry])).length ≤ limits.maxDmiStates
  | .setting setting => (setting = .delay → (delays entry.2).length ≤ limits.maxDmiFrames) ∧
      imagesIn (before ++ [entry]) ≤ limits.maxDmiFrames
  | .hotspot => True

structure FitsAfter (limits : ServerLimits) (before entries : List (Key × Text)) : Prop where
  lines : ∀ between entry after, entries = between ++ entry :: after →
    Holds limits (before ++ between) entry
  whole : imagesIn (before ++ entries) ≤ limits.maxDmiFrames

-- The counts of a text stay within the limits at each of its lines.
def Fits (limits : ServerLimits) (text : Text) : Prop := FitsAfter limits [] (entriesOf text)

theorem fitsAfter_cons {limits : ServerLimits} {before rest : List (Key × Text)}
    {entry : Key × Text} :
    FitsAfter limits before (entry :: rest) ↔
      Holds limits before entry ∧ FitsAfter limits (before ++ [entry]) rest := by
  constructor
  · rintro ⟨hlines, hwhole⟩
    refine ⟨?_, fun between other after heq => ?_, ?_⟩
    · have hfirst := hlines [] entry rest rfl
      rwa [List.append_nil] at hfirst
    · have hlater := hlines (entry :: between) other after (by rw [heq, List.cons_append])
      rwa [List.append_assoc, List.singleton_append]
    · rwa [List.append_assoc, List.singleton_append]
  · rintro ⟨hfirst, hlines, hwhole⟩
    rw [List.append_assoc, List.singleton_append] at hwhole
    refine ⟨fun between other after heq => ?_, hwhole⟩
    cases between with
    | nil =>
      obtain ⟨rfl, -⟩ := List.cons.inj heq
      rwa [List.append_nil]
    | cons first between =>
      obtain ⟨rfl, hrest⟩ := List.cons.inj heq
      have hlater := hlines between other after hrest
      rwa [List.append_assoc, List.singleton_append] at hlater

section Other

variable {limits limits' : ServerLimits} {finite : Text → Bool} {scan scan' : Scan}
  {state state' : OpenState} {value : Text} {before : List (Key × Text)}

-- Whether what some limits have accepted is accepted under others depends on its counts alone.
theorem boundedFrames_other {dirs frames total n : Nat}
    (h : boundedFrames limits dirs frames total = .ok n) (other : Nat) :
    boundedFrames limits' dirs frames total = .ok other ↔ other = n ∧ n ≤ limits'.maxDmiFrames := by
  obtain ⟨hn, -, hword⟩ := boundedFrames_eq_ok.mp h
  rw [boundedFrames_eq_ok, ← hn]
  constructor
  · rintro ⟨rfl, hframes, -⟩
    exact ⟨rfl, hframes⟩
  · rintro ⟨rfl, hframes⟩
    exact ⟨rfl, hframes, hword⟩

theorem set_other {setting : Setting} (h : set limits finite state value setting = .ok state')
    (other : OpenState) :
    set limits' finite state value setting = .ok other ↔
      other = state' ∧ (setting = .delay → (delays value).length ≤ limits'.maxDmiFrames) := by
  have hsame (hset : set limits' finite state value setting =
      set limits finite state value setting) (hdelay : setting ≠ .delay) :
      set limits' finite state value setting = .ok other ↔
        other = state' ∧ (setting = .delay → (delays value).length ≤ limits'.maxDmiFrames) := by
    rw [hset, h, Except.ok.injEq, eq_comm]
    exact ⟨fun heq => ⟨heq, fun hcase => absurd hcase hdelay⟩, fun heq => heq.1⟩
  cases setting with
  | dirs => exact hsame rfl nofun
  | frames => exact hsame rfl nofun
  | loop => exact hsame rfl nofun
  | flag => exact hsame rfl nofun
  | delay =>
    rw [set, ensure_bind_ok_iff, ensure_bind_ok_iff, ensure_bind_ok_iff] at h ⊢
    obtain ⟨hdelay, -, hfinite, h⟩ := h
    rw [h, Except.ok.injEq]
    constructor
    · rintro ⟨-, hcount, -, rfl⟩
      exact ⟨rfl, fun _ => hcount⟩
    · rintro ⟨rfl, hcount⟩
      exact ⟨hdelay, hcount rfl, hfinite, rfl⟩

theorem close_other {n : Nat} (h : close limits scan = .ok n) (hbounded : scan.Bounded limits)
    (other : Nat) : close limits' scan = .ok other ↔ other = n ∧ n ≤ limits'.maxDmiFrames := by
  rw [close] at h ⊢
  cases hstate : scan.state with
  | some state =>
    rw [hstate] at h
    exact boundedFrames_other h other
  | none =>
    rw [hstate] at h
    obtain rfl := Except.ok.inj h
    rw [hbounded.empty hstate]
    exact ⟨fun heq => ⟨(Except.ok.inj heq).symm, Nat.zero_le _⟩, fun heq => congrArg _ heq.1.symm⟩

-- The scan has counted the entries before.
structure Scan.Counted (scan : Scan) (before : List (Key × Text)) : Prop where
  images : ∀ rest, scan.images rest = imagesIn (before ++ rest)
  count : ∀ rest, scan.count rest = (stateSettings (before ++ rest)).length

theorem counted_start : (⟨0, 0, none⟩ : Scan).Counted [] where
  images rest := by rw [Scan.images, Nat.zero_add, Nat.zero_add, List.nil_append]
  count rest := by rw [Scan.count, Nat.zero_add, List.nil_append]

theorem counted_property {key : Key} (h : scanProperty limits finite scan value key = .ok scan')
    (hbounded : scan.Bounded limits) (hcounted : scan.Counted before) :
    scan'.Counted (before ++ [(key, value)]) where
  images rest := by
    rw [← (scanProperty_images h hbounded).1, hcounted.images, List.append_assoc,
      List.singleton_append]
  count rest := by
    rw [← (scanProperty_images h hbounded).2.1, hcounted.count, List.append_assoc,
      List.singleton_append]

theorem scanProperty_other {key : Key} (h : scanProperty limits finite scan value key = .ok scan')
    (hbounded : scan.Bounded limits) (hcounted : scan.Counted before) (other : Scan) :
    scanProperty limits' finite scan value key = .ok other ↔
      other = scan' ∧ Holds limits' before (key, value) := by
  have hafter := counted_property h hbounded hcounted
  cases key with
  | dimension =>
    have hsame : scanProperty limits' finite scan value .dimension =
      scanProperty limits finite scan value .dimension := rfl
    rw [hsame, h, Except.ok.injEq, eq_comm]
    exact (and_iff_left trivial).symm
  | hotspot =>
    have hsame : scanProperty limits' finite scan value .hotspot =
      scanProperty limits finite scan value .hotspot := rfl
    rw [hsame, h, Except.ok.injEq, eq_comm]
    exact (and_iff_left trivial).symm
  | state =>
    obtain ⟨total, htotal, h⟩ := bind_ok h
    obtain ⟨states, hadd, h⟩ := bind_ok h
    obtain ⟨⟨⟩, -, h⟩ := bind_ok h
    obtain ⟨⟨⟩, hname, h⟩ := bind_ok h
    cases h
    have htotal := lift_eq_ok.mp htotal
    have himages : total = imagesIn before := by
      rw [(close_eq_ok hbounded htotal).1, hcounted.images, List.append_nil]
    have hstates : states = (stateSettings (before ++ [(.state, value)])).length := by
      have hcount := hafter.count []
      rwa [List.append_nil] at hcount
    simp only [scanProperty, bind_ok_iff, lift_eq_ok, close_other htotal hbounded, hadd,
      lift_eq_ok.mp hname, Except.ok.injEq, Holds, ← himages, ← hstates]
    constructor
    · rintro ⟨_, ⟨rfl, hframes⟩, _, rfl, ⟨⟩, hmax, ⟨⟩, -, rfl⟩
      exact ⟨rfl, hframes, ensure_ok_iff.mp hmax⟩
    · rintro ⟨rfl, hframes, hmax⟩
      exact ⟨total, ⟨rfl, hframes⟩, states, rfl, (), ensure_ok_iff.mpr hmax, (), trivial, rfl⟩
  | setting setting =>
    rw [scanProperty] at h ⊢
    cases hstate : scan.state with
    | none =>
      rw [hstate] at h
      cases h
    | some state =>
      rw [hstate] at h
      obtain ⟨state', hset, h⟩ := bind_ok h
      obtain ⟨n, hframes, h⟩ := bind_ok h
      cases h
      have hset := lift_eq_ok.mp hset
      have hframes := lift_eq_ok.mp hframes
      have himages : n = imagesIn (before ++ [(.setting setting, value)]) := by
        have himages := hafter.images []
        rw [List.append_nil] at himages
        rw [← himages, (boundedFrames_eq_ok.mp hframes).1]
        simp only [Scan.images, settings, framesFrom_nil]
        rfl
      simp only [bind_ok_iff, lift_eq_ok, set_other hset, Except.ok.injEq, Holds, ← himages]
      constructor
      · rintro ⟨_, ⟨rfl, hdelay⟩, _, hother, rfl⟩
        exact ⟨rfl, hdelay, ((boundedFrames_other hframes _).mp hother).2⟩
      · rintro ⟨rfl, hdelay, hmax⟩
        exact ⟨state', ⟨rfl, hdelay⟩, n, (boundedFrames_other hframes n).mpr ⟨rfl, hmax⟩, rfl⟩

theorem close_fits {n : Nat} (h : close limits scan = .ok n) (hbounded : scan.Bounded limits)
    (hcounted : scan.Counted before) :
    (∃ total, close limits' scan = .ok total) ↔ FitsAfter limits' before [] := by
  have himages : n = imagesIn (before ++ []) := by
    rw [(close_eq_ok hbounded h).1, hcounted.images]
  simp only [close_other h hbounded]
  constructor
  · rintro ⟨_, rfl, hframes⟩
    refine ⟨fun between entry after heq => ?_, himages ▸ hframes⟩
    exact absurd heq.symm (List.append_ne_nil_of_right_ne_nil _ (List.cons_ne_nil entry after))
  · intro hfits
    exact ⟨n, rfl, himages ▸ hfits.whole⟩

theorem scanLines_other {lines : List Text} {n : Nat}
    (h : scanLines limits finite scan lines = .ok scan') (hclose : close limits scan' = .ok n)
    (hbounded : scan.Bounded limits) (hcounted : scan.Counted before) :
    (∃ other, scanLines limits' finite scan lines = .ok other ∧
        ∃ total, close limits' other = .ok total) ↔
      FitsAfter limits' before (properties lines) := by
  induction lines generalizing scan before with
  | nil =>
    cases h
    rw [show properties [] = [] from rfl, ← close_fits hclose hbounded hcounted]
    simp only [scanLines, Except.ok.injEq, exists_eq_left']
  | cons line rest ih =>
    rw [scanLines] at h
    simp only [scanLines]
    split at h
    · rename_i hmarker
      cases h
      simp only [hmarker, if_true]
      rw [properties_marker hmarker, ← close_fits hclose hbounded hcounted]
      simp only [Except.ok.injEq, exists_eq_left']
    · rename_i hmarker
      obtain ⟨next, hnext, h⟩ := bind_ok h
      obtain ⟨⟨key, value⟩, hline, hnext⟩ := bind_ok hnext
      have hline := lift_eq_ok.mp hline
      have hlater := ih h
        (@scanProperty_images limits finite scan next value key [] hnext hbounded).2.2
        (counted_property hnext hbounded hcounted)
      simp only [hmarker, Bool.false_eq_true, if_false, scanLine, hline, bind_ok_iff, lift_eq_ok,
        Except.ok.injEq]
      rw [properties_cons (Bool.not_eq_true _ ▸ hmarker) hline, fitsAfter_cons, ← hlater]
      constructor
      · rintro ⟨other, ⟨step, ⟨_, rfl, hstep⟩, hrun⟩, hend⟩
        obtain ⟨rfl, hholds⟩ := (scanProperty_other hnext hbounded hcounted step).mp hstep
        exact ⟨hholds, other, hrun, hend⟩
      · rintro ⟨hholds, other, hrun, hend⟩
        exact ⟨other, ⟨next, ⟨_, rfl, (scanProperty_other hnext hbounded hcounted next).mpr
          ⟨rfl, hholds⟩⟩, hrun⟩, hend⟩

theorem preflight_other {text : Text} (h : preflightMetadata limits finite text = .ok ()) :
    preflightMetadata limits' finite text = .ok () ↔ Fits limits' text := by
  rw [preflightMetadata] at h ⊢
  split at h
  · rename_i hempty
    subst hempty
    refine iff_of_true rfl ⟨fun between entry after heq => ?_, Nat.zero_le _⟩
    exact absurd heq.symm (List.append_ne_nil_of_right_ne_nil _ (List.cons_ne_nil entry after))
  · rename_i hempty
    obtain ⟨⟨⟩, hheader, h⟩ := bind_ok h
    obtain ⟨scan, hscan, h⟩ := bind_ok h
    obtain ⟨total, hclose, -⟩ := bind_ok h
    rw [if_neg hempty, Fits, entriesOf, ← scanLines_other hscan (lift_eq_ok.mp hclose)
      ⟨Nat.zero_le _, fun _ => rfl⟩ counted_start]
    rw [lift_eq_ok] at hheader
    simp only [bind_ok_iff, lift_eq_ok, hheader]
    constructor
    · rintro ⟨_, -, other, hrun, total, hend, -⟩
      exact ⟨other, hrun, total, hend⟩
    · rintro ⟨other, hrun, total, hend⟩
      exact ⟨(), trivial, other, hrun, total, hend, trivial⟩

end Other

end DmiDecode
