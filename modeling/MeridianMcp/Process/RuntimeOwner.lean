import MeridianMcp.Process.Groups

namespace RuntimeOwner

open ProcessGroups

-- Where the owner is: in `start`, in the spawn of the runtime, or, with the lock taken, in
-- `request_termination` or in the search for members of the group by `is_terminated`.
inductive Phase where
  | unstarted
  | starting
  | prepared
  | spawning (child : Pid)
  | idle
  | closing
  | scanning (left : List Pid)
  | detached
  | dead

-- `greeted`: the guardian has written that it is ready. `killed`: the group has been sent the kill
-- signal. `lost`: the guardian has died of something else. `terminated`: `is_terminated` has
-- answered that the group is, after it had been sent the signal.
structure State where
  table : Table
  leader : Pid
  phase : Phase
  writer : Bool
  guardian : Option Pid
  greeted : Bool
  killed : Bool
  lost : Bool
  terminated : Bool

-- The two places that send the signal to the group.
inductive Strikes (s : State) : State → Prop
  | request_termination {group : Pid} : s.phase = .closing → s.guardian = some group →
      Strikes s { s with table := strike group s.table, killed := true, phase := .idle }
  | kill_group {pr : Process} : s.table s.leader = some pr → pr.owned = true → pr.status = .running →
      (s.greeted = true ∧ s.writer = false ∧ (∀ p pr, s.table p = some pr → pr.lease = false) ∨
        s.greeted = false ∧ s.phase ≠ .starting) →
      Strikes s { s with table := strike s.leader s.table, killed := true }

inductive Step (s : State) : State → Prop
  | start {group : Pid} : s.phase = .unstarted → Fresh s.table group →
      Step s { s with
        table := Function.update s.table group (some ⟨group, .running, false, true⟩)
        leader := group
        phase := .starting
        writer := true
        guardian := some group }
  | dispatch {pr : Process} : s.phase = .starting → s.table s.leader = some pr → pr.owned = true →
      pr.status = .running → Step s { s with greeted := true }
  | ready : s.phase = .starting → s.greeted = true → Step s { s with phase := .prepared }
  | fail : s.phase = .starting ∨ s.phase = .prepared → Step s { s with phase := .idle }
  | fork {child home : Pid} : s.phase = .prepared → Fresh s.table child → home ≠ s.leader →
      Step s { s with
        table := Function.update s.table child (some ⟨home, .running, true, true⟩)
        phase := .spawning child }
  | spawned {child : Pid} : s.phase = .spawning child → (∀ pr, s.table child = some pr → pr.lease = false) →
      Step s { s with phase := .idle }
  | request : s.phase = .idle → Step s { s with writer := false, phase := .closing }
  | unsent : s.phase = .closing → Step s { s with phase := .idle }
  | wait_nowait {group : Pid} {pr : Process} {listed : List Pid} : s.phase = .idle → s.guardian = some group →
      s.table group = some pr → pr.status = .zombie → (∀ p pr, s.table p = some pr → p ∈ listed) →
      Step s { s with phase := .scanning listed }
  | stopped {p : Pid} {left : List Pid} : s.phase = .scanning (p :: left) →
      (∀ pr, s.table p = some pr → pr.group = s.leader → pr.status = .zombie) →
      Step s { s with phase := .scanning left }
  | unstopped {left : List Pid} : s.phase = .scanning left → Step s { s with phase := .idle }
  | reap {group : Pid} : s.phase = .scanning [] → s.guardian = some group →
      Step s { s with
        table := Function.update s.table group none
        guardian := none
        phase := .idle
        terminated := s.terminated || s.killed }
  | detach : s.phase = .idle → Step s { s with writer := false, guardian := none, phase := .detached }
  | crash : s.phase ≠ .unstarted → Step s { s with writer := false, guardian := none, phase := .dead }
  | collect {pr : Process} : s.guardian = none → s.table s.leader = some pr → pr.status = .zombie →
      Step s { s with table := Function.update s.table s.leader none }
  | lose {pr : Process} : s.table s.leader = some pr → pr.owned = true → pr.status = .running →
      Step s { s with
        table := Function.update s.table s.leader (some { pr with status := .zombie, lease := false })
        lost := true }
  | move {table : Table} : Moves s.leader s.writer s.table table → Step s { s with table := table }
  | strike {s' : State} : Strikes s s' → Step s s'

def initial (table : Table) (leader : Pid) : State where
  table := table
  leader := leader
  phase := .unstarted
  writer := false
  guardian := none
  greeted := false
  killed := false
  lost := false
  terminated := false

inductive Reachable : State → Prop
  | initial {table : Table} {leader : Pid} (h : ∀ p pr, table p = some pr → pr.owned = false) :
      Reachable (initial table leader)
  | step {s s' : State} : Reachable s → Step s s' → Reachable s'

-- Members of the group, among those that descend from what the owner started.
def Member (s : State) (p : Pid) (pr : Process) : Prop :=
  s.table p = some pr ∧ pr.owned = true ∧ pr.group = s.leader

def Led (s : State) (pr : Process) : Prop := s.table s.leader = some pr ∧ pr.owned = true

structure Safe (s : State) : Prop where
  unstarted : s.phase = .unstarted → (∀ p pr, s.table p = some pr → pr.owned = false) ∧ s.killed = false ∧
    s.greeted = false ∧ s.guardian = none
  lead : ∀ pr, Led s pr → pr.group = s.leader ∧ pr.lease = false
  members : (∃ pr, Led s pr) → ∀ p pr, s.table p = some pr → pr.group = s.leader → pr.owned = true
  guardian : ∀ group, s.guardian = some group → group = s.leader ∧ ∃ pr, Led s pr
  spawning : ∀ p pr, s.table p = some pr → pr.owned = true → pr.lease = true →
    (s.phase = .spawning p ∨ s.phase = .dead) ∧ s.greeted = true ∧ s.killed = false
  early : s.phase = .starting ∨ s.phase = .prepared ∨ (∃ c, s.phase = .spawning c) →
    s.writer = true ∧ s.killed = false ∧ s.guardian ≠ none ∧ (s.phase ≠ .starting → s.greeted = true)
  doomed : ∀ p pr, s.table p = some pr → pr.owned = true → pr.status = .doomed → s.killed = true
  stopped : s.killed = true → ∀ p pr, Member s p pr → pr.status ≠ .running
  awake : s.phase ≠ .unstarted → s.lost = false → s.killed = false → ∃ pr, Led s pr ∧ pr.status = .running
  scanning : ∀ left, s.phase = .scanning left → s.guardian ≠ none ∧ (∃ pr, Led s pr ∧ pr.status = .zombie) ∧
    (s.killed = true → ∀ p pr, Member s p pr → pr.status = .zombie ∨ p ∈ left)
  terminated : s.terminated = true → s.killed = true ∧ ∀ p pr, Member s p pr → pr.status = .zombie

variable {s s' : State}

theorem safe_initial {table : Table} {leader : Pid} (h : ∀ p pr, table p = some pr → pr.owned = false) :
    Safe (initial table leader) := by
  have hnone : ∀ p pr, table p = some pr → pr.owned = true → False := by
    intro p pr hp howned
    rw [h p pr hp] at howned
    cases howned
  constructor
  · exact fun _ => ⟨h, rfl, rfl, rfl⟩
  · exact fun pr hled => (hnone _ pr hled.1 hled.2).elim
  · exact fun ⟨pr, hled⟩ => (hnone _ pr hled.1 hled.2).elim
  · intro group hgroup
    cases hgroup
  · exact fun p pr hp howned => (hnone p pr hp howned).elim
  · rintro (hphase | hphase | ⟨c, hphase⟩) <;> cases hphase
  · exact fun p pr hp howned => (hnone p pr hp howned).elim
  · exact fun hkilled => absurd hkilled Bool.false_ne_true
  · exact fun hphase => absurd rfl hphase
  · intro left hphase
    cases hphase
  · exact fun hterminated => absurd hterminated Bool.false_ne_true

-- The owner goes from one place to another; the processes are as they were.
theorem Safe.at (h : Safe s) {phase : Phase} {writer greeted : Bool} {guardian : Option Pid}
    (hphase : phase ≠ .unstarted) (hstarted : s.phase ≠ .unstarted)
    (hguardian : guardian = s.guardian ∨ guardian = none) (hgreeted : s.greeted = true → greeted = true)
    (hspawning : ∀ p, s.phase = .spawning p → (∃ pr, s.table p = some pr ∧ pr.lease = true) →
      phase = .spawning p ∨ phase = .dead)
    (hdead : s.phase = .dead → phase = .dead)
    (hearly : phase = .starting ∨ phase = .prepared ∨ (∃ c, phase = .spawning c) →
      writer = true ∧ s.killed = false ∧ guardian ≠ none ∧ (phase ≠ .starting → greeted = true))
    (hscanning : ∀ left, phase = .scanning left → guardian ≠ none ∧ (∃ pr, Led s pr ∧ pr.status = .zombie) ∧
      (s.killed = true → ∀ p pr, Member s p pr → pr.status = .zombie ∨ p ∈ left)) :
    Safe { s with phase := phase, writer := writer, guardian := guardian, greeted := greeted } := by
  refine ⟨fun heq => absurd heq hphase, h.lead, h.members, ?_, ?_, hearly, h.doomed, h.stopped, fun _ => h.awake hstarted,
    hscanning, h.terminated⟩
  · intro group hgroup
    rcases hguardian with rfl | rfl
    · exact h.guardian group hgroup
    · cases hgroup
  · intro p pr hp howned hlease
    obtain ⟨hplace, hready, hkilled⟩ := h.spawning p pr hp howned hlease
    refine ⟨?_, hgreeted hready, hkilled⟩
    rcases hplace with hplace | hplace
    · exact hspawning p hplace ⟨pr, hp, hlease⟩
    · exact .inr (hdead hplace)

-- The owner has nothing under way that the group depends on.
def Phase.Resting (phase : Phase) : Prop :=
  phase = .idle ∨ phase = .closing ∨ phase = .detached ∨ phase = .dead

theorem Safe.rests (h : Safe s) {phase : Phase} {writer : Bool} {guardian : Option Pid} (hrests : phase.Resting)
    (hstarted : s.phase ≠ .unstarted) (hguardian : guardian = s.guardian ∨ guardian = none)
    (hspawning : ∀ p, s.phase = .spawning p → (∃ pr, s.table p = some pr ∧ pr.lease = true) → phase = .dead)
    (hdead : s.phase = .dead → phase = .dead) :
    Safe { s with phase := phase, writer := writer, guardian := guardian } := by
  refine Safe.at h ?_ hstarted hguardian id (fun p hplace hopen => .inr (hspawning p hplace hopen)) hdead ?_ ?_
  · rintro rfl
    rcases hrests with hplace | hplace | hplace | hplace <;> cases hplace
  · rintro (rfl | rfl | ⟨c, rfl⟩) <;> rcases hrests with hplace | hplace | hplace | hplace <;> cases hplace
  · rintro left rfl
    rcases hrests with hplace | hplace | hplace | hplace <;> cases hplace

theorem Safe.rests_from (h : Safe s) {from' phase : Phase} {writer : Bool} {guardian : Option Pid}
    (hfrom : s.phase = from') (hrests : phase.Resting) (hstarted : from' ≠ .unstarted)
    (hguardian : guardian = s.guardian ∨ guardian = none) (hspawning : ∀ p, from' ≠ .spawning p) (hdead : from' ≠ .dead) :
    Safe { s with phase := phase, writer := writer, guardian := guardian } :=
  h.rests hrests (hfrom ▸ hstarted) hguardian (fun p hplace => absurd (hfrom.symm.trans hplace) (hspawning p))
    fun hplace => absurd (hfrom.symm.trans hplace) hdead

theorem member_kept (h : Safe s) {t : Table} (hmoves : Moves s.leader s.writer s.table t) {p : Pid} {pr : Process}
    (hkilled : s.killed = true) (hmember : Member { s with table := t } p pr) :
    ∃ old, Member s p old ∧ Kept s.leader old pr := by
  obtain ⟨hp, howned, hgroup⟩ := hmember
  rcases hmoves.owned_from hp howned with ⟨old, hold, hkept⟩ | ⟨-, hborn⟩
  · refine ⟨old, ⟨hold, hkept.owned, (hkept.group hgroup).resolve_right fun hlease => ?_⟩, hkept⟩
    have hquiet := (h.spawning p old hold hkept.owned hlease).2.2
    rw [hkilled] at hquiet
    cases hquiet
  · obtain ⟨q, old, hold, hparent, hrunning, hsame⟩ := hborn.parent
    exact absurd hrunning (h.stopped hkilled q old ⟨hold, hparent, hsame.symm.trans hgroup⟩)

theorem zombie_kept {leader : Pid} {old pr : Process} (h : Kept leader old pr) (hzombie : old.status = .zombie) :
    pr.status = .zombie := by
  cases hstatus : pr.status with
  | running =>
    rw [h.running hstatus] at hzombie
    cases hzombie
  | doomed =>
    rw [h.doomed hstatus] at hzombie
    cases hzombie
  | zombie => rfl

theorem led_move (h : Safe s) {t : Table} (hmoves : Moves s.leader s.writer s.table t) {pr : Process}
    (hled : Led s pr) : ∃ pr', Led { s with table := t } pr' ∧ pr'.group = s.leader ∧ pr'.lease = false ∧
      (pr'.status = pr.status ∨ pr.status = .doomed ∧ pr'.status = .zombie) := by
  obtain ⟨hgroup, hlease⟩ := h.lead pr hled
  obtain ⟨pr', hfound, howned, hsame, hclosed, hstatus⟩ := hmoves.leader_kept hled.1 hled.2 hlease
  exact ⟨pr', ⟨hfound, howned⟩, hsame.trans hgroup, hclosed, hstatus⟩

theorem led_from {t : Table} (hmoves : Moves s.leader s.writer s.table t) {pr : Process}
    (hled : Led { s with table := t } pr) : ∃ old, Led s old := by
  rcases hmoves.owned_from hled.1 hled.2 with ⟨old, hold, hkept⟩ | ⟨-, hborn⟩
  · exact ⟨old, hold, hkept.owned⟩
  · exact absurd rfl hborn.ne

theorem safe_move (h : Safe s) {t : Table} (hmoves : Moves s.leader s.writer s.table t) :
    Safe { s with table := t } := by
  have hled : ∀ pr, Led { s with table := t } pr → ∃ old, Led s old ∧ pr.group = s.leader ∧ pr.lease = false ∧
      (pr.status = old.status ∨ old.status = .doomed ∧ pr.status = .zombie) := by
    intro pr hpr
    obtain ⟨old, hold⟩ := led_from hmoves hpr
    obtain ⟨pr', hpr', hgroup, hlease, hstatus⟩ := led_move h hmoves hold
    obtain rfl : pr' = pr := Option.some.inj (hpr'.1.symm.trans hpr.1)
    exact ⟨old, hold, hgroup, hlease, hstatus⟩
  constructor
  · intro hphase
    obtain ⟨hnone, hrest⟩ := h.unstarted hphase
    refine ⟨fun p pr hp => ?_, hrest⟩
    by_contra howned
    rcases hmoves.owned_from hp (by simpa using howned) with ⟨old, hold, hkept⟩ | ⟨-, hborn⟩
    · exact Bool.false_ne_true ((hnone p old hold).symm.trans hkept.owned)
    · obtain ⟨q, old, hold, hparent, -⟩ := hborn.parent
      rw [hnone q old hold] at hparent
      cases hparent
  · intro pr hpr
    obtain ⟨-, -, hgroup, hlease, -⟩ := hled pr hpr
    exact ⟨hgroup, hlease⟩
  · rintro ⟨lead, hlead⟩ p pr hp hgroup
    obtain ⟨old, hold, -⟩ := hled lead hlead
    exact hmoves.members_owned hold.1 hold.2 (h.members ⟨old, hold⟩) hp hgroup
  · intro group hguardian
    obtain ⟨hsame, old, hold⟩ := h.guardian group hguardian
    obtain ⟨pr, hpr, -⟩ := led_move h hmoves hold
    exact ⟨hsame, pr, hpr⟩
  · intro p pr hp howned hlease
    rcases hmoves.owned_from hp howned with ⟨old, hold, hkept⟩ | ⟨-, hborn⟩
    · exact h.spawning p old hold hkept.owned (hkept.lease hlease)
    · rw [hborn.lease] at hlease
      cases hlease
  · exact h.early
  · intro p pr hp howned hdoomed
    rcases hmoves.owned_from hp howned with ⟨old, hold, hkept⟩ | ⟨-, hborn⟩
    · exact h.doomed p old hold hkept.owned (hkept.doomed hdoomed)
    · rw [hborn.running] at hdoomed
      cases hdoomed
  · intro hkilled p pr hmember hrunning
    obtain ⟨old, hold, hkept⟩ := member_kept h hmoves hkilled hmember
    exact h.stopped hkilled p old hold (hkept.running hrunning)
  · intro hphase hlost hkilled
    obtain ⟨old, hold, hrunning⟩ := h.awake hphase hlost hkilled
    obtain ⟨pr, hpr, -, -, hstatus⟩ := led_move h hmoves hold
    refine ⟨pr, hpr, ?_⟩
    rw [hrunning] at hstatus
    rcases hstatus with hstatus | ⟨hdoomed, -⟩
    · exact hstatus
    · cases hdoomed
  · intro left hphase
    obtain ⟨hguardian, ⟨old, hold, hzombie⟩, hleft⟩ := h.scanning left hphase
    obtain ⟨pr, hpr, -, -, hstatus⟩ := led_move h hmoves hold
    refine ⟨hguardian, ⟨pr, hpr, hstatus.elim (fun hsame => hsame.trans hzombie) And.right⟩, fun hkilled p pr' hmember => ?_⟩
    obtain ⟨old', hold', hkept⟩ := member_kept h hmoves hkilled hmember
    exact (hleft hkilled p old' hold').imp_left (zombie_kept hkept)
  · intro hterminated
    obtain ⟨hkilled, hzombies⟩ := h.terminated hterminated
    refine ⟨hkilled, fun p pr hmember => ?_⟩
    obtain ⟨old, hold, hkept⟩ := member_kept h hmoves hkilled hmember
    exact zombie_kept hkept (hzombies p old hold)

-- The signal stops the whole group; whoever still held a lease would have kept it away.
theorem safe_strike (h : Safe s) (hstarted : s.phase ≠ .unstarted)
    (hquiet : ∀ p pr, s.table p = some pr → pr.owned = true → pr.lease = false)
    (hplace : s.phase ≠ .starting ∧ s.phase ≠ .prepared ∧ ∀ c, s.phase ≠ .spawning c)
    (hscanning : ∀ left, s.phase ≠ .scanning left) :
    Safe { s with table := strike s.leader s.table, killed := true } := by
  have hfrom : ∀ p pr, strike s.leader s.table p = some pr →
      ∃ old, s.table p = some old ∧ struck s.leader old = pr := fun p pr hp => strike_eq_some.mp hp
  constructor
  · exact fun hphase => absurd hphase hstarted
  · rintro pr ⟨hfound, howned⟩
    obtain ⟨old, hold, rfl⟩ := hfrom _ pr hfound
    rw [struck_owned] at howned
    rw [struck_group, struck_lease]
    exact h.lead old ⟨hold, howned⟩
  · rintro ⟨lead, hlead, howned⟩ p pr hp hgroup
    obtain ⟨oldLead, holdLead, rfl⟩ := hfrom _ lead hlead
    obtain ⟨old, hold, rfl⟩ := hfrom p pr hp
    rw [struck_owned] at howned ⊢
    rw [struck_group] at hgroup
    exact h.members ⟨oldLead, holdLead, howned⟩ p old hold hgroup
  · intro group hguardian
    obtain ⟨hsame, old, hold, howned⟩ := h.guardian group hguardian
    refine ⟨hsame, struck s.leader old, strike_eq_some.mpr ⟨old, hold, rfl⟩, ?_⟩
    rwa [struck_owned]
  · intro p pr hp howned hlease
    obtain ⟨old, hold, rfl⟩ := hfrom p pr hp
    rw [struck_owned] at howned
    rw [struck_lease, hquiet p old hold howned] at hlease
    cases hlease
  · rintro (hphase | hphase | ⟨c, hphase⟩)
    · exact absurd hphase hplace.1
    · exact absurd hphase hplace.2.1
    · exact absurd hphase (hplace.2.2 c)
  · exact fun _ _ _ _ _ => rfl
  · rintro - p pr ⟨hp, -, hgroup⟩
    obtain ⟨old, hold, rfl⟩ := hfrom p pr hp
    exact struck_stopped (by rwa [struck_group] at hgroup)
  · exact fun _ _ hkilled => Bool.noConfusion hkilled
  · exact fun left hphase => absurd hphase (hscanning left)
  · intro hterminated
    refine ⟨rfl, ?_⟩
    rintro p pr ⟨hp, howned, hgroup⟩
    obtain ⟨old, hold, rfl⟩ := hfrom p pr hp
    rw [struck_owned] at howned
    rw [struck_group] at hgroup
    exact struck_zombie ((h.terminated hterminated).2 p old ⟨hold, howned, hgroup⟩)

theorem led_started (h : Safe s) {pr : Process} (hled : Led s pr) : s.phase ≠ .unstarted := by
  intro hphase
  have hnone := (h.unstarted hphase).1 s.leader pr hled.1
  rw [hled.2] at hnone
  cases hnone

theorem safe_strikes (h : Safe s) (hstrikes : Strikes s s') : Safe s' := by
  cases hstrikes with
  | @request_termination group hphase hguardian =>
    obtain ⟨rfl, lead, hlead⟩ := h.guardian group hguardian
    have hstarted := led_started h hlead
    have hquiet : ∀ p pr, s.table p = some pr → pr.owned = true → pr.lease = false := by
      intro p pr hp howned
      by_contra hlease
      rcases (h.spawning p pr hp howned (by simpa using hlease)).1 with hplace | hplace <;> rw [hphase] at hplace <;>
        cases hplace
    have hother : ∀ phase, phase ≠ .closing → s.phase ≠ phase := fun phase hne heq => hne (heq.symm.trans hphase)
    have hstruck : Safe { s with table := strike s.leader s.table, killed := true } :=
      safe_strike h hstarted hquiet
        ⟨hother _ Phase.noConfusion, hother _ Phase.noConfusion, fun c => hother _ Phase.noConfusion⟩
        fun left => hother _ Phase.noConfusion
    refine Safe.at hstruck Phase.noConfusion hstarted (.inl rfl) id ?_ ?_ ?_ ?_
    · exact fun p hplace => absurd hplace (hother _ Phase.noConfusion)
    · exact fun hplace => absurd hplace (hother _ Phase.noConfusion)
    · rintro (hplace | hplace | ⟨c, hplace⟩) <;> cases hplace
    · intro left hplace
      cases hplace
  | @kill_group pr hlead howned hrunning hrevoked =>
    have hquiet : ∀ p pr, s.table p = some pr → pr.owned = true → pr.lease = false := by
      intro p pr hp howned
      rcases hrevoked with ⟨-, -, hreleased⟩ | ⟨hsilent, -⟩
      · exact hreleased p pr hp
      · by_contra hlease
        have hgreeted := (h.spawning p pr hp howned (by simpa using hlease)).2.1
        rw [hsilent] at hgreeted
        cases hgreeted
    have hlate : ¬ (s.phase = .starting ∨ s.phase = .prepared ∨ ∃ c, s.phase = .spawning c) := by
      intro hearly
      obtain ⟨hwriter, -, -, hgreeted⟩ := h.early hearly
      rcases hrevoked with ⟨-, hclosed, -⟩ | ⟨hsilent, hpast⟩
      · rw [hwriter] at hclosed
        cases hclosed
      · rw [hgreeted hpast] at hsilent
        cases hsilent
    refine safe_strike h (led_started h ⟨hlead, howned⟩) hquiet
      ⟨fun hphase => hlate (.inl hphase), fun hphase => hlate (.inr (.inl hphase)),
        fun c hphase => hlate (.inr (.inr ⟨c, hphase⟩))⟩ fun left hphase => ?_
    obtain ⟨-, ⟨lead, ⟨hfound, -⟩, hzombie⟩, -⟩ := h.scanning left hphase
    obtain rfl := Option.some.inj (hlead.symm.trans hfound)
    rw [hrunning] at hzombie
    cases hzombie

theorem safe_start (h : Safe s) {group : Pid} (hphase : s.phase = .unstarted) (hfresh : Fresh s.table group) :
    Safe { s with
      table := Function.update s.table group (some ⟨group, .running, false, true⟩)
      leader := group
      phase := .starting
      writer := true
      guardian := some group } := by
  obtain ⟨hnone, hkilled, hgreeted, -⟩ := h.unstarted hphase
  have hat : ∀ p pr, Function.update s.table group (some ⟨group, .running, false, true⟩) p = some pr →
      p = group ∧ pr = ⟨group, .running, false, true⟩ ∨ s.table p = some pr ∧ pr.owned = false := by
    intro p pr hp
    rcases eq_or_ne p group with rfl | hne
    · rw [Function.update_self] at hp
      exact .inl ⟨rfl, (Option.some.inj hp).symm⟩
    · rw [Function.update_of_ne hne] at hp
      exact .inr ⟨hp, hnone p pr hp⟩
  have howned : ∀ p pr, Function.update s.table group (some ⟨group, .running, false, true⟩) p = some pr →
      pr.owned = true → p = group ∧ pr = ⟨group, .running, false, true⟩ := by
    intro p pr hp hpr
    refine (hat p pr hp).resolve_right fun hother => ?_
    rw [hother.2] at hpr
    cases hpr
  have hled : Led { s with
      table := Function.update s.table group (some ⟨group, .running, false, true⟩)
      leader := group
      phase := .starting
      writer := true
      guardian := some group } ⟨group, .running, false, true⟩ := ⟨Function.update_self .., rfl⟩
  constructor
  · intro hplace
    cases hplace
  · rintro pr ⟨hp, hpr⟩
    obtain ⟨-, rfl⟩ := howned _ pr hp hpr
    exact ⟨rfl, rfl⟩
  · rintro - p pr hp hgroup
    rcases hat p pr hp with ⟨-, rfl⟩ | ⟨hold, -⟩
    · rfl
    · exact absurd hgroup (hfresh.2 p pr hold)
  · intro group' hguardian
    obtain rfl := Option.some.inj hguardian
    exact ⟨rfl, _, hled⟩
  · intro p pr hp hpr hlease
    obtain ⟨-, rfl⟩ := howned p pr hp hpr
    cases hlease
  · exact fun _ => ⟨rfl, hkilled, Option.some_ne_none _, fun hne => absurd rfl hne⟩
  · intro p pr hp hpr hdoomed
    obtain ⟨-, rfl⟩ := howned p pr hp hpr
    cases hdoomed
  · intro hstruck
    rw [hkilled] at hstruck
    cases hstruck
  · exact fun _ _ _ => ⟨_, hled, rfl⟩
  · intro left hplace
    cases hplace
  · intro hterminated
    have hstruck := (h.terminated hterminated).1
    rw [hkilled] at hstruck
    cases hstruck

theorem safe_fork (h : Safe s) {child home : Pid} (hphase : s.phase = .prepared) (hfresh : Fresh s.table child)
    (hhome : home ≠ s.leader) :
    Safe { s with
      table := Function.update s.table child (some ⟨home, .running, true, true⟩)
      phase := .spawning child } := by
  obtain ⟨hwriter, hkilled, hguardian, hgreeted⟩ := h.early (.inr (.inl hphase))
  obtain ⟨group, hgroup⟩ := Option.ne_none_iff_exists'.mp hguardian
  obtain ⟨rfl, lead, hlead⟩ := h.guardian group hgroup
  have hready : s.greeted = true := hgreeted (by rw [hphase]; exact Phase.noConfusion)
  have hchild : s.leader ≠ child := by
    intro heq
    have hfound := hlead.1
    rw [heq, hfresh.1] at hfound
    cases hfound
  have hat : ∀ p pr, Function.update s.table child (some ⟨home, .running, true, true⟩) p = some pr →
      p = child ∧ pr = ⟨home, .running, true, true⟩ ∨ s.table p = some pr := by
    intro p pr hp
    rcases eq_or_ne p child with rfl | hne
    · rw [Function.update_self] at hp
      exact .inl ⟨rfl, (Option.some.inj hp).symm⟩
    · rw [Function.update_of_ne hne] at hp
      exact .inr hp
  have hlast : Function.update s.table child (some ⟨home, .running, true, true⟩) s.leader = s.table s.leader :=
    Function.update_of_ne hchild _ _
  have hmember : ∀ p pr, Function.update s.table child (some ⟨home, .running, true, true⟩) p = some pr →
      pr.group = s.leader → s.table p = some pr := by
    intro p pr hp hin
    refine (hat p pr hp).resolve_left fun hnew => ?_
    rw [hnew.2] at hin
    exact hhome hin
  constructor
  · intro hplace
    cases hplace
  · exact fun pr hpr => h.lead pr ⟨hlast ▸ hpr.1, hpr.2⟩
  · exact fun _ p pr hp hin => h.members ⟨lead, hlead⟩ p pr (hmember p pr hp hin) hin
  · exact fun group' hgroup' => ⟨(h.guardian group' hgroup').1, lead, hlast.trans hlead.1, hlead.2⟩
  · intro p pr hp hpr hlease
    rcases hat p pr hp with ⟨rfl, -⟩ | hold
    · exact ⟨.inl rfl, hready, hkilled⟩
    · rcases (h.spawning p pr hold hpr hlease).1 with hplace | hplace <;> rw [hphase] at hplace <;> cases hplace
  · exact fun _ => ⟨hwriter, hkilled, hguardian, fun _ => hready⟩
  · intro p pr hp hpr hdoomed
    rcases hat p pr hp with ⟨-, rfl⟩ | hold
    · cases hdoomed
    · exact h.doomed p pr hold hpr hdoomed
  · exact fun hstruck p pr hin => h.stopped hstruck p pr ⟨hmember p pr hin.1 hin.2.2, hin.2⟩
  · intro _ hlost hstruck
    obtain ⟨old, hold, hrunning⟩ := h.awake (led_started h hlead) hlost hstruck
    exact ⟨old, ⟨hlast.trans hold.1, hold.2⟩, hrunning⟩
  · intro left hplace
    cases hplace
  · intro hterminated
    have hstruck := (h.terminated hterminated).1
    rw [hkilled] at hstruck
    cases hstruck

theorem found_of_removed {t : Table} {leader p : Pid} {pr : Process} (hp : Function.update t leader none p = some pr) :
    p ≠ leader ∧ t p = some pr := by
  rcases eq_or_ne p leader with rfl | hne
  · rw [Function.update_self] at hp
    cases hp
  · rw [Function.update_of_ne hne] at hp
    exact ⟨hne, hp⟩

-- The number of the group is given back, and nothing is left to send a signal to.
theorem safe_remove (h : Safe s) {lead : Process} (hlead : s.table s.leader = some lead) (hzombie : lead.status = .zombie)
    (hguardian : s.guardian = none) (hscanning : ∀ left, s.phase ≠ .scanning left)
    (hearly : ¬ (s.phase = .starting ∨ s.phase = .prepared ∨ ∃ c, s.phase = .spawning c)) :
    Safe { s with table := Function.update s.table s.leader none } := by
  have hnone : ∀ pr, ¬ Led { s with table := Function.update s.table s.leader none } pr := by
    rintro pr ⟨hp, -⟩
    exact (found_of_removed hp).1 rfl
  constructor
  · intro hphase
    obtain ⟨hstrangers, hrest⟩ := h.unstarted hphase
    exact ⟨fun p pr hp => hstrangers p pr (found_of_removed hp).2, hrest⟩
  · exact fun pr hpr => absurd hpr (hnone pr)
  · exact fun ⟨pr, hpr⟩ => absurd hpr (hnone pr)
  · intro group hgroup
    rw [hguardian] at hgroup
    cases hgroup
  · exact fun p pr hp => h.spawning p pr (found_of_removed hp).2
  · exact fun hplace => absurd hplace hearly
  · exact fun p pr hp => h.doomed p pr (found_of_removed hp).2
  · exact fun hkilled p pr hmember => h.stopped hkilled p pr ⟨(found_of_removed hmember.1).2, hmember.2⟩
  · intro hphase hlost hkilled
    obtain ⟨old, hold, hrunning⟩ := h.awake hphase hlost hkilled
    obtain rfl := Option.some.inj (hlead.symm.trans hold.1)
    rw [hrunning] at hzombie
    cases hzombie
  · exact fun left hphase => absurd hphase (hscanning left)
  · intro hterminated
    obtain ⟨hkilled, hzombies⟩ := h.terminated hterminated
    exact ⟨hkilled, fun p pr hmember => hzombies p pr ⟨(found_of_removed hmember.1).2, hmember.2⟩⟩

theorem safe_reap (h : Safe s) {group : Pid} (hphase : s.phase = .scanning []) (hguardian : s.guardian = some group) :
    Safe { s with
      table := Function.update s.table group none
      guardian := none
      phase := .idle
      terminated := s.terminated || s.killed } := by
  obtain ⟨rfl, -⟩ := h.guardian group hguardian
  obtain ⟨-, ⟨lead, hlead, hzombie⟩, hleft⟩ := h.scanning [] hphase
  have hplaced : Safe { s with phase := .idle, guardian := none } := by
    refine Safe.at h Phase.noConfusion (led_started h hlead) (.inr rfl) id ?_ ?_ ?_ ?_
    · exact fun p hplace => absurd (hphase.symm.trans hplace) Phase.noConfusion
    · exact fun hplace => absurd (hphase.symm.trans hplace) Phase.noConfusion
    · rintro (hplace | hplace | ⟨c, hplace⟩) <;> cases hplace
    · intro left hplace
      cases hplace
  have hremoved : Safe { s with phase := .idle, guardian := none, table := Function.update s.table s.leader none } := by
    refine safe_remove hplaced hlead.1 hzombie rfl (fun left => Phase.noConfusion) ?_
    rintro (hplace | hplace | ⟨c, hplace⟩) <;> cases hplace
  refine ⟨hremoved.unstarted, hremoved.lead, hremoved.members, hremoved.guardian, hremoved.spawning, hremoved.early,
    hremoved.doomed, hremoved.stopped, hremoved.awake, hremoved.scanning, fun hterminated => ?_⟩
  rcases Bool.or_eq_true_iff.mp hterminated with hbefore | hkilled
  · exact hremoved.terminated hbefore
  · refine ⟨hkilled, fun p pr hmember => ?_⟩
    exact (hleft hkilled p pr ⟨(found_of_removed hmember.1).2, hmember.2⟩).resolve_right List.not_mem_nil

theorem safe_lose (h : Safe s) {lead : Process} (hlead : s.table s.leader = some lead) (howned : lead.owned = true)
    (hrunning : lead.status = .running) :
    Safe { s with
      table := Function.update s.table s.leader (some { lead with status := .zombie, lease := false })
      lost := true } := by
  obtain ⟨hgroup, hlease⟩ := h.lead lead ⟨hlead, howned⟩
  have hstarted := led_started h ⟨hlead, howned⟩
  have hat : ∀ p pr, Function.update s.table s.leader (some { lead with status := .zombie, lease := false }) p = some pr →
      p = s.leader ∧ pr = { lead with status := .zombie, lease := false } ∨ s.table p = some pr := by
    intro p pr hp
    rcases eq_or_ne p s.leader with rfl | hne
    · rw [Function.update_self] at hp
      exact .inl ⟨rfl, (Option.some.inj hp).symm⟩
    · rw [Function.update_of_ne hne] at hp
      exact .inr hp
  have hself : Function.update s.table s.leader (some { lead with status := .zombie, lease := false }) s.leader =
      some { lead with status := .zombie, lease := false } := Function.update_self ..
  constructor
  · exact fun hphase => absurd hphase hstarted
  · rintro pr ⟨hp, -⟩
    obtain rfl := Option.some.inj (hself.symm.trans hp)
    exact ⟨hgroup, rfl⟩
  · rintro - p pr hp hin
    rcases hat p pr hp with ⟨-, rfl⟩ | hold
    · exact howned
    · exact h.members ⟨lead, hlead, howned⟩ p pr hold hin
  · exact fun group hguardian => ⟨(h.guardian group hguardian).1, _, hself, howned⟩
  · intro p pr hp hpr hopen
    rcases hat p pr hp with ⟨-, rfl⟩ | hold
    · cases hopen
    · exact h.spawning p pr hold hpr hopen
  · exact h.early
  · intro p pr hp hpr hdoomed
    rcases hat p pr hp with ⟨-, rfl⟩ | hold
    · cases hdoomed
    · exact h.doomed p pr hold hpr hdoomed
  · intro hkilled p pr hmember hruns
    rcases hat p pr hmember.1 with ⟨-, rfl⟩ | hold
    · cases hruns
    · exact h.stopped hkilled p pr ⟨hold, hmember.2⟩ hruns
  · exact fun _ hlost => Bool.noConfusion hlost
  · intro left hphase
    obtain ⟨-, ⟨old, hold, hzombie⟩, -⟩ := h.scanning left hphase
    obtain rfl := Option.some.inj (hlead.symm.trans hold.1)
    rw [hrunning] at hzombie
    cases hzombie
  · intro hterminated
    obtain ⟨hkilled, hzombies⟩ := h.terminated hterminated
    refine ⟨hkilled, fun p pr hmember => ?_⟩
    rcases hat p pr hmember.1 with ⟨-, rfl⟩ | hold
    · rfl
    · exact hzombies p pr ⟨hold, hmember.2⟩

theorem safe_collect (h : Safe s) {lead : Process} (hguardian : s.guardian = none)
    (hlead : s.table s.leader = some lead) (hzombie : lead.status = .zombie) :
    Safe { s with table := Function.update s.table s.leader none } :=
  safe_remove h hlead hzombie hguardian (fun left hphase => (h.scanning left hphase).1 hguardian)
    fun hearly => (h.early hearly).2.2.1 hguardian

theorem safe_step (h : Safe s) (hstep : Step s s') : Safe s' := by
  cases hstep with
  | start hphase hfresh => exact safe_start h hphase hfresh
  | dispatch hphase hfound howned hrunning =>
    refine Safe.at h (by rw [hphase]; exact Phase.noConfusion) (led_started h ⟨hfound, howned⟩) (.inl rfl) (fun _ => rfl)
      (fun p hplace _ => .inl hplace) id (fun hearly => ?_) h.scanning
    obtain ⟨hwriter, hkilled, hguardian, -⟩ := h.early hearly
    exact ⟨hwriter, hkilled, hguardian, fun _ => rfl⟩
  | ready hphase hgreeted =>
    obtain ⟨hwriter, hkilled, hguardian, -⟩ := h.early (.inl hphase)
    refine Safe.at h Phase.noConfusion (by rw [hphase]; exact Phase.noConfusion) (.inl rfl) id ?_ ?_
      (fun _ => ⟨hwriter, hkilled, hguardian, fun _ => hgreeted⟩) ?_
    · exact fun p hplace => absurd (hphase.symm.trans hplace) Phase.noConfusion
    · exact fun hplace => absurd (hphase.symm.trans hplace) Phase.noConfusion
    · intro left hplace
      cases hplace
  | fail hphase =>
    rcases hphase with hphase | hphase
    · exact h.rests_from hphase (.inl rfl) Phase.noConfusion (.inl rfl) (fun p => Phase.noConfusion) Phase.noConfusion
    · exact h.rests_from hphase (.inl rfl) Phase.noConfusion (.inl rfl) (fun p => Phase.noConfusion) Phase.noConfusion
  | fork hphase hfresh hhome => exact safe_fork h hphase hfresh hhome
  | @spawned child hphase hclosed =>
    refine h.rests (.inl rfl) (by rw [hphase]; exact Phase.noConfusion) (.inl rfl) ?_
      fun hplace => absurd (hphase.symm.trans hplace) Phase.noConfusion
    rintro p hplace ⟨pr, hp, hopen⟩
    obtain rfl := Phase.spawning.inj (hphase.symm.trans hplace)
    rw [hclosed pr hp] at hopen
    cases hopen
  | request hphase =>
    exact h.rests_from hphase (.inr (.inl rfl)) Phase.noConfusion (.inl rfl) (fun p => Phase.noConfusion)
      Phase.noConfusion
  | unsent hphase =>
    exact h.rests_from hphase (.inl rfl) Phase.noConfusion (.inl rfl) (fun p => Phase.noConfusion) Phase.noConfusion
  | @wait_nowait group pr listed hphase hguardian hfound hzombie hlisted =>
    obtain ⟨rfl, lead, hlead⟩ := h.guardian group hguardian
    obtain rfl := Option.some.inj (hfound.symm.trans hlead.1)
    refine Safe.at h Phase.noConfusion (led_started h hlead) (.inl rfl) id ?_ ?_ ?_ ?_
    · exact fun p hplace => absurd (hphase.symm.trans hplace) Phase.noConfusion
    · exact fun hplace => absurd (hphase.symm.trans hplace) Phase.noConfusion
    · rintro (hplace | hplace | ⟨c, hplace⟩) <;> cases hplace
    · intro left hplace
      obtain rfl := Phase.scanning.inj hplace
      refine ⟨?_, ⟨pr, hlead, hzombie⟩, fun _ p pr' hmember => .inr (hlisted p pr' hmember.1)⟩
      rw [hguardian]
      exact Option.some_ne_none _
  | @stopped q left hphase hstopped =>
    obtain ⟨hguardian, ⟨lead, hlead, hzombie⟩, hleft⟩ := h.scanning _ hphase
    refine Safe.at h Phase.noConfusion (led_started h hlead) (.inl rfl) id ?_ ?_ ?_ ?_
    · exact fun p hplace => absurd (hphase.symm.trans hplace) Phase.noConfusion
    · exact fun hplace => absurd (hphase.symm.trans hplace) Phase.noConfusion
    · rintro (hplace | hplace | ⟨c, hplace⟩) <;> cases hplace
    · intro left' hplace
      obtain rfl := Phase.scanning.inj hplace
      refine ⟨hguardian, ⟨lead, hlead, hzombie⟩, fun hkilled p pr hmember => ?_⟩
      rcases hleft hkilled p pr hmember with hdead | hmem
      · exact .inl hdead
      · rcases List.mem_cons.mp hmem with rfl | hlater
        · exact .inl (hstopped pr hmember.1 hmember.2.2)
        · exact .inr hlater
  | unstopped hphase =>
    exact h.rests_from hphase (.inl rfl) Phase.noConfusion (.inl rfl) (fun p => Phase.noConfusion) Phase.noConfusion
  | reap hphase hguardian => exact safe_reap h hphase hguardian
  | detach hphase =>
    exact h.rests_from hphase (.inr (.inr (.inl rfl))) Phase.noConfusion (.inr rfl) (fun p => Phase.noConfusion)
      Phase.noConfusion
  | crash hstarted =>
    exact h.rests (.inr (.inr (.inr rfl))) hstarted (.inr rfl) (fun p hplace hopen => rfl) fun hplace => rfl
  | collect hguardian hfound hzombie => exact safe_collect h hguardian hfound hzombie
  | lose hfound howned hrunning => exact safe_lose h hfound howned hrunning
  | move hmoves => exact safe_move h hmoves
  | strike hstrikes => exact safe_strikes h hstrikes

theorem safe_reachable (h : Reachable s) : Safe s := by
  induction h with
  | initial hstrangers => exact safe_initial hstrangers
  | step _ hstep ih => exact safe_step ih hstep

-- Whom the signals reach, in a state that is about to send one.
theorem strikes_owned (h : Reachable s) (hstrikes : Strikes s s') {p : Pid} {pr : Process} (hp : s.table p = some pr)
    (hgroup : pr.group = s.leader) : pr.owned = true := by
  have hsafe := safe_reachable h
  cases hstrikes with
  | request_termination hphase hguardian => exact hsafe.members (hsafe.guardian _ hguardian).2 p pr hp hgroup
  | kill_group hlead howned hrunning hrevoked => exact hsafe.members ⟨_, hlead, howned⟩ p pr hp hgroup

theorem runs_guarded (h : Reachable s) {p : Pid} {pr : Process} (hmember : Member s p pr)
    (hrunning : pr.status = .running) : s.killed = false ∧ (s.lost = false → ∃ lead, Led s lead ∧ lead.status = .running) := by
  have hsafe := safe_reachable h
  have hkilled : s.killed = false := by
    by_contra hstruck
    exact hsafe.stopped (by simpa using hstruck) p pr hmember hrunning
  have hstarted : s.phase ≠ .unstarted := by
    intro hphase
    have hnone := (hsafe.unstarted hphase).1 p pr hmember.1
    rw [hmember.2.1] at hnone
    cases hnone
  exact ⟨hkilled, fun hlost => hsafe.awake hstarted hlost hkilled⟩

-- A guardian that nobody holds back can send its signal.
theorem guardian_strikes (h : Reachable s) {lead : Process} (hlead : Led s lead) (hrunning : lead.status = .running)
    (hwriter : s.writer = false) (hreleased : ∀ p pr, s.table p = some pr → pr.lease = false) : ∃ s', Strikes s s' := by
  refine ⟨_, .kill_group hlead.1 hlead.2 hrunning ?_⟩
  cases hgreeted : s.greeted with
  | true => exact .inl ⟨rfl, hwriter, hreleased⟩
  | false =>
    refine .inr ⟨rfl, fun hphase => ?_⟩
    have hopen := ((safe_reachable h).early (.inl hphase)).1
    rw [hwriter] at hopen
    cases hopen

-- What holds of the runtime's group at every point of every interleaving.
structure Guarded (s : State) : Prop where
  signals : ∀ s', Strikes s s' → ∀ p pr, s.table p = some pr → pr.group = s.leader → pr.owned = true
  stopped : s.killed = true → ∀ p pr, Member s p pr → pr.status ≠ .running
  terminated : s.terminated = true → ∀ p pr, Member s p pr → pr.status = .zombie
  guarded : s.lost = false → ∀ p pr, Member s p pr → pr.status = .running →
    ∃ lead, Led s lead ∧ lead.status = .running ∧
      (s.writer = false → (∀ q pr', s.table q = some pr' → pr'.lease = false) → ∃ s', Strikes s s')

theorem reachable_guarded (h : Reachable s) : Guarded s where
  signals _ hstrikes _ _ hp hgroup := strikes_owned h hstrikes hp hgroup
  stopped := (safe_reachable h).stopped
  terminated hterminated := ((safe_reachable h).terminated hterminated).2
  guarded hlost p pr hmember hrunning := by
    obtain ⟨lead, hlead, hruns⟩ := (runs_guarded h hmember hrunning).2 hlost
    exact ⟨lead, hlead, hruns, guardian_strikes h hlead hruns⟩

def withGuardian : Table := Function.update (fun _ => none) 7 (some ⟨7, .running, false, true⟩)

def withChild (pr : Process) (t : Table) : Table := Function.update t 8 (some pr)

def joinedTable : Table := withChild ⟨7, .running, true, true⟩ (withChild ⟨1, .running, true, true⟩ withGuardian)

-- A runtime is started in its group and stopped again.
theorem reachable_guarded_stopped : ∃ s pr, Reachable s ∧ s.killed = true ∧ Member s 8 pr ∧ Guarded s := by
  have hinitial : Reachable (initial (fun _ => none) 0) := .initial fun p pr hp => absurd hp.symm (Option.some_ne_none pr)
  have hfree : Fresh (initial (fun _ => none) 0).table 7 := ⟨rfl, fun q pr hq => absurd hq.symm (Option.some_ne_none pr)⟩
  have hguardian : withGuardian 7 = some ⟨7, .running, false, true⟩ := Function.update_self ..
  have hchild : ∀ pr t, withChild pr t 8 = some pr := fun pr t => Function.update_self ..
  have hstarting := hinitial.step (.start rfl hfree)
  have hgreeted := hstarting.step (.dispatch rfl hguardian rfl rfl)
  have hprepared := hgreeted.step (.ready rfl rfl)
  have hfree' : Fresh withGuardian 8 := by
    refine ⟨rfl, fun q pr hq => ?_⟩
    rcases eq_or_ne q 7 with rfl | hne
    · obtain rfl := Option.some.inj (hguardian.symm.trans hq)
      decide
    · rw [withGuardian, Function.update_of_ne hne] at hq
      cases hq
  have hforked : Reachable ⟨withChild ⟨1, .running, true, true⟩ withGuardian, 7, .spawning 8, true, some 7, true, false,
      false, false⟩ := hprepared.step (.fork rfl hfree' (show 1 ≠ 7 by decide))
  have hjoined : Reachable ⟨joinedTable, 7, .spawning 8, true, some 7, true, false, false, false⟩ :=
    hforked.step (.move (.join (hchild _ _) rfl rfl rfl ⟨7, _, rfl, rfl⟩))
  have hexecuted : Reachable ⟨withChild ⟨7, .running, false, true⟩ joinedTable, 7, .spawning 8, true, some 7, true, false,
      false, false⟩ :=
    hjoined.step (.move (.exec (hchild _ _) rfl))
  have hclosed : ∀ pr, withChild ⟨7, .running, false, true⟩ joinedTable 8 = some pr → pr.lease = false := by
    intro pr hpr
    rw [hchild] at hpr
    obtain rfl := Option.some.inj hpr
    rfl
  have hspawned := hexecuted.step (.spawned rfl hclosed)
  have hclosing := hspawned.step (.request rfl)
  have hkilled := hclosing.step (.strike (.request_termination rfl rfl))
  exact ⟨_, _, hkilled, rfl, ⟨rfl, rfl, rfl⟩, reachable_guarded hkilled⟩

end RuntimeOwner
