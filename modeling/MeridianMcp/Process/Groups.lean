import Mathlib.Logic.Function.Basic

namespace ProcessGroups

abbrev Pid := Nat

-- A process that was sent the kill signal executes no more code, but it may take time to end.
inductive Status where
  | running
  | doomed
  | zombie
  deriving DecidableEq

-- `lease`: it holds a write end of one pipe. `owned`: it descends from one of the processes that the
-- owner of this pipe started for the group.
structure Process where
  group : Pid
  status : Status
  lease : Bool
  owned : Bool

abbrev Table := Pid → Option Process

-- No number is given away while it is that of a process or of a group.
def Fresh (t : Table) (p : Pid) : Prop := t p = none ∧ ∀ q pr, t q = some pr → pr.group ≠ p

def struck (group : Pid) (pr : Process) : Process :=
  if pr.group = group ∧ pr.status = .running then { pr with status := .doomed } else pr

def strike (group : Pid) (t : Table) : Table := fun p => (t p).map (struck group)

-- What the processes do on their own, seen from a group. A stranger stays out of groups with owned
-- members, and an owned process that gets the group's number once it is free counts as a stranger.
inductive Moves (leader : Pid) (held : Bool) (t : Table) : Table → Prop
  | fork {p c : Pid} {pr : Process} : t p = some pr → pr.status = .running → pr.lease = false → Fresh t c →
      Moves leader held t (Function.update t c (some { pr with owned := pr.owned && decide (c ≠ leader) }))
  | stranger {c group : Pid} {lease : Bool} : Fresh t c →
      (group = c ∨ ∃ q pr, t q = some pr ∧ pr.owned = false ∧ pr.group = group) → (lease = true → held = true) →
      Moves leader held t (Function.update t c (some ⟨group, .running, lease, false⟩))
  | leave {p : Pid} {pr : Process} : t p = some pr → pr.status = .running → pr.lease = false → p ≠ leader →
      Moves leader held t (Function.update t p (some { pr with group := p }))
  | regroup {p group : Pid} {pr : Process} : t p = some pr → pr.status = .running → pr.owned = false →
      (group = p ∨ ∃ q pr', t q = some pr' ∧ pr'.owned = false ∧ pr'.group = group) →
      Moves leader held t (Function.update t p (some { pr with group := group }))
  | join {p : Pid} {pr : Process} : t p = some pr → pr.status = .running → pr.owned = true → pr.lease = true →
      (∃ q pr', t q = some pr' ∧ pr'.group = leader) →
      Moves leader held t (Function.update t p (some { pr with group := leader }))
  | exec {p : Pid} {pr : Process} : t p = some pr → pr.status = .running →
      Moves leader held t (Function.update t p (some { pr with lease := false }))
  | finish {p : Pid} {pr : Process} : t p = some pr → (p = leader → pr.owned = true → pr.status = .doomed) →
      Moves leader held t (Function.update t p (some { pr with status := .zombie, lease := false }))
  | collect {p : Pid} {pr : Process} : t p = some pr → pr.status = .zombie → (p = leader → pr.owned = false) →
      Moves leader held t (Function.update t p none)

-- Where an owned process comes from: it was there, or a running one has forked it.
structure Kept (leader : Pid) (old pr : Process) : Prop where
  owned : old.owned = true
  lease : pr.lease = true → old.lease = true
  running : pr.status = .running → old.status = .running
  doomed : pr.status = .doomed → old.status = .doomed
  group : pr.group = leader → old.group = leader ∨ old.lease = true

structure Born (leader : Pid) (t : Table) (p : Pid) (pr : Process) : Prop where
  ne : p ≠ leader
  lease : pr.lease = false
  running : pr.status = .running
  parent : ∃ q old, t q = some old ∧ old.owned = true ∧ old.status = .running ∧ pr.group = old.group

variable {leader p : Pid} {held : Bool} {t t' : Table} {pr : Process}

theorem Kept.refl (howned : pr.owned = true) : Kept leader pr pr :=
  ⟨howned, id, id, id, .inl⟩

theorem Moves.owned_from (h : Moves leader held t t') (hp : t' p = some pr) (howned : pr.owned = true) :
    (∃ old, t p = some old ∧ Kept leader old pr) ∨ (t p = none ∧ Born leader t p pr) := by
  cases h with
  | @fork q c old hold hrunning hlease hfresh =>
    rcases eq_or_ne p c with rfl | hne
    · rw [Function.update_self] at hp
      obtain rfl := Option.some.inj hp
      obtain ⟨hparent, hleader⟩ := Bool.and_eq_true_iff.mp howned
      exact .inr ⟨hfresh.1, of_decide_eq_true hleader, hlease, hrunning, q, old, hold, hparent, hrunning, rfl⟩
    · rw [Function.update_of_ne hne] at hp
      exact .inl ⟨pr, hp, .refl howned⟩
  | @stranger c group lease hfresh hgroup hlease =>
    rcases eq_or_ne p c with rfl | hne
    · rw [Function.update_self] at hp
      obtain rfl := Option.some.inj hp
      cases howned
    · rw [Function.update_of_ne hne] at hp
      exact .inl ⟨pr, hp, .refl howned⟩
  | @leave q old hold hrunning hlease hq =>
    rcases eq_or_ne p q with rfl | hne
    · rw [Function.update_self] at hp
      obtain rfl := Option.some.inj hp
      exact .inl ⟨old, hold, howned, id, id, id, fun heq => absurd heq hq⟩
    · rw [Function.update_of_ne hne] at hp
      exact .inl ⟨pr, hp, .refl howned⟩
  | @regroup q group old hold hrunning hstranger hgroup =>
    rcases eq_or_ne p q with rfl | hne
    · rw [Function.update_self] at hp
      obtain rfl := Option.some.inj hp
      rw [hstranger] at howned
      cases howned
    · rw [Function.update_of_ne hne] at hp
      exact .inl ⟨pr, hp, .refl howned⟩
  | @join q old hold hrunning hmember hlease hgroup =>
    rcases eq_or_ne p q with rfl | hne
    · rw [Function.update_self] at hp
      obtain rfl := Option.some.inj hp
      exact .inl ⟨old, hold, howned, id, id, id, fun _ => .inr hlease⟩
    · rw [Function.update_of_ne hne] at hp
      exact .inl ⟨pr, hp, .refl howned⟩
  | @exec q old hold hrunning =>
    rcases eq_or_ne p q with rfl | hne
    · rw [Function.update_self] at hp
      obtain rfl := Option.some.inj hp
      exact .inl ⟨old, hold, howned, fun hlease => Bool.noConfusion hlease, id, id, .inl⟩
    · rw [Function.update_of_ne hne] at hp
      exact .inl ⟨pr, hp, .refl howned⟩
  | @finish q old hold hleader =>
    rcases eq_or_ne p q with rfl | hne
    · rw [Function.update_self] at hp
      obtain rfl := Option.some.inj hp
      exact .inl ⟨old, hold, howned, fun hlease => Bool.noConfusion hlease, fun hs => Status.noConfusion hs,
        fun hs => Status.noConfusion hs, .inl⟩
    · rw [Function.update_of_ne hne] at hp
      exact .inl ⟨pr, hp, .refl howned⟩
  | @collect q old hold hzombie hleader =>
    rcases eq_or_ne p q with rfl | hne
    · rw [Function.update_self] at hp
      cases hp
    · rw [Function.update_of_ne hne] at hp
      exact .inl ⟨pr, hp, .refl howned⟩

-- While the leader is there, no stranger comes to its group.
theorem Moves.members_owned {lead : Process} (h : Moves leader held t t') (hlead : t leader = some lead)
    (howned : lead.owned = true) (hmembers : ∀ p pr, t p = some pr → pr.group = leader → pr.owned = true)
    (hp : t' p = some pr) (hgroup : pr.group = leader) : pr.owned = true := by
  have hstrangers : ∀ q pr, t q = some pr → pr.owned = false → pr.group ≠ leader := by
    intro q pr hq hstranger heq
    rw [hmembers q pr hq heq] at hstranger
    cases hstranger
  cases h with
  | @fork q c old hold hrunning hlease hfresh =>
    rcases eq_or_ne p c with rfl | hne
    · rw [Function.update_self] at hp
      obtain rfl := Option.some.inj hp
      have hc : p ≠ leader := by
        rintro rfl
        rw [hfresh.1] at hlead
        cases hlead
      exact Bool.and_eq_true_iff.mpr ⟨hmembers q old hold hgroup, decide_eq_true hc⟩
    · rw [Function.update_of_ne hne] at hp
      exact hmembers p pr hp hgroup
  | @stranger c group lease hfresh hjoined hlease =>
    rcases eq_or_ne p c with rfl | hne
    · rw [Function.update_self] at hp
      obtain rfl := Option.some.inj hp
      obtain rfl : group = leader := hgroup
      rcases hjoined with rfl | ⟨q, old, hold, hstranger, hsame⟩
      · rw [hfresh.1] at hlead
        cases hlead
      · exact absurd hsame (hstrangers q old hold hstranger)
    · rw [Function.update_of_ne hne] at hp
      exact hmembers p pr hp hgroup
  | @leave q old hold hrunning hlease hq =>
    rcases eq_or_ne p q with rfl | hne
    · rw [Function.update_self] at hp
      obtain rfl := Option.some.inj hp
      exact absurd hgroup hq
    · rw [Function.update_of_ne hne] at hp
      exact hmembers p pr hp hgroup
  | @regroup q group old hold hrunning hstranger hjoined =>
    rcases eq_or_ne p q with rfl | hne
    · rw [Function.update_self] at hp
      obtain rfl := Option.some.inj hp
      obtain rfl : group = leader := hgroup
      rcases hjoined with rfl | ⟨q, old', hold', hstranger', hsame⟩
      · rw [hlead] at hold
        obtain rfl := Option.some.inj hold
        exact howned
      · exact absurd hsame (hstrangers q old' hold' hstranger')
    · rw [Function.update_of_ne hne] at hp
      exact hmembers p pr hp hgroup
  | @join q old hold hrunning hmember hlease hjoined =>
    rcases eq_or_ne p q with rfl | hne
    · rw [Function.update_self] at hp
      obtain rfl := Option.some.inj hp
      exact hmember
    · rw [Function.update_of_ne hne] at hp
      exact hmembers p pr hp hgroup
  | @exec q old hold hrunning =>
    rcases eq_or_ne p q with rfl | hne
    · rw [Function.update_self] at hp
      obtain rfl := Option.some.inj hp
      exact hmembers p old hold hgroup
    · rw [Function.update_of_ne hne] at hp
      exact hmembers p pr hp hgroup
  | @finish q old hold hleader =>
    rcases eq_or_ne p q with rfl | hne
    · rw [Function.update_self] at hp
      obtain rfl := Option.some.inj hp
      exact hmembers p old hold hgroup
    · rw [Function.update_of_ne hne] at hp
      exact hmembers p pr hp hgroup
  | @collect q old hold hzombie hleader =>
    rcases eq_or_ne p q with rfl | hne
    · rw [Function.update_self] at hp
      cases hp
    · rw [Function.update_of_ne hne] at hp
      exact hmembers p pr hp hgroup

-- The leader itself only changes when it was sent the signal.
theorem Moves.leader_kept {lead : Process} (h : Moves leader held t t') (hlead : t leader = some lead)
    (howned : lead.owned = true) (hlease : lead.lease = false) :
    ∃ lead', t' leader = some lead' ∧ lead'.owned = true ∧ lead'.group = lead.group ∧ lead'.lease = false ∧
      (lead'.status = lead.status ∨ lead.status = .doomed ∧ lead'.status = .zombie) := by
  have hsame : ∀ {q : Pid} {entry : Option Process}, q ≠ leader →
      ∃ lead', Function.update t q entry leader = some lead' ∧ lead'.owned = true ∧ lead'.group = lead.group ∧
        lead'.lease = false ∧ (lead'.status = lead.status ∨ lead.status = .doomed ∧ lead'.status = .zombie) := by
    intro q entry hne
    exact ⟨lead, by rw [Function.update_of_ne hne.symm, hlead], howned, rfl, hlease, .inl rfl⟩
  cases h with
  | @fork q c old hold hrunning hopen hfresh =>
    refine hsame fun heq => ?_
    rw [← heq, hfresh.1] at hlead
    cases hlead
  | @stranger c group lease hfresh hjoined hopen =>
    refine hsame fun heq => ?_
    rw [← heq, hfresh.1] at hlead
    cases hlead
  | @leave q old hold hrunning hopen hq => exact hsame hq
  | @regroup q group old hold hrunning hstranger hjoined =>
    refine hsame fun heq => ?_
    rw [heq, hlead] at hold
    obtain rfl := Option.some.inj hold
    rw [howned] at hstranger
    cases hstranger
  | @join q old hold hrunning hmember hopen hjoined =>
    refine hsame fun heq => ?_
    rw [heq, hlead] at hold
    obtain rfl := Option.some.inj hold
    rw [hlease] at hopen
    cases hopen
  | @exec q old hold hrunning =>
    rcases eq_or_ne q leader with rfl | hne
    · rw [hlead] at hold
      obtain rfl := Option.some.inj hold
      exact ⟨_, Function.update_self .., howned, rfl, rfl, .inl rfl⟩
    · exact hsame hne
  | @finish q old hold hleader =>
    rcases eq_or_ne q leader with rfl | hne
    · rw [hlead] at hold
      obtain rfl := Option.some.inj hold
      exact ⟨_, Function.update_self .., howned, rfl, rfl, .inr ⟨hleader rfl howned, rfl⟩⟩
    · exact hsame hne
  | @collect q old hold hzombie hleader =>
    refine hsame fun heq => ?_
    rw [heq, hlead] at hold
    obtain rfl := Option.some.inj hold
    rw [howned] at hleader
    cases hleader heq

theorem strike_eq_some {group : Pid} : strike group t p = some pr ↔ ∃ old, t p = some old ∧ struck group old = pr :=
  Option.map_eq_some_iff

@[simp] theorem struck_owned (group : Pid) (pr : Process) : (struck group pr).owned = pr.owned := by
  unfold struck
  split <;> rfl

@[simp] theorem struck_group (group : Pid) (pr : Process) : (struck group pr).group = pr.group := by
  unfold struck
  split <;> rfl

@[simp] theorem struck_lease (group : Pid) (pr : Process) : (struck group pr).lease = pr.lease := by
  unfold struck
  split <;> rfl

theorem struck_stopped {group : Pid} (h : pr.group = group) : (struck group pr).status ≠ .running := by
  unfold struck
  split
  · exact Status.noConfusion
  · rename_i hother
    exact fun hrunning => hother ⟨h, hrunning⟩

theorem struck_zombie {group : Pid} (h : pr.status = .zombie) : (struck group pr).status = .zombie := by
  unfold struck
  rw [if_neg fun hrunning => by rw [h] at hrunning; cases hrunning.2]
  exact h

end ProcessGroups
