import Mathlib.Data.Finset.Image
import MeridianMcp.Text

namespace Debugger

open MeridianMcp

structure ProcRef where
  path : Text
  overrideId : Nat
  deriving DecidableEq, Repr

structure InstructionRef where
  proc : ProcRef
  offset : Nat
  deriving DecidableEq, Repr

inductive BreakpointRequest where
  | set (instruction : InstructionRef) (condition : Option Text)
  | unset (instruction : InstructionRef)

-- A refusal is every reply that does not report success; a failure is an error of the transport.
inductive Answer where
  | success | refused | failed
  deriving DecidableEq, Repr

-- The debuggee, and how many requests it has been sent.
structure Remote where
  installed : Finset InstructionRef
  asked : Nat
  deriving DecidableEq

def Remote.request (answers : Nat → Answer) (request : BreakpointRequest) (remote : Remote) :
    Answer × Remote :=
  let installed := match answers remote.asked, request with
    | .success, .set instruction _ => insert instruction remote.installed
    | .success, .unset instruction => remote.installed.erase instruction
    | _, _ => remote.installed
  (answers remote.asked, ⟨installed, remote.asked + 1⟩)

-- The order in which a hash set hands out its members.
structure IterationOrder where
  list : Finset InstructionRef → List InstructionRef
  toFinset_list : ∀ s, (list s).toFinset = s
  nodup_list : ∀ s, (list s).Nodup

inductive BreakpointError where
  | transport
  | anyhow (text : String)
  deriving DecidableEq, Repr

structure BreakpointResult where
  instruction : InstructionRef
  verified : Bool
  deriving DecidableEq, Repr

variable (answers : Nat → Answer)

def unsetBreakpoints : List InstructionRef → Remote → Except BreakpointError Unit × Remote
  | [], remote => (.ok (), remote)
  | instruction :: instructions, remote =>
    match remote.request answers (.unset instruction) with
    | (.failed, remote) => (.error .transport, remote)
    | (.refused, remote) =>
      (.error (.anyhow "auxtools failed to remove a stale breakpoint"), remote)
    | (.success, remote) => unsetBreakpoints instructions remote

def setBreakpoints : List (InstructionRef × Option Text) → Finset InstructionRef →
    List BreakpointResult → Remote →
      Except BreakpointError (Finset InstructionRef × List BreakpointResult) × Remote
  | [], installed, results, remote => (.ok (installed, results), remote)
  | (instruction, condition) :: desired, installed, results, remote =>
    match remote.request answers (.set instruction condition) with
    | (.failed, remote) => (.error .transport, remote)
    | (.refused, remote) => setBreakpoints desired installed (results ++ [⟨instruction, false⟩]) remote
    | (.success, remote) =>
      setBreakpoints desired (insert instruction installed) (results ++ [⟨instruction, true⟩]) remote

-- The bookkeeping of a session beside the debuggee that it is about.
structure Session where
  activeBreakpoints : Finset InstructionRef
  remote : Remote
  deriving DecidableEq

def removedBreakpoints (order : IterationOrder) (desired : List (InstructionRef × Option Text))
    (session : Session) : List InstructionRef :=
  order.list (session.activeBreakpoints \ (desired.map Prod.fst).toFinset)

def replaceBreakpointsInSession (order : IterationOrder) (desired : List (InstructionRef × Option Text))
    (session : Session) : Except BreakpointError (List BreakpointResult) × Session :=
  match unsetBreakpoints answers (removedBreakpoints order desired session) session.remote with
  | (.error e, remote) => (.error e, { session with remote := remote })
  | (.ok _, remote) =>
    match setBreakpoints answers desired ∅ [] remote with
    | (.error e, remote) => (.error e, { session with remote := remote })
    | (.ok (installed, results), remote) => (.ok results, ⟨installed, remote⟩)

def Synchronised (session : Session) : Prop := session.activeBreakpoints = session.remote.installed

def afterReplacement (order : IterationOrder) (desired : List (InstructionRef × Option Text))
    (session : Session) : Session :=
  (replaceBreakpointsInSession answers order desired session).2

-- The second half: a repetition does what a first replacement does to the same debuggee.
structure Bookkept (order : IterationOrder) (desired : List (InstructionRef × Option Text))
    (session : Session) : Prop where
  synchronised : Synchronised (afterReplacement answers order desired session)
  repeatable : ∀ answers', replaceBreakpointsInSession answers' order desired
      (afterReplacement answers order desired session) =
    replaceBreakpointsInSession answers' order desired
      ⟨(afterReplacement answers order desired session).remote.installed,
        (afterReplacement answers order desired session).remote⟩

-- What the answers to a list of requests, sent from the `n`th on, come to.
def unsetDone (n : Nat) : List InstructionRef → Finset InstructionRef
  | [] => ∅
  | instruction :: instructions =>
    if answers n = .success then insert instruction (unsetDone (n + 1) instructions) else ∅

def allUnset (n : Nat) : List InstructionRef → Prop
  | [] => True
  | _ :: instructions => answers n = .success ∧ allUnset (n + 1) instructions

def setDone (n : Nat) : List (InstructionRef × Option Text) → Finset InstructionRef
  | [] => ∅
  | (instruction, _) :: desired =>
    match answers n with
    | .failed => ∅
    | .refused => setDone (n + 1) desired
    | .success => insert instruction (setDone (n + 1) desired)

def allAnswered (n : Nat) : List (InstructionRef × Option Text) → Prop
  | [] => True
  | _ :: desired => answers n ≠ .failed ∧ allAnswered (n + 1) desired

variable {answers}

variable (answers) in
theorem unsetBreakpoints_spec (instructions : List InstructionRef) (remote : Remote) :
    (unsetBreakpoints answers instructions remote).2.installed =
        remote.installed \ unsetDone answers remote.asked instructions ∧
      ((unsetBreakpoints answers instructions remote).1.isOk = true ↔
        allUnset answers remote.asked instructions) ∧
      (allUnset answers remote.asked instructions →
        (unsetBreakpoints answers instructions remote).2.asked = remote.asked + instructions.length) := by
  induction instructions generalizing remote with
  | nil => simp [unsetBreakpoints, unsetDone, allUnset, Except.isOk, Except.toBool]
  | cons instruction instructions ih =>
    rw [unsetBreakpoints, unsetDone, allUnset]
    cases ha : answers remote.asked with
    | failed => simp [Remote.request, ha, Except.isOk, Except.toBool]
    | refused => simp [Remote.request, ha, Except.isOk, Except.toBool]
    | success =>
      simp only [Remote.request, ha, if_true, true_and]
      obtain ⟨hinstalled, hok, hasked⟩ := ih ⟨remote.installed.erase instruction, remote.asked + 1⟩
      dsimp only at hinstalled hok hasked
      refine ⟨?_, hok, fun h => ?_⟩
      · rw [hinstalled]
        ext other
        simp only [Finset.mem_sdiff, Finset.mem_erase, Finset.mem_insert, not_or]
        tauto
      · rw [hasked h, List.length_cons]
        omega

variable (answers) in
theorem setBreakpoints_spec (desired : List (InstructionRef × Option Text))
    (installed : Finset InstructionRef) (results : List BreakpointResult) (remote : Remote) :
    (setBreakpoints answers desired installed results remote).2.installed =
        remote.installed ∪ setDone answers remote.asked desired ∧
      ((∃ results', (setBreakpoints answers desired installed results remote).1 =
          .ok (installed ∪ setDone answers remote.asked desired, results')) ↔
        allAnswered answers remote.asked desired) ∧
      (¬ allAnswered answers remote.asked desired →
        (setBreakpoints answers desired installed results remote).1 = .error .transport) := by
  induction desired generalizing installed results remote with
  | nil => simp [setBreakpoints, setDone, allAnswered]
  | cons request desired ih =>
    obtain ⟨instruction, condition⟩ := request
    rw [setBreakpoints, setDone, allAnswered]
    cases ha : answers remote.asked with
    | failed => simp [Remote.request, ha]
    | refused =>
      simp only [Remote.request, ha]
      simpa using ih installed (results ++ [⟨instruction, false⟩]) ⟨remote.installed, remote.asked + 1⟩
    | success =>
      simp only [Remote.request, ha]
      have h := ih (insert instruction installed) (results ++ [⟨instruction, true⟩])
        ⟨insert instruction remote.installed, remote.asked + 1⟩
      simpa [Finset.insert_union, Finset.union_insert] using h


variable (answers) in
theorem unsetDone_subset (n : Nat) (instructions : List InstructionRef) :
    unsetDone answers n instructions ⊆ instructions.toFinset := by
  induction instructions generalizing n with
  | nil => exact subset_rfl
  | cons instruction instructions ih =>
    rw [unsetDone, List.toFinset_cons]
    split
    · exact Finset.insert_subset_insert _ (ih _)
    · exact Finset.empty_subset _

theorem unsetDone_of_allUnset {n : Nat} {instructions : List InstructionRef}
    (h : allUnset answers n instructions) : unsetDone answers n instructions = instructions.toFinset := by
  induction instructions generalizing n with
  | nil => rfl
  | cons instruction instructions ih => rw [unsetDone, if_pos h.1, ih h.2, List.toFinset_cons]

variable (answers) in
theorem setDone_subset (n : Nat) (desired : List (InstructionRef × Option Text)) :
    setDone answers n desired ⊆ (desired.map Prod.fst).toFinset := by
  induction desired generalizing n with
  | nil => exact subset_rfl
  | cons request desired ih =>
    obtain ⟨instruction, condition⟩ := request
    rw [setDone, List.map_cons, List.toFinset_cons]
    cases answers n with
    | failed => exact Finset.empty_subset _
    | refused => exact (ih _).trans (Finset.subset_insert _ _)
    | success => exact Finset.insert_subset_insert _ (ih _)

-- Which answers leave the bookkeeping right, in the three ways a replacement can end.
structure Harmless (answers : Nat → Answer) (n : Nat) (stale : List InstructionRef)
    (desired : List (InstructionRef × Option Text)) (active : Finset InstructionRef) : Prop where
  stopped : ¬ allUnset answers n stale → unsetDone answers n stale = ∅
  broken : allUnset answers n stale → ¬ allAnswered answers (n + stale.length) desired →
    active ⊆ (desired.map Prod.fst).toFinset ∧ setDone answers (n + stale.length) desired ⊆ active
  completed : allUnset answers n stale → allAnswered answers (n + stale.length) desired →
    active ∩ (desired.map Prod.fst).toFinset ⊆ setDone answers (n + stale.length) desired

variable {order : IterationOrder} {desired : List (InstructionRef × Option Text)} {session : Session}

theorem replace_stopped
    (h : ¬ allUnset answers session.remote.asked
      (removedBreakpoints order desired session)) :
    (replaceBreakpointsInSession answers order desired session).2 =
      { session with remote := (unsetBreakpoints answers
          (removedBreakpoints order desired session) session.remote).2 } := by
  have hspec := (unsetBreakpoints_spec answers
    (removedBreakpoints order desired session) session.remote).2.1
  rw [← hspec] at h
  unfold replaceBreakpointsInSession
  rcases hrun : unsetBreakpoints answers (removedBreakpoints order desired session) session.remote with
    ⟨e | _, remote⟩
  · rfl
  · rw [hrun] at h
    exact absurd rfl h

theorem replace_unset
    (h : allUnset answers session.remote.asked
      (removedBreakpoints order desired session)) :
    ∃ remote, remote.asked = session.remote.asked +
        (removedBreakpoints order desired session).length ∧
      remote.installed =
        session.remote.installed \ (session.activeBreakpoints \ (desired.map Prod.fst).toFinset) ∧
      replaceBreakpointsInSession answers order desired session =
        match setBreakpoints answers desired ∅ [] remote with
        | (.error e, remote) => (.error e, { session with remote := remote })
        | (.ok (installed, results), remote) => (.ok results, ⟨installed, remote⟩) := by
  obtain ⟨hinstalled, hok, hasked⟩ := unsetBreakpoints_spec answers
    (removedBreakpoints order desired session) session.remote
  rw [unsetDone_of_allUnset h, removedBreakpoints, order.toFinset_list] at hinstalled
  refine ⟨_, hasked h, hinstalled, ?_⟩
  have hrun := hok.mpr h
  unfold replaceBreakpointsInSession
  rcases hunset : unsetBreakpoints answers (removedBreakpoints order desired session) session.remote with
    ⟨e | _, remote⟩
  · rw [hunset] at hrun
    cases hrun
  · rfl

theorem bookkept_iff_synchronised :
    Bookkept answers order desired session ↔ Synchronised (afterReplacement answers order desired session) := by
  refine ⟨Bookkept.synchronised, fun h => ⟨h, fun answers' => ?_⟩⟩
  rw [Synchronised] at h
  rw [← h]

theorem bookkept_iff (answers : Nat → Answer) (order : IterationOrder)
    (desired : List (InstructionRef × Option Text)) (session : Session) (hsync : Synchronised session) :
    Bookkept answers order desired session ↔
      Harmless answers session.remote.asked
        (removedBreakpoints order desired session) desired
        session.activeBreakpoints := by
  rw [bookkept_iff_synchronised, afterReplacement, Synchronised]
  rw [Synchronised] at hsync
  by_cases hunset : allUnset answers session.remote.asked
    (removedBreakpoints order desired session)
  · obtain ⟨remote, hasked, hinstalled, hrun⟩ := replace_unset hunset
    obtain ⟨hset, hok, hfail⟩ := setBreakpoints_spec answers desired ∅ [] remote
    rw [← hsync, sdiff_sdiff_right_self, Finset.inf_eq_inter] at hinstalled
    rw [hinstalled] at hset
    have hsub := setDone_subset answers remote.asked desired
    rw [hrun]
    by_cases hanswered : allAnswered answers remote.asked desired
    · obtain ⟨results, hresults⟩ := hok.mpr hanswered
      rcases hend : setBreakpoints answers desired ∅ [] remote with ⟨result, last⟩
      rw [hend] at hset hresults
      cases hresults
      simp only [Finset.empty_union]
      rw [hset]
      rw [hasked] at *
      constructor
      · intro h
        exact ⟨fun h' => absurd hunset h', fun _ h' => absurd hanswered h', fun _ _ => by
          rw [h]
          exact Finset.subset_union_left⟩
      · intro h
        exact (Finset.union_eq_right.mpr (h.completed hunset hanswered)).symm
    · rcases hend : setBreakpoints answers desired ∅ [] remote with ⟨result, last⟩
      rw [hend] at hset hfail
      obtain rfl := hfail hanswered
      simp only
      rw [hset]
      rw [hasked] at *
      constructor
      · intro h
        refine ⟨fun h' => absurd hunset h', fun _ _ => ⟨?_, ?_⟩, fun _ h' => absurd h' hanswered⟩
        · rw [h]
          exact Finset.union_subset Finset.inter_subset_right hsub
        · rw [h]
          exact Finset.subset_union_right
      · intro h
        obtain ⟨hactive, hdone⟩ := h.broken hunset hanswered
        rw [Finset.inter_eq_left.mpr hactive, Finset.union_eq_left.mpr hdone]
  · rw [replace_stopped hunset]
    have hinstalled := (unsetBreakpoints_spec answers
      (removedBreakpoints order desired session) session.remote).1
    have hsub := unsetDone_subset answers session.remote.asked
      (removedBreakpoints order desired session)
    rw [removedBreakpoints, order.toFinset_list, ← removedBreakpoints] at hsub
    simp only
    rw [hinstalled, ← hsync]
    constructor
    · intro h
      refine ⟨fun _ => ?_, fun h' => absurd h' hunset, fun h' => absurd h' hunset⟩
      refine Finset.eq_empty_of_forall_notMem fun instruction hmem => ?_
      have hactive := (Finset.mem_sdiff.mp (hsub hmem)).1
      rw [h] at hactive
      exact (Finset.mem_sdiff.mp hactive).2 hmem
    · intro h
      rw [h.stopped hunset, Finset.sdiff_empty]

noncomputable def someOrder : IterationOrder :=
  ⟨Finset.toList, fun s => s.toList_toFinset, fun s => s.nodup_toList⟩

def instructionAt (offset : Nat) : InstructionRef := ⟨⟨"/proc/main".toList, 0⟩, offset⟩

def oneBreakpoint : Session := ⟨{instructionAt 1}, ⟨{instructionAt 1}, 0⟩⟩

theorem removedBreakpoints_one {offset : Nat} (h : offset ≠ 1) :
    removedBreakpoints someOrder [(instructionAt offset, none)] oneBreakpoint = [instructionAt 1] := by
  have hdiff : oneBreakpoint.activeBreakpoints \
      (([(instructionAt offset, none)] : List (InstructionRef × Option Text)).map Prod.fst).toFinset =
        {instructionAt 1} := by
    have hne : instructionAt 1 ≠ instructionAt offset := fun heq => h (congrArg InstructionRef.offset heq).symm
    simp only [oneBreakpoint, List.map_cons, List.map_nil, List.toFinset_cons, List.toFinset_nil,
      insert_empty_eq]
    exact Finset.sdiff_eq_self_of_disjoint (Finset.disjoint_singleton.mpr hne)
  rw [removedBreakpoints, hdiff]
  exact Finset.toList_singleton _

theorem bookkept_iff_moved :
    Synchronised oneBreakpoint ∧
      Bookkept (fun _ => .success) someOrder [(instructionAt 2, none)] oneBreakpoint := by
  have hsync : Synchronised oneBreakpoint := rfl
  refine ⟨hsync, (bookkept_iff (fun _ => .success) someOrder [(instructionAt 2, none)] oneBreakpoint
    hsync).mpr ?_⟩
  rw [removedBreakpoints_one (by decide)]
  exact ⟨fun h => absurd ⟨rfl, trivial⟩ h, fun _ h => absurd ⟨by decide, trivial⟩ h,
    fun _ _ => by decide⟩

-- The old breakpoint is removed, then the transport breaks before the new one is set.
theorem failed_replacement_forgets :
    Synchronised oneBreakpoint ∧
      ¬ Bookkept (fun n => if n = 0 then .success else .failed) someOrder [(instructionAt 2, none)]
        oneBreakpoint := by
  refine ⟨rfl, fun h => ?_⟩
  rw [bookkept_iff_synchronised, afterReplacement, Synchronised, replaceBreakpointsInSession, removedBreakpoints_one (by decide)] at h
  exact absurd h (by decide)

end Debugger
