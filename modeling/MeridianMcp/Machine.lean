import Mathlib.Algebra.Ring.Nat
import Mathlib.Data.List.Basic

namespace Machine

-- How a computation with machine integers and slices can end other than with a value: with an
-- error of its own, with a panic, or not within the rounds it was given.
inductive Fault (ε : Type) where
  | error (e : ε)
  | panic
  | unfinished
  deriving DecidableEq, Repr

abbrev Run (ε α : Type) := Except (Fault ε) α

def fail {ε α : Type} (e : ε) : Run ε α := .error (.error e)

def lift {ε α : Type} (result : Except ε α) : Run ε α := result.mapError .error

-- Neither a panic nor a loop that goes on.
def Sound {ε α : Type} (run : Run ε α) : Prop := run ≠ .error .panic ∧ run ≠ .error .unfinished

-- What a caller sees of a sound run; another run shows no result, and `crash` stands for it.
def settle {ε α : Type} (crash : ε) : Run ε α → Except ε α
  | .ok a => .ok a
  | .error (.error e) => .error e
  | .error _ => .error crash

def wordSize : Nat := 2 ^ 64

def checkedAdd (a b : Nat) : Option Nat := if a + b < wordSize then some (a + b) else none

def checkedMul (a b : Nat) : Option Nat := if a * b < wordSize then some (a * b) else none

def saturatingAdd (a b : Nat) : Nat := min (a + b) (wordSize - 1)

def saturatingMul (a b : Nat) : Nat := min (a * b) (wordSize - 1)

def add {ε : Type} (a b : Nat) : Run ε Nat :=
  if a + b < wordSize then .ok (a + b) else .error .panic

def sub {ε : Type} (a b : Nat) : Run ε Nat := if b ≤ a then .ok (a - b) else .error .panic

def mul {ε : Type} (a b : Nat) : Run ε Nat :=
  if a * b < wordSize then .ok (a * b) else .error .panic

def get? {α : Type} (l : List α) (start stop : Nat) : Option (List α) :=
  if start ≤ stop ∧ stop ≤ l.length then some ((l.take stop).drop start) else none

def slice {ε α : Type} (l : List α) (start stop : Nat) : Run ε (List α) :=
  match get? l start stop with
  | some piece => .ok piece
  | none => .error .panic

def index {ε α : Type} (l : List α) (i : Nat) : Run ε α :=
  match l[i]? with
  | some a => .ok a
  | none => .error .panic

section Arithmetic

variable {ε : Type} {a b n : Nat}

theorem checkedAdd_eq_some : checkedAdd a b = some n ↔ n = a + b ∧ n < wordSize := by
  rw [checkedAdd]
  split
  · rename_i h
    rw [Option.some.injEq]
    exact ⟨fun heq => ⟨heq.symm, heq ▸ h⟩, fun heq => heq.1.symm⟩
  · rename_i h
    exact ⟨fun heq => (Option.some_ne_none _ heq.symm).elim, fun ⟨heq, hn⟩ => absurd (heq ▸ hn) h⟩

theorem checkedMul_eq_some : checkedMul a b = some n ↔ n = a * b ∧ n < wordSize := by
  rw [checkedMul]
  split
  · rename_i h
    rw [Option.some.injEq]
    exact ⟨fun heq => ⟨heq.symm, heq ▸ h⟩, fun heq => heq.1.symm⟩
  · rename_i h
    exact ⟨fun heq => (Option.some_ne_none _ heq.symm).elim, fun ⟨heq, hn⟩ => absurd (heq ▸ hn) h⟩

theorem add_ok (h : a + b < wordSize) : (add a b : Run ε Nat) = .ok (a + b) := if_pos h

theorem add_eq_ok : (add a b : Run ε Nat) = .ok n ↔ n = a + b ∧ n < wordSize := by
  rw [add]
  split
  · rename_i h
    rw [Except.ok.injEq]
    exact ⟨fun heq => ⟨heq.symm, heq ▸ h⟩, fun heq => heq.1.symm⟩
  · rename_i h
    exact ⟨nofun, fun ⟨heq, hn⟩ => absurd (heq ▸ hn) h⟩

theorem sub_ok (h : b ≤ a) : (sub a b : Run ε Nat) = .ok (a - b) := if_pos h

theorem mul_ok (h : a * b < wordSize) : (mul a b : Run ε Nat) = .ok (a * b) := if_pos h

end Arithmetic

section Slices

variable {ε α : Type} {l : List α} {start stop : Nat}

theorem get?_eq_some {piece : List α} :
    get? l start stop = some piece ↔
      (start ≤ stop ∧ stop ≤ l.length) ∧ (l.take stop).drop start = piece := by
  rw [get?]
  split
  · rename_i h
    rw [Option.some.injEq]
    exact (and_iff_right h).symm
  · rename_i h
    exact ⟨fun heq => (Option.some_ne_none _ heq.symm).elim, fun heq => absurd heq.1 h⟩

theorem slice_ok (hstart : start ≤ stop) (hstop : stop ≤ l.length) :
    (slice l start stop : Run ε (List α)) = .ok ((l.take stop).drop start) := by
  rw [slice, get?, if_pos ⟨hstart, hstop⟩]

theorem index_ok {i : Nat} (h : i < l.length) : (index l i : Run ε α) = .ok l[i] := by
  rw [index, List.getElem?_eq_getElem h]

theorem length_piece (hstop : stop ≤ l.length) :
    ((l.take stop).drop start).length = stop - start := by
  rw [List.length_drop, List.length_take, Nat.min_eq_left hstop]

end Slices

section Sound

variable {ε α β : Type}

@[simp] theorem sound_ok (a : α) : Sound (.ok a : Run ε α) := ⟨nofun, nofun⟩

@[simp] theorem sound_fail (e : ε) : Sound (fail e : Run ε α) := ⟨nofun, nofun⟩

theorem ok_bind (a : α) (next : α → Run ε β) : ((.ok a : Run ε α) >>= next) = next a := rfl

@[simp] theorem lift_eq_ok {result : Except ε α} {a : α} : lift result = .ok a ↔ result = .ok a := by
  cases result with
  | error e => exact ⟨nofun, nofun⟩
  | ok b => exact ⟨fun h => congrArg _ (Except.ok.inj h), fun h => congrArg _ (Except.ok.inj h)⟩

@[simp] theorem sound_lift (result : Except ε α) : Sound (lift result) := by
  cases result with
  | error e => exact sound_fail e
  | ok a => exact sound_ok a

theorem sound_bind {run : Run ε α} {next : α → Run ε β} (hrun : Sound run)
    (hnext : ∀ a, run = .ok a → Sound (next a)) : Sound (run >>= next) := by
  cases run with
  | ok a => exact hnext a rfl
  | error fault =>
    cases fault with
    | error e => exact sound_fail e
    | panic => exact absurd rfl hrun.1
    | unfinished => exact absurd rfl hrun.2

theorem sound_mapM {f : α → Run ε β} {l : List α} (h : ∀ a ∈ l, Sound (f a)) :
    Sound (l.mapM f) := by
  induction l with
  | nil => exact sound_ok _
  | cons a l ih =>
    rw [List.mapM_cons]
    refine sound_bind (h a (List.mem_cons_self ..)) fun b _ => ?_
    refine sound_bind (ih fun c hc => h c (List.mem_cons_of_mem _ hc)) fun bs _ => ?_
    exact sound_ok _

@[simp] theorem settle_eq_ok {crash : ε} {run : Run ε α} {a : α} :
    settle crash run = .ok a ↔ run = .ok a := by
  cases run with
  | ok b => exact ⟨fun h => congrArg _ (Except.ok.inj h), fun h => congrArg _ (Except.ok.inj h)⟩
  | error fault => cases fault <;> exact ⟨nofun, nofun⟩

theorem Sound.rejected {run : Run ε α} (h : Sound run) (hrun : ∀ a, run ≠ .ok a) :
    ∃ e, run = fail e := by
  cases run with
  | ok a => exact absurd rfl (hrun a)
  | error fault =>
    cases fault with
    | error e => exact ⟨e, rfl⟩
    | panic => exact absurd rfl h.1
    | unfinished => exact absurd rfl h.2

end Sound

end Machine
