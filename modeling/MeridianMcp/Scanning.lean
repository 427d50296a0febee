import Mathlib.Logic.Basic

namespace Scanning

-- A step of a scanner goes on, or leaves what follows to somebody else.
inductive Next (S : Type) where
  | going (s : S)
  | stopped (s : S)

def Next.state {S : Type} : Next S → S
  | .going s | .stopped s => s

variable {S B A E : Type} {step : S → B → Except E (Next S)}

def scan (step : S → B → Except E (Next S)) : S → List B → Except E (S × List B)
  | s, [] => .ok (s, [])
  | s, b :: rest =>
    match step s b with
    | .error e => .error e
    | .ok (.going s') => scan step s' rest
    | .ok (.stopped s') => .ok (s', rest)

theorem scan_going {s s' : S} {b : B} (h : step s b = .ok (.going s')) (rest : List B) :
    scan step s (b :: rest) = scan step s' rest := by
  rw [scan, h]

theorem scan_stopped {s s' : S} {b : B} (h : step s b = .ok (.stopped s')) (rest : List B) :
    scan step s (b :: rest) = .ok (s', rest) := by
  rw [scan, h]

-- Whatever follows, the scanner reads these elements from the first state to the second.
def Consumes (step : S → B → Except E (Next S)) (s : S) (read : List B) (s' : S) : Prop :=
  ∀ rest, scan step s (read ++ rest) = scan step s' rest

theorem Consumes.nil (s : S) : Consumes step s [] s := fun _ => rfl

theorem Consumes.one {s s' : S} {b : B} (h : step s b = .ok (.going s')) : Consumes step s [b] s' :=
  scan_going h

theorem Consumes.append {s s' s'' : S} {read read' : List B} (h : Consumes step s read s')
    (h' : Consumes step s' read' s'') : Consumes step s (read ++ read') s'' := by
  intro rest
  rw [List.append_assoc, h, h']

theorem Consumes.cons {s s' s'' : S} {b : B} {read : List B} (h : step s b = .ok (.going s'))
    (h' : Consumes step s' read s'') : Consumes step s (b :: read) s'' :=
  (Consumes.one h).append h'

-- One piece after the other, with what holds between two pieces.
theorem Consumes.flatMap {I : S → Prop} {piece : A → List B} {after : S → A → S} {xs : List A}
    (h : ∀ x ∈ xs, ∀ s, I s → Consumes step s (piece x) (after s x) ∧ I (after s x)) {s : S} (hs : I s) :
    Consumes step s (xs.flatMap piece) (xs.foldl after s) := by
  induction xs generalizing s with
  | nil => exact .nil s
  | cons x xs ih =>
    obtain ⟨hread, hafter⟩ := h x List.mem_cons_self s hs
    rw [List.flatMap_cons, List.foldl_cons]
    exact hread.append (ih (fun y hy => h y (List.mem_cons_of_mem x hy)) hafter)

theorem Consumes.done {s s' : S} {read : List B} (h : Consumes step s read s') :
    scan step s read = .ok (s', []) := by
  have hdone := h []
  rwa [List.append_nil] at hdone

theorem scan_invariant {I : S → Prop} (hstep : ∀ s b next, I s → step s b = .ok next → I next.state)
    {bytes rest : List B} {s s' : S} (hs : I s) (h : scan step s bytes = .ok (s', rest)) : I s' := by
  induction bytes generalizing s with
  | nil =>
    cases h
    exact hs
  | cons b bytes ih =>
    rw [scan] at h
    split at h
    · cases h
    · rename_i next hnext
      exact ih (hstep s b _ hs hnext) h
    · rename_i next hnext
      cases h
      exact hstep s b _ hs hnext

end Scanning
