import MeridianMcp.PrivateState.Acceptance

namespace PrivateState

open Effects Fallible FileSystem

variable {α : Type} {codec : JsonCodec α} {relative : List Component} {v : α} {env : Env WriteSite}
  {fs : FileSystem String}

-- A store in working order: whether a record is taken can then only hang on the record.
structure Ready (env : Env WriteSite) (fs : FileSystem String) (relative : List Component) : Prop where
  sound : ∀ site, env.fault site = false
  named : ¬ invalidName relative
  fresh : FreshNames env fs (recordPath relative)
  prepared : Prepared env fs (recordPath relative) 0
  slot : fs.node (recordPath relative) ≠ some .dir

def Stored (codec : JsonCodec α) (relative : List Component) (v : α) (env : Env WriteSite)
    (fs : FileSystem String) : Prop :=
  ∃ path t, exec env.serve (writeJsonAtomic codec relative v) fs = (.ok path, t) ∧
    readBack codec relative t = .ok v

theorem Ready.installs (h : Ready env fs relative) : Installs env fs (recordPath relative) :=
  ⟨h.sound _, fun _ => ⟨h.sound _, h.sound _⟩, fun _ => h.slot⟩

theorem Ready.completes (h : Ready env fs relative) : Completes env fs (recordPath relative) :=
  ⟨fun _ => ⟨h.sound _, h.slot⟩, h.sound _, h.sound _⟩

theorem Ready.staged {size : Nat} (h : Ready env fs relative) (hsize : size ≤ maxRecordBytes) :
    Staged env fs (recordPath relative) size :=
  ⟨{ h.prepared with fits := hsize }, fun _ _ => h.sound _⟩

theorem stored_iff (h : Ready env fs relative) :
    Stored codec relative v env fs ↔ (codec.encode v).length < maxRecordBytes := by
  by_cases hsize : (codec.encode v).length ≤ maxRecordBytes
  · obtain ⟨r, t, hexec, hok, hinstalled, -⟩ := write_staged (v := v) h.named h.fresh (h.staged hsize)
    constructor
    · rintro ⟨path, t', hexec', -⟩
      rw [hexec] at hexec'
      cases hexec'
      exact (hok.mp rfl).2.2.fits
    · intro hfits
      have hr := hok.mpr ⟨h.installs, h.completes, fun _ => h.sound _, fun _ => h.sound _, h.sound _,
        h.sound _, hfits⟩
      cases r with
      | error e => cases hr
      | ok path => exact ⟨path, t, hexec, (hinstalled h.installs).trans (recorded_of_fits hfits)⟩
  · refine iff_of_false ?_ (fun hfits => hsize hfits.le)
    rintro ⟨path, t, hexec, -⟩
    obtain ⟨par, n, hp⟩ := recordPath_concat h.named
    have hunprepared : ¬ Prepared env fs (par ++ [n]) (codec.encode v).length := fun hp => hsize hp.fits
    obtain ⟨e, u, he, -⟩ := (write_unprepared h.named hp hunprepared).2 not_false
    rw [he] at hexec
    cases hexec

end PrivateState

namespace PrivateState

open Effects Fallible FileSystem

variable {α : Type}

-- A record slot as its readers see it, and what one call of write_json_atomic makes of it.
inductive Slot (α : Type) where
  | absent
  | unreadable
  | record (v : α)
  deriving DecidableEq, Repr

inductive WriteOutcome where
  | ok
  | kept (e : StoreError)
  | installed (e : StoreError)
  | spoiled (e : StoreError)
  | lost (e : StoreError)
  deriving DecidableEq, Repr

namespace WriteOutcome

def result : WriteOutcome → Except StoreError Unit
  | .ok => .ok ()
  | .kept e | .installed e | .spoiled e | .lost e => .error e

def leaves (v : α) (before : Slot α) : WriteOutcome → Slot α
  | .ok | .installed _ => .record v
  | .kept _ => before
  | .spoiled _ => .unreadable
  | .lost _ => .absent

end WriteOutcome

def Slot.ofRead : Except StoreError α → Slot α
  | .ok v => .record v
  | .error (.io .notFound) => .absent
  | .error _ => .unreadable

def slot (codec : JsonCodec α) (relative : List Component) (fs : FileSystem String) : Slot α :=
  .ofRead (readBack codec relative fs)

variable {codec : JsonCodec α} {relative : List Component} {env : Env WriteSite}
  {fs : FileSystem String}

theorem recorded_cases (codec : JsonCodec α) (v : α) :
    recorded codec v = .ok v ∨ Slot.ofRead (recorded codec v) = .unreadable := by
  by_cases h : (codec.encode v ++ [10]).length > maxRecordBytes
  · right
    rw [recorded, slotValue, if_pos h]
    rfl
  · left
    rw [recorded, slotValue, if_neg h, codec.decode_encode]

theorem write_outcome (v : α) (hname : ¬ invalidName relative)
    (hfresh : FreshNames env fs (recordPath relative)) :
    ∃ outcome : WriteOutcome,
      (exec env.serve (writeJsonAtomic codec relative v) fs).1.map (fun _ => ()) = outcome.result ∧
        slot codec relative (exec env.serve (writeJsonAtomic codec relative v) fs).2 =
          outcome.leaves v (slot codec relative fs) := by
  by_cases hstaged : Staged env fs (recordPath relative) (codec.encode v).length
  · obtain ⟨r, t, hexec, hok, hinstalled, hlost, hkept⟩ := write_staged hname hfresh hstaged
    rw [hexec]
    cases r with
    | ok _ =>
      obtain ⟨hi, -, hverified⟩ := hok.mp rfl
      refine ⟨.ok, rfl, ?_⟩
      rw [slot, hinstalled hi, recorded_of_fits hverified.fits]
      rfl
    | error e =>
      by_cases hl : Lost env fs (recordPath relative)
      · refine ⟨.lost e, rfl, ?_⟩
        rw [slot, hlost hl]
        rfl
      · by_cases hi : Installs env fs (recordPath relative)
        · rcases recorded_cases codec v with hread | hread
          · refine ⟨.installed e, rfl, ?_⟩
            rw [slot, hinstalled hi, hread]
            rfl
          · refine ⟨.spoiled e, rfl, ?_⟩
            rw [slot, hinstalled hi, hread]
            rfl
        · refine ⟨.kept e, rfl, ?_⟩
          rw [slot, hkept hl hi]
          rfl
  · have hcontract := writeContract_of_unstaged (v := v) hname hfresh hstaged
    rw [WriteContract] at hcontract
    cases hexec : exec env.serve (writeJsonAtomic codec relative v) fs with
    | mk r t =>
      rw [hexec] at hcontract
      cases r with
      | ok _ =>
        refine ⟨.ok, rfl, ?_⟩
        rw [slot, hcontract]
        rfl
      | error e =>
        refine ⟨.kept e, rfl, ?_⟩
        rw [slot, hcontract]
        rfl

end PrivateState
