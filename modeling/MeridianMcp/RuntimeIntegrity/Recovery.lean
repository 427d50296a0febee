import MeridianMcp.PrivateState.Records
import MeridianMcp.RuntimeIntegrity.Session

namespace RuntimeIntegrity

open MeridianMcp Effects PrivateState

-- A listed path is made a record name again: every backslash becomes a separator, and the
-- standard library drops the empty and the "." components that this leaves behind.
def component (name : Text) : Option Component :=
  if name = [] ∨ name = ['.'] then none
  else if name = ['.', '.'] then some .parentDir
  else some (.normal (String.ofList name))

def relativeName (path : Path String) : List Component :=
  path.flatMap fun name => ((slashed name.toList).splitOn '/').filterMap component

-- What the environment of a recovery supplies: the codec of the journals, the effective
-- roots, and for each liveness lock whether it was acquired (`none` is an error).
structure RecoveryEnv where
  codec : JsonCodec RuntimeIntegrityJournal
  effectiveRoots : List (List Text)
  tryAcquire : Text → Option Bool

def recovered (document : RuntimeIntegrityJournal) : RuntimeIntegrityJournal :=
  { document with status := .observedDuringRecovery, lastAction := "observed_during_recovery" }

-- The same record, replaced; a write whose installed bytes cannot be read back is an error.
def replace (m : Records) (p : Path String) (bytes : Bytes) : Option Records :=
  if bytes.length < maxRecordBytes then some (m.insert p (.record (bytes ++ [10]))) else none

def recoverRecord (env : RecoveryEnv) (m : Records) (path : Path String) :
    Option (Option RuntimeIntegritySummary × Records) := do
  let relative := relativeName path
  let document ← m.reading env.codec.decode relative
  if document.status ≠ .active then pure (none, m)
  else
    let name ← livenessRecordName document.sessionId
    let acquired ← env.tryAcquire name
    if ¬ acquired then pure (none, m)
    else
      let document ← m.reading env.codec.decode relative
      if document.status ≠ .active then pure (none, m)
      else if ¬ env.effectiveRoots.any (fun root => root.isPrefixOf document.protectedRoot) then
        pure (some (summaryFromDocument document), m)
      else
        let document := recovered document
        let m ← replace m (recordPath relative) (env.codec.encode document)
        pure (some (summaryFromDocument document), m)

def recoverRecords (env : RecoveryEnv) :
    List (Path String) → Records → Option (List RuntimeIntegritySummary × Records)
  | [], m => some ([], m)
  | path :: paths, m => do
    let (summary, m) ← recoverRecord env m path
    let (summaries, m) ← recoverRecords env paths m
    pure (summary.toList ++ summaries, m)

def recoverUnfinished (env : RecoveryEnv) (m : Records) :
    Option (List RuntimeIntegritySummary × Records) := do
  let paths ← m.listing [.normal "runtime-integrity"] 10000
  recoverRecords env paths m

variable {env : RecoveryEnv} {m m' : Records} {stray : String → Prop}

def SameResult {β : Type} (stray : String → Prop) (r r' : Option (β × Records)) : Prop :=
  Option.Rel (fun a b => a.1 = b.1 ∧ Records.Agree stray a.2 b.2) r r'

theorem SameResult.fst {β : Type} {r r' : Option (β × Records)} (h : SameResult stray r r') :
    r.map Prod.fst = r'.map Prod.fst := by
  cases h with
  | none => rfl
  | some h => exact congrArg some h.1

theorem SameResult.bind {β γ : Type} {r r' : Option (β × Records)}
    {f f' : β × Records → Option (γ × Records)} (h : SameResult stray r r')
    (hf : ∀ b m m', Records.Agree stray m m' → SameResult stray (f (b, m)) (f' (b, m'))) :
    SameResult stray (r >>= f) (r' >>= f') := by
  cases h with
  | none => exact .none
  | some h =>
    rename_i a b
    obtain ⟨b₁, m₁⟩ := a
    obtain ⟨b₂, m₂⟩ := b
    obtain ⟨rfl, hagree⟩ := h
    exact hf _ _ _ hagree

theorem SameResult.guarded {β γ : Type} {r : Option γ} {f f' : γ → Option (β × Records)}
    (hf : ∀ c, SameResult stray (f c) (f' c)) : SameResult stray (r >>= f) (r >>= f') := by
  cases r with
  | none => exact .none
  | some c => exact hf c

theorem agree_insert (h : Records.Agree stray m m') (p : Path String) (e : Entry) :
    Records.Agree stray (m.insert p e) (m'.insert p e) := by
  intro q
  by_cases hqp : q = p
  · left
    rw [hqp, FinMap.get_insert, FinMap.get_insert, Function.update_self, Function.update_self]
  · have hget : ∀ k : Records, (k.insert p e).get q = k.get q := fun k => by
      rw [FinMap.get_insert, Function.update_of_ne hqp]
    rcases h q with heq | ⟨x, hx, rfl, hm, hm'⟩
    · exact .inl (by rw [hget, hget, heq])
    · refine .inr ⟨x, hx, rfl, ?_, ?_⟩
      · rwa [Records.linked, hget]
      · rwa [Records.linked, hget]

theorem replace_agree (h : Records.Agree stray m m') (p : Path String) (bytes : Bytes) {β : Type}
    (b : β) :
    SameResult stray (replace m p bytes >>= fun k => pure (b, k))
      (replace m' p bytes >>= fun k => pure (b, k)) := by
  unfold replace
  by_cases hb : bytes.length < maxRecordBytes
  · rw [if_pos hb, if_pos hb]
    exact .some ⟨rfl, agree_insert h p _⟩
  · rw [if_neg hb, if_neg hb]
    exact .none

variable (env) in
theorem recoverRecord_agree (hlock : ¬ stray ".meridian-mcp.lock") {path : Path String}
    (hpath : ∀ x, stray x → recordPath (relativeName path) ≠ [x]) (h : Records.Agree stray m m') :
    SameResult stray (recoverRecord env m path) (recoverRecord env m' path) := by
  unfold recoverRecord
  simp only [h.reading hlock hpath]
  refine SameResult.guarded fun document => ?_
  split
  · exact .some ⟨rfl, h⟩
  · refine SameResult.guarded fun name => SameResult.guarded fun acquired => ?_
    split
    · exact .some ⟨rfl, h⟩
    · refine SameResult.guarded fun document => ?_
      split
      · exact .some ⟨rfl, h⟩
      · split
        · exact .some ⟨rfl, h⟩
        · exact replace_agree h _ _ _

variable (env) in
theorem recoverRecords_agree (hlock : ¬ stray ".meridian-mcp.lock") {paths : List (Path String)}
    (hpaths : ∀ path ∈ paths, ∀ x, stray x → recordPath (relativeName path) ≠ [x])
    (h : Records.Agree stray m m') :
    SameResult stray (recoverRecords env paths m) (recoverRecords env paths m') := by
  induction paths generalizing m m' with
  | nil => exact .some ⟨rfl, h⟩
  | cons path paths ih =>
    have hone := recoverRecord_agree env hlock (hpaths path List.mem_cons_self) h
    refine hone.bind fun summary k k' hk => ?_
    refine (ih (fun p hp => hpaths p (List.mem_cons_of_mem _ hp)) hk).bind fun summaries n n' hn => ?_
    exact .some ⟨rfl, hn⟩

theorem relativeName_cons (path : Path String) :
    relativeName ("runtime-integrity" :: path) = .normal "runtime-integrity" :: relativeName path := by
  have hhead : ((slashed "runtime-integrity".toList).splitOn '/').filterMap component =
      [.normal "runtime-integrity"] := by decide
  rw [relativeName, List.flatMap_cons, hhead]
  rfl

theorem recordPath_relativeName (path : Path String) (x : String) (hx : x ≠ "runtime-integrity") :
    recordPath (relativeName ("runtime-integrity" :: path)) ≠ [x] := by
  rw [relativeName_cons]
  intro h
  exact hx (List.cons.inj h).1.symm

theorem listing_head {paths : List (Path String)} {maxEntries : Nat}
    (h : m.listing [.normal "runtime-integrity"] maxEntries = some paths) :
    ∀ path ∈ paths, ∃ rest, path = "runtime-integrity" :: rest := by
  unfold Records.listing at h
  split at h
  · cases h
  · simp only at h
    split at h
    · cases h
    · split at h
      · cases h
      · cases h
        intro path hpath
        rw [Finset.mem_sort] at hpath
        obtain ⟨-, ⟨rest, rfl⟩, -⟩ := Finset.mem_filter.mp hpath
        exact ⟨rest, rfl⟩

theorem recoverUnfinished_agree (hlock : ¬ stray ".meridian-mcp.lock")
    (hns : ¬ stray "runtime-integrity") (h : Records.Agree stray m m') :
    (recoverUnfinished env m).map Prod.fst = (recoverUnfinished env m').map Prod.fst := by
  unfold recoverUnfinished
  rw [h.listing hlock]
  cases hlist : m'.listing [.normal "runtime-integrity"] 10000 with
  | none => rfl
  | some paths =>
    have hall := recoverRecords_agree env hlock (fun path hpath x hx => by
      obtain ⟨rest, rfl⟩ := listing_head hlist path hpath
      exact recordPath_relativeName rest x (fun heq => hns (heq ▸ hx))) h
    exact hall.fst

end RuntimeIntegrity
