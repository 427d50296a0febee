import MeridianMcp.PrivateState.Read

namespace PrivateState

open Effects Fallible

-- The store as its readers see it: directories only carry the names below them.
inductive Entry where
  | record (bytes : Bytes)
  | link (target : Option FileKind)
  deriving DecidableEq, Repr

def entry : Node → Option Entry
  | .file bytes => some (.record bytes)
  | .dir => none
  | .symlink target => some (.link target)

abbrev Records := FinMap (Path String) Entry

def records (fs : FileSystem String) : Records := fs.nodes.filterMap entry

theorem get_records (fs : FileSystem String) (p : Path String) :
    (records fs).get p = (fs.node p).bind entry := rfl

namespace Records

variable {α : Type}

def locked (m : Records) : Prop := ∃ b, m.get lockPath = some (.record b)

def linked (m : Records) (p : Path String) : Prop := ∃ k, m.get p = some (.link (some k))

instance (m : Records) : Decidable m.locked :=
  match h : m.get lockPath with
  | some (.record b) => isTrue ⟨b, h⟩
  | some (.link _) => isFalse (by rintro ⟨b, hb⟩; simp [h] at hb)
  | none => isFalse (by rintro ⟨b, hb⟩; simp [h] at hb)

instance (m : Records) (p : Path String) : Decidable (m.linked p) :=
  match h : m.get p with
  | some (.link (some k)) => isTrue ⟨k, h⟩
  | some (.link none) => isFalse (by rintro ⟨b, hb⟩; simp [h] at hb)
  | some (.record _) => isFalse (by rintro ⟨b, hb⟩; simp [h] at hb)
  | none => isFalse (by rintro ⟨b, hb⟩; simp [h] at hb)

def Open (m : Records) (relative : List Component) : Prop :=
  m.locked ∧ ¬ invalidName relative ∧ ¬ m.linked (recordPath relative).dropLast ∧
    ¬ m.linked (recordPath relative)

instance (m : Records) (relative : List Component) : Decidable (m.Open relative) :=
  inferInstanceAs (Decidable (_ ∧ _ ∧ _ ∧ _))

def below (m : Records) (p : Path String) : Finset (Path String) :=
  m.keys.filter fun q => p <+: q ∧ p ≠ q

def isRecord : Entry → Bool
  | .record _ => true
  | .link _ => false

def listing (m : Records) (ns : List Component) (maxEntries : Nat) : Option (List (Path String)) :=
  if ¬ m.Open ns then none
  else
    let found := m.below (recordPath ns)
    if ∃ q ∈ found, (m.get q).any (fun e => !isRecord e) then none
    else if found.card > min maxEntries maxRecords then none
    else some (found.sort (· ≤ ·))

def reading (m : Records) (decode : Bytes → Option α) (relative : List Component) : Option α :=
  if ¬ m.Open relative then none
  else match m.get (recordPath relative) with
    | some (.record b) => if b.length > maxRecordBytes then none else decode b
    | _ => none

end Records

variable {α : Type} {fs : FileSystem String}

theorem locked_iff : (records fs).locked ↔ ∃ b, fs.node lockPath = some (.file b) := by
  simp only [Records.locked, get_records]
  constructor
  · rintro ⟨b, hb⟩
    rcases h : fs.node lockPath with _ | (c | _ | t) <;> simp [h, entry] at hb ⊢
  · rintro ⟨b, hb⟩
    exact ⟨b, by simp [hb, entry]⟩

theorem linked_iff {p : Path String} :
    (records fs).linked p ↔ ∃ k, fs.node p = some (.symlink (some k)) := by
  simp only [Records.linked, get_records]
  constructor
  · rintro ⟨k, hk⟩
    rcases h : fs.node p with _ | (c | _ | t) <;> simp [h, entry] at hk
    exact ⟨k, by rw [hk]⟩
  · rintro ⟨k, hk⟩
    exact ⟨k, by simp [hk, entry]⟩

theorem open_iff {relative : List Component} (hname : ¬ invalidName relative) :
    (records fs).Open relative ↔ (∃ b, fs.node lockPath = some (.file b)) ∧
      (¬ ∃ k, fs.node (recordPath relative).dropLast = some (.symlink (some k))) ∧
      ¬ ∃ k, fs.node (recordPath relative) = some (.symlink (some k)) := by
  rw [Records.Open, locked_iff, linked_iff, linked_iff]
  simp only [hname, not_false_eq_true, true_and]

theorem lockOperation_fails {S : Type} (env : Env S) (at_ : LockSite → S)
    (h : ∀ s, env.fault s = false) (hlock : ¬ ∃ b, fs.node lockPath = some (.file b)) :
    ∃ e, exec env.serve (lockOperation at_) fs = (.error e, fs) := by
  rw [lockOperation_clean at_ h]
  rcases hn : fs.node lockPath with _ | (b | _ | t)
  · exact ⟨_, rfl⟩
  · exact absurd ⟨b, hn⟩ hlock
  · exact ⟨_, rfl⟩
  · exact ⟨_, rfl⟩

theorem lockOperation_locks {S : Type} {env : Env S} (at_ : LockSite → S)
    (h : ∀ s, env.fault s = false) (hlock : ∃ b, fs.node lockPath = some (.file b)) :
    exec env.serve (lockOperation at_) fs = (.ok (), fs) := by
  obtain ⟨b, hb⟩ := hlock
  rw [lockOperation_clean at_ h, hb]

theorem resolveRecord_opens {S : Type} (env : Env S) (at_ : ResolveSite → S)
    {relative : List Component} (h : ∀ s, env.fault s = false) (hopen : (records fs).Open relative) :
    exec env.serve (resolveRecord at_ relative false) fs = (.ok (recordPath relative), fs) := by
  have hname := hopen.2.1
  obtain ⟨-, hparent, hslot⟩ := (open_iff hname).mp hopen
  have hchecks := checks_clean fs at_ (recordPath relative) h
  rw [resolveRecord, if_neg hname]
  refine Eq.trans hchecks ?_
  rcases hs : fs.node (recordPath relative) with _ | (_ | _ | _ | k)
  case some.symlink.some => exact absurd ⟨k, hs⟩ hslot
  all_goals
    rcases hp : fs.node (recordPath relative).dropLast with _ | (_ | _ | _ | k)
    case some.symlink.some => exact absurd ⟨k, hp⟩ hparent
    all_goals rfl

theorem resolveRecord_refuses {S : Type} (env : Env S) (at_ : ResolveSite → S)
    {relative : List Component} (h : ∀ s, env.fault s = false)
    (hlock : ∃ b, fs.node lockPath = some (.file b)) (hopen : ¬ (records fs).Open relative) :
    ∃ e, exec env.serve (resolveRecord at_ relative false) fs = (.error e, fs) := by
  by_cases hname : invalidName relative
  · exact ⟨_, by rw [resolveRecord, if_pos hname, exec_throw]⟩
  · have hchecks := checks_clean fs at_ (recordPath relative) h
    rw [open_iff hname] at hopen
    rw [resolveRecord, if_neg hname]
    refine Exists.imp (fun e he => Eq.trans hchecks he) ?_
    rcases hp : fs.node (recordPath relative).dropLast with _ | (b | _ | _ | k) <;>
      rcases hs : fs.node (recordPath relative) with _ | (b' | _ | _ | k') <;>
      first | exact ⟨_, rfl⟩ | exact absurd ⟨hlock, by simp [hp], by simp [hs]⟩ hopen

theorem reading_records (codec : JsonCodec α) (relative : List Component) :
    (exec Env.sound.serve (readJson codec relative) fs).1.toOption =
      (records fs).reading codec.decode relative := by
  unfold Records.reading
  by_cases hlock : ∃ b, fs.node lockPath = some (.file b)
  · rw [readJson, exec_bind_ok _ (lockOperation_locks _ (fun _ => rfl) hlock), readJsonUnlocked]
    by_cases hopen : (records fs).Open relative
    · have hslot := (open_iff hopen.2.1).mp hopen
      rw [exec_bind_ok _ (resolveRecord_opens _ _ (fun _ => rfl) hopen), if_neg (not_not.mpr hopen),
        readJsonPath_clean _ _ _ _ (fun _ => rfl) (fun k hk => hslot.2.2 ⟨k, hk⟩), get_records]
      rcases fs.node (recordPath relative) with _ | (b | _ | _ | k)
      · rfl
      · simp only [slotValue, Option.bind_some, entry]
        split
        · rfl
        · cases codec.decode b <;> rfl
      all_goals rfl
    · obtain ⟨e, he⟩ := resolveRecord_refuses Env.sound (fun s => ReadSite.resolve s)
        (fun _ => rfl) hlock hopen
      rw [if_pos hopen]
      exact congrArg (fun r => Except.toOption r.1) (exec_bind_error _ he)
  · obtain ⟨e, he⟩ := lockOperation_fails Env.sound ReadSite.lock (fun _ => rfl) hlock
    rw [readJson, exec_bind_error _ he, if_pos (fun h => hlock (locked_iff.mp h.1))]
    rfl

theorem mem_below {p q : Path String} :
    q ∈ (records fs).below p ↔ (p <+: q ∧ p ≠ q) ∧ ∃ e, (records fs).get q = some e := by
  rw [Records.below, Finset.mem_filter, FinMap.mem_keys, and_comm, Option.ne_none_iff_exists']

theorem below_of_not_dir {p : Path String} (h : fs.node p ≠ some .dir) :
    (records fs).below p = ∅ := by
  ext q
  simp only [mem_below, Finset.notMem_empty, iff_false, not_and]
  rintro ⟨hpq, hne⟩ ⟨e, he⟩
  refine h (FileSystem.prefix_dir hpq hne ?_)
  rw [get_records] at he
  intro hq
  simp [hq] at he

theorem get_below {p q : Path String} {kind : FileKind} (hkind : kind ≠ .dir) :
    q ∈ (fs.below p).keys.filter (fun x => (fs.below p).get x = some kind) ↔
      q ∈ (records fs).below p ∧ ∃ v, fs.node q = some v ∧ v.metadata.kind = kind := by
  have hget : (fs.below p).get q =
      if p <+: q ∧ p ≠ q then (fs.node q).map (fun v => v.metadata.kind) else none := rfl
  rw [Finset.mem_filter, FinMap.mem_keys, mem_below, get_records, hget]
  by_cases hpq : p <+: q ∧ p ≠ q
  · rw [if_pos hpq]
    rcases fs.node q with _ | (b | _ | t)
    · simp
    · simp [hpq, entry, Node.metadata]
    · simp [entry, Node.metadata, Ne.symm hkind]
    · simp [hpq, entry, Node.metadata]
  · simp [hpq]

theorem symlink_below {p : Path String} :
    ((fs.below p).keys.filter (fun x => (fs.below p).get x = some .symlink)).Nonempty ↔
      ∃ q ∈ (records fs).below p, ((records fs).get q).any (fun e => !Records.isRecord e) = true := by
  constructor
  · rintro ⟨q, hq⟩
    obtain ⟨hbelow, v, hv, hkind⟩ := (get_below (by simp)).mp hq
    refine ⟨q, hbelow, ?_⟩
    cases v <;> simp_all [Node.metadata, get_records, entry, Records.isRecord]
  · rintro ⟨q, hbelow, hlink⟩
    refine ⟨q, (get_below (by simp)).mpr ⟨hbelow, ?_⟩⟩
    rw [get_records] at hlink
    rcases hv : fs.node q with _ | (b | _ | t) <;> simp [hv, entry, Records.isRecord] at hlink
    exact ⟨_, rfl, rfl⟩

theorem files_below {p : Path String}
    (h : ¬ ∃ q ∈ (records fs).below p, ((records fs).get q).any (fun e => !Records.isRecord e) = true) :
    (fs.below p).keys.filter (fun x => (fs.below p).get x = some .file) = (records fs).below p := by
  ext q
  rw [get_below (by simp)]
  refine ⟨And.left, fun hq => ⟨hq, ?_⟩⟩
  obtain ⟨-, e, he⟩ := mem_below.mp hq
  have hlink : ¬ ((records fs).get q).any (fun e => !Records.isRecord e) = true :=
    fun hlink => h ⟨q, hq, hlink⟩
  rw [get_records] at he hlink
  rcases hv : fs.node q with _ | (b | _ | t) <;> simp [hv, entry, Records.isRecord] at he hlink
  exact ⟨_, rfl, rfl⟩

theorem listing_records (ns : List Component) (maxEntries : Nat) :
    (exec Env.sound.serve (listRecords ns maxEntries) fs).1.toOption =
      (records fs).listing ns maxEntries := by
  unfold Records.listing
  by_cases hlock : ∃ b, fs.node lockPath = some (.file b)
  · rw [listRecords, exec_bind_ok _ (lockOperation_locks _ (fun _ => rfl) hlock)]
    by_cases hopen : (records fs).Open ns
    · rw [if_neg (not_not.mpr hopen),
        exec_bind_ok _ (resolveRecord_opens Env.sound _ (fun _ => rfl) hopen)]
      have hisDir := FsProg.exec_stat ListSite.isDir Env.sound fs (recordPath ns)
      have hslot := (open_iff hopen.2.1).mp hopen
      rw [exec_bind_ok _ (exec_attempt _ _ _), hisDir]
      by_cases hdir : fs.node (recordPath ns) = some .dir
      · have hstat : fs.stat (recordPath ns) = .ok .dir := by simp [FileSystem.stat, hdir]
        have hsound : Env.sound.fault ListSite.walk = false := rfl
        have htree := exec_io_observe hsound
          (FsProg.exec_readTree ListSite.walk Env.sound fs (recordPath ns))
        rw [FileSystem.readTree, if_pos hdir] at htree
        rw [hstat]
        refine Eq.trans (congrArg (fun r => Except.toOption r.1) (exec_bind_ok _ htree)) ?_
        by_cases hlinks : ∃ q ∈ (records fs).below (recordPath ns),
            ((records fs).get q).any (fun e => !Records.isRecord e) = true
        · rw [if_pos (symlink_below.mpr hlinks), if_pos hlinks]
          rfl
        · rw [if_neg (fun h => hlinks (symlink_below.mp h)), if_neg hlinks, files_below hlinks]
          by_cases hmax : ((records fs).below (recordPath ns)).card > min maxEntries maxRecords
          · simp only [if_pos hmax, exec_throw, Except.toOption]
          · simp only [if_neg hmax, exec_pure, Except.toOption]
      · have hstat : fs.stat (recordPath ns) ≠ .ok .dir := by
          rw [FileSystem.stat]
          rcases hn : fs.node (recordPath ns) with _ | (b | _ | _ | k) <;> simp
          · exact hdir hn
          · exact absurd ⟨k, hn⟩ hslot.2.2
        have hfound := below_of_not_dir hdir
        refine Eq.trans (b := some []) ?_ (by simp [hfound])
        rcases hs : fs.stat (recordPath ns) with e | (_ | _ | _)
        case ok.dir => exact absurd hs hstat
        all_goals rfl
    · obtain ⟨e, he⟩ := resolveRecord_refuses Env.sound ListSite.resolve (fun _ => rfl)
        hlock hopen
      rw [if_pos hopen]
      exact congrArg (fun r => Except.toOption r.1) (exec_bind_error _ he)
  · obtain ⟨e, he⟩ := lockOperation_fails Env.sound ListSite.lock (fun _ => rfl) hlock
    rw [listRecords, exec_bind_error _ he, if_pos (fun h => hlock (locked_iff.mp h.1))]
    rfl

namespace Records

variable {m m' : Records} {stray : String → Prop}

-- Two stores that differ in nothing but plain files with stray names in the store directory.
def Agree (stray : String → Prop) (m m' : Records) : Prop :=
  ∀ q, m.get q = m'.get q ∨ ∃ x, stray x ∧ q = [x] ∧ ¬ m.linked q ∧ ¬ m'.linked q

theorem Agree.get (h : Agree stray m m') {q : Path String} (hq : ∀ x, stray x → q ≠ [x]) :
    m.get q = m'.get q := by
  rcases h q with heq | ⟨x, hx, rfl, -⟩
  · exact heq
  · exact absurd rfl (hq x hx)

theorem Agree.linked_iff (h : Agree stray m m') (q : Path String) : m.linked q ↔ m'.linked q := by
  rcases h q with heq | ⟨x, -, -, hm, hm'⟩
  · rw [linked, linked, heq]
  · exact iff_of_false hm hm'

theorem Agree.open_iff (hlock : ¬ stray ".meridian-mcp.lock") (h : Agree stray m m')
    (relative : List Component) : m.Open relative ↔ m'.Open relative := by
  have hget : m.get lockPath = m'.get lockPath := h.get fun x hx heq => by
    cases heq
    exact hlock hx
  rw [Open, Open, locked, locked, hget, h.linked_iff, h.linked_iff]

theorem Agree.below (h : Agree stray m m') {p : Path String} (hp : p ≠ []) :
    m.below p = m'.below p := by
  ext q
  simp only [Records.below, Finset.mem_filter, FinMap.mem_keys]
  by_cases hpq : p <+: q ∧ p ≠ q
  · rw [h.get]
    rintro x - rfl
    obtain ⟨hpre, hne⟩ := hpq
    refine hne (hpre.eq_of_length_le ?_)
    exact List.length_pos_iff.mpr hp
  · simp [hpq]

theorem recordPath_ne_nil {relative : List Component} (hname : ¬ invalidName relative) :
    recordPath relative ≠ [] := by
  obtain ⟨c, cs, rfl⟩ := List.exists_cons_of_ne_nil (fun h => hname (.inl h))
  have hall : ¬ (c :: cs).any (fun c => c.name?.isNone) = true := fun h => hname (.inr h)
  cases c <;> simp_all [recordPath, Component.name?]

theorem Agree.listing (hlock : ¬ stray ".meridian-mcp.lock") (h : Agree stray m m')
    (ns : List Component) (maxEntries : Nat) : m.listing ns maxEntries = m'.listing ns maxEntries := by
  by_cases hopen : m.Open ns
  · have hopen' := (h.open_iff hlock ns).mp hopen
    have hne := recordPath_ne_nil hopen.2.1
    have hany : (∃ q ∈ m'.below (recordPath ns), (m.get q).any (fun e => !isRecord e) = true) ↔
        ∃ q ∈ m'.below (recordPath ns), (m'.get q).any (fun e => !isRecord e) = true := by
      refine exists_congr fun q => and_congr_right fun hq => ?_
      rw [h.get]
      rintro x - rfl
      obtain ⟨-, hpre, hneq⟩ := Finset.mem_filter.mp hq
      exact hneq (hpre.eq_of_length_le (List.length_pos_iff.mpr hne))
    simp only [Records.listing, hopen, hopen', h.below hne, hany]
  · rw [Records.listing, Records.listing, if_pos hopen,
      if_pos (fun h' => hopen ((h.open_iff hlock ns).mpr h'))]

theorem Agree.reading {decode : Bytes → Option α} (hlock : ¬ stray ".meridian-mcp.lock")
    (h : Agree stray m m') {relative : List Component}
    (hp : ∀ x, stray x → recordPath relative ≠ [x]) :
    m.reading decode relative = m'.reading decode relative := by
  by_cases hopen : m.Open relative
  · simp only [Records.reading, hopen, (h.open_iff hlock relative).mp hopen, h.get hp]
  · rw [Records.reading, Records.reading, if_pos hopen,
      if_pos (fun h' => hopen ((h.open_iff hlock relative).mpr h'))]

end Records

end PrivateState
