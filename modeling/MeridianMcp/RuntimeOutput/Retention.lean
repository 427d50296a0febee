import MeridianMcp.RuntimeOutput.Capture
import Mathlib.Data.List.Chain

namespace RuntimeOutput

open MeridianMcp Suffixes

theorem splitAt_boundary (line : Text) (index : Nat) :
    isCharBoundary line (splitAt line index) = true ∧ splitAt line index ≤ index := by
  induction index with
  | zero => exact ⟨by cases line <;> rfl, Nat.le_refl 0⟩
  | succ index ih =>
    unfold splitAt
    split
    · rename_i h
      exact ⟨h, Nat.le_refl _⟩
    · exact ⟨ih.1, Nat.le_succ_of_le ih.2⟩

-- The line itself, or a prefix of whole characters with the mark of a cut.
def Shortened (line text : Text) : Prop :=
  text = line ∨ ∃ kept, kept <+: line ∧ text = kept ++ outputTruncatedSuffix

theorem truncateOutputLine_shortened (line : Text) : Shortened line (truncateOutputLine line) := by
  unfold truncateOutputLine
  split
  · exact Or.inl rfl
  · exact Or.inr ⟨_, sliceTo_prefix _ _, rfl⟩

theorem length_truncateOutputLine (line : Text) :
    (utf8 (truncateOutputLine line)).length ≤ outputLineMaxBytes := by
  unfold truncateOutputLine
  split
  · assumption
  · obtain ⟨hboundary, hle⟩ := splitAt_boundary line contentLimit
    have hsuffix : (utf8 outputTruncatedSuffix).length ≤ outputLineMaxBytes := by decide
    rw [utf8_append, List.length_append, length_sliceTo hboundary]
    unfold contentLimit at hle ⊢
    omega

structure Fits (entries : List RuntimeOutputEntry) : Prop where
  count : entries.length ≤ outputLogCapacity
  bytes : outputLogByteLen entries ≤ outputLogMaxBytes

instance : DecidablePred Fits := fun _ =>
  decidable_of_iff (_ ∧ _) ⟨fun h => ⟨h.1, h.2⟩, fun h => ⟨h.count, h.bytes⟩⟩

theorem outputLogByteLen_append (entries entries' : List RuntimeOutputEntry) :
    outputLogByteLen (entries ++ entries') = outputLogByteLen entries + outputLogByteLen entries' := by
  rw [outputLogByteLen, List.map_append, List.sum_append]
  rfl

theorem Fits.init {entries : List RuntimeOutputEntry} {entry : RuntimeOutputEntry}
    (h : Fits (entries ++ [entry])) : Fits entries := by
  obtain ⟨hcount, hbytes⟩ := h
  rw [List.length_append] at hcount
  rw [outputLogByteLen_append] at hbytes
  exact ⟨by omega, by omega⟩

theorem popOversized_eq (entries : List RuntimeOutputEntry) :
    popOversized entries = longest (fun kept => outputLogByteLen kept ≤ outputLogMaxBytes) entries := by
  induction entries with
  | nil => rfl
  | cons entry entries ih =>
    rw [popOversized, longest, ih]
    split
    · rename_i h
      rw [if_neg (Nat.not_le.mpr h)]
    · rename_i h
      rw [if_pos (Nat.not_lt.mp h)]

theorem popOversized_fits {entries : List RuntimeOutputEntry}
    (h : entries.length ≤ outputLogCapacity) : popOversized entries = longest Fits entries := by
  rw [popOversized_eq]
  refine longest_congr fun kept hkept => ⟨fun hbytes => ⟨?_, hbytes⟩, Fits.bytes⟩
  exact hkept.length_le.trans h

theorem push_longest {kept : List RuntimeOutputEntry} (h : Fits kept) (entry : RuntimeOutputEntry) :
    popOversized ((if outputLogCapacity ≤ kept.length then kept.tail else kept) ++ [entry]) =
      longest Fits (kept ++ [entry]) := by
  have hcount := h.count
  split
  · rename_i hfull
    cases kept with
    | nil => exact absurd hfull (by decide)
    | cons first kept =>
      rw [List.length_cons] at hcount hfull
      have hover : ¬ Fits (first :: (kept ++ [entry])) := by
        intro hfits
        have hlength := hfits.count
        rw [List.length_cons, List.length_append, List.length_singleton] at hlength
        omega
      rw [List.tail_cons, List.cons_append, longest, if_neg hover, popOversized_fits]
      rw [List.length_append, List.length_singleton]
      omega
  · rename_i hroom
    refine popOversized_fits ?_
    rw [List.length_append, List.length_singleton]
    omega

abbrev Push := Nat × Text

def pushes (lines : List Push) : RuntimeOutputBuffer :=
  lines.foldl (fun buffer line => buffer.pushOutputLineAt line.1 line.2) .default

-- Every line that was pushed, as the entry it became.
def recorded (lines : List Push) : List RuntimeOutputEntry :=
  lines.zipIdx.map fun (line, index) =>
    ⟨min (index + 1) u64Max, line.1, truncateOutputLine line.2⟩

theorem pushes_concat (lines : List Push) (line : Push) :
    pushes (lines ++ [line]) = (pushes lines).pushOutputLineAt line.1 line.2 := by
  rw [pushes, List.foldl_append]
  rfl

theorem recorded_concat (lines : List Push) (line : Push) :
    recorded (lines ++ [line]) = recorded lines ++
      [⟨min (lines.length + 1) u64Max, line.1, truncateOutputLine line.2⟩] := by
  rw [recorded, List.zipIdx_append, List.map_append]
  simp [recorded]

theorem pushes_nextSequence (lines : List Push) :
    (pushes lines).nextSequence = min (lines.length + 1) u64Max := by
  induction lines using List.reverseRecOn with
  | nil => rfl
  | append_singleton lines line ih =>
    rw [pushes_concat, List.length_append, List.length_singleton]
    change min ((pushes lines).nextSequence + 1) u64Max = _
    rw [ih]
    omega

theorem fits_nil : Fits [] := ⟨Nat.zero_le _, Nat.zero_le _⟩

theorem pushes_longest (lines : List Push) : Longest Fits (recorded lines) (pushes lines).entries := by
  induction lines using List.reverseRecOn with
  | nil => exact ⟨List.suffix_rfl, fits_nil, fun _ h _ => h⟩
  | append_singleton lines line ih =>
    rw [recorded_concat, pushes_concat]
    refine ih.push (fun _ _ => Fits.init) ?_
    rw [RuntimeOutputBuffer.pushOutputLineAt, push_longest ih.satisfies, pushes_nextSequence]
    exact longest_longest fits_nil

theorem fits_singleton (line : Push) (sequence : Nat) :
    Fits [⟨sequence, line.1, truncateOutputLine line.2⟩] := by
  refine ⟨by simp [outputLogCapacity], ?_⟩
  have hline := length_truncateOutputLine line.2
  have hroom : outputLineMaxBytes ≤ outputLogMaxBytes := by decide
  simp only [outputLogByteLen, List.map_singleton, List.sum_singleton]
  omega

theorem pushes_last (lines : List Push) :
    (pushes lines).entries.getLast? = (recorded lines).getLast? := by
  induction lines using List.reverseRecOn with
  | nil => rfl
  | append_singleton lines line _ =>
    have h := pushes_longest (lines ++ [line])
    rw [recorded_concat] at h ⊢
    have hlast := h.maximal _ (List.suffix_append _ _) (fits_singleton line _)
    rw [List.getLast?_concat]
    obtain ⟨kept, hkept⟩ := hlast
    rw [← hkept, List.getLast?_concat]

def Contiguous (entries : List RuntimeOutputEntry) : Prop :=
  entries.IsChain fun entry next => next.sequence = entry.sequence + 1

theorem recorded_last {lines : List Push} {entry : RuntimeOutputEntry}
    (h : entry ∈ (recorded lines).getLast?) : entry.sequence = min lines.length u64Max := by
  induction lines using List.reverseRecOn with
  | nil => cases h
  | append_singleton lines line _ =>
    rw [recorded_concat, List.getLast?_concat, Option.mem_some_iff] at h
    rw [← h, List.length_append, List.length_singleton]

theorem recorded_contiguous {lines : List Push} (h : lines.length ≤ u64Max) :
    Contiguous (recorded lines) := by
  induction lines using List.reverseRecOn with
  | nil => exact .nil
  | append_singleton lines line ih =>
    rw [List.length_append, List.length_singleton] at h
    rw [recorded_concat, Contiguous, List.isChain_append]
    refine ⟨ih (by omega), .singleton _, fun entry hentry next hnext => ?_⟩
    rw [List.head?_cons, Option.mem_some_iff] at hnext
    rw [← hnext, recorded_last hentry]
    change min (lines.length + 1) u64Max = _
    omega

theorem fits_pair {first second : Push} (sequence sequence' : Nat) :
    Fits [⟨sequence, first.1, truncateOutputLine first.2⟩,
      ⟨sequence', second.1, truncateOutputLine second.2⟩] := by
  refine ⟨by simp [outputLogCapacity], ?_⟩
  have hfirst := length_truncateOutputLine first.2
  have hsecond := length_truncateOutputLine second.2
  have hroom : outputLineMaxBytes + outputLineMaxBytes ≤ outputLogMaxBytes := by decide
  simp only [outputLogByteLen, List.map_cons, List.map_nil, List.sum_cons, List.sum_nil]
  omega

theorem Contiguous.suffix {entries kept : List RuntimeOutputEntry} (h : Contiguous entries)
    (hkept : kept <:+ entries) : Contiguous kept := by
  obtain ⟨dropped, rfl⟩ := hkept
  exact (List.isChain_append.mp h).2.1

-- The two last lines are always retained.
theorem pushes_pair (lines : List Push) (first second : Push) :
    [⟨min (lines.length + 1) u64Max, first.1, truncateOutputLine first.2⟩,
      ⟨min (lines.length + 2) u64Max, second.1, truncateOutputLine second.2⟩] <:+
        (pushes (lines ++ [first] ++ [second])).entries := by
  have hlongest := pushes_longest (lines ++ [first] ++ [second])
  rw [recorded_concat, recorded_concat, List.append_assoc, List.length_append,
    List.length_singleton] at hlongest
  exact hlongest.maximal _ (List.suffix_append _ _) (fits_pair _ _)

-- Past the last number the two last lines carry the same one.
theorem contiguous_iff (lines : List Push) :
    Contiguous (pushes lines).entries ↔ lines.length ≤ u64Max := by
  have hlongest := pushes_longest lines
  refine ⟨fun h => ?_, fun h => (recorded_contiguous h).suffix hlongest.suffix⟩
  by_contra hmany
  induction lines using List.reverseRecOn with
  | nil => exact hmany (Nat.zero_le _)
  | append_singleton lines second _ =>
    induction lines using List.reverseRecOn with
    | nil => exact hmany (by simp [u64Max])
    | append_singleton lines first _ =>
      have hpair := h.suffix (pushes_pair lines first second)
      rw [Contiguous, List.isChain_pair] at hpair
      simp only [List.length_append, List.length_singleton] at hmany hpair
      omega

theorem buffer_retains (lines : List Push) :
    Longest Fits (recorded lines) (pushes lines).entries ∧
    (∀ entry ∈ (pushes lines).entries, (utf8 entry.text).length ≤ outputLineMaxBytes ∧
      ∃ index line, lines[index]? = some line ∧ Shortened line.2 entry.text ∧
        entry.monotonicOffsetMs = line.1 ∧ entry.sequence = min (index + 1) u64Max) ∧
    (Contiguous (pushes lines).entries ↔ lines.length ≤ u64Max) ∧
    (pushes lines).entries.getLast? = (recorded lines).getLast? := by
  refine ⟨pushes_longest lines, fun entry hentry => ?_, contiguous_iff lines, pushes_last lines⟩
  have hmem := (pushes_longest lines).suffix.subset hentry
  obtain ⟨⟨line, index⟩, hline, rfl⟩ := List.mem_map.mp hmem
  exact ⟨length_truncateOutputLine line.2, index, line, List.mem_zipIdx_iff_getElem?.mp hline,
    truncateOutputLine_shortened line.2, rfl, rfl⟩

-- With 2^64 lines the last two carry one number.
theorem last_number_repeats :
    ¬ Contiguous (pushes (List.replicate (2 ^ 64) (0, []))).entries := by
  rw [contiguous_iff, List.length_replicate]
  decide

end RuntimeOutput
