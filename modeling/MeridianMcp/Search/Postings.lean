import Mathlib.Algebra.BigOperators.Group.Finset.Basic
import Mathlib.Algebra.Order.BigOperators.Group.List
import Mathlib.Algebra.Order.Field.Rat
import MeridianMcp.Search.Index

namespace Search

open MeridianMcp Effects

variable {unicode : Unicode} {document : SearchDocument} {documents : List SearchDocument}

def Occurs (unicode : Unicode) (document : SearchDocument) (term : Text) : Prop :=
  ∃ field ∈ weightedFields document, term ∈ tokenize unicode field.1

instance (unicode : Unicode) (document : SearchDocument) (term : Text) :
    Decidable (Occurs unicode document term) := by
  unfold Occurs
  infer_instance

def weightedCount (unicode : Unicode) (document : SearchDocument) (term : Text) : Nat :=
  ((weightedFields document).map fun field => field.2 * (tokenize unicode field.1).count term).sum

-- No counter of a term wraps around.
def Countable (unicode : Unicode) (documents : List SearchDocument) : Prop :=
  ∀ document ∈ documents, ∀ term, weightedCount unicode document term < 2 ^ 32

def terms (unicode : Unicode) (document : SearchDocument) : Finset Text :=
  ((weightedFields document).flatMap fun field => tokenize unicode field.1).toFinset

def postingsOf (unicode : Unicode) (documents : List SearchDocument) (term : Text) :
    List Posting :=
  documents.zipIdx.filterMap fun entry =>
    if Occurs unicode entry.1 term then some ⟨entry.2, weightedCount unicode entry.1 term⟩ else none

def idsOf (p : SearchDocument → Bool) (documents : List SearchDocument) : List Nat :=
  (documents.zipIdx.filter fun entry => p entry.1).map Prod.snd

-- The index has one posting for each document in which a term occurs.
structure Indexed (unicode : Unicode) (documents : List SearchDocument) (index : SearchIndex) :
    Prop where
  postings : ∀ term, (index.postings.get term).getD [] = postingsOf unicode documents term
  lengths : index.documentLengths =
    documents.map fun document => ∑ term ∈ terms unicode document,
      weightedCount unicode document term

theorem get_foldl_addTerm {weight : Nat} {tokens : List Text} {counts : FinMap Text Nat}
    (term : Text) :
    (tokens.foldl (addTerm weight) counts).get term =
      if term ∈ tokens then
        some (((counts.get term).getD 0 + weight * tokens.count term) % 2 ^ 32)
      else counts.get term := by
  induction tokens generalizing counts with
  | nil => rfl
  | cons token tokens ih =>
    rw [List.foldl_cons, ih, addTerm, FinMap.get_insert]
    rcases eq_or_ne term token with rfl | hne
    · rw [Function.update_self, if_pos (List.mem_cons_self ..), List.count_cons_self,
        Option.getD_some, Nat.mod_add_mod, Nat.mul_succ, Nat.add_assoc, Nat.add_comm weight]
      split
      · rfl
      · rename_i hnot
        rw [List.count_eq_zero_of_not_mem hnot, Nat.mul_zero, Nat.zero_add]
    · have hmem : term ∈ token :: tokens ↔ term ∈ tokens := List.mem_cons.trans (or_iff_right hne)
      simp only [Function.update_of_ne hne, List.count_cons_of_ne hne.symm, hmem]

theorem sum_counts_eq_zero {fields : List (Text × Nat)} {term : Text}
    (h : ¬∃ field ∈ fields, term ∈ tokenize unicode field.1) :
    (fields.map fun field => field.2 * (tokenize unicode field.1).count term).sum = 0 := by
  refine List.sum_eq_zero fun n hn => ?_
  obtain ⟨field, hfield, rfl⟩ := List.mem_map.mp hn
  rw [List.count_eq_zero_of_not_mem fun hmem => h ⟨field, hfield, hmem⟩, Nat.mul_zero]

theorem get_foldl_fields {fields : List (Text × Nat)} {counts : FinMap Text Nat} (term : Text) :
    (fields.foldl (fun counts field => addWeightedTerms unicode counts field.1 field.2)
        counts).get term =
      if ∃ field ∈ fields, term ∈ tokenize unicode field.1 then
        some (((counts.get term).getD 0 +
          (fields.map fun field => field.2 * (tokenize unicode field.1).count term).sum) % 2 ^ 32)
      else counts.get term := by
  induction fields generalizing counts with
  | nil => rfl
  | cons field fields ih =>
    rw [List.foldl_cons, ih, addWeightedTerms, get_foldl_addTerm]
    simp only [List.exists_mem_cons_iff, List.map_cons, List.sum_cons]
    by_cases hfield : term ∈ tokenize unicode field.1
    · rw [if_pos hfield, if_pos (Or.inl hfield), Option.getD_some, Nat.mod_add_mod, Nat.add_assoc]
      split
      · rfl
      · rename_i hnone
        rw [sum_counts_eq_zero hnone, Nat.add_zero]
    · simp only [if_neg hfield, or_iff_right hfield, List.count_eq_zero_of_not_mem hfield,
        Nat.mul_zero, Nat.zero_add]

theorem get_weightedTerms (unicode : Unicode) (document : SearchDocument) (term : Text) :
    (weightedTerms unicode document).get term =
      if Occurs unicode document term then some (weightedCount unicode document term % 2 ^ 32)
      else none := by
  rw [weightedTerms, get_foldl_fields]
  by_cases h : Occurs unicode document term
  · rw [if_pos h]
    unfold Occurs at h
    rw [if_pos h, show (FinMap.empty : FinMap Text Nat).get term = none from rfl,
      Option.getD_none, Nat.zero_add, weightedCount]
  · rw [if_neg h]
    unfold Occurs at h
    rw [if_neg h]
    rfl

theorem weight_pos : ∀ field ∈ weightedFields document, 0 < field.2 := by
  simp only [weightedFields, List.mem_cons, List.not_mem_nil, or_false]
  rintro field (rfl | rfl | rfl | rfl | rfl | rfl | rfl | rfl) <;> exact Nat.zero_lt_succ _

theorem weightedCount_pos {term : Text} (h : Occurs unicode document term) :
    0 < weightedCount unicode document term := by
  obtain ⟨field, hfield, hterm⟩ := h
  have hpos : 0 < field.2 * (tokenize unicode field.1).count term :=
    Nat.mul_pos (weight_pos field hfield) (List.count_pos_iff.mpr hterm)
  exact hpos.trans_le (List.le_sum_of_mem (List.mem_map_of_mem hfield))

theorem mem_terms {term : Text} : term ∈ terms unicode document ↔ Occurs unicode document term := by
  rw [terms, List.mem_toFinset, List.mem_flatMap, Occurs]

theorem keys_weightedTerms (unicode : Unicode) (document : SearchDocument) :
    (weightedTerms unicode document).keys = terms unicode document := by
  ext term
  rw [FinMap.mem_keys, get_weightedTerms, mem_terms]
  split <;> simp [*]

theorem sum_entries (counts : FinMap Text Nat) :
    (counts.entries.map Prod.snd).sum = ∑ term ∈ counts.keys, (counts.get term).getD 0 := by
  have hlist : ∀ keys : List Text,
      ((keys.filterMap fun k => (counts.get k).map fun v => (k, v)).map Prod.snd).sum =
        (keys.map fun k => (counts.get k).getD 0).sum := by
    intro keys
    induction keys with
    | nil => rfl
    | cons k keys ih =>
      rw [List.filterMap_cons, List.map_cons, List.sum_cons, ← ih]
      cases counts.get k with
      | none => exact (Nat.zero_add _).symm
      | some v => rfl
  have hkeys : (FinMap.sortKeys counts.keys).toFinset = counts.keys := by
    ext k
    rw [List.mem_toFinset, FinMap.mem_sortKeys]
  rw [FinMap.entries, hlist, ← List.sum_toFinset _ (FinMap.sortKeys_nodup _), hkeys]

theorem get_pushPostings (counts : FinMap Text Nat) (postings : FinMap Text (List Posting))
    (id : Nat) (term : Text) :
    ((counts.entries.foldl (pushPosting id) postings).get term).getD [] =
      (postings.get term).getD [] ++ ((counts.get term).map fun count => ⟨id, count⟩).toList := by
  have hget := FinMap.get_foldl_pushAt Prod.fst (fun entry : Text × Nat => Posting.mk id entry.2)
    term counts.entries postings
  rw [FinMap.filter_entries] at hget
  rw [show pushPosting id = FinMap.pushAt Prod.fst fun entry => Posting.mk id entry.2 from rfl, hget]
  split
  · cases counts.get term <;> rfl
  · rename_i hany
    have hnone : counts.get term = none := by
      have hfilter := FinMap.filter_entries counts term
      have hnil : counts.entries.filter (fun entry => entry.1 = term) = [] :=
        List.filter_eq_nil_iff.mpr fun entry hentry hkey =>
          hany (List.any_eq_true.mpr ⟨entry, hentry, hkey⟩)
      rw [hnil] at hfilter
      cases hterm : counts.get term with
      | none => rfl
      | some count =>
        rw [hterm] at hfilter
        cases hfilter
    rw [hnone]
    exact (List.append_nil _).symm

theorem get_pushId (table : FinMap Text (List Nat)) (key key' : Text) (id : Nat) :
    ((pushId table key' id).get key).getD [] =
      (table.get key).getD [] ++ if key' = key then [id] else [] := by
  rw [pushId, FinMap.get_insert]
  rcases eq_or_ne key key' with rfl | hne
  · rw [Function.update_self, if_pos rfl]
    rfl
  · rw [Function.update_of_ne hne, if_neg hne.symm, List.append_nil]

theorem pushId_ne_nil {table : FinMap Text (List Nat)} (h : ∀ key, table.get key ≠ some [])
    (key key' : Text) (id : Nat) : (pushId table key' id).get key ≠ some [] := by
  rw [pushId, FinMap.get_insert]
  rcases eq_or_ne key key' with rfl | hne
  · rw [Function.update_self]
    simp
  · rw [Function.update_of_ne hne]
    exact h key

-- What the construction has put into the index.
structure Built (unicode : Unicode) (documents : List SearchDocument) (index : SearchIndex) :
    Prop extends Indexed unicode documents index where
  documents_eq : index.documents = documents
  symbols : ∀ key, (index.exactSymbols.get key).getD [] =
    idsOf (fun document => unicode.toLowercase document.symbol = key) documents
  symbols_ne_nil : ∀ key, index.exactSymbols.get key ≠ some []
  names : ∀ key, (index.exactNames.get key).getD [] =
    idsOf (fun document => unicode.toLowercase document.name = key) documents

theorem idsOf_append (p : SearchDocument → Bool) (documents : List SearchDocument)
    (document : SearchDocument) :
    idsOf p (documents ++ [document]) =
      idsOf p documents ++ if p document then [documents.length] else [] := by
  rw [idsOf, idsOf, List.zipIdx_append, List.filter_append, List.map_append, List.zipIdx_singleton,
    List.filter_singleton, Nat.zero_add]
  cases p document <;> rfl

theorem postingsOf_append (documents : List SearchDocument) (document : SearchDocument)
    (term : Text) :
    postingsOf unicode (documents ++ [document]) term =
      postingsOf unicode documents term ++
        (if Occurs unicode document term then
          some (Posting.mk documents.length (weightedCount unicode document term))
        else none).toList := by
  rw [postingsOf, postingsOf, List.zipIdx_append, List.filterMap_append, List.zipIdx_singleton,
    Nat.zero_add, List.filterMap_cons, List.filterMap_nil]
  split <;> simp [*]

theorem built_addDocument {index : SearchIndex} (h : Built unicode documents index)
    (hcounts : ∀ term, weightedCount unicode document term < 2 ^ 32) :
    Built unicode (documents ++ [document]) (addDocument unicode index document) := by
  have hget : ∀ term, (weightedTerms unicode document).get term =
      if Occurs unicode document term then some (weightedCount unicode document term)
      else none := by
    intro term
    rw [get_weightedTerms, Nat.mod_eq_of_lt (hcounts term)]
  have hid : index.documents.length = documents.length := by rw [h.documents_eq]
  refine ⟨⟨fun term => ?_, ?_⟩, ?_, fun key => ?_, fun key => ?_, fun key => ?_⟩
  · rw [addDocument, get_pushPostings, h.postings, hget, hid, postingsOf_append]
    split <;> rfl
  · have hsum : ∑ term ∈ terms unicode document,
        ((weightedTerms unicode document).get term).getD 0 =
          ∑ term ∈ terms unicode document, weightedCount unicode document term := by
      refine Finset.sum_congr rfl fun term hterm => ?_
      rw [hget, if_pos (mem_terms.mp hterm)]
      rfl
    rw [addDocument, List.map_append, ← h.lengths, sum_entries, keys_weightedTerms, hsum]
    rfl
  · rw [addDocument, h.documents_eq]
  · rw [addDocument, get_pushId, h.symbols, hid, idsOf_append]
    simp only [decide_eq_true_eq]
  · exact pushId_ne_nil h.symbols_ne_nil _ _ _
  · rw [addDocument, get_pushId, h.names, hid, idsOf_append]
    simp only [decide_eq_true_eq]

theorem built_empty (unicode : Unicode) :
    Built unicode [] ⟨[], FinMap.empty, FinMap.empty, FinMap.empty, [], 0⟩ where
  postings _ := rfl
  lengths := rfl
  documents_eq := rfl
  symbols _ := rfl
  symbols_ne_nil _ := nofun
  names _ := rfl

theorem built_new (h : Countable unicode documents) :
    Built unicode documents (SearchIndex.new unicode documents) := by
  have hfold : Built unicode documents (documents.foldl (addDocument unicode)
      ⟨[], FinMap.empty, FinMap.empty, FinMap.empty, [], 0⟩) := by
    induction documents using List.reverseRecOn with
    | nil => exact built_empty unicode
    | append_singleton documents document ih =>
      rw [List.foldl_append]
      refine built_addDocument (ih fun other hother => ?_) ?_
      · exact h other (List.mem_append_left _ hother)
      · exact h document (List.mem_append_right _ (List.mem_singleton_self _))
  exact { hfold with }

theorem average_nonneg (unicode : Unicode) (documents : List SearchDocument) :
    0 ≤ (SearchIndex.new unicode documents).averageDocumentLength := by
  rw [SearchIndex.new]
  split
  · exact le_refl 0
  · exact div_nonneg (Nat.cast_nonneg _) (Nat.cast_nonneg _)

end Search
