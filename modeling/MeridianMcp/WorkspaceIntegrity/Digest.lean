import MeridianMcp.PrefixCode
import MeridianMcp.Delimited
import MeridianMcp.PrettyJson.Legible
import MeridianMcp.WorkspaceIntegrity.Snapshot

namespace WorkspaceIntegrity

open MeridianMcp Effects PrettyJson PrefixCode Delimited

def identityFields : List (FileIdentity → Text) :=
  [fun identity => member "tracked".toList (boolean identity.tracked),
    fun identity => member "git_object_kind".toList (optional string identity.gitObjectKind),
    fun identity => member "git_object_id".toList (optional string identity.gitObjectId),
    fun identity => member "sha256".toList (optional string identity.sha256),
    fun identity => member "size".toList (optional number identity.size),
    fun identity => member "status".toList (string identity.status)]

-- The identity as serde_json::to_vec writes it.
def identityJson (identity : FileIdentity) : Text := compact (identityFields.map (· identity))

def recordBytes (record : Text × FileIdentity) : List UInt8 :=
  utf8 record.1 ++ 0 :: (utf8 (identityJson record.2) ++ [0])

def digestRecords (sha256 : List UInt8 → List UInt8) (records : Records) : Text :=
  (hex (sha256 (records.entries.flatMap recordBytes))).toList

theorem legible_optionalText : Legible (optional string) :=
  legible_optional legible_string string_head

theorem legible_optionalNumber : Legible (optional number) :=
  legible_optional legible_number number_head

theorem identityJson_injective : Function.Injective identityJson := by
  intro a b h
  have hfields := compact_told (by
    simp only [identityFields, List.forall_mem_cons]
    exact ⟨legible_boolean.member_apart _ _ _, legible_optionalText.member_apart _ _ _,
      legible_optionalText.member_apart _ _ _, legible_optionalText.member_apart _ _ _,
      legible_optionalNumber.member_apart _ _ _, legible_string.member_apart _ _ _, nofun⟩) h
  simp only [identityFields, List.forall_mem_cons] at hfields
  obtain ⟨htracked, hkind, hid, hsha256, hsize, hstatus, -⟩ := hfields
  obtain ⟨tracked, kind, id, sha256, size, status⟩ := a
  obtain rfl : tracked = b.tracked := legible_boolean.member_eq htracked
  obtain rfl : kind = b.gitObjectKind := legible_optionalText.member_eq hkind
  obtain rfl : id = b.gitObjectId := legible_optionalText.member_eq hid
  obtain rfl : sha256 = b.sha256 := legible_optionalText.member_eq hsha256
  obtain rfl : size = b.size := legible_optionalNumber.member_eq hsize
  obtain rfl : status = b.status := legible_string.member_eq hstatus
  rfl

theorem nulFree_identityJson (identity : FileIdentity) : NulFree (identityJson identity) := by
  have htext := fun value => nulFree_optional (fun text _ => nulFree_quote text) value 0
  have hnumber := fun value => nulFree_optional nulFree_number value 0
  refine nulFree_compact ?_
  simp only [identityFields, List.map_cons, List.map_nil, List.forall_mem_cons]
  exact ⟨nulFree_member (nulFree_boolean _ 0), nulFree_member (htext _), nulFree_member (htext _),
    nulFree_member (htext _), nulFree_member (hnumber _), nulFree_member (nulFree_quote _), nofun⟩

theorem not_mem_utf8 {text : Text} (h : NulFree text) : 0 ∉ utf8 text :=
  fun hin => h (ascii_mem_utf8 (by decide) hin)

theorem recordBytes_prefixFree : PrefixFree (fun record => NulFree record.1) recordBytes := by
  intro a b s t ha hb h
  simp only [recordBytes, List.append_assoc, List.cons_append, List.nil_append] at h
  obtain ⟨hpath, hrest⟩ := unique_stop (not_mem_utf8 ha) (not_mem_utf8 hb) h
  obtain ⟨hjson, hend⟩ := unique_stop (not_mem_utf8 (nulFree_identityJson a.2))
    (not_mem_utf8 (nulFree_identityJson b.2)) hrest
  exact ⟨Prod.ext (utf8_injective hpath) (identityJson_injective (utf8_injective hjson)), hend⟩

theorem entries_injective {records records' : Records} (h : records.entries = records'.entries) :
    records = records' := by
  refine FinMap.ext_get fun path => Option.ext fun identity => ?_
  rw [← Option.mem_def, ← Option.mem_def]
  simp only [Option.mem_def, ← FinMap.mem_entries, h]

theorem digestRecords_injective {sha256 : List UInt8 → List UInt8}
    (hsha256 : Function.Injective sha256) {records records' : Records}
    (hpaths : ∀ path ∈ records.keys, NulFree path) (hpaths' : ∀ path ∈ records'.keys, NulFree path)
    (h : digestRecords sha256 records = digestRecords sha256 records') : records = records' := by
  have hkeys : ∀ {m : Records}, (∀ path ∈ m.keys, NulFree path) →
      ∀ record ∈ m.entries, NulFree record.1 := by
    intro m hm record hrecord
    refine hm record.1 ((m.mem_keys _).mpr ?_)
    rw [FinMap.mem_entries.mp hrecord]
    exact Option.some_ne_none _
  have hbytes := hsha256 (hex_injective (String.toList_injective h))
  refine entries_injective (recordBytes_prefixFree.flatMap_injective (fun record => ?_)
    (hkeys hpaths) (hkeys hpaths') hbytes)
  simp [recordBytes]

end WorkspaceIntegrity
