import ArtifactAudit.Json.Decode
import ArtifactAudit.Proofs.Json.ReadBack

/-!
This module contains the theory of values that stand for other data: the data can be read back from
them, and they can be read back from their texts.
-/

namespace ArtifactAudit

namespace NameSet

theorem ofList_names (set : NameSet) : ofList set.names = set := by
  ext name
  rw [mem_ofList, mem_iff]

end NameSet

namespace NameMap

variable {α : Type}

theorem insertEntry_concat {name : String} (value : α) {entries : List (String × α)}
    (h : ∀ other ∈ entries.map Prod.fst, Text.Precedes other name)
    : insertEntry name value entries = entries ++ [(name, value)] := by
  induction entries with
  | nil => rfl
  | cons entry rest ih =>
    rw [List.map_cons, List.forall_mem_cons] at h
    rw [insertEntry, if_neg (Text.Precedes.asymm h.1), if_pos h.1, ih h.2, List.cons_append]

theorem entries_foldl_insert {map : NameMap α} {entries : List (String × α)}
    (h : ((map.entries ++ entries).map Prod.fst).Pairwise Text.Precedes)
    : (entries.foldl (fun map entry => map.insert entry.1 entry.2) map).entries
        = map.entries ++ entries := by
  induction entries generalizing map with
  | nil => simp
  | cons entry rest ih =>
    have hall : ∀ other ∈ map.entries.map Prod.fst, Text.Precedes other entry.1 := by
      rw [List.map_append, List.pairwise_append] at h
      exact fun other hother => h.2.2 other hother entry.1 List.mem_cons_self
    have hinsert : (map.insert entry.1 entry.2).entries = map.entries ++ [entry] :=
      insertEntry_concat entry.2 hall
    rw [List.append_cons, ← hinsert] at h
    rw [List.foldl_cons, ih h, hinsert, ← List.append_cons]

theorem ofList_entries (map : NameMap α) : ofList map.entries = map := by
  have h : (ofList map.entries).entries = map.entries := entries_foldl_insert map.increasing
  cases map
  cases hlist : ofList _
  rw [hlist] at h
  subst h
  rfl

end NameMap

namespace Json

theorem readable_text (s : String) : Readable (.text s) := rfl

theorem readableItems_iff {items : List Json}
    : ReadableItems items ↔ ∀ item ∈ items, Readable item := by
  induction items with
  | nil => simp [ReadableItems]
  | cons item rest ih => rw [ReadableItems, ih, List.forall_mem_cons]

theorem readable_record {members : List (String × Json)} (h : ∀ member ∈ members, Readable member.2)
    : Readable (.record members) := by
  rw [record, Readable]
  induction members with
  | nil => trivial
  | cons member rest ih =>
    rw [List.forall_mem_cons] at h
    exact ⟨rfl, h.1, ih h.2⟩

theorem readable_ofNameSet (set : NameSet) : Readable (ofNameSet set) := by
  rw [ofNameSet, texts, Readable, readableItems_iff, List.forall_mem_map]
  exact fun name _ => readable_text name

theorem readable_ofNameMap {α : Type} {write : α → Json} (h : ∀ value, Readable (write value))
    (map : NameMap α)
    : Readable (ofNameMap write map) := by
  apply readable_record
  rw [List.forall_mem_map]
  exact fun entry _ => h entry.2

theorem mapM_map_eq_some {α β γ : Type} {f : β → Option γ} {g : α → β} {k : α → γ}
    {items : List α} (h : ∀ item ∈ items, f (g item) = some (k item))
    : (items.map g).mapM f = some (items.map k) := by
  induction items with
  | nil => rfl
  | cons item rest ih =>
    rw [List.forall_mem_cons] at h
    rw [List.map_cons, List.mapM_cons, h.1, ih h.2]
    rfl

theorem toText?_text (s : String) : toText? (.text s) = some s := rfl

theorem toNat?_number {bound n : Nat} (h : n < bound) : toNat? bound (.number n) = some n :=
  if_pos h

theorem toList?_map {α : Type} {read : Json → Option α} {write : α → Json}
    (h : ∀ item, read (write item) = some item) (items : List α)
    : toList? read (.array (items.map write)) = some items := by
  have hread : ∀ item ∈ items, read (write item) = some (id item) := fun item _ => h item
  rw [toList?, mapM_map_eq_some hread, List.map_id]

theorem toNameSet?_ofNameSet (set : NameSet) : toNameSet? (ofNameSet set) = some set := by
  rw [toNameSet?, ofNameSet, texts, toList?_map toText?_text, Option.map_some,
    NameSet.ofList_names]

theorem toNameMap?_ofNameMap {α : Type} {read : Json → Option α} {write : α → Json}
    (h : ∀ value, read (write value) = some value) (map : NameMap α)
    : toNameMap? read (ofNameMap write map) = some map := by
  have hread : ∀ entry ∈ map.entries,
      (do return (← some entry.1, ← read (write entry.2)) : Option (String × α))
        = some (id entry) := by
    intro entry _
    rw [h]
    rfl
  rw [ofNameMap, record, List.map_map, toNameMap?, mapM_map_eq_some hread, List.map_id,
    Option.bind_eq_bind, Option.bind_some, NameMap.ofList_entries]
  rfl

theorem filter_eq_singleton {members : List (String × Json)} (h : (members.map Prod.fst).Nodup)
    {member : String × Json} (hmember : member ∈ members)
    : members.filter (·.1 == member.1) = [member] := by
  induction members with
  | nil => cases hmember
  | cons other rest ih =>
    rw [List.map_cons, List.nodup_cons] at h
    rcases List.mem_cons.1 hmember with rfl | hmember
    . have hrest : rest.filter (·.1 == member.1) = [] := by
        rw [List.filter_eq_nil_iff]
        intro other hother heq
        exact h.1 (List.mem_map.2 ⟨other, hother, eq_of_beq heq⟩)
      rw [List.filter_cons, beq_self_eq_true, if_pos rfl, hrest]
    . have hne : (other.1 == member.1) = false :=
        beq_false_of_ne fun heq => h.1 (List.mem_map.2 ⟨member, hmember, heq.symm⟩)
      rw [List.filter_cons, hne, ih h.2 hmember]
      rfl

theorem fields?_record {names : List String} {members : List (String × Json)}
    (hnames : members.map Prod.fst = names) (h : names.Nodup)
    : fields? names (.record members) = some (members.map fun member => some member.2) := by
  subst hnames
  have hread : (members.map fun member => (some member.1, member.2)).mapM
      (fun member : Option String × Json => do return (← member.1, member.2)) = some members := by
    rw [mapM_map_eq_some (k := id), List.map_id]
    exact fun _ _ => rfl
  rw [record, fields?, hread, Option.bind_eq_bind, Option.bind_some]
  apply mapM_map_eq_some
  intro member hmember
  rw [filter_eq_singleton h hmember]

end Json

end ArtifactAudit
