import ArtifactAudit.Coordinate

/-!
This module contains finite maps from coordinates.
-/

namespace ArtifactAudit

structure CoordinateMap (α : Type) where
  entries : List (Coordinate × α)
  distinct : (entries.map Prod.fst).Nodup

namespace CoordinateMap

variable {α : Type}

def empty : CoordinateMap α := ⟨[], .nil⟩

instance : EmptyCollection (CoordinateMap α) := ⟨empty⟩

instance : Inhabited (CoordinateMap α) := ⟨empty⟩

def get? (map : CoordinateMap α) (c : Coordinate) : Option α :=
  (map.entries.find? (·.1 = c)).map Prod.snd

def erase (map : CoordinateMap α) (c : Coordinate) : CoordinateMap α :=
  ⟨map.entries.filter (·.1 ≠ c), map.distinct.sublist (List.filter_sublist.map Prod.fst)⟩

def insert (map : CoordinateMap α) (c : Coordinate) (value : α) : CoordinateMap α :=
  ⟨(c, value) :: (map.erase c).entries, by
    rw [List.map_cons, List.nodup_cons]
    exact ⟨by simp [erase], (map.erase c).distinct⟩⟩

def size (map : CoordinateMap α) : Nat := map.entries.length

@[simp]
theorem get?_empty (c : Coordinate) : (∅ : CoordinateMap α).get? c = none := rfl

theorem get?_erase {map : CoordinateMap α} {c d : Coordinate} :
    (map.erase c).get? d = if d = c then none else map.get? d := by
  simp only [get?, erase, List.find?_filter]
  split
  . next h => subst h; simp
  . next h =>
    congr 2
    funext entry
    by_cases he : entry.1 = d <;> simp [he, h]

theorem get?_insert {map : CoordinateMap α} {c d : Coordinate} {value : α} :
    (map.insert c value).get? d = if d = c then some value else map.get? d := by
  by_cases h : d = c
  . subst h
    simp [get?, insert]
  . have hcd : ¬ c = d := fun heq => h heq.symm
    have := @get?_erase _ map c d
    simp only [get?, h, if_false] at this
    simpa [get?, insert, hcd, h] using this

theorem mem_entries {map : CoordinateMap α} {c : Coordinate} {value : α} :
    (c, value) ∈ map.entries ↔ map.get? c = some value := by
  obtain ⟨entries, hdistinct⟩ := map
  simp only [get?]
  induction entries with
  | nil => simp
  | cons entry rest ih =>
    obtain ⟨d, old⟩ := entry
    rw [List.map_cons, List.nodup_cons] at hdistinct
    rw [List.mem_cons, List.find?_cons]
    by_cases h : d = c
    . subst h
      -- The rest has no entry for the coordinate of the head.
      have hnot : (d, value) ∉ rest := fun hmem => 
        hdistinct.1 (List.mem_map.2 ⟨_, hmem, rfl⟩)
      simp [hnot, eq_comm]
    . have hne : (c, value) ≠ (d, old) := fun heq => h (congrArg Prod.fst heq).symm
      simp [h, hne, ih hdistinct.2]

end CoordinateMap

end ArtifactAudit
