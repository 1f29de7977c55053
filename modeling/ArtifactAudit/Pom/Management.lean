import ArtifactAudit.NameMap

/-!
This module contains what descriptors say about dependencies in case that they are declared: a finite
map from the names of dependencies, which are their group and artifact.
-/

namespace ArtifactAudit.Pom

structure Managed where
  version : String
  scope : Option String
  classifier : Option String
deriving DecidableEq, Repr

/--
The map goes from groups to maps from artifacts. It has no order of its own.
-/
structure Management where
  groups : NameMap (NameMap Managed)
deriving DecidableEq

namespace Management

instance : EmptyCollection Management := ⟨⟨∅⟩⟩

def artifacts (table : Management) (group : String) : NameMap Managed :=
  (table.groups.get? group).getD ∅

def lookup (table : Management) (name : String × String) : Option Managed :=
  (table.artifacts name.1).get? name.2

def insert (table : Management) (name : String × String) (managed : Managed) : Management :=
  ⟨table.groups.insert name.1 ((table.artifacts name.1).insert name.2 managed)⟩

def entries (table : Management) : List ((String × String) × Managed) :=
  table.groups.entries.flatMap fun (group, artifacts) =>
    artifacts.entries.map fun (artifact, managed) => ((group, artifact), managed)

@[simp]
theorem lookup_empty (name : String × String) : (∅ : Management).lookup name = none := rfl

theorem artifacts_insert (table : Management) (name : String × String) (managed : Managed)
    (group : String) :
    (table.insert name managed).artifacts group =
      if group = name.1 then (table.artifacts name.1).insert name.2 managed
      else table.artifacts group := by
  rw [artifacts, insert, NameMap.get?_insert]
  split <;> rfl

theorem lookup_insert (table : Management) (name other : String × String) (managed : Managed) :
    (table.insert name managed).lookup other =
      if other = name then some managed else table.lookup other := by
  rw [lookup, artifacts_insert]
  by_cases hgroup : other.1 = name.1
  . rw [if_pos hgroup, NameMap.get?_insert, lookup, hgroup]
    by_cases hartifact : other.2 = name.2
    . rw [if_pos hartifact, if_pos (Prod.ext hgroup hartifact)]
    . rw [if_neg hartifact, if_neg fun heq => hartifact (congrArg Prod.snd heq)]
  . rw [if_neg hgroup, if_neg fun heq => hgroup (congrArg Prod.fst heq), lookup]

theorem insert_comm (table : Management) {name other : String × String} (h : name ≠ other)
    (managed more : Managed) :
    (table.insert name managed).insert other more =
      (table.insert other more).insert name managed := by
  rw [insert.eq_def (table.insert name managed), insert.eq_def (table.insert other more),
    artifacts_insert, artifacts_insert]
  by_cases hgroup : other.1 = name.1
  . have hartifact : name.2 ≠ other.2 := fun heq => h (Prod.ext hgroup.symm heq)
    rw [if_pos hgroup, if_pos hgroup.symm, insert, insert, hgroup, NameMap.insert_insert,
      NameMap.insert_insert, NameMap.insert_comm _ hartifact]
  . rw [if_neg hgroup, if_neg (Ne.symm hgroup), insert, insert,
      NameMap.insert_comm _ (Ne.symm hgroup)]

theorem mem_entries {table : Management} {name : String × String} {managed : Managed} :
    (name, managed) ∈ table.entries ↔ table.lookup name = some managed := by
  rw [entries, List.mem_flatMap, lookup, artifacts]
  constructor
  . rintro ⟨⟨group, artifacts⟩, hgroup, hentry⟩
    rcases List.mem_map.1 hentry with ⟨⟨artifact, said⟩, hartifact, heq⟩
    cases heq
    rw [NameMap.mem_entries.1 hgroup]
    exact NameMap.mem_entries.1 hartifact
  . intro h
    cases hgroup : table.groups.get? name.1 with
    | none =>
      rw [hgroup] at h
      cases h
    | some artifacts =>
      rw [hgroup] at h
      exact ⟨(name.1, artifacts), NameMap.mem_entries.2 hgroup,
        List.mem_map.2 ⟨(name.2, managed), NameMap.mem_entries.2 h, rfl⟩⟩

end Management

end ArtifactAudit.Pom
