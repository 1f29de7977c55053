import Mathlib.Data.List.Perm.Subperm
import ArtifactAudit.Proofs.FileTree

/-!
This module contains the theory of the files of a tree: there are no more locations of files than are
counted.
-/

namespace ArtifactAudit

namespace FileNode

mutual

def fileLocations : FileNode → List (List String)
  | .file _ => [[]]
  | .directory entries => fileLocationsOfAll entries

def fileLocationsOfAll : List (String × FileNode) → List (List String)
  | [] => []
  | (name, node) :: rest => node.fileLocations.map (name :: ·) ++ fileLocationsOfAll rest

end

mutual

theorem length_fileLocations : ∀ node : FileNode, node.fileLocations.length = node.fileCount
  | .file _ => rfl
  | .directory entries => by
    rw [fileLocations, fileCount]
    exact length_fileLocationsOfAll entries

theorem length_fileLocationsOfAll
    : ∀ entries : List (String × FileNode),
        (fileLocationsOfAll entries).length = fileCountOfAll entries
  | [] => rfl
  | (name, node) :: rest => by
    rw [fileLocationsOfAll, fileCountOfAll, List.length_append, List.length_map,
      length_fileLocations node, length_fileLocationsOfAll rest]

end

theorem mem_fileLocationsOfAll {name : String} {node : FileNode} {location : List String}
    {entries : List (String × FileNode)} (h : entries.lookup name = some node)
    (hmem : location ∈ node.fileLocations)
    : name :: location ∈ fileLocationsOfAll entries := by
  induction entries with
  | nil => cases h
  | cons entry rest ih =>
    rw [fileLocationsOfAll, List.mem_append]
    rw [List.lookup_cons] at h
    split at h
    . next heq =>
      rw [beq_iff_eq] at heq
      left
      rw [heq, Option.some.inj h]
      exact List.mem_map_of_mem hmem
    . exact .inr (ih h)

theorem mem_fileLocations {bytes : ByteArray} {location : List String}
    : ∀ {node : FileNode}, node.standing? location = some (.file bytes) →
        location ∈ node.fileLocations := by
  induction location with
  | nil =>
    intro node h
    cases node with
    | file => exact List.mem_cons_self
    | directory => cases h
  | cons name rest ih =>
    intro node h
    cases node with
    | file => cases h
    | directory entries =>
      rw [standing?, at?_cons, FileNode.entries] at h
      cases hlookup : List.lookup name entries with
      | none =>
        rw [hlookup] at h
        cases h
      | some inner =>
        rw [hlookup] at h
        rw [fileLocations]
        exact mem_fileLocationsOfAll hlookup (ih h)

end FileNode

namespace FileTree

theorem length_le_fileCount {tree : FileTree} {locations : List (List String)}
    (hnodup : locations.Nodup)
    (hfiles : ∀ location ∈ locations, ∃ bytes, tree.standing? location = some (.file bytes))
    : locations.length ≤ tree.root.fileCount := by
  rw [← FileNode.length_fileLocations]
  apply List.Subperm.length_le
  apply hnodup.subperm
  intro location hlocation
  rcases hfiles location hlocation with ⟨bytes, hfile⟩
  exact FileNode.mem_fileLocations hfile

end FileTree
end ArtifactAudit
