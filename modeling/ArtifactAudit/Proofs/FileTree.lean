import Mathlib.Logic.Function.Basic
import ArtifactAudit.FileTree

/-!
This module contains the theory of file trees: what stands at each location of a tree, and how
changes at one location show at the others.
-/

namespace ArtifactAudit

inductive Standing where
  | file (bytes : ByteArray)
  | directory

namespace FileNode

def standing : FileNode → Standing
  | .file bytes => .file bytes
  | .directory _ => .directory

def standing? (location : List String) (node : FileNode) : Option Standing :=
  (node.at? location).map standing

theorem at?_cons (name : String) (rest : List String) (node : FileNode)
    : node.at? (name :: rest) = (node.entries.lookup name).bind (at? rest) := rfl

theorem at?_append (location rest : List String)
    : ∀ node : FileNode, node.at? (location ++ rest) = (node.at? location).bind (at? rest) := by
  induction location with
  | nil => exact fun _ => rfl
  | cons name location ih =>
    intro node
    rw [List.cons_append, at?_cons, at?_cons, Option.bind_assoc]
    congr 1
    funext inner
    exact ih inner

theorem standing?_append (location rest : List String) (node : FileNode)
    : node.standing? (location ++ rest) = (node.at? location).bind (standing? rest) := by
  rw [standing?, at?_append, Option.map_bind]
  rfl

theorem lookup_map_entry (entries : List (String × FileNode)) (name x : String)
    (f : FileNode → FileNode)
    : (entries.map fun entry => if entry.1 = name then (name, f entry.2) else entry).lookup x
        =
      if x = name then (entries.lookup x).map f else entries.lookup x := by
  induction entries with
  | nil => simp
  | cons entry rest ih =>
    rcases entry with ⟨other, node⟩
    by_cases hother : other = name
    . subst hother
      by_cases hx : x = other
      . simp [hx]
      . simp [List.lookup_cons, beq_false_of_ne hx, ih, hx]
    . by_cases hx : x = other
      . simp [hother, hx]
      . simp [List.lookup_cons, hother, beq_false_of_ne hx, ih]

structure Sets (change : List (String × FileNode) → List (String × FileNode)) (name : String)
    (value : Option FileNode)
    : Prop where
  lookup_self : ∀ entries, (change entries).lookup name = value
  lookup_other : ∀ entries x, x ≠ name → (change entries).lookup x = entries.lookup x

theorem sets_insertEntry (name : String) (node : FileNode)
    : Sets (NameMap.insertEntry name node) name (some node) where
  lookup_self entries := by rw [NameMap.lookup_insertEntry, if_pos rfl]
  lookup_other entries x hx := by rw [NameMap.lookup_insertEntry, if_neg hx]

theorem sets_filter (name : String) : Sets (·.filter (·.1 ≠ name)) name none where
  lookup_self entries := by
    rw [List.lookup_eq_none_iff]
    intro entry hentry
    have hne : entry.1 ≠ name := by simpa using (List.mem_filter.1 hentry).2
    exact bne_iff_ne.2 hne.symm
  lookup_other entries x hx := by
    induction entries with
    | nil => rfl
    | cons entry rest ih =>
      rcases entry with ⟨other, node⟩
      by_cases hother : other = name
      . subst hother
        rw [List.filter_cons_of_neg (by simp), ih, List.lookup_cons, beq_false_of_ne hx]
      . rw [List.filter_cons_of_pos (by simpa using hother), List.lookup_cons, List.lookup_cons,
          ih]

variable {change : List (String × FileNode) → List (String × FileNode)} {name : String}
  {value : Option FileNode}

theorem Sets.standing?_changeAt_self (h : Sets change name value) (rest : List String)
    (location : List String)
    : ∀ node : FileNode, node.standing? location = some .directory →
        (changeAt change location node).standing? (location ++ name :: rest)
          = value.bind (standing? rest) := by
  induction location with
  | nil =>
    intro node hnode
    cases node with
    | file bytes => cases hnode
    | directory entries =>
      rw [List.nil_append, standing?, changeAt, at?_cons, FileNode.entries, h.lookup_self,
        Option.map_bind]
      rfl
  | cons first location ih =>
    intro node hnode
    cases node with
    | file bytes => cases hnode
    | directory entries =>
      rw [standing?, at?_cons] at hnode
      rw [List.cons_append, standing?, changeAt, at?_cons]
      simp only [FileNode.entries] at hnode ⊢
      rw [lookup_map_entry, if_pos rfl]
      cases hfirst : entries.lookup first with
      | none =>
        rw [hfirst] at hnode
        cases hnode
      | some inner =>
        rw [hfirst] at hnode
        exact ih inner hnode

theorem Sets.standing?_changeAt_other (h : Sets change name value) (location : List String)
    : ∀ (node : FileNode) (other : List String), ¬ location ++ [name] <+: other →
        (changeAt change location node).standing? other = node.standing? other := by
  induction location with
  | nil =>
    intro node other hother
    cases node with
    | file bytes => rfl
    | directory entries =>
      cases other with
      | nil => rfl
      | cons first rest =>
        have hne : first ≠ name := by
          rintro rfl
          exact hother (by simp)
        rw [standing?, standing?, changeAt, at?_cons, at?_cons, FileNode.entries,
          h.lookup_other _ _ hne]
        rfl
  | cons first location ih =>
    intro node other hother
    cases node with
    | file bytes => rfl
    | directory entries =>
      cases other with
      | nil => rfl
      | cons step rest =>
        rw [standing?, standing?, changeAt, at?_cons, at?_cons]
        simp only [FileNode.entries]
        rw [lookup_map_entry]
        split
        . next heq =>
          subst heq
          have hrest : ¬ location ++ [name] <+: rest := by
            intro hprefix
            exact hother (by simpa using hprefix)
          cases hfirst : entries.lookup step with
          | none => rfl
          | some inner => exact ih inner rest hrest
        . rfl

end FileNode

namespace FileTree

def standing? (tree : FileTree) (location : List String) : Option Standing :=
  tree.root.standing? location

theorem standing?_append_of_ne {tree : FileTree} {location rest : List String}
    (h : tree.standing? location ≠ some .directory) (hrest : rest ≠ [])
    : tree.standing? (location ++ rest) = none := by
  rw [standing?, FileNode.standing?] at h
  rw [standing?, FileNode.standing?_append]
  cases hnode : tree.root.at? location with
  | none => rfl
  | some node =>
    rw [hnode] at h
    cases node with
    | directory entries => exact absurd rfl h
    | file bytes =>
      rcases List.exists_cons_of_ne_nil hrest with ⟨name, rest, rfl⟩
      rfl

theorem standing?_changeAt {tree : FileTree} {location : List String} {name : String}
    {change : List (String × FileNode) → List (String × FileNode)} {value : Option FileNode}
    (h : FileNode.Sets change name value)
    (hdirectory : tree.standing? location = some .directory)
    (hfree : tree.standing? (location ++ [name]) ≠ some .directory)
    (hleaf : ∀ rest, rest ≠ [] → value.bind (FileNode.standing? rest) = none)
    : (tree.root.changeAt change location).standing?
        =
      Function.update tree.standing? (location ++ [name]) (value.map FileNode.standing) := by
  funext other
  rw [Function.update_apply]
  by_cases hother : location ++ [name] <+: other
  . rcases hother with ⟨rest, rfl⟩
    rw [List.append_assoc, List.singleton_append,
      h.standing?_changeAt_self rest location tree.root hdirectory]
    by_cases hrest : rest = []
    . subst hrest
      rw [if_pos rfl]
      cases value <;> rfl
    . rw [if_neg (by simpa using hrest), hleaf rest hrest, ← List.singleton_append,
        ← List.append_assoc, standing?_append_of_ne hfree hrest]
  . rw [if_neg (by rintro rfl; exact hother (List.prefix_refl _)),
      h.standing?_changeAt_other location tree.root other hother]
    rfl

theorem standing?_put {tree : FileTree} {location : List String} {name : String} {node : FileNode}
    (hdirectory : tree.standing? location = some .directory)
    (hfree : tree.standing? (location ++ [name]) ≠ some .directory)
    (hentries : node.entries = [])
    : (tree.put location name node).standing?
        =
      Function.update tree.standing? (location ++ [name]) (some node.standing) := by
  apply standing?_changeAt (FileNode.sets_insertEntry name node) hdirectory hfree
  intro rest hrest
  rcases List.exists_cons_of_ne_nil hrest with ⟨first, rest, rfl⟩
  rw [Option.bind_some, FileNode.standing?, FileNode.at?_cons, hentries]
  rfl

theorem standing?_erase {tree : FileTree} {location : List String} {name : String}
    (hdirectory : tree.standing? location = some .directory)
    (hfree : tree.standing? (location ++ [name]) ≠ some .directory)
    : (tree.erase location name).standing?
        =
      Function.update tree.standing? (location ++ [name]) none :=
  standing?_changeAt (FileNode.sets_filter name) hdirectory hfree (fun _ _ => rfl)

theorem follow_nil (tree : FileTree) (location : List String)
    : tree.follow [] location = some location := rfl

theorem standing?_eq_directory {tree : FileTree} {location : List String}
    : tree.standing? location = some .directory
        ↔
      ∃ entries, tree.root.at? location = some (.directory entries) := by
  rw [standing?, FileNode.standing?]
  cases tree.root.at? location with
  | none => simp
  | some node => cases node <;> simp [FileNode.standing]

theorem follow_cons {tree : FileTree} (segment : String) (rest : List String)
    {location : List String} (h : tree.standing? location = some .directory)
    : tree.follow (segment :: rest) location
        =
      if Path.isIdle segment then tree.follow rest location
      else if segment = ".." then tree.follow rest location.dropLast
      else if (tree.standing? (location ++ [segment])).isSome then
        tree.follow rest (location ++ [segment])
      else none := by
  rcases standing?_eq_directory.1 h with ⟨entries, hentries⟩
  have hlookup : (tree.standing? (location ++ [segment])).isSome
      = (entries.lookup segment).isSome := by
    rw [standing?, FileNode.standing?, FileNode.at?_append, hentries, Option.bind_some,
      FileNode.at?_cons, FileNode.entries]
    cases entries.lookup segment <;> rfl
  rw [follow, hentries, hlookup]

theorem follow_cons_of_ne {tree : FileTree} (segment : String) (rest : List String)
    {location : List String} (h : tree.standing? location ≠ some .directory)
    : tree.follow (segment :: rest) location = none := by
  rw [follow]
  split
  . next entries hentries => exact absurd (standing?_eq_directory.2 ⟨entries, hentries⟩) h
  . rfl

theorem follow_append (tree : FileTree) (segments rest : List String)
    : ∀ location, tree.follow (segments ++ rest) location
        = (tree.follow segments location).bind (tree.follow rest) := by
  induction segments with
  | nil => exact fun _ => rfl
  | cons segment segments ih =>
    intro location
    rw [List.cons_append]
    by_cases h : tree.standing? location = some .directory
    . rw [follow_cons _ _ h, follow_cons _ _ h]
      split
      . apply ih
      . split
        . apply ih
        . split
          . apply ih
          . rfl
    . rw [follow_cons_of_ne _ _ h, follow_cons_of_ne _ _ h]
      rfl

theorem standing?_of_follow {tree : FileTree} {segments location target : List String}
    (h : tree.follow segments location = some target)
    (htarget : tree.standing? target = some .directory)
    : tree.standing? location = some .directory := by
  cases segments with
  | nil =>
    cases h
    exact htarget
  | cons segment rest =>
    by_contra hlocation
    rw [follow_cons_of_ne _ _ hlocation] at h
    cases h

structure KeepsDirectories (before after : FileTree) : Prop where
  workingDirectory_eq : after.workingDirectory = before.workingDirectory
  standing : ∀ location, before.standing? location = some .directory →
    after.standing? location = some .directory

theorem KeepsDirectories.trans {first second third : FileTree} (h : KeepsDirectories first second)
    (h' : KeepsDirectories second third)
    : KeepsDirectories first third where
  workingDirectory_eq := h'.workingDirectory_eq.trans h.workingDirectory_eq
  standing location hlocation := h'.standing location (h.standing location hlocation)

theorem KeepsDirectories.follow {before after : FileTree} (h : KeepsDirectories before after)
    {target : List String} (htarget : before.standing? target = some .directory)
    (segments : List String)
    : ∀ {location : List String}, before.follow segments location = some target →
        after.follow segments location = some target := by
  induction segments with
  | nil => exact id
  | cons segment rest ih =>
    intro location hfollow
    have hlocation := standing?_of_follow hfollow htarget
    rw [follow_cons _ _ hlocation] at hfollow
    rw [follow_cons _ _ (h.standing location hlocation)]
    split
    . next hidle =>
      rw [if_pos hidle] at hfollow
      exact ih hfollow
    . next hidle =>
      rw [if_neg hidle] at hfollow
      split
      . next hup =>
        rw [if_pos hup] at hfollow
        exact ih hfollow
      . next hup =>
        rw [if_neg hup] at hfollow
        split at hfollow
        . have hnext := standing?_of_follow hfollow htarget
          rw [if_pos (by rw [h.standing _ hnext]; rfl)]
          exact ih hfollow
        . cases hfollow

end FileTree
end ArtifactAudit
