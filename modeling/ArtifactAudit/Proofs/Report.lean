import Mathlib.Algebra.GroupWithZero.Nat
import ArtifactAudit.Report
import ArtifactAudit.Proofs.Resolver.Family

/-!
This module contains the theory of the tree of dependencies in a report: its lines either number an
artifact or refer to a line before them, and the artifacts are numbered in the order in which the
closures of the roots list them.
-/

namespace ArtifactAudit
namespace Report

open DependencySet Summary Resolver

inductive TreeLine where
  | numbered (number depth : Nat) (c : Coordinate)
  | reference (number depth : Nat) (c : Coordinate)

namespace TreeLine

def text : TreeLine → String
  | .numbered number depth c => numberColumn number ++ ": " ++ treeIndent depth ++ c.text
  | .reference number depth c =>
    "     " ++ treeIndent depth ++ c.text ++ " (see #" ++ toString number ++ ")"

def label? : TreeLine → Option (Coordinate × Nat)
  | .numbered number _ c => some (c, number)
  | .reference .. => none

end TreeLine

def labels (lines : List TreeLine) : List (Coordinate × Nat) :=
  lines.filterMap TreeLine.label?

theorem exists_numbered_of_mem_labels {lines : List TreeLine} {c : Coordinate} {number : Nat}
    (h : (c, number) ∈ labels lines)
    : ∃ depth, .numbered number depth c ∈ lines := by
  rcases List.mem_filterMap.1 h with ⟨line, hline, hlabel⟩
  cases line with
  | numbered n depth d =>
    cases hlabel
    exact ⟨depth, hline⟩
  | reference n depth d => cases hlabel

def Grounded (lines : List TreeLine) : Prop :=
  ∀ earlier number depth c later, lines = earlier ++ .reference number depth c :: later →
    (c, number) ∈ labels earlier

theorem Grounded.concat {lines : List TreeLine} (h : Grounded lines) {line : TreeLine}
    (hline : ∀ number depth c, line = .reference number depth c → (c, number) ∈ labels lines)
    : Grounded (lines ++ [line]) := by
  intro earlier number depth c later heq
  rcases List.eq_nil_or_concat later with rfl | ⟨later, last, rfl⟩
  . rcases List.append_inj' heq rfl with ⟨rfl, hlast⟩
    cases hlast
    exact hline number depth c rfl
  . rw [List.concat_eq_append, ← List.cons_append, ← List.append_assoc] at heq
    rcases List.append_inj' heq rfl with ⟨rfl, _⟩
    exact h earlier number depth c later rfl

/--
Some lines that are those of a tree, with the artifacts numbered from one on.
-/
structure Shows (lines : List TreeLine) (tree : Tree) : Prop where
  lines_eq : tree.lines = lines.map TreeLine.text
  labels_eq : labels lines = tree.numbered.reverse.zipIdx 1
  grounded : Grounded lines

theorem shows_empty : Shows [] ⟨[], []⟩ where
  lines_eq := rfl
  labels_eq := rfl
  grounded := by simp [Grounded]

theorem number?_eq_none_iff {tree : Tree} {c : Coordinate}
    : tree.number? c = none ↔ c ∉ tree.numbered := by
  simp only [Tree.number?, Option.map_eq_none_iff, List.findIdx?_eq_none_iff, List.mem_reverse,
    decide_eq_false_iff_not]
  constructor
  . exact fun h hc => h c hc rfl
  . rintro h x hx rfl
    exact h hx

theorem mem_zipIdx_of_number? {tree : Tree} {c : Coordinate} {number : Nat}
    (h : tree.number? c = some number)
    : (c, number) ∈ tree.numbered.reverse.zipIdx 1 := by
  rcases Option.map_eq_some_iff.1 h with ⟨i, hi, rfl⟩
  rcases List.findIdx?_eq_some_iff_getElem.1 hi with ⟨hlt, heq, _⟩
  rw [List.mk_mem_zipIdx_iff_le_and_getElem?_sub]
  refine ⟨by omega, ?_⟩
  rw [Nat.add_sub_cancel, List.getElem?_eq_getElem hlt]
  exact congrArg some (of_decide_eq_true heq)

def Tree.withReference (tree : Tree) (number depth : Nat) (c : Coordinate) : Tree :=
  { tree with lines := tree.lines ++ [TreeLine.text (.reference number depth c)] }

def Tree.withNumbered (tree : Tree) (depth : Nat) (c : Coordinate) : Tree :=
  ⟨tree.lines ++ [TreeLine.text (.numbered (tree.numbered.length + 1) depth c)],
    c :: tree.numbered⟩

theorem Tree.length_lines_withReference (tree : Tree) (number depth : Nat) (c : Coordinate)
    : (tree.withReference number depth c).lines.length = tree.lines.length + 1 := by
  rw [withReference, List.length_append, List.length_singleton]

theorem Tree.length_lines_withNumbered (tree : Tree) (depth : Nat) (c : Coordinate)
    : (tree.withNumbered depth c).lines.length = tree.lines.length + 1 := by
  rw [withNumbered, List.length_append, List.length_singleton]

theorem Shows.numbered {lines : List TreeLine} {tree : Tree} (h : Shows lines tree) (depth : Nat)
    (c : Coordinate)
    : Shows (lines ++ [.numbered (tree.numbered.length + 1) depth c])
        (tree.withNumbered depth c) where
  lines_eq := by rw [Tree.withNumbered, h.lines_eq, List.map_append, List.map_singleton]
  labels_eq := by
    have hlabels : labels (lines ++ [.numbered (tree.numbered.length + 1) depth c])
        = labels lines ++ [(c, tree.numbered.length + 1)] := List.filterMap_append
    rw [hlabels, h.labels_eq, Tree.withNumbered, List.reverse_cons, List.zipIdx_append,
      List.length_reverse]
    simp [Nat.add_comm]
  grounded := h.grounded.concat nofun

theorem Shows.reference {lines : List TreeLine} {tree : Tree} (h : Shows lines tree) (depth : Nat)
    {c : Coordinate} {number : Nat} (hnumber : tree.number? c = some number)
    : Shows (lines ++ [.reference number depth c]) (tree.withReference number depth c) where
  lines_eq := by rw [Tree.withReference, h.lines_eq, List.map_append, List.map_singleton]
  labels_eq := by
    have hlabels : labels (lines ++ [.reference number depth c]) = labels lines ++ [] :=
      List.filterMap_append
    rw [hlabels, List.append_nil, h.labels_eq, Tree.withReference]
  grounded := by
    apply h.grounded.concat
    intro number' depth' c' heq
    cases heq
    rw [h.labels_eq]
    exact mem_zipIdx_of_number? hnumber

theorem add_of_number? {tree : Tree} {summary : Summary} {number : Nat} (depth : Nat)
    (h : tree.number? summary.coordinate = some number)
    : tree.add depth summary = tree.withReference number depth summary.coordinate := by
  cases summary
  rw [Tree.add]
  dsimp only at h
  rw [h]
  rfl

theorem add_of_new {tree : Tree} {summary : Summary} (depth : Nat)
    (h : tree.number? summary.coordinate = none)
    : tree.add depth summary
        = (tree.withNumbered depth summary.coordinate).addAll (depth + 1) summary.declared := by
  cases summary
  rw [Tree.add]
  dsimp only at h
  rw [h]
  rfl

mutual

theorem exists_shows_add {lines : List TreeLine} {tree : Tree} (h : Shows lines tree) (depth : Nat)
    (summary : Summary)
    : ∃ lines', Shows lines' (tree.add depth summary) := by
  cases hnumber : tree.number? summary.coordinate with
  | some number =>
    rw [add_of_number? depth hnumber]
    exact ⟨_, h.reference depth hnumber⟩
  | none =>
    rw [add_of_new depth hnumber]
    exact exists_shows_addAll (h.numbered depth summary.coordinate) (depth + 1) summary.declared
termination_by sizeOf summary
decreasing_by exact sizeOf_declared_lt summary

theorem exists_shows_addAll {lines : List TreeLine} {tree : Tree} (h : Shows lines tree)
    (depth : Nat) (summaries : List Summary)
    : ∃ lines', Shows lines' (tree.addAll depth summaries) := by
  cases summaries with
  | nil => exact ⟨lines, h⟩
  | cons summary rest =>
    rw [Tree.addAll]
    rcases exists_shows_add h depth summary with ⟨lines', h'⟩
    exact exists_shows_addAll h' depth rest
termination_by sizeOf summaries

end

def declaredCount (summaries : List Summary) : Nat :=
  (summaries.map (·.declared.length)).sum

theorem declaredCount_concat (summaries : List Summary) (summary : Summary)
    : declaredCount (summaries ++ [summary])
        = declaredCount summaries + summary.declared.length := by
  simp [declaredCount]

/--
Whether all that is below a summary is listed, for each one that is listed and that some summaries
lead to. What is listed but not finished leads to the summaries itself.
-/
def Finished (listed summaries : List Summary) : Prop :=
  ∀ d ∈ expanded summaries, d.coordinate ∈ coordinates listed →
    coordinates d.flattened ⊆ coordinates listed

/--
What walking over some summaries adds to a tree: the summaries and all that is below them, as far as
they are not listed yet, and a line for each summary and for each declared dependency of a new one.
-/
def Lists (listed summaries : List Summary) (before after : Tree) : Prop :=
  let all := insertAll listed (expanded summaries)
  after.numbered.reverse = coordinates all
    ∧ after.lines.length + declaredCount listed
      = before.lines.length + summaries.length + declaredCount all

variable {member : Summary → Prop}

theorem coordinates_subset_insertAll (listed summaries : List Summary)
    : coordinates listed ⊆ coordinates (insertAll listed summaries) := by
  intro c hc
  rw [mem_coordinates_insertAll]
  exact .inl hc

theorem mem_coordinates_of_number? {listed : List Summary} {tree : Tree} {c : Coordinate}
    (hnumbered : tree.numbered.reverse = coordinates listed)
    : tree.number? c = none ↔ c ∉ coordinates listed := by
  rw [number?_eq_none_iff, ← hnumbered, List.mem_reverse]

theorem Finished.of_subset {listed part whole : List Summary} (hfinished : Finished listed whole)
    (h : part ⊆ whole)
    : Finished listed part :=
  fun d hd => hfinished d (expanded_subset h hd)

theorem Finished.below (h : Family member) {summary : Summary} (hmember : member summary)
    {listed : List Summary} (hfinished : Finished listed [summary])
    : Finished (insert listed summary) summary.declared := by
  intro d hd hlisted
  have hd := h.expanded_declared_subset hmember hd
  rcases mem_coordinates_insert.1 hlisted with hlisted | heq
  . have hsubset := hfinished d (mem_expanded_singleton.2 (.inr hd)) hlisted
    intro c hc
    exact mem_coordinates_insert.2 (.inl (hsubset hc))
  . exact absurd (mem_coordinates.2 ⟨d, hd, heq⟩) (h.coordinate_not_mem hmember)

theorem Finished.after (h : Family member) {summary : Summary} {rest listed : List Summary}
    (hmember : ∀ d ∈ summary :: rest, member d) (hfinished : Finished listed (summary :: rest))
    : Finished (insertAll listed (expanded [summary])) rest := by
  have hmember' : ∀ x ∈ expanded (summary :: rest), member x := by
    intro x hx
    exact h.of_mem_closure hmember ((h.mem_closure_iff hmember).2 hx)
  intro d hd hlisted
  have hd := expanded_subset (List.subset_cons_self summary rest) hd
  rcases mem_coordinates_insertAll.1 hlisted with hlisted | hlisted
  . exact List.Subset.trans (hfinished d hd hlisted) (coordinates_subset_insertAll _ _)
  . -- Then it is the summary or below it, and so are its own dependencies.
    rcases mem_coordinates.1 hlisted with ⟨x, hx, heq⟩
    have hx' := expanded_subset (List.cons_subset_cons summary rest.nil_subset) hx
    rw [h.eq_of_coordinate x d (hmember' x hx') (hmember' d hd) heq, mem_expanded_singleton] at hx
    have hbelow : d.flattened ⊆ expanded [summary] := by
      intro y hy
      rw [mem_expanded_singleton]
      rcases hx with rfl | hx
      . exact .inr hy
      . exact .inr (h.flattened_subset (hmember summary (by simp)) hx hy)
    intro c hc
    exact mem_coordinates_insertAll.2 (.inr (List.map_subset _ hbelow hc))

theorem insertAll_expanded_singleton (h : Family member) {summary : Summary}
    (hmember : member summary) (listed : List Summary)
    : insertAll listed (expanded [summary])
        =
      insertAll (insert listed summary) (expanded summary.declared) := by
  have hexpanded : expanded [summary] = summary :: ofList (expanded summary.declared) := by
    rw [← closure_eq_ofList, ← h.flattened_eq hmember]
    simp [expanded]
  rw [hexpanded, ← insertAll_ofList (insert listed summary)]
  rfl

mutual

theorem lists_add (h : Family member) {listed : List Summary} {tree : Tree} (depth : Nat)
    (hnumbered : tree.numbered.reverse = coordinates listed) (summary : Summary)
    (hmember : member summary) (hfinished : Finished listed [summary])
    : Lists listed [summary] tree (tree.add depth summary) := by
  unfold Lists
  cases hnumber : tree.number? summary.coordinate with
  | some number =>
    have hold : summary.coordinate ∈ coordinates listed := by
      by_contra hnew
      rw [← mem_coordinates_of_number? hnumbered, hnumber] at hnew
      cases hnew
    have hsubset : coordinates (expanded [summary]) ⊆ coordinates listed := by
      intro c hc
      rcases mem_coordinates.1 hc with ⟨d, hd, rfl⟩
      rcases mem_expanded_singleton.1 hd with rfl | hd
      . exact hold
      . exact hfinished summary (by simp) hold (mem_coordinates.2 ⟨d, hd, rfl⟩)
    rw [add_of_number? depth hnumber, insertAll_of_subset hsubset]
    refine ⟨hnumbered, ?_⟩
    rw [Tree.length_lines_withReference, List.length_singleton]
  | none =>
    have hnew := (mem_coordinates_of_number? hnumbered).1 hnumber
    have hfinished' := hfinished.below h hmember
    rw [insertAll_expanded_singleton h hmember, insert_of_notMem hnew, add_of_new depth hnumber]
    rw [insert_of_notMem hnew] at hfinished'
    have hnumbered' : (tree.withNumbered depth summary.coordinate).numbered.reverse
        = coordinates (listed ++ [summary]) := by
      simp [Tree.withNumbered, hnumbered, coordinates]
    rcases lists_addAll h (depth + 1) hnumbered' summary.declared (h.declared _ hmember) hfinished'
      with ⟨hafter, hlength⟩
    rw [declaredCount_concat, Tree.length_lines_withNumbered] at hlength
    rw [List.length_singleton]
    exact ⟨hafter, by omega⟩
termination_by sizeOf summary
decreasing_by exact sizeOf_declared_lt summary

theorem lists_addAll (h : Family member) {listed : List Summary} {tree : Tree} (depth : Nat)
    (hnumbered : tree.numbered.reverse = coordinates listed) (summaries : List Summary)
    (hmember : ∀ d ∈ summaries, member d) (hfinished : Finished listed summaries)
    : Lists listed summaries tree (tree.addAll depth summaries) := by
  cases summaries with
  | nil => exact ⟨hnumbered, rfl⟩
  | cons summary rest =>
    rw [Tree.addAll]
    have hfirst := hfinished.of_subset (List.cons_subset_cons summary rest.nil_subset)
    rcases lists_add h depth hnumbered summary (hmember _ (by simp)) hfirst with
      ⟨hnumbered', hlength⟩
    rcases lists_addAll h depth hnumbered' rest (fun d hd => hmember d (by simp [hd]))
      (hfinished.after h hmember) with ⟨hnumbered'', hlength'⟩
    have hexpanded : expanded (summary :: rest) = expanded [summary] ++ expanded rest := by
      simp [expanded]
    unfold Lists
    rw [hexpanded, insertAll_append, List.length_cons]
    rw [List.length_singleton] at hlength
    exact ⟨hnumbered'', by omega⟩
termination_by sizeOf summaries

end

theorem tree_shows (h : Family member) {roots : List Summary} (hmember : ∀ d ∈ roots, member d)
    : ∃ lines : List TreeLine,
      tree roots = lines.map TreeLine.text
        ∧ labels lines = (coordinates (ofList (expanded roots))).zipIdx 1
        ∧ Grounded lines
        ∧ lines.length = roots.length + declaredCount (ofList (expanded roots)) := by
  rcases exists_shows_addAll shows_empty 0 roots with ⟨lines, hshows⟩
  have hfinished : Finished [] roots := by
    intro d _ hd
    cases hd
  have hempty : (Tree.mk [] []).numbered.reverse = coordinates [] := rfl
  rcases lists_addAll h 0 hempty roots hmember hfinished with ⟨hnumbered, hlength⟩
  refine ⟨lines, hshows.lines_eq, ?_, hshows.grounded, ?_⟩
  . rw [hshows.labels_eq, hnumbered]
    rfl
  . rw [hshows.lines_eq, List.length_map] at hlength
    simpa [declaredCount, ofList] using hlength

/--
The tree of any roots that have been resolved numbers the artifacts from one on, in the order in
which they come first in the roots' closures. All other lines refer to a numbered line before them,
and there is one line for each root and for each declared dependency of a numbered artifact.
-/
theorem tree_performAll_fresh (resolver : Resolver Memory) (requests : List Resolver.Request)
    (cs : List Coordinate)
    : let after := resolver.fresh.performAll requests
      let roots := cs.filterMap after.get?
      ∃ (lines : List TreeLine) (numbered : List Summary),
        tree roots = lines.map TreeLine.text
          ∧ (∀ summary ∈ numbered, after.get? summary.coordinate = some summary)
          ∧ coordinates numbered
            = (roots.flatMap fun root => root.coordinate :: coordinates root.flattened).eraseDups
          ∧ labels lines = (coordinates numbered).zipIdx 1
          ∧ (∀ earlier number depth c later,
            lines = earlier ++ .reference number depth c :: later →
              ∃ depth', .numbered number depth' c ∈ earlier)
          ∧ lines.length
            = roots.length + (numbered.map fun summary => summary.declared.length).sum := by
  intro after roots
  have hafter := ((consistent_fresh resolver).performAll requests).1
  have hfamily := family_performAll_fresh resolver requests
  have hroots : ∀ root ∈ roots, after.get? root.coordinate = some root := by
    intro root hroot
    rcases List.mem_filterMap.1 hroot with ⟨c, _, hget⟩
    rwa [hafter.coordinate_eq c root hget]
  rcases tree_shows hfamily hroots with ⟨lines, hlines, hlabels, hgrounded, hlength⟩
  refine ⟨lines, ofList (expanded roots), hlines, ?_, ?_, hlabels, ?_, hlength⟩
  . intro summary hmem
    exact hfamily.of_mem_closure hroots (closure_eq_ofList roots ▸ hmem)
  . rw [coordinates_ofList]
    simp only [expanded, coordinates, List.map_flatMap, List.map_cons]
  . intro earlier number depth c later heq
    exact exists_numbered_of_mem_labels (hgrounded earlier number depth c later heq)

end Report
end ArtifactAudit
