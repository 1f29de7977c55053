import ArtifactAudit.Proofs.FileTree.Making

/-!
This module contains what paths have in common that are spelled alike: they lead to the same place,
and what is beside a file by one of them is spelled like what is beside it by the other.
-/

namespace ArtifactAudit

namespace Path

variable {path other : Path} {before parts : List String} {name rest : String}

theorem anchor_eq_root_iff : path.split.1 = .root ↔ path.isAbsolute = true := by
  rw [split, isAbsolute]
  split
  . next heq => simp [heq]
  . next heq => simp [heq]
  . next heq => simp [heq]
  . next cs hroot _ _ =>
    cases hcs : path.text.toList with
    | nil => simp
    | cons c cs =>
      have hc : c ≠ '/' := by
        rintro rfl
        exact hroot cs hcs
      simp [hc]

theorem anchor_eq_dot_of_parts (h : Text.parts '/' path.text = "." :: parts)
    : path.split.1 = .dot := by
  have htext := Text.intercalate_parts path.text
  rw [h] at htext
  cases parts with
  | nil =>
    have hchars : path.text.toList = ['.'] := by
      rw [← htext]
      decide
    rw [split, hchars]
    rfl
  | cons part parts =>
    have hchars : path.text.toList = '.' :: '/' :: ("/".intercalate (part :: parts)).toList := by
      rw [← htext, String.intercalate_cons_of_ne_nil (by simp), String.toList_append,
        String.toList_append]
      rfl
    rw [split, hchars]
    rfl

theorem segments_fst : path.segments.1 = path.split.1 := rfl

theorem isAbsolute_congr (h : path.segments = other.segments)
    : path.isAbsolute = other.isAbsolute := by
  rw [Bool.eq_iff_iff, ← anchor_eq_root_iff, ← anchor_eq_root_iff, ← segments_fst, h, segments_fst]

theorem segments_eq (path : Path)
    : path.segments
        =
      (if path.isAbsolute then .root
        else if (Text.parts '/' path.text).head? = some "." then .dot
        else .none,
      leading (Text.parts '/' path.text)) := by
  refine Prod.ext ?_ (segments_eq_leading path)
  rw [segments_fst]
  rcases split_cases path with ⟨parts, hsplit, _⟩ | ⟨parts, hsplit, htext⟩ | ⟨hsplit, hpath⟩
  . rw [if_pos (anchor_eq_root_iff.1 (by rw [hsplit])), hsplit]
  . rw [hsplit, htext, not_isAbsolute_of_parts htext (by decide)]
    rfl
  . rw [hpath, if_neg Bool.false_ne_true, if_neg, hsplit]
    intro hhead
    rcases List.head?_eq_some_iff.1 hhead with ⟨parts, hparts⟩
    have hdot := anchor_eq_dot_of_parts hparts
    rw [hsplit] at hdot
    cases hdot

theorem segments_root (h : Text.parts '/' path.text = "" :: parts) (hparts : parts ≠ [])
    : path.segments = (.root, leading parts) := by
  rw [segments_eq, if_pos (isAbsolute_iff.2 ⟨parts, h, hparts⟩), h, leading_cons_idle (by rfl)]

theorem segments_dot (h : Text.parts '/' path.text = "." :: parts)
    : path.segments = (.dot, leading parts) := by
  rw [segments_eq, not_isAbsolute_of_parts h (by decide), h, leading_cons_idle (by rfl)]
  rfl

theorem segments_plain {first : String} (h : Text.parts '/' path.text = first :: parts)
    (hfirst : isIdle first = false)
    : path.segments = (.none, leading (first :: parts)) := by
  have hdot : first ≠ "." := by
    rintro rfl
    cases hfirst
  rw [segments_eq, not_isAbsolute_of_parts h (ne_empty_of_not_idle hfirst), h]
  simp [hdot]

theorem not_isIdle_of_anchor {first : String} (h : Text.parts '/' path.text = first :: parts)
    (hparts : parts ≠ []) (hanchor : path.split.1 = .none)
    : isIdle first = false := by
  rw [isIdle, Bool.or_eq_false_iff]
  constructor
  . rw [← Bool.not_eq_true, String.isEmpty_iff]
    rintro rfl
    rw [anchor_eq_root_iff.2 (isAbsolute_iff.2 ⟨parts, h, hparts⟩)] at hanchor
    cases hanchor
  . rw [beq_eq_false_iff_ne]
    rintro rfl
    rw [anchor_eq_dot_of_parts h] at hanchor
    cases hanchor

theorem notMem_segments {segment : String} (h : segment ∈ path.segments.2)
    : '/' ∉ segment.toList ∧ isIdle segment = false := by
  rw [segments_eq_leading, leading, List.mem_filter, Bool.not_eq_true'] at h
  exact ⟨Text.notMem_of_mem_parts h.1, h.2⟩

theorem leading_parts_segments (path : Path)
    : leading (Text.parts '/' ("/".intercalate path.segments.2)) = path.segments.2 := by
  rw [leading_parts_intercalate fun segment hsegment => (notMem_segments hsegment).1]
  exact List.filter_eq_self.2 fun segment hsegment => by simpa using (notMem_segments hsegment).2

theorem segments_tidy (path : Path) : path.tidy.segments = path.segments := by
  have hleading := leading_parts_segments path
  have hsegments := @notMem_segments path
  rw [tidy]
  generalize path.segments = parts at hleading hsegments ⊢
  rcases parts with ⟨anchor, segments⟩
  dsimp only at hleading hsegments ⊢
  cases anchor with
  | root =>
    have htext : Text.parts '/' ("/" ++ "/".intercalate segments)
        = "" :: Text.parts '/' ("/".intercalate segments) :=
      Text.parts_append '/' "" ("/".intercalate segments)
    rw [segments_root htext (Text.parts_ne_nil _ _), hleading]
  | dot =>
    have htext : Text.parts '/' ("./" ++ "/".intercalate segments)
        = "." :: Text.parts '/' ("/".intercalate segments) :=
      Text.parts_append '/' "." ("/".intercalate segments)
    rw [segments_dot htext, hleading]
  | none =>
    cases segments with
    | nil => decide
    | cons first segments =>
      have htext : Text.parts '/' ("/".intercalate (first :: segments)) = first :: segments :=
        Text.parts_intercalate (List.cons_ne_nil _ _) fun segment hsegment => (hsegments hsegment).1
      have hplain := @segments_plain ⟨_⟩ segments first htext (hsegments List.mem_cons_self).2
      rw [htext] at hleading
      rwa [hleading] at hplain

theorem tidy_eq_iff : path.tidy = other.tidy ↔ path.segments = other.segments := by
  constructor
  . intro h
    rw [← segments_tidy path, h, segments_tidy]
  . intro h
    rw [tidy, h, tidy]

theorem segments_child (path : Path) (hname : '/' ∉ name.toList) (hidle : isIdle name = false)
    : (path.child name).segments = (path.segments.1, path.segments.2 ++ [name]) := by
  have hrelative := not_isAbsolute_of_notMem hname
  have hsingle : leading [name] = [name] := leading_cons hidle []
  rw [child, join, if_neg (by rw [hrelative]; simp)]
  cases hempty : path.text.isEmpty with
  | true =>
    rw [String.isEmpty_iff] at hempty
    have hpath : path.segments = (.none, []) := by
      rw [segments, split, hempty]
      decide
    rw [if_pos (by rw [Bool.true_or]), hempty, String.empty_append, hpath,
      @segments_plain ⟨name⟩ [] name (Text.parts_of_notMem hname) hidle, hsingle]
    rfl
  | false =>
    rw [Bool.false_or]
    split
    . next hend =>
      rcases Text.exists_of_endsWith hend with ⟨front, hfront⟩
      have hparts := Text.parts_concat '/' front
      have hchild := Text.parts_append '/' front name
      rw [← hfront] at hparts hchild
      rw [Text.parts_of_notMem hname] at hchild
      rw [segments_eq, segments_eq, isAbsolute_append hempty, hchild, hparts,
        List.head?_append_of_ne_nil _ (Text.parts_ne_nil _ _),
        List.head?_append_of_ne_nil _ (Text.parts_ne_nil _ _), leading_append, leading_append, hsingle,
        leading_cons_idle (by rfl)]
      simp [leading]
    . have hchild : Text.parts '/' (path.text ++ "/" ++ name) = Text.parts '/' path.text ++ [name] := by
        rw [← Text.parts_of_notMem hname]
        exact Text.parts_append '/' path.text name
      rw [segments_eq, segments_eq, hchild, String.append_assoc, isAbsolute_append hempty,
        List.head?_append_of_ne_nil _ (Text.parts_ne_nil _ _), leading_append, hsingle]

section

variable (hparts : Text.parts '/' path.text = before ++ [name]) (hname : isIdle name = false)
  (hrest : isAbsolute ⟨rest⟩ = false)

include hparts hname hrest

theorem segments_join_parent
    : segments ((path.parent?.getD ⟨"."⟩).join ⟨rest⟩)
        =
      if path.segments.1 = .none ∧ path.segments.2.dropLast = [] then segments ⟨rest⟩
      else (path.segments.1, path.segments.2.dropLast ++ (segments ⟨rest⟩).2) := by
  have hbefore : path.segments.2.dropLast = leading before := by
    rw [segments_eq_leading, hparts, leading_append, leading_cons hname]
    exact List.dropLast_concat
  have hslash : ∀ part ∈ before, '/' ∉ part.toList := by
    intro part hpart
    exact Text.notMem_of_mem_parts (hparts ▸ List.mem_append_left [name] hpart)
  rw [hbefore, segments_fst, segments_eq_leading ⟨rest⟩]
  rcases split_cases path with ⟨parts, hsplit, htext⟩ | ⟨parts, hsplit, htext⟩ | ⟨hsplit, hpath⟩
  . rw [htext, List.cons_eq_append_iff] at hparts
    rcases hparts with ⟨rfl, hsingle⟩ | ⟨parts, rfl, rfl⟩
    . rw [List.cons.injEq] at hsingle
      exact absurd hsingle.1 (ne_empty_of_not_idle hname)
    . rw [List.forall_mem_cons] at hslash
      have hjoin := parts_join_root hslash.2 hrest
      rw [parent?_eq hsplit hname, Option.getD_some, hsplit, leading_cons_idle (by rfl),
        if_neg (by simp)]
      rw [Anchor.text, segments_root hjoin (by simp [Text.parts_ne_nil]), leading_append,
        leading_dropIdleEnd]
  . rw [htext, List.cons_eq_append_iff] at hparts
    rcases hparts with ⟨rfl, hsingle⟩ | ⟨parts, rfl, rfl⟩
    . rw [List.cons.injEq] at hsingle
      rw [hsingle.1] at hname
      cases hname
    . rw [List.forall_mem_cons] at hslash
      rcases parts_join_dot hslash.2 hrest with ⟨front, hjoin, hleading⟩
      rw [@parent?_eq path .dot ("" :: parts) name hsplit hname, Option.getD_some, hsplit,
        leading_cons_idle (by rfl), if_neg (by simp)]
      rw [Anchor.text, segments_dot hjoin, leading_append, hleading]
  . have hjoin := parts_join_plain hslash hrest
    have hanchor : path.split.1 = .none := by rw [hsplit]
    have hleading := leading_dropIdleEnd before
    rw [hparts] at hsplit
    rw [parent?_eq hsplit hname, Option.getD_some, Anchor.text, String.empty_append, hanchor]
    cases hfront : dropIdleEnd before with
    | nil =>
      rw [hfront] at hleading
      rw [if_pos ⟨rfl, hleading.symm⟩, join, if_neg (by rw [hrest]; simp), if_pos (by rfl)]
      exact congrArg (fun text => segments ⟨text⟩) String.empty_append
    | cons first others =>
      rw [hfront] at hjoin hleading
      rcases isPrefix_dropIdleEnd before with ⟨idle, hidle⟩
      rw [hfront] at hidle
      rw [← hidle, List.cons_append, List.cons_append] at hparts
      rw [List.cons_append] at hjoin
      have hfirst := not_isIdle_of_anchor hparts (by simp) hanchor
      rw [← hleading, leading_cons hfirst, if_neg (by simp), segments_plain hjoin hfirst,
        leading_cons hfirst, leading_append, List.cons_append]

end

end Path

namespace FileTree

variable {tree : FileTree} {path other : Path} {location target : List String}

theorem follow_leading_of_follow {segments : List String}
    : ∀ {location}, tree.follow segments location = some target →
        tree.follow (Path.leading segments) location = some target := by
  induction segments with
  | nil => exact fun h => h
  | cons segment segments ih =>
    intro location h
    by_cases hlocation : tree.standing? location = some .directory
    . rw [follow_cons _ _ hlocation] at h
      cases hidle : Path.isIdle segment with
      | true =>
        rw [hidle, if_pos rfl] at h
        rw [Path.leading_cons_idle hidle]
        exact ih h
      | false =>
        rw [hidle, if_neg Bool.false_ne_true] at h
        rw [Path.leading_cons hidle, follow_cons _ _ hlocation, hidle, if_neg Bool.false_ne_true]
        split
        . next hup => exact ih (by rwa [if_pos hup] at h)
        . next hup =>
          rw [if_neg hup] at h
          split
          . next hentry => exact ih (by rwa [if_pos hentry] at h)
          . next hentry => rwa [if_neg hentry] at h
    . rw [follow_cons_of_ne _ _ hlocation] at h
      cases h

theorem locate?_unique_of_segments (h : tree.locate? path = some location)
    (hother : tree.locate? other = some target) (heq : path.segments = other.segments)
    : location = target := by
  have hleading : ∀ {path location}, tree.locate? path = some location →
      tree.follow path.segments.2 (tree.start path) = some location := by
    intro path location h
    rw [locate?] at h
    split at h
    . rw [Path.segments_eq_leading]
      exact follow_leading_of_follow h
    . cases h
  have hfollow := hleading hother
  rw [← heq, start, ← Path.isAbsolute_congr heq] at hfollow
  exact Option.some.inj ((hleading h).symm.trans hfollow)

end FileTree
end ArtifactAudit
