import ArtifactAudit.Proofs.DottedName
import ArtifactAudit.Proofs.FileTree.Places

/-!
This module contains the proof that what a path beside a file leads to depends on where the file is
and not on the spelling of its path: the path of the directory is taken from the text of the file's
path, but it leads where the file is.
-/

namespace ArtifactAudit

namespace Text

theorem parts_intercalate {segments : List String} (hne : segments ≠ [])
    (h : ∀ segment ∈ segments, '/' ∉ segment.toList)
    : parts '/' ("/".intercalate segments) = segments := by
  have hslash : "/".toList = ['/'] := by decide
  rw [parts, String.toList_intercalate, hslash, List.splitOn_intercalate]
  . simp [List.map_map, Function.comp_def]
  . intro cs hcs
    rcases List.mem_map.1 hcs with ⟨segment, hsegment, rfl⟩
    exact h segment hsegment
  . simpa using hne

theorem intercalate_parts (s : String) : "/".intercalate (parts '/' s) = s := by
  have hslash : "/".toList = ['/'] := by decide
  rw [← String.toList_inj, String.toList_intercalate, hslash]
  apply intercalate_map_toList_parts

theorem endsWith_slash {s : String} : endsWith s "/" = true ↔ s.toList.getLast? = some '/' := by
  have hslash : "/".toList = ['/'] := by decide
  rw [endsWith, hslash, List.isSuffixOf_iff_suffix, List.getLast?_eq_some_iff]
  constructor
  . rintro ⟨rest, hrest⟩
    exact ⟨rest, hrest.symm⟩
  . rintro ⟨rest, hrest⟩
    exact ⟨rest, hrest.symm⟩

theorem exists_of_endsWith {s : String} (h : endsWith s "/" = true)
    : ∃ front, s = front ++ String.singleton '/' := by
  rw [endsWith_slash, List.getLast?_eq_some_iff] at h
  rcases h with ⟨front, hfront⟩
  refine ⟨String.ofList front, ?_⟩
  rw [← String.toList_inj, hfront, String.toList_append, String.toList_ofList,
    String.toList_singleton]

end Text

namespace Path

theorem isAbsolute_append {text : String} (h : text.isEmpty = false) (more : String)
    : isAbsolute ⟨text ++ more⟩ = isAbsolute ⟨text⟩ := by
  rw [isAbsolute, isAbsolute, String.toList_append]
  cases htext : text.toList with
  | nil =>
    rw [String.toList_eq_nil_iff] at htext
    rw [htext] at h
    cases h
  | cons c cs => rfl

def leading (parts : List String) : List String :=
  parts.filter fun part => !isIdle part

theorem leading_append (first second : List String)
    : leading (first ++ second) = leading first ++ leading second :=
  List.filter_append ..

theorem leading_cons_idle {part : String} (h : isIdle part = true) (parts : List String)
    : leading (part :: parts) = leading parts := by
  rw [leading, List.filter_cons_of_neg (by simpa using h)]
  rfl

theorem dropIdleEnd_concat {part : String} (h : isIdle part = false) (parts : List String)
    : dropIdleEnd (parts ++ [part]) = parts ++ [part] := by
  rw [dropIdleEnd, List.reverse_append, List.reverse_singleton, List.singleton_append,
    List.dropWhile_cons_of_neg (by simpa using h), List.reverse_cons, List.reverse_reverse]

theorem dropIdleEnd_concat_idle {part : String} (h : isIdle part = true) (parts : List String)
    : dropIdleEnd (parts ++ [part]) = dropIdleEnd parts := by
  rw [dropIdleEnd, List.reverse_append, List.reverse_singleton, List.singleton_append,
    List.dropWhile_cons_of_pos h]
  rfl

theorem dropIdleEnd_cases (parts : List String)
    : ∃ idle, parts = dropIdleEnd parts ++ idle ∧ (∀ part ∈ idle, isIdle part = true)
        ∧ (dropIdleEnd parts = []
          ∨ ∃ before part, dropIdleEnd parts = before ++ [part] ∧ isIdle part = false) := by
  induction parts using List.reverseRecOn with
  | nil => exact ⟨[], rfl, fun _ => nofun, .inl rfl⟩
  | append_singleton parts part ih =>
    cases hpart : isIdle part with
    | false =>
      rw [dropIdleEnd_concat hpart]
      exact ⟨[], (List.append_nil _).symm, fun _ => nofun, .inr ⟨parts, part, rfl, hpart⟩⟩
    | true =>
      rw [dropIdleEnd_concat_idle hpart]
      rcases ih with ⟨idle, hparts, hidle, hend⟩
      refine ⟨idle ++ [part], ?_, ?_, hend⟩
      . rw [← List.append_assoc, ← hparts]
      . intro other hother
        rcases List.mem_append.1 hother with hother | hother
        . exact hidle other hother
        . rwa [List.mem_singleton.1 hother]

theorem leading_dropIdleEnd (parts : List String) : leading (dropIdleEnd parts) = leading parts := by
  rcases dropIdleEnd_cases parts with ⟨idle, hparts, hidle, _⟩
  have hnone : leading idle = [] := by
    rw [leading, List.filter_eq_nil_iff]
    intro part hpart
    simpa using hidle part hpart
  rw [hparts, leading_append, hnone, List.append_nil, ← hparts]

theorem isAbsolute_iff {path : Path}
    : path.isAbsolute = true ↔ ∃ parts, Text.parts '/' path.text = "" :: parts ∧ parts ≠ [] := by
  rw [isAbsolute, Text.parts]
  cases path.text.toList with
  | nil => simp
  | cons c cs =>
    have hne : (cs.splitOn '/').map String.ofList ≠ [] := by
      rw [Ne, List.map_eq_nil_iff]
      exact List.splitOn_ne_nil _ _
    rw [List.splitOn_cons_eq_if_modifyHead]
    split
    . next hc => simpa using hc
    . next hc =>
      cases hparts : cs.splitOn '/' with
      | nil => exact absurd hparts (List.splitOn_ne_nil _ _)
      | cons head parts => simpa using hc

theorem not_isAbsolute_of_parts {path : Path} {first : String} {parts : List String}
    (h : Text.parts '/' path.text = first :: parts) (hfirst : first ≠ "")
    : path.isAbsolute = false := by
  rw [← Bool.not_eq_true, isAbsolute_iff]
  rintro ⟨others, hothers, _⟩
  rw [h, List.cons.injEq] at hothers
  exact hfirst hothers.1

theorem not_isAbsolute_of_notMem {name : String} (h : '/' ∉ name.toList)
    : isAbsolute ⟨name⟩ = false := by
  rw [← Bool.not_eq_true, isAbsolute_iff, Text.parts_of_notMem h]
  rintro ⟨parts, hparts, hne⟩
  exact hne (List.cons.inj hparts).2.symm

theorem split_cases (path : Path)
    : (∃ parts, path.split = (.root, parts) ∧ Text.parts '/' path.text = "" :: parts)
        ∨ (∃ parts, path.split = (.dot, "" :: parts) ∧ Text.parts '/' path.text = "." :: parts)
        ∨ (path.split = (.none, Text.parts '/' path.text) ∧ path.isAbsolute = false) := by
  rw [split, Text.parts, isAbsolute]
  split
  . next rest heq =>
    have hparts : ('/' :: rest).splitOn '/' = [] :: rest.splitOn '/' :=
      List.splitOn_append_cons_self [] rest
    exact .inl ⟨_, rfl, by rw [heq, hparts]; rfl⟩
  . next heq => exact .inr (.inl ⟨[], rfl, by rw [heq]; decide⟩)
  . next rest heq =>
    have hparts : ('.' :: '/' :: rest).splitOn '/' = ['.'] :: rest.splitOn '/' :=
      List.splitOn_append_cons_self ['.'] rest
    exact .inr (.inl ⟨_, rfl, by rw [heq, hparts]; rfl⟩)
  . next cs hroot _ _ =>
    refine .inr (.inr ⟨rfl, ?_⟩)
    cases hcs : path.text.toList with
    | nil => rfl
    | cons c rest =>
      have hc : c ≠ '/' := by
        rintro rfl
        exact hroot rest hcs
      simpa using hc

theorem join_eq {path : Path} {before : List String} {last rest : String}
    (h : Text.parts '/' path.text = before ++ [last]) (hlast : last ≠ "")
    (hrest : isAbsolute ⟨rest⟩ = false)
    : path.join ⟨rest⟩ = ⟨path.text ++ String.singleton '/' ++ rest⟩ := by
  have hempty : path.text.isEmpty = false := by
    rw [← Bool.not_eq_true, String.isEmpty_iff]
    intro hnone
    have hparts : Text.parts '/' "" = [] ++ [""] := by decide
    rw [hnone, hparts] at h
    exact hlast (List.cons.inj (List.append_inj' h rfl).2).1.symm
  have hend : Text.endsWith path.text "/" = false := by
    rw [← Bool.not_eq_true]
    intro hslash
    rcases Text.exists_of_endsWith hslash with ⟨front, hfront⟩
    have hparts := Text.parts_concat '/' front
    rw [← hfront, h] at hparts
    exact hlast (List.cons.inj (List.append_inj' hparts rfl).2).1
  rw [join, if_neg (by rw [hrest]; simp), if_neg (by rw [hempty, hend]; simp)]
  rfl

theorem parts_join_intercalate {before : List String} {last rest : String}
    (h : ∀ part ∈ before ++ [last], '/' ∉ part.toList) (hlast : last ≠ "")
    (hrest : isAbsolute ⟨rest⟩ = false)
    : Text.parts '/' (join ⟨"/".intercalate (before ++ [last])⟩ ⟨rest⟩).text
        = before ++ [last] ++ Text.parts '/' rest := by
  have hparts : Text.parts '/' ("/".intercalate (before ++ [last])) = before ++ [last] :=
    Text.parts_intercalate (by simp) h
  have hjoin := Text.parts_append '/' ("/".intercalate (before ++ [last])) rest
  rw [hparts] at hjoin
  rw [@join_eq ⟨"/".intercalate (before ++ [last])⟩ before last rest hparts hlast hrest]
  exact hjoin

section

variable {parts : List String} {rest : String}

theorem notMem_dropIdleEnd (h : ∀ part ∈ parts, '/' ∉ part.toList)
    : ∀ part ∈ dropIdleEnd parts, '/' ∉ part.toList := by
  rcases dropIdleEnd_cases parts with ⟨idle, hparts, _⟩
  intro part hpart
  exact h part (by rw [hparts]; exact List.mem_append_left idle hpart)

theorem ne_empty_of_not_idle {part : String} (h : isIdle part = false) : part ≠ "" := by
  rintro rfl
  cases h

theorem parts_join_plain (h : ∀ part ∈ parts, '/' ∉ part.toList)
    (hrest : isAbsolute ⟨rest⟩ = false)
    : Text.parts '/' (join ⟨"/".intercalate (dropIdleEnd parts)⟩ ⟨rest⟩).text
        = dropIdleEnd parts ++ Text.parts '/' rest := by
  have hslash := notMem_dropIdleEnd h
  rcases dropIdleEnd_cases parts with ⟨_, _, _, hnone | ⟨before, part, hsome, hpart⟩⟩
  . rw [hnone, join, if_neg (by rw [hrest]; simp), if_pos (by rfl)]
    exact congrArg (Text.parts '/') String.empty_append
  . rw [hsome] at hslash ⊢
    exact parts_join_intercalate hslash (ne_empty_of_not_idle hpart) hrest

theorem not_isAbsolute_join_plain {path : Path} {name : String}
    (h : ∀ part ∈ parts, '/' ∉ part.toList) (hparts : Text.parts '/' path.text = parts ++ [name])
    (hpath : path.isAbsolute = false) (hrest : isAbsolute ⟨rest⟩ = false)
    : (join ⟨"/".intercalate (dropIdleEnd parts)⟩ ⟨rest⟩).isAbsolute = false := by
  have hjoin := parts_join_plain h hrest
  cases hfront : dropIdleEnd parts with
  | nil =>
    rw [join, if_neg (by rw [hrest]; simp), if_pos (by rfl)]
    exact (congrArg (fun text => isAbsolute ⟨text⟩) String.empty_append).trans hrest
  | cons first others =>
    rw [hfront] at hjoin
    apply not_isAbsolute_of_parts hjoin
    rintro rfl
    rcases dropIdleEnd_cases parts with ⟨idle, hsplit, _⟩
    rw [hsplit, hfront] at hparts
    rw [isAbsolute_iff.2 ⟨_, hparts, by simp⟩] at hpath
    cases hpath

theorem parts_join_root (h : ∀ part ∈ parts, '/' ∉ part.toList)
    (hrest : isAbsolute ⟨rest⟩ = false)
    : Text.parts '/' (join ⟨"/" ++ "/".intercalate (dropIdleEnd parts)⟩ ⟨rest⟩).text
        = "" :: (dropIdleEnd parts ++ Text.parts '/' rest) := by
  have hslash := notMem_dropIdleEnd h
  rcases dropIdleEnd_cases parts with ⟨_, _, _, hnone | ⟨before, part, hsome, hpart⟩⟩
  . rw [hnone, join, if_neg (by rw [hrest]; simp), if_pos (by decide)]
    exact Text.parts_append '/' "" rest
  . rw [hsome] at hslash ⊢
    have hfront : "/" ++ "/".intercalate (before ++ [part])
        = "/".intercalate ("" :: before ++ [part]) := by
      rw [List.cons_append, String.intercalate_cons_of_ne_nil (by simp), String.empty_append]
    rw [hfront]
    apply parts_join_intercalate _ (ne_empty_of_not_idle hpart) hrest
    rw [List.cons_append, List.forall_mem_cons]
    exact ⟨by decide, hslash⟩

theorem parts_join_dot (h : ∀ part ∈ parts, '/' ∉ part.toList)
    (hrest : isAbsolute ⟨rest⟩ = false)
    : ∃ front,
        Text.parts '/' (join ⟨"." ++ "/".intercalate (dropIdleEnd ("" :: parts))⟩ ⟨rest⟩).text
            = "." :: (front ++ Text.parts '/' rest)
          ∧ leading front = leading parts := by
  have hslash := notMem_dropIdleEnd (List.forall_mem_cons.2 ⟨by decide, h⟩ :
    ∀ part ∈ "" :: parts, '/' ∉ part.toList)
  have hleading := leading_dropIdleEnd ("" :: parts)
  rw [leading_cons_idle (by rfl)] at hleading
  rcases dropIdleEnd_cases ("" :: parts) with ⟨idle, hparts, _, hnone | ⟨before, part, hsome, hpart⟩⟩
  . rw [hnone] at hleading
    refine ⟨[], ?_, hleading⟩
    rw [hnone]
    exact @parts_join_intercalate [] "." rest (by decide) (by decide) hrest
  . rw [hsome] at hslash hleading hparts ⊢
    -- The empty part stays at the start, as the last one is another.
    rcases before with _ | ⟨first, before⟩
    . rw [List.nil_append, List.cons_append, List.cons.injEq] at hparts
      exact absurd hparts.1.symm (ne_empty_of_not_idle hpart)
    . rw [List.cons_append, List.cons_append, List.cons.injEq] at hparts
      obtain rfl := hparts.1
      rw [List.cons_append, leading_cons_idle (by rfl)] at hleading
      refine ⟨before ++ [part], ?_, hleading⟩
      have hfront : "." ++ "/".intercalate ("" :: before ++ [part])
          = "/".intercalate ("." :: before ++ [part]) := by
        rw [List.cons_append, String.intercalate_cons_of_ne_nil (by simp), String.empty_append,
          List.cons_append, String.intercalate_cons_of_ne_nil (by simp), String.append_assoc]
      rw [hfront]
      apply parts_join_intercalate _ (ne_empty_of_not_idle hpart) hrest
      rw [List.cons_append, List.forall_mem_cons] at hslash ⊢
      exact ⟨by decide, hslash.2⟩

end

theorem parent?_eq {path : Path} {anchor : Anchor} {parts : List String} {name : String}
    (h : path.split = (anchor, parts ++ [name])) (hname : isIdle name = false)
    : path.parent? = some ⟨anchor.text ++ "/".intercalate (dropIdleEnd parts)⟩ := by
  rw [parent?, h]
  simp only [dropIdleEnd_concat hname]
  split
  . next heq => simp at heq
  . next heq => rw [List.dropLast_concat]

/--
A path beside a last part that leads somewhere has the parts before it, up to some that lead nowhere.
-/
theorem parts_join_parent {path : Path} {before : List String} {name rest : String}
    (hparts : Text.parts '/' path.text = before ++ [name]) (hname : isIdle name = false)
    (hrest : isAbsolute ⟨rest⟩ = false)
    : ∃ front,
        Text.parts '/' ((path.parent?.getD ⟨"."⟩).join ⟨rest⟩).text = front ++ Text.parts '/' rest
          ∧ leading front = leading before
          ∧ ((path.parent?.getD ⟨"."⟩).join ⟨rest⟩).isAbsolute = path.isAbsolute := by
  have hslash : ∀ part ∈ before, '/' ∉ part.toList := by
    intro part hpart
    exact Text.notMem_of_mem_parts (hparts ▸ List.mem_append_left [name] hpart)
  rcases split_cases path with ⟨parts, hsplit, htext⟩ | ⟨parts, hsplit, htext⟩ | ⟨hsplit, hpath⟩
  . rw [htext, List.cons_eq_append_iff] at hparts
    rcases hparts with ⟨rfl, hsingle⟩ | ⟨parts, rfl, rfl⟩
    . rw [List.cons.injEq] at hsingle
      exact absurd hsingle.1 (ne_empty_of_not_idle hname)
    . rw [List.forall_mem_cons] at hslash
      have hjoin := parts_join_root hslash.2 hrest
      rw [parent?_eq hsplit hname, Option.getD_some]
      refine ⟨"" :: dropIdleEnd parts, hjoin, ?_, ?_⟩
      . rw [leading_cons_idle (by rfl), leading_cons_idle (by rfl), leading_dropIdleEnd]
      . rw [isAbsolute_iff.2 ⟨_, htext, by simp⟩]
        exact isAbsolute_iff.2 ⟨_, hjoin, by simp [Text.parts_ne_nil]⟩
  . rw [htext, List.cons_eq_append_iff] at hparts
    rcases hparts with ⟨rfl, hsingle⟩ | ⟨parts, rfl, rfl⟩
    . rw [List.cons.injEq] at hsingle
      rw [hsingle.1] at hname
      cases hname
    . rw [List.forall_mem_cons] at hslash
      rcases parts_join_dot hslash.2 hrest with ⟨front, hjoin, hleading⟩
      rw [@parent?_eq path .dot ("" :: parts) name hsplit hname, Option.getD_some]
      refine ⟨"." :: front, hjoin, ?_, ?_⟩
      . rw [leading_cons_idle (by rfl), leading_cons_idle (by rfl), hleading]
      . rw [not_isAbsolute_of_parts htext (by decide)]
        exact not_isAbsolute_of_parts hjoin (by decide)
  . have hjoin := parts_join_plain hslash hrest
    rw [hparts] at hsplit
    rw [parent?_eq hsplit hname, Option.getD_some, Anchor.text, String.empty_append]
    refine ⟨dropIdleEnd before, hjoin, leading_dropIdleEnd before, ?_⟩
    rw [hpath]
    exact not_isAbsolute_join_plain hslash hparts hpath hrest

end Path

namespace FileTree

variable {tree : FileTree} {path : Path} {location target : List String}

theorem standing?_dropLast (h : tree.standing? location = some .directory)
    : tree.standing? location.dropLast = some .directory := by
  rcases List.eq_nil_or_concat location with rfl | ⟨front, last, rfl⟩
  . exact h
  . rw [List.concat_eq_append, List.dropLast_concat]
    by_contra hne
    rw [List.concat_eq_append, standing?_append_of_ne hne (by simp)] at h
    cases h

theorem follow_leading (htarget : tree.standing? target = some .directory) (segments : List String)
    : ∀ {location}, tree.standing? location = some .directory →
        (tree.follow (Path.leading segments) location = some target
          ↔ tree.follow segments location = some target) := by
  induction segments with
  | nil => exact fun _ => Iff.rfl
  | cons segment segments ih =>
    intro location hlocation
    rw [follow_cons segment _ hlocation]
    cases hidle : Path.isIdle segment with
    | true =>
      rw [Path.leading_cons_idle hidle, if_pos rfl]
      exact ih hlocation
    | false =>
      have hleading : Path.leading (segment :: segments) = segment :: Path.leading segments :=
        List.filter_cons_of_pos (by simpa using hidle)
      rw [hleading, follow_cons _ _ hlocation, hidle]
      simp only [Bool.false_eq_true, if_false]
      split
      . exact ih (standing?_dropLast hlocation)
      . split
        . by_cases hnext : tree.standing? (location ++ [segment]) = some .directory
          . exact ih hnext
          . constructor <;> intro hfollow <;>
              exact absurd (standing?_of_follow hfollow htarget) hnext
        . exact Iff.rfl

theorem exists_of_locate? (h : tree.locate? path = some location)
    (hlocation : tree.standing? location ≠ some .directory)
    : ∃ before name, Text.parts '/' path.text = before ++ [name] ∧ Path.isIdle name = false
        ∧ tree.follow before (if path.isAbsolute then [] else tree.workingDirectory)
          = some location.dropLast
        ∧ tree.standing? location.dropLast = some .directory := by
  rw [locate?] at h
  split at h
  . rcases List.eq_nil_or_concat (Text.parts '/' path.text) with hnone | ⟨before, name, hparts⟩
    . exact absurd hnone (Text.parts_ne_nil _ _)
    . rw [List.concat_eq_append] at hparts
      rw [hparts, follow_append, Option.bind_eq_some_iff] at h
      rcases h with ⟨directory, hbefore, hname⟩
      refine ⟨before, name, hparts, ?_⟩
      by_cases hdirectory : tree.standing? directory = some .directory
      . rw [follow_cons _ _ hdirectory] at hname
        split at hname
        . cases hname
          exact absurd hdirectory hlocation
        . next hidle =>
          split at hname
          . cases hname
            exact absurd (standing?_dropLast hdirectory) hlocation
          . split at hname
            . cases hname
              rw [List.dropLast_concat]
              exact ⟨by simpa using hidle, hbefore, hdirectory⟩
            . cases hname
      . rw [follow_cons_of_ne _ _ hdirectory] at hname
        cases hname
  . cases h

theorem locate?_join_parent {rest : String} (h : tree.locate? path = some location)
    (hlocation : tree.standing? location ≠ some .directory)
    (hrest : Path.isAbsolute ⟨rest⟩ = false)
    (husable : isUsable ((path.parent?.getD ⟨"."⟩).join ⟨rest⟩) = true)
    : tree.locate? ((path.parent?.getD ⟨"."⟩).join ⟨rest⟩)
        = tree.follow (Text.parts '/' rest) location.dropLast := by
  rcases exists_of_locate? h hlocation with ⟨before, name, hparts, hname, hbefore, hdirectory⟩
  rcases Path.parts_join_parent hparts hname hrest with ⟨front, hfront, hleading, habsolute⟩
  have hstart := standing?_of_follow hbefore hdirectory
  rw [← follow_leading hdirectory _ hstart, ← hleading, follow_leading hdirectory _ hstart]
    at hbefore
  rw [locate?, if_pos husable, hfront, habsolute, follow_append, hbefore, Option.bind_some]

theorem locate?_join_parent_eq {other relative : Path} (h : tree.locate? path = some location)
    (hother : tree.locate? other = some location)
    (hlocation : tree.standing? location ≠ some .directory)
    (husable : isUsable ((path.parent?.getD ⟨"."⟩).join relative) = true)
    (husable' : isUsable ((other.parent?.getD ⟨"."⟩).join relative) = true)
    : tree.locate? ((path.parent?.getD ⟨"."⟩).join relative)
        = tree.locate? ((other.parent?.getD ⟨"."⟩).join relative) := by
  cases hrelative : relative.isAbsolute with
  | true => rw [Path.join, Path.join, if_pos hrelative, if_pos hrelative]
  | false =>
    rw [locate?_join_parent h hlocation hrelative husable,
      locate?_join_parent hother hlocation hrelative husable']

theorem locate?_child {name : String} (h : tree.locate? path = some location)
    (hname : '/' ∉ name.toList) (husable : isUsable (path.child name) = true)
    : tree.locate? (path.child name) = tree.follow [name] location := by
  rw [locate?] at h
  split at h
  . next hpath =>
    have hempty : path.text.isEmpty = false := by
      rw [isUsable, Bool.and_eq_true, Bool.not_eq_true'] at hpath
      exact hpath.1
    have hrelative := Path.not_isAbsolute_of_notMem hname
    rw [locate?, if_pos husable, Path.child, Path.join, if_neg (by rw [hrelative]; simp), hempty,
      Bool.false_or]
    split
    . next hend =>
      rcases Text.exists_of_endsWith hend with ⟨front, hfront⟩
      have hparts := Text.parts_concat '/' front
      have hchild := Text.parts_append '/' front name
      rw [← hfront] at hparts
      rw [← hfront, Text.parts_of_notMem hname] at hchild
      rw [hparts, follow_append, Option.bind_eq_some_iff] at h
      rcases h with ⟨between, hbetween, hlast⟩
      obtain rfl := (follow_empty.1 hlast).1
      have habsolute := Path.isAbsolute_append hempty name
      rw [habsolute, hchild, follow_append]
      exact congrArg (Option.bind · (tree.follow [name])) hbetween
    . have hparts := Text.parts_append '/' path.text name
      have habsolute := Path.isAbsolute_append hempty ("/" ++ name)
      rw [Text.parts_of_notMem hname] at hparts
      rw [← String.append_assoc] at habsolute
      change tree.follow (Text.parts '/' (path.text ++ String.singleton '/' ++ name)) _ = _
      rw [habsolute, hparts, follow_append]
      exact congrArg (Option.bind · (tree.follow [name])) h
  . cases h

end FileTree

end ArtifactAudit
