import ArtifactAudit.Proofs.FileTree.Beside

/-!
This module contains the trees that can be seen while a directory is made after the ones that lead to
it, and that what is in the directory already shows in none of them in another way.
-/

namespace ArtifactAudit

namespace Path

theorem leading_cons {part : String} (h : isIdle part = false) (parts : List String)
    : leading (part :: parts) = part :: leading parts :=
  List.filter_cons_of_pos (by simpa using h)

theorem leading_eq_nil {parts : List String} (h : ∀ part ∈ parts, part = "")
    : leading parts = [] := by
  rw [leading, List.filter_eq_nil_iff]
  intro part hpart
  rw [h part hpart]
  decide

theorem segments_eq_leading (path : Path) : path.segments.2 = leading (Text.parts '/' path.text) := by
  have hsegments : path.segments.2 = leading path.split.2 := rfl
  rw [hsegments]
  rcases split_cases path with ⟨parts, hsplit, htext⟩ | ⟨parts, hsplit, htext⟩ | ⟨hsplit, _⟩
  . rw [hsplit, htext, leading_cons_idle (by rfl)]
  . rw [hsplit, htext, leading_cons_idle (by rfl), leading_cons_idle (by rfl)]
  . rw [hsplit]

theorem leading_parts_intercalate {parts : List String} (h : ∀ part ∈ parts, '/' ∉ part.toList)
    : leading (Text.parts '/' ("/".intercalate parts)) = leading parts := by
  cases parts with
  | nil => decide
  | cons part parts => rw [Text.parts_intercalate (by simp) h]

theorem isPrefix_dropIdleEnd (parts : List String) : dropIdleEnd parts <+: parts := by
  rcases dropIdleEnd_cases parts with ⟨idle, hparts, _⟩
  exact ⟨idle, hparts.symm⟩

theorem leading_parts_dot {parts : List String} (h : ∀ part ∈ parts, '/' ∉ part.toList)
    (hfirst : ∀ first ∈ parts.head?, first = "")
    : leading (Text.parts '/' ("." ++ "/".intercalate (dropIdleEnd parts))) = leading parts
        ∧ isAbsolute ⟨"." ++ "/".intercalate (dropIdleEnd parts)⟩ = false := by
  have hslash := notMem_dropIdleEnd h
  have hleading := leading_dropIdleEnd parts
  rcases dropIdleEnd_cases parts with ⟨idle, hparts, _, hnone | ⟨before, part, hsome, hpart⟩⟩
  . rw [hnone] at hleading ⊢
    exact ⟨hleading, by decide⟩
  . rw [hsome] at hslash hleading hparts ⊢
    -- The first part is not the last one, as that one leads somewhere.
    rcases before with _ | ⟨first, before⟩
    . exact absurd (hfirst part (by rw [hparts]; rfl)) (ne_empty_of_not_idle hpart)
    . obtain rfl := hfirst first (by rw [hparts]; rfl)
      have htext : "." ++ "/".intercalate ("" :: before ++ [part])
          = "." ++ String.singleton '/' ++ "/".intercalate (before ++ [part]) := by
        rw [List.cons_append, String.intercalate_cons_of_ne_nil (by simp), String.empty_append,
          ← String.append_assoc]
        rfl
      have hsplit := Text.parts_append '/' "." ("/".intercalate (before ++ [part]))
      rw [← htext] at hsplit
      rw [List.cons_append, List.forall_mem_cons] at hslash
      refine ⟨?_, not_isAbsolute_of_parts hsplit (by decide)⟩
      rw [hsplit, leading_append, leading_parts_intercalate hslash.2, ← hleading]
      rfl

theorem parent?_cases {path parent : Path} (h : path.parent? = some parent)
    : (path.split.1 = .dot ∧ parent = ⟨""⟩)
        ∨ ∃ before rest, path.split.2 = before ++ rest ∧ rest ≠ []
          ∧ parent = ⟨path.split.1.text ++ "/".intercalate (dropIdleEnd before)⟩ := by
  rw [parent?] at h
  rcases hsplit : path.split with ⟨anchor, parts⟩
  rw [hsplit] at h
  rcases dropIdleEnd_cases parts with ⟨idle, hparts, _, hnone | ⟨before, part, hsome, _⟩⟩
  . simp only [hnone] at h
    split at h
    . next hdot =>
      cases h
      exact .inl ⟨hdot, rfl⟩
    . cases h
  . refine .inr ⟨before, part :: idle, ?_, by simp, ?_⟩
    . rw [hparts, hsome, List.append_assoc, List.singleton_append]
    . simp only [hsome] at h
      split at h
      . next heq => simp at heq
      . rw [List.dropLast_concat] at h
        exact (Option.some.inj h).symm

section

variable {path : Path} {before rest : List String}

theorem segments_before_root (hparts : Text.parts '/' path.text = "" :: (before ++ rest))
    (hrest : rest ≠ [])
    : (segments ⟨"/" ++ "/".intercalate (dropIdleEnd before)⟩).2 <+: path.segments.2
        ∧ isAbsolute ⟨"/" ++ "/".intercalate (dropIdleEnd before)⟩ = path.isAbsolute := by
  have hslash : ∀ part ∈ before, '/' ∉ part.toList := fun part hpart =>
    Text.notMem_of_mem_parts
      (hparts ▸ List.mem_cons_of_mem "" (List.mem_append_left rest hpart))
  have hfront : Text.parts '/' ("/" ++ "/".intercalate (dropIdleEnd before))
      = "" :: Text.parts '/' ("/".intercalate (dropIdleEnd before)) :=
    Text.parts_append '/' "" ("/".intercalate (dropIdleEnd before))
  constructor
  . rw [segments_eq_leading, segments_eq_leading, hfront, hparts, leading_cons_idle (by rfl),
      leading_cons_idle (by rfl), leading_parts_intercalate (notMem_dropIdleEnd hslash),
      leading_dropIdleEnd, leading_append]
    exact List.prefix_append _ _
  . rw [isAbsolute_iff.2 ⟨_, hparts, by simp [hrest]⟩]
    exact isAbsolute_iff.2 ⟨_, hfront, Text.parts_ne_nil _ _⟩

theorem segments_before_dot {parts : List String} (hpath : Text.parts '/' path.text = "." :: parts)
    (hparts : "" :: parts = before ++ rest)
    : (segments ⟨"." ++ "/".intercalate (dropIdleEnd before)⟩).2 <+: path.segments.2
        ∧ isAbsolute ⟨"." ++ "/".intercalate (dropIdleEnd before)⟩ = path.isAbsolute := by
  have hslash : ∀ part ∈ before, '/' ∉ part.toList := by
    intro part hpart
    have hmem : part ∈ "" :: parts := hparts ▸ List.mem_append_left rest hpart
    rcases List.mem_cons.1 hmem with rfl | hmem
    . decide
    . exact Text.notMem_of_mem_parts (hpath ▸ List.mem_cons_of_mem "." hmem)
  have hfirst : ∀ first ∈ before.head?, first = "" := by
    cases before with
    | nil => simp
    | cons first before => simpa using (List.cons.inj hparts).1.symm
  rcases leading_parts_dot hslash hfirst with ⟨hleading, habsolute⟩
  have hempty : isIdle "" = true := rfl
  constructor
  . rw [segments_eq_leading, segments_eq_leading, hleading, hpath, leading_cons_idle (by rfl),
      ← leading_cons_idle hempty parts, hparts, leading_append]
    exact List.prefix_append _ _
  . rw [habsolute, not_isAbsolute_of_parts hpath (by decide)]

theorem segments_before (hparts : Text.parts '/' path.text = before ++ rest) (hrest : rest ≠ [])
    (hpath : path.isAbsolute = false)
    : (segments ⟨"/".intercalate (dropIdleEnd before)⟩).2 <+: path.segments.2
        ∧ isAbsolute ⟨"/".intercalate (dropIdleEnd before)⟩ = path.isAbsolute := by
  have hslash := notMem_dropIdleEnd fun part hpart =>
    Text.notMem_of_mem_parts (hparts ▸ List.mem_append_left rest hpart)
  constructor
  . rw [segments_eq_leading, segments_eq_leading, leading_parts_intercalate hslash,
      leading_dropIdleEnd, hparts, leading_append]
    exact List.prefix_append _ _
  . rw [hpath]
    cases hfront : dropIdleEnd before with
    | nil => decide
    | cons first others =>
      rw [hfront] at hslash
      apply not_isAbsolute_of_parts (Text.parts_intercalate (by simp) hslash)
      rintro rfl
      rcases isPrefix_dropIdleEnd before with ⟨idle, hidle⟩
      rw [← hidle, hfront] at hparts
      rw [isAbsolute_iff.2 ⟨_, hparts, by simp [hrest]⟩] at hpath
      cases hpath

end

theorem segments_parent? {path parent : Path} (h : path.parent? = some parent)
    : parent.segments.2 <+: path.segments.2 ∧ parent.isAbsolute = path.isAbsolute := by
  have hparent := parent?_cases h
  rcases split_cases path with ⟨parts, hsplit, htext⟩ | ⟨parts, hsplit, htext⟩ | ⟨hsplit, hpath⟩
  . rw [hsplit] at hparent
    rcases hparent with ⟨hdot, _⟩ | ⟨before, rest, rfl, hrest, rfl⟩
    . cases hdot
    . exact segments_before_root htext hrest
  . rw [hsplit] at hparent
    rcases hparent with ⟨_, rfl⟩ | ⟨before, rest, hparts, _, rfl⟩
    . rw [not_isAbsolute_of_parts htext (by decide)]
      exact ⟨List.nil_prefix, by decide⟩
    . exact segments_before_dot htext hparts
  . rw [hsplit] at hparent
    rcases hparent with ⟨hdot, _⟩ | ⟨before, rest, hparts, hrest, rfl⟩
    . cases hdot
    . rw [Anchor.text, String.empty_append]
      exact segments_before hparts hrest hpath

end Path

namespace FileTree

variable {tree : FileTree} {path : Path} {location target : List String}

def start (tree : FileTree) (path : Path) : List String :=
  if path.isAbsolute then [] else tree.workingDirectory

theorem follow_eq_leading {segments : List String} (hup : ".." ∉ segments)
    : ∀ {location}, tree.follow segments location = some target →
        target = location ++ Path.leading segments := by
  induction segments with
  | nil =>
    intro location h
    cases h
    exact (List.append_nil _).symm
  | cons segment segments ih =>
    rw [List.mem_cons, not_or] at hup
    intro location h
    by_cases hlocation : tree.standing? location = some .directory
    . rw [follow_cons _ _ hlocation, if_neg (Ne.symm hup.1)] at h
      split at h
      . next hidle => rw [Path.leading_cons_idle hidle, ih hup.2 h]
      . next hidle =>
        split at h
        . rw [ih hup.2 h, Path.leading_cons (by simpa using hidle)]
          exact (List.append_cons ..).symm
        . cases h
    . rw [follow_cons_of_ne _ _ hlocation] at h
      cases h

theorem standing?_of_append {rest : List String}
    (h : (tree.standing? (location ++ rest)).isSome) (hrest : rest ≠ [])
    : tree.standing? location = some .directory := by
  by_contra hne
  rw [standing?_append_of_ne hne hrest] at h
  cases h

theorem follow_of_leading {segments : List String} (hup : ".." ∉ segments)
    : ∀ {location}, tree.standing? (location ++ Path.leading segments) = some .directory →
        tree.follow segments location = some (location ++ Path.leading segments) := by
  induction segments with
  | nil =>
    intro location _
    exact congrArg some (List.append_nil _).symm
  | cons segment segments ih =>
    rw [List.mem_cons, not_or] at hup
    intro location h
    cases hidle : Path.isIdle segment with
    | true =>
      rw [Path.leading_cons_idle hidle] at h ⊢
      have hlocation : tree.standing? location = some .directory := by
        by_cases hrest : Path.leading segments = []
        . rwa [hrest, List.append_nil] at h
        . exact standing?_of_append (by rw [h]; rfl) hrest
      rw [follow_cons _ _ hlocation, if_pos hidle]
      exact ih hup.2 h
    | false =>
      rw [Path.leading_cons hidle] at h ⊢
      have hlocation := standing?_of_append (by rw [h]; rfl) (List.cons_ne_nil _ _)
      rw [List.append_cons] at h ⊢
      have hnext : (tree.standing? (location ++ [segment])).isSome := by
        by_cases hrest : Path.leading segments = []
        . rw [hrest, List.append_nil] at h
          rw [h]
          rfl
        . rw [standing?_of_append (by rw [h]; rfl) hrest]
          rfl
      rw [follow_cons _ _ hlocation, if_neg (by simp [hidle]), if_neg (Ne.symm hup.1), if_pos hnext]
      exact ih hup.2 h

theorem parts_append_slashes {slashes : List Char} (h : ∀ c ∈ slashes, c = '/')
    : ∀ s : String, ∃ idle,
        Text.parts '/' (s ++ String.ofList slashes) = Text.parts '/' s ++ idle
          ∧ ∀ part ∈ idle, part = "" := by
  induction slashes with
  | nil => exact fun s => ⟨[], by simp, nofun⟩
  | cons c slashes ih =>
    rw [List.forall_mem_cons] at h
    obtain rfl := h.1
    intro s
    rcases ih h.2 (s ++ "/") with ⟨idle, hparts, hidle⟩
    refine ⟨"" :: idle, ?_, List.forall_mem_cons.2 ⟨rfl, hidle⟩⟩
    have hcons : String.ofList ('/' :: slashes) = "/" ++ String.ofList slashes := by
      simp
    rw [hcons, ← String.append_assoc, hparts, List.append_cons]
    exact congrArg (· ++ idle) (Text.parts_concat '/' s)

inductive Cut (path : Path) : String × String → Prop where
  | slashes (slash : ∀ c ∈ path.text.toList, c = '/') : Cut path (".", "")
  | single {name : String} {slashes : List Char} (text_eq : path.text = name ++ String.ofList slashes)
    (slash : ∀ c ∈ slashes, c = '/') (noSlash : '/' ∉ name.toList) (ne : name ≠ "")
    : Cut path (".", name)
  | behind {front name : String} {slashes : List Char}
    (text_eq : path.text = front ++ String.singleton '/' ++ name ++ String.ofList slashes)
    (slash : ∀ c ∈ slashes, c = '/') (noSlash : '/' ∉ name.toList) (ne : name ≠ "")
    : Cut path (front, name)

theorem cut_spec (path : Path) : Cut path (cut path) := by
  have hslash : ∀ c ∈ (path.text.toList.reverse.takeWhile (· = '/')).reverse, c = '/' := by
    intro c hc
    simpa using List.mem_takeWhile_imp (List.mem_reverse.1 hc)
  have htext : (path.text.toList.reverse.dropWhile (· = '/')).reverse
      ++ (path.text.toList.reverse.takeWhile (· = '/')).reverse = path.text.toList := by
    rw [← List.reverse_append, List.takeWhile_append_dropWhile, List.reverse_reverse]
  have hlast : (path.text.toList.reverse.dropWhile (· = '/')).reverse.getLast? ≠ some '/' := by
    intro hlast
    have hfirst := List.head?_dropWhile_not (· = '/') path.text.toList.reverse
    rw [List.getLast?_reverse] at hlast
    rw [hlast] at hfirst
    cases hfirst
  rw [cut]
  revert hslash htext hlast
  generalize (path.text.toList.reverse.takeWhile (· = '/')).reverse = slashes
  generalize (path.text.toList.reverse.dropWhile (· = '/')).reverse = cs
  intro hslash htext hlast
  have htext : path.text = String.ofList cs ++ String.ofList slashes := by
    rw [← String.ofList_append, htext, String.ofList_toList]
  rcases Path.exists_lastSlash cs with ⟨before, name, rfl, rfl | ⟨rest, rfl⟩, hname⟩
  . have hname : '/' ∉ (String.ofList name).toList := by rwa [String.toList_ofList]
    rw [List.nil_append] at htext ⊢
    rw [Text.cutLast?_of_notMem hname, Option.getD_none]
    by_cases hempty : name = []
    . subst hempty
      apply Cut.slashes
      rw [htext, String.toList_append, String.toList_ofList, String.toList_ofList]
      exact hslash
    . exact .single htext hslash hname (by simpa using hempty)
  . have hname : '/' ∉ (String.ofList name).toList := by rwa [String.toList_ofList]
    have hsplit : String.ofList (rest ++ ['/'] ++ name)
        = String.ofList rest ++ String.singleton '/' ++ String.ofList name := by
      rw [String.ofList_append, String.ofList_append]
      rfl
    rw [hsplit] at htext ⊢
    rw [Text.cutLast?_append _ hname, Option.getD_some]
    refine .behind htext hslash hname ?_
    intro hempty
    rw [String.ofList_eq_empty_iff.1 hempty, List.append_nil, List.getLast?_concat] at hlast
    exact hlast rfl

theorem locate?_dot_slash
    : tree.locate? ⟨"." ++ "/"⟩ = some location
        ↔
      tree.follow [] tree.workingDirectory = some location
        ∧ tree.standing? location = some .directory := by
  have hparts : Text.parts '/' "." = ["."] := by decide
  have husable : isUsable ⟨"." ++ "/"⟩ = true := by decide
  rw [locate?_slash, hparts, if_neg (by decide)]
  by_cases hdirectory : tree.standing? tree.workingDirectory = some .directory
  . rw [follow_cons _ _ hdirectory, if_pos (by decide)]
    exact ⟨And.right, fun h => ⟨husable, h⟩⟩
  . rw [follow_cons_of_ne _ _ hdirectory, follow_nil]
    constructor
    . rintro ⟨_, hnone, _⟩
      cases hnone
    . rintro ⟨heq, hlocation⟩
      cases heq
      exact absurd hlocation hdirectory

theorem Cut.exists_parts {front name : String} (h : Cut path (front, name)) (hname : name ≠ "")
    (husable : isUsable path = true)
    : ∃ before idle, Text.parts '/' path.text = before ++ name :: idle ∧ (∀ part ∈ idle, part = "")
        ∧ ∀ tree location, locate? tree ⟨front ++ "/"⟩ = some location
          ↔ tree.follow before (tree.start path) = some location
            ∧ tree.standing? location = some .directory := by
  cases h with
  | slashes => exact absurd rfl hname
  | @single _ slashes htext hslash hnoSlash =>
    rcases parts_append_slashes hslash name with ⟨idle, hparts, hidle⟩
    rw [← htext, Text.parts_of_notMem hnoSlash] at hparts
    refine ⟨[], idle, hparts, hidle, ?_⟩
    intro tree location
    have hstart : tree.start path = tree.workingDirectory := by
      rw [start, Path.not_isAbsolute_of_parts hparts hname, if_neg Bool.false_ne_true]
    rw [hstart]
    exact locate?_dot_slash
  | @behind _ _ slashes htext hslash hnoSlash _ =>
    rcases parts_append_slashes hslash (front ++ String.singleton '/' ++ name) with
      ⟨idle, hparts, hidle⟩
    rw [← htext, Text.parts_append, Text.parts_of_notMem hnoSlash, List.append_assoc,
      List.singleton_append] at hparts
    refine ⟨Text.parts '/' front, idle, hparts, hidle, ?_⟩
    intro tree location
    have hempty : (front ++ "/").isEmpty = false := by
      rw [← Bool.not_eq_true, String.isEmpty_iff]
      simp
    have habsolute : path.isAbsolute = Path.isAbsolute ⟨front ++ "/"⟩ := by
      have happend := Path.isAbsolute_append hempty (name ++ String.ofList slashes)
      rw [← String.append_assoc] at happend
      change Path.isAbsolute ⟨front ++ String.singleton '/' ++ _ ++ _⟩ = _ at happend
      rwa [← htext] at happend
    have hfront : isUsable ⟨front ++ "/"⟩ = true := by
      have hsize := (isUsable_iff.1 husable).2
      rw [htext, String.utf8ByteSize_append, String.utf8ByteSize_append] at hsize
      change (front ++ "/").utf8ByteSize + _ + _ < _ at hsize
      exact isUsable_iff.2 ⟨by simp, by dsimp only; omega⟩
    rw [locate?_slash, start, habsolute]
    exact ⟨And.right, fun h => ⟨hfront, h⟩⟩

theorem inside?_front (hne : path.text ≠ "")
    : ∃ idle, (∀ part ∈ idle, part = "") ∧ ∀ tree : FileTree,
        tree.inside? path.front
          = tree.follow (Text.parts '/' path.text ++ idle) (tree.start path) := by
  have hempty : path.text.isEmpty = false := by
    rw [← Bool.not_eq_true, String.isEmpty_iff]
    exact hne
  rw [Path.front, hempty, Bool.false_or]
  split
  . refine ⟨[], by simp, ?_⟩
    intro tree
    rw [List.append_nil]
    rfl
  . refine ⟨[""], by simp, ?_⟩
    intro tree
    change tree.follow (Text.parts '/' (path.text ++ String.singleton '/'))
      (if Path.isAbsolute ⟨path.text ++ String.singleton '/'⟩ then [] else _) = _
    rw [Text.parts_concat, Path.isAbsolute_append hempty]
    rfl

theorem found?_eq_directory : tree.found? path = some .directory ↔ tree.isDirectory path = true := by
  rw [found?, isDirectory]
  cases tree.find? path with
  | none => simp
  | some node => cases node <;> simp [FileNode.standing, FileNode.isDirectory]

theorem isSome_inside?_front (h : tree.isDirectory path = true)
    : (tree.inside? path.front).isSome := by
  rw [← found?_eq_directory, found?, find?_standing, Option.bind_eq_some_iff] at h
  rcases h with ⟨target, hlocate, hdirectory⟩
  rw [locate?] at hlocate
  split at hlocate
  . next husable =>
    rcases inside?_front (isUsable_iff.1 husable).1 with ⟨idle, hidle, hinside⟩
    have hlast : tree.follow idle target = some target := by
      rw [← follow_leading hdirectory idle hdirectory, Path.leading_eq_nil hidle, follow_nil]
    rw [hinside, follow_append, start, hlocate, Option.bind_some, hlast]
    rfl
  . cases hlocate

theorem parent?_eq_none (h : ∀ c ∈ path.text.toList, c = '/') : path.parent? = none := by
  rcases parts_append_slashes h "" with ⟨idle, hparts, hidle⟩
  have hnone : Text.parts '/' "" = [""] := by decide
  rw [String.ofList_toList, String.empty_append, hnone, List.singleton_append] at hparts
  have hdrop : ∀ {parts : List String}, (∀ part ∈ parts, part = "") → Path.dropIdleEnd parts = [] := by
    intro parts hempty
    rw [Path.dropIdleEnd, List.dropWhile_eq_nil_iff.2, List.reverse_nil]
    intro part hpart
    rw [hempty part (List.mem_reverse.1 hpart)]
    rfl
  rw [Path.parent?]
  rcases Path.split_cases path with ⟨parts, hsplit, htext⟩ | ⟨parts, hsplit, htext⟩ | ⟨hsplit, _⟩
  . rw [htext, List.cons.injEq] at hparts
    simp only [hsplit, hparts.2, hdrop hidle]
    rfl
  . rw [htext, List.cons.injEq] at hparts
    exact absurd hparts.1 (by decide)
  . simp only [hsplit, hparts, hdrop (List.forall_mem_cons.2 ⟨rfl, hidle⟩)]
    rfl

theorem leads_of_isName {name : String} (h : isName name = true)
    : Path.isIdle name = false ∧ name ≠ ".." := by
  simp only [isName, Bool.and_eq_true, Bool.not_eq_true', decide_eq_true_eq] at h
  exact ⟨h.1.1.1, h.1.1.2⟩

theorem exists_cut (husable : isUsable path = true)
    : ∃ front name, Cut path (front, name)
        ∧ ∀ tree : FileTree, tree.place? path = (tree.locate? ⟨front ++ "/"⟩).map (·, name) := by
  have hspec := cut_spec path
  rcases hcut : cut path with ⟨front, name⟩
  rw [hcut] at hspec
  refine ⟨front, name, hspec, ?_⟩
  intro tree
  rw [place?_eq_locate?, if_pos husable, hcut]

theorem makeDirectory_of_inside? (hne : path.text ≠ "") (h : (tree.inside? path.front).isSome)
    : tree.makeDirectory path = .refused
        ∨ (tree.makeDirectory path = .unplaced ∧ path.parent? = none) := by
  rw [makeDirectory]
  split
  . next hsize =>
    have husable : isUsable path = true := isUsable_iff.2 ⟨hne, by simpa using hsize⟩
    rcases exists_cut husable with ⟨front, name, hcut, hplace⟩
    rw [hplace]
    by_cases hname : name = ""
    . subst hname
      have hparent : path.parent? = none := by
        cases hcut with
        | slashes hslash => exact parent?_eq_none hslash
        | single _ _ _ hne => exact absurd rfl hne
        | behind _ _ _ hne => exact absurd rfl hne
      cases hlocate : tree.locate? ⟨front ++ "/"⟩ with
      | none => exact .inr ⟨rfl, hparent⟩
      | some location => exact .inl rfl
    . rcases hcut.exists_parts hname husable with ⟨before, idle, hparts, _, hlocate⟩
      rcases inside?_front hne with ⟨more, _, hinside⟩
      rcases Option.isSome_iff_exists.1 h with ⟨target, htarget⟩
      rw [hinside, hparts, List.append_assoc, follow_append, Option.bind_eq_some_iff] at htarget
      rcases htarget with ⟨location, hbefore, hrest⟩
      have hdirectory : tree.standing? location = some .directory := by
        by_contra hnot
        rw [List.cons_append, follow_cons_of_ne _ _ hnot] at hrest
        cases hrest
      rw [(hlocate tree location).2 ⟨hbefore, hdirectory⟩, Option.map_some]
      dsimp only
      rw [if_neg]
      . exact .inl rfl
      . intro hfree
        rw [Bool.and_eq_true, Option.isNone_iff_eq_none] at hfree
        rcases leads_of_isName hfree.1 with ⟨hidle, hup⟩
        rw [List.cons_append, follow_cons _ _ hdirectory, if_neg (by simp [hidle]), if_neg hup,
          standing?, FileNode.standing?, hfree.2] at hrest
        cases hrest
  . exact .inl rfl

theorem makeDirectory_standing? {after : FileTree} (hup : ".." ∉ path.segments.2)
    (h : tree.makeDirectory path = .made after)
    : after.standing?
        = Function.update tree.standing? (tree.start path ++ path.segments.2) (some .directory) := by
  rcases makeDirectory_eq_made h with ⟨location, name, hplace, hname, _, hmade⟩
  rcases leads_of_isName hname with ⟨hidle, _⟩
  have husable := isUsable_of_place? hplace
  rcases exists_cut husable with ⟨front, last, hcut, hplaced⟩
  rw [hplaced] at hplace
  rcases Option.map_eq_some_iff.1 hplace with ⟨_, hlocate, heq⟩
  cases heq
  rcases hcut.exists_parts (Path.ne_empty_of_not_idle hidle) husable with
    ⟨before, idle, hparts, hempty, hbetween⟩
  have hsegments : path.segments.2 = Path.leading before ++ [name] := by
    rw [Path.segments_eq_leading, hparts, Path.leading_append, Path.leading_cons hidle,
      Path.leading_eq_nil hempty]
  have hlocation : location = tree.start path ++ Path.leading before := by
    apply follow_eq_leading _ ((hbetween tree location).1 hlocate).1
    intro hmem
    apply hup
    rw [hsegments]
    exact List.mem_append_left _ (List.mem_filter.2 ⟨hmem, by decide⟩)
  rw [hmade.standing_eq, hsegments, ← List.append_assoc, ← hlocation]

/--
The trees that can be seen while a directory is made after the ones that lead to it, until this ends
or fails or is interrupted.
-/
inductive Passes : Path → FileTree → FileTree → Prop where
  | start {path : Path} {tree : FileTree} : Passes path tree tree
  | made {path : Path} {tree after : FileTree} (ne : path.text ≠ "")
    (make : tree.makeDirectory path = .made after)
    : Passes path tree after
  | above {path parent : Path} {tree between : FileTree} (ne : path.text ≠ "")
    (unplaced : tree.makeDirectory path = .unplaced) (parent_eq : path.parent? = some parent)
    (passes : Passes parent tree between)
    : Passes path tree between
  | last {path parent : Path} {tree between after : FileTree} (ne : path.text ≠ "")
    (unplaced : tree.makeDirectory path = .unplaced) (parent_eq : path.parent? = some parent)
    (passes : Passes parent tree between) (make : between.makeDirectory path = .made after)
    : Passes path tree after

theorem passes_makeDirectoriesWithin (steps : Nat)
    : ∀ (tree : FileTree) (path : Path),
        Passes path tree (tree.makeDirectoriesWithin steps path).1 := by
  induction steps with
  | zero => exact fun _ _ => .start
  | succ steps ih =>
    intro tree path
    rw [makeDirectoriesWithin]
    split
    . exact .start
    . next hempty =>
      have hne : path.text ≠ "" := by rwa [String.isEmpty_iff] at hempty
      split
      . next after hmake => exact .made hne hmake
      . exact .start
      . next hunplaced =>
        split
        . exact .start
        . next parent hparent =>
          have hpasses := ih tree parent
          split
          . next between hbetween =>
            rw [hbetween] at hpasses
            exact .above hne hunplaced hparent hpasses
          . next between hbetween =>
            rw [hbetween] at hpasses
            split
            . next after hmake => exact .last hne hunplaced hparent hpasses hmake
            . exact .above hne hunplaced hparent hpasses

theorem Passes.grows {before after : FileTree} (h : Passes path before after)
    : Grows before after := by
  induction h with
  | start => exact .refl _
  | made _ make => exact makeDirectory_grows make
  | above _ _ _ _ ih => exact ih
  | last _ _ _ _ make ih => exact ih.trans (makeDirectory_grows make)

theorem makeDirectories_grows (tree : FileTree) (path : Path)
    : Grows tree (tree.makeDirectories path).1 :=
  (passes_makeDirectoriesWithin _ tree path).grows

theorem Passes.eq_of_inside? {before after : FileTree} (h : Passes path before after)
    (hinside : (before.inside? path.front).isSome)
    : after = before := by
  cases h with
  | start => rfl
  | made ne make =>
    rcases makeDirectory_of_inside? ne hinside with hrefused | ⟨hunplaced, _⟩
    . rw [make] at hrefused
      cases hrefused
    . rw [make] at hunplaced
      cases hunplaced
  | above ne unplaced parent_eq _ =>
    rcases makeDirectory_of_inside? ne hinside with hrefused | ⟨_, hparent⟩
    . rw [unplaced] at hrefused
      cases hrefused
    . rw [parent_eq] at hparent
      cases hparent
  | last ne unplaced parent_eq _ _ =>
    rcases makeDirectory_of_inside? ne hinside with hrefused | ⟨_, hparent⟩
    . rw [unplaced] at hrefused
      cases hrefused
    . rw [parent_eq] at hparent
      cases hparent

theorem directory_of_makeDirectory {after : FileTree} (hup : ".." ∉ path.segments.2)
    (h : tree.makeDirectory path = .made after)
    (hlocation : after.standing? location = some .directory)
    : tree.standing? location = some .directory ∨ location <+: tree.start path ++ path.segments.2 := by
  rw [makeDirectory_standing? hup h, Function.update_apply] at hlocation
  split at hlocation
  . next heq =>
    rw [heq]
    exact .inr (List.prefix_refl _)
  . exact .inl hlocation

theorem isPrefix_start_parent? {parent : Path} (h : path.parent? = some parent)
    : tree.start parent ++ parent.segments.2 <+: tree.start path ++ path.segments.2 := by
  rcases Path.segments_parent? h with ⟨hsegments, habsolute⟩
  rw [start, start, habsolute]
  exact (List.prefix_append_right_inj _).2 hsegments

theorem Passes.directory {before after : FileTree} (h : Passes path before after)
    : ".." ∉ path.segments.2 → ∀ {location}, after.standing? location = some .directory →
        before.standing? location = some .directory
          ∨ location <+: before.start path ++ path.segments.2 := by
  induction h with
  | start => exact fun _ _ => .inl
  | made _ make => exact fun hup _ => directory_of_makeDirectory hup make
  | above _ _ parent_eq _ ih =>
    intro hup location hlocation
    have hup' := fun hmem => hup ((Path.segments_parent? parent_eq).1.subset hmem)
    exact (ih hup' hlocation).imp_right (·.trans (isPrefix_start_parent? parent_eq))
  | last _ _ parent_eq passes make ih =>
    intro hup location hlocation
    have hup' := fun hmem => hup ((Path.segments_parent? parent_eq).1.subset hmem)
    rcases directory_of_makeDirectory hup make hlocation with hbetween | hprefix
    . exact (ih hup' hbetween).imp_right (·.trans (isPrefix_start_parent? parent_eq))
    . rw [FileTree.start, passes.grows.workingDirectory_eq] at hprefix
      exact .inr hprefix

theorem inside?_front_eq_some (hne : path.text ≠ "") (hup : ".." ∉ path.segments.2)
    : tree.inside? path.front = some location
        ↔
      location = tree.start path ++ path.segments.2 ∧ tree.standing? location = some .directory := by
  rcases inside?_front hne with ⟨idle, hidle, hinside⟩
  have hsegments : Path.leading (Text.parts '/' path.text ++ idle) = path.segments.2 := by
    rw [Path.leading_append, Path.leading_eq_nil hidle, List.append_nil, Path.segments_eq_leading]
  have hup' : ".." ∉ Text.parts '/' path.text ++ idle := by
    intro hmem
    exact hup (hsegments ▸ List.mem_filter.2 ⟨hmem, by decide⟩)
  constructor
  . intro h
    have hdirectory := standing?_of_inside?
      (@Path.splits_child path "a" 'a' (by decide) (by decide) (by decide)) h
    rw [hinside] at h
    exact ⟨hsegments ▸ follow_eq_leading hup' h, hdirectory⟩
  . rintro ⟨rfl, hdirectory⟩
    rw [← hsegments] at hdirectory ⊢
    rw [hinside, follow_of_leading hup' hdirectory]

theorem Passes.found?_eq {directory : Path} {before after : FileTree}
    (h : Passes directory before after)
    (hplain : (before.inside? directory.front).isSome ∨ ".." ∉ directory.segments.2)
    {name : String} (hsplits : path.Splits directory.front name)
    : after.found? path = before.found? path := by
  by_cases hthere : (before.inside? directory.front).isSome
  . rw [h.eq_of_inside? hthere]
  . have hup := hplain.resolve_left hthere
    rw [Option.not_isSome_iff_eq_none] at hthere
    by_cases hne : directory.text = ""
    . cases h with
      | start => rfl
      | made ne | above ne | last ne => exact absurd hne ne
    . rw [FileTree.found?_eq hsplits, FileTree.found?_eq hsplits, hthere, Option.bind_none]
      split
      . rw [Option.bind_eq_none_iff]
        intro location hlocation
        obtain ⟨rfl, _⟩ := (inside?_front_eq_some hne hup).1 hlocation
        have hstart : after.start directory = before.start directory := by
          rw [FileTree.start, h.grows.workingDirectory_eq]
          rfl
        have hbefore : before.standing? (before.start directory ++ directory.segments.2)
            ≠ some .directory := by
          intro hdirectory
          rw [(inside?_front_eq_some hne hup).2 ⟨rfl, hdirectory⟩] at hthere
          cases hthere
        have hnone := standing?_append_of_ne hbefore (List.cons_ne_nil name [])
        rw [hstart, Option.eq_none_iff_forall_ne_some]
        intro standing hstanding
        cases standing with
        | file bytes =>
          rw [h.grows.file _ bytes hstanding] at hnone
          cases hnone
        | directory =>
          rcases h.directory hup hstanding with hstanding | hprefix
          . rw [hstanding] at hnone
            cases hnone
          . have hlength := hprefix.length_le
            rw [List.length_append, List.length_singleton] at hlength
            omega
      . rfl

end FileTree

end ArtifactAudit
