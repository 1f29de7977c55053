import ArtifactAudit.ClassSource
import ArtifactAudit.Proofs.Error

/-!
This module contains the proof that the analysis of class files never fails for an artifact that
depends on itself, and what files and directories are analyzed to.
-/

namespace ArtifactAudit

namespace ClassSource

theorem notCyclical_ofFile (path : Path) (bytes : ByteArray) : NotCyclical (ofFile path bytes) := by
  unfold ofFile
  split <;> simp [NotCyclical]

theorem notCyclical_ofEntry (path : Path) (data : ByteArray) (entry : Archive.Zip.Entry)
    : NotCyclical (ofEntry path data entry) := by
  unfold ofEntry
  split
  . simp [NotCyclical]
  . split
    . dsimp only
      split <;> simp [NotCyclical]
    . simp [NotCyclical]

theorem notCyclical_ofArchive (path : Path) (data : ByteArray)
    : NotCyclical (ofArchive path data) := by
  unfold ofArchive
  split
  . split
    . next entries _ =>
      apply (NotCyclical.mapM (notCyclical_ofEntry path data) entries).bind
      intro found
      exact .ok _
    . simp [NotCyclical]
  . simp [NotCyclical]

theorem notCyclical_ofMember (path : Path) (bytes : ByteArray)
    : NotCyclical (ofMember path bytes) := by
  unfold ofMember
  split
  . exact (notCyclical_ofFile path bytes).map _
  . split
    . apply notCyclical_ofArchive
    . exact .ok []

theorem notCyclical_ofLocation (path : Path) (bytes : ByteArray)
    : NotCyclical (ofLocation path bytes) := by
  unfold ofLocation
  split
  . exact (notCyclical_ofFile path bytes).map _
  . split
    . exact .ok []
    . apply notCyclical_ofArchive

mutual

theorem notCyclical_visible (path : Path) : ∀ node, NotCyclical (visible path node)
  | .file bytes => by
    rw [visible]
    exact .ok _
  | .directory entries => by
    rw [visible]
    split
    . exact notCyclical_visibleInAll path entries
    . simp [NotCyclical]

theorem notCyclical_visibleInAll (path : Path)
    : ∀ entries, NotCyclical (visible.visibleInAll path entries)
  | [] => by
    rw [visible.visibleInAll]
    exact .ok []
  | (name, node) :: rest => by
    rw [visible.visibleInAll]
    have hcontinue : ∀ found, NotCyclical (do return found ++ (← visible.visibleInAll path rest)) := by
      intro found
      apply (notCyclical_visibleInAll path rest).bind
      intro more
      exact .ok _
    split
    . exact (NotCyclical.ok []).bind hcontinue
    . exact (notCyclical_visible (path.child name) node).bind hcontinue

end

theorem notCyclical_collect (tree : FileTree) (location : Path)
    : NotCyclical (collect tree location) := by
  unfold collect
  dsimp only
  split
  . intro path heq
    cases heq
  . apply (notCyclical_ofLocation _ _).bind
    intro found
    exact .ok _
  . apply (notCyclical_visible _ _).bind
    intro files
    apply (NotCyclical.mapM (fun file : Path × ByteArray => notCyclical_ofMember _ _) files).bind
    intro found
    exact .ok _

theorem notCyclical_symbols (skipDebug : Bool) (location : Path) (entry : ClassSource)
    : NotCyclical (symbols skipDebug location entry) := by
  unfold symbols
  split
  . simp [NotCyclical]
  . unfold faultError
    split <;> simp [NotCyclical]

theorem notCyclical_symbolsAt (tree : FileTree) (skipDebug : Bool) (location : Path)
    : NotCyclical (symbolsAt tree skipDebug location) := by
  unfold symbolsAt
  apply (notCyclical_collect tree location).bind
  intro sources
  apply (NotCyclical.mapM (notCyclical_symbols skipDebug location) sources).bind
  intro found
  exact .ok _

theorem symbolsAt_eq_of_read? {tree other : FileTree} {location : Path} {bytes : ByteArray}
    (h : tree.read? location = some bytes) (hother : other.read? location = some bytes)
    (skipDebug : Bool)
    : symbolsAt tree skipDebug location = symbolsAt other skipDebug location := by
  have hfound : ∀ {tree : FileTree}, tree.read? location = some bytes →
      tree.find? location = some (.file bytes) := by
    intro tree hread
    rw [FileTree.read?] at hread
    split at hread
    . next found hfind => rw [hfind, Option.some.inj hread]
    . cases hread
  rw [symbolsAt, symbolsAt, collect, collect, hfound h, hfound hother]

theorem symbolsAt_directory {tree : FileTree} {location : Path}
    {entries : List (String × FileNode)} {files : List (Path × ByteArray)}
    {sources : List (List ClassSource)}
    (hfind : tree.find? location = some (.directory entries))
    (hfiles : visible location (.directory entries) = .ok files)
    (hsources : (files.mapM fun file => ofMember file.1 file.2) = .ok sources) (skipDebug : Bool)
    : symbolsAt tree skipDebug location
        = extractAll skipDebug location
          (sources.flatten.mergeSort fun a b => !decide (Text.Precedes b.source a.source)) := by
  rw [symbolsAt, collect, hfind]
  dsimp only [Bind.bind, Except.bind]
  rw [hfiles]
  dsimp only
  rw [hsources]
  rfl

end ClassSource
end ArtifactAudit
