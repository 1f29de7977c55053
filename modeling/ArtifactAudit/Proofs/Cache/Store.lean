import ArtifactAudit.Proofs.Cache.Entry
import ArtifactAudit.Proofs.Coordinate.Key
import ArtifactAudit.Proofs.FileTree.Apart

/-!
This module contains the theory of what a cache has stored: the record of a summary is there after it
was stored, and the records of all other artifacts are the ones that were there before.
-/

namespace ArtifactAudit

namespace Cache

variable {cache : Cache} {tree : FileTree} {c : Coordinate}

/--
The record that a cache has of a coordinate, if it has one that can be used.
-/
def recordIn? (cache : Cache) (tree : FileTree) (c : Coordinate) : Option Record :=
  ((tree.read? (cache.entryPath c)).bind decode?).filter fun record =>
    record.metadata.compatible && record.coordinate = c

theorem recordIn?_eq_some {record : Record}
    : cache.recordIn? tree c = some record
        ↔
      (tree.read? (cache.entryPath c)).bind decode? = some record
        ∧ record.metadata.compatible = true ∧ record.coordinate = c := by
  rw [recordIn?, Option.filter_eq_some_iff, Bool.and_eq_true, decide_eq_true_iff]

theorem load_cases (cache : Cache) (tree : FileTree) (c : Coordinate)
    : cache.load tree c = .ok (cache.recordIn? tree c)
        ∨ ∃ error, cache.load tree c = .error error ∧ error.recoverable = true
          ∧ cache.recordIn? tree c = none := by
  rw [load, recordIn?]
  split
  . split
    . next hdecode =>
      rw [hdecode]
      exact .inr ⟨_, rfl, rfl, rfl⟩
    . next record hdecode =>
      rw [hdecode]
      split
      . next hold =>
        rw [Bool.not_eq_true'] at hold
        exact .inl (by simp [Option.filter, hold])
      . next hnew =>
        rw [Bool.not_eq_true', Bool.not_eq_false] at hnew
        split
        . next hother => exact .inr ⟨_, rfl, rfl, by simp [Option.filter, hother]⟩
        . next hsame =>
          rw [not_not] at hsame
          exact .inl (by simp [Option.filter, hnew, hsame])
  . next hnone =>
    have hread : tree.read? (cache.entryPath c) = none := by
      rw [FileTree.exists?, Option.not_isSome_iff_eq_none] at hnone
      rw [FileTree.read?, hnone]
    rw [hread]
    exact .inl rfl

theorem load_of_recordIn? {record : Record} (h : cache.recordIn? tree c = some record)
    : cache.load tree c = .ok (some record) := by
  rcases load_cases cache tree c with hload | ⟨_, _, _, hnone⟩
  . rw [hload, h]
  . rw [h] at hnone
    cases hnone

theorem load_congr {other : FileTree}
    (h : other.found? (cache.entryPath c) = tree.found? (cache.entryPath c))
    : cache.load other c = cache.load tree c := by
  rw [load, load, FileTree.exists?_eq_of_found?_eq h, FileTree.read?_eq_of_found?_eq h]

theorem notMem_name (c : Coordinate) : '/' ∉ (c.key ++ entryEnding).toList := by
  rw [String.toList_append, List.mem_append, not_or]
  exact ⟨c.slash_notMem_key, by decide⟩

theorem getLast?_name (c : Coordinate) : (c.key ++ entryEnding).toList.getLast? = some 'z' := by
  rw [String.toList_append, List.getLast?_append_of_ne_nil _ (by decide)]
  decide

theorem splits_entryPath (cache : Cache) (c : Coordinate)
    : (cache.entryPath c).Splits cache.directory.front (c.key ++ entryEnding) :=
  Path.splits_child cache.directory (notMem_name c) (getLast?_name c) (by decide)

theorem name_injective {c d : Coordinate} (h : c.key ++ entryEnding = d.key ++ entryEnding)
    : c = d := by
  apply Coordinate.key_injective
  exact (String.append_left_inj entryEnding).1 h

theorem exists_splits_temporaryPath (cache : Cache) (c : Coordinate)
    : ∃ front name, (cache.temporaryPath c).Splits front name
        ∧ name.toList.getLast? = some 'p' := by
  apply Path.exists_splits _ (by decide) (by decide)
  apply Path.getLast?_child
  rw [String.toList_append, List.getLast?_append_of_ne_nil _ (by decide)]
  decide

/--
The tree in which a cache stores: its directory has been made if need be.
-/
def prepared (cache : Cache) (tree : FileTree) : FileTree :=
  (tree.makeDirectories cache.directory).1

theorem prepared_eq_self (h : (tree.inside? cache.directory.front).isSome)
    : cache.prepared tree = tree :=
  (FileTree.passes_makeDirectoriesWithin _ tree cache.directory).eq_of_inside? h

theorem recordIn?_prepared {record : Record} (h : cache.recordIn? tree c = some record)
    : cache.recordIn? (cache.prepared tree) c = some record := by
  have hsplits := splits_entryPath cache c
  rcases recordIn?_eq_some.1 h with ⟨hdecode, husable⟩
  rcases Option.bind_eq_some_iff.1 hdecode with ⟨bytes, hread, hdecode⟩
  rcases (FileTree.read?_eq_some hsplits).1 hread with ⟨_, location, hinside, _⟩
  have hgrows := FileTree.makeDirectories_grows tree cache.directory
  rw [recordIn?_eq_some, prepared, hgrows.read?_eq hsplits hinside, hread]
  exact ⟨hdecode, husable⟩

def HasNoRecords (cache : Cache) (tree : FileTree) : Prop :=
  ∀ c, cache.recordIn? (cache.prepared tree) c = none

theorem recordIn?_congr {other : Cache} (h : other.directory = cache.directory)
    : other.recordIn? = cache.recordIn? := by
  funext tree c
  rw [recordIn?, recordIn?, entryPath, entryPath, h]

structure Placed (cache : Cache) (tree : FileTree) (summary : Summary) (after : FileTree)
    (location temporary : List String) (name : String)
    : Prop where
  inside_eq : (cache.prepared tree).inside? cache.directory.front = some location
  isUsable : FileTree.isUsable (cache.entryPath summary.coordinate) = true
  getLast?_eq : name.toList.getLast? = some 'p'
  keepsDirectories : FileTree.KeepsDirectories (cache.prepared tree) after
  standing_eq : after.standing?
    = Function.update (Function.update (cache.prepared tree).standing? (temporary ++ [name]) none)
        (location ++ [summary.coordinate.key ++ entryEnding])
        (some (.file (encode (.ofSummary cache.time summary))))

variable {summary : Summary} {path : Path} {after : FileTree}

theorem exists_placed_of_rename? {written : FileTree} {front name : String}
    {temporary : List String} (hsplits : (cache.temporaryPath summary.coordinate).Splits front name)
    (hname : name.toList.getLast? = some 'p')
    (hinside : (cache.prepared tree).inside? front = some temporary)
    (hapart : FileTree.Apart (temporary ++ [name]) (cache.prepared tree) written)
    (hread : written.read? (cache.temporaryPath summary.coordinate)
      = some (encode (.ofSummary cache.time summary)))
    (hrename : written.rename? (cache.temporaryPath summary.coordinate)
      (cache.entryPath summary.coordinate) = some after)
    : ∃ location, Placed cache tree summary after location temporary name := by
  have hsplits' := splits_entryPath cache summary.coordinate
  rcases FileTree.rename?_eq_some hsplits hsplits' hread hrename with
    ⟨husable, again, location, hagain, hinside', hfree, hrenamed⟩
  rw [hapart.inside?_eq hsplits, hinside, Option.some.injEq] at hagain
  subst hagain
  rw [hapart.update_eq] at hrenamed
  refine ⟨location, ?_, husable, hname, ?_, hrenamed.standing_eq⟩
  . rwa [hapart.inside?_eq hsplits'] at hinside'
  . refine ⟨hrenamed.workingDirectory_eq.trans hapart.workingDirectory_eq, ?_⟩
    intro other hother
    have hkeeps := hapart.keepsDirectories.standing other hother
    rw [hrenamed.standing_eq]
    apply FileTree.update_directory _ (FileTree.update_directory hapart.noDirectory hother _)
    rw [← hapart.update_eq]
    exact FileTree.update_ne_directory (by simp) hfree _

theorem exists_placed (h : cache.store tree summary = (.ok path, after))
    : ∃ location temporary name, Placed cache tree summary after location temporary name := by
  rcases exists_splits_temporaryPath cache summary.coordinate with ⟨front, name, hsplits, hname⟩
  have hprepared : (cache.prepared tree) = (tree.makeDirectories cache.directory).1 := rfl
  rw [store] at h
  split at h
  . cases h
  . next between hbetween =>
    rw [hbetween] at hprepared
    dsimp only at h hprepared
    subst hprepared
    split at h
    . cases h
    . next written hwrite =>
      split at h
      . next renamed hrename =>
        obtain rfl : renamed = after := congrArg Prod.snd h
        have hread := FileTree.read?_write? hsplits hwrite
        rcases FileTree.write?_eq_some hsplits hwrite with ⟨_, temporary, hinside, hfree, hwritten⟩
        have hapart := hwritten.apart hfree nofun
        rcases exists_placed_of_rename? hsplits hname hinside hapart hread hrename with
          ⟨location, hplaced⟩
        exact ⟨location, temporary, name, hplaced⟩
      . cases h

theorem ne_of_getLast? {location temporary : List String} {name other : String} {c d : Char}
    (h : name.toList.getLast? = some c) (hother : other.toList.getLast? = some d) (hne : c ≠ d)
    : location ++ [name] ≠ temporary ++ [other] := by
  intro heq
  rw [List.append_singleton_inj] at heq
  rw [heq.2, hother, Option.some.injEq] at h
  exact hne h.symm

section

variable {location temporary : List String} {name : String}
  (h : Placed cache tree summary after location temporary name)

include h

theorem Placed.inside?_eq : after.inside? cache.directory.front = some location :=
  h.keepsDirectories.inside? (splits_entryPath cache summary.coordinate) h.inside_eq

theorem Placed.read?_self
    : after.read? (cache.entryPath summary.coordinate)
        = some (encode (.ofSummary cache.time summary)) := by
  rw [FileTree.read?_eq_some (splits_entryPath cache summary.coordinate)]
  refine ⟨h.isUsable, location, h.inside?_eq, ?_⟩
  rw [h.standing_eq, Function.update_self]

theorem Placed.found?_other (hc : c ≠ summary.coordinate)
    : after.found? (cache.entryPath c) = (cache.prepared tree).found? (cache.entryPath c) := by
  have hne : location ++ [c.key ++ entryEnding]
      ≠ location ++ [summary.coordinate.key ++ entryEnding] := by
    rw [Ne, List.append_singleton_inj]
    exact fun heq => hc (name_injective heq.2)
  have hstanding : after.standing? (location ++ [c.key ++ entryEnding])
      = (cache.prepared tree).standing? (location ++ [c.key ++ entryEnding]) := by
    rw [h.standing_eq, Function.update_of_ne hne,
      Function.update_of_ne (ne_of_getLast? (getLast?_name c) h.getLast?_eq (by decide))]
  rw [FileTree.found?_eq (splits_entryPath cache c), FileTree.found?_eq (splits_entryPath cache c),
    h.inside?_eq, h.inside_eq, Option.bind_some, Option.bind_some, hstanding]

end

theorem recordIn?_store_self (htime : cache.time < UInt64.size)
    (h : cache.store tree summary = (.ok path, after))
    : cache.recordIn? after summary.coordinate = some (.ofSummary cache.time summary) := by
  rcases exists_placed h with ⟨location, temporary, name, hplaced⟩
  rw [recordIn?_eq_some, hplaced.read?_self, Option.bind_some, decode?_encode_ofSummary htime]
  exact ⟨rfl, rfl, rfl⟩

theorem recordIn?_store_of_ne (h : cache.store tree summary = (.ok path, after))
    (hc : c ≠ summary.coordinate)
    : cache.recordIn? after c = cache.recordIn? (cache.prepared tree) c := by
  rcases exists_placed h with ⟨location, temporary, name, hplaced⟩
  rw [recordIn?, recordIn?, FileTree.read?_eq_of_found?_eq (hplaced.found?_other hc)]

/--
Storing a summary changes no file with a name that ends otherwise than the names of entries and of
files that are being written.
-/
theorem read?_store {file : Path} {last : Char} {bytes : ByteArray}
    (hlast : file.text.toList.getLast? = some last) (hother : last ∉ ['z', 'p', '.', '/'])
    (hread : tree.read? file = some bytes) (h : cache.store tree summary = (.ok path, after))
    : after.read? file = some bytes := by
  simp only [List.mem_cons, List.not_mem_nil, or_false, not_or] at hother
  rcases hother with ⟨hentry, htemporary, hdot, hslash⟩
  rcases Path.exists_splits hlast hdot hslash with ⟨front, name, hsplits, hname⟩
  rcases exists_placed h with ⟨location, temporary, written, hplaced⟩
  rcases (FileTree.read?_eq_some hsplits).1 hread with ⟨husable, inside, hinside, hstanding⟩
  have hgrows := FileTree.makeDirectories_grows tree cache.directory
  have hkeeps := hgrows.keepsDirectories.trans hplaced.keepsDirectories
  rw [FileTree.read?_eq_some hsplits]
  refine ⟨husable, inside, hkeeps.inside? hsplits hinside, ?_⟩
  rw [hplaced.standing_eq, Function.update_of_ne (ne_of_getLast? hname (getLast?_name _) hentry),
    Function.update_of_ne (ne_of_getLast? hname hplaced.getLast?_eq htemporary)]
  exact hgrows.standing _ _ hstanding

theorem hasNoRecords_of_standing? {location : List String}
    (hinside : (cache.prepared tree).inside? cache.directory.front = some location)
    (hnone : ∀ name bytes, tree.standing? (location ++ [name]) ≠ some (.file bytes))
    : cache.HasNoRecords tree := by
  intro c
  rw [Option.eq_none_iff_forall_ne_some]
  intro record hrecord
  rcases Option.bind_eq_some_iff.1 (recordIn?_eq_some.1 hrecord).1 with ⟨bytes, hread, _⟩
  rcases (FileTree.read?_eq_some (splits_entryPath cache c)).1 hread with
    ⟨_, other, hother, hstanding⟩
  rw [hinside, Option.some.injEq] at hother
  subst hother
  have hgrows := FileTree.makeDirectories_grows tree cache.directory
  exact hnone _ bytes (hgrows.file _ _ hstanding)

theorem recordIn?_prepared_store (h : cache.store tree summary = (.ok path, after))
    (c : Coordinate)
    : cache.recordIn? (cache.prepared after) c = cache.recordIn? after c := by
  rcases exists_placed h with ⟨location, temporary, name, hplaced⟩
  have hread := (FileTree.makeDirectories_grows after cache.directory).read?_eq
    (splits_entryPath cache c) hplaced.inside?_eq
  rw [recordIn?, recordIn?, prepared, hread]

end Cache

end ArtifactAudit
