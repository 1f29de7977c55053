import Mathlib.Logic.Relation
import ArtifactAudit.Proofs.Cache.Store

/-!
This module contains the proof that a summary is stored as a whole or not at all: wherever the storing
is interrupted and whichever of its steps fails, the cache has the entries that it had before, or the
complete new one among them.
-/

namespace ArtifactAudit

open Relation

namespace FileTree

theorem isFile_iff {tree : FileTree} {path : Path}
    : tree.isFile path = true ↔ ∃ bytes, tree.read? path = some bytes := by
  rw [isFile, read?]
  cases tree.find? path with
  | none => simp
  | some node => cases node <;> simp [FileNode.isDirectory]

theorem exists_place?_of_rename? {tree after : FileTree} {path target : Path}
    (h : tree.rename? path target = some after)
    : (∃ place, tree.place? path = some place) ∧ ∃ place, tree.place? target = some place := by
  rw [rename?] at h
  rcases Option.bind_eq_some_iff.1 h with ⟨_, _, h⟩
  rcases Option.bind_eq_some_iff.1 h with ⟨place, hplace, h⟩
  rcases Option.bind_eq_some_iff.1 h with ⟨place', hplace', _⟩
  exact ⟨⟨place, hplace⟩, ⟨place', hplace'⟩⟩

end FileTree

namespace Cache

inductive Phase where
  | start
  /-- The directory of the cache is made after those that lead to it. -/
  | making
  | writing (written : ByteArray)
  /-- After a failure the file under the other name is not needed any more. -/
  | cleaning (error : AuditError)
  | stored (path : Path)
  /-- The storing failed, and all that was written has been removed if it is clean. -/
  | failed (error : AuditError) (clean : Bool)

def Phase.result? : Phase → Option (Except AuditError Path)
  | .stored path => some (.ok path)
  | .failed error _ => some (.error error)
  | _ => none

def IsPart (part whole : ByteArray) : Prop := part.data.toList <+: whole.data.toList

/--
The steps of storing a summary, each of which may fail. The bytes may reach the file in any parts, and
the storing may stop in any phase.
-/
inductive Step (cache : Cache) (summary : Summary) : Phase × FileTree → Phase × FileTree → Prop where
  | make {tree after : FileTree} (passes : FileTree.Passes cache.directory tree after)
    : Step cache summary (.start, tree) (.making, after)
  | notMade {tree : FileTree} (reason : String)
    : Step cache summary (.making, tree) (.failed (.io cache.directory reason) true, tree)
  | create {tree after : FileTree} {part : ByteArray}
    (part_of : IsPart part (encode (.ofSummary cache.time summary)))
    (write : tree.write? (cache.temporaryPath summary.coordinate) part = some after)
    : Step cache summary (.making, tree) (.writing part, after)
  | notCreated {tree : FileTree} (reason : String)
    : Step cache summary (.making, tree)
        (.cleaning (.io (cache.temporaryPath summary.coordinate) reason), tree)
  | write {tree after : FileTree} {part more : ByteArray} (extends_part : IsPart part more)
    (part_of : IsPart more (encode (.ofSummary cache.time summary)))
    (write : tree.write? (cache.temporaryPath summary.coordinate) more = some after)
    : Step cache summary (.writing part, tree) (.writing more, after)
  | notWritten {tree : FileTree} {part : ByteArray} (reason : String)
    : Step cache summary (.writing part, tree)
        (.cleaning (.io (cache.temporaryPath summary.coordinate) reason), tree)
  | rename {tree after : FileTree}
    (rename : tree.rename? (cache.temporaryPath summary.coordinate)
      (cache.entryPath summary.coordinate) = some after)
    : Step cache summary (.writing (encode (.ofSummary cache.time summary)), tree)
        (.stored (cache.entryPath summary.coordinate), after)
  | notRenamed {tree : FileTree} (reason : String)
    : Step cache summary (.writing (encode (.ofSummary cache.time summary)), tree)
        (.cleaning (.io (cache.entryPath summary.coordinate) reason), tree)
  | remove {tree after : FileTree} {error : AuditError}
    (isFile : tree.isFile (cache.temporaryPath summary.coordinate) = true)
    (remove : tree.remove? (cache.temporaryPath summary.coordinate) = some after)
    : Step cache summary (.cleaning error, tree) (.failed error true, after)
  | notRemoved {tree : FileTree} {error : AuditError}
    : Step cache summary (.cleaning error, tree) (.failed error false, tree)

variable {cache : Cache} {summary : Summary} {tree now after : FileTree} {front name : String}

def Around (cache : Cache) (tree : FileTree) (front name : String) (now : FileTree)
    (value : Option Standing)
    : Prop :=
  ∃ between location, FileTree.Passes cache.directory tree between
    ∧ between.inside? front = some location
    ∧ FileTree.Apart (location ++ [name]) between now
    ∧ now.standing? (location ++ [name]) = value

def Seen (cache : Cache) (tree : FileTree) (summary : Summary) (front name : String)
    : Phase × FileTree → Prop
  | (.start, now) => now = tree
  | (.making, now) => FileTree.Passes cache.directory tree now
  | (.writing part, now) => Around cache tree front name now (some (.file part))
  | (.cleaning _, now) | (.failed _ false, now) =>
    FileTree.Passes cache.directory tree now ∨ ∃ value, Around cache tree front name now value
  | (.failed _ true, now) =>
    FileTree.Passes cache.directory tree now ∨ Around cache tree front name now none
  | (.stored _, now) =>
    ∃ between location temporary, FileTree.Passes cache.directory tree between
      ∧ cache.prepared between = between
      ∧ Placed cache between summary now location temporary name

section

variable (hsplits : (cache.temporaryPath summary.coordinate).Splits front name)

include hsplits

theorem around_of_leaves {location : List String} {value : Option Standing}
    (h : FileTree.Passes cache.directory tree now ∨ ∃ old, Around cache tree front name now old)
    (hinside : now.inside? front = some location)
    (hfree : now.standing? (location ++ [name]) ≠ some .directory)
    (hvalue : value ≠ some .directory)
    (hleaves : FileTree.Leaves now after
      (Function.update now.standing? (location ++ [name]) value))
    : Around cache tree front name after value := by
  have hapart := hleaves.apart hfree hvalue
  have hstanding : after.standing? (location ++ [name]) = value := by
    rw [hleaves.standing_eq, Function.update_self]
  rcases h with hpasses | ⟨_, between, again, hpasses, hagain, hbetween, _⟩
  . exact ⟨now, location, hpasses, hinside, hapart, hstanding⟩
  . rw [hbetween.inside?_eq hsplits, hagain, Option.some.injEq] at hinside
    subst hinside
    exact ⟨between, again, hpasses, hagain, hbetween.trans hapart, hstanding⟩

theorem around_of_write? {bytes : ByteArray}
    (h : FileTree.Passes cache.directory tree now ∨ ∃ old, Around cache tree front name now old)
    (hwrite : now.write? (cache.temporaryPath summary.coordinate) bytes = some after)
    : Around cache tree front name after (some (.file bytes)) := by
  rcases FileTree.write?_eq_some hsplits hwrite with ⟨_, location, hinside, hfree, hwritten⟩
  exact around_of_leaves hsplits h hinside hfree nofun hwritten

theorem around_of_remove?
    (h : FileTree.Passes cache.directory tree now ∨ ∃ old, Around cache tree front name now old)
    (hfile : now.isFile (cache.temporaryPath summary.coordinate) = true)
    (hremove : now.remove? (cache.temporaryPath summary.coordinate) = some after)
    : Around cache tree front name after none := by
  rcases FileTree.isFile_iff.1 hfile with ⟨bytes, hread⟩
  rcases FileTree.remove?_eq_some hsplits hread hremove with ⟨location, hinside, hremoved⟩
  rcases (FileTree.read?_eq_some hsplits).1 hread with ⟨_, again, hagain, hstanding⟩
  rw [hinside, Option.some.injEq] at hagain
  subst hagain
  exact around_of_leaves hsplits h hinside (by rw [hstanding]; nofun) nofun hremoved

theorem placed_of_rename? (hname : name.toList.getLast? = some 'p')
    (h : Around cache tree front name now (some (.file (encode (.ofSummary cache.time summary)))))
    (hrename : now.rename? (cache.temporaryPath summary.coordinate)
      (cache.entryPath summary.coordinate) = some after)
    : ∃ between location temporary, FileTree.Passes cache.directory tree between
        ∧ cache.prepared between = between
        ∧ Placed cache between summary after location temporary name := by
  rcases h with ⟨between, temporary, hpasses, hinside, hapart, hstanding⟩
  rcases FileTree.exists_place?_of_rename? hrename with ⟨⟨_, hplace⟩, ⟨_, hplace'⟩⟩
  have husable' := FileTree.isUsable_of_place? hplace'
  have hsplits' := splits_entryPath cache summary.coordinate
  rw [FileTree.place?_eq hsplits' husable', hapart.inside?_eq hsplits',
    Option.map_eq_some_iff] at hplace'
  rcases hplace' with ⟨location, hdirectory, _⟩
  have hprepared := prepared_eq_self (by rw [hdirectory]; rfl)
  have hread : now.read? (cache.temporaryPath summary.coordinate)
      = some (encode (.ofSummary cache.time summary)) := by
    rw [FileTree.read?_eq_some hsplits, hapart.inside?_eq hsplits]
    exact ⟨FileTree.isUsable_of_place? hplace, temporary, hinside, hstanding⟩
  rw [← hprepared] at hinside hapart
  rcases exists_placed_of_rename? hsplits hname hinside hapart hread hrename with ⟨entry, hplaced⟩
  exact ⟨between, entry, temporary, hpasses, hprepared, hplaced⟩

theorem seen_step (hname : name.toList.getLast? = some 'p') {first second : Phase × FileTree}
    (h : Seen cache tree summary front name first) (hstep : Step cache summary first second)
    : Seen cache tree summary front name second := by
  cases hstep with
  | make passes =>
    obtain rfl := h
    exact passes
  | notMade reason => exact .inl h
  | create _ write => exact around_of_write? hsplits (.inl h) write
  | notCreated reason => exact .inl h
  | write _ _ write => exact around_of_write? hsplits (.inr ⟨_, h⟩) write
  | notWritten reason => exact .inr ⟨_, h⟩
  | rename rename =>
    exact placed_of_rename? hsplits hname h rename
  | notRenamed reason => exact .inr ⟨_, h⟩
  | remove isFile remove => exact .inr (around_of_remove? hsplits h isFile remove)
  | notRemoved => exact h

theorem seen_of_steps (hname : name.toList.getLast? = some 'p') {reached : Phase × FileTree}
    (h : ReflTransGen (Step cache summary) (.start, tree) reached)
    : Seen cache tree summary front name reached := by
  induction h with
  | refl => exact rfl
  | tail _ step ih => exact seen_step hsplits hname ih step

end

/--
Whether the directory of a cache is there already or its path has no way up, which could lead to
another directory once the ones before it were made.
-/
def Straight (cache : Cache) (tree : FileTree) : Prop :=
  tree.isDirectory cache.directory = true ∨ ".." ∉ cache.directory.segments.2

section

variable {c : Coordinate} (hstraight : cache.Straight tree)

include hstraight

theorem Straight.found?_eq (h : FileTree.Passes cache.directory tree now)
    : now.found? (cache.entryPath c) = tree.found? (cache.entryPath c) :=
  h.found?_eq (hstraight.imp_left FileTree.isSome_inside?_front) (splits_entryPath cache c)

theorem Around.found?_eq {value : Option Standing} (hname : name.toList.getLast? = some 'p')
    (h : Around cache tree front name now value)
    : now.found? (cache.entryPath c) = tree.found? (cache.entryPath c) := by
  rcases h with ⟨between, location, hpasses, _, hapart, _⟩
  rw [← hstraight.found?_eq hpasses]
  apply hapart.found?_eq (splits_entryPath cache c)
  intro other _
  exact ne_of_getLast? (getLast?_name c) hname (by decide)

theorem load_eq_of_not_stored (hname : name.toList.getLast? = some 'p') {phase : Phase}
    (h : Seen cache tree summary front name (phase, now)) (hphase : ∀ path, phase ≠ .stored path)
    : cache.load now c = cache.load tree c := by
  have haround : (FileTree.Passes cache.directory tree now
      ∨ ∃ value, Around cache tree front name now value) →
        now.found? (cache.entryPath c) = tree.found? (cache.entryPath c) := by
    rintro (hpasses | ⟨_, haround⟩)
    . exact hstraight.found?_eq hpasses
    . exact haround.found?_eq hstraight hname
  cases phase with
  | start =>
    obtain rfl := h
    rfl
  | making => exact load_congr (haround (.inl h))
  | writing => exact load_congr (haround (.inr ⟨_, h⟩))
  | cleaning => exact load_congr (haround h)
  | stored path => exact absurd rfl (hphase path)
  | failed _ clean =>
    cases clean with
    | false => exact load_congr (haround h)
    | true => exact load_congr (haround (h.imp_right fun h => ⟨_, h⟩))

theorem load_eq_of_stored {path : Path} (hc : c ≠ summary.coordinate)
    (h : Seen cache tree summary front name (.stored path, now))
    : cache.load now c = cache.load tree c := by
  rcases h with ⟨between, location, temporary, hpasses, hprepared, hplaced⟩
  apply load_congr
  rw [hplaced.found?_other hc, hprepared, hstraight.found?_eq hpasses]

end

theorem load_of_stored {path : Path} (htime : cache.time < UInt64.size)
    (h : Seen cache tree summary front name (.stored path, now))
    : cache.load now summary.coordinate = .ok (some (.ofSummary cache.time summary)) := by
  rcases h with ⟨between, location, temporary, _, _, hplaced⟩
  have hrecord : cache.recordIn? now summary.coordinate
      = some (.ofSummary cache.time summary) := by
    rw [recordIn?_eq_some, hplaced.read?_self, Option.bind_some, decode?_encode_ofSummary htime]
    exact ⟨rfl, rfl, rfl⟩
  exact load_of_recordIn? hrecord

theorem file_of_clean {error : AuditError} {location : List String} {bytes : ByteArray}
    (h : Seen cache tree summary front name (.failed error true, now))
    (hfile : now.standing? location = some (.file bytes))
    : tree.standing? location = some (.file bytes) := by
  rcases h with hpasses | ⟨between, place, hpasses, _, hapart, hnone⟩
  . exact hpasses.grows.file _ _ hfile
  . apply hpasses.grows.file
    rw [← hapart.standing_eq, hfile]
    rintro rfl
    rw [hnone] at hfile
    cases hfile

theorem isPart_refl (bytes : ByteArray) : IsPart bytes bytes := List.prefix_refl _

theorem exists_steps_store (cache : Cache) (tree : FileTree) (summary : Summary)
    : ∃ phase, ReflTransGen (Step cache summary) (.start, tree)
          (phase, (cache.store tree summary).2)
        ∧ phase.result? = some (cache.store tree summary).1 := by
  have hpasses := FileTree.passes_makeDirectoriesWithin (cache.directory.text.length + 2) tree
    cache.directory
  rw [store]
  split
  . next between hbetween =>
    change (tree.makeDirectoriesWithin _ _) = _ at hbetween
    rw [hbetween] at hpasses
    exact ⟨_, .tail (.single (.make hpasses)) (.notMade _), rfl⟩
  . next between hbetween =>
    change (tree.makeDirectoriesWithin _ _) = _ at hbetween
    rw [hbetween] at hpasses
    have hmaking : ReflTransGen (Step cache summary) (.start, tree) (.making, between) :=
      .single (.make hpasses)
    dsimp only
    split
    . exact ⟨_, .tail (.tail hmaking (.notCreated _)) .notRemoved, rfl⟩
    . next written hwrite =>
      have hwriting := hmaking.tail (.create (isPart_refl _) hwrite)
      split
      . next after hrename => exact ⟨_, hwriting.tail (.rename hrename), rfl⟩
      . have hcleaning := hwriting.tail (.notRenamed "cannot rename")
        cases hremove : written.remove? (cache.temporaryPath summary.coordinate) with
        | none => exact ⟨_, hcleaning.tail .notRemoved, rfl⟩
        | some after =>
          rcases exists_splits_temporaryPath cache summary.coordinate with ⟨_, _, hsplits, _⟩
          have hfile := FileTree.isFile_iff.2 ⟨_, FileTree.read?_write? hsplits hwrite⟩
          exact ⟨_, hcleaning.tail (.remove hfile hremove), rfl⟩

/--
A summary is stored as a whole or not at all, and nothing else is changed by it, wherever the storing
is interrupted and whichever of its steps fails.
-/
theorem store_interrupted (summary : Summary) (htime : cache.time < UInt64.size)
    (hstraight : cache.Straight tree)
    : (∃ phase, ReflTransGen (Step cache summary) (.start, tree)
            (phase, (cache.store tree summary).2)
          ∧ phase.result? = some (cache.store tree summary).1)
        ∧ ∀ phase now, ReflTransGen (Step cache summary) (.start, tree) (phase, now) →
          (∀ c, c ≠ summary.coordinate → cache.load now c = cache.load tree c)
          ∧ (cache.load now summary.coordinate = cache.load tree summary.coordinate
            ∨ cache.load now summary.coordinate = .ok (some (.ofSummary cache.time summary)))
          ∧ (∀ path, phase = .stored path →
            cache.load now summary.coordinate = .ok (some (.ofSummary cache.time summary)))
          ∧ ∀ error, phase = .failed error true → ∀ location bytes,
            now.standing? location = some (.file bytes) →
              tree.standing? location = some (.file bytes) := by
  refine ⟨exists_steps_store cache tree summary, ?_⟩
  rcases exists_splits_temporaryPath cache summary.coordinate with ⟨front, name, hsplits, hname⟩
  intro phase now hsteps
  have hseen := seen_of_steps hsplits hname hsteps
  have hclean : ∀ error, phase = .failed error true → ∀ location bytes,
      now.standing? location = some (.file bytes) →
        tree.standing? location = some (.file bytes) := by
    rintro error rfl location bytes
    exact file_of_clean hseen
  by_cases hstored : ∃ path, phase = .stored path
  . rcases hstored with ⟨path, rfl⟩
    have hnew := load_of_stored htime hseen
    exact ⟨fun c hc => load_eq_of_stored hstraight hc hseen, .inr hnew, fun _ _ => hnew, hclean⟩
  . rw [not_exists] at hstored
    have hold := fun c => load_eq_of_not_stored (c := c) hstraight hname hseen hstored
    exact ⟨fun c _ => hold c, .inl (hold _), fun path hpath => absurd hpath (hstored path), hclean⟩

def asideSummary : Summary :=
  ⟨⟨"g", "a", "1", "jar", ""⟩, [], [], .ofList ["a/A"], ∅, [], []⟩

def storedSummary : Summary :=
  ⟨⟨"g", "b", "1", "jar", ""⟩, [], [], .ofList ["b/B"], ∅, [], []⟩

def plainCache : Cache := { directory := ⟨"cache"⟩ }

def asideTree : FileTree where
  root := .directory
    [("cache", .directory [("g_a_1.json.gz", .file (encode (.ofSummary 0 asideSummary)))])]
  workingDirectory := []

theorem recordIn?_aside {cache : Cache} {tree : FileTree}
    (hread : tree.read? (cache.entryPath asideSummary.coordinate)
      = some (encode (.ofSummary 0 asideSummary)))
    : cache.recordIn? tree asideSummary.coordinate = some (.ofSummary 0 asideSummary) := by
  rw [recordIn?_eq_some, hread, Option.bind_some, decode?_encode_ofSummary (by decide)]
  exact ⟨rfl, rfl, rfl⟩

theorem store_interrupted_aside
    : plainCache.time < UInt64.size ∧ plainCache.Straight asideTree
        ∧ ∀ phase now,
          ReflTransGen (Step plainCache storedSummary) (.start, asideTree) (phase, now) →
            plainCache.load now asideSummary.coordinate
              = .ok (some (.ofSummary 0 asideSummary)) := by
  have htime : plainCache.time < UInt64.size := by decide
  have hstraight : plainCache.Straight asideTree := .inr (by decide)
  refine ⟨htime, hstraight, ?_⟩
  intro phase now hsteps
  have hload : plainCache.load asideTree asideSummary.coordinate
      = .ok (some (.ofSummary 0 asideSummary)) := load_of_recordIn? (recordIn?_aside rfl)
  rw [← hload]
  exact ((store_interrupted storedSummary htime hstraight).2 phase now hsteps).1 _ (by decide)

/--
The directory that this path leads to is only found after `x` was made.
-/
def roundaboutCache : Cache := { directory := ⟨"x/../cache"⟩ }

/--
Storing a summary brings another entry to light where the directory of the cache is only found after
the directories before it were made.
-/
theorem store_roundabout_differs
    : ∃ path after, roundaboutCache.store asideTree storedSummary = (.ok path, after)
        ∧ asideSummary.coordinate ≠ storedSummary.coordinate
        ∧ roundaboutCache.load asideTree asideSummary.coordinate = .ok none
        ∧ roundaboutCache.load after asideSummary.coordinate
          = .ok (some (.ofSummary 0 asideSummary)) := by
  have hstored : (roundaboutCache.store asideTree storedSummary).1
      = .ok ⟨"x/../cache/g_b_1.json.gz"⟩ := by
    decide +kernel
  have hprepared : (roundaboutCache.prepared asideTree).read?
      (roundaboutCache.entryPath asideSummary.coordinate)
        = some (encode (.ofSummary 0 asideSummary)) := rfl
  have hne : asideSummary.coordinate ≠ storedSummary.coordinate := by decide
  rcases hstore : roundaboutCache.store asideTree storedSummary with ⟨result, after⟩
  rw [hstore] at hstored
  dsimp only at hstored
  subst hstored
  refine ⟨_, after, rfl, hne, rfl, load_of_recordIn? ?_⟩
  rw [recordIn?_store_of_ne hstore hne, recordIn?_aside hprepared]

end Cache

end ArtifactAudit
