import ArtifactAudit.Proofs.Cache.Store

/-!
This module contains the theory of trees that differ in nothing but the entry that a cache has of one
artifact: all other entries are loaded and stored alike.
-/

namespace ArtifactAudit

namespace Cache

structure Apart (cache : Cache) (c : Coordinate) (location : List String) (tree other : FileTree)
    : Prop where
  inside_eq : tree.inside? cache.directory.front = some location
  apart : FileTree.Apart (location ++ [c.key ++ entryEnding]) tree other

variable {cache : Cache} {c d : Coordinate} {location : List String} {tree other : FileTree}

theorem Apart.symm (h : Apart cache c location tree other) : Apart cache c location other tree where
  inside_eq := by
    rw [h.apart.inside?_eq (splits_entryPath cache c)]
    exact h.inside_eq
  apart := h.apart.symm

theorem Apart.load_eq (h : Apart cache c location tree other) (hd : d ≠ c)
    : cache.load other d = cache.load tree d := by
  apply load_congr
  apply h.apart.found?_eq (splits_entryPath cache d)
  intro again _ heq
  rw [List.append_singleton_inj] at heq
  exact hd (name_injective heq.2)

theorem Apart.prepared_eq (h : Apart cache c location tree other) : cache.prepared tree = tree :=
  prepared_eq_self (by rw [h.inside_eq]; rfl)

section

variable {front name : String} {summary : Summary} {bytes : ByteArray} {written : FileTree}
  (hsplits : (cache.temporaryPath summary.coordinate).Splits front name)

include hsplits

theorem Apart.exists_write? (h : Apart cache c location tree other)
    (hname : name.toList.getLast? = some 'p')
    (hwrite : tree.write? (cache.temporaryPath summary.coordinate) bytes = some written)
    : ∃ written', other.write? (cache.temporaryPath summary.coordinate) bytes = some written'
        ∧ FileTree.Apart (location ++ [c.key ++ entryEnding]) written written' := by
  apply h.apart.exists_write? hsplits _ hwrite
  intro again _
  exact (ne_of_getLast? (getLast?_name c) hname (by decide)).symm

theorem Apart.write?_eq_none (h : Apart cache c location tree other)
    (hname : name.toList.getLast? = some 'p')
    (hwrite : tree.write? (cache.temporaryPath summary.coordinate) bytes = none)
    : other.write? (cache.temporaryPath summary.coordinate) bytes = none := by
  rw [Option.eq_none_iff_forall_ne_some]
  intro written' hwrite'
  rcases h.symm.exists_write? hsplits hname hwrite' with ⟨_, hsome, _⟩
  rw [hwrite] at hsome
  cases hsome

theorem rename?_eq_none {place : List String} {written' : FileTree}
    (h : FileTree.Apart place written written')
    (hread : written.read? (cache.temporaryPath summary.coordinate) = some bytes)
    (hread' : written'.read? (cache.temporaryPath summary.coordinate) = some bytes)
    (hrename : written.rename? (cache.temporaryPath summary.coordinate)
      (cache.entryPath summary.coordinate) = none)
    : written'.rename? (cache.temporaryPath summary.coordinate)
        (cache.entryPath summary.coordinate) = none := by
  rw [Option.eq_none_iff_forall_ne_some]
  intro after' hrename'
  rcases h.symm.exists_rename? hsplits (splits_entryPath cache summary.coordinate) hread' hread
    hrename' with ⟨_, hsome, _⟩
  rw [hrename] at hsome
  cases hsome

end

theorem Apart.store_files (h : Apart cache c location tree other) (summary : Summary)
    : (∃ error after after', cache.store tree summary = (.error error, after)
          ∧ cache.store other summary = (.error error, after'))
        ∨ ∃ path after after', cache.store tree summary = (.ok path, after)
          ∧ cache.store other summary = (.ok path, after')
          ∧ FileTree.Apart (location ++ [c.key ++ entryEnding]) after after' := by
  rcases exists_splits_temporaryPath cache summary.coordinate with ⟨front, name, hsplits, hname⟩
  have hmake : tree.makeDirectories cache.directory
      = (tree, (tree.makeDirectories cache.directory).2) :=
    Prod.ext h.prepared_eq rfl
  have hmake' : other.makeDirectories cache.directory
      = (other, (tree.makeDirectories cache.directory).2) :=
    Prod.ext h.symm.prepared_eq
      (h.apart.snd_makeDirectories_eq (splits_entryPath cache c) (by rw [h.inside_eq]; rfl))
  generalize (tree.makeDirectories cache.directory).2 = made at hmake hmake'
  rw [Cache.store, Cache.store, hmake, hmake']
  cases made with
  | false => exact .inl ⟨_, _, _, rfl, rfl⟩
  | true =>
    dsimp only
    cases hwrite : tree.write? (cache.temporaryPath summary.coordinate)
        (encode (.ofSummary cache.time summary)) with
    | none =>
      rw [h.write?_eq_none hsplits hname hwrite]
      exact .inl ⟨_, _, _, rfl, rfl⟩
    | some written =>
      rcases h.exists_write? hsplits hname hwrite with ⟨written', hwrite', hwritten⟩
      have hread := FileTree.read?_write? hsplits hwrite
      have hread' := FileTree.read?_write? hsplits hwrite'
      rw [hwrite']
      dsimp only
      cases hrename : written.rename? (cache.temporaryPath summary.coordinate)
          (cache.entryPath summary.coordinate) with
      | none =>
        rw [rename?_eq_none hsplits hwritten hread hread' hrename]
        exact .inl ⟨_, _, _, rfl, rfl⟩
      | some after =>
        rcases hwritten.exists_rename? hsplits (splits_entryPath cache summary.coordinate) hread
          hread' hrename with ⟨after', hrename', hafter⟩
        rw [hrename']
        exact .inr ⟨_, _, _, rfl, rfl, hafter⟩

theorem Apart.inside?_store {summary : Summary} {path : Path} {after : FileTree}
    (h : Apart cache c location tree other) (hstore : cache.store tree summary = (.ok path, after))
    : after.inside? cache.directory.front = some location := by
  rcases exists_placed hstore with ⟨_, _, _, hplaced⟩
  rw [hplaced.inside?_eq, ← hplaced.inside_eq, h.prepared_eq, h.inside_eq]

theorem Apart.store (h : Apart cache c location tree other) (summary : Summary)
    : (∃ error after after', cache.store tree summary = (.error error, after)
          ∧ cache.store other summary = (.error error, after'))
        ∨ ∃ path after after', cache.store tree summary = (.ok path, after)
          ∧ cache.store other summary = (.ok path, after')
          ∧ Apart cache c location after after' := by
  rcases h.store_files summary with herror | ⟨path, after, after', hstore, hstore', hafter⟩
  . exact .inl herror
  . exact .inr ⟨path, after, after', hstore, hstore', h.inside?_store hstore, hafter⟩

end Cache

end ArtifactAudit
