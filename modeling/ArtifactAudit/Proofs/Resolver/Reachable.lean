import ArtifactAudit.Proofs.Catalog
import ArtifactAudit.Proofs.Resolver.Memo

/-!
This module contains the proof that a resolver without a cache resolves what its root reaches and
nothing else: its table, the closure that the summary of the root tells and the artifacts that the
root depends on, directly or through others, are the same.
-/

namespace ArtifactAudit
namespace Resolver

variable {Memory : Type}

open DependencySet Supply

theorem Sound.mem_artifacts {resolver : Resolver Memory} (h : Sound resolver) {summary : Summary}
    : summary ∈ resolver.artifacts ↔ resolver.get? summary.coordinate = some summary := by
  unfold artifacts
  generalize hdone : resolver.table.entries.filterMap _ = done
  have hmem : ∀ x, x ∈ done ↔ resolver.get? x.coordinate = some x := by
    intro x
    rw [← hdone, List.mem_filterMap, get?_eq_some_iff, ← CoordinateMap.mem_entries]
    constructor
    . rintro ⟨⟨c, resolution⟩, hentry, heq⟩
      cases resolution with
      | inProgress => cases heq
      | done other =>
        cases heq
        rw [CoordinateMap.mem_entries, ← get?_eq_some_iff] at hentry
        rw [CoordinateMap.mem_entries, ← get?_eq_some_iff, h.coordinate_eq c x hentry, hentry]
    . intro hentry
      exact ⟨_, hentry, rfl⟩
  constructor
  . intro hlisted
    exact (hmem summary).1 (Catalog.mem_of_mem_ofList hlisted)
  . intro hget
    have hcoordinate : summary.coordinate ∈ coordinates (Catalog.ofList done) := by
      rw [Catalog.mem_coordinates_ofList]
      exact mem_coordinates.2 ⟨summary, (hmem summary).2 hget, rfl⟩
    rcases mem_coordinates.1 hcoordinate with ⟨other, hlisted, heq⟩
    have hother := (hmem other).1 (Catalog.mem_of_mem_ofList hlisted)
    rw [heq, hget, Option.some.injEq] at hother
    exact hother ▸ hlisted

theorem Sound.mem_coordinates_artifacts {resolver : Resolver Memory} (h : Sound resolver)
    {c : Coordinate}
    : c ∈ coordinates resolver.artifacts ↔ c ∈ resolver.order := by
  rw [mem_coordinates, h.mem_order, Option.isSome_iff_exists]
  constructor
  . rintro ⟨summary, hmem, rfl⟩
    exact ⟨summary, h.mem_artifacts.1 hmem⟩
  . rintro ⟨summary, hget⟩
    have hcoordinate := h.coordinate_eq c summary hget
    refine ⟨summary, ?_, hcoordinate⟩
    rw [h.mem_artifacts, hcoordinate, hget]

theorem Sound.mem_order_iff {supply : Supply} {resolver : Resolver Memory} {r : Coordinate}
    {summary : Summary} (h : Sound resolver) (hget : resolver.get? r = some summary)
    (hyields : Yields supply r summary) (hreaches : ∀ x ∈ resolver.order, Reaches supply r x)
    {c : Coordinate}
    : c ∈ resolver.order ↔ c = r ∨ c ∈ coordinates summary.flattened := by
  constructor
  . intro hc
    rw [hyields.mem_flattened, ← Relation.reflTransGen_iff_eq_or_transGen]
    exact hreaches c hc
  . rintro (rfl | hc)
    . rw [h.mem_order, hget]
      rfl
    . rcases mem_coordinates.1 hc with ⟨d, hd, rfl⟩
      rw [h.mem_order, (h.dependency_done r summary hget d (.inr hd)).1]
      rfl

/--
What a resolver comes to know while it asks the provider for some artifacts in turn: an artifact of
the overlay counts, and any other one is as the provider says when it is first asked for it.
-/
def supplyAfter (resolver : Resolver Memory) (asked : List Coordinate) : Supply where
  artifact c :=
    match resolver.overlay.get? c with
    | some artifact => .ok artifact
    | none => resolver.provider.firstAnswer resolver.tree resolver.memory asked c
  symbols := ClassSource.symbolsAt resolver.tree resolver.skipDebug

theorem supplyAfter_eq_supply {resolver : Resolver Memory}
    (h : resolver.provider.Steady resolver.tree resolver.memory) (asked : List Coordinate)
    : resolver.supplyAfter asked = resolver.supply := by
  have hartifact : (resolver.supplyAfter asked).artifact = resolver.supply.artifact := by
    funext c
    unfold supplyAfter supply
    dsimp only
    cases resolver.overlay.get? c with
    | some artifact => rfl
    | none => exact h.firstAnswer_eq asked c
  change Supply.mk (resolver.supplyAfter asked).artifact _ = _
  rw [hartifact]
  rfl

theorem agrees_supplyAfter (resolver : Resolver Memory) {asked : List Coordinate} (h : asked.Nodup)
    : Agrees (resolver.supplyAfter asked) resolver.fresh asked where
  overlay c artifact hget := by
    change resolver.overlay.get? c = some artifact at hget
    simp [supplyAfter, hget]
  answers earlier c hstart hnone := by
    change resolver.overlay.get? c = none at hnone
    simp only [supplyAfter, hnone]
    exact Provider.firstAnswer_eq _ _ _ h hstart
  symbols := rfl

theorem resolve?_of_addRoot {c : Coordinate} {before after : Resolver Memory} {summary : Summary}
    (h : (addRoot c).run before = (.ok summary, after))
    : ∃ ended roots,
        resolve? c before = some (.ok summary, ended) ∧ after = { ended with roots } := by
  rw [run_addRoot] at h
  rcases resolve_run c before with hrun | ⟨error, hrun⟩
  . cases hended : (resolve c).run before with
    | mk answer ended =>
      rw [hended] at h hrun
      cases answer with
      | error error => cases h
      | ok other =>
        cases h
        split
        . exact ⟨ended, ended.roots, hrun, rfl⟩
        . exact ⟨ended, ended.roots ++ [summary], hrun, rfl⟩
  . rw [hrun] at h
    cases h

theorem exists_addRoot_of_resolve? {c : Coordinate} {before ended : Resolver Memory}
    {summary : Summary} (h : resolve? c before = some (.ok summary, ended))
    : ∃ after, (addRoot c).run before = (.ok summary, after) := by
  have hresolve : (resolve c).run before = (.ok summary, ended) := by
    change (resolve? c before).getD _ = _
    rw [h]
    rfl
  rw [run_addRoot, hresolve]
  exact ⟨_, rfl⟩

theorem exists_addRoot_of_clean {resolver : Resolver Memory} {c : Coordinate}
    (hcache : resolver.cache = none)
    (hsteady : resolver.provider.Steady resolver.tree resolver.memory)
    (h : Clean resolver.supply c)
    : ∃ summary after, (addRoot c).run resolver.fresh = (.ok summary, after) := by
  rcases h.exists_yields with ⟨summary, hyields⟩
  rcases resolve?_of_yields hcache hsteady hyields (recalls_fresh resolver) (by simp) with
    ⟨after, hrun⟩
  exact ⟨summary, exists_addRoot_of_resolve? hrun⟩

/--
What a fresh resolver without a cache has resolved after a root was added is the root and all that it
depends on, directly or through others, and the latter are the dependencies that the summary of the
root tells. A resolved summary declares what its artifact does, in the order of the artifact and each
dependency once. The provider is asked once for each resolved artifact that is not in the overlay,
and counts as it answers then.
-/
theorem addRoot_fresh (resolver : Resolver Memory) (r : Coordinate) {summary : Summary}
    {after : Resolver Memory} (hcache : resolver.cache = none)
    (h : (addRoot r).run resolver.fresh = (.ok summary, after))
    : ∃ asked : List Coordinate,
        asked.Nodup
          ∧ (∀ c, c ∈ asked ↔ c ∈ coordinates after.artifacts ∧ resolver.overlay.get? c = none)
          ∧ after.memory = resolver.provider.memoryAfter resolver.tree resolver.memory asked
          ∧ (resolver.provider.Steady resolver.tree resolver.memory →
              resolver.supplyAfter asked = resolver.supply)
          ∧ (summary ∈ after.artifacts ∧ summary.coordinate = r)
          ∧ (∀ c, c ∈ coordinates after.artifacts ↔ c = r ∨ c ∈ coordinates summary.flattened)
          ∧ (∀ c, c ∈ coordinates summary.flattened
              ↔ Relation.TransGen (resolver.supplyAfter asked).DependsOn r c)
          ∧ ∀ other ∈ after.artifacts, ∃ artifact,
              (resolver.supplyAfter asked).artifact other.coordinate = .ok artifact
                ∧ coordinates other.declared = artifact.dependencies.eraseDups := by
  have hafter : Sound after := by
    have := ((consistent_fresh resolver).addRoot r).1
    rw [h] at this
    exact this.toSound
  rcases resolve?_of_addRoot h with ⟨ended, roots, hrun, rfl⟩
  rcases resolve?_rightly r resolver.fresh _ hrun hcache with
    ⟨asked, new, hpasses, hasked, hright⟩
  have hget := (resolve?_sound r resolver.fresh _ hrun (consistent_fresh resolver).toSound).2.2
    summary rfl
  have horder : ended.order = new := hpasses.order_eq
  have hperm : asked.Perm (resolver.provided new) := hasked summary rfl
  -- Only now that no artifact was asked for twice it is clear which answer counts.
  have hnodup : asked.Nodup := by
    rw [hperm.nodup_iff, ← horder]
    exact hafter.order_nodup.filter _
  rcases hright _ [] (agrees_supplyAfter resolver hnodup) (knows_fresh _ resolver) with
    ⟨hknows, hyields, hreaches⟩
  have hdone : { ended with roots }.get? r = some summary := hget
  have hkeys : ∀ c, c ∈ coordinates { ended with roots }.artifacts ↔ c ∈ new := by
    intro c
    rw [hafter.mem_coordinates_artifacts, ← horder]
  refine ⟨asked, hnodup, ?_, hpasses.memory_eq, fun h => supplyAfter_eq_supply h asked, ?_, ?_, ?_,
    ?_⟩
  . intro c
    rw [hperm.mem_iff, provided, List.mem_filter, Option.isNone_iff_eq_none, hkeys]
  . have hcoordinate := hafter.coordinate_eq r summary hdone
    rw [hafter.mem_artifacts, hcoordinate]
    exact ⟨hdone, rfl⟩
  . intro c
    rw [hafter.mem_coordinates_artifacts]
    exact hafter.mem_order_iff hdone hyields (horder ▸ hreaches)
  . intro c
    exact hyields.mem_flattened
  . intro other hother
    have hother : ended.get? other.coordinate = some other := hafter.mem_artifacts.1 hother
    exact (hknows.yields other.coordinate other hother).coordinates_declared

theorem addRoot_fresh_sharedDependency :
    let a := Coordinate.ofParts "g" "a" "1"
    let b := Coordinate.ofParts "g" "b" "1"
    let leaf := Coordinate.ofParts "g" "leaf" "1"
    let inventory : Inventory :=
      ((CoordinateMap.insert ∅ a ⟨⟨"x.pom"⟩, [leaf, b, leaf]⟩).insert b ⟨⟨"x.pom"⟩, [leaf]⟩).insert
        leaf ⟨⟨"x.pom"⟩, []⟩
    let resolver : Resolver Unit :=
      { provider := inventory.provider
        memory := ()
        tree := ⟨.directory [("x.pom", .file .empty)], []⟩ }
    ∃ summary after, (addRoot a).run resolver.fresh = (.ok summary, after)
      ∧ (∀ c, c ∈ coordinates after.artifacts ↔ c = a ∨ c = b ∨ c = leaf)
      ∧ coordinates summary.declared = [leaf, b] := by
  intro a b leaf inventory resolver
  have hanswer : ∀ c artifact, inventory.get? c = some artifact →
      resolver.supply.artifact c = .ok artifact := by
    intro c artifact hget
    change inventory.fetch c = _
    rw [Inventory.fetch, hget]
  have ha : resolver.supply.artifact a = .ok ⟨⟨"x.pom"⟩, [leaf, b, leaf]⟩ :=
    hanswer a _ (by decide)
  have hb : resolver.supply.artifact b = .ok ⟨⟨"x.pom"⟩, [leaf]⟩ := hanswer b _ (by decide)
  have hleaf : resolver.supply.artifact leaf = .ok ⟨⟨"x.pom"⟩, []⟩ := hanswer leaf _ (by decide)
  have hsymbols : resolver.supply.symbols ⟨"x.pom"⟩ = .ok ∅ := by decide +kernel
  have hsteady : resolver.provider.Steady resolver.tree resolver.memory := fun _ _ => rfl
  have hclean : Clean resolver.supply a := by
    have hclean : Clean resolver.supply leaf := .intro hleaf hsymbols (by simp)
    have hclean' : Clean resolver.supply b := .intro hb hsymbols (by simp [hclean])
    exact .intro ha hsymbols (by simp [hclean, hclean'])
  have hreached : ∀ c, Relation.TransGen resolver.supply.DependsOn a c ↔ c = b ∨ c = leaf := by
    intro c
    constructor
    . intro h
      induction h with
      | single hdepends =>
        have hmem := (dependsOn_iff ha).1 hdepends
        simp only [List.mem_cons, List.not_mem_nil, or_false] at hmem
        tauto
      | tail _ hdepends ih =>
        rcases ih with rfl | rfl
        . exact .inr (List.mem_singleton.1 ((dependsOn_iff hb).1 hdepends))
        . simp [dependsOn_iff hleaf] at hdepends
    . rintro (rfl | rfl)
      . exact .single ((dependsOn_iff ha).2 (by simp))
      . exact .single ((dependsOn_iff ha).2 (by simp))
  rcases exists_addRoot_of_clean rfl hsteady hclean with ⟨summary, after, hrun⟩
  rcases addRoot_fresh resolver a rfl hrun with
    ⟨asked, _, _, _, hsupply, ⟨hlisted, hcoordinate⟩, hkeys, hflattened, hdeclared⟩
  rw [hsupply hsteady] at hflattened hdeclared
  refine ⟨summary, after, hrun, ?_, ?_⟩
  . intro c
    rw [hkeys, hflattened, hreached]
  . rcases hdeclared summary hlisted with ⟨artifact, hartifact, heq⟩
    rw [hcoordinate, ha, Except.ok.injEq] at hartifact
    rw [heq, ← hartifact]
    decide

end Resolver
end ArtifactAudit
