import ArtifactAudit.Provider.Inventory
import ArtifactAudit.Proofs.Error

/-!
This module contains what resolutions rely on in a provider, and that inventories keep to it.
-/

namespace ArtifactAudit

namespace Provider

variable {Memory : Type}

def answer (provider : Provider Memory) (tree : FileTree) (memory : Memory) (c : Coordinate)
    : Except AuditError Artifact :=
  ((provider.fetch tree c).run memory).1

def memoryAfter (provider : Provider Memory) (tree : FileTree) (memory : Memory)
    (asked : List Coordinate)
    : Memory :=
  asked.foldl (fun memory c => ((provider.fetch tree c).run memory).2) memory

theorem memoryAfter_append (provider : Provider Memory) (tree : FileTree) (memory : Memory)
    (asked more : List Coordinate)
    : provider.memoryAfter tree memory (asked ++ more)
        =
      provider.memoryAfter tree (provider.memoryAfter tree memory asked) more :=
  List.foldl_append

/--
Whether the artifacts of a provider are fixed, whatever it has been asked for before.
-/
def Steady (provider : Provider Memory) (tree : FileTree) (memory : Memory) : Prop :=
  ∀ asked c,
    provider.answer tree (provider.memoryAfter tree memory asked) c = provider.answer tree memory c

/--
What a provider answers for an artifact the first time that it is asked for it, while it is asked for
some artifacts in turn.
-/
def firstAnswer (provider : Provider Memory) (tree : FileTree) (memory : Memory)
    (asked : List Coordinate) (c : Coordinate)
    : Except AuditError Artifact :=
  provider.answer tree (provider.memoryAfter tree memory (asked.takeWhile (· ≠ c))) c

theorem firstAnswer_eq (provider : Provider Memory) (tree : FileTree) (memory : Memory)
    {asked earlier : List Coordinate} {c : Coordinate} (h : asked.Nodup)
    (hstart : earlier ++ [c] <+: asked)
    : provider.firstAnswer tree memory asked c
        =
      provider.answer tree (provider.memoryAfter tree memory earlier) c := by
  rcases hstart with ⟨later, rfl⟩
  have hnew : ∀ d ∈ earlier, decide (d ≠ c) = true := by
    intro d hd
    rw [List.append_assoc] at h
    have := (List.nodup_append.1 h).2.2 d hd c (by simp)
    simpa using this
  unfold firstAnswer
  rw [List.append_assoc, List.takeWhile_append_of_pos hnew]
  simp

theorem Steady.firstAnswer_eq {provider : Provider Memory} {tree : FileTree} {memory : Memory}
    (h : provider.Steady tree memory) (asked : List Coordinate) (c : Coordinate)
    : provider.firstAnswer tree memory asked c = provider.answer tree memory c :=
  h _ c

/--
A provider that has fixed artifacts, with finitely many dependencies in all, and for all others fails
in its own way.
-/
structure Dependable (provider : Provider Memory) (tree : FileTree) (memory : Memory) : Prop where
  steady : provider.Steady tree memory
  finite : ∃ declared : List Coordinate, ∀ c artifact,
    provider.answer tree memory c = .ok artifact → artifact.dependencies ⊆ declared
  notCyclical : ∀ c, NotCyclical (provider.answer tree memory c)

/--
Finitely many artifacts have finitely many dependencies in all.
-/
theorem finite_of_served {provider : Provider Memory} {tree : FileTree} {memory : Memory}
    {served : List Coordinate}
    (h : ∀ c artifact, provider.answer tree memory c = .ok artifact → c ∈ served)
    : ∃ declared : List Coordinate, ∀ c artifact,
        provider.answer tree memory c = .ok artifact → artifact.dependencies ⊆ declared := by
  refine ⟨served.flatMap fun c => (provider.answer tree memory c).toOption.elim [] (·.dependencies), ?_⟩
  intro c artifact hanswer d hd
  apply List.mem_flatMap_of_mem (h c artifact hanswer)
  rw [hanswer]
  exact hd

theorem get?_of_answer_inventory {inventory : Inventory} {tree : FileTree} {memory : Memory}
    {c : Coordinate} {artifact : Artifact}
    (h : (Inventory.provider inventory).answer tree memory c = .ok artifact)
    : inventory.get? c = some artifact := by
  change inventory.fetch c = .ok artifact at h
  unfold Inventory.fetch at h
  split at h
  . next found hget => rw [hget, Except.ok.inj h]
  . cases h

theorem dependable_inventory (inventory : Inventory) (tree : FileTree) (memory : Memory)
    : Dependable inventory.provider tree memory where
  steady _ _ := rfl
  finite := by
    have hserved : ∀ c artifact, inventory.provider.answer tree memory c = .ok artifact →
        c ∈ inventory.entries.map Prod.fst := by
      intro c artifact h
      have hget := get?_of_answer_inventory h
      exact List.mem_map.2 ⟨(c, artifact), CoordinateMap.mem_entries.2 hget, rfl⟩
    exact finite_of_served hserved
  notCyclical c := by
    change NotCyclical (inventory.fetch c)
    unfold Inventory.fetch
    split <;> simp [NotCyclical]

end Provider

end ArtifactAudit
