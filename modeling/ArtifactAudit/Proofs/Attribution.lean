import Mathlib.Data.List.Nodup
import ArtifactAudit.Attribution
import ArtifactAudit.Proofs.DependencySet
import ArtifactAudit.Proofs.PackageTrie.Labels

/-!
This module contains the theory of attribution: the patterns of a summary attribute each class to the
dependencies that define it, and unused and undeclared dependencies are the ones that can be read off
the patterns and the classes of the dependencies.
-/

namespace ArtifactAudit

open ClassFile DependencySet

def IsInternalName (name : String) : Prop :=
  '.' ∉ name.toList ∧ Text.startsWith name "/" = false

instance (name : String) : Decidable (IsInternalName name) :=
  inferInstanceAs (Decidable ('.' ∉ name.toList ∧ Text.startsWith name "/" = false))

theorem toList_externalName (name : String)
    : (externalName name).toList = name.toList.map fun c => if c = '/' then '.' else c := by
  simp [externalName]

theorem externalName_inj {a b : String} (ha : IsInternalName a) (hb : IsInternalName b)
    : externalName a = externalName b ↔ a = b := by
  -- Without dots in the name the slashes are where the dots are afterwards.
  have hundo : ∀ {name : String}, IsInternalName name →
      (externalName name).toList.map (fun c => if c = '.' then '/' else c) = name.toList := by
    intro name hname
    rw [toList_externalName, List.map_map]
    conv => rhs; rw [← List.map_id name.toList]
    apply List.map_congr_left
    intro c hc
    have hdot : c ≠ '.' := fun heq => hname.1 (heq ▸ hc)
    by_cases hslash : c = '/' <;> simp [hslash, hdot]
  constructor
  . intro h
    apply String.toList_injective
    rw [← hundo ha, h, hundo hb]
  . exact congrArg externalName

theorem startsWith_externalName {name : String} (h : IsInternalName name)
    : Text.startsWith (externalName name) "." = false := by
  have hdot : ".".toList = ['.'] := by decide
  have hslash : "/".toList = ['/'] := by decide
  rcases h with ⟨hdots, hstart⟩
  unfold Text.startsWith at *
  rw [toList_externalName, hdot]
  rw [hslash] at hstart
  cases hname : name.toList with
  | nil => rfl
  | cons c cs =>
    rw [hname, List.mem_cons, not_or] at hdots
    rw [hname] at hstart
    have hc : c ≠ '/' := by
      intro heq
      simp [heq] at hstart
    simp [List.isPrefixOf, hc, beq_false_of_ne hdots.1]

namespace Attribution

theorem mem_origins {dependencies : DependencySet} {className name : String}
    : name ∈ origins dependencies className
        ↔
      ∃ d ∈ dependencies, className ∈ d.defined ∧ d.coordinate.name = name := by
  simp [origins, mem_names, and_assoc]

theorem supplies_iff {used : NameSet} {d : Summary}
    : supplies used d = true ↔ ∃ className ∈ used, className ∈ d.defined := by
  unfold supplies NameSet.isEmpty
  rw [Bool.not_eq_true', List.isEmpty_eq_false_iff_exists_mem]
  constructor
  . rintro ⟨className, h⟩
    rw [← NameSet.mem_iff, NameSet.mem_inter] at h
    exact ⟨className, h.2, h.1⟩
  . rintro ⟨className, hused, hdefined⟩
    exact ⟨className, NameSet.mem_iff.1 (NameSet.mem_inter.2 ⟨hdefined, hused⟩)⟩

theorem mem_names_suppliers {dependencies : DependencySet} {used : NameSet} {name : String}
    : name ∈ names (dependencies.filter (supplies used))
        ↔
      ∃ className ∈ used, name ∈ origins dependencies className := by
  simp only [mem_names, List.mem_filter, supplies_iff, mem_origins]
  constructor
  . rintro ⟨d, ⟨hd, className, hused, hdefined⟩, hname⟩
    exact ⟨className, hused, d, hd, hdefined, hname⟩
  . rintro ⟨className, hused, d, hd, hdefined, hname⟩
    exact ⟨d, ⟨hd, className, hused, hdefined⟩, hname⟩

theorem lookup_usages {dependencies : DependencySet} {used : NameSet}
    (hnames : ∀ name ∈ used, IsInternalName name) {className : String} (h : className ∈ used)
    : (usages dependencies used).lookup (externalName className)
        =
      some (origins dependencies className) := by
  apply UsageMap.lookup_compactEntries_of_mem
  . rw [List.map_map]
    have hnodup : used.names.Nodup := by
      refine used.increasing.imp ?_
      intro left right hlt heq
      exact Text.Precedes.irrefl right (heq ▸ hlt)
    apply hnodup.map_on
    intro a ha b hb heq
    exact (externalName_inj (hnames a ha) (hnames b hb)).1 heq
  . rw [List.forall_mem_map]
    intro name hname
    exact startsWith_externalName (hnames name hname)
  . exact List.mem_map.2 ⟨className, h, rfl⟩

theorem exists_mem_usages {dependencies : DependencySet} {used : NameSet}
    (hnames : ∀ name ∈ used, IsInternalName name) {name : String}
    : (∃ entry ∈ (usages dependencies used).entries, name ∈ entry.2)
        ↔
      ∃ className ∈ used, name ∈ origins dependencies className := by
  constructor
  . rintro ⟨⟨key, value⟩, hentry, hname⟩
    have hvalue := PackageTrie.mem_of_mem_compactEntries hentry
    rw [List.map_map] at hvalue
    rcases List.mem_map.1 hvalue with ⟨className, hused, rfl⟩
    exact ⟨className, hused, hname⟩
  . rintro ⟨className, hused, hname⟩
    rcases UsageMap.exists_of_lookup (lookup_usages hnames hused) with ⟨key, hentry⟩
    exact ⟨_, hentry, hname⟩

end Attribution

namespace Summary

open Attribution

/--
What a summary says of dependencies is right: each used class is attributed to all dependencies that
define it, a declared dependency is unused if no pattern names it, and a dependency is undeclared if
it defines a used class and is not declared.
-/
theorem attribution_ofSymbols (c : Coordinate) (declared : DependencySet) (symbols : Symbols)
    (hnames : ∀ name ∈ symbols.used, IsInternalName name)
    : let summary := ofSymbols c declared symbols
      summary.declared = declared
        ∧ summary.flattened = closure declared
        ∧ (∀ className ∈ symbols.used, className ∉ symbols.defined →
          ∃ origins, summary.usages.lookup (externalName className) = some origins
            ∧ ∀ name, name ∈ origins ↔
              ∃ d ∈ summary.flattened, className ∈ d.defined ∧ d.coordinate.name = name)
        ∧ summary.unused = summary.declared.filter (fun d =>
          ∀ entry ∈ summary.usages.entries, d.coordinate.name ∉ entry.2)
        ∧ summary.undeclared = summary.flattened.filter (fun d =>
          d.coordinate ∉ coordinates summary.declared
            ∧ ∃ className ∈ symbols.used.names,
              className ∉ symbols.defined ∧ className ∈ d.defined) := by
  intro summary
  have hused : ∀ name, name ∈ symbols.withoutDefined.used
      ↔ name ∈ symbols.used ∧ name ∉ symbols.defined := fun name => NameSet.mem_sdiff
  have hnames' : ∀ name ∈ symbols.withoutDefined.used, IsInternalName name := by
    intro name h
    exact hnames name ((hused name).1 h).1
  refine ⟨rfl, rfl, ?_, ?_, ?_⟩
  . intro className hclass hdefined
    refine ⟨_, lookup_usages hnames' ((hused className).2 ⟨hclass, hdefined⟩), ?_⟩
    intro name
    apply mem_origins
  . apply List.filter_congr
    intro d _
    rw [decide_eq_decide, mem_names_suppliers, ← exists_mem_usages hnames']
    simp [summary, ofSymbols]
  . change List.filter _ (List.filter _ _) = _
    rw [List.filter_filter]
    apply List.filter_congr
    intro d _
    rw [Bool.eq_iff_iff, Bool.and_eq_true, supplies_iff, decide_eq_true_iff, Bool.not_eq_true',
      ← Bool.not_eq_true, contains_iff]
    simp only [hused, and_assoc]
    rfl

theorem attribution_ofSymbols_sharedClass :
    let x := ofSymbols (.ofParts "g" "x" "1") [] ⟨.ofList ["p/Shared"], ∅⟩
    let y := ofSymbols (.ofParts "g" "y" "1") [] ⟨.ofList ["p/Shared", "q/Q"], ∅⟩
    let b := ofSymbols (.ofParts "g" "b" "1") [y] ⟨.ofList ["b/B", "p/Own"], ∅⟩
    let symbols : Symbols :=
      ⟨.ofList ["a/A", "p/Own"], .ofList ["p/Shared", "p/Own", "java/lang/Object"]⟩
    let summary := ofSymbols (.ofParts "g" "a" "1") [x, b] symbols
    (∀ name ∈ symbols.used, IsInternalName name)
      ∧ (∃ origins, summary.usages.lookup (externalName "p/Shared") = some origins
        ∧ ∀ name, name ∈ origins ↔
          ∃ d ∈ summary.flattened, "p/Shared" ∈ d.defined ∧ d.coordinate.name = name)
      ∧ coordinates summary.unused = [.ofParts "g" "b" "1"]
      ∧ coordinates summary.undeclared = [.ofParts "g" "y" "1"] := by
  intro x y b symbols summary
  have hnames : ∀ name ∈ symbols.used, IsInternalName name := by decide +kernel
  rcases attribution_ofSymbols (.ofParts "g" "a" "1") [x, b] symbols hnames with
    ⟨_, _, hlookup, hunused, hundeclared⟩
  refine ⟨hnames, hlookup "p/Shared" (by decide +kernel) (by decide +kernel), ?_, ?_⟩
  . rw [hunused]
    decide +kernel
  . rw [hundeclared]
    decide +kernel

end Summary
end ArtifactAudit
