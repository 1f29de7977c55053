import ArtifactAudit.Coordinate
import ArtifactAudit.Proofs.Text.Parts

/-!
This module contains the theory of the text of coordinates. Its main statement is that a coordinate that
has been read from a text is read back from its own text, up to a classifier that is empty although the
packaging has another one.
-/

namespace ArtifactAudit
namespace Coordinate

variable {c : Coordinate} {s : String} {parts : List String}

/--
Which coordinate the parts between the colons of a text tell. What the shorter layouts leave out is
filled in.
-/
inductive Told : List String → Coordinate → Prop where
  | plain (group artifact version : String)
    : Told [group, artifact, version] (ofParts group artifact version)
  | packaged (group artifact packaging version : String)
    : Told [group, artifact, packaging, version] (withPackaging group artifact version packaging)
  | classified (group artifact packaging classifier version : String)
    : Told [group, artifact, packaging, classifier, version]
        ⟨group, artifact, version, packaging, classifier⟩

structure Named (c : Coordinate) : Prop where
  group : c.group ≠ ""
  artifact : c.artifact ≠ ""
  version : c.version ≠ ""

theorem named_iff
    : c.Named ↔ ¬ (c.group.isEmpty || c.artifact.isEmpty || c.version.isEmpty) = true := by
  rw [Bool.not_eq_true, Bool.or_eq_false_iff, Bool.or_eq_false_iff, String.isEmpty_eq_false_iff,
    String.isEmpty_eq_false_iff, String.isEmpty_eq_false_iff]
  exact ⟨fun h => ⟨⟨h.group, h.artifact⟩, h.version⟩, fun h => ⟨h.1.1, h.1.2, h.2⟩⟩

theorem ofText?_eq_some_iff
    : ofText? s = some c ↔ Told (Text.parts ':' (Text.trim s)) c ∧ c.Named := by
  unfold ofText?
  extract_lets checked
  have hchecked : ∀ d, checked d = some c ↔ d = c ∧ c.Named := by
    intro d
    dsimp only [checked]
    rw [Option.ite_none_left_eq_some, Option.some.injEq, ← named_iff, and_comm]
    exact and_congr_right fun heq => heq ▸ Iff.rfl
  generalize Text.parts ':' (Text.trim s) = parts
  constructor
  . intro h
    split at h
    . rcases (hchecked _).1 h with ⟨rfl, hnamed⟩
      exact ⟨.plain .., hnamed⟩
    . rcases (hchecked _).1 h with ⟨rfl, hnamed⟩
      exact ⟨.packaged .., hnamed⟩
    . rcases (hchecked _).1 h with ⟨rfl, hnamed⟩
      exact ⟨.classified .., hnamed⟩
    . cases h
  . rintro ⟨htold, hnamed⟩
    cases htold <;> exact (hchecked _).2 ⟨rfl, hnamed⟩

theorem Told.exists_eq (h : Told parts c) : ∃ middle, parts = c.group :: (middle ++ [c.version]) := by
  cases h with
  | plain group artifact version => exact ⟨[artifact], rfl⟩
  | packaged group artifact packaging version => exact ⟨[artifact, packaging], rfl⟩
  | classified group artifact packaging classifier version =>
    exact ⟨[artifact, packaging, classifier], rfl⟩

theorem Told.no_colon (h : Told parts c) (hparts : ∀ part ∈ parts, ':' ∉ part.toList)
    : ∀ field ∈ c.fields, ':' ∉ field.toList := by
  have hpackaging : ':' ∉ defaultPackaging.toList := by decide
  have hclassifier : ∀ packaging, ':' ∉ (defaultClassifier packaging).toList := by
    intro packaging
    unfold defaultClassifier
    split <;> decide
  cases h <;> simp_all [fields, ofParts, withPackaging]

theorem parts_text (h : ∀ field ∈ c.fields, ':' ∉ field.toList)
    : Text.parts ':' c.text
        =
      c.group :: ([c.artifact, c.packaging] ++ (if c.classifier = "" then [] else [c.classifier])
        ++ [c.version]) := by
  have hcolon : ":" = String.singleton ':' := by decide
  have hplain : ∀ field ∈ c.fields, Text.parts ':' field = [field] :=
    fun field hfield => Text.parts_of_notMem (h field hfield)
  simp only [fields, List.forall_mem_cons] at hplain
  rcases hplain with ⟨hgroup, hartifact, hversion, hpackaging, hclassifier, _⟩
  have hfront : Text.parts ':' (c.group ++ ":" ++ c.artifact ++ ":" ++ c.packaging)
      = [c.group, c.artifact, c.packaging] := by
    rw [hcolon, Text.parts_append, Text.parts_append, hgroup, hartifact, hpackaging]
    rfl
  rw [text, hcolon, Text.parts_append, hversion, ← hcolon]
  by_cases hempty : c.classifier = ""
  . rw [if_pos (String.isEmpty_iff.2 hempty), if_pos hempty, String.append_empty, hfront]
    rfl
  . rw [if_neg (mt String.isEmpty_iff.1 hempty), if_neg hempty, ← String.append_assoc, hcolon,
      Text.parts_append, ← hcolon, hfront, hclassifier]
    rfl

theorem trim_text (h : ofText? s = some c) : Text.trim c.text = c.text := by
  rcases ofText?_eq_some_iff.1 h with ⟨htold, hnamed⟩
  rcases htold.exists_eq with ⟨middle, hparts⟩
  have hcolon := htold.no_colon fun part => Text.notMem_of_mem_parts
  apply Text.trim_eq_self
  exact (Text.isTrimmed_trim s).of_parts hparts (parts_text hcolon) hnamed.group hnamed.version

/--
A coordinate with an empty classifier filled in as the packaging has it.
-/
def filled (c : Coordinate) : Coordinate :=
  if c.classifier = "" then withPackaging c.group c.artifact c.version c.packaging else c

theorem Named.filled (h : c.Named) : c.filled.Named := by
  unfold Coordinate.filled
  split <;> exact ⟨h.group, h.artifact, h.version⟩

theorem filled_eq_self_iff : c.filled = c ↔ ¬ (c.packaging = "test-jar" ∧ c.classifier = "") := by
  rcases c with ⟨group, artifact, version, packaging, classifier⟩
  by_cases hempty : classifier = ""
  . by_cases hpackaging : packaging = "test-jar"
    . simp [filled, withPackaging, defaultClassifier, hempty, hpackaging]
    . simp [filled, withPackaging, defaultClassifier, hempty, hpackaging]
  . simp [filled, hempty]

theorem told_text (h : ofText? s = some c) : Told (Text.parts ':' (Text.trim c.text)) c.filled := by
  have hcolon := (ofText?_eq_some_iff.1 h).1.no_colon fun part => Text.notMem_of_mem_parts
  rw [trim_text h, parts_text hcolon, filled]
  split
  . apply Told.packaged
  . apply Told.classified

/--
A coordinate that has been read is read from its own text again. The text leaves out an empty
classifier, and reading fills it in as the packaging has it. This gives another coordinate for test
packages without a classifier, and for nothing else.
-/
theorem ofText?_text (h : ofText? s = some c)
    : ofText? c.text = some c.filled
        ∧ (ofText? c.text = some c ↔ ¬ (c.packaging = "test-jar" ∧ c.classifier = "")) := by
  have hread : ofText? c.text = some c.filled :=
    ofText?_eq_some_iff.2 ⟨told_text h, (ofText?_eq_some_iff.1 h).2.filled⟩
  refine ⟨hread, ?_⟩
  rw [hread, Option.some.injEq, filled_eq_self_iff]

theorem ofText?_text_classified :
    let c : Coordinate := ⟨"g", " a", "1", "", "sources"⟩
    ofText? "\tg: a::sources:1\n" = some c ∧ c.text = "g: a::sources:1" ∧ ofText? c.text = some c := by
  intro c
  have h : ofText? "\tg: a::sources:1\n" = some c := by decide
  have htext : c.text = "g: a::sources:1" := by decide
  exact ⟨h, htext, (ofText?_text h).2.2 (by decide)⟩

/--
A test package with an empty classifier is told by a text of five parts. Its own text has four, which
tell the test package with the usual classifier.
-/
theorem ofText?_text_testPackage :
    let c : Coordinate := ⟨"g", "a", "1", "test-jar", ""⟩
    ofText? "g:a:test-jar::1" = some c ∧ c.text = "g:a:test-jar:1"
      ∧ ofText? c.text = some ⟨"g", "a", "1", "test-jar", "tests"⟩ ∧ ofText? c.text ≠ some c := by
  decide

end Coordinate
end ArtifactAudit
