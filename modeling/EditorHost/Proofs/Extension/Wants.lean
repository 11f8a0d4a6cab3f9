import EditorHost.Extension.Manifest
import EditorHost.Proofs.Text.Octets

/-!
# Which events activate an extension

A declared event activates an extension when it happens, with two exceptions: the star stands for
every event, and what a workspace has to contain is not looked at, so that such an event stands for
every event while a workspace is open, and for none otherwise.  Commands and languages that are
contributed count as declared.

## Contents

* `ActivationEvent.text_ofText`: events are told apart by their texts.
* `Manifest.activatesOn_iff` spells out when an extension is activated.
-/

namespace EditorHost

namespace ActivationEvent

/-- The text of an event. -/
def text : ActivationEvent → String
  | always => "*"
  | onStartupFinished => "onStartupFinished"
  | onLanguage id => "onLanguage:" ++ id
  | onCommand name => "onCommand:" ++ name
  | workspaceContains pattern => "workspaceContains:" ++ pattern
  | other text => text

theorem splitTextOnce_eq_some {text before behind : String} :
    Text.splitTextOnce ':' text = some (before, behind) ↔
      text = before ++ ":" ++ behind ∧ ':' ∉ before.toList := by
  rw [Text.splitTextOnce, Option.map_eq_some_iff]
  constructor
  · rintro ⟨⟨cs, ds⟩, hsplit, heq⟩
    cases heq
    obtain ⟨htext, hnot⟩ := Text.splitOnce_iff.mp hsplit
    refine ⟨String.toList_inj.mp ?_, by rwa [String.toList_ofList]⟩
    simpa using htext
  · rintro ⟨rfl, hnot⟩
    refine ⟨(before.toList, behind.toList), Text.splitOnce_iff.mpr ⟨by simp, hnot⟩, ?_⟩
    simp only [String.ofList_toList]

/-- Events are told apart by their texts. -/
theorem text_ofText (t : String) : (ofText t).text = t := by
  unfold ofText
  split
  next h => exact h.symm
  split
  next h => exact h.symm
  split
  next id h => exact (splitTextOnce_eq_some.mp h).1.symm
  next name h => exact (splitTextOnce_eq_some.mp h).1.symm
  next pattern h => exact (splitTextOnce_eq_some.mp h).1.symm
  · rfl

theorem ofText_inj {t u : String} : ofText t = ofText u ↔ t = u :=
  (Function.LeftInverse.injective text_ofText).eq_iff

/-- A text with a colon in it is none of the two that stand for themselves. -/
theorem colon_cases (before behind : String) (hnot : ':' ∉ before.toList) :
    before ++ ":" ++ behind ≠ "*" ∧ before ++ ":" ++ behind ≠ "onStartupFinished" ∧
      Text.splitTextOnce ':' (before ++ ":" ++ behind) = some (before, behind) := by
  have hcolon : ':' ∈ (before ++ ":" ++ behind).toList := by simp
  refine ⟨fun heq => ?_, fun heq => ?_, splitTextOnce_eq_some.mpr ⟨rfl, hnot⟩⟩
  · rw [heq] at hcolon
    revert hcolon
    decide
  · rw [heq] at hcolon
    revert hcolon
    decide

theorem ofText_eq_always {t : String} : ofText t = always ↔ t = "*" :=
  ofText_inj (u := "*")

theorem ofText_eq_onLanguage {t id : String} :
    ofText t = onLanguage id ↔ t = "onLanguage:" ++ id := by
  have hof : ofText ("onLanguage" ++ ":" ++ id) = onLanguage id := by
    obtain ⟨hstar, hstartup, hsplit⟩ := colon_cases "onLanguage" id (by decide)
    rw [ofText, if_neg hstar, if_neg hstartup, hsplit]
    rfl
  rw [← hof]
  exact ofText_inj

theorem ofText_eq_onCommand {t name : String} :
    ofText t = onCommand name ↔ t = "onCommand:" ++ name := by
  have hof : ofText ("onCommand" ++ ":" ++ name) = onCommand name := by
    obtain ⟨hstar, hstartup, hsplit⟩ := colon_cases "onCommand" name (by decide)
    rw [ofText, if_neg hstar, if_neg hstartup, hsplit]
    rfl
  rw [← hof]
  exact ofText_inj

theorem ofText_eq_workspaceContains {t pattern : String} :
    ofText t = workspaceContains pattern ↔ t = "workspaceContains:" ++ pattern := by
  have hof : ofText ("workspaceContains" ++ ":" ++ pattern) = workspaceContains pattern := by
    obtain ⟨hstar, hstartup, hsplit⟩ := colon_cases "workspaceContains" pattern (by decide)
    rw [ofText, if_neg hstar, if_neg hstartup, hsplit]
    rfl
  rw [← hof]
  exact ofText_inj

end ActivationEvent

namespace Manifest

open ActivationEvent

variable {event : String} {workspaceOpen : Bool}

theorem covers_iff {declared : String} :
    covers workspaceOpen (ofText event) (ofText declared) = true ↔
      declared = "*" ∨
      (∃ pattern, declared = "workspaceContains:" ++ pattern) ∧ workspaceOpen = true ∨
      declared = event ∧ ∀ pattern, event ≠ "workspaceContains:" ++ pattern := by
  simp only [← ofText_eq_always, ← ofText_eq_workspaceContains, ne_eq]
  rw [← ofText_inj (t := declared)]
  cases ofText declared <;> cases ofText event <;> simp [covers]

theorem any_covers_iff {declared : List String} :
    (declared.any fun text => covers workspaceOpen (ofText event) (ofText text)) = true ↔
      "*" ∈ declared ∨
      (∃ pattern, "workspaceContains:" ++ pattern ∈ declared) ∧ workspaceOpen = true ∨
      event ∈ declared ∧ ∀ pattern, event ≠ "workspaceContains:" ++ pattern := by
  simp only [List.any_eq_true, covers_iff]
  constructor
  · rintro ⟨text, hmem, rfl | ⟨⟨pattern, rfl⟩, hopen⟩ | ⟨rfl, hother⟩⟩
    · exact .inl hmem
    · exact .inr (.inl ⟨⟨pattern, hmem⟩, hopen⟩)
    · exact .inr (.inr ⟨hmem, hother⟩)
  · rintro (hmem | ⟨⟨pattern, hmem⟩, hopen⟩ | ⟨hmem, hother⟩)
    · exact ⟨_, hmem, .inl rfl⟩
    · exact ⟨_, hmem, .inr (.inl ⟨⟨pattern, rfl⟩, hopen⟩)⟩
    · exact ⟨_, hmem, .inr (.inr ⟨rfl, hother⟩)⟩

/-- An extension is activated if it declares the star, or something that the workspace has to
contain while one is open, or the event itself, unless that is one of those; or if it contributes
the command or the language of the event. -/
theorem activatesOn_iff (m : Manifest) : m.activatesOn event workspaceOpen = true ↔
    "*" ∈ m.activationEvents ∨
    (∃ pattern, "workspaceContains:" ++ pattern ∈ m.activationEvents) ∧ workspaceOpen = true ∨
    event ∈ m.activationEvents ∧ (∀ pattern, event ≠ "workspaceContains:" ++ pattern) ∨
    (∃ c ∈ m.contributes.commands, event = "onCommand:" ++ c.command) ∨
    ∃ l ∈ m.contributes.languages, event = "onLanguage:" ++ l.id := by
  rw [activatesOn, Bool.or_eq_true, any_covers_iff]
  simp only [or_assoc]
  refine or_congr_right (or_congr_right (or_congr_right ?_))
  simp only [← ofText_eq_onCommand, ← ofText_eq_onLanguage]
  cases ofText event with
  | onLanguage id => simpa using exists_congr fun l => and_congr_right fun _ => eq_comm
  | onCommand name => simpa using exists_congr fun c => and_congr_right fun _ => eq_comm
  | _ => simp

end Manifest

end EditorHost
