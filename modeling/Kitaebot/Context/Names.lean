import Kitaebot.Core.Substitute

/-!
# Session names

Storage keeps a session under its sanitized name; what is listed is the name with
its slashes back.  A sanitized name survives the round trip, so no two stored
sessions are listed under one name.
-/

namespace Kitaebot.Context

open Substitute

/-- `str::replace`. -/
def replaceText (pattern replacement text : String) : String :=
  .ofList (replace pattern.toList replacement.toList text.toList)

def sanitizeName (name : String) : String :=
  replaceText "/" "--" (replaceText ".." "" (replaceText "\x00" "" name))

def desanitizeName (stem : String) : String :=
  replaceText "--" "/" stem

def displayName (session : String) : String := desanitizeName session

/-- What a session can be stored under. -/
structure Sanitized (stem : String) : Prop where
  noNul : '\x00' ∉ stem.toList
  noSlash : '/' ∉ stem.toList
  noParent : Single '.' stem.toList

instance (stem : String) : Decidable (Sanitized stem) :=
  decidable_of_iff
    ('\x00' ∉ stem.toList ∧ '/' ∉ stem.toList ∧ Single '.' stem.toList)
    ⟨fun h => ⟨h.1, h.2.1, h.2.2⟩, fun h => ⟨h.noNul, h.noSlash, h.noParent⟩⟩

theorem toList_sanitizeName (name : String) :
    (sanitizeName name).toList =
      replace ['/'] ['-', '-'] (replace ['.', '.'] []
        (replace ['\x00'] [] name.toList)) := by
  simp only [sanitizeName, replaceText, String.toList_ofList]
  rfl

theorem toList_desanitizeName (stem : String) :
    (desanitizeName stem).toList = replace ['-', '-'] ['/'] stem.toList := by
  simp only [desanitizeName, replaceText, String.toList_ofList]
  rfl

theorem sanitized_sanitizeName (name : String) : Sanitized (sanitizeName name) := by
  have hnul : '\x00' ∉ replace ['.', '.'] [] (replace ['\x00'] [] name.toList) := by
    intro hmem
    rcases mem_replace hmem with hnone | hmem
    · cases hnone
    · rw [replace_symbol_nil, List.mem_filter] at hmem
      exact absurd hmem.2 (by decide)
  constructor
  · rw [toList_sanitizeName]
    intro hmem
    rcases mem_replace hmem with hdash | hmem
    · exact absurd hdash (by decide)
    · exact hnul hmem
  · rw [toList_sanitizeName, replace_symbol, List.mem_flatMap]
    rintro ⟨other, _, hmem⟩
    split at hmem
    · exact absurd hmem (by decide)
    · next hother => exact hother (List.mem_singleton.1 hmem).symm
  · rw [toList_sanitizeName]
    exact single_double_mark '-' (by decide) (single_replace_double '.' _)

/-- A text without NULs and parents has only its slashes rewritten. -/
theorem toList_sanitizeName_of_plain {name : String} (hnul : '\x00' ∉ name.toList)
    (hparent : Single '.' name.toList) :
    (sanitizeName name).toList = replace ['/'] ['-', '-'] name.toList := by
  rw [toList_sanitizeName, replace_symbol_self [] hnul, replace_double_self [] hparent]

namespace Sanitized

variable {stem : String} (hstem : Sanitized stem)

include hstem

theorem sanitizeName_eq : sanitizeName stem = stem := by
  apply String.toList_inj.1
  rw [toList_sanitizeName_of_plain hstem.noNul hstem.noParent,
    replace_symbol_self _ hstem.noSlash]

/-- The listed name leads back to the stored one. -/
theorem sanitize_desanitize : sanitizeName (desanitizeName stem) = stem := by
  have hnul : '\x00' ∉ (desanitizeName stem).toList := by
    rw [toList_desanitizeName]
    intro hmem
    rcases mem_replace hmem with hslash | hmem
    · exact absurd hslash (by decide)
    · exact hstem.noNul hmem
  have hparent : Single '.' (desanitizeName stem).toList := by
    rw [toList_desanitizeName]
    exact single_mark_double '-' (by decide) hstem.noParent
  apply String.toList_inj.1
  rw [toList_sanitizeName_of_plain hnul hparent, toList_desanitizeName,
    restore_double hstem.noSlash]

/-- A listed name that is a stored one is listed as it is stored. -/
theorem desanitize_eq_iff {active : String} (hactive : Sanitized active) :
    desanitizeName stem = active ↔ stem = active ∧ desanitizeName active = active := by
  constructor
  · intro heq
    have hsame : stem = active := by
      rw [← hstem.sanitize_desanitize, heq, hactive.sanitizeName_eq]
    exact ⟨hsame, hsame ▸ heq⟩
  · rintro ⟨rfl, heq⟩
    exact heq

end Sanitized

theorem desanitizeName_inj {first second : String} (hfirst : Sanitized first)
    (hsecond : Sanitized second) (heq : desanitizeName first = desanitizeName second) :
    first = second := by
  rw [← hfirst.sanitize_desanitize, heq, hsecond.sanitize_desanitize]

/-- Sanitizing twice is sanitizing once. -/
theorem sanitizeName_idem (name : String) :
    sanitizeName (sanitizeName name) = sanitizeName name :=
  (sanitized_sanitizeName name).sanitizeName_eq

example : sanitizeName "a/../b" = "a----b" := by decide

example : desanitizeName "owner--repo" = "owner/repo" := by decide

end Kitaebot.Context
