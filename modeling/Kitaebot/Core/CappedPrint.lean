import Mathlib.Algebra.GroupWithZero.Nat
import Mathlib.Algebra.Order.BigOperators.Group.List

/-!
# Printing under a cap

Pieces of text are printed one after the other while they fit below a cap; each
is charged, and the first that does not fit leaves a note.  Where a piece costs
more bytes than its charge stands for, the difference adds up over the pieces.
-/

namespace Kitaebot.CappedPrint

structure Piece where
  text : String
  charge : ℕ
  /-- Whether it fits, by the cap and what was charged before. -/
  fits : ℕ → ℕ → Bool
  /-- What is left of it where it does not fit. -/
  stop : ℕ → ℕ → String

structure Printed where
  text : String
  used : ℕ
  deriving DecidableEq

/-- The pieces printed in turn; an error is the text as the cap cut it. -/
def print (cap : ℕ) : List Piece → Printed → Except String Printed
  | [], printed => .ok printed
  | piece :: pieces, printed =>
      if piece.fits cap printed.used then
        print cap pieces ⟨printed.text ++ piece.text, printed.used + piece.charge⟩
      else .error (printed.text ++ piece.stop cap printed.used)

def resultText : Except String Printed → String
  | .ok printed => printed.text
  | .error text => text

def totalCharge (pieces : List Piece) : ℕ := (pieces.map Piece.charge).sum

def totalText (pieces : List Piece) : String := String.join (pieces.map Piece.text)

/-- A piece that fits is charged within the cap. -/
def Piece.Sound (piece : Piece) : Prop :=
  ∀ cap used, used ≤ cap → piece.fits cap used = true → used + piece.charge ≤ cap

/-- A charge stands for four bytes; the piece takes at most so many more, and what
is left of it at most so many more than the cap leaves. -/
structure Piece.Within (piece : Piece) (extra cap : ℕ) : Prop where
  text : piece.text.utf8ByteSize ≤ 4 * piece.charge + extra
  stop : ∀ used ≤ cap, (piece.stop cap used).utf8ByteSize ≤ 4 * (cap - used) + extra

variable {cap extra : ℕ} {pieces first second : List Piece} {printed : Printed}

theorem print_append : print cap (first ++ second) printed =
    match print cap first printed with
    | .ok printed => print cap second printed
    | .error text => .error text := by
  induction first generalizing printed with
  | nil => rfl
  | cons piece first ih =>
      rw [List.cons_append, print, print]
      by_cases hfits : piece.fits cap printed.used
      · rw [if_pos hfits, if_pos hfits, ih]
      · rw [if_neg hfits, if_neg hfits]

/-- Nothing is charged above the cap. -/
theorem used_print (hsound : ∀ piece ∈ pieces, piece.Sound) (hused : printed.used ≤ cap)
    {last : Printed} (hprint : print cap pieces printed = .ok last) : last.used ≤ cap := by
  induction pieces generalizing printed with
  | nil =>
      cases hprint
      exact hused
  | cons piece pieces ih =>
      obtain ⟨hpiece, hrest⟩ := List.forall_mem_cons.1 hsound
      rw [print] at hprint
      by_cases hfits : piece.fits cap printed.used
      · rw [if_pos hfits] at hprint
        exact ih hrest (hpiece cap printed.used hused hfits) hprint
      · rw [if_neg hfits] at hprint
        cases hprint

/-- Every piece fits beside what the pieces before it are charged. -/
def Affordable (cap : ℕ) : ℕ → List Piece → Prop
  | _, [] => True
  | used, piece :: pieces =>
      piece.fits cap used = true ∧ Affordable cap (used + piece.charge) pieces

/-- A piece that fits fits below a higher cap. -/
def Piece.Monotone (piece : Piece) : Prop :=
  ∀ cap higher used, cap ≤ higher → piece.fits cap used = true →
    piece.fits higher used = true

/-- A piece fits where its charge and so many tokens more are left. -/
def Piece.FitsWith (piece : Piece) (extra : ℕ) : Prop :=
  ∀ cap used, used + piece.charge + extra ≤ cap → piece.fits cap used = true

theorem totalCharge_cons (piece : Piece) :
    totalCharge (piece :: pieces) = piece.charge + totalCharge pieces := by
  rw [totalCharge, List.map_cons, List.sum_cons, totalCharge]

theorem totalText_cons (piece : Piece) :
    totalText (piece :: pieces) = piece.text ++ totalText pieces := by
  rw [totalText, List.map_cons, String.join_cons, totalText]

theorem Affordable.mono {higher used : ℕ} (hmono : ∀ piece ∈ pieces, piece.Monotone)
    (hcap : cap ≤ higher) (hpieces : Affordable cap used pieces) :
    Affordable higher used pieces := by
  induction pieces generalizing used with
  | nil => trivial
  | cons piece pieces ih =>
      obtain ⟨hpiece, hrest⟩ := List.forall_mem_cons.1 hmono
      exact ⟨hpiece cap higher used hcap hpieces.1, ih hrest hpieces.2⟩

theorem affordable_of_fitsWith {used : ℕ} (hfits : ∀ piece ∈ pieces, piece.FitsWith extra)
    (hcap : used + totalCharge pieces + extra ≤ cap) : Affordable cap used pieces := by
  induction pieces generalizing used with
  | nil => trivial
  | cons piece pieces ih =>
      obtain ⟨hpiece, hrest⟩ := List.forall_mem_cons.1 hfits
      rw [totalCharge_cons] at hcap
      exact ⟨hpiece cap used (by omega), ih hrest (by omega)⟩

/-- What is printed takes four bytes for each unit of the cap, and the extra bytes
once for each piece that was affordable and once more. -/
theorem size_print (hsound : ∀ piece ∈ pieces, piece.Sound)
    (hwithin : ∀ piece ∈ pieces, piece.Within extra cap) (hused : printed.used ≤ cap) :
    ∃ part, part <+: pieces ∧ Affordable cap printed.used part ∧
      (resultText (print cap pieces printed)).utf8ByteSize + 4 * printed.used ≤
        printed.text.utf8ByteSize + 4 * cap + extra * (part.length + 1) := by
  induction pieces generalizing printed with
  | nil =>
      refine ⟨[], List.nil_prefix, trivial, ?_⟩
      rw [print, resultText]
      omega
  | cons piece pieces ih =>
      obtain ⟨hpiece, hrest⟩ := List.forall_mem_cons.1 hsound
      obtain ⟨⟨htext, hstop⟩, hwithins⟩ := List.forall_mem_cons.1 hwithin
      rw [print]
      by_cases hfits : piece.fits cap printed.used
      · rw [if_pos hfits]
        have hcharged : (⟨printed.text ++ piece.text, printed.used + piece.charge⟩ :
            Printed).used ≤ cap := hpiece cap printed.used hused hfits
        obtain ⟨part, hpart, haffordable, hnext⟩ := ih hrest hwithins hcharged
        refine ⟨piece :: part, List.cons_prefix_cons.2 ⟨rfl, hpart⟩, ⟨hfits, haffordable⟩, ?_⟩
        rw [List.length_cons]
        have hextra : extra * (part.length + 1 + 1) = extra * (part.length + 1) + extra :=
          Nat.mul_succ ..
        simp only [String.utf8ByteSize_append] at hnext
        omega
      · refine ⟨[], List.nil_prefix, trivial, ?_⟩
        rw [if_neg hfits, resultText, String.utf8ByteSize_append, List.length_nil]
        have hleft := hstop printed.used hused
        omega

/-- What was printed before stays. -/
theorem text_le_print : printed.text.utf8ByteSize ≤
    (resultText (print cap pieces printed)).utf8ByteSize := by
  induction pieces generalizing printed with
  | nil => exact le_rfl
  | cons piece pieces ih =>
      rw [print]
      by_cases hfits : piece.fits cap printed.used
      · rw [if_pos hfits]
        apply le_trans _ ih
        rw [String.utf8ByteSize_append]
        exact Nat.le_add_right _ _
      · rw [if_neg hfits, resultText, String.utf8ByteSize_append]
        exact Nat.le_add_right _ _

/-- An affordable part is printed. -/
theorem size_le_print {part : List Piece} (hpart : part <+: pieces)
    (haffordable : Affordable cap printed.used part) :
    printed.text.utf8ByteSize + (totalText part).utf8ByteSize ≤
      (resultText (print cap pieces printed)).utf8ByteSize := by
  induction part generalizing pieces printed with
  | nil =>
      rw [totalText, List.map_nil, String.join_nil, String.utf8ByteSize_empty, Nat.add_zero]
      exact text_le_print
  | cons piece part ih =>
      obtain ⟨rest, rfl⟩ := hpart
      have hrest : Affordable cap (⟨printed.text ++ piece.text,
          printed.used + piece.charge⟩ : Printed).used part := haffordable.2
      rw [List.cons_append, print, if_pos haffordable.1, totalText_cons,
        String.utf8ByteSize_append, ← Nat.add_assoc, ← String.utf8ByteSize_append]
      exact ih (List.prefix_append part rest) hrest

/-- Pieces that each take some bytes more than their charge take them all. -/
theorem size_totalText (hover : ∀ piece ∈ pieces,
      4 * piece.charge + extra ≤ piece.text.utf8ByteSize) :
    4 * totalCharge pieces + extra * pieces.length ≤
      (totalText pieces).utf8ByteSize := by
  induction pieces with
  | nil => simp [totalCharge]
  | cons piece pieces ih =>
      obtain ⟨hpiece, hrest⟩ := List.forall_mem_cons.1 hover
      have hnext := ih hrest
      rw [totalCharge_cons, totalText_cons, String.utf8ByteSize_append, List.length_cons,
        Nat.mul_succ]
      omega

/-- Every affordable part is affordable below a cap that its charge nearly comes to. -/
theorem exists_tight_cap {part : List Piece} (hfits : ∀ piece ∈ part, piece.FitsWith extra)
    (haffordable : Affordable cap 0 part) :
    ∃ tight ≤ cap, Affordable tight 0 part ∧ tight ≤ totalCharge part + extra := by
  by_cases hroom : totalCharge part + extra ≤ cap
  · exact ⟨_, hroom, affordable_of_fitsWith hfits (by omega), le_rfl⟩
  · exact ⟨cap, le_rfl, haffordable, by omega⟩

end Kitaebot.CappedPrint
