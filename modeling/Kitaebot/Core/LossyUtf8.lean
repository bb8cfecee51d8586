import Mathlib.Algebra.GroupWithZero.Nat
import Mathlib.Data.List.Basic
import Mathlib.Data.Nat.Notation

/-!
# Bytes read as text

Bytes that are UTF-8 are read as what they encode.  Each other part is read as one
replacement symbol: the longest beginning of a symbol that is broken off, or a byte that
begins none.
-/

namespace Kitaebot.LossyUtf8

abbrev Bytes := List UInt8

def replacement : Char := '\uFFFD'

/-- A symbol that has begun: its bits so far, the bytes it still takes after the next
one, and between which bytes the next one lies. -/
structure Begun where
  bits : ℕ
  owed : ℕ
  low : ℕ
  high : ℕ

/-- A byte at the beginning of a symbol. -/
def first (byte : ℕ) : List Char × Option Begun :=
  if byte < 0x80 then ([Char.ofNat byte], none)
  else if byte < 0xC2 then ([replacement], none)
  else if byte < 0xE0 then ([], some ⟨byte - 0xC0, 0, 0x80, 0xBF⟩)
  else if byte < 0xF0 then
    ([], some ⟨byte - 0xE0, 1, if byte = 0xE0 then 0xA0 else 0x80,
      if byte = 0xED then 0x9F else 0xBF⟩)
  else if byte < 0xF5 then
    ([], some ⟨byte - 0xF0, 2, if byte = 0xF0 then 0x90 else 0x80,
      if byte = 0xF4 then 0x8F else 0xBF⟩)
  else ([replacement], none)

/-- A byte inside a symbol. -/
def next (begun : Begun) (byte : ℕ) : List Char × Option Begun :=
  let bits := begun.bits * 64 + (byte - 0x80)
  if begun.low ≤ byte ∧ byte ≤ begun.high then
    match begun.owed with
    | 0 => ([Char.ofNat bits], none)
    | owed + 1 => ([], some ⟨bits, owed, 0x80, 0xBF⟩)
  else (replacement :: (first byte).1, (first byte).2)

/-- Read on from a symbol that may have begun. -/
def decodeFrom : Option Begun → Bytes → List Char
  | none, [] => []
  | some _, [] => [replacement]
  | none, byte :: rest => (first byte.toNat).1 ++ decodeFrom (first byte.toNat).2 rest
  | some begun, byte :: rest =>
      (next begun byte.toNat).1 ++ decodeFrom (next begun byte.toNat).2 rest

/-- `String::from_utf8_lossy`. -/
def decode (bytes : Bytes) : List Char := decodeFrom none bytes

/-! ### What is UTF-8 is read back -/

/-- A byte that lies where the symbol takes one. -/
theorem next_of_within {begun : Begun} {byte : ℕ} (hlow : begun.low ≤ byte)
    (hhigh : byte ≤ begun.high) :
    next begun byte =
      match begun.owed with
      | 0 => ([Char.ofNat (begun.bits * 64 + (byte - 0x80))], none)
      | owed + 1 => ([], some ⟨begun.bits * 64 + (byte - 0x80), owed, 0x80, 0xBF⟩) := by
  rw [next, if_pos ⟨hlow, hhigh⟩]

/-- The last bytes of a symbol. -/
theorem decodeFrom_last {bits value low high : ℕ} (rest : Bytes)
    (hvalue : bits * 64 + value % 64 = value) (hlow : low ≤ value % 64 + 0x80)
    (hhigh : value % 64 + 0x80 ≤ high) :
    decodeFrom (some ⟨bits, 0, low, high⟩)
        (UInt8.ofNat (value % 64 + 0x80) :: rest) =
      Char.ofNat value :: decode rest := by
  have hbyte : (UInt8.ofNat (value % 64 + 0x80)).toNat = value % 64 + 0x80 := by
    rw [UInt8.toNat_ofNat']
    omega
  rw [decodeFrom, hbyte, next_of_within hlow hhigh]
  simp only
  rw [Nat.add_sub_cancel, hvalue]
  rfl

theorem decodeFrom_inner {bits value owed low high : ℕ} (rest : Bytes)
    (hvalue : bits * 64 + value % 64 = value) (hlow : low ≤ value % 64 + 0x80)
    (hhigh : value % 64 + 0x80 ≤ high) :
    decodeFrom (some ⟨bits, owed + 1, low, high⟩)
        (UInt8.ofNat (value % 64 + 0x80) :: rest) =
      decodeFrom (some ⟨value, owed, 0x80, 0xBF⟩) rest := by
  have hbyte : (UInt8.ofNat (value % 64 + 0x80)).toNat = value % 64 + 0x80 := by
    rw [UInt8.toNat_ofNat']
    omega
  rw [decodeFrom, hbyte, next_of_within hlow hhigh]
  simp only
  rw [Nat.add_sub_cancel, hvalue]
  rfl

theorem decode_utf8EncodeChar (symbol : Char) (rest : Bytes) :
    decode (String.utf8EncodeChar symbol ++ rest) = symbol :: decode rest := by
  have hsymbol : Char.ofNat symbol.val.toNat = symbol := Char.ofNat_toNat symbol
  have hvalid : symbol.val.toNat < 0xD800 ∨
      0xDFFF < symbol.val.toNat ∧ symbol.val.toNat < 0x110000 := symbol.valid
  unfold String.utf8EncodeChar
  simp only
  generalize symbol.val.toNat = value at hsymbol hvalid ⊢
  split_ifs with hone htwo hthree
  · have hbyte : (UInt8.ofNat value).toNat = value := by
      rw [UInt8.toNat_ofNat']
      omega
    rw [List.singleton_append, decode, decodeFrom, hbyte, first, if_pos (by omega), hsymbol]
    rfl
  · have hbyte : (UInt8.ofNat (value / 64 % 32 + 192)).toNat = value / 64 + 192 := by
      rw [UInt8.toNat_ofNat']
      omega
    rw [List.cons_append, List.singleton_append, decode, decodeFrom, hbyte, first,
      if_neg (by omega), if_neg (by omega), if_pos (by omega), Nat.add_sub_cancel,
      List.nil_append, decodeFrom_last rest (by omega) (by omega) (by omega), hsymbol]
  · have hbyte : (UInt8.ofNat (value / 4096 % 16 + 224)).toNat = value / 4096 + 224 := by
      rw [UInt8.toNat_ofNat']
      omega
    rw [List.cons_append, List.cons_append, List.singleton_append, decode, decodeFrom, hbyte,
      first, if_neg (by omega), if_neg (by omega), if_neg (by omega), if_pos (by omega),
      Nat.add_sub_cancel, List.nil_append,
      decodeFrom_inner _ (by omega) (by split_ifs <;> omega) (by split_ifs <;> omega),
      decodeFrom_last rest (by omega) (by omega) (by omega), hsymbol]
  · have hbyte : (UInt8.ofNat (value / 262144 % 8 + 240)).toNat = value / 262144 + 240 := by
      rw [UInt8.toNat_ofNat']
      omega
    rw [List.cons_append, List.cons_append, List.cons_append, List.singleton_append, decode,
      decodeFrom, hbyte, first, if_neg (by omega), if_neg (by omega), if_neg (by omega),
      if_neg (by omega), if_pos (by omega), Nat.add_sub_cancel, List.nil_append,
      decodeFrom_inner _ (by omega) (by split_ifs <;> omega) (by split_ifs <;> omega),
      decodeFrom_inner _ (by omega) (by omega) (by omega),
      decodeFrom_last rest (by omega) (by omega) (by omega), hsymbol]

/-- UTF-8 is read back as the text it encodes. -/
theorem decode_utf8 (text : List Char) (rest : Bytes) :
    decode (text.flatMap String.utf8EncodeChar ++ rest) = text ++ decode rest := by
  induction text with
  | nil => rfl
  | cons symbol text ih =>
      rw [List.flatMap_cons, List.append_assoc, decode_utf8EncodeChar, ih, List.cons_append]

/-! ### What is read has no other line ends -/

theorem ofNat_ne_newline {value : ℕ} (hvalue : value ≠ 10) : Char.ofNat value ≠ '\n' := by
  by_cases hvalid : value.isValidChar
  · rw [Char.ofNat, dif_pos hvalid]
    exact fun heq => hvalue (congrArg Char.toNat heq)
  · rw [Char.ofNat, dif_neg hvalid]
    decide

/-- However a symbol goes on, it is beyond the symbols of one byte. -/
def Begun.Long (begun : Begun) : Prop :=
  128 ≤ (begun.bits * 64 + (begun.low - 0x80)) * 64 ^ begun.owed

theorem first_long {byte : ℕ} {begun : Begun} (hbegun : (first byte).2 = some begun) :
    begun.Long := by
  unfold first at hbegun
  split_ifs at hbegun
  all_goals
    rw [Option.some.injEq] at hbegun
    rw [← hbegun, Begun.Long]
    simp only
    omega

theorem newline_mem_first {byte : ℕ} (hmem : '\n' ∈ (first byte).1) : byte = 10 := by
  unfold first at hmem
  split_ifs at hmem
  all_goals simp only [List.mem_singleton, List.not_mem_nil] at hmem
  · by_contra hbyte
    exact ofNat_ne_newline hbyte hmem.symm
  · cases hmem
  · cases hmem

theorem next_long {begun later : Begun} {byte : ℕ} (hlong : begun.Long)
    (hlater : (next begun byte).2 = some later) : later.Long := by
  rw [next] at hlater
  split_ifs at hlater with hwithin
  · cases howed : begun.owed with
    | zero =>
        rw [howed] at hlater
        cases hlater
    | succ owed =>
        rw [howed, Option.some.injEq] at hlater
        rw [← hlater, Begun.Long]
        rw [Begun.Long, howed, Nat.pow_succ'] at hlong
        calc 128
            ≤ (begun.bits * 64 + (begun.low - 0x80)) * (64 * 64 ^ owed) := hlong
          _ ≤ (begun.bits * 64 + (byte - 0x80)) * (64 * 64 ^ owed) :=
              Nat.mul_le_mul_right _ (by omega)
          _ = ((begun.bits * 64 + (byte - 0x80)) * 64 + (0x80 - 0x80)) * 64 ^ owed := by
              rw [Nat.sub_self, Nat.add_zero, Nat.mul_assoc]
  · exact first_long hlater

theorem newline_mem_next {begun : Begun} {byte : ℕ} (hlong : begun.Long)
    (hmem : '\n' ∈ (next begun byte).1) : byte = 10 := by
  rw [next] at hmem
  split_ifs at hmem with hwithin
  · cases howed : begun.owed with
    | zero =>
        rw [howed] at hmem
        rw [Begun.Long, howed, Nat.pow_zero, Nat.mul_one] at hlong
        exact absurd (List.mem_singleton.1 hmem).symm (ofNat_ne_newline (by omega))
    | succ owed =>
        rw [howed] at hmem
        cases hmem
  · rcases List.mem_cons.1 hmem with heq | hfirst
    · cases heq
    · exact newline_mem_first hfirst

theorem newline_mem_decodeFrom {pending : Option Begun} {bytes : Bytes}
    (hpending : ∀ begun, pending = some begun → begun.Long)
    (hmem : '\n' ∈ decodeFrom pending bytes) : 10 ∈ bytes := by
  induction bytes generalizing pending with
  | nil =>
      cases pending with
      | none => cases hmem
      | some begun => cases List.mem_singleton.1 hmem
  | cons byte rest ih =>
      have hbyte (hten : byte.toNat = 10) : (10 : UInt8) ∈ byte :: rest := by
        have heq : byte = 10 := UInt8.toNat_inj.1 hten
        rw [heq]
        exact List.mem_cons_self
      cases pending with
      | none =>
          rw [decodeFrom, List.mem_append] at hmem
          rcases hmem with hmem | hmem
          · exact hbyte (newline_mem_first hmem)
          · exact List.mem_cons_of_mem byte (ih (fun _ => first_long) hmem)
      | some begun =>
          have hlong := hpending begun rfl
          rw [decodeFrom, List.mem_append] at hmem
          rcases hmem with hmem | hmem
          · exact hbyte (newline_mem_next hlong hmem)
          · exact List.mem_cons_of_mem byte (ih (fun _ => next_long hlong) hmem)

/-- Only a line end is read as one. -/
theorem newline_mem_decode {bytes : Bytes} (hmem : '\n' ∈ decode bytes) : 10 ∈ bytes := by
  refine newline_mem_decodeFrom ?_ hmem
  intro begun hnone
  cases hnone

end Kitaebot.LossyUtf8
