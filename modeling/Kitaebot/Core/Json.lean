import Mathlib.Data.List.Basic
import Mathlib.Data.String.Basic

/-!
# JSON messages on a stream

JSON values, their compact text and its framing on a byte stream: one message a
line.  A text has no line end inside, so the lines of a stream are its messages.
-/

namespace Kitaebot.Json

/-- A number that is no integer, by its text. -/
structure FloatText where
  text : List Char
  plain : ∀ symbol ∈ text, symbol ∈ "0123456789+-.e".toList

inductive Number where
  | unsigned (value : UInt64)
  | signed (value : Int64)
  | float (text : FloatText)

inductive Value where
  | null
  | bool (value : Bool)
  | number (value : Number)
  | string (text : String)
  | array (items : List Value)
  | object (fields : List (String × Value))

namespace Value

/-! ### Access -/

/-- The field of an object. -/
def get (key : String) : Value → Option Value
  | object fields => fields.lookup key
  | _ => none

def asU64 : Value → Option UInt64
  | number (.unsigned value) => some value
  | _ => none

/-- An integer, if it fits into 64 bits with a sign. -/
def asI64 : Value → Option ℤ
  | number (.unsigned value) =>
      if value.toNat < 2 ^ 63 then some value.toNat else none
  | number (.signed value) => some value.toInt
  | _ => none

def asStr : Value → Option String
  | string text => some text
  | _ => none

def asBool : Value → Option Bool
  | bool value => some value
  | _ => none

def asArray : Value → Option (List Value)
  | array items => some items
  | _ => none

/-! ### Text -/

def decimal (value : ℕ) : List Char := Nat.toDigits 10 value

def renderNumber : Number → List Char
  | .unsigned value => decimal value.toNat
  | .signed value =>
      if value.toInt < 0 then '-' :: decimal value.toInt.natAbs
      else decimal value.toInt.natAbs
  | .float text => text.text

/-- A symbol of a string: quotes, backslashes and controls are escaped. -/
def escapeChar (symbol : Char) : List Char :=
  if symbol = '"' then ['\\', '"']
  else if symbol = '\\' then ['\\', '\\']
  else if symbol = '\n' then ['\\', 'n']
  else if symbol = '\r' then ['\\', 'r']
  else if symbol = '\t' then ['\\', 't']
  else if symbol.toNat = 8 then ['\\', 'b']
  else if symbol.toNat = 12 then ['\\', 'f']
  else if symbol.toNat < 32 then
    ['\\', 'u', '0', '0', Nat.digitChar (symbol.toNat / 16),
      Nat.digitChar (symbol.toNat % 16)]
  else [symbol]

def renderString (text : String) : List Char :=
  '"' :: text.toList.flatMap escapeChar ++ ['"']

mutual

/-- The compact text of a value. -/
def render : Value → List Char
  | null => "null".toList
  | bool true => "true".toList
  | bool false => "false".toList
  | number value => renderNumber value
  | string text => renderString text
  | array [] => ['[', ']']
  | array (item :: items) => '[' :: render item ++ renderItems items
  | object [] => ['\x7b', '\x7d']
  | object ((key, value) :: fields) =>
      '\x7b' :: renderString key ++ ':' :: render value ++ renderFields fields

def renderItems : List Value → List Char
  | [] => [']']
  | item :: items => ',' :: render item ++ renderItems items

def renderFields : List (String × Value) → List Char
  | [] => ['\x7d']
  | (key, value) :: fields =>
      ',' :: renderString key ++ ':' :: render value ++ renderFields fields

end

/-! ### Texts are lines -/

theorem newline_not_mem_decimal (value : ℕ) : '\n' ∉ decimal value := by
  intro hmem
  have hdigit := Nat.isDigit_of_mem_toDigits (by decide) (by decide) hmem
  cases hdigit

theorem newline_not_mem_escapeChar (symbol : Char) : '\n' ∉ escapeChar symbol := by
  have hdigit : ∀ value < 16, '\n' ≠ Nat.digitChar value := by decide
  unfold escapeChar
  split_ifs with hquote hslash hline hreturn htab hback hfeed hcontrol
  · decide
  · decide
  · decide
  · decide
  · decide
  · decide
  · decide
  · simp [hdigit _ (Nat.mod_lt _ (by decide)),
      hdigit (symbol.toNat / 16) (by omega)]
  · simpa using Ne.symm hline

theorem newline_not_mem_renderString (text : String) : '\n' ∉ renderString text := by
  simp [renderString, newline_not_mem_escapeChar]

theorem newline_not_mem_renderNumber (number : Number) :
    '\n' ∉ renderNumber number := by
  cases number with
  | unsigned value => exact newline_not_mem_decimal _
  | signed value =>
      rw [renderNumber]
      split <;> simp [newline_not_mem_decimal]
  | float text =>
      intro hmem
      exact absurd (text.plain _ hmem) (by decide)

mutual

/-- The text of a value is one line. -/
theorem newline_not_mem_render : (value : Value) → '\n' ∉ render value
  | null => by simp [render]
  | bool true => by simp [render]
  | bool false => by simp [render]
  | number value => newline_not_mem_renderNumber value
  | string text => newline_not_mem_renderString text
  | array [] => by simp [render]
  | array (item :: items) => by
      simp [render, newline_not_mem_render item, newline_not_mem_renderItems items]
  | object [] => by simp [render]
  | object ((key, value) :: fields) => by
      simp [render, newline_not_mem_renderString key, newline_not_mem_render value,
        newline_not_mem_renderFields fields]

theorem newline_not_mem_renderItems :
    (items : List Value) → '\n' ∉ renderItems items
  | [] => by simp [renderItems]
  | item :: items => by
      simp [renderItems, newline_not_mem_render item,
        newline_not_mem_renderItems items]

theorem newline_not_mem_renderFields :
    (fields : List (String × Value)) → '\n' ∉ renderFields fields
  | [] => by simp [renderFields]
  | (key, value) :: fields => by
      simp [renderFields, newline_not_mem_renderString key,
        newline_not_mem_render value, newline_not_mem_renderFields fields]

end

end Value

/-! ### Framing -/

abbrev Bytes := List UInt8

def utf8 (text : List Char) : Bytes := text.flatMap String.utf8EncodeChar

def newline : UInt8 := 10

/-- Only a line end has the byte of a line end. -/
theorem newline_mem_utf8EncodeChar {symbol : Char}
    (hmem : newline ∈ String.utf8EncodeChar symbol) : symbol = '\n' := by
  have hbyte (value : ℕ) : newline = UInt8.ofNat value ↔ value % 256 = 10 := by
    rw [← UInt8.toNat_inj, UInt8.toNat_ofNat', eq_comm]
    rfl
  unfold String.utf8EncodeChar at hmem
  simp only at hmem
  split_ifs at hmem with hone htwo hthree
  · rw [List.mem_singleton, hbyte] at hmem
    apply Char.toNat_inj.1
    change symbol.val.toNat = 10
    omega
  all_goals
    simp only [List.mem_cons, List.not_mem_nil, or_false, hbyte] at hmem
    omega

theorem newline_not_mem_utf8 {text : List Char} (htext : '\n' ∉ text) :
    newline ∉ utf8 text := by
  intro hmem
  obtain ⟨symbol, hsymbol, hbyte⟩ := List.mem_flatMap.1 hmem
  exact htext (newline_mem_utf8EncodeChar hbyte ▸ hsymbol)

/-- A message without its line end. -/
def body (message : Value) : Bytes := utf8 message.render

/-- A message as it is sent. -/
def line (message : Value) : Bytes := body message ++ [newline]

def lines (messages : List Value) : Bytes := messages.flatMap line

@[simp]
theorem lines_nil : lines [] = [] := rfl

theorem lines_concat (messages : List Value) (message : Value) :
    lines (messages ++ [message]) = lines messages ++ line message := by
  rw [lines, List.flatMap_append, List.flatMap_singleton, lines]

theorem newline_not_mem_body (message : Value) : newline ∉ body message :=
  newline_not_mem_utf8 message.newline_not_mem_render

/-- The lines of a stream are its messages and what came after them. -/
theorem splitOn_lines (messages : List Value) {part : Bytes}
    (hpart : newline ∉ part) :
    (lines messages ++ part).splitOn newline = messages.map body ++ [part] := by
  induction messages with
  | nil => exact List.splitOn_eq_singleton hpart
  | cons message messages ih =>
      rw [lines, List.flatMap_cons, ← lines, line, List.append_assoc,
        List.append_assoc, List.singleton_append,
        List.splitOn_append_cons_self_of_not_mem (newline_not_mem_body message), ih,
        List.map_cons, List.cons_append]

/-! ### How a text begins -/

/-- Only a brace has the byte of a brace. -/
theorem brace_of_utf8EncodeChar {symbol : Char} {rest : Bytes}
    (hhead : String.utf8EncodeChar symbol = 123 :: rest) :
    symbol = '\x7b' ∧ rest = [] := by
  have hbyte (value : ℕ) : UInt8.ofNat value = 123 ↔ value % 256 = 123 := by
    rw [← UInt8.toNat_inj, UInt8.toNat_ofNat']
    rfl
  unfold String.utf8EncodeChar at hhead
  simp only at hhead
  split_ifs at hhead with hone htwo hthree
  · rw [List.cons.injEq, hbyte] at hhead
    refine ⟨?_, hhead.2.symm⟩
    apply Char.toNat_inj.1
    change symbol.val.toNat = 123
    omega
  all_goals
    rw [List.cons.injEq, hbyte] at hhead
    omega

theorem utf8_cons (symbol : Char) (text : List Char) :
    utf8 (symbol :: text) = String.utf8EncodeChar symbol ++ utf8 text :=
  List.flatMap_cons

/-- A text whose first byte is that of a brace starts with one. -/
theorem brace_of_utf8 {text : List Char} {rest : Bytes}
    (hhead : utf8 text = 123 :: rest) :
    ∃ later, text = '\x7b' :: later ∧ rest = utf8 later := by
  cases text with
  | nil => cases hhead
  | cons symbol later =>
      rw [utf8_cons] at hhead
      cases hencode : String.utf8EncodeChar symbol with
      | nil => exact absurd hencode String.utf8EncodeChar_ne_nil
      | cons first others =>
          rw [hencode, List.cons_append, List.cons.injEq] at hhead
          obtain ⟨rfl, hrest⟩ := hhead
          obtain ⟨rfl, rfl⟩ := brace_of_utf8EncodeChar hencode
          exact ⟨later, rfl, hrest.symm⟩

theorem brace_not_mem_renderNumber (number : Number) :
    '\x7b' ∉ Value.renderNumber number := by
  have hdecimal (value : ℕ) : '\x7b' ∉ Value.decimal value := by
    intro hmem
    cases Nat.isDigit_of_mem_toDigits (by decide) (by decide) hmem
  cases number with
  | unsigned value => exact hdecimal _
  | signed value =>
      rw [Value.renderNumber]
      split <;> simp [hdecimal]
  | float text =>
      intro hmem
      exact absurd (text.plain _ hmem) (by decide)

/-- After the brace of an object comes its end or the quote of a key. -/
theorem render_brace {value : Value} {later : List Char}
    (hrender : value.render = '\x7b' :: later) :
    ∃ rest, later = '\x7d' :: rest ∨ later = '"' :: rest := by
  cases value with
  | null => simp [Value.render] at hrender
  | bool value => cases value <;> simp [Value.render] at hrender
  | number number =>
      rw [Value.render] at hrender
      exact absurd (hrender ▸ List.mem_cons_self) (brace_not_mem_renderNumber number)
  | string text => simp [Value.render, Value.renderString] at hrender
  | array items => cases items <;> simp [Value.render] at hrender
  | object fields =>
      cases fields with
      | nil =>
          rw [Value.render, List.cons.injEq] at hrender
          exact ⟨_, .inl hrender.2.symm⟩
      | cons field fields =>
          simp only [Value.render, Value.renderString, List.cons_append,
            List.cons.injEq, true_and] at hrender
          exact ⟨_, .inr hrender.symm⟩

/-- No stream of messages starts with two braces. -/
theorem lines_ne_braces (messages : List Value) (rest : Bytes) :
    lines messages ≠ 123 :: 123 :: rest := by
  intro hlines
  cases messages with
  | nil => cases hlines
  | cons message messages =>
      rw [lines, List.flatMap_cons, line, body, List.append_assoc] at hlines
      cases hbody : utf8 message.render with
      | nil =>
          rw [hbody] at hlines
          cases hlines
      | cons first bytes =>
          rw [hbody, List.cons_append, List.cons.injEq] at hlines
          obtain ⟨rfl, hrest⟩ := hlines
          obtain ⟨later, hrender, rfl⟩ := brace_of_utf8 hbody
          obtain ⟨text, rfl | rfl⟩ := render_brace hrender <;> cases hrest

/-! ### Equality -/

deriving instance DecidableEq for FloatText, Number

namespace Value

mutual

/-- The values are the same. -/
def beq : Value → Value → Bool
  | null, null => true
  | bool first, bool second => first == second
  | number first, number second => decide (first = second)
  | string first, string second => first == second
  | array first, array second => beqItems first second
  | object first, object second => beqFields first second
  | _, _ => false

def beqItems : List Value → List Value → Bool
  | [], [] => true
  | first :: firsts, second :: seconds => beq first second && beqItems firsts seconds
  | _, _ => false

def beqFields : List (String × Value) → List (String × Value) → Bool
  | [], [] => true
  | (firstKey, first) :: firsts, (secondKey, second) :: seconds =>
      firstKey == secondKey && beq first second && beqFields firsts seconds
  | _, _ => false

end

mutual

theorem beq_iff : (first second : Value) → (beq first second = true ↔ first = second)
  | null, second => by cases second <;> simp [beq]
  | bool value, second => by cases second <;> simp [beq]
  | number value, second => by cases second <;> simp [beq]
  | string text, second => by cases second <;> simp [beq]
  | array items, second => by
      cases second <;> simp [beq, beqItems_iff]
  | object fields, second => by
      cases second <;> simp [beq, beqFields_iff]

theorem beqItems_iff : (first second : List Value) →
    (beqItems first second = true ↔ first = second)
  | [], second => by cases second <;> simp [beqItems]
  | item :: items, second => by
      cases second <;> simp [beqItems, beq_iff item, beqItems_iff items]

theorem beqFields_iff : (first second : List (String × Value)) →
    (beqFields first second = true ↔ first = second)
  | [], second => by cases second <;> simp [beqFields]
  | (key, value) :: fields, second => by
      cases second with
      | nil => simp [beqFields]
      | cons other others =>
          simp [beqFields, beq_iff value, beqFields_iff fields, Prod.ext_iff]

end

instance : DecidableEq Value := fun first second =>
  decidable_of_iff (beq first second = true) (beq_iff first second)

end Value

end Kitaebot.Json
