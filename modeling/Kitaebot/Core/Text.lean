import Mathlib.Data.List.Infix
import Mathlib.Data.List.TakeDrop
import Mathlib.Data.String.Basic

/-!
# Texts

The string operations of the standard library that several channels share,
and what it means for one text to stand inside another.
-/

namespace Kitaebot.Text

/-- Equal up to the case of ASCII letters. -/
def eqIgnoreAsciiCase (first second : String) : Bool :=
  first.toList.map Char.toLower == second.toList.map Char.toLower

/-- The Unicode `White_Space` property. -/
def isWhitespace (symbol : Char) : Bool :=
  let code := symbol.toNat
  (9 ≤ code && code ≤ 13) || code == 0x20 || code == 0x85 || code == 0xA0 ||
    code == 0x1680 || (0x2000 ≤ code && code ≤ 0x200A) || code == 0x2028 ||
    code == 0x2029 || code == 0x202F || code == 0x205F || code == 0x3000

def trim (text : String) : String :=
  String.ofList (((text.toList.dropWhile isWhitespace).reverse.dropWhile
    isWhitespace).reverse)

def splitOnce (separator : Char) (text : String) : Option (String × String) :=
  match text.toList.span (· != separator) with
  | (before, _ :: after) => some (String.ofList before, String.ofList after)
  | (_, []) => none

def rsplitOnce (separator : Char) (text : String) : Option (String × String) :=
  match text.toList.reverse.span (· != separator) with
  | (after, _ :: before) =>
      some (String.ofList before.reverse, String.ofList after.reverse)
  | (_, []) => none

/-- The texts between the separators, the last one first. -/
def rsplit (separator : Char) (text : String) : List String :=
  ((text.toList.splitOn separator).map String.ofList).reverse

def contains (part text : String) : Bool :=
  text.toList.tails.any fun rest => part.toList.isPrefixOf rest

/-- The text starts with the opening. -/
def opens (opening text : String) : Bool :=
  opening.toList.isPrefixOf text.toList

/-- Every copy of a part taken off the beginning. -/
def trimStart (part text : String) : String :=
  String.ofList (go part.toList text.toList.length text.toList)
where
  go (part : List Char) : ℕ → List Char → List Char
    | 0, symbols => symbols
    | steps + 1, symbols =>
        if part.isPrefixOf symbols then go part steps (symbols.drop part.length)
        else symbols

def stripSuffix (suffix text : String) : Option String :=
  if suffix.toList.isSuffixOf text.toList then
    some (String.ofList
      (text.toList.take (text.toList.length - suffix.toList.length)))
  else none

/-- The first bytes, where they end between two symbols. -/
def firstBytes (count : ℕ) (text : String) : Option String :=
  go count [] text.toList
where
  go : ℕ → List Char → List Char → Option String
    | 0, taken, _ => some (String.ofList taken.reverse)
    | _ + 1, _, [] => none
    | count + 1, taken, symbol :: rest =>
        if symbol.utf8Size ≤ count + 1 then
          go (count + 1 - symbol.utf8Size) (symbol :: taken) rest
        else none
  termination_by structural _ _ rest => rest

/-- The symbols that fit into a number of bytes. -/
def leadingSymbols : ℕ → List Char → List Char
  | _, [] => []
  | bytes, symbol :: rest =>
      if symbol.utf8Size ≤ bytes then
        symbol :: leadingSymbols (bytes - symbol.utf8Size) rest
      else []

/-- The longest beginning of whole symbols of at most so many bytes. -/
def leading (text : String) (maxBytes : ℕ) : String :=
  String.ofList (leadingSymbols maxBytes text.toList)

/-- The longest end of whole symbols of at most so many bytes. -/
def trailing (text : String) (maxBytes : ℕ) : String :=
  String.ofList (leadingSymbols maxBytes text.toList.reverse).reverse

/-- An unsigned 32-bit number in decimal, with an optional plus sign. -/
def parseU32 (text : String) : Option UInt32 :=
  let digits := match text.toList with
    | '+' :: digits => digits
    | digits => digits
  if digits.isEmpty || !digits.all Char.isDigit then none
  else
    let value := Nat.ofDigitChars 10 digits 0
    if value < UInt32.size then some (UInt32.ofNat value) else none

theorem rsplitOnce_append (separator : Char) (before after : String)
    (hafter : separator ∉ after.toList) :
    rsplitOnce separator (before ++ String.ofList [separator] ++ after) =
      some (before, after) := by
  have hspan : (before ++ String.ofList [separator] ++ after).toList.reverse =
      after.toList.reverse ++ separator :: before.toList.reverse := by
    simp
  have hcut : (after.toList.reverse ++ separator :: before.toList.reverse).span
      (· != separator) =
        (after.toList.reverse, separator :: before.toList.reverse) := by
    have hall : ∀ symbol ∈ after.toList.reverse, (symbol != separator) = true := by
      intro symbol hmem
      rw [List.mem_reverse] at hmem
      exact bne_iff_ne.2 fun heq => hafter (heq ▸ hmem)
    rw [List.span_eq_takeWhile_dropWhile,
      List.takeWhile_append_of_pos hall, List.dropWhile_append_of_pos hall]
    simp
  rw [rsplitOnce, hspan, hcut]
  simp

theorem isDigit_of_repr {value : ℕ} {symbol : Char}
    (hmem : symbol ∈ (toString value).toList) : symbol.isDigit = true := by
  rw [Nat.toString_eq_repr, Nat.toList_repr] at hmem
  exact Nat.isDigit_of_mem_toDigits (by omega) (by omega) hmem

theorem size_repr_le {value digits : ℕ} (hvalue : value < 10 ^ (digits + 1)) :
    (toString value).utf8ByteSize ≤ digits + 1 := by
  have hdigit : ∀ digit < 10, digit.repr.utf8ByteSize ≤ 1 := by decide
  rw [Nat.toString_eq_repr]
  induction digits generalizing value with
  | zero => exact hdigit value hvalue
  | succ digits ih =>
      by_cases hsmall : value < 10
      · exact (hdigit value hsmall).trans (Nat.le_add_left _ _)
      · have hrest : value / 10 < 10 ^ (digits + 1) := by
          rw [Nat.div_lt_iff_lt_mul (by decide), ← Nat.pow_succ]
          exact hvalue
        have hlast := hdigit (value % 10) (Nat.mod_lt _ (by decide))
        rw [Nat.repr_eq_repr_append_repr (Nat.le_of_not_lt hsmall),
          String.utf8ByteSize_append]
        exact Nat.add_le_add (ih hrest) hlast

theorem parseU32_repr (number : UInt32) :
    parseU32 (toString number.toNat) = some number := by
  have hlist : (toString number.toNat).toList =
      Nat.toDigits 10 number.toNat := by
    rw [Nat.toString_eq_repr, Nat.toList_repr]
  have hdigits : (Nat.toDigits 10 number.toNat).all Char.isDigit = true :=
    List.all_eq_true.2 fun symbol hmem =>
      Nat.isDigit_of_mem_toDigits (by omega) (by omega) hmem
  have hplus : (match Nat.toDigits 10 number.toNat with
      | '+' :: digits => digits
      | digits => digits) = Nat.toDigits 10 number.toNat := by
    split
    · rename_i heq
      rw [heq] at hdigits
      simp at hdigits
    · rfl
  simp only [parseU32]
  rw [hlist, hplus, hdigits]
  have hne : (Nat.toDigits 10 number.toNat).isEmpty = false := by
    rw [List.isEmpty_eq_false_iff]
    exact Nat.toDigits_ne_nil
  rw [hne]
  simp [Nat.ofDigitChars_toDigits, UInt32.toNat_lt_size]

/-- A text that does not begin with the part gets back out from under it. -/
theorem trimStart_append {part text : String} (hpart : part ≠ "")
    (hplain : ¬ part.toList <+: text.toList) : trimStart part (part ++ text) = text := by
  obtain ⟨symbol, symbols, hsymbols⟩ : ∃ symbol symbols, part.toList = symbol :: symbols :=
    List.exists_cons_of_ne_nil fun hnil => hpart (by rw [← String.ofList_toList (s := part), hnil])
  have hrest : ∀ steps, trimStart.go part.toList steps text.toList = text.toList := by
    intro steps
    cases steps with
    | zero => rfl
    | succ steps =>
        rw [trimStart.go, if_neg]
        rw [List.isPrefixOf_iff_prefix]
        exact hplain
  have hgo : trimStart.go part.toList (part.toList ++ text.toList).length
      (part.toList ++ text.toList) = text.toList := by
    have hlength : (part.toList ++ text.toList).length =
        (symbols ++ text.toList).length + 1 := by
      rw [hsymbols, List.cons_append, List.length_cons]
    have hprefix : part.toList.isPrefixOf (part.toList ++ text.toList) = true :=
      List.isPrefixOf_iff_prefix.2 (List.prefix_append _ _)
    rw [hlength, trimStart.go, if_pos hprefix, List.drop_left]
    exact hrest _
  rw [trimStart, String.toList_append, hgo, String.ofList_toList]

/-- The text contains the part. -/
def Includes (text part : String) : Prop :=
  ∃ before after, text = before ++ part ++ after

theorem Includes.refl (text : String) : Includes text text :=
  ⟨"", "", by simp⟩

theorem Includes.trans {text middle part : String}
    (hmiddle : Includes text middle) (hpart : Includes middle part) :
    Includes text part := by
  obtain ⟨before, after, rfl⟩ := hmiddle
  obtain ⟨before', after', rfl⟩ := hpart
  exact ⟨before ++ before', after' ++ after, by simp [String.append_assoc]⟩

theorem Includes.append_right {text part : String} (after : String)
    (hpart : Includes text part) : Includes (text ++ after) part := by
  obtain ⟨before, rest, rfl⟩ := hpart
  exact ⟨before, rest ++ after, by simp [String.append_assoc]⟩

theorem Includes.append_left {text part : String} (before : String)
    (hpart : Includes text part) : Includes (before ++ text) part := by
  obtain ⟨front, rest, rfl⟩ := hpart
  exact ⟨before ++ front, rest, by simp [String.append_assoc]⟩

theorem Includes.last (before part : String) : Includes (before ++ part) part :=
  (Includes.refl part).append_left before

@[simp]
theorem includes_empty (text : String) : Includes text "" :=
  ⟨"", text, by simp⟩

theorem includes_intercalate (separator : String) {text : String}
    {texts : List String} (hmem : text ∈ texts) :
    Includes (separator.intercalate texts) text := by
  induction texts with
  | nil => cases hmem
  | cons first texts ih =>
      cases texts with
      | nil =>
          rw [List.mem_singleton] at hmem
          rw [String.intercalate_singleton, hmem]
          exact Includes.refl first
      | cons second texts =>
          rw [String.intercalate_cons_cons]
          rcases List.mem_cons.1 hmem with rfl | hmem
          · exact ((Includes.refl text).append_right _).append_right _
          · exact (ih hmem).append_left _

theorem includes_join {text : String} {texts : List String}
    (hmem : text ∈ texts) : Includes (String.join texts) text := by
  obtain ⟨before, after, rfl⟩ := List.append_of_mem hmem
  rw [String.join_append, String.join_cons]
  exact ((Includes.refl text).append_right _).append_left _

theorem Includes.size_le {text part : String} (hpart : Includes text part) :
    part.utf8ByteSize ≤ text.utf8ByteSize := by
  obtain ⟨before, after, rfl⟩ := hpart
  rw [String.utf8ByteSize_append, String.utf8ByteSize_append]
  omega

/-- The text names the author and holds the body. -/
def Mentions (text login body : String) : Prop :=
  Includes text login ∧ Includes text body

theorem Mentions.of_includes {text part login body : String}
    (hpart : Mentions part login body) (hincludes : Includes text part) :
    Mentions text login body :=
  ⟨hincludes.trans hpart.1, hincludes.trans hpart.2⟩

theorem opens_refl (opening : String) : opens opening opening = true :=
  List.isPrefixOf_iff_prefix.2 (List.prefix_refl _)

theorem opens_append {opening text : String} (after : String)
    (hopens : opens opening text = true) :
    opens opening (text ++ after) = true := by
  rw [opens, List.isPrefixOf_iff_prefix] at hopens ⊢
  rw [String.toList_append]
  exact hopens.trans (List.prefix_append _ _)

theorem opens_prepend {opening text : String} (before : String)
    (hopens : opens opening text = true) :
    opens (before ++ opening) (before ++ text) = true := by
  rw [opens, List.isPrefixOf_iff_prefix] at hopens ⊢
  rw [String.toList_append, String.toList_append]
  exact (List.prefix_append_right_inj _).2 hopens

/-- A text does not start with two openings that differ at once. -/
theorem not_opens {opening other message : String} {first second : Char}
    {rest others : List Char} (hopening : opening.toList = first :: rest)
    (hother : other.toList = second :: others) (hne : first ≠ second)
    (hopens : opens opening message = true) :
    opens other message = false := by
  rw [Bool.eq_false_iff]
  intro hopens'
  rw [opens, List.isPrefixOf_iff_prefix] at hopens hopens'
  obtain ⟨after, hafter⟩ := hopens
  obtain ⟨after', hafter'⟩ := hopens'
  rw [← hafter, hopening, hother] at hafter'
  exact hne (List.cons.inj hafter').1.symm

theorem opens_iff {opening text : String} :
    opens opening text = true ↔ ∃ rest, text = opening ++ rest := by
  rw [opens, List.isPrefixOf_iff_prefix]
  constructor
  · rintro ⟨rest, hrest⟩
    refine ⟨String.ofList rest, String.toList_inj.1 ?_⟩
    rw [String.toList_append, String.toList_ofList, hrest]
  · rintro ⟨rest, rfl⟩
    rw [String.toList_append]
    exact List.prefix_append _ _

/-- A text that starts with one opening does not start with another, unless one of
them starts with the other. -/
theorem not_opens_of_apart {opening other text : String}
    (hopens : opens opening text = true) (hfirst : opens opening other = false)
    (hsecond : opens other opening = false) : opens other text = false := by
  rw [Bool.eq_false_iff] at hfirst hsecond ⊢
  intro hother
  rw [opens, List.isPrefixOf_iff_prefix] at hopens hother
  rcases List.prefix_or_prefix_of_prefix hopens hother with hprefix | hprefix
  · exact hfirst (List.isPrefixOf_iff_prefix.2 hprefix)
  · exact hsecond (List.isPrefixOf_iff_prefix.2 hprefix)

theorem prefix_append_cons_iff {Symbol : Type} {part before after : List Symbol}
    {barrier : Symbol} (hbarrier : barrier ∉ part) :
    part <+: before ++ barrier :: after ↔ part <+: before := by
  constructor
  · intro hpart
    rcases List.prefix_or_prefix_of_prefix hpart (List.prefix_append before _) with
      hshort | ⟨rest, rfl⟩
    · exact hshort
    · cases rest with
      | nil => rw [List.append_nil]
      | cons first rest =>
          rw [List.prefix_append_right_inj, List.cons_prefix_cons] at hpart
          rw [hpart.1] at hbarrier
          exact absurd (List.mem_append_right _ List.mem_cons_self) hbarrier
  · exact fun hpart => hpart.trans (List.prefix_append _ _)

/-- A part without a symbol stands on one side of it. -/
theorem infix_append_cons_iff {Symbol : Type} {part before after : List Symbol}
    {barrier : Symbol} (hbarrier : barrier ∉ part) :
    part <:+: before ++ barrier :: after ↔ part <:+: before ∨ part <:+: after := by
  induction before with
  | nil =>
      rw [List.nil_append, List.infix_cons_iff]
      refine or_congr_left ⟨fun hpart => ?_, fun hpart => ?_⟩
      · have hnil := (@prefix_append_cons_iff Symbol part [] after barrier hbarrier).1 hpart
        exact hnil.isInfix
      · rw [List.infix_nil.1 hpart]
        exact List.nil_prefix
  | cons first before ih =>
      rw [List.cons_append, List.infix_cons_iff, ih, List.infix_cons_iff,
        ← List.cons_append, prefix_append_cons_iff hbarrier, or_assoc]

/-- A part without any of the symbols of a block stands before or after it. -/
theorem infix_append_append {Symbol : Type} {part before block after : List Symbol}
    (hpart : part ≠ []) (hblock : block ≠ [])
    (hbarrier : ∀ symbol ∈ block, symbol ∉ part)
    (hwithin : part <:+: before ++ (block ++ after)) :
    part <:+: before ∨ part <:+: after := by
  induction block generalizing before with
  | nil => exact absurd rfl hblock
  | cons symbol block ih =>
      rw [List.forall_mem_cons] at hbarrier
      rw [List.cons_append, infix_append_cons_iff hbarrier.1] at hwithin
      refine hwithin.imp_right fun hlater => ?_
      cases block with
      | nil => exact hlater
      | cons next block =>
          have hsplit : part <:+: [] ∨ part <:+: after :=
            ih (List.cons_ne_nil _ _) hbarrier.2 hlater
          refine hsplit.resolve_left fun hnil => hpart (List.infix_nil.1 hnil)

theorem contains_iff {part text : String} :
    contains part text = true ↔ part.toList <:+: text.toList := by
  rw [contains, List.any_eq_true]
  constructor
  · rintro ⟨rest, hrest, hprefix⟩
    exact (List.isPrefixOf_iff_prefix.1 hprefix).isInfix.trans
      ((List.mem_tails _ _).1 hrest).isInfix
  · rintro ⟨before, after, heq⟩
    refine ⟨part.toList ++ after, (List.mem_tails _ _).2 ⟨before, ?_⟩,
      List.isPrefixOf_iff_prefix.2 (List.prefix_append _ _)⟩
    rw [← heq, List.append_assoc]

theorem contains_of_includes {part text whole : String}
    (hcontains : contains part text = true) (hwhole : Includes whole text) :
    contains part whole = true := by
  obtain ⟨before, after, rfl⟩ := hwhole
  rw [contains_iff] at hcontains ⊢
  rw [String.toList_append, String.toList_append]
  exact hcontains.trans ⟨before.toList, after.toList, rfl⟩

end Kitaebot.Text
