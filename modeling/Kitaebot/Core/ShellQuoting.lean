import Kitaebot.Core.Shell

/-!
# Rendering shell words

A word can be written in many ways: each stretch of it bare, behind backslashes or inside
quotes.  However it is written, the reader finds its symbols.
-/

namespace Kitaebot.Shell

/-- The symbols that have to be quoted if they are to stand for themselves. -/
def special : List Char :=
  ['|', '&', ';', '<', '>', '(', ')', '$', '\x60', '\\', '"', '\'', ' ', '\t', '\n']

/-- One symbol inside double quotes. -/
inductive DoubleItem where
  | plain (symbol : Char) (hplain : symbol ≠ '"' ∧ symbol ≠ '\\')
  | escaped (symbol : Char) (hescapable : symbol ∈ escapable)
  /-- A backslash in front of a symbol it does not escape stands for itself. -/
  | kept (symbol : Char) (hkept : symbol ∉ escapable ∧ symbol ≠ '\n')

namespace DoubleItem

def text : DoubleItem → List Char
  | plain symbol _ => [symbol]
  | escaped symbol _ => ['\\', symbol]
  | kept symbol _ => ['\\', symbol]

def symbols : DoubleItem → List Char
  | plain symbol _ => [symbol]
  | escaped symbol _ => [symbol]
  | kept symbol _ => ['\\', symbol]

end DoubleItem

/-- A stretch of a word as it is written. -/
inductive Piece where
  | bare (symbol : Char) (hbare : symbol ∉ special)
  | escaped (symbol : Char) (hline : symbol ≠ '\n')
  | single (symbols : List Char) (hquote : '\'' ∉ symbols)
  | double (items : List DoubleItem)

namespace Piece

def text : Piece → List Char
  | bare symbol _ => [symbol]
  | escaped symbol _ => ['\\', symbol]
  | single symbols _ => '\'' :: symbols ++ ['\'']
  | double items => '"' :: items.flatMap DoubleItem.text ++ ['"']

def symbols : Piece → List Char
  | bare symbol _ => [symbol]
  | escaped symbol _ => [symbol]
  | single symbols _ => symbols
  | double items => items.flatMap DoubleItem.symbols

/-- The symbols as the reader keeps them. -/
def word : Piece → Word
  | bare symbol _ => [⟨symbol, false⟩]
  | piece => piece.symbols.map (⟨·, true⟩)

/-- The piece does not start a comment where it starts a word. -/
def Opens : Piece → Prop
  | bare symbol _ => symbol ≠ '#'
  | _ => True

theorem map_char_word (piece : Piece) : piece.word.map Symbol.char = piece.symbols := by
  cases piece with
  | bare symbol hbare => rfl
  | escaped symbol hline => rfl
  | single symbols hquote => simp [word, Piece.symbols, Function.comp_def]
  | double items => simp [word, Piece.symbols, Function.comp_def]

end Piece

/-- A word as it is written: at least one piece, and no comment sign at its start. -/
structure Rendered where
  first : Piece
  rest : List Piece
  opens : first.Opens

namespace Rendered

def pieces (rendered : Rendered) : List Piece := rendered.first :: rendered.rest

def text (rendered : Rendered) : List Char := rendered.pieces.flatMap Piece.text

/-- The word that is written. -/
def word (rendered : Rendered) : String := .ofList (rendered.pieces.flatMap Piece.symbols)

end Rendered

section Reading

variable {operator : Char → Bool}

/-- The reader after some text that completes no token. -/
theorem lexFrom_step {mode next : Mode} {current word : Option Word} {symbol : Char}
    {rest : List Char} (hstep : step operator mode current symbol = ([], next, word)) :
    lexFrom operator mode current (symbol :: rest) = lexFrom operator next word rest := by
  have hcons : lexFrom operator mode current (symbol :: rest) =
      (lexFrom operator (step operator mode current symbol).2.1
        (step operator mode current symbol).2.2 rest).map
          ((step operator mode current symbol).1 ++ ·) := by
    cases mode <;> rfl
  rw [hcons, hstep]
  simp

theorem lexFrom_single {symbols : List Char} (hquote : '\'' ∉ symbols) (word : Word)
    (rest : List Char) :
    lexFrom operator .single (some word) (symbols ++ '\'' :: rest) =
      lexFrom operator .plain (some (word ++ symbols.map (⟨·, true⟩))) rest := by
  induction symbols generalizing word with
  | nil =>
      rw [List.nil_append, List.map_nil, List.append_nil]
      exact lexFrom_step rfl
  | cons symbol symbols ih =>
      rw [List.mem_cons, not_or] at hquote
      have hstep : step operator .single (some word) symbol =
          ([], .single, some (word ++ [⟨symbol, true⟩])) := by
        simp [step, push, Ne.symm hquote.1]
      rw [List.cons_append, lexFrom_step hstep, ih hquote.2, List.map_cons,
        List.append_assoc, List.singleton_append]

theorem lexFrom_doubleItem (item : DoubleItem) (word : Word) (rest : List Char) :
    lexFrom operator .double (some word) (item.text ++ rest) =
      lexFrom operator .double (some (word ++ item.symbols.map (⟨·, true⟩))) rest := by
  cases item with
  | plain symbol hplain =>
      have hstep : step operator .double (some word) symbol =
          ([], .double, some (word ++ [⟨symbol, true⟩])) := by
        simp [step, push, hplain.1, hplain.2]
      exact lexFrom_step hstep
  | escaped symbol hescapable =>
      have hline : symbol ≠ '\n' := by
        rintro rfl
        exact absurd hescapable (by decide)
      have hstep : step operator .doubleEscaped (some word) symbol =
          ([], .double, some (word ++ [⟨symbol, true⟩])) := by
        simp [step, push, hline, hescapable]
      have hslash : step operator .double (some word) '\\' =
          ([], .doubleEscaped, some word) := rfl
      exact (lexFrom_step hslash).trans (lexFrom_step hstep)
  | kept symbol hkept =>
      have hstep : step operator .doubleEscaped (some word) symbol =
          ([], .double, some (word ++ [⟨'\\', true⟩, ⟨symbol, true⟩])) := by
        simp [step, push, hkept.1, hkept.2]
      have hslash : step operator .double (some word) '\\' =
          ([], .doubleEscaped, some word) := rfl
      exact (lexFrom_step hslash).trans (lexFrom_step hstep)

theorem lexFrom_double (items : List DoubleItem) (word : Word) (rest : List Char) :
    lexFrom operator .double (some word) (items.flatMap DoubleItem.text ++ '"' :: rest) =
      lexFrom operator .plain
        (some (word ++ (items.flatMap DoubleItem.symbols).map (⟨·, true⟩))) rest := by
  induction items generalizing word with
  | nil =>
      rw [List.flatMap_nil, List.nil_append, List.flatMap_nil, List.map_nil,
        List.append_nil]
      exact lexFrom_step rfl
  | cons item items ih =>
      rw [List.flatMap_cons, List.append_assoc, lexFrom_doubleItem, ih, List.flatMap_cons,
        List.map_append, List.append_assoc]

/-- However a piece is written, the reader adds its symbols to the word. -/
theorem lexFrom_piece (piece : Piece) (current : Option Word)
    (hopens : current = none → piece.Opens) (rest : List Char)
    (hoperator : ∀ symbol hbare, piece = .bare symbol hbare → operator symbol = false) :
    lexFrom operator .plain current (piece.text ++ rest) =
      lexFrom operator .plain (some (current.getD [] ++ piece.word)) rest := by
  cases piece with
  | bare symbol hbare =>
      have hnot : operator symbol = false := hoperator symbol hbare rfl
      simp only [special, List.mem_cons, List.not_mem_nil, or_false, not_or] at hbare
      have hcomment : ¬ (symbol = '#' ∧ current = none) := fun hsign =>
        hopens hsign.2 hsign.1
      have hstep : step operator .plain current symbol =
          ([], .plain, some (current.getD [] ++ [⟨symbol, false⟩])) := by
        simp [step, push, hbare, hcomment, hnot]
      exact lexFrom_step hstep
  | escaped symbol hline =>
      have hstep : step operator .escaped current symbol =
          ([], .plain, some (current.getD [] ++ [⟨symbol, true⟩])) := by
        simp [step, push, hline]
      have hslash : step operator .plain current '\\' = ([], .escaped, current) := rfl
      exact (lexFrom_step hslash).trans (lexFrom_step hstep)
  | single symbols hquote =>
      have hstep : step operator .plain current '\'' =
          ([], .single, some (current.getD [])) := rfl
      rw [Piece.text, List.cons_append, List.cons_append, lexFrom_step hstep,
        List.append_assoc]
      exact lexFrom_single hquote _ rest
  | double items =>
      have hstep : step operator .plain current '"' =
          ([], .double, some (current.getD [])) := rfl
      rw [Piece.text, List.cons_append, List.cons_append, lexFrom_step hstep,
        List.append_assoc]
      exact lexFrom_double items _ rest

end Reading

/-! ### Commands -/

/-- Blanks between words. -/
structure Gap where
  blanks : List Char
  blank : ∀ symbol ∈ blanks, symbol = ' ' ∨ symbol = '\t'

/-- A simple command as it is written: its words, with blanks around them. -/
structure RenderedCommand where
  before : Gap
  first : Rendered
  rest : List (Gap × Rendered)
  apart : ∀ next ∈ rest, next.1.blanks ≠ []
  after : Gap

namespace RenderedCommand

def tail : List (Gap × Rendered) → List Char
  | [] => []
  | (gap, rendered) :: rest => gap.blanks ++ (rendered.text ++ tail rest)

def text (command : RenderedCommand) : List Char :=
  command.before.blanks ++ (command.first.text ++ (tail command.rest ++
    command.after.blanks))

def words (command : RenderedCommand) : List String :=
  command.first.word :: command.rest.map fun next => next.2.word

end RenderedCommand

section Splitting

theorem lexFrom_noOperator_cons (mode : Mode) (current : Option Word) (symbol : Char)
    (rest : List Char) :
    lexFrom (fun _ => false) mode current (symbol :: rest) =
      (lexFrom (fun _ => false) (step (fun _ => false) mode current symbol).2.1
        (step (fun _ => false) mode current symbol).2.2 rest).map
          ((step (fun _ => false) mode current symbol).1 ++ ·) := by
  cases mode <;> rfl

/-- Blanks end the word in progress. -/
theorem lexFrom_gap (gap : Gap) (current : Option Word) (rest : List Char)
    (happart : gap.blanks ≠ [] ∨ current = none) :
    lexFrom (fun _ => false) .plain current (gap.blanks ++ rest) =
      (lexFrom (fun _ => false) .plain none rest).map (close current ++ ·) := by
  obtain ⟨blanks, hblank⟩ := gap
  simp only at happart ⊢
  induction blanks generalizing current with
  | nil =>
      have hnone : current = none := happart.resolve_left fun hne => hne rfl
      rw [hnone]
      simp [close]
  | cons symbol blanks ih =>
      have hsymbol := hblank symbol List.mem_cons_self
      have hstep : step (fun _ => false) .plain current symbol =
          (close current, .plain, none) := by
        rcases hsymbol with rfl | rfl <;> simp [step]
      rw [List.cons_append, lexFrom_noOperator_cons, hstep]
      simp only
      rw [ih none (fun other hother => hblank other (List.mem_cons_of_mem _ hother))
        (.inr rfl)]
      simp [close]

theorem lexFrom_pieces (pieces : List Piece) (word : Word) (rest : List Char) :
    lexFrom (fun _ => false) .plain (some word) (pieces.flatMap Piece.text ++ rest) =
      lexFrom (fun _ => false) .plain (some (word ++ pieces.flatMap Piece.word)) rest := by
  induction pieces generalizing word with
  | nil => rw [List.flatMap_nil, List.nil_append, List.flatMap_nil, List.append_nil]
  | cons piece pieces ih =>
      rw [List.flatMap_cons, List.append_assoc,
        lexFrom_piece piece (some word) nofun _ fun _ _ _ => rfl, ih, List.flatMap_cons,
        Option.getD_some, List.append_assoc]

/-- The word in progress after a word was read. -/
theorem lexFrom_rendered (rendered : Rendered) (rest : List Char) :
    lexFrom (fun _ => false) .plain none (rendered.text ++ rest) =
      lexFrom (fun _ => false) .plain (some (rendered.pieces.flatMap Piece.word)) rest := by
  rw [Rendered.text, Rendered.pieces, List.flatMap_cons, List.append_assoc,
    lexFrom_piece rendered.first none (fun _ => rendered.opens) _ fun _ _ _ => rfl,
    lexFrom_pieces, Option.getD_none, List.nil_append, List.flatMap_cons]

theorem value_pieces (rendered : Rendered) :
    value (rendered.pieces.flatMap Piece.word) = rendered.word := by
  rw [value, Rendered.word, List.map_flatMap]
  simp only [Piece.map_char_word]

theorem lexFrom_tail (rest : List (Gap × Rendered)) (word : Word) (after : Gap)
    (hapart : ∀ next ∈ rest, next.1.blanks ≠ []) :
    lexFrom (fun _ => false) .plain (some word)
        (RenderedCommand.tail rest ++ after.blanks) =
      some ((word :: rest.map fun next => next.2.pieces.flatMap Piece.word).map .word) := by
  induction rest generalizing word with
  | nil =>
      rw [RenderedCommand.tail, List.nil_append, ← List.append_nil after.blanks]
      by_cases hblanks : after.blanks = []
      · rw [hblanks]
        rfl
      · rw [lexFrom_gap after (some word) [] (.inl hblanks)]
        rfl
  | cons next rest ih =>
      obtain ⟨gap, rendered⟩ := next
      rw [List.forall_mem_cons] at hapart
      rw [RenderedCommand.tail, List.append_assoc, lexFrom_gap gap _ _ (.inl hapart.1),
        List.append_assoc, lexFrom_rendered, ih _ hapart.2]
      rfl

/-- The words of a command, however they are written. -/
theorem posixSplit_rendered (command : RenderedCommand) :
    posixSplit (.ofList command.text) = some command.words := by
  rw [posixSplit, String.toList_ofList, RenderedCommand.text,
    lexFrom_gap command.before none _ (.inr rfl), lexFrom_rendered,
    lexFrom_tail _ _ _ command.apart, Option.map_some, Option.map_some, close,
    List.nil_append, wordsOf_words, List.map_cons, List.map_map, value_pieces]
  simp only [RenderedCommand.words, Function.comp_def, value_pieces]

end Splitting

/-! ### Every word can be written -/

theorem singleQuote_plain : '\'' ≠ '"' ∧ '\'' ≠ '\\' := by decide

/-- A quotation of one symbol. -/
def quote (symbol : Char) : Piece :=
  if hquote : symbol = '\'' then .double [.plain '\'' singleQuote_plain]
  else .single [symbol] fun hmem => hquote (List.mem_singleton.1 hmem).symm

theorem symbols_quote (symbol : Char) : (quote symbol).symbols = [symbol] := by
  rw [quote]
  split
  · next hquote => rw [hquote]; rfl
  · rfl

theorem exists_rendered (word : String) : ∃ rendered : Rendered, rendered.word = word := by
  have hsymbols : (word.toList.map quote).flatMap Piece.symbols = word.toList := by
    rw [List.flatMap_map]
    simp [symbols_quote]
  refine ⟨⟨.single [] List.not_mem_nil, word.toList.map quote, trivial⟩, ?_⟩
  rw [Rendered.word, Rendered.pieces, List.flatMap_cons, hsymbols]
  exact String.ofList_toList

end Kitaebot.Shell
