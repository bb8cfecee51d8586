import Kitaebot.Core.MachineInt
import Kitaebot.Core.Regex
import Kitaebot.Tools.FileRead

/-!
# Tool results without their framing

A tool result is wrapped, and what a file was read as is numbered.  Both are undone
where they match exactly, so that a payload is looked at as what it was.
-/

namespace Kitaebot.Lcm

open ByteText (lines)
open FileRead (Numbered Page decimal onward writeLine)
open MachineInt (parseUnsigned)

/-- `^<tool_output name="[^"]+">$` -/
def toolOutputOpen : Regex :=
  .seq (.text "<tool_output name=\"".toList)
    (.seq (.greedy (fun symbol => symbol != '"') 1) (.seq (.text "\">".toList) .endOfText))

/-- `^\(\d+ lines shown, \d+ total, \d+ bytes(; continue with offset=\d+)?\)$`, for a
notion of the decimal symbols. -/
def fileReadTrailer (isDecimal : Char → Bool) : Regex :=
  .seq (.text ['(']) (.seq (.greedy isDecimal 1) (.seq (.text " lines shown, ".toList)
    (.seq (.greedy isDecimal 1) (.seq (.text " total, ".toList)
      (.seq (.greedy isDecimal 1) (.seq (.text " bytes".toList)
        (.seq (.alt (.seq (.text "; continue with offset=".toList) (.greedy isDecimal 1))
          (.text [])) (.seq (.text [')']) .endOfText))))))))

def stripSuffix (suffix text : List Char) : Option (List Char) :=
  if suffix <:+ text then some (text.take (text.length - suffix.length)) else none

def trimEnd (text : List Char) : List Char := text.rdropWhile Text.isWhitespace

def stripToolOutputWrapper (content : List Char) : List Char :=
  match content.span (fun symbol => symbol != '\n') with
  | (_, []) => content
  | (first, _ :: rest) =>
      if (toolOutputOpen.find first).isSome then
        match stripSuffix "</tool_output>".toList (trimEnd rest) with
        | some inner => (stripSuffix ['\n'] inner).getD inner
        | none => content
      else content

/-- The lines without their numbers, which go up by one from the first. -/
def unnumber : Option ℕ → List (List Char) → Option (List (List Char))
  | _, [] => some []
  | expected, line :: rest =>
      match line.span (fun symbol => symbol != '\t') with
      | (_, []) => none
      | (number, _ :: text) =>
          match parseUnsigned 64 number with
          | none => none
          | some n =>
              if expected.any (fun e => n != e) then none
              else (unnumber (some (n + 1)) rest).map fun stripped => text :: stripped

def stripLineNumbering (isDecimal : Char → Bool) (content : List Char) :
    Option (List Char) :=
  let all := lines content
  if all.getLast?.any fun last => ((fileReadTrailer isDecimal).find last).isSome then
    match unnumber none (all.dropLast.rdropWhile fun line => line.isEmpty) with
    | some (first :: stripped) => some (List.intercalate ['\n'] (first :: stripped))
    | _ => none
  else none

def stripToolFraming (isDecimal : Char → Bool) (content : List Char) : List Char :=
  let unwrapped := stripToolOutputWrapper content
  (stripLineNumbering isDecimal unwrapped).getD unwrapped

/-! ### The wrapper -/

theorem stripSuffix_append (text suffix : List Char) :
    stripSuffix suffix (text ++ suffix) = some text := by
  rw [stripSuffix, if_pos (List.suffix_append _ _), List.length_append, Nat.add_sub_cancel,
    List.take_left]

theorem trimEnd_append {text : List Char} {last : Char}
    (hlast : Text.isWhitespace last = false) : trimEnd (text ++ [last]) = text ++ [last] := by
  rw [trimEnd, List.rdropWhile_concat_neg _ _ _ (by simp [hlast])]

theorem span_append_cons {stop : Char} {before : List Char} (hbefore : stop ∉ before)
    (after : List Char) :
    (before ++ stop :: after).span (fun symbol => symbol != stop) =
      (before, stop :: after) := by
  have hall : ∀ symbol ∈ before, (symbol != stop) = true := by
    intro symbol hmem
    exact bne_iff_ne.2 fun heq => hbefore (heq ▸ hmem)
  rw [List.span_eq_takeWhile_dropWhile, List.takeWhile_append_of_pos hall,
    List.dropWhile_append_of_pos hall]
  simp

theorem symbol_of_toolName (name : ToolName) {symbol : Char}
    (hmem : symbol ∈ name.value.toList) :
    (symbol.isAlphanum || symbol == '_' || symbol == '-') = true := by
  have hvalid := name.valid
  rw [isValidToolName, Bool.and_eq_true] at hvalid
  exact List.all_eq_true.1 hvalid.2 symbol hmem

theorem toolName_ne_nil (name : ToolName) : name.value.toList ≠ [] := by
  have hvalid := name.valid
  rw [isValidToolName, Bool.and_eq_true, Bool.not_eq_true', List.isEmpty_eq_false_iff]
    at hvalid
  exact hvalid.1

theorem accepts_toolOutputOpen (name : ToolName) :
    toolOutputOpen.Accepts
      ("<tool_output name=\"".toList ++ (name.value.toList ++ "\">".toList)) := by
  apply Regex.accepts_text
  apply Regex.accepts_greedy
  · intro symbol hmem
    have hsymbol := symbol_of_toolName name hmem
    refine bne_iff_ne.2 fun heq => ?_
    rw [heq] at hsymbol
    cases hsymbol
  · exact List.length_pos_of_ne_nil (toolName_ne_nil name)
  · exact Regex.accepts_text_end _

theorem newline_not_mem_open (name : ToolName) :
    '\n' ∉ "<tool_output name=\"".toList ++ (name.value.toList ++ "\">".toList) := by
  have hname : '\n' ∉ name.value.toList := by
    intro hmem
    have hsymbol := symbol_of_toolName name hmem
    cases hsymbol
  have hopen : '\n' ∉ "<tool_output name=\"".toList := by decide
  have hclose : '\n' ∉ "\">".toList := by decide
  simp only [List.mem_append, not_or]
  exact ⟨hopen, hname, hclose⟩

/-- Whatever the text, the wrapper comes off. -/
theorem stripToolOutputWrapper_wrap (name : ToolName) (text : List Char) :
    stripToolOutputWrapper (Safety.wrap name.value text).toList = text := by
  have hwrap : (Safety.wrap name.value text).toList =
      ("<tool_output name=\"".toList ++ (name.value.toList ++ "\">".toList)) ++
        '\n' :: (text ++ ['\n'] ++ "</tool_output>".toList) := by
    unfold Safety.wrap
    simp
  have htrim : trimEnd (text ++ ['\n'] ++ "</tool_output>".toList) =
      text ++ ['\n'] ++ "</tool_output>".toList := by
    have hlast : "</tool_output>".toList = "</tool_output".toList ++ ['>'] := by decide
    rw [hlast, ← List.append_assoc, trimEnd_append (by decide)]
  rw [hwrap, stripToolOutputWrapper, span_append_cons (newline_not_mem_open name)]
  simp only
  rw [if_pos (Regex.find_isSome_iff.2 (accepts_toolOutputOpen name)), htrim,
    stripSuffix_append]
  simp only
  rw [stripSuffix_append, Option.getD_some]

/-! ### The numbers -/

theorem decimal_digits {value : ℕ} {symbol : Char} (hmem : symbol ∈ decimal value) :
    symbol.isDigit = true :=
  Nat.isDigit_of_mem_toDigits (by decide) (by decide) hmem

theorem decimal_ne_nil (value : ℕ) : decimal value ≠ [] := Nat.toDigits_ne_nil

theorem not_mem_decimal {symbol : Char} (hsymbol : symbol.isDigit = false) (value : ℕ) :
    symbol ∉ decimal value := by
  intro hmem
  rw [decimal_digits hmem] at hsymbol
  cases hsymbol

theorem parseUnsigned_decimal {value : ℕ} (hvalue : value < 2 ^ 64) :
    parseUnsigned 64 (decimal value) = some value :=
  MachineInt.parseUnsigned_eq_some.2
    ⟨decimal value, .inl rfl, ⟨decimal_ne_nil value, fun _ => decimal_digits⟩,
      Nat.ofDigitChars_toDigits (by decide) (by decide), hvalue⟩

/-- A numbered line without its line end. -/
def numberedText (line : Numbered) : List Char := decimal line.1 ++ '\t' :: line.2

theorem unnumber_numbered {texts : List (List Char)} {start : ℕ}
    (hfits : start + texts.length ≤ 2 ^ 64) {expected : Option ℕ}
    (hexpected : ∀ e, expected = some e → e = start) :
    unnumber expected ((texts.zipIdx start).map fun (line, n) => numberedText (n, line)) =
      some texts := by
  induction texts generalizing start expected with
  | nil => rfl
  | cons text texts ih =>
      rw [List.length_cons] at hfits
      have hspan : (numberedText (start, text)).span (fun symbol => symbol != '\t') =
          (decimal start, '\t' :: text) :=
        span_append_cons (not_mem_decimal (by decide) start) text
      have hsame : expected.any (fun e => start != e) = false := by
        cases expected with
        | none => rfl
        | some e => rw [hexpected e rfl, Option.any_some, bne_self_eq_false]
      have hrest : unnumber (some (start + 1))
          ((texts.zipIdx (start + 1)).map fun (line, n) => numberedText (n, line)) =
            some texts :=
        ih (by omega) fun e heq => (Option.some.inj heq).symm
      rw [List.zipIdx_cons, List.map_cons, unnumber, hspan]
      simp only
      rw [parseUnsigned_decimal (by omega)]
      simp only
      rw [hsame, if_neg Bool.false_ne_true, hrest]
      rfl

/-! ### The lines of a page -/

theorem lines_cons {line : List Char} (hnewline : '\n' ∉ line) (hreturn : '\r' ∉ line)
    (rest : List Char) : lines (line ++ '\n' :: rest) = line :: lines rest := by
  have hlast : line.getLast? ≠ some '\r' := by
    intro hsome
    exact hreturn (List.mem_of_getLast? hsome)
  rw [lines, ByteText.splitLines, ByteText.linesFrom_of_no_newline hnewline,
    ByteText.linesFrom, if_pos rfl, List.nil_append, ByteText.endedLine, if_neg hlast,
    List.map_cons]
  rfl

theorem lines_last {line : List Char} (hnewline : '\n' ∉ line) (hline : line ≠ []) :
    lines line = [line] := by
  have hall := ByteText.linesFrom_of_no_newline hnewline [] []
  rw [List.append_nil, List.nil_append] at hall
  rw [lines, ByteText.splitLines, hall, ByteText.linesFrom,
    if_neg (by rwa [List.isEmpty_iff])]
  rfl

theorem newline_not_mem_trailer (page : Page) : '\n' ∉ page.trailer := by
  have hdecimal := not_mem_decimal (by decide : ('\n').isDigit = false)
  have hlines : '\n' ∉ " lines shown, ".toList := by decide
  have htotal : '\n' ∉ " total, ".toList := by decide
  have hbytes : '\n' ∉ " bytes".toList := by decide
  have honward : '\n' ∉ "; continue with offset=".toList := by decide
  have hnext : '\n' ∉ onward page.next := by
    cases page.next with
    | none => exact List.not_mem_nil
    | some next =>
        simp only [onward, Option.elim_some, List.mem_append, not_or]
        exact ⟨honward, hdecimal next⟩
  rw [Page.trailer]
  simp only [List.cons_append, List.mem_cons, List.mem_append, not_or, List.not_mem_nil,
    or_false]
  exact ⟨by decide, ⟨⟨⟨⟨⟨⟨hdecimal _, hlines⟩, hdecimal _⟩, htotal⟩, hdecimal _⟩, hbytes⟩,
    hnext⟩, by decide⟩

theorem accepts_fileReadTrailer {isDecimal : Char → Bool}
    (hdecimal : ∀ symbol, symbol.isDigit = true → isDecimal symbol = true) (page : Page) :
    (fileReadTrailer isDecimal).Accepts page.trailer := by
  have hnumber (value : ℕ) {rest : List Char} {later : Regex} (hrest : later.Accepts rest) :
      (Regex.seq (.greedy isDecimal 1) later).Accepts (decimal value ++ rest) :=
    Regex.accepts_greedy (fun symbol hmem => hdecimal symbol (decimal_digits hmem))
      (List.length_pos_of_ne_nil (decimal_ne_nil value)) hrest
  have hclose : (Regex.seq (.text [')']) .endOfText).Accepts [')'] :=
    Regex.accepts_text_end _
  have hnext : (Regex.seq (.alt (.seq (.text "; continue with offset=".toList)
      (.greedy isDecimal 1)) (.text [])) (.seq (.text [')']) .endOfText)).Accepts
        (onward page.next ++ [')']) := by
    cases page.next with
    | none => exact Regex.Accepts.alt_right (Regex.accepts_text hclose)
    | some next =>
        simp only [onward, Option.elim_some, List.append_assoc]
        exact Regex.Accepts.alt_left
          (Regex.Accepts.assoc (Regex.accepts_text (hnumber next hclose)))
  rw [Page.trailer]
  simp only [List.append_assoc, List.cons_append]
  change (fileReadTrailer isDecimal).Accepts (['('] ++ _)
  exact Regex.accepts_text (hnumber _ (Regex.accepts_text (hnumber _
    (Regex.accepts_text (hnumber _ (Regex.accepts_text hnext))))))

/-- The lines of a page, its numbered lines first. -/
theorem lines_page {page : Page} (hshown : ∀ line ∈ page.shown, '\n' ∉ line.2 ∧ '\r' ∉ line.2) :
    lines page.text = page.shown.map numberedText ++ [[], page.trailer] := by
  have hnumbered : ∀ line ∈ page.shown,
      '\n' ∉ numberedText line ∧ '\r' ∉ numberedText line := by
    intro line hmem
    obtain ⟨hnewline, hreturn⟩ := hshown line hmem
    simp only [numberedText, List.mem_append, List.mem_cons, not_or]
    exact ⟨⟨not_mem_decimal (by decide) _, by decide, hnewline⟩,
      not_mem_decimal (by decide) _, by decide, hreturn⟩
  have hend : lines ('\n' :: page.trailer) = [[], page.trailer] := by
    have hblank := lines_cons List.not_mem_nil List.not_mem_nil page.trailer
    rw [List.nil_append] at hblank
    rw [hblank, lines_last (newline_not_mem_trailer page) (List.cons_ne_nil _ _)]
  rw [Page.text]
  generalize page.shown = shown at hnumbered
  induction shown with
  | nil => exact hend
  | cons line shown ih =>
      rw [List.forall_mem_cons] at hnumbered
      have hline : writeLine line = numberedText line ++ ['\n'] := by
        rw [writeLine, numberedText, List.append_assoc]
      rw [List.flatMap_cons, List.append_assoc, hline, List.append_assoc,
        List.singleton_append, lines_cons hnumbered.1.1 hnumbered.1.2, ih hnumbered.2,
        List.map_cons, List.cons_append]

theorem stripLineNumbering_page {isDecimal : Char → Bool}
    (hdecimal : ∀ symbol, symbol.isDigit = true → isDecimal symbol = true) {page : Page}
    {texts : List (List Char)} {start : ℕ} (htexts : texts ≠ [])
    (hshown : page.shown = (texts.zipIdx start).map fun (line, n) => (n, line))
    (hfits : start + texts.length ≤ 2 ^ 64)
    (hplain : ∀ text ∈ texts, '\n' ∉ text ∧ '\r' ∉ text) :
    stripLineNumbering isDecimal page.text = some (List.intercalate ['\n'] texts) := by
  have hnumbered : page.shown.map numberedText =
      (texts.zipIdx start).map fun (line, n) => numberedText (n, line) := by
    rw [hshown, List.map_map]
    rfl
  have hlines : lines page.text = page.shown.map numberedText ++ [[], page.trailer] := by
    apply lines_page
    intro line hmem
    rw [hshown] at hmem
    obtain ⟨⟨text, n⟩, hpair, rfl⟩ := List.mem_map.1 hmem
    exact hplain text (List.fst_mem_of_mem_zipIdx hpair)
  have hlast : (lines page.text).getLast?.any (fun last =>
      ((fileReadTrailer isDecimal).find last).isSome) = true := by
    have hget : (lines page.text).getLast? = some page.trailer := by
      rw [hlines, List.getLast?_append]
      rfl
    rw [hget, Option.any_some]
    exact Regex.find_isSome_iff.2 (accepts_fileReadTrailer hdecimal page)
  have hrest : (lines page.text).dropLast.rdropWhile (fun line => line.isEmpty) =
      page.shown.map numberedText := by
    have hdrop : (lines page.text).dropLast = page.shown.map numberedText ++ [[]] := by
      rw [hlines, List.dropLast_append_of_ne_nil (List.cons_ne_nil _ _)]
      rfl
    rw [hdrop, List.rdropWhile_concat_pos _ _ _ rfl, List.rdropWhile_eq_self_iff]
    intro hne hempty
    obtain ⟨line, -, hline⟩ := List.mem_map.1 (List.getLast_mem hne)
    rw [← hline, List.isEmpty_iff] at hempty
    exact List.cons_ne_nil _ _ (List.append_eq_nil_iff.1 hempty).2
  have hfirst : ∀ e, none = some e → e = start := by
    intro e heq
    cases heq
  unfold stripLineNumbering
  simp only
  rw [if_pos hlast, hrest, hnumbered, unnumber_numbered hfits hfirst]
  cases texts with
  | nil => exact absurd rfl htexts
  | cons text texts => rfl

/-! ### What a read showed -/

theorem window_texts (content : List Char) {start : ℕ} (hstart : 1 ≤ start) (most : ℕ) :
    FileRead.window content start most =
      ((((lines content).drop (start - 1)).take most).zipIdx start).map
        fun (line, n) => (n, line) := by
  apply List.ext_getElem?
  intro index
  rw [FileRead.window, List.getElem?_map, List.getElem?_map, List.getElem?_take,
    List.getElem?_drop, List.getElem?_zipIdx, List.getElem?_zipIdx, List.getElem?_take,
    List.getElem?_drop]
  by_cases hindex : index < most
  · rw [if_pos hindex, if_pos hindex]
    cases (lines content)[start - 1 + index]? with
    | none => rfl
    | some line =>
        have hnumber : 0 + (start - 1 + index) + 1 = start + index := by omega
        simp only [Option.map_some, hnumber]
  · rw [if_neg hindex, if_neg hindex]
    rfl

theorem plain_of_mem_lines {content text : List Char} (hreturn : '\r' ∉ content)
    (htext : text ∈ lines content) : '\n' ∉ text ∧ '\r' ∉ text := by
  obtain ⟨line, hline, rfl⟩ := List.mem_map.1 htext
  refine ⟨ByteText.newline_not_mem_linesFrom List.not_mem_nil content hline, fun hmem => ?_⟩
  apply hreturn
  rw [← ByteText.joinLines_splitLines content]
  exact List.mem_flatMap.2 ⟨line, hline, List.mem_append_left _ hmem⟩

theorem fileRead_valid : isValidToolName "file_read" = true := by
  decide

def fileReadName : ToolName := ⟨"file_read", fileRead_valid⟩

/-- What is left of a wrapped read is the lines it showed, whatever they hold. -/
theorem fileRead_unframed {isDecimal : Char → Bool}
    (hdecimal : ∀ symbol, symbol.isDigit = true → isDecimal symbol = true)
    {inlineTokens : ℕ} {content : List Char} {args : FileRead.Args} {output : String}
    (hread : FileRead.execute inlineTokens content args = .ok output)
    (hwindow : FileRead.window content args.start args.most ≠ [])
    (hreturn : '\r' ∉ content) (hclean : Safety.matching output.toList = []) :
    stripToolFraming isDecimal
        (Safety.checkToolOutput "file_read" output).wrapped.toList =
      List.intercalate ['\n']
        ((FileRead.page inlineTokens content args).shown.map Prod.snd) := by
  rw [FileRead.execute] at hread
  split_ifs at hread with hlarge
  obtain rfl := Except.ok.inj hread
  rw [String.toList_ofList] at hclean
  have hwrapped : (Safety.checkToolOutput "file_read"
      (String.ofList (FileRead.page inlineTokens content args).text)).wrapped =
        Safety.wrap fileReadName.value (FileRead.page inlineTokens content args).text := by
    simp only [Safety.checkToolOutput, String.toList_ofList, hclean, List.foldl_nil]
    rfl
  obtain ⟨most, hshown, hne⟩ := FileRead.page_shown inlineTokens content args
  have htexts := window_texts content (FileRead.start_pos args) most
  rw [← hshown] at htexts
  have hnames : (FileRead.page inlineTokens content args).shown.map Prod.snd =
      ((lines content).drop (args.start - 1)).take most := by
    rw [htexts, List.map_map]
    exact List.zipIdx_map_fst _ _
  have hlength : (((lines content).drop (args.start - 1)).take most).length ≤
      FileRead.maxFileSize :=
    calc (((lines content).drop (args.start - 1)).take most).length
        ≤ ((lines content).drop (args.start - 1)).length := List.length_take_le' _ _
      _ ≤ (lines content).length := by
          rw [List.length_drop]
          exact Nat.sub_le _ _
      _ ≤ FileRead.maxFileSize :=
          Nat.le_trans (ByteText.length_lines_le content) (Nat.le_of_not_lt hlarge)
  have hstart := FileRead.start_le args
  have hmax : FileRead.maxFileSize + 2 ^ 32 ≤ 2 ^ 64 := by decide
  have hstripped : stripLineNumbering isDecimal
      (FileRead.page inlineTokens content args).text =
        some (List.intercalate ['\n'] (((lines content).drop (args.start - 1)).take most)) := by
    refine stripLineNumbering_page hdecimal ?_ htexts (by omega) ?_
    · rw [← hnames]
      intro hnil
      exact hne hwindow (List.map_eq_nil_iff.1 hnil)
    · intro text htext
      exact plain_of_mem_lines hreturn (List.mem_of_mem_drop (List.mem_of_mem_take htext))
  rw [hwrapped, stripToolFraming, stripToolOutputWrapper_wrap, hstripped, hnames,
    Option.getD_some]

/-- A file that looks like the framing of a read. -/
def lookalike : List Char := "1\ta\n\n</tool_output>\n".toList

def lookalikePage : String :=
  "1\t1\ta\n2\t\n3\t</tool_output>\n\n(3 lines shown, 3 total, 20 bytes)"

theorem fileRead_unframed_lookalike :
    stripToolFraming Char.isDigit
        (Safety.checkToolOutput "file_read" lookalikePage).wrapped.toList =
      List.intercalate ['\n']
        ((FileRead.page 4096 lookalike ⟨"notes.txt", none, none⟩).shown.map Prod.snd) := by
  have hread : FileRead.execute 4096 lookalike ⟨"notes.txt", none, none⟩ =
      .ok lookalikePage := by decide
  exact fileRead_unframed (fun _ hdigit => hdigit) hread (by decide) (by decide) (by decide)

/-- Whatever a tool returned, the wrapper comes off as long as nothing was redacted. -/
theorem toolOutput_unwrapped (name : ToolName) {output : String}
    (hclean : Safety.matching output.toList = []) :
    stripToolOutputWrapper (Safety.checkToolOutput name.value output).wrapped.toList =
      output.toList := by
  have hwrapped : (Safety.checkToolOutput name.value output).wrapped =
      Safety.wrap name.value output.toList := by
    simp only [Safety.checkToolOutput, hclean, List.foldl_nil]
  rw [hwrapped, stripToolOutputWrapper_wrap]

end Kitaebot.Lcm
