import Mathlib.Data.List.Basic
import Kitaebot.Core.ByteText
import Kitaebot.Core.Json
import Kitaebot.Core.LineStream
import Kitaebot.Core.LossyUtf8

/-!
# The lines of the log

Every line of the log passes a writer that shortens it where it is too long for what
reads it later.
-/

namespace Kitaebot.Errlog

open Json (Bytes Value newline utf8)

/-- Byte cap per emitted log line, both sinks. -/
def lineMaxBytes : ℕ := 8192

/-- How an oversized line is shortened without breaking its sink. -/
inductive LineFormat where
  | json
  | text
  deriving DecidableEq

/-- The symbols until those so far take more than a limit, after `bytes` of them. -/
def headFrom (limit : ℕ) : ℕ → List Char → List Char
  | _, [] => []
  | bytes, symbol :: text =>
      if bytes + symbol.utf8Size ≤ limit then
        symbol :: headFrom limit (bytes + symbol.utf8Size) text
      else []

/-- What an oversized line keeps. -/
def head (line : Bytes) : List Char :=
  headFrom (lineMaxBytes / 2) 0 (LossyUtf8.decode line)

/-- The object that stands for an oversized line. -/
def stub (line : Bytes) : Value :=
  .object
    [("original_bytes", .number (.unsigned (UInt64.ofNat line.length))),
      ("truncated_line", .string (String.ofList (head line)))]

/-- Bound one complete line; none means it passes unchanged. -/
def boundLine (line : Bytes) (format : LineFormat) : Option Bytes :=
  if line.length ≤ lineMaxBytes then none
  else
    match format with
    | .json => some (utf8 (stub line).render)
    | .text =>
        some (utf8 (head line ++ "...[line truncated, ".toList ++ Value.decimal line.length ++
          " bytes total]".toList))

structure BoundedLineWriter where
  inner : Bytes
  format : LineFormat
  buf : Bytes

namespace BoundedLineWriter

def new (inner : Bytes) (format : LineFormat) : BoundedLineWriter := ⟨inner, format, []⟩

def emit (writer : BoundedLineWriter) (line : Bytes) : BoundedLineWriter :=
  match boundLine line writer.format with
  | some bounded => { writer with inner := writer.inner ++ bounded ++ [newline] }
  | none => { writer with inner := writer.inner ++ line ++ [newline] }

theorem emit_buf (writer : BoundedLineWriter) (line : Bytes) :
    (writer.emit line).buf = writer.buf := by
  rw [emit]
  split <;> rfl

def drainCompleteLines (writer : BoundedLineWriter) : BoundedLineWriter :=
  if newline ∈ writer.buf then
    let pos := writer.buf.idxOf newline
    drainCompleteLines
      ({ writer with buf := writer.buf.drop (pos + 1) }.emit (writer.buf.take pos))
  else writer
  termination_by writer.buf.length
  decreasing_by
    rw [emit_buf, List.length_drop]
    have hpos := List.idxOf_lt_length_of_mem ‹newline ∈ writer.buf›
    omega

def write (writer : BoundedLineWriter) (data : Bytes) : BoundedLineWriter :=
  let drained := { writer with buf := writer.buf ++ data }.drainCompleteLines
  if 2 * lineMaxBytes < drained.buf.length then
    { drained with buf := [] }.emit drained.buf
  else drained

/-- What goes out when the writer is dropped. -/
def drop (writer : BoundedLineWriter) : BoundedLineWriter :=
  if writer.buf = [] then writer else { writer with buf := [] }.emit writer.buf

end BoundedLineWriter

/-- What reaches the sink of a writer that takes in these chunks. -/
def written (format : LineFormat) (chunks : List Bytes) : Bytes :=
  (chunks.foldl BoundedLineWriter.write (.new [] format)).drop.inner

/-! ### The writer splits its stream -/

/-- A line as it is passed on. -/
def passed (format : LineFormat) (line : Bytes) : Bytes :=
  (boundLine line format).getD line

theorem emit_eq (writer : BoundedLineWriter) (line : Bytes) :
    writer.emit line =
      { writer with inner := writer.inner ++ (passed writer.format line ++ [newline]) } := by
  rw [BoundedLineWriter.emit, passed]
  cases boundLine line writer.format with
  | none => rw [Option.getD_none, ← List.append_assoc]
  | some bounded => rw [Option.getD_some, ← List.append_assoc]

/-- Lines as the sink holds them. -/
def sinkLines (format : LineFormat) (lines : List Bytes) : Bytes :=
  lines.flatMap fun line => passed format line ++ [newline]

theorem sinkLines_cons (format : LineFormat) (line : Bytes) (lines : List Bytes) :
    sinkLines format (line :: lines) =
      passed format line ++ [newline] ++ sinkLines format lines :=
  List.flatMap_cons

theorem sinkLines_append (format : LineFormat) (lines later : List Bytes) :
    sinkLines format (lines ++ later) = sinkLines format lines ++ sinkLines format later :=
  List.flatMap_append

theorem sinkLines_singleton (format : LineFormat) (line : Bytes) :
    sinkLines format [line] = passed format line ++ [newline] :=
  List.flatMap_singleton _ _

theorem drainCompleteLines_eq (writer : BoundedLineWriter) :
    writer.drainCompleteLines =
      ⟨writer.inner ++ sinkLines writer.format (LineStream.cut newline writer.buf).1,
        writer.format, (LineStream.cut newline writer.buf).2⟩ := by
  induction writer using BoundedLineWriter.drainCompleteLines.induct with
  | case1 writer hmem pos ih =>
      rw [BoundedLineWriter.drainCompleteLines, if_pos hmem]
      refine ih.trans ?_
      rw [emit_eq, LineStream.cut_of_mem hmem, sinkLines_cons]
      simp only [List.append_assoc]
      rfl
  | case2 writer hmem =>
      rw [BoundedLineWriter.drainCompleteLines, if_neg hmem, LineStream.cut_of_not_mem hmem,
        sinkLines, List.flatMap_nil, List.append_nil]

/-- The writer that has passed on what a splitter has let out. -/
def ofSplitter (format : LineFormat) (splitter : LineStream.Splitter UInt8) :
    BoundedLineWriter :=
  ⟨sinkLines format splitter.out, format, splitter.buf⟩

theorem write_ofSplitter (format : LineFormat) (splitter : LineStream.Splitter UInt8)
    (data : Bytes) :
    (ofSplitter format splitter).write data =
      ofSplitter format (LineStream.write newline (2 * lineMaxBytes) splitter data) := by
  change BoundedLineWriter.write ⟨sinkLines format splitter.out, format, splitter.buf⟩ data = _
  rw [BoundedLineWriter.write, drainCompleteLines_eq, LineStream.write, ofSplitter]
  simp only
  by_cases hover : 2 * lineMaxBytes <
      (LineStream.cut newline (splitter.buf ++ data)).2.length
  · rw [if_pos hover, if_pos hover, emit_eq]
    simp only [sinkLines_append, sinkLines_singleton]
  · rw [if_neg hover, if_neg hover]
    simp only [sinkLines_append]

theorem foldl_write_ofSplitter (format : LineFormat) (chunks : List Bytes)
    (splitter : LineStream.Splitter UInt8) :
    chunks.foldl BoundedLineWriter.write (ofSplitter format splitter) =
      ofSplitter format
        (chunks.foldl (LineStream.write newline (2 * lineMaxBytes)) splitter) := by
  induction chunks generalizing splitter with
  | nil => rfl
  | cons data chunks ih => rw [List.foldl_cons, write_ofSplitter, ih, List.foldl_cons]

/-- The lines the writer makes of its chunks. -/
def linesOf (chunks : List Bytes) : List Bytes :=
  LineStream.finish (LineStream.writes newline (2 * lineMaxBytes) chunks)

theorem written_eq (format : LineFormat) (chunks : List Bytes) :
    written format chunks = sinkLines format (linesOf chunks) := by
  have hrun := foldl_write_ofSplitter format chunks ⟨[], []⟩
  have hnew : BoundedLineWriter.new [] format = ofSplitter format ⟨[], []⟩ := rfl
  rw [written, linesOf, hnew, hrun, ← LineStream.writes]
  generalize LineStream.writes newline (2 * lineMaxBytes) chunks = splitter
  rw [ofSplitter, BoundedLineWriter.drop, LineStream.finish]
  simp only
  by_cases hbuf : splitter.buf = []
  · rw [if_pos hbuf, if_pos hbuf]
  · rw [if_neg hbuf, if_neg hbuf, emit_eq, sinkLines_append, sinkLines_singleton]

/-! ### A line stays within its bounds -/

theorem length_utf8 (text : List Char) : (utf8 text).length = ByteText.size text := by
  induction text with
  | nil => rfl
  | cons symbol text ih =>
      rw [Json.utf8_cons, List.length_append, String.length_utf8EncodeChar, ih,
        ByteText.size_cons]

theorem size_headFrom {limit bytes : ℕ} (hbytes : bytes ≤ limit) (text : List Char) :
    bytes + ByteText.size (headFrom limit bytes text) ≤ limit := by
  induction text generalizing bytes with
  | nil => exact hbytes
  | cons symbol text ih =>
      rw [headFrom]
      split_ifs with hfits
      · have hrest := ih hfits
        rw [ByteText.size_cons]
        omega
      · exact hbytes

theorem begins_headFrom (limit bytes : ℕ) (text : List Char) :
    headFrom limit bytes text <+: text := by
  induction text generalizing bytes with
  | nil => exact List.prefix_refl _
  | cons symbol text ih =>
      rw [headFrom]
      split_ifs
      · exact List.cons_prefix_cons.2 ⟨rfl, ih _⟩
      · exact List.nil_prefix

theorem size_head (line : Bytes) : ByteText.size (head line) ≤ 4096 := by
  have hsize := size_headFrom (Nat.zero_le (lineMaxBytes / 2)) (LossyUtf8.decode line)
  rw [Nat.zero_add] at hsize
  exact hsize

/-- An escape takes six bytes at most. -/
theorem size_escapeChar (symbol : Char) :
    ByteText.size (Value.escapeChar symbol) ≤ 6 * symbol.utf8Size := by
  have hpos := symbol.utf8Size_pos
  have hshort : ∀ {escape : List Char}, ByteText.size escape ≤ 6 →
      ByteText.size escape ≤ 6 * symbol.utf8Size := fun hsize => by omega
  unfold Value.escapeChar
  split_ifs with _ _ _ _ _ _ _ hcontrol
  · exact hshort (by decide)
  · exact hshort (by decide)
  · exact hshort (by decide)
  · exact hshort (by decide)
  · exact hshort (by decide)
  · exact hshort (by decide)
  · exact hshort (by decide)
  · have hhex : ∀ value < 16, (Nat.digitChar value).utf8Size = 1 := by decide
    apply hshort
    simp only [ByteText.size_cons, ByteText.size_nil, hhex _ (Nat.mod_lt _ (by decide)),
      hhex (symbol.toNat / 16) (by omega)]
    decide
  · rw [ByteText.size_cons, ByteText.size_nil]
    omega

theorem size_escape (text : List Char) :
    ByteText.size (text.flatMap Value.escapeChar) ≤ 6 * ByteText.size text := by
  induction text with
  | nil => exact Nat.le_refl _
  | cons symbol text ih =>
      have hsymbol := size_escapeChar symbol
      rw [List.flatMap_cons, ByteText.size_append, ByteText.size_cons]
      omega

theorem size_decimal {value : ℕ} (hvalue : value < 2 ^ 64) :
    ByteText.size (Value.decimal value) ≤ 20 := by
  have hdigit : ∀ symbol ∈ Value.decimal value, symbol.utf8Size = 1 := by
    intro symbol hsymbol
    have hdigit := Nat.isDigit_of_mem_toDigits (by decide) (by decide) hsymbol
    rw [Char.isDigit, Bool.and_eq_true, decide_eq_true_eq, decide_eq_true_eq] at hdigit
    have hhigh : symbol.val ≤ 57 := hdigit.2
    rw [Char.utf8Size, if_pos (UInt32.le_trans hhigh (by decide))]
  have hlength : (Value.decimal value).length ≤ 20 :=
    (Nat.length_toDigits_le_iff (by decide) (by decide)).2
      (Nat.lt_of_lt_of_le hvalue (by decide))
  have hsize : ByteText.size (Value.decimal value) = (Value.decimal value).length := by
    rw [ByteText.size, List.map_congr_left hdigit, List.map_const', List.sum_replicate_nat,
      Nat.mul_one]
  omega

/-- The longest line the log can hold. -/
def lineCap : LineFormat → ℕ
  | .text => lineMaxBytes
  | .json => 3 * lineMaxBytes + 59

theorem length_passed_le (format : LineFormat) {line : Bytes} (hline : line.length < 2 ^ 64) :
    (passed format line).length ≤ lineCap format := by
  have hhead := size_head line
  simp only [passed, boundLine]
  split_ifs with hfits
  · rw [Option.getD_none]
    cases format with
    | json => exact Nat.le_trans hfits (by decide)
    | text => exact hfits
  · cases format with
    | json =>
        have hescape := size_escape (head line)
        have hnumber := size_decimal (UInt64.toNat_lt (UInt64.ofNat line.length))
        have hfirst : ByteText.size (Value.renderString "original_bytes") = 16 := by decide
        have hsecond : ByteText.size (Value.renderString "truncated_line") = 16 := by decide
        have hbrace : ('\x7b').utf8Size = 1 := rfl
        have hclosing : ('\x7d').utf8Size = 1 := rfl
        have hcolon : (':').utf8Size = 1 := rfl
        have hcomma : (',').utf8Size = 1 := rfl
        have hquote : ('"').utf8Size = 1 := rfl
        have htext : ByteText.size (Value.renderString (String.ofList (head line))) ≤
            6 * ByteText.size (head line) + 2 := by
          rw [Value.renderString, String.toList_ofList]
          simp only [ByteText.size_append, ByteText.size_cons, ByteText.size_nil, hquote,
            List.cons_append]
          omega
        rw [Option.getD_some, length_utf8, stub]
        simp only [Value.render, Value.renderFields, Value.renderNumber, ByteText.size_append,
          ByteText.size_cons, ByteText.size_nil, List.cons_append, hfirst, hsecond, hbrace,
          hclosing, hcolon, hcomma]
        rw [lineCap, lineMaxBytes]
        omega
    | text =>
        have hnumber := size_decimal hline
        have hbefore : ByteText.size "...[line truncated, ".toList = 20 := by decide
        have hafter : ByteText.size " bytes total]".toList = 13 := by decide
        rw [Option.getD_some, length_utf8]
        simp only [ByteText.size_append, hbefore, hafter]
        rw [lineCap, lineMaxBytes]
        omega

theorem newline_not_mem_passed (format : LineFormat) {line : Bytes} (hline : newline ∉ line) :
    newline ∉ passed format line := by
  simp only [passed, boundLine]
  split_ifs with hfits
  · exact hline
  · cases format with
    | json => exact Json.newline_not_mem_body (stub line)
    | text =>
        have hhead : '\n' ∉ head line := by
          intro hmem
          exact hline (LossyUtf8.newline_mem_decode ((begins_headFrom _ _ _).subset hmem))
        have hbefore : '\n' ∉ "...[line truncated, ".toList := by decide
        have hafter : '\n' ∉ " bytes total]".toList := by decide
        apply Json.newline_not_mem_utf8
        simp only [List.mem_append, not_or]
        exact ⟨⟨⟨hhead, hbefore⟩, Value.newline_not_mem_decimal _⟩, hafter⟩

/-- Of a line that is UTF-8 its beginning is kept. -/
theorem head_utf8 (text : List Char) : head (utf8 text) <+: text := by
  have hdecode := LossyUtf8.decode_utf8 text []
  rw [List.append_nil] at hdecode
  have hnil : LossyUtf8.decode [] = [] := rfl
  rw [hnil, List.append_nil] at hdecode
  rw [head, utf8, hdecode]
  exact begins_headFrom _ _ _

/-! ### The log as a whole -/

/-- A line of the log, and what was written for it. -/
structure Line (format : LineFormat) (line : Bytes) : Prop where
  single : newline ∉ passed format line
  bounded : (passed format line).length ≤ lineCap format
  intact : line.length ≤ lineMaxBytes → passed format line = line
  parseable : lineMaxBytes < line.length → format = .json →
    passed format line = Json.body (stub line)
  beginning : ∀ text, line = utf8 text → head line <+: text

/-- What the writer makes of a stream: each of its lines in its pieces, and last the line
that did not end. -/
structure Kept (format : LineFormat) (chunks : List Bytes) (groups : List (List Bytes))
    (last : List Bytes) : Prop where
  ended : List.Forall₂ (LineStream.Pieces (2 * lineMaxBytes))
    (LineStream.cut newline chunks.flatten).1 groups
  unended : last.flatten = (LineStream.cut newline chunks.flatten).2
  whole : (LineStream.cut newline chunks.flatten).2.length ≤ 2 * lineMaxBytes →
    last = if (LineStream.cut newline chunks.flatten).2 = [] then []
      else [(LineStream.cut newline chunks.flatten).2]
  sink : written format chunks = sinkLines format (groups.flatten ++ last)
  lines : ∀ line ∈ groups.flatten ++ last, Line format line

theorem kept_lines (format : LineFormat) (chunks : List Bytes)
    (hchunks : ∀ data ∈ chunks, data.length < 2 ^ 63) :
    ∃ groups last, Kept format chunks groups last := by
  obtain ⟨groups, last, hended, hfinish, hunended, hshort⟩ :=
    LineStream.finish_writes newline (2 * lineMaxBytes) chunks
  refine ⟨groups, last, hended, hunended, hshort, ?_, ?_⟩
  · rw [written_eq, linesOf, hfinish]
  · intro line hline
    rw [← hfinish] at hline
    have hnarrow := LineStream.mem_finish (fun data hdata => Nat.le_of_lt (hchunks data hdata))
      hline
    have hlength : line.length < 2 ^ 64 :=
      Nat.lt_of_le_of_lt hnarrow.2 (by decide)
    refine ⟨newline_not_mem_passed format hnarrow.1, length_passed_le format hlength, ?_, ?_, ?_⟩
    · intro hfits
      simp only [passed, boundLine]
      rw [if_pos hfits, Option.getD_none]
    · rintro hover rfl
      simp only [passed, boundLine]
      rw [if_neg (Nat.not_le_of_lt hover)]
      rfl
    · rintro text rfl
      exact head_utf8 text

theorem kept_lines_twoChunks :
    ∃ groups last, Kept .text [[104, 105], [10, 104]] groups last :=
  kept_lines .text [[104, 105], [10, 104]] (by decide)

/-- Where no line is over twice the cap, how the stream came in does not show. -/
theorem written_of_short (format : LineFormat) (chunks : List Bytes)
    (hlines : ∀ line ∈ (LineStream.cut newline chunks.flatten).1,
      line.length ≤ 2 * lineMaxBytes)
    (hlast : (LineStream.cut newline chunks.flatten).2.length ≤ 2 * lineMaxBytes) :
    written format chunks = written format [chunks.flatten] := by
  have hflatten : [chunks.flatten].flatten = chunks.flatten := List.flatten_singleton
  rw [written_eq, written_eq, linesOf, linesOf,
    LineStream.finish_writes_of_short hlines hlast,
    LineStream.finish_writes_of_short (by rwa [hflatten]) (by rwa [hflatten]), hflatten]

theorem written_of_short_twoChunks :
    written .json [[104, 105], [10, 104]] = written .json [[104, 105, 10, 104]] :=
  written_of_short .json [[104, 105], [10, 104]] (by decide) (by decide)

end Kitaebot.Errlog
