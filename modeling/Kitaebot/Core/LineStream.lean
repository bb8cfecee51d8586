import Mathlib.Data.List.Forall2
import Mathlib.Data.Nat.Notation

/-!
# Lines out of chunks

A stream comes in chunks of any sizes and goes out line by line.  What is held back is
the line that has not ended; when it grows past a limit it goes out as it is.  Which
chunks the stream came in does not show, but in where overlong lines were broken.
-/

namespace Kitaebot.LineStream

variable {Symbol : Type} [DecidableEq Symbol]

/-- The lines that have ended, without their separators, and what follows the last. -/
def cut (separator : Symbol) : List Symbol → List (List Symbol) × List Symbol
  | [] => ([], [])
  | symbol :: rest =>
      if symbol = separator then ([] :: (cut separator rest).1, (cut separator rest).2)
      else
        match (cut separator rest).1 with
        | [] => ([], symbol :: (cut separator rest).2)
        | line :: lines => ((symbol :: line) :: lines, (cut separator rest).2)

/-- What has gone out, and the line that has not ended. -/
structure Splitter (Symbol : Type) where
  out : List (List Symbol)
  buf : List Symbol

/-- Take in one chunk. -/
def write (separator : Symbol) (limit : ℕ) (splitter : Splitter Symbol)
    (data : List Symbol) : Splitter Symbol :=
  let (lines, rest) := cut separator (splitter.buf ++ data)
  if limit < rest.length then ⟨splitter.out ++ lines ++ [rest], []⟩
  else ⟨splitter.out ++ lines, rest⟩

/-- What goes out in all, the line that has not ended last. -/
def finish (splitter : Splitter Symbol) : List (List Symbol) :=
  if splitter.buf = [] then splitter.out else splitter.out ++ [splitter.buf]

def writes (separator : Symbol) (limit : ℕ) (chunks : List (List Symbol)) :
    Splitter Symbol :=
  chunks.foldl (write separator limit) ⟨[], []⟩

section Cut

variable {separator : Symbol}

/-- A part without separators only lengthens the first line. -/
theorem cut_append_left {front : List Symbol} (hfront : separator ∉ front)
    (rest : List Symbol) :
    cut separator (front ++ rest) =
      match (cut separator rest).1 with
      | [] => ([], front ++ (cut separator rest).2)
      | line :: lines => ((front ++ line) :: lines, (cut separator rest).2) := by
  induction front with
  | nil =>
      rw [List.nil_append]
      rcases hcut : cut separator rest with ⟨lines, last⟩
      cases lines <;> rfl
  | cons symbol front ih =>
      rw [List.mem_cons, not_or] at hfront
      rw [List.cons_append, cut, if_neg (Ne.symm hfront.1), ih hfront.2]
      rcases cut separator rest with ⟨lines, last⟩
      cases lines <;> rfl

/-- What has not ended holds no separator. -/
theorem not_mem_cut_rest (separator : Symbol) (stream : List Symbol) :
    separator ∉ (cut separator stream).2 := by
  induction stream with
  | nil => exact List.not_mem_nil
  | cons symbol rest ih =>
      rw [cut]
      split_ifs with hsymbol
      · exact ih
      · rcases hcut : cut separator rest with ⟨lines, last⟩
        rw [hcut] at ih
        cases lines with
        | nil =>
            intro hmem
            rcases List.mem_cons.1 hmem with heq | hmem
            · exact hsymbol heq.symm
            · exact ih hmem
        | cons line lines => exact ih

theorem not_mem_of_mem_cut (separator : Symbol) {stream line : List Symbol}
    (hline : line ∈ (cut separator stream).1) : separator ∉ line := by
  induction stream generalizing line with
  | nil => cases hline
  | cons symbol rest ih =>
      rw [cut] at hline
      split_ifs at hline with hsymbol
      · rcases List.mem_cons.1 hline with rfl | hlater
        · exact List.not_mem_nil
        · exact ih hlater
      · rcases hcut : cut separator rest with ⟨lines, last⟩
        rw [hcut] at hline ih
        cases lines with
        | nil => cases hline
        | cons first lines =>
            rcases List.mem_cons.1 hline with rfl | hlater
            · intro hmem
              rcases List.mem_cons.1 hmem with heq | hmem
              · exact hsymbol heq.symm
              · exact ih List.mem_cons_self hmem
            · exact ih (List.mem_cons_of_mem first hlater)

theorem cut_of_not_mem {stream : List Symbol} (hstream : separator ∉ stream) :
    cut separator stream = ([], stream) := by
  have hcut := cut_append_left hstream []
  rw [List.append_nil] at hcut
  rw [hcut, cut, List.append_nil]

/-- The first line is what stands before the first separator. -/
theorem cut_of_mem {stream : List Symbol} (hstream : separator ∈ stream) :
    cut separator stream =
      (stream.take (stream.idxOf separator) ::
          (cut separator (stream.drop (stream.idxOf separator + 1))).1,
        (cut separator (stream.drop (stream.idxOf separator + 1))).2) := by
  have hsplit : stream = stream.take (stream.idxOf separator) ++
      separator :: stream.drop (stream.idxOf separator + 1) := by
    have hindex := List.idxOf_lt_length_of_mem hstream
    calc stream
        = stream.take (stream.idxOf separator) ++ stream.drop (stream.idxOf separator) :=
          (List.take_append_drop _ _).symm
      _ = _ := by rw [List.drop_eq_getElem_cons hindex, List.getElem_idxOf]
  have hfront : separator ∉ stream.take (stream.idxOf separator) := by
    intro hmem
    have hindex := (List.mem_take_iff_idxOf_lt hstream).1 hmem
    exact Nat.lt_irrefl _ hindex
  conv_lhs => rw [hsplit, cut_append_left hfront, cut, if_pos rfl]
  simp only [List.append_nil]

/-- Only what has not ended meets the next chunk. -/
theorem cut_append (separator : Symbol) (stream data : List Symbol) :
    cut separator (stream ++ data) =
      ((cut separator stream).1 ++ (cut separator ((cut separator stream).2 ++ data)).1,
        (cut separator ((cut separator stream).2 ++ data)).2) := by
  induction stream with
  | nil => rfl
  | cons symbol rest ih =>
      rw [List.cons_append, cut, cut, ih]
      split_ifs with hsymbol
      · rfl
      · rcases hcut : cut separator rest with ⟨lines, last⟩
        cases lines with
        | cons line lines => rfl
        | nil =>
            have hlast := not_mem_cut_rest separator rest
            rw [hcut] at hlast
            have hfront : separator ∉ symbol :: last := by
              rw [List.mem_cons, not_or]
              exact ⟨Ne.symm hsymbol, hlast⟩
            simp only [List.nil_append]
            rw [cut_append_left hfront, cut_append_left hlast]
            rcases cut separator data with ⟨later, end_⟩
            cases later <;> rfl

end Cut

/-! ### Lines and their pieces -/

/-- How a line went out: whole, unless it is over the limit. -/
def Pieces (limit : ℕ) (line : List Symbol) (pieces : List (List Symbol)) : Prop :=
  pieces.flatten = line ∧ (line.length ≤ limit → pieces = [line])

/-- What has gone out of a stream: its ended lines, and the beginning of the last where
that has grown past the limit. -/
structure Follows (separator : Symbol) (limit : ℕ) (stream : List Symbol)
    (splitter : Splitter Symbol) (groups : List (List (List Symbol)))
    (broken : List (List Symbol)) : Prop where
  pieces : List.Forall₂ (Pieces limit) (cut separator stream).1 groups
  out : splitter.out = groups.flatten ++ broken
  rest : (cut separator stream).2 = broken.flatten ++ splitter.buf
  short : broken.flatten.length ≤ limit → broken = []
  buf : splitter.buf.length ≤ limit

section Follows

variable {separator : Symbol} {limit : ℕ} {stream : List Symbol}
  {splitter : Splitter Symbol} {groups : List (List (List Symbol))}
  {broken : List (List Symbol)}

theorem follows_start : Follows separator limit [] ⟨[], []⟩ [] [] where
  pieces := .nil
  out := rfl
  rest := rfl
  short _ := rfl
  buf := Nat.zero_le _

omit [DecidableEq Symbol] in
theorem forall₂_wholes (limit : ℕ) (lines : List (List Symbol)) :
    List.Forall₂ (Pieces limit) lines (lines.map fun line => [line]) := by
  induction lines with
  | nil => exact .nil
  | cons line lines ih => exact .cons ⟨List.flatten_singleton, fun _ => rfl⟩ ih

omit [DecidableEq Symbol] in
theorem flatten_wholes (lines : List (List Symbol)) :
    (lines.map fun line => [line]).flatten = lines := by
  induction lines with
  | nil => rfl
  | cons line lines ih => rw [List.map_cons, List.flatten_cons, ih, List.singleton_append]

/-- The part that has gone out already is the beginning of the line. -/
theorem Follows.ended (hfollows : Follows separator limit stream splitter groups broken)
    (line : List Symbol) : Pieces limit (broken.flatten ++ line) (broken ++ [line]) := by
  constructor
  · rw [List.flatten_append, List.flatten_singleton]
  · intro hlength
    rw [List.length_append] at hlength
    have hnone := hfollows.short (Nat.le_trans (Nat.le_add_right _ _) hlength)
    rw [hnone]
    rfl

/-- One more chunk. -/
theorem follows_write (hfollows : Follows separator limit stream splitter groups broken)
    (data : List Symbol) :
    ∃ groups broken, Follows separator limit (stream ++ data)
      (write separator limit splitter data) groups broken := by
  have hfront : separator ∉ broken.flatten := by
    have hrest := not_mem_cut_rest separator stream
    rw [hfollows.rest, List.mem_append, not_or] at hrest
    exact hrest.1
  have hstream := cut_append separator stream data
  rw [hfollows.rest, List.append_assoc, cut_append_left hfront] at hstream
  simp only [write]
  rcases hcut : cut separator (splitter.buf ++ data) with ⟨lines, rest⟩
  rw [hcut] at hstream
  cases lines with
  | nil =>
      dsimp only at hstream ⊢
      rw [List.append_nil] at hstream ⊢
      split_ifs with hover
      · refine ⟨groups, broken ++ [rest], ?_, ?_, ?_, ?_, Nat.zero_le _⟩
        · rw [hstream]
          exact hfollows.pieces
        · rw [hfollows.out, List.append_assoc]
        · rw [hstream, List.append_nil, List.flatten_append, List.flatten_singleton]
        · intro hlength
          rw [List.flatten_append, List.flatten_singleton, List.length_append] at hlength
          omega
      · refine ⟨groups, broken, ?_, hfollows.out, ?_, hfollows.short, Nat.le_of_not_lt hover⟩
        · rw [hstream]
          exact hfollows.pieces
        · rw [hstream]
  | cons line lines =>
      dsimp only at hstream ⊢
      have hpieces : List.Forall₂ (Pieces limit) (cut separator (stream ++ data)).1
          (groups ++ (broken ++ [line]) :: lines.map fun line => [line]) := by
        rw [hstream]
        exact List.rel_append hfollows.pieces
          (.cons (hfollows.ended line) (forall₂_wholes limit lines))
      have hout : splitter.out ++ line :: lines =
          (groups ++ (broken ++ [line]) :: lines.map fun line => [line]).flatten := by
        rw [List.flatten_append, List.flatten_cons, flatten_wholes, hfollows.out,
          List.append_assoc, List.append_assoc, List.singleton_append]
      split_ifs with hover
      · refine ⟨_, [rest], hpieces, ?_, ?_, ?_, Nat.zero_le _⟩
        · rw [hout]
        · rw [hstream, List.flatten_singleton, List.append_nil]
        · intro hlength
          rw [List.flatten_singleton] at hlength
          omega
      · refine ⟨_, [], hpieces, ?_, ?_, fun _ => rfl, Nat.le_of_not_lt hover⟩
        · rw [hout, List.append_nil]
        · rw [hstream]
          rfl

end Follows

theorem follows_writes (separator : Symbol) (limit : ℕ) (chunks : List (List Symbol)) :
    ∃ groups broken, Follows separator limit chunks.flatten
      (writes separator limit chunks) groups broken := by
  have hrun : ∀ (chunks : List (List Symbol)) {stream : List Symbol}
      {splitter : Splitter Symbol} {groups : List (List (List Symbol))}
      {broken : List (List Symbol)},
      Follows separator limit stream splitter groups broken →
      ∃ groups broken, Follows separator limit (stream ++ chunks.flatten)
        (chunks.foldl (write separator limit) splitter) groups broken := by
    intro chunks
    induction chunks with
    | nil =>
        intro stream splitter groups broken hfollows
        refine ⟨groups, broken, ?_⟩
        rw [List.flatten_nil, List.append_nil]
        exact hfollows
    | cons data chunks ih =>
        intro stream splitter groups broken hfollows
        obtain ⟨_, _, hnext⟩ := follows_write hfollows data
        rw [List.flatten_cons, ← List.append_assoc]
        exact ih hnext
  exact hrun chunks follows_start

/-- Every ended line goes out in its pieces, in order, and last what has not ended; a
line within the limit goes out whole, whatever the chunks. -/
theorem finish_writes (separator : Symbol) (limit : ℕ) (chunks : List (List Symbol)) :
    ∃ groups last,
      List.Forall₂ (Pieces limit) (cut separator chunks.flatten).1 groups ∧
      finish (writes separator limit chunks) = groups.flatten ++ last ∧
      last.flatten = (cut separator chunks.flatten).2 ∧
      ((cut separator chunks.flatten).2.length ≤ limit →
        last = if (cut separator chunks.flatten).2 = [] then []
          else [(cut separator chunks.flatten).2]) := by
  obtain ⟨groups, broken, hfollows⟩ := follows_writes separator limit chunks
  rw [hfollows.rest, finish, hfollows.out]
  by_cases hbuf : (writes separator limit chunks).buf = []
  · rw [if_pos hbuf, hbuf, List.append_nil]
    refine ⟨groups, broken, hfollows.pieces, rfl, rfl, fun hlength => ?_⟩
    rw [hfollows.short hlength]
    rfl
  · rw [if_neg hbuf]
    refine ⟨groups, broken ++ [(writes separator limit chunks).buf], hfollows.pieces,
      List.append_assoc _ _ _, ?_, fun hlength => ?_⟩
    · rw [List.flatten_append, List.flatten_singleton]
    · rw [List.length_append] at hlength
      rw [hfollows.short (Nat.le_trans (Nat.le_add_right _ _) hlength)]
      simp only [List.flatten_nil, List.nil_append]
      rw [if_neg hbuf]

/-- Where no line is over the limit, each goes out whole. -/
theorem finish_writes_of_short {separator : Symbol} {limit : ℕ} {chunks : List (List Symbol)}
    (hlines : ∀ line ∈ (cut separator chunks.flatten).1, line.length ≤ limit)
    (hlast : (cut separator chunks.flatten).2.length ≤ limit) :
    finish (writes separator limit chunks) =
      (cut separator chunks.flatten).1 ++
        if (cut separator chunks.flatten).2 = [] then []
        else [(cut separator chunks.flatten).2] := by
  obtain ⟨groups, last, hpieces, hfinish, _, hshort⟩ := finish_writes separator limit chunks
  have hgroups : groups.flatten = (cut separator chunks.flatten).1 := by
    clear hfinish
    generalize (cut separator chunks.flatten).1 = lines at hlines hpieces
    induction hpieces with
    | nil => rfl
    | cons hline _ ih =>
        rw [List.forall_mem_cons] at hlines
        rw [List.flatten_cons, hline.2 hlines.1, ih hlines.2, List.singleton_append]
  rw [hfinish, hgroups, hshort hlast]

/-! ### What a line can be -/

theorem length_cut_rest_le (separator : Symbol) (stream : List Symbol) :
    (cut separator stream).2.length ≤ stream.length := by
  induction stream with
  | nil => exact Nat.le_refl _
  | cons symbol rest ih =>
      rw [cut, List.length_cons]
      split_ifs with hsymbol
      · exact Nat.le_succ_of_le ih
      · rcases hcut : cut separator rest with ⟨lines, last⟩
        rw [hcut] at ih
        cases lines with
        | nil => exact Nat.succ_le_succ ih
        | cons line lines => exact Nat.le_succ_of_le ih

theorem length_le_of_mem_cut (separator : Symbol) {stream line : List Symbol}
    (hline : line ∈ (cut separator stream).1) : line.length ≤ stream.length := by
  induction stream generalizing line with
  | nil => cases hline
  | cons symbol rest ih =>
      rw [cut] at hline
      rw [List.length_cons]
      split_ifs at hline with hsymbol
      · rcases List.mem_cons.1 hline with rfl | hlater
        · exact Nat.zero_le _
        · exact Nat.le_succ_of_le (ih hlater)
      · rcases hcut : cut separator rest with ⟨lines, last⟩
        rw [hcut] at hline ih
        cases lines with
        | nil => cases hline
        | cons first lines =>
            rcases List.mem_cons.1 hline with rfl | hlater
            · exact Nat.succ_le_succ (ih List.mem_cons_self)
            · exact Nat.le_succ_of_le (ih (List.mem_cons_of_mem first hlater))

/-- What goes out has no separator, and is not much longer than one chunk. -/
structure Narrow (separator : Symbol) (limit widest : ℕ) (splitter : Splitter Symbol) :
    Prop where
  out : ∀ line ∈ splitter.out, separator ∉ line ∧ line.length ≤ limit + widest
  clean : separator ∉ splitter.buf
  buf : splitter.buf.length ≤ limit

theorem narrow_write {separator : Symbol} {limit widest : ℕ} {splitter : Splitter Symbol}
    (hnarrow : Narrow separator limit widest splitter) {data : List Symbol}
    (hdata : data.length ≤ widest) :
    Narrow separator limit widest (write separator limit splitter data) := by
  have hlength : (splitter.buf ++ data).length ≤ limit + widest := by
    rw [List.length_append]
    exact Nat.add_le_add hnarrow.buf hdata
  have hrest := not_mem_cut_rest separator (splitter.buf ++ data)
  have hlines : ∀ line ∈ splitter.out ++ (cut separator (splitter.buf ++ data)).1,
      separator ∉ line ∧ line.length ≤ limit + widest := by
    intro line hline
    rcases List.mem_append.1 hline with hout | hcut
    · exact hnarrow.out line hout
    · exact ⟨not_mem_of_mem_cut separator hcut,
        Nat.le_trans (length_le_of_mem_cut separator hcut) hlength⟩
  simp only [write]
  by_cases hover : limit < (cut separator (splitter.buf ++ data)).2.length
  · rw [if_pos hover]
    refine ⟨?_, List.not_mem_nil, Nat.zero_le _⟩
    intro line hline
    rcases List.mem_append.1 hline with hline | hline
    · exact hlines line hline
    · rw [List.mem_singleton.1 hline]
      exact ⟨hrest, Nat.le_trans (length_cut_rest_le separator _) hlength⟩
  · rw [if_neg hover]
    exact ⟨hlines, hrest, Nat.le_of_not_lt hover⟩

theorem narrow_writes {separator : Symbol} {limit widest : ℕ} {chunks : List (List Symbol)}
    (hchunks : ∀ data ∈ chunks, data.length ≤ widest) :
    Narrow separator limit widest (writes separator limit chunks) := by
  have hrun : ∀ (chunks : List (List Symbol)) {splitter : Splitter Symbol},
      (∀ data ∈ chunks, data.length ≤ widest) →
      Narrow separator limit widest splitter →
      Narrow separator limit widest (chunks.foldl (write separator limit) splitter) := by
    intro chunks
    induction chunks with
    | nil =>
        intro splitter _ hnarrow
        exact hnarrow
    | cons data chunks ih =>
        intro splitter hchunks hnarrow
        rw [List.forall_mem_cons] at hchunks
        exact ih hchunks.2 (narrow_write hnarrow hchunks.1)
  refine hrun chunks hchunks ⟨?_, List.not_mem_nil, Nat.zero_le _⟩
  intro line hline
  cases hline

theorem mem_finish {separator : Symbol} {limit widest : ℕ} {chunks : List (List Symbol)}
    (hchunks : ∀ data ∈ chunks, data.length ≤ widest) {line : List Symbol}
    (hline : line ∈ finish (writes separator limit chunks)) :
    separator ∉ line ∧ line.length ≤ limit + widest := by
  have hnarrow : Narrow separator limit widest (writes separator limit chunks) :=
    narrow_writes hchunks
  rw [finish] at hline
  split_ifs at hline with hbuf
  · exact hnarrow.out line hline
  · rcases List.mem_append.1 hline with hout | hlast
    · exact hnarrow.out line hout
    · rw [List.mem_singleton.1 hlast]
      exact ⟨hnarrow.clean, Nat.le_trans hnarrow.buf (Nat.le_add_right _ _)⟩

end Kitaebot.LineStream
