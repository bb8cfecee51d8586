import Kitaebot.Duty.SelfAnalysis

/-!
# What the probe sees of the journal

The writer puts a free text after a header, and the reader looks at each line on its
own.  The two agree on a journal exactly when every notification is one line, or only
has lines that look like headers, and no line of another entry looks like one.
-/

namespace Kitaebot.SelfAnalysis

open ByteText Journal

def isBlank (line : List Char) : Bool := line.all Text.isWhitespace

/-- A line as it was written, without its newline. -/
def asWritten (line : Line) : List Char := line.text ++ line.ending.filter (· ≠ '\n')

/-- The lines of an entry in the journal. -/
def entryLines (entry : Journal.Entry) : List Line := splitLines entry.written

/-- What the notify part has to show of an entry: all of a notification, blank lines
aside, and nothing of another entry. -/
def shown (entry : Journal.Entry) : List (List Char) :=
  if entry.topic = Notifier.topic then
    ((entryLines entry).filter fun line => !isBlank line.text).map asWritten
  else []

/-- The notify part of the delta past these entries shows every later notification in
full, and nothing else. -/
def SeesEvery (before later : List Journal.Entry) : Prop :=
  (journalDelta (.ok (appended (before ++ later))) (size (contents before))).map
    Prod.fst = .ok (List.intercalate ['\n'] (later.flatMap shown))

/-- The reader can tell from each line of the entry what it belongs to. -/
structure Plain (entry : Journal.Entry) : Prop where
  headed : entry.topic = Notifier.topic → ∀ line ∈ (entryLines entry).tail,
    isBlank line.text = true ∨ isNotifyEntry line.text = true
  unreturned : entry.topic = Notifier.topic → ∀ line ∈ entryLines entry,
    isBlank line.text = true ∨ '\r' ∉ line.ending
  unlike : entry.topic ≠ Notifier.topic → ∀ line ∈ entryLines entry,
    isNotifyEntry line.text = false

/-- What the reader keeps of an entry. -/
def kept (entry : Journal.Entry) : List (List Char) :=
  ((entryLines entry).map Line.text).filter isNotifyEntry

/-! ### Lists of lines -/

/-- Equal concatenations whose pieces only grow have equal pieces. -/
theorem eq_of_flatMap_eq {Item Value : Type*} {first second : Item → List Value}
    {items : List Item} (hle : ∀ item ∈ items,
      (first item).length ≤ (second item).length)
    (heq : items.flatMap first = items.flatMap second) :
    ∀ item ∈ items, first item = second item := by
  have hlength : ∀ items : List Item,
      (∀ item ∈ items, (first item).length ≤ (second item).length) →
        (items.flatMap first).length ≤ (items.flatMap second).length := by
    intro items
    induction items with
    | nil => exact fun _ => Nat.le_refl _
    | cons item items ih =>
        intro hle
        rw [List.forall_mem_cons] at hle
        simp only [List.flatMap_cons, List.length_append]
        exact Nat.add_le_add hle.1 (ih hle.2)
  induction items with
  | nil => exact fun _ hmem => absurd hmem List.not_mem_nil
  | cons item items ih =>
      rw [List.forall_mem_cons] at hle ⊢
      rw [List.flatMap_cons, List.flatMap_cons] at heq
      have htotal := congrArg List.length heq
      rw [List.length_append, List.length_append] at htotal
      have hrest := hlength items hle.2
      obtain ⟨hitem, hitems⟩ := List.append_inj heq (by omega)
      exact ⟨hitem, ih hle.2 hitems⟩

/-- Lines that are put together can be told apart again. -/
theorem intercalate_newline_inj {first second : List (List Char)}
    (hfirst : ∀ line ∈ first, line ≠ [] ∧ '\n' ∉ line)
    (hsecond : ∀ line ∈ second, line ≠ [] ∧ '\n' ∉ line)
    (heq : List.intercalate ['\n'] first = List.intercalate ['\n'] second) :
    first = second := by
  have hsplit : ∀ lines : List (List Char), lines ≠ [] →
      (∀ line ∈ lines, line ≠ [] ∧ '\n' ∉ line) →
        (List.intercalate ['\n'] lines).splitOn '\n' = lines := by
    intro lines hne hlines
    exact List.splitOn_intercalate '\n' (fun line hline => (hlines line hline).2) hne
  have hempty : ∀ lines : List (List Char),
      (∀ line ∈ lines, line ≠ [] ∧ '\n' ∉ line) →
        List.intercalate ['\n'] lines = [] → lines = [] := by
    intro lines hlines hnil
    cases lines with
    | nil => rfl
    | cons line lines =>
        have hback := hsplit (line :: lines) (List.cons_ne_nil _ _) hlines
        rw [hnil] at hback
        have hline : line = [] := (List.cons.inj hback).1.symm
        exact absurd hline (hlines line List.mem_cons_self).1
  rcases eq_or_ne first [] with rfl | hne
  · exact (hempty second hsecond heq.symm).symm
  · rcases eq_or_ne second [] with rfl | hne'
    · exact absurd (hempty first hfirst heq) hne
    · rw [← hsplit first hne hfirst, heq, hsplit second hne' hsecond]

/-! ### The lines of the journal -/

theorem getLast_written (entry : Journal.Entry) : entry.written.getLast? = some '\n' := by
  rw [Journal.Entry.written, List.getLast?_append]
  rfl

theorem splitLines_contents (entries : List Journal.Entry) :
    splitLines (contents entries) = entries.flatMap entryLines := by
  induction entries with
  | nil => rfl
  | cons entry entries ih =>
      rw [contents, List.flatMap_cons, splitLines_append (getLast_written entry),
        List.flatMap_cons, ← ih]
      rfl

/-- The reader keeps what it keeps of each entry. -/
theorem journalDelta_appended (before later : List Journal.Entry) :
    (journalDelta (.ok (appended (before ++ later))) (size (contents before))).map
      Prod.fst = .ok (List.intercalate ['\n'] (later.flatMap kept)) := by
  have hlines : (lines (contents later)).filter isNotifyEntry = later.flatMap kept := by
    rw [lines, splitLines_contents, List.map_flatMap, List.filter_flatMap]
    rfl
  cases hentries : before ++ later with
  | nil =>
      obtain ⟨rfl, rfl⟩ := List.append_eq_nil_iff.1 hentries
      rfl
  | cons entry entries =>
      rw [appended_cons, ← hentries, contents_append, journalDelta]
      simp only [tail?_append, Except.map]
      rw [hlines]

/-- An entry of the notifier begins with a line that has its header. -/
theorem entryLines_eq_cons {entry : Journal.Entry} (htopic : entry.topic = Notifier.topic) :
    ∃ line rest, entryLines entry = line :: rest ∧ entry.header <+: line.text := by
  have hheader : '\n' ∉ entry.header := by
    apply newline_not_mem_header
    rw [htopic]
    decide
  have hlast : entry.header.getLast? ≠ some '\r' := by
    rw [Journal.Entry.header, List.getLast?_append]
    intro hreturn
    have hspace : some ' ' = some '\r' := hreturn
    exact absurd hspace (by decide)
  obtain ⟨middle, rest, hlines⟩ := linesFrom_eq_cons entry.header entry.stored ['\n']
  refine ⟨_, rest, ?_, isPrefix_text_endedLine hlast middle⟩
  rw [← hlines, entryLines, splitLines, Journal.Entry.written, List.append_assoc,
    linesFrom_of_no_newline hheader, List.nil_append]

theorem isBlank_of_isNotifyEntry {line : List Char} (hentry : isNotifyEntry line = true) :
    isBlank line = false := by
  have hhead := (isNotifyEntry_iff.1 hentry).1
  cases line with
  | nil => cases hhead
  | cons symbol line =>
      rw [List.head?_cons, Option.some.injEq] at hhead
      rw [hhead]
      rfl

theorem ne_nil_of_isBlank {line : List Char} (hblank : isBlank line = false) :
    line ≠ [] := by
  rintro rfl
  cases hblank

theorem asWritten_cases {entry : Journal.Entry} {line : Line} (hline : line ∈ entryLines entry) :
    asWritten line = line.text ∧ '\r' ∉ line.ending ∨
      asWritten line = line.text ++ ['\r'] ∧ '\r' ∈ line.ending := by
  obtain (hending | hending) | hending := ending_linesFrom [] _ hline
  · exact .inl (by simp [asWritten, hending])
  · exact .inr (by simp [asWritten, hending])
  · exact .inl (by simp [asWritten, hending])

theorem newline_not_mem_text {entry : Journal.Entry} {line : Line}
    (hline : line ∈ entryLines entry) : '\n' ∉ line.text :=
  newline_not_mem_linesFrom List.not_mem_nil _ hline

/-! ### Reader and writer -/

theorem mem_kept {entry : Journal.Entry} {text : List Char} (htext : text ∈ kept entry) :
    text ≠ [] ∧ '\n' ∉ text := by
  rw [kept, List.mem_filter, List.mem_map] at htext
  obtain ⟨⟨line, hline, rfl⟩, hentry⟩ := htext
  exact ⟨ne_nil_of_isBlank (isBlank_of_isNotifyEntry hentry),
    newline_not_mem_text hline⟩

theorem shown_of_eq {entry : Journal.Entry} (htopic : entry.topic = Notifier.topic) :
    shown entry =
      ((entryLines entry).filter fun line => !isBlank line.text).map asWritten :=
  if_pos htopic

theorem shown_of_ne {entry : Journal.Entry} (htopic : entry.topic ≠ Notifier.topic) :
    shown entry = [] :=
  if_neg htopic

theorem mem_shown {entry : Journal.Entry} {text : List Char} (htext : text ∈ shown entry) :
    text ≠ [] ∧ '\n' ∉ text := by
  by_cases htopic : entry.topic = Notifier.topic
  · rw [shown_of_eq htopic, List.mem_map] at htext
    obtain ⟨line, hmem, rfl⟩ := htext
    obtain ⟨hline, hblank⟩ := List.mem_filter.1 hmem
    rw [Bool.not_eq_true'] at hblank
    constructor
    · exact fun hnil => ne_nil_of_isBlank hblank (List.append_eq_nil_iff.1 hnil).1
    · intro hnewline
      obtain htext | hending := List.mem_append.1 hnewline
      · exact newline_not_mem_text hline htext
      · exact absurd (List.mem_filter.1 hending).2 (by decide)
  · rw [shown_of_ne htopic] at htext
    cases htext

/-- Of a notification whose lines all look like one, all is kept. -/
theorem kept_of_headed {entry : Journal.Entry}
    (hlines : ∀ line ∈ entryLines entry,
      isBlank line.text = true ∨ isNotifyEntry line.text = true) :
    kept entry = ((entryLines entry).filter fun line => !isBlank line.text).map
      Line.text := by
  have hsame : ∀ line ∈ entryLines entry,
      (isNotifyEntry ∘ Line.text) line = !isBlank line.text := by
    intro line hline
    rw [Function.comp_apply]
    cases hentry : isNotifyEntry line.text with
    | true => rw [isBlank_of_isNotifyEntry hentry, Bool.not_false]
    | false =>
        have hblank := (hlines line hline).resolve_right (Bool.eq_false_iff.1 hentry)
        rw [hblank, Bool.not_true]
  rw [kept, List.filter_map, List.filter_congr hsame]

/-- Every line of a plain notification is blank or looks like one. -/
theorem Plain.all_headed {entry : Journal.Entry} (hplain : Plain entry)
    (htopic : entry.topic = Notifier.topic) : ∀ line ∈ entryLines entry,
      isBlank line.text = true ∨ isNotifyEntry line.text = true := by
  obtain ⟨first, rest, hlines, hheader⟩ := entryLines_eq_cons htopic
  have hrest := hplain.headed htopic
  rw [hlines, List.tail_cons] at hrest
  rw [hlines, List.forall_mem_cons]
  exact ⟨.inr (isNotifyEntry_of_header htopic hheader), hrest⟩

theorem Plain.kept_eq {entry : Journal.Entry} (hplain : Plain entry) :
    kept entry = shown entry := by
  by_cases htopic : entry.topic = Notifier.topic
  · rw [kept_of_headed (hplain.all_headed htopic), shown_of_eq htopic]
    apply List.map_congr_left
    intro line hmem
    obtain ⟨hline, hblank⟩ := List.mem_filter.1 hmem
    have hreturn : '\r' ∉ line.ending := by
      apply (hplain.unreturned htopic line hline).resolve_left
      simpa using hblank
    obtain ⟨hwritten, _⟩ | ⟨_, hmem⟩ := asWritten_cases hline
    · exact hwritten.symm
    · exact absurd hmem hreturn
  · rw [shown_of_ne htopic, kept, List.filter_eq_nil_iff, List.forall_mem_map]
    intro line hline
    rw [hplain.unlike htopic line hline]
    exact Bool.false_ne_true

/-- Where all that should be shown is kept of some entry, a notification has only lines
that look like one. -/
theorem headed_of_shown {entry : Journal.Entry} (htopic : entry.topic = Notifier.topic)
    (hshown : ∀ text ∈ shown entry, isNotifyEntry text = true) :
    ∀ line ∈ entryLines entry,
      isBlank line.text = true ∨ isNotifyEntry line.text = true := by
  intro line hline
  cases hblank : isBlank line.text with
  | true => exact .inl rfl
  | false =>
      right
      have hentry : isNotifyEntry (asWritten line) = true := by
        apply hshown
        rw [shown_of_eq htopic]
        exact List.mem_map_of_mem (List.mem_filter.2 ⟨hline, by rw [hblank]; rfl⟩)
      obtain ⟨hwritten, _⟩ | ⟨hwritten, _⟩ := asWritten_cases hline
      · rwa [hwritten] at hentry
      · rw [hwritten] at hentry
        exact isNotifyEntry_of_append_return hentry

theorem plain_of_kept_eq {entry : Journal.Entry} (heq : shown entry = kept entry) :
    Plain entry := by
  have hentries : ∀ text ∈ shown entry, isNotifyEntry text = true := by
    intro text htext
    rw [heq] at htext
    exact (List.mem_filter.1 htext).2
  refine ⟨fun htopic line hline => ?_, fun htopic line hline => ?_,
    fun htopic line hline => ?_⟩
  · exact headed_of_shown htopic hentries line (List.mem_of_mem_tail hline)
  · cases hblank : isBlank line.text with
    | true => exact .inl rfl
    | false =>
        right
        intro hreturn
        rw [shown_of_eq htopic, kept_of_headed (headed_of_shown htopic hentries)] at heq
        have hline : line ∈ (entryLines entry).filter fun line => !isBlank line.text :=
          List.mem_filter.2 ⟨hline, by rw [hblank]; rfl⟩
        have hsame : asWritten line = line.text := List.map_inj_left.1 heq line hline
        obtain ⟨_, hno⟩ | ⟨hwritten, _⟩ :=
          asWritten_cases (List.mem_filter.1 hline).1
        · exact hno hreturn
        · rw [hwritten] at hsame
          exact absurd hsame (by simp)
  · rw [shown_of_ne htopic] at heq
    have hnone := List.filter_eq_nil_iff.1 heq.symm line.text
      (List.mem_map_of_mem hline)
    exact Bool.eq_false_iff.2 hnone

/-- The notify part shows every later notification in full and nothing else exactly
when every later entry is plain. -/
theorem seesEvery_iff (before later : List Journal.Entry) :
    SeesEvery before later ↔ ∀ entry ∈ later, Plain entry := by
  have hdelta : SeesEvery before later ↔ later.flatMap shown = later.flatMap kept := by
    rw [SeesEvery, journalDelta_appended, Except.ok.injEq]
    constructor
    · intro htexts
      apply intercalate_newline_inj _ _ htexts.symm
      · intro text hmem
        obtain ⟨entry, _, htext⟩ := List.mem_flatMap.1 hmem
        exact mem_shown htext
      · intro text hmem
        obtain ⟨entry, _, htext⟩ := List.mem_flatMap.1 hmem
        exact mem_kept htext
    · exact fun hlines => by rw [hlines]
  rw [hdelta]
  constructor
  · intro hlines
    have hentries : ∀ text ∈ later.flatMap shown, isNotifyEntry text = true := by
      intro text hmem
      rw [hlines] at hmem
      obtain ⟨entry, _, htext⟩ := List.mem_flatMap.1 hmem
      exact (List.mem_filter.1 htext).2
    have hle : ∀ entry ∈ later, (shown entry).length ≤ (kept entry).length := by
      intro entry hentry
      by_cases htopic : entry.topic = Notifier.topic
      · have hheaded := headed_of_shown htopic fun text htext =>
          hentries text (List.mem_flatMap.2 ⟨entry, hentry, htext⟩)
        rw [shown_of_eq htopic, kept_of_headed hheaded, List.length_map,
          List.length_map]
      · rw [shown_of_ne htopic]
        exact Nat.zero_le _
    intro entry hentry
    exact plain_of_kept_eq (eq_of_flatMap_eq hle hlines entry hentry)
  · intro hplain
    apply List.flatMap_congr
    intro entry hentry
    exact ((hplain entry hentry).kept_eq).symm

/-- A batch of two messages is one entry of the notifier. -/
def batchOfTwo : Notifier :=
  ((Notifier.notify ⟨.new, []⟩ 0 ['a'] .low).notify 0 ['b'] .low).flush 0

/-- The probe sees only the first message of a batch. -/
theorem batch_unseen : ¬ SeesEvery [] batchOfTwo.log := by
  unfold SeesEvery
  decide

end Kitaebot.SelfAnalysis
