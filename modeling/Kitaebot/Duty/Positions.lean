import Kitaebot.Duty.Scheduler

/-!
# Positions in the symptom sources

A position splits a source into what was read and what is still unread.  Growth only
adds to what is unread, and a probe takes exactly what is unread.
-/

namespace Kitaebot.Scheduler

open ByteText SelfAnalysis

/-- A date-named file and what it holds. -/
abbrev TeeFile := String × List Char

/-- What the files hold, oldest first. -/
def teeText (files : List TeeFile) : List Char := files.flatMap Prod.snd

/-- The files are named in the order in which they were written. -/
def Chronological (files : List TeeFile) : Prop :=
  files.Pairwise fun first second => first.1 < second.1

/-- An offset splits the journal. -/
def SplitsJournal (journal : Option (List Char)) (offset : ℕ)
    (read unread : List Char) : Prop :=
  journal.getD [] = read ++ unread ∧ offset = size read

/-- A file and an offset in it split the error files; no file, and nothing is read. -/
def SplitsErrors (files : List TeeFile) (file : Option String) (offset : ℕ)
    (read unread : List Char) : Prop :=
  match file with
  | none => read = [] ∧ unread = teeText files
  | some name => ∃ older here rest newer,
      files = older ++ (name, here ++ rest) :: newer ∧ offset = size here ∧
        read = teeText older ++ here ∧ unread = rest ++ teeText newer

/-- A cursor splits both sources. -/
structure Splits (disk : Disk) (cursor : Cursor)
    (readJournal unreadJournal readErrors unreadErrors : List Char) : Prop where
  journal : SplitsJournal disk.journal cursor.journal readJournal unreadJournal
  errors : SplitsErrors disk.errors cursor.errorsFile cursor.errorsOffset readErrors
    unreadErrors

@[simp]
theorem teeText_nil : teeText [] = [] := rfl

@[simp]
theorem teeText_cons (file : TeeFile) (files : List TeeFile) :
    teeText (file :: files) = file.2 ++ teeText files := rfl

@[simp]
theorem teeText_append (first second : List TeeFile) :
    teeText (first ++ second) = teeText first ++ teeText second :=
  List.flatMap_append

/-! ### Growth -/

theorem SplitsJournal.write {journal : Option (List Char)} {offset : ℕ}
    {read unread : List Char} (hsplits : SplitsJournal journal offset read unread)
    (text : List Char) :
    SplitsJournal (some (journal.getD [] ++ text)) offset read (unread ++ text) := by
  refine ⟨?_, hsplits.2⟩
  rw [Option.getD_some, hsplits.1, List.append_assoc]

theorem logError_append_singleton (text : List Char) (older : List TeeFile)
    (file : TeeFile) :
    logError text (older ++ [file]) = older ++ [(file.1, file.2 ++ text)] := by
  induction older with
  | nil => rfl
  | cons first older ih =>
      cases hrest : older ++ [file] with
      | nil => exact absurd hrest (by simp)
      | cons second rest =>
          rw [List.cons_append, hrest, logError, ← hrest, ih, List.cons_append]
          exact fun _ _ _ hnil => List.cons_ne_nil _ _ hnil

theorem eq_nil_or_concat (files : List TeeFile) :
    files = [] ∨ ∃ older file, files = older ++ [file] := by
  rcases eq_or_ne files [] with hnil | hne
  · exact .inl hnil
  · exact .inr ⟨_, _, (List.dropLast_append_getLast hne).symm⟩

theorem Chronological.logError {files : List TeeFile} (hfiles : Chronological files)
    (text : List Char) : Chronological (logError text files) := by
  obtain rfl | ⟨older, file, rfl⟩ := eq_nil_or_concat files
  · exact hfiles
  · rw [logError_append_singleton]
    obtain ⟨holder, _, hcross⟩ := List.pairwise_append.1 hfiles
    apply List.pairwise_append.2 ⟨holder, List.pairwise_singleton .., ?_⟩
    intro first hfirst second hsecond
    rw [List.mem_singleton.1 hsecond]
    exact hcross first hfirst file (List.mem_singleton.2 rfl)

theorem Chronological.roll {files : List TeeFile} (hfiles : Chronological files)
    (name : String) : Chronological (roll name files) := by
  rw [Scheduler.roll]
  split
  · next hlater =>
      apply List.pairwise_append.2 ⟨hfiles, List.pairwise_singleton .., ?_⟩
      intro first hfirst second hsecond
      rw [List.mem_singleton.1 hsecond]
      exact of_decide_eq_true (List.all_eq_true.1 hlater first hfirst)
  · exact hfiles

section Growth

variable {files : List TeeFile} {file : Option String} {offset : ℕ}
  {read unread : List Char}

/-- An error event adds to what is unread. -/
theorem SplitsErrors.logError (hsplits : SplitsErrors files file offset read unread)
    (text : List Char) :
    ∃ more, SplitsErrors (logError text files) file offset read (unread ++ more) := by
  cases file with
  | none =>
      obtain ⟨rfl, rfl⟩ := hsplits
      obtain rfl | ⟨older, last, rfl⟩ := eq_nil_or_concat files
      · exact ⟨[], rfl, rfl⟩
      · refine ⟨text, rfl, ?_⟩
        rw [logError_append_singleton]
        simp
  | some name =>
      obtain ⟨older, here, rest, newer, rfl, rfl, rfl, rfl⟩ := hsplits
      refine ⟨text, older, here, ?_⟩
      obtain rfl | ⟨middle, last, rfl⟩ := eq_nil_or_concat newer
      · refine ⟨rest ++ text, [], ?_, rfl, rfl, by simp⟩
        rw [logError_append_singleton, List.append_assoc]
      · refine ⟨rest, middle ++ [(last.1, last.2 ++ text)], ?_, rfl, rfl, by simp⟩
        have hfiles : older ++ (name, here ++ rest) :: (middle ++ [last]) =
            (older ++ (name, here ++ rest) :: middle) ++ [last] := by simp
        rw [hfiles, logError_append_singleton]
        simp

/-- A new file leaves what is unread. -/
theorem SplitsErrors.roll (hsplits : SplitsErrors files file offset read unread)
    (name : String) : SplitsErrors (roll name files) file offset read unread := by
  rw [Scheduler.roll]
  split
  · cases file with
    | none =>
        refine ⟨hsplits.1, ?_⟩
        rw [hsplits.2]
        simp
    | some cursorName =>
        obtain ⟨older, here, rest, newer, rfl, hoffset, hread, rfl⟩ := hsplits
        exact ⟨older, here, rest, newer ++ [(name, [])], by simp, hoffset, hread,
          by simp⟩
  · exact hsplits

end Growth

/-! ### The end of the sources -/

/-- The last file and its length, or where reading stopped before. -/
def endOf (files : List TeeFile) (before : Option String × ℕ) : Option String × ℕ :=
  match files.getLast? with
  | none => before
  | some file => (some file.1, size file.2)

@[simp]
theorem endOf_cons (file : TeeFile) (files : List TeeFile)
    (before : Option String × ℕ) :
    endOf (file :: files) before = endOf files (some file.1, size file.2) := by
  rw [endOf, endOf, List.getLast?_cons]
  cases files.getLast? <;> rfl

theorem endOf_append (first second : List TeeFile) (before : Option String × ℕ) :
    endOf (first ++ second) before = endOf second (endOf first before) := by
  rw [endOf, endOf, endOf, List.getLast?_append]
  cases second.getLast? <;> rfl

/-- Where everything is read. -/
theorem splitsErrors_endOf (files : List TeeFile) :
    SplitsErrors files (endOf files (none, 0)).1 (endOf files (none, 0)).2
      (teeText files) [] := by
  obtain rfl | ⟨older, file, rfl⟩ := eq_nil_or_concat files
  · exact ⟨rfl, rfl⟩
  · rw [endOf_append]
    exact ⟨older, file.2, [], [], by simp, rfl, by simp, rfl⟩

theorem splitsJournal_end (journal : Option (List Char)) :
    SplitsJournal journal (size (journal.getD [])) (journal.getD []) [] :=
  ⟨(List.append_nil _).symm, rfl⟩

/-! ### What a probe reads -/

/-- The files as they are listed, some of them unreadable. -/
def listed (env : Env) (files : List TeeFile) : List ErrorFile :=
  files.map fun file =>
    ⟨file.1, match env.errorFileError file.1 with
      | some error => .error error
      | none => .ok file.2⟩

theorem errorFiles_listed (env : Env) {files : List TeeFile}
    (hfiles : Chronological files) :
    errorFiles (.ok (some (listed env files))) = .ok (listed env files) := by
  have hsorted : (listed env files).Pairwise fun first second =>
      decide (first.name ≤ second.name) = true := by
    apply List.pairwise_map.2
    exact hfiles.imp fun hlt => decide_eq_true (le_of_lt hlt)
  rw [errorFiles, List.mergeSort_of_pairwise hsorted]

section Reading

variable {env : Env} {cursorFile : Option String} {cursorOffset : ℕ}

/-- Files before the cursor are not read. -/
theorem readErrors_skip (older : List TeeFile) (rest : List ErrorFile)
    (state : List Char × Option String × ℕ)
    (holder : ∀ file ∈ older, startOffset cursorFile cursorOffset file.1 = none) :
    readErrors cursorFile cursorOffset (listed env older ++ rest) state =
      readErrors cursorFile cursorOffset rest state := by
  induction older with
  | nil => rfl
  | cons file older ih =>
      rw [List.forall_mem_cons] at holder
      obtain ⟨out, ending⟩ := state
      rw [listed, List.map_cons, List.cons_append, readErrors, holder.1]
      exact ih holder.2

/-- Files past the cursor are read whole. -/
theorem readErrors_later (newer : List TeeFile) (out : List Char)
    (ending : Option String × ℕ)
    (hnewer : ∀ file ∈ newer, startOffset cursorFile cursorOffset file.1 = some 0)
    {result : List Char × Option String × ℕ}
    (hread : readErrors cursorFile cursorOffset (listed env newer) (out, ending) =
      .ok result) :
    result = (out ++ teeText newer, endOf newer ending) := by
  induction newer generalizing out ending with
  | nil =>
      cases hread
      rw [teeText_nil, List.append_nil]
      rfl
  | cons file newer ih =>
      rw [List.forall_mem_cons] at hnewer
      rw [listed, List.map_cons, readErrors, hnewer.1] at hread
      cases herror : env.errorFileError file.1 with
      | some error =>
          simp only [herror] at hread
          cases hread
      | none =>
          simp only [herror] at hread
          rw [ih _ _ hnewer.2 hread, teeText_cons, endOf_cons]
          have htail : tail? file.2 0 = some file.2 := tail?_append [] file.2
          rw [htail, Option.getD_some, List.append_assoc]

end Reading

/-- A probe reads exactly what is unread, to the end. -/
theorem errorsDelta_splits {env : Env} {files : List TeeFile}
    (hfiles : Chronological files) {file : Option String} {offset : ℕ}
    {read unread : List Char} (hsplits : SplitsErrors files file offset read unread)
    {result : List Char × Option String × ℕ}
    (hdelta : errorsDelta (.ok (some (listed env files))) file offset = .ok result) :
    result.1 = unread ∧
      SplitsErrors files result.2.1 result.2.2 (read ++ unread) [] := by
  rw [errorsDelta, errorFiles_listed env hfiles] at hdelta
  change readErrors file offset (listed env files) ([], file, offset) = .ok result
    at hdelta
  cases file with
  | none =>
      obtain ⟨rfl, rfl⟩ := hsplits
      have hresult := readErrors_later files [] (none, offset) (fun _ _ => rfl) hdelta
      rw [hresult]
      refine ⟨rfl, ?_⟩
      obtain rfl | ⟨older, last, rfl⟩ := eq_nil_or_concat files
      · exact ⟨rfl, rfl⟩
      · have hend := splitsErrors_endOf (older ++ [last])
        rw [endOf_append] at hend ⊢
        exact hend
  | some name =>
      obtain ⟨older, here, rest, newer, rfl, rfl, rfl, rfl⟩ := hsplits
      obtain ⟨_, hlast, hcross⟩ := List.pairwise_append.1 hfiles
      have holder : ∀ file ∈ older,
          startOffset (some name) (size here) file.1 = none := by
        intro file hfile
        have hlt : file.1 < name := hcross file hfile _ List.mem_cons_self
        rw [startOffset, if_pos hlt]
      have hnewer : ∀ file ∈ newer,
          startOffset (some name) (size here) file.1 = some 0 := by
        intro file hfile
        have hlt : name < file.1 := (List.pairwise_cons.1 hlast).1 file hfile
        rw [startOffset, if_neg (lt_asymm hlt), if_neg hlt.ne']
      have hname : startOffset (some name) (size here) name = some (size here) := by
        rw [startOffset, if_neg (lt_irrefl name), if_pos rfl]
      have hlisted : listed env (older ++ (name, here ++ rest) :: newer) =
          listed env older ++ listed env ((name, here ++ rest) :: newer) :=
        List.map_append
      rw [hlisted, readErrors_skip older _ _ holder, listed, List.map_cons, readErrors,
        hname] at hdelta
      cases herror : env.errorFileError name with
      | some error =>
          simp only [herror] at hdelta
          cases hdelta
      | none =>
          simp only [herror, tail?_append, Option.getD_some, List.nil_append] at hdelta
          rw [readErrors_later newer rest _ hnewer hdelta]
          refine ⟨rfl, ?_⟩
          have hend := splitsErrors_endOf (older ++ (name, here ++ rest) :: newer)
          rw [endOf_append, endOf_cons] at hend
          simpa using hend

/-- What a probe keeps of the journal that is unread. -/
def notifyLines (text : List Char) : List Char :=
  List.intercalate ['\n'] ((lines text).filter isNotifyEntry)

theorem journalDelta_splits {journal : Option (List Char)} {offset : ℕ}
    {read unread : List Char} (hsplits : SplitsJournal journal offset read unread)
    {result : List Char × ℕ} (hdelta : journalDelta (.ok journal) offset = .ok result) :
    result.1 = notifyLines unread ∧
      SplitsJournal journal result.2 (read ++ unread) [] := by
  obtain ⟨hjournal, rfl⟩ := hsplits
  cases journal with
  | none =>
      cases hdelta
      obtain ⟨rfl, rfl⟩ := List.append_eq_nil_iff.1 hjournal.symm
      exact ⟨rfl, rfl, rfl⟩
  | some text =>
      rw [Option.getD_some] at hjournal
      subst hjournal
      rw [journalDelta] at hdelta
      simp only [tail?_append] at hdelta
      cases hdelta
      exact ⟨rfl, by simp, rfl⟩

/-- The delta of an open probe is exactly what is unread, and its cursor is the end of
the sources. -/
structure Consumes (disk : Disk) (cursor : Cursor) (delta : Delta) (next : Cursor) :
    Prop where
  exactly : ∃ readJournal newJournal readErrors newErrors,
    Splits disk cursor readJournal newJournal readErrors newErrors ∧
      delta = ⟨notifyLines newJournal, newErrors⟩ ∧
      Splits disk next (readJournal ++ newJournal) [] (readErrors ++ newErrors) []

/-- The cursor is some position in the sources. -/
def Reached (disk : Disk) (cursor : Cursor) : Prop :=
  ∃ readJournal unreadJournal readErrors unreadErrors,
    Splits disk cursor readJournal unreadJournal readErrors unreadErrors

/-- The cursor is the end of the sources. -/
def AtEnd (disk : Disk) (cursor : Cursor) : Prop :=
  ∃ readJournal readErrors, Splits disk cursor readJournal [] readErrors []

theorem AtEnd.reached {disk : Disk} {cursor : Cursor} (hend : AtEnd disk cursor) :
    Reached disk cursor := by
  obtain ⟨readJournal, readErrors, hsplits⟩ := hend
  exact ⟨readJournal, [], readErrors, [], hsplits⟩

theorem Consumes.atEnd {disk : Disk} {cursor next : Cursor} {delta : Delta}
    (hconsumes : Consumes disk cursor delta next) : AtEnd disk next := by
  obtain ⟨readJournal, newJournal, readErrors, newErrors, _, _, hend⟩ :=
    hconsumes.exactly
  exact ⟨_, _, hend⟩

/-- What a readable disk gives a run. -/
theorem sources_eq {disk : Disk} {env : Env} (hjournal : env.journalError = none)
    (hdir : env.errorsDirError = none) :
    disk.sources env = ⟨.ok disk.journal, .ok (some (listed env disk.errors))⟩ := by
  rw [Disk.sources, hjournal, hdir]
  rfl

theorem endOfSources_atEnd {disk : Disk} {env : Env}
    (hfiles : Chronological disk.errors) {cursor : Cursor}
    (hend : endOfSources (disk.sources env) = .ok cursor) : AtEnd disk cursor := by
  cases hjournal : env.journalError with
  | some error =>
      simp only [Disk.sources, hjournal, endOfSources] at hend
      cases hend
  | none =>
      cases hdir : env.errorsDirError with
      | some error =>
          simp only [Disk.sources, hjournal, hdir, endOfSources] at hend
          cases hend
      | none =>
          have herrors := splitsErrors_endOf disk.errors
          refine ⟨disk.journal.getD [], teeText disk.errors, ?_⟩
          rw [sources_eq hjournal hdir, endOfSources, errorFiles_listed env hfiles] at hend
          simp only [bind, Except.bind, listed, List.getLast?_map] at hend
          rw [endOf] at herrors
          cases hlast : disk.errors.getLast? with
          | none =>
              rw [hlast] at hend herrors
              cases hend
              exact ⟨splitsJournal_end _, herrors⟩
          | some file =>
              rw [hlast] at hend herrors
              cases herror : env.errorFileError file.1 with
              | some error =>
                  simp only [Option.map_some, herror] at hend
                  cases hend
              | none =>
                  simp only [Option.map_some, herror] at hend
                  cases hend
                  exact ⟨splitsJournal_end _, herrors⟩

/-- An open probe consumes what is unread. -/
theorem probe_consumes {disk : Disk} {env : Env} (hfiles : Chronological disk.errors)
    {cursor : Cursor} (hreached : Reached disk cursor) {minDeltaTokens : ℕ}
    {delta : Delta} {next : Cursor}
    (hprobe : probe (disk.sources env) (some cursor) minDeltaTokens =
      .ok (.opened delta next)) : Consumes disk cursor delta next := by
  obtain ⟨readJournal, newJournal, readErrors, newErrors, hsplits⟩ := hreached
  refine ⟨readJournal, newJournal, readErrors, newErrors, hsplits, ?_⟩
  cases hjournal : env.journalError with
  | some error =>
      simp only [Disk.sources, hjournal, probe, journalDelta] at hprobe
      cases hprobe
  | none =>
      cases hdir : env.errorsDirError with
      | some error =>
          simp only [Disk.sources, hjournal, hdir, probe] at hprobe
          cases hdelta : journalDelta (.ok disk.journal) cursor.journal with
          | error error =>
              rw [hdelta] at hprobe
              cases hprobe
          | ok result =>
              rw [hdelta] at hprobe
              cases hprobe
      | none =>
          rw [sources_eq hjournal hdir, probe] at hprobe
          cases hdelta : journalDelta (.ok disk.journal) cursor.journal with
          | error error =>
              rw [hdelta] at hprobe
              cases hprobe
          | ok notify =>
              cases herrors : errorsDelta (.ok (some (listed env disk.errors)))
                  cursor.errorsFile cursor.errorsOffset with
              | error error =>
                  simp only [hdelta, herrors] at hprobe
                  cases hprobe
              | ok errors =>
                  obtain ⟨hnotify, hjournalEnd⟩ :=
                    journalDelta_splits hsplits.journal hdelta
                  obtain ⟨hnew, herrorsEnd⟩ :=
                    errorsDelta_splits hfiles hsplits.errors herrors
                  simp only [hdelta, herrors, bind, Except.bind] at hprobe
                  split at hprobe
                  · cases hprobe
                  · cases hprobe
                    exact ⟨by rw [hnotify, hnew], hjournalEnd, herrorsEnd⟩

/-! ### What growth keeps -/

theorem Reached.write {disk : Disk} {cursor : Cursor} (hreached : Reached disk cursor)
    (text : List Char) :
    Reached { disk with journal := some (disk.journal.getD [] ++ text) } cursor := by
  obtain ⟨_, _, _, _, hsplits⟩ := hreached
  exact ⟨_, _, _, _, hsplits.journal.write text, hsplits.errors⟩

theorem Reached.logError {disk : Disk} {cursor : Cursor}
    (hreached : Reached disk cursor) (text : List Char) :
    Reached { disk with errors := Scheduler.logError text disk.errors } cursor := by
  obtain ⟨_, _, _, _, hsplits⟩ := hreached
  obtain ⟨more, herrors⟩ := hsplits.errors.logError text
  exact ⟨_, _, _, _, hsplits.journal, herrors⟩

theorem Reached.roll {disk : Disk} {cursor : Cursor} (hreached : Reached disk cursor)
    (name : String) :
    Reached { disk with errors := Scheduler.roll name disk.errors } cursor := by
  obtain ⟨_, _, _, _, hsplits⟩ := hreached
  exact ⟨_, _, _, _, hsplits.journal, hsplits.errors.roll name⟩

end Kitaebot.Scheduler
