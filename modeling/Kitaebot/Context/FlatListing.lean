import Kitaebot.Context.FlatSession
import Mathlib.Data.List.Nodup
import Mathlib.Data.List.Sort

/-!
# Listing a flat store

What a listing says of each session, and when it says it once.  Files are compared
with the active session by the name they are listed under, the active session
goes by its stored one.
-/

namespace Kitaebot.Context

/-- Only session files, each under a sanitized name. -/
def Directory.Sessions (directory : Directory) : Prop :=
  ∀ file ∈ directory.files, ∃ stem, Sanitized stem ∧ file.fileName = stem ++ ".json"

/-- The name before the extension of a session file. -/
def SessionFile.stem (file : SessionFile) : String :=
  (Text.stripSuffix ".json" file.fileName).getD file.fileName

/-- The stored sessions, by their stored names. -/
def Directory.stored (directory : Directory) : List String :=
  (directory.files.filter fun file => file.session.isOk).map SessionFile.stem

theorem SessionFile.stem_eq {file : SessionFile} {stem : String}
    (hfile : file.fileName = stem ++ ".json") : file.stem = stem := by
  have hsuffix : Text.stripSuffix ".json" (stem ++ ".json") = some stem := by
    rw [Text.stripSuffix, String.toList_append, if_pos]
    · rw [List.length_append, Nat.add_sub_cancel, List.take_left, String.ofList_toList]
    · rw [List.isSuffixOf_iff_suffix]
      exact List.suffix_append _ _
  rw [SessionFile.stem, hfile, hsuffix]
  rfl

theorem splitFileName_json (stem : String) :
    splitFileName (stem ++ ".json") =
      if stem = "" then (".json", none) else (stem, some "json") := by
  have hsplit : Text.rsplitOnce '.' (stem ++ ".json") = some (stem, "json") := by
    have hjson : stem ++ ".json" = stem ++ String.ofList ['.'] ++ "json" := by
      rw [String.append_assoc]
      rfl
    rw [hjson]
    exact Text.rsplitOnce_append '.' stem "json" (by decide)
  rw [splitFileName, hsplit]
  dsimp only
  split_ifs with hempty
  · rw [hempty]
    rfl
  · rfl

namespace FlatSession

variable (engine : FlatSession)

/-- The messages a session has now: those in memory where it is active, otherwise
those in its file. -/
def current (stem : String) : List Message :=
  if stem = engine.activeName then engine.session
  else match engine.directory.load (stem ++ ".json") with
    | .ok messages => messages
    | .error _ => []

/-- The active session and the stored ones. -/
def sessions : List String :=
  engine.activeName :: engine.directory.stored.filter (· ≠ engine.activeName)

/-- Every session is listed once, and counted once under the name it is listed by. -/
structure CountsOnce : Prop where
  listed : (engine.listSessions.map fun info => sanitizeName info.name).Perm
    engine.sessions
  counted : ∀ info ∈ engine.listSessions,
    info.messageCount = (engine.current (sanitizeName info.name)).length ∧
      info.estimatedTokens =
        estimateTokensFromChars (charCount (engine.current (sanitizeName info.name)))
  positions : ∀ name count, engine.latestPositions.find? name = some count ↔
    ∃ info ∈ engine.listSessions, info.name = name ∧ 0 < count ∧
      count = (engine.current (sanitizeName name)).length
  pending : ∀ since name tokens,
    (engine.pendingDistillTokens since).find? name = some tokens ↔
      ∃ info ∈ engine.listSessions, info.name = name ∧ 0 < tokens ∧
        tokens = estimateTokensFromChars (charCount
          ((engine.current (sanitizeName name)).drop ((since.find? name).getD 0)))
  transcript : ∀ info ∈ engine.listSessions, ∀ after maxTokens,
    engine.transcriptSince info.name after maxTokens =
      clampSpan Message.tokenEstimate maxTokens
        ((engine.current (sanitizeName info.name)).drop after)

/-- No file is listed beside the active session that is its own, and none is passed
over for having no name before its extension. -/
structure Apart : Prop where
  active : engine.activeName ∈ engine.directory.stored →
    desanitizeName engine.activeName = engine.activeName
  named : "" ∈ engine.directory.stored → engine.activeName = ""

/-! ### The files of a listing -/

section Files

variable {engine}

theorem fileInfo_eq {file : SessionFile} {stem : String}
    (hfile : file.fileName = stem ++ ".json") :
    engine.fileInfo file =
      if stem = "" then none
      else if desanitizeName stem = engine.activeName then
        some (engine.activeInfo (desanitizeName stem))
      else match file.session with
        | .ok messages => some ⟨desanitizeName stem, messages.length,
            estimateTokensFromChars (charCount messages)⟩
        | .error _ => none := by
  rw [fileInfo.eq_def, hfile, splitFileName_json]
  by_cases hempty : stem = ""
  · rw [if_pos hempty, if_pos hempty, if_pos (Option.some_ne_none _).symm]
  · rw [if_neg hempty, if_neg hempty]
    exact if_neg (not_not.2 rfl)

/-- A listed file has a name, and is the active session's or readable. -/
theorem fileInfo_some_iff {file : SessionFile} {stem : String}
    (hfile : file.fileName = stem ++ ".json") :
    (∃ info, engine.fileInfo file = some info) ↔
      stem ≠ "" ∧ (desanitizeName stem = engine.activeName ∨ file.session.isOk) := by
  rw [fileInfo_eq hfile]
  split_ifs with hempty hactive
  · simp [hempty]
  · simp [hempty, hactive]
  · cases hsession : file.session with
    | ok messages => simp [hempty, Except.isOk, Except.toBool]
    | error error => simp [hactive, Except.isOk, Except.toBool]

theorem fileInfo_name {file : SessionFile} {stem : String} {info : SessionInfo}
    (hfile : file.fileName = stem ++ ".json") (hinfo : engine.fileInfo file = some info) :
    info.name = desanitizeName stem := by
  rw [fileInfo_eq hfile] at hinfo
  split_ifs at hinfo
  · cases hinfo
    rfl
  · split at hinfo
    · cases hinfo
      rfl
    · cases hinfo

/-- A listing is that of the files and, where none of them goes by its name, the
active session. -/
theorem listSessions_perm :
    engine.listSessions.Perm
      (if ∃ info ∈ engine.directory.files.filterMap engine.fileInfo,
          info.name = engine.activeName then
        engine.directory.files.filterMap engine.fileInfo
      else engine.directory.files.filterMap engine.fileInfo ++
        [engine.activeInfo engine.activeName]) := by
  rw [listSessions]
  refine (List.mergeSort_perm _ _).trans (List.Perm.of_eq ?_)
  simp only [List.any_eq_true, decide_eq_true_iff]

theorem load_file {file : SessionFile} (hfile : file ∈ engine.directory.files) :
    engine.directory.load file.fileName = file.session := by
  have hfind : engine.directory.find? file.fileName = some file := by
    rw [Directory.find?]
    cases hfound : engine.directory.files.find? (·.fileName = file.fileName) with
    | none => exact absurd (decide_eq_true rfl) (List.find?_eq_none.1 hfound file hfile)
    | some other =>
        have hsame := List.find?_some hfound
        rw [decide_eq_true_iff] at hsame
        rw [List.inj_on_of_nodup_map engine.directory.nodup
          (List.mem_of_find?_eq_some hfound) hfile hsame]
  rw [Directory.load, hfind]

variable (hstored : engine.directory.Sessions)

include hstored

theorem mem_stored {stem : String} :
    stem ∈ engine.directory.stored ↔
      ∃ file ∈ engine.directory.files, file.fileName = stem ++ ".json" ∧
        file.session.isOk := by
  rw [Directory.stored, List.mem_map]
  constructor
  · rintro ⟨file, hfile, rfl⟩
    rw [List.mem_filter] at hfile
    obtain ⟨stem, _, hname⟩ := hstored file hfile.1
    refine ⟨file, hfile.1, ?_, hfile.2⟩
    rw [SessionFile.stem_eq hname, hname]
  · rintro ⟨file, hfile, hname, hok⟩
    exact ⟨file, List.mem_filter.2 ⟨hfile, hok⟩, SessionFile.stem_eq hname⟩

theorem sanitized_of_file {file : SessionFile} {stem : String}
    (hfile : file ∈ engine.directory.files) (hname : file.fileName = stem ++ ".json") :
    Sanitized stem := by
  obtain ⟨other, hother, hsame⟩ := hstored file hfile
  rw [← SessionFile.stem_eq hname, SessionFile.stem_eq hsame]
  exact hother

/-- Each listed file comes from a stored session. -/
theorem file_of_info {info : SessionInfo}
    (hinfo : info ∈ engine.directory.files.filterMap engine.fileInfo) :
    ∃ file ∈ engine.directory.files, ∃ stem, Sanitized stem ∧
      file.fileName = stem ++ ".json" ∧ engine.fileInfo file = some info ∧
        info.name = desanitizeName stem ∧ sanitizeName info.name = stem := by
  rw [List.mem_filterMap] at hinfo
  obtain ⟨file, hfile, hinfo⟩ := hinfo
  obtain ⟨stem, hstem, hname⟩ := hstored file hfile
  have hshown := fileInfo_name hname hinfo
  exact ⟨file, hfile, stem, hstem, hname, hinfo, hshown,
    by rw [hshown, hstem.sanitize_desanitize]⟩

theorem mem_listed_files {stem : String} :
    stem ∈ (engine.directory.files.filterMap engine.fileInfo).map
        (fun info => sanitizeName info.name) ↔
      stem ≠ "" ∧ ∃ file ∈ engine.directory.files, file.fileName = stem ++ ".json" ∧
        (desanitizeName stem = engine.activeName ∨ file.session.isOk) := by
  rw [List.mem_map]
  constructor
  · rintro ⟨info, hinfo, rfl⟩
    obtain ⟨file, hfile, stem, _, hname, hsome, _, hshown⟩ := file_of_info hstored hinfo
    have hlisted := (fileInfo_some_iff hname).1 ⟨info, hsome⟩
    rw [hshown]
    exact ⟨hlisted.1, file, hfile, hname, hlisted.2⟩
  · rintro ⟨hempty, file, hfile, hname, hlisted⟩
    obtain ⟨info, hinfo⟩ := (fileInfo_some_iff hname).2 ⟨hempty, hlisted⟩
    refine ⟨info, List.mem_filterMap.2 ⟨file, hfile, hinfo⟩, ?_⟩
    rw [fileInfo_name hname hinfo,
      (sanitized_of_file hstored hfile hname).sanitize_desanitize]

theorem nodup_stems : (engine.directory.files.map SessionFile.stem).Nodup := by
  apply List.Nodup.of_map (· ++ ".json")
  rw [List.map_map]
  have hnames : engine.directory.files.map ((· ++ ".json") ∘ SessionFile.stem) =
      engine.directory.files.map SessionFile.fileName := by
    apply List.map_congr_left
    intro file hfile
    obtain ⟨stem, _, hname⟩ := hstored file hfile
    rw [Function.comp, SessionFile.stem_eq hname, hname]
  rw [hnames]
  exact engine.directory.nodup

theorem nodup_listed_files :
    ((engine.directory.files.filterMap engine.fileInfo).map
      fun info => sanitizeName info.name).Nodup := by
  have hsublist : ∀ files : List SessionFile,
      (∀ file ∈ files, file ∈ engine.directory.files) →
        ((files.filterMap engine.fileInfo).map fun info => sanitizeName info.name).Sublist
          (files.map SessionFile.stem) := by
    intro files hfiles
    induction files with
    | nil => exact .slnil
    | cons file files ih =>
        rw [List.forall_mem_cons] at hfiles
        rw [List.map_cons, List.filterMap_cons]
        split
        · exact (ih hfiles.2).cons _
        · next info hinfo =>
            obtain ⟨stem, hstem, hname⟩ := hstored file hfiles.1
            rw [List.map_cons, fileInfo_name hname hinfo, hstem.sanitize_desanitize,
              SessionFile.stem_eq hname]
            exact (ih hfiles.2).cons_cons _
  exact (nodup_stems hstored).sublist (hsublist _ fun _ hfile => hfile)

/-- The active session goes by its name in the listing of the files. -/
theorem shown_iff :
    (∃ info ∈ engine.directory.files.filterMap engine.fileInfo,
        info.name = engine.activeName) ↔
      desanitizeName engine.activeName = engine.activeName ∧ engine.activeName ≠ "" ∧
        ∃ file ∈ engine.directory.files,
          file.fileName = engine.activeName ++ ".json" := by
  constructor
  · rintro ⟨info, hinfo, hactive⟩
    obtain ⟨file, hfile, stem, hstem, hname, hsome, hshown, _⟩ :=
      file_of_info hstored hinfo
    obtain ⟨rfl, hplain⟩ :=
      (hstem.desanitize_eq_iff engine.sanitized).1 (hshown.symm.trans hactive)
    exact ⟨hplain, ((fileInfo_some_iff hname).1 ⟨info, hsome⟩).1, file, hfile, hname⟩
  · rintro ⟨hplain, hempty, file, hfile, hname⟩
    obtain ⟨info, hinfo⟩ := (fileInfo_some_iff hname).2 ⟨hempty, .inl hplain⟩
    exact ⟨info, List.mem_filterMap.2 ⟨file, hfile, hinfo⟩,
      (fileInfo_name hname hinfo).trans hplain⟩

/-- The active session is listed, and every stored one with a name. -/
theorem mem_listing {stem : String} :
    stem ∈ engine.listSessions.map (fun info => sanitizeName info.name) ↔
      stem = engine.activeName ∨ stem ≠ "" ∧ stem ∈ engine.directory.stored := by
  have hperm := (@listSessions_perm engine).map
    fun info => sanitizeName info.name
  have hlisted : stem ∈ (engine.directory.files.filterMap engine.fileInfo).map
      (fun info => sanitizeName info.name) ↔ _ := mem_listed_files hstored
  rw [hperm.mem_iff]
  split_ifs with hshown
  · rw [hlisted]
    constructor
    · rintro ⟨hempty, file, hfile, hname, hactive | hok⟩
      · have hstem := sanitized_of_file hstored hfile hname
        exact .inl ((hstem.desanitize_eq_iff engine.sanitized).1 hactive).1
      · exact .inr ⟨hempty, (mem_stored hstored).2 ⟨file, hfile, hname, hok⟩⟩
    · rintro (rfl | ⟨hempty, hmem⟩)
      · obtain ⟨hplain, hempty, file, hfile, hname⟩ := (shown_iff hstored).1 hshown
        exact ⟨hempty, file, hfile, hname, .inl hplain⟩
      · obtain ⟨file, hfile, hname, hok⟩ := (mem_stored hstored).1 hmem
        exact ⟨hempty, file, hfile, hname, .inr hok⟩
  · rw [List.map_append, List.mem_append, hlisted, List.map_singleton,
      List.mem_singleton]
    have hactive : sanitizeName (engine.activeInfo engine.activeName).name =
        engine.activeName := engine.sanitized.sanitizeName_eq
    rw [hactive]
    constructor
    · rintro (⟨hempty, file, hfile, hname, hdisplay | hok⟩ | rfl)
      · have hstem := sanitized_of_file hstored hfile hname
        exact .inl ((hstem.desanitize_eq_iff engine.sanitized).1 hdisplay).1
      · exact .inr ⟨hempty, (mem_stored hstored).2 ⟨file, hfile, hname, hok⟩⟩
      · exact .inl rfl
    · rintro (rfl | ⟨hempty, hmem⟩)
      · exact .inr rfl
      · obtain ⟨file, hfile, hname, hok⟩ := (mem_stored hstored).1 hmem
        exact .inl ⟨hempty, file, hfile, hname, .inr hok⟩

/-- Nothing is listed twice exactly when the active session has no file that is listed
under another name. -/
theorem nodup_listing_iff :
    (engine.listSessions.map fun info => sanitizeName info.name).Nodup ↔
      (engine.activeName ∈ engine.directory.stored →
        desanitizeName engine.activeName = engine.activeName) := by
  have hperm := (@listSessions_perm engine).map
    fun info => sanitizeName info.name
  rw [hperm.nodup_iff]
  split_ifs with hshown
  · have hplain := ((shown_iff hstored).1 hshown).1
    exact ⟨fun _ _ => hplain, fun _ => nodup_listed_files hstored⟩
  · have hactive : sanitizeName (engine.activeInfo engine.activeName).name =
        engine.activeName := engine.sanitized.sanitizeName_eq
    rw [List.map_append, List.map_singleton, hactive, List.nodup_append]
    constructor
    · rintro ⟨_, _, hdisjoint⟩ hmem
      by_contra hplain
      have hempty : engine.activeName ≠ "" := by
        intro hempty
        apply hplain
        rw [hempty]
        rfl
      obtain ⟨file, hfile, hname, hok⟩ := (mem_stored hstored).1 hmem
      have hlisted := (mem_listed_files hstored).2 ⟨hempty, file, hfile, hname, .inr hok⟩
      exact hdisjoint _ hlisted _ (List.mem_singleton.2 rfl) rfl
    · intro happart
      refine ⟨nodup_listed_files hstored, List.pairwise_singleton _ _, ?_⟩
      rintro stem hlisted other hother rfl
      rw [List.mem_singleton.1 hother] at hlisted
      obtain ⟨hempty, file, hfile, hname, hdisplay | hok⟩ :=
        (mem_listed_files hstored).1 hlisted
      · exact hshown ((shown_iff hstored).2 ⟨hdisplay, hempty, file, hfile, hname⟩)
      · have hplain := happart ((mem_stored hstored).2 ⟨file, hfile, hname, hok⟩)
        exact hshown ((shown_iff hstored).2 ⟨hplain, hempty, file, hfile, hname⟩)

theorem nodup_sessions : engine.sessions.Nodup := by
  have hstems : engine.directory.stored.Nodup :=
    (nodup_stems hstored).sublist (List.filter_sublist.map _)
  rw [sessions, List.nodup_cons]
  refine ⟨fun hmem => ?_, hstems.filter _⟩
  exact absurd rfl (of_decide_eq_true (List.mem_filter.1 hmem).2)

/-- Every session is listed exactly once, or the store is not apart. -/
theorem listed_iff :
    (engine.listSessions.map fun info => sanitizeName info.name).Perm engine.sessions ↔
      engine.Apart := by
  have hsessions {stem : String} : stem ∈ engine.sessions ↔
      stem = engine.activeName ∨ stem ∈ engine.directory.stored := by
    by_cases hstem : stem = engine.activeName <;> simp [sessions, hstem]
  constructor
  · intro hperm
    refine ⟨(nodup_listing_iff hstored).1 (hperm.nodup_iff.2 (nodup_sessions hstored)), ?_⟩
    intro hmem
    rcases (mem_listing hstored).1 (hperm.mem_iff.2 (hsessions.2 (.inr hmem))) with
      hactive | ⟨hempty, _⟩
    · exact hactive.symm
    · exact absurd rfl hempty
  · intro happart
    apply (List.perm_ext_iff_of_nodup
      ((nodup_listing_iff hstored).2 happart.active) (nodup_sessions hstored)).2
    intro stem
    rw [mem_listing hstored, hsessions]
    apply or_congr_right'
    intro hactive
    constructor
    · exact And.right
    · intro hmem
      refine ⟨?_, hmem⟩
      rintro rfl
      exact hactive (happart.named hmem).symm

/-- Where the store is apart, a listed session is the active one under its own name,
or another one from its file. -/
theorem listed_cases (happart : engine.Apart) {info : SessionInfo}
    (hinfo : info ∈ engine.listSessions) :
    info = engine.activeInfo engine.activeName ∨
      info.name ≠ engine.activeName ∧ sanitizeName info.name ≠ engine.activeName ∧
        ∃ messages,
          engine.directory.load (sanitizeName info.name ++ ".json") = .ok messages ∧
            info = ⟨info.name, messages.length,
              estimateTokensFromChars (charCount messages)⟩ := by
  have hfiles : ∀ info ∈ engine.directory.files.filterMap engine.fileInfo,
      info = engine.activeInfo engine.activeName ∨
        info.name ≠ engine.activeName ∧ sanitizeName info.name ≠ engine.activeName ∧
          ∃ messages,
            engine.directory.load (sanitizeName info.name ++ ".json") = .ok messages ∧
              info = ⟨info.name, messages.length,
                estimateTokensFromChars (charCount messages)⟩ := by
    intro info hinfo
    obtain ⟨file, hfile, stem, hstem, hname, hsome, hshown, hstored'⟩ :=
      file_of_info hstored hinfo
    rw [fileInfo_eq hname] at hsome
    split_ifs at hsome with hempty hactive
    · cases hsome
      left
      rw [hactive]
    · right
      cases hsession : file.session with
      | error error =>
          rw [hsession] at hsome
          cases hsome
      | ok messages =>
          rw [hsession] at hsome
          cases hsome
          refine ⟨hactive, ?_, messages, ?_, rfl⟩
          · intro hsame
            rw [hstem.sanitize_desanitize] at hsame
            have hok : file.session.isOk := by rw [hsession]; rfl
            have hmem := (mem_stored hstored).2 ⟨file, hfile, hname, hok⟩
            rw [hsame] at hmem
            exact hactive (hsame ▸ happart.active hmem)
          · rw [hstem.sanitize_desanitize, ← hname, load_file hfile, hsession]
  have hmem := listSessions_perm.mem_iff.1 hinfo
  split_ifs at hmem with hshown
  · exact hfiles info hmem
  · rcases List.mem_append.1 hmem with hmem | hmem
    · exact hfiles info hmem
    · exact .inl (List.mem_singleton.1 hmem)

/-- The messages behind a listed name are those of its session. -/
theorem messages_listed (happart : engine.Apart) {info : SessionInfo}
    (hinfo : info ∈ engine.listSessions) :
    engine.sessionMessages info.name = engine.current (sanitizeName info.name) := by
  rcases listed_cases hstored happart hinfo with rfl | ⟨hname, hstem, _⟩
  · have hactive : sanitizeName (engine.activeInfo engine.activeName).name =
        engine.activeName := engine.sanitized.sanitizeName_eq
    rw [hactive, current, if_pos rfl]
    exact if_pos rfl
  · exact (if_neg hname).trans (if_neg hstem).symm

omit hstored in
/-- A positive measure of each listed name, where it is that of the session. -/
theorem some_iff_listed {infos : List SessionInfo} {name : String}
    {found expected count : ℕ}
    (hfound : name ∈ infos.map SessionInfo.name → found = expected) :
    ((if name ∈ infos.map SessionInfo.name ∧ 0 < found then some found else none) =
        some count) ↔
      ∃ info ∈ infos, info.name = name ∧ 0 < count ∧ count = expected := by
  constructor
  · intro hsome
    split_ifs at hsome with hlisted
    obtain ⟨info, hinfo, hname⟩ := List.mem_map.1 hlisted.1
    have hcount := Option.some.inj hsome
    exact ⟨info, hinfo, hname, hcount ▸ hlisted.2,
      hcount.symm.trans (hfound hlisted.1)⟩
  · rintro ⟨info, hinfo, hname, hpositive, rfl⟩
    have hlisted : name ∈ infos.map SessionInfo.name := List.mem_map.2 ⟨info, hinfo, hname⟩
    rw [if_pos ⟨hlisted, (hfound hlisted).symm ▸ hpositive⟩, hfound hlisted]

/-- The listing counts every session once exactly when the store is apart. -/
theorem countsOnce_iff : engine.CountsOnce ↔ engine.Apart := by
  constructor
  · exact fun hcounts => (listed_iff hstored).1 hcounts.listed
  · intro happart
    have hmessages {name : String} (hname : name ∈ engine.listSessions.map (·.name)) :
        engine.sessionMessages name = engine.current (sanitizeName name) := by
      obtain ⟨info, hinfo, rfl⟩ := List.mem_map.1 hname
      exact messages_listed hstored happart hinfo
    refine ⟨(listed_iff hstored).2 happart, ?_, ?_, ?_, ?_⟩
    · intro info hinfo
      rcases listed_cases hstored happart hinfo with rfl | ⟨_, hstem, messages, hload, heq⟩
      · have hactive : sanitizeName (engine.activeInfo engine.activeName).name =
            engine.activeName := engine.sanitized.sanitizeName_eq
        rw [hactive, current, if_pos rfl]
        refine ⟨rfl, ?_⟩
        rw [activeInfo, tokenEstimate, Nat.zero_add]
      · rw [current, if_neg hstem, hload, heq]
        exact ⟨rfl, rfl⟩
    · intro name count
      have hfind : engine.latestPositions.find? name =
          if name ∈ engine.listSessions.map SessionInfo.name ∧
              0 < (engine.sessionMessages name).length then
            some (engine.sessionMessages name).length
          else none :=
        SortedMap.find?_foldl_insert SessionInfo.name
          (fun name => (engine.sessionMessages name).length)
          (fun name => 0 < (engine.sessionMessages name).length) _ _ _
      rw [hfind]
      exact some_iff_listed fun hname => by rw [hmessages hname]
    · intro since name tokens
      have hfind : (engine.pendingDistillTokens since).find? name =
          if name ∈ engine.listSessions.map SessionInfo.name ∧
              0 < estimateTokensFromChars (charCount ((engine.sessionMessages name).drop
                ((since.find? name).getD 0))) then
            some (estimateTokensFromChars (charCount ((engine.sessionMessages name).drop
              ((since.find? name).getD 0))))
          else none :=
        SortedMap.find?_foldl_insert SessionInfo.name
          (fun name => estimateTokensFromChars (charCount
            ((engine.sessionMessages name).drop ((since.find? name).getD 0))))
          (fun name => 0 < estimateTokensFromChars (charCount
            ((engine.sessionMessages name).drop ((since.find? name).getD 0)))) _ _ _
      rw [hfind]
      exact some_iff_listed fun hname => by rw [hmessages hname]
    · intro info hinfo after maxTokens
      rw [transcriptSince, messages_listed hstored happart hinfo]

end Files

end FlatSession

/-! ### A repository's session -/

/-- A repository's session is saved, and one more message came since. -/
def repoDirectory : Directory where
  files := [⟨"owner--repo.json", .ok [.user "Review the first change."]⟩]
  nodup := List.pairwise_singleton _ _

theorem sanitized_repo : Sanitized "owner--repo" := by decide

theorem sanitized_general : Sanitized "general" := by decide

def flatConfig : ContextConfig := ⟨100000, 80, 10000⟩

def repoSession : FlatSession where
  session := [.user "Review the first change.", .assistant "It looks right."]
  activeName := "owner--repo"
  sanitized := sanitized_repo
  directory := repoDirectory
  cursor := some "owner--repo"
  ctx := flatConfig
  observedTokens := none

/-- The same store while another session is active. -/
def generalSession : FlatSession where
  session := [.user "hello"]
  activeName := "general"
  sanitized := sanitized_general
  directory := repoDirectory
  cursor := none
  ctx := flatConfig
  observedTokens := none

theorem sessions_repoDirectory : repoDirectory.Sessions := by
  intro file hfile
  rw [List.mem_singleton.1 hfile]
  exact ⟨"owner--repo", sanitized_repo, rfl⟩

theorem stored_repoDirectory : repoDirectory.stored = ["owner--repo"] := by decide

/-- The repository's session is listed from its stale file and again from memory. -/
theorem repoSession_listed_twice :
    repoSession.directory.Sessions ∧ ¬ repoSession.CountsOnce := by
  refine ⟨sessions_repoDirectory, fun hcounts => ?_⟩
  have happart := (FlatSession.listed_iff sessions_repoDirectory).1 hcounts.listed
  have hplain : desanitizeName "owner--repo" = "owner--repo" := by
    apply happart.active
    rw [repoSession, stored_repoDirectory]
    exact List.mem_singleton.2 rfl
  revert hplain
  decide

/-- While another session is active each is counted once. -/
theorem countsOnce_generalSession : generalSession.CountsOnce := by
  apply (FlatSession.countsOnce_iff sessions_repoDirectory).2
  constructor
  · intro _
    decide
  · intro hmem
    rw [generalSession, stored_repoDirectory] at hmem
    exact absurd (List.mem_singleton.1 hmem) (by decide)

end Kitaebot.Context
