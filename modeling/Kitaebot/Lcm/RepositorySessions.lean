import Kitaebot.Context.Names
import Kitaebot.Lcm.System

/-!
# Sessions of repositories

A repository's work session is named `owner/repo`.  The owner ends at the first `--`
of the stored name, so what sanitizing merges is only what deleting `..` merges: two
repositories share a conversation exactly when their names are equal without it.
-/

namespace Kitaebot.Lcm

open OrderedTable Substitute
open Context (sanitizeName replaceText)

/-! ### Names of repositories -/

def ownerSymbol (symbol : Char) : Bool := symbol.isAlphanum || symbol == '-'

def repoSymbol (symbol : Char) : Bool :=
  symbol.isAlphanum || symbol == '-' || symbol == '_' || symbol == '.'

/-- A name that GitHub admits: alphanumerics and single inner hyphens before the
slash, letters, digits, `.`, `_` and `-` after it. -/
structure Admitted (owner repo : String) : Prop where
  ownerSymbols : owner.toList.all ownerSymbol = true
  ownerSome : owner ≠ ""
  ownerSingle : Single '-' owner.toList
  ownerStart : owner.toList.head? ≠ some '-'
  ownerEnd : owner.toList.getLast? ≠ some '-'
  repoSymbols : repo.toList.all repoSymbol = true
  repoSome : repo ≠ ""
  repoOther : repo ≠ "." ∧ repo ≠ ".."

structure Repository where
  owner : String
  repo : String
  admitted : Admitted owner repo

namespace Repository

variable (repository : Repository)

/-- `owner/repo`. -/
def fullName : String := repository.owner ++ "/" ++ repository.repo

/-- The repo part without every `..`. -/
def bareRepo : String := replaceText ".." "" repository.repo

end Repository

theorem replace_double_append {symbol : Char} {front : List Char} (hfront : symbol ∉ front)
    (replacement text : List Char) :
    replace [symbol, symbol] replacement (front ++ text) =
      front ++ replace [symbol, symbol] replacement text := by
  induction front with
  | nil => rfl
  | cons first front ih =>
      rw [List.mem_cons, not_or] at hfront
      have hmiss : ∀ second rest, replace [symbol, symbol] replacement
          (first :: second :: rest) =
            first :: replace [symbol, symbol] replacement (second :: rest) :=
        fun second rest => replace_double_miss symbol replacement rest
          fun hpair => hfront.1 hpair.1.symm
      rw [List.cons_append, List.cons_append, ← ih hfront.2]
      cases hrest : front ++ text with
      | nil => exact replace_double_single symbol replacement first
      | cons second rest => exact hmiss second rest

/-- A separator of two symbols ends the first front that has none of it. -/
theorem front_of_double {symbol : Char} {front other left right : List Char}
    (hsingle : Single symbol other) (hend : other.getLast? ≠ some symbol)
    (heq : front ++ symbol :: symbol :: left = other ++ symbol :: symbol :: right)
    (hshort : front <+: other) : front = other := by
  obtain ⟨middle, rfl⟩ := hshort
  rw [List.append_assoc, List.append_cancel_left_eq] at heq
  cases middle with
  | nil => rw [List.append_nil]
  | cons first middle =>
      obtain ⟨rfl, hrest⟩ := List.cons.inj heq
      cases middle with
      | nil => exact absurd (by simp) hend
      | cons second middle =>
          obtain ⟨rfl, _⟩ := List.cons.inj hrest
          have hpair := (List.isChain_append.1 hsingle).2.1
          exact absurd ⟨rfl, rfl⟩ (List.isChain_cons_cons.1 hpair).1

section Names

variable (first second : Repository)

theorem not_mem_owner {symbol : Char} (hsymbol : ownerSymbol symbol = false) :
    symbol ∉ first.owner.toList := by
  intro hmem
  have hall := List.all_eq_true.1 first.admitted.ownerSymbols symbol hmem
  rw [hsymbol] at hall
  cases hall

theorem not_mem_repo {symbol : Char} (hsymbol : repoSymbol symbol = false) :
    symbol ∉ first.repo.toList := by
  intro hmem
  have hall := List.all_eq_true.1 first.admitted.repoSymbols symbol hmem
  rw [hsymbol] at hall
  cases hall

/-- A stored name is the owner, `--` and the bare repo part. -/
theorem toList_stored : (sanitizeName first.fullName).toList =
    first.owner.toList ++ '-' :: '-' :: first.bareRepo.toList := by
  have hname : first.fullName.toList =
      first.owner.toList ++ '/' :: first.repo.toList := by
    rw [Repository.fullName, String.toList_append, String.toList_append]
    simp
  have hnul : '\x00' ∉ first.fullName.toList := by
    rw [hname, List.mem_append, List.mem_cons]
    rintro (howner | hslash | hrepo)
    · exact not_mem_owner first (by decide) howner
    · exact absurd hslash (by decide)
    · exact not_mem_repo first (by decide) hrepo
  have hbare : first.bareRepo.toList = replace ['.', '.'] [] first.repo.toList := by
    rw [Repository.bareRepo, replaceText, String.toList_ofList]
    rfl
  have hslash : '/' ∉ first.bareRepo.toList := by
    rw [hbare]
    intro hmem
    rcases mem_replace hmem with hnone | hmem
    · cases hnone
    · exact not_mem_repo first (by decide) hmem
  have hfront : '.' ∉ first.owner.toList ++ ['/'] := by
    rw [List.mem_append, List.mem_singleton]
    rintro (howner | hdot)
    · exact not_mem_owner first (by decide) howner
    · exact absurd hdot (by decide)
  have hsplit : first.owner.toList ++ '/' :: first.repo.toList =
      (first.owner.toList ++ ['/']) ++ first.repo.toList := by
    rw [List.append_assoc, List.singleton_append]
  rw [Context.toList_sanitizeName, replace_symbol_self _ hnul, hname, hsplit,
    replace_double_append hfront, ← hbare, replace_symbol, List.flatMap_append,
    List.flatMap_append, ← replace_symbol, ← replace_symbol, ← replace_symbol,
    replace_symbol_self _ (not_mem_owner first (by decide)), replace_symbol_self _ hslash,
    List.append_assoc]
  rfl

/-- Sanitizing merges what deleting every `..` merges. -/
theorem sanitizeName_eq_iff :
    sanitizeName first.fullName = sanitizeName second.fullName ↔
      first.owner = second.owner ∧ first.bareRepo = second.bareRepo := by
  rw [← String.toList_inj, toList_stored, toList_stored]
  constructor
  · intro heq
    have howner : first.owner.toList = second.owner.toList := by
      rcases List.prefix_or_prefix_of_prefix
        (⟨_, rfl⟩ : first.owner.toList <+: first.owner.toList ++ _)
        (⟨_, heq.symm⟩ : second.owner.toList <+: _) with hshort | hshort
      · exact front_of_double second.admitted.ownerSingle
          second.admitted.ownerEnd heq hshort
      · exact (front_of_double first.admitted.ownerSingle
          first.admitted.ownerEnd heq.symm hshort).symm
    rw [howner, List.append_cancel_left_eq, List.cons.injEq, List.cons.injEq] at heq
    exact ⟨String.toList_inj.1 howner, String.toList_inj.1 heq.2.2⟩
  · rintro ⟨howner, hbare⟩
    rw [howner, hbare]

/-- Without `..` different names stay apart. -/
theorem stored_ne_of_single (hfirst : Single '.' first.repo.toList)
    (hsecond : Single '.' second.repo.toList) (hname : first.fullName ≠ second.fullName) :
    sanitizeName first.fullName ≠ sanitizeName second.fullName := by
  have hbare : ∀ repository : Repository, Single '.' repository.repo.toList →
      repository.bareRepo = repository.repo := by
    intro repository hsingle
    apply String.toList_inj.1
    rw [Repository.bareRepo, replaceText, String.toList_ofList]
    exact replace_double_self [] hsingle
  intro hsame
  obtain ⟨howner, hrepo⟩ := (sanitizeName_eq_iff first second).1 hsame
  rw [hbare first hfirst, hbare second hsecond] at hrepo
  apply hname
  rw [Repository.fullName, Repository.fullName, howner, hrepo]

end Names

/-! ### Conversations -/

/-- Every conversation has a name and an id of its own. -/
structure Registered (db : Db) : Prop where
  names : (db.conversations.map Conversation.name).Nodup
  ids : (db.conversations.map Conversation.conversationId).Nodup

section Conversations

variable {db : Db}

theorem registered_ensure (hdb : Registered db) (name : String) :
    Registered (ensureConversation db name).1 := by
  unfold ensureConversation
  cases hfind : db.conversations.find? (·.name == name) with
  | some row => exact hdb
  | none =>
      constructor
      · simp only [List.map_append, List.map_cons, List.map_nil]
        apply List.nodup_append.2 ⟨hdb.names, List.nodup_singleton _, ?_⟩
        intro first hfirst second hsecond
        obtain ⟨row, hrow, rfl⟩ := List.mem_map.1 hfirst
        rw [List.mem_singleton.1 hsecond]
        simpa using List.find?_eq_none.1 hfind row hrow
      · exact nodup_append_nextRowid hdb.ids rfl

/-- The conversation that is looked up or created is registered under the name. -/
theorem ensured_row (db : Db) (name : String) :
    (⟨(ensureConversation db name).2, name⟩ : Conversation) ∈
      (ensureConversation db name).1.conversations := by
  unfold ensureConversation
  cases hfind : db.conversations.find? (·.name == name) with
  | some row =>
      have hname : row.name = name := by simpa using List.find?_some hfind
      rw [← hname]
      exact List.mem_of_find?_eq_some hfind
  | none => exact List.mem_append_right _ (List.mem_singleton_self _)

theorem conversations_subset_ensure (db : Db) (name : String) :
    db.conversations ⊆ (ensureConversation db name).1.conversations := by
  unfold ensureConversation
  cases db.conversations.find? (·.name == name) with
  | some row => exact List.Subset.refl _
  | none => exact List.subset_append_left _ _

/-- The repair of the tail registers nothing. -/
theorem conversations_openSession (db : Db) (name now : String) :
    (openSession db name now).1.conversations =
      (ensureConversation db name).1.conversations := by
  have hrepair : ∀ (callIds : List String) (conversation : ConversationId) (db : Db),
      (callIds.foldl (repairPush conversation now) db).conversations =
        db.conversations := by
    intro callIds conversation
    induction callIds with
    | nil => exact fun _ => rfl
    | cons callId callIds ih => exact fun db => ih _
  simp only [openSession, repairDanglingToolCalls]
  cases danglingCalls (ensureConversation db name).1 (ensureConversation db name).2 with
  | error error => rfl
  | ok callIds => exact hrepair callIds _ _

theorem id_openSession (db : Db) (name now : String) :
    (openSession db name now).2 = (ensureConversation db name).2 := by
  simp only [openSession]
  cases repairDanglingToolCalls (ensureConversation db name).1
      (ensureConversation db name).2 now with
  | error error => rfl
  | ok repaired => rfl

theorem Registered.of_conversations {after : Db} (hdb : Registered db)
    (hsame : after.conversations = db.conversations) : Registered after := by
  constructor
  · rw [hsame]
    exact hdb.names
  · rw [hsame]
    exact hdb.ids

theorem registered_openSession (hdb : Registered db) (name now : String) :
    Registered (openSession db name now).1 :=
  (registered_ensure hdb name).of_conversations (conversations_openSession db name now)

theorem conversations_runCompaction (sha256 : List UInt8 → List UInt8)
    (hdb : db.Consistent) (conversation : ConversationId) (cfg : LcmConfig)
    (outcomes : List EscalationOutcome) :
    (runCompaction sha256 db conversation cfg outcomes).1.conversations =
      db.conversations := by
  have hkeeps : (runCompaction sha256 db conversation cfg outcomes).1.Consistent ∧
      (runCompaction sha256 db conversation cfg outcomes).1.conversations =
        db.conversations :=
    runCompaction_preserves
      (P := fun after => after.Consistent ∧ after.conversations = db.conversations)
      (Q := fun _ => True) sha256 cfg (fun _ hafter => hafter.1)
      (fun _ _ _ hafter hgroup _ _ hfresh =>
        ⟨consistent_leafWrite hafter.1 hgroup hfresh, hafter.2⟩)
      (fun _ _ _ hafter hchunk _ hfresh =>
        ⟨consistent_condensedWrite hafter.1 hchunk hfresh, hafter.2⟩)
      outcomes ⟨hdb, rfl⟩ (fun _ _ => trivial)
  exact hkeeps.2

theorem registered_step (sha256 : List UInt8 → List UInt8) (db : Db) (event : Event)
    (hdb : db.Consistent ∧ Registered db) :
    (step sha256 db event).Consistent ∧ Registered (step sha256 db event) := by
  refine ⟨consistent_step sha256 db event hdb.1, ?_⟩
  cases event with
  | push conversation message largeFile now => exact hdb.2.of_conversations rfl
  | compact conversation cfg outcomes =>
      exact hdb.2.of_conversations
        (conversations_runCompaction sha256 hdb.1 conversation cfg outcomes)
  | clear conversation => exact hdb.2.of_conversations rfl
  | openSession name now => exact registered_openSession hdb.2 name now

theorem registered_history (sha256 : List UInt8 → List UInt8) (events : List Event) :
    Registered (history sha256 events) := by
  have hstart : Db.empty.Consistent ∧ Registered Db.empty :=
    ⟨Db.consistent_empty, List.nodup_nil, List.nodup_nil⟩
  exact (Run.invariant_run (registered_step sha256) hstart events).2

/-- Two names open one conversation exactly when they are the same. -/
theorem openSession_eq_iff (hdb : Registered db) (first second now later : String) :
    (openSession (openSession db first now).1 second later).2 = (openSession db first now).2 ↔
      first = second := by
  have hopened := registered_openSession hdb first now
  have hfirst := ensured_row db first
  rw [← id_openSession db first now, ← conversations_openSession db first now] at hfirst
  have hboth := registered_openSession hopened second later
  have hsecond := ensured_row (openSession db first now).1 second
  rw [← id_openSession _ second later, ← conversations_openSession _ second later] at hsecond
  have hkept : (⟨(openSession db first now).2, first⟩ : Conversation) ∈
      (openSession (openSession db first now).1 second later).1.conversations := by
    rw [conversations_openSession]
    exact conversations_subset_ensure _ _ hfirst
  constructor
  · intro hid
    have hrow := List.inj_on_of_nodup_map hboth.ids hkept hsecond hid.symm
    exact congrArg Conversation.name hrow
  · intro hname
    have hrow := List.inj_on_of_nodup_map hboth.names hkept hsecond hname
    exact (congrArg Conversation.conversationId hrow).symm

end Conversations

/-! ### Isolation -/

/-- The session of a name in the store. -/
def switchSession (db : Db) (name now : String) : Db × ConversationId :=
  openSession db (sanitizeName name) now

/-- Two repositories have one stored name, and one conversation, exactly when their
names are equal once every `..` is deleted. -/
theorem repositories_share_iff (sha256 : List UInt8 → List UInt8) (events : List Event)
    (first second : Repository) (now later : String) :
    (sanitizeName first.fullName = sanitizeName second.fullName ↔
      first.owner = second.owner ∧ first.bareRepo = second.bareRepo) ∧
    ((switchSession (switchSession (history sha256 events) first.fullName now).1
        second.fullName later).2 =
          (switchSession (history sha256 events) first.fullName now).2 ↔
      first.owner = second.owner ∧ first.bareRepo = second.bareRepo) := by
  refine ⟨sanitizeName_eq_iff first second, ?_⟩
  rw [← sanitizeName_eq_iff first second]
  exact openSession_eq_iff (registered_history sha256 events) _ _ now later

theorem admitted_dotted : Admitted "owner" "a..b" where
  ownerSymbols := by decide
  ownerSome := by decide
  ownerSingle := by decide
  ownerStart := by decide
  ownerEnd := by decide
  repoSymbols := by decide
  repoSome := by decide
  repoOther := by decide

theorem admitted_plain : Admitted "owner" "ab" where
  ownerSymbols := by decide
  ownerSome := by decide
  ownerSingle := by decide
  ownerStart := by decide
  ownerEnd := by decide
  repoSymbols := by decide
  repoSome := by decide
  repoOther := by decide

/-- The dots of `owner/a..b` do not keep it apart from `owner/ab`. -/
theorem dotted_shares_plain :
    ¬ ∀ first second : Repository, first.fullName ≠ second.fullName →
      sanitizeName first.fullName ≠ sanitizeName second.fullName := by
  intro happart
  apply happart ⟨"owner", "a..b", admitted_dotted⟩ ⟨"owner", "ab", admitted_plain⟩
  · decide
  · rfl

end Kitaebot.Lcm
