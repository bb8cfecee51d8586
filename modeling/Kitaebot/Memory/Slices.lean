import Kitaebot.Memory.Distill

/-!
# The slices of a pass

A pass packs what the pending sessions hold, in their order, into its token budget: each
span is a page of its session's backlog under what the spans before it leave, and the
pass ends when the budget is used up or every pending session has been visited.
-/

namespace Kitaebot.Memory

open Context (clampSpan tokensOf)

/-- The engine's reads, where they succeed, are of what the sessions hold. -/
structure Serves (engine : Engine) (held : String → List Message) : Prop where
  positions : ∀ tips, engine.latestPositions = .ok tips →
    ∀ name, (tips.find? name).getD 0 = (held name).length
  pending : ∀ since pending, engine.pendingDistillTokens since = .ok pending →
    ∀ name, pending.find? name =
      let tokens := tokensOf Message.tokenEstimate
        ((held name).drop ((since.find? name).getD 0))
      if 0 < tokens then some tokens else none
  transcript : ∀ name, held name ≠ [] → ∀ after maxTokens messages,
    engine.transcriptSince name after maxTokens = .ok messages →
      messages = clampSpan Message.tokenEstimate maxTokens ((held name).drop after)

def DistillState.mark (state : DistillState) (name : String) : ℕ :=
  (state.watermarks.find? name).getD 0

/-- What a session holds beyond its watermark. -/
def backlog (held : String → List Message) (state : DistillState) (name : String) :
    List Message :=
  (held name).drop (state.mark name)

def spanTokens (spans : List (String × List Message)) : ℕ :=
  (spans.map fun span => tokensOf Message.tokenEstimate span.2).sum

@[simp]
theorem spanTokens_cons (name : String) (messages : List Message)
    (spans : List (String × List Message)) :
    spanTokens ((name, messages) :: spans) =
      tokensOf Message.tokenEstimate messages + spanTokens spans := rfl

/-- The spans that fit a budget. -/
def pack (backlog : String → List Message) : ℕ → List String → List (String × List Message)
  | _, [] => []
  | budget, name :: names =>
      if budget = 0 then []
      else
        let span := clampSpan Message.tokenEstimate budget (backlog name)
        (name, span) :: pack backlog (budget - tokensOf Message.tokenEstimate span) names

section Pack

variable {backlog : String → List Message} {budget : ℕ} {names : List String}

theorem names_pack (backlog : String → List Message) (budget : ℕ) (names : List String) :
    (pack backlog budget names).map Prod.fst <+: names := by
  induction names generalizing budget with
  | nil => exact List.prefix_rfl
  | cons name names ih =>
      rw [pack]
      split_ifs with hbudget
      · exact List.nil_prefix
      · exact (List.prefix_cons_inj name).2 (ih _)

theorem prefix_of_mem_pack {span : String × List Message}
    (hspan : span ∈ pack backlog budget names) : span.2 <+: backlog span.1 := by
  induction names generalizing budget with
  | nil => cases hspan
  | cons name names ih =>
      rw [pack] at hspan
      split_ifs at hspan with hbudget
      · cases hspan
      · rcases List.mem_cons.1 hspan with rfl | hlater
        · exact Context.clampSpan_prefix _ _ _
        · exact ih hlater

theorem ne_nil_of_mem_pack (hnames : ∀ name ∈ names, backlog name ≠ [])
    {span : String × List Message} (hspan : span ∈ pack backlog budget names) :
    span.2 ≠ [] := by
  induction names generalizing budget with
  | nil => cases hspan
  | cons name names ih =>
      rw [pack] at hspan
      split_ifs at hspan with hbudget
      · cases hspan
      · rcases List.mem_cons.1 hspan with rfl | hlater
        · exact Context.clampSpan_ne_nil _ _ (hnames name List.mem_cons_self)
        · exact ih (fun other hother => hnames other (List.mem_cons_of_mem name hother))
            hlater

/-- Each span is a page of its backlog under what the spans before it leave. -/
theorem isPage_pack {front back : List (String × List Message)}
    {span : String × List Message} (hpack : pack backlog budget names = front ++ span :: back) :
    spanTokens front < budget ∧
      Paging.IsPage Message.tokenEstimate (budget - spanTokens front) (backlog span.1)
        span.2 := by
  induction names generalizing budget front with
  | nil =>
      have hnil : ([] : List (String × List Message)) = front ++ span :: back := hpack
      simp at hnil
  | cons name names ih =>
      rw [pack] at hpack
      split_ifs at hpack with hbudget
      · simp at hpack
      · cases front with
        | nil =>
            obtain ⟨hspan, _⟩ := List.cons.inj hpack
            rw [← hspan]
            exact ⟨Nat.pos_of_ne_zero hbudget, Context.isPage_clampSpan _ _ _⟩
        | cons first front =>
            obtain ⟨hfirst, hrest⟩ := List.cons.inj hpack
            obtain ⟨hlt, hpage⟩ := ih hrest
            rw [← hfirst, spanTokens_cons, Nat.sub_add_eq]
            exact ⟨by omega, hpage⟩

/-- A session is left out only when the budget is used up. -/
theorem pack_exhausts (hshort : (pack backlog budget names).map Prod.fst ≠ names) :
    budget ≤ spanTokens (pack backlog budget names) := by
  induction names generalizing budget with
  | nil => exact absurd rfl hshort
  | cons name names ih =>
      rw [pack] at hshort ⊢
      split_ifs at hshort ⊢ with hbudget
      · rw [hbudget]
        exact Nat.zero_le _
      · have hrest := ih (fun heq => hshort (congrArg (name :: ·) heq))
        rw [spanTokens_cons]
        omega

end Pack

/-! ### Gathering -/

/-- The last session and the advances are those of the gathered spans. -/
structure Tracks (mark : String → ℕ) (gathered : Gathered) : Prop where
  lastSession : gathered.lastSession = (gathered.spans.map Prod.fst).getLast?
  advances : ∀ name, (gathered.advances.find? name).getD (mark name) =
    Watermarks.advance mark gathered.spans name

theorem tracks_new (mark : String → ℕ) (budget : ℕ) : Tracks mark (Gathered.new budget) :=
  ⟨rfl, fun _ => rfl⟩

section Gather

variable {mark : String → ℕ} {gathered : Gathered}

theorem Tracks.accept (htracks : Tracks mark gathered) {name : String}
    (hname : name ∉ gathered.spans.map Prod.fst) {messages : List Message}
    (hmessages : messages ≠ []) :
    Tracks mark (gathered.accept name (mark name) messages) := by
  rw [Gathered.accept, if_neg hmessages]
  constructor
  · rw [List.map_append, List.map_singleton, List.getLast?_concat]
  · intro other
    have hbefore := htracks.advances other
    rw [Watermarks.advance] at hbefore ⊢
    rw [Watermarks.portion_append, Watermarks.portion_cons, Watermarks.portion_nil,
      List.append_nil, List.length_append, SortedMap.find?_insert]
    by_cases hother : other = name
    · subst hother
      rw [if_pos rfl, if_pos rfl, Watermarks.portion_of_not_mem hname]
      rw [List.length_nil, Nat.zero_add]
      rfl
    · rw [if_neg hother, if_neg (Ne.symm hother), hbefore]
      rfl

/-- Accepting spans of different sessions. -/
theorem Tracks.acceptAll {spans : List (String × List Message)}
    (hspans : ∀ span ∈ spans, span.2 ≠ []) (htracks : Tracks mark gathered)
    (hnodup : ((gathered.spans ++ spans).map Prod.fst).Nodup) :
    Tracks mark (spans.foldl (fun gathered span =>
        gathered.accept span.1 (mark span.1) span.2) gathered) ∧
      (spans.foldl (fun gathered span =>
        gathered.accept span.1 (mark span.1) span.2) gathered).spans =
          gathered.spans ++ spans := by
  induction spans generalizing gathered with
  | nil => exact ⟨htracks, (List.append_nil _).symm⟩
  | cons span spans ih =>
      obtain ⟨hspan, hrest⟩ := List.forall_mem_cons.1 hspans
      have hname : span.1 ∉ gathered.spans.map Prod.fst := by
        rw [List.map_append, List.map_cons] at hnodup
        intro hmem
        exact (List.nodup_append.1 hnodup).2.2 span.1 hmem span.1 List.mem_cons_self rfl
      have haccepted : (gathered.accept span.1 (mark span.1) span.2).spans =
          gathered.spans ++ [span] := by
        rw [Gathered.accept, if_neg hspan]
      have hsplit : gathered.spans ++ span :: spans =
          (gathered.accept span.1 (mark span.1) span.2).spans ++ spans := by
        rw [haccepted, List.append_assoc, List.singleton_append]
      rw [hsplit] at hnodup ⊢
      exact ih hrest (htracks.accept hname hspan) hnodup

/-- The gather loop accepts what fits, session by session. -/
theorem gather_eq {engine : Engine} {held : String → List Message}
    (hserves : Serves engine held) {watermarks : SortedMap String ℕ} {names : List String}
    (hnames : ∀ name ∈ names, held name ≠ []) {start : Gathered}
    (hgather : gather engine watermarks start names = .ok gathered) :
    gathered = (pack (fun name => (held name).drop ((watermarks.find? name).getD 0))
      start.budget names).foldl (fun gathered span =>
        gathered.accept span.1 ((watermarks.find? span.1).getD 0) span.2) start := by
  induction names generalizing start with
  | nil => exact (Except.ok.inj hgather).symm
  | cons name names ih =>
      obtain ⟨hname, hrest⟩ := List.forall_mem_cons.1 hnames
      rw [gather] at hgather
      rw [pack]
      split_ifs at hgather ⊢ with hbudget
      · exact (Except.ok.inj hgather).symm
      · cases hfetch : engine.transcriptSince name ((watermarks.find? name).getD 0)
            start.budget with
        | error error =>
            simp only [hfetch] at hgather
            cases hgather
        | ok messages =>
            simp only [hfetch] at hgather
            have hspan := hserves.transcript name hname _ _ _ hfetch
            have haccepted : (start.accept name ((watermarks.find? name).getD 0)
                messages).budget =
                  start.budget - tokensOf Message.tokenEstimate messages := by
              rw [Gathered.accept]
              split_ifs with hempty
              · rw [hempty]
                rfl
              · rfl
            rw [List.foldl_cons, ← hspan, ← haccepted]
            exact ih hrest hgather

end Gather

/-! ### A pass -/

/-- What a pass that folded has done to the state. -/
structure Folded (held : String → List Message) (sliceTokens : ℕ)
    (before after : DistillState) (pending : SortedMap String ℕ)
    (spans : List (String × List Message)) : Prop where
  mem_pending : ∀ name, name ∈ pending.keys ↔
    0 < tokensOf Message.tokenEstimate (backlog held before name)
  spans_eq : spans = pack (backlog held before) sliceTokens
    (sessionOrder pending before.lastSession)
  ne_nil : spans ≠ []
  lastSession : after.lastSession = (spans.map Prod.fst).getLast?
  marks : ∀ name, after.mark name = Watermarks.advance before.mark spans name

section Run

variable {engine : Engine} {held : String → List Message} {distiller : Distiller}
  {state : DistillState} {gate : Gate}

/-- The pending sessions are those with tokens beyond their watermarks. -/
theorem mem_pending (hserves : Serves engine held) {pending : SortedMap String ℕ}
    (hpending : engine.pendingDistillTokens state.watermarks = .ok pending)
    (name : String) : name ∈ pending.keys ↔
      0 < tokensOf Message.tokenEstimate (backlog held state name) := by
  have hfind := hserves.pending _ _ hpending name
  rw [SortedMap.mem_keys, hfind]
  change (∃ value, (if 0 < tokensOf Message.tokenEstimate (backlog held state name) then
    some (tokensOf Message.tokenEstimate (backlog held state name)) else none) =
      some value) ↔ _
  split_ifs with htokens
  · exact iff_of_true ⟨_, rfl⟩ htokens
  · refine iff_of_false ?_ htokens
    rintro ⟨value, hvalue⟩
    cases hvalue

theorem backlog_ne_nil {name : String}
    (htokens : 0 < tokensOf Message.tokenEstimate (backlog held state name)) :
    backlog held state name ≠ [] := by
  intro hnil
  rw [hnil] at htokens
  exact absurd htokens (lt_irrefl 0)

/-- The gathered spans are those that fit the slice. -/
theorem gathered_tracks (hserves : Serves engine held) {pending : SortedMap String ℕ}
    (hpending : engine.pendingDistillTokens state.watermarks = .ok pending)
    {gathered : Gathered}
    (hgather : gather engine state.watermarks (Gathered.new distiller.sliceTokens)
      (sessionOrder pending state.lastSession) = .ok gathered) :
    Tracks state.mark gathered ∧
      gathered.spans = pack (backlog held state) distiller.sliceTokens
        (sessionOrder pending state.lastSession) := by
  have hbacklog : ∀ name ∈ sessionOrder pending state.lastSession,
      backlog held state name ≠ [] := fun name hname =>
    backlog_ne_nil ((mem_pending hserves hpending name).1 (RoundRobin.mem_order.1 hname))
  have hheld : ∀ name ∈ sessionOrder pending state.lastSession, held name ≠ [] := by
    intro name hname hnil
    apply hbacklog name hname
    rw [backlog, hnil, List.drop_nil]
  have hgathered : gathered = (pack (backlog held state) distiller.sliceTokens
      (sessionOrder pending state.lastSession)).foldl (fun gathered span =>
        gathered.accept span.1 (state.mark span.1) span.2)
          (Gathered.new distiller.sliceTokens) := gather_eq hserves hheld hgather
  have hnodup : ((pack (backlog held state) distiller.sliceTokens
      (sessionOrder pending state.lastSession)).map Prod.fst).Nodup :=
    (RoundRobin.nodup_order pending.nodup_keys).sublist (names_pack _ _ _).sublist
  rw [hgathered]
  exact (tracks_new state.mark distiller.sliceTokens).acceptAll
    (fun span hspan => ne_nil_of_mem_pack hbacklog hspan) hnodup

theorem gathered_folded (hserves : Serves engine held) {pending : SortedMap String ℕ}
    (hpending : engine.pendingDistillTokens state.watermarks = .ok pending)
    {gathered : Gathered}
    (hgather : gather engine state.watermarks (Gathered.new distiller.sliceTokens)
      (sessionOrder pending state.lastSession) = .ok gathered)
    (hsome : gathered.spans ≠ []) :
    Folded held distiller.sliceTokens state (state.advance gathered) pending
      gathered.spans := by
  obtain ⟨htracks, hspans⟩ := gathered_tracks hserves hpending hgather
  constructor
  · exact mem_pending hserves hpending
  · exact hspans
  · exact hsome
  · exact htracks.lastSession
  · intro name
    rw [← htracks.advances, DistillState.mark, DistillState.advance, SortedMap.find?_extend]
    cases gathered.advances.find? name with
    | none => rfl
    | some position => rfl

/-- A pass whose gate is open gathers, and folds what it gathered, if anything. -/
theorem openSpans_eq {pending : SortedMap String ℕ}
    (hpending : engine.pendingDistillTokens state.watermarks = .ok pending) :
    openSpans engine distiller state gate =
      if gate = .enforce ∧ gateOpen (totalPending pending) distiller.threshold = false then
        .ok none
      else (gather engine state.watermarks (Gathered.new distiller.sliceTokens)
        (sessionOrder pending state.lastSession)).map fun gathered =>
          if gathered.spans = [] then none else some gathered := by
  rw [openSpans, hpending]
  change (if _ then Except.ok none else _) = _
  split_ifs with hgate
  · rfl
  · cases gather engine state.watermarks (Gathered.new distiller.sliceTokens)
      (sessionOrder pending state.lastSession) with
    | error error => rfl
    | ok gathered => rfl

theorem openSpans_folded (hserves : Serves engine held) {gathered : Gathered}
    (hopen : openSpans engine distiller state gate = .ok (some gathered)) :
    ∃ pending, Folded held distiller.sliceTokens state (state.advance gathered) pending
      gathered.spans := by
  cases hpending : engine.pendingDistillTokens state.watermarks with
  | error error =>
      rw [openSpans, hpending] at hopen
      cases hopen
  | ok pending =>
      refine ⟨pending, ?_⟩
      rw [openSpans_eq hpending] at hopen
      split_ifs at hopen with hgate
      · cases hopen
      · cases hgather : gather engine state.watermarks
            (Gathered.new distiller.sliceTokens)
            (sessionOrder pending state.lastSession) with
        | error error =>
            rw [hgather] at hopen
            cases hopen
        | ok found =>
            rw [hgather] at hopen
            have hsome := Except.ok.inj hopen
            dsimp only at hsome
            split_ifs at hsome with hempty
            obtain rfl := Option.some.inj hsome
            exact gathered_folded hserves hpending hgather hempty

/-- The spans a pass folds, if it gets that far. -/
def spansOf (engine : Engine) (distiller : Distiller) (state : DistillState) (gate : Gate) :
    List (String × List Message) :=
  match openSpans engine distiller state gate with
  | .ok (some gathered) => gathered.spans
  | _ => []

/-- A pass without a reply leaves the state; one with a reply has folded its spans in a
turn that succeeded. -/
theorem run_cases (hserves : Serves engine held) (fold retry : Turn)
    (workspace : Workspace) :
    let pass := run engine distiller fold retry workspace state gate
    let spans := spansOf engine distiller state gate
    ((∀ reply, pass.result ≠ .ok (some reply)) ∧ pass.state = state) ∨
      ∃ reply pending, pass.result = .ok (some reply) ∧
        Folded held distiller.sliceTokens state pass.state pending spans ∧
        ∃ output after, fold (foldRequest distiller workspace spans) workspace =
          (.ok output, after) := by
  simp only [run, spansOf]
  cases hopen : openSpans engine distiller state gate with
  | error error =>
      left
      exact ⟨fun reply hreply => (nomatch hreply), rfl⟩
  | ok found =>
      cases found with
      | none =>
          left
          exact ⟨fun reply hreply => (nomatch hreply), rfl⟩
      | some gathered =>
          obtain ⟨pending, hfolded⟩ := openSpans_folded hserves hopen
          dsimp only
          cases hturn : fold (foldRequest distiller workspace gathered.spans) workspace with
          | mk result after =>
              cases result with
              | error text =>
                  left
                  exact ⟨fun reply hreply => (nomatch hreply), rfl⟩
              | ok output =>
                  right
                  exact ⟨_, pending, rfl, hfolded, output, after, rfl⟩

namespace Folded

variable {sliceTokens : ℕ} {before after : DistillState} {pending : SortedMap String ℕ}
  {spans : List (String × List Message)}

theorem names_prefix (hfolded : Folded held sliceTokens before after pending spans) :
    spans.map Prod.fst <+: sessionOrder pending before.lastSession := by
  rw [hfolded.spans_eq]
  exact names_pack _ _ _

theorem nodup_names (hfolded : Folded held sliceTokens before after pending spans) :
    (spans.map Prod.fst).Nodup :=
  (RoundRobin.nodup_order pending.nodup_keys).sublist hfolded.names_prefix.sublist

theorem span_prefix (hfolded : Folded held sliceTokens before after pending spans)
    {span : String × List Message} (hspan : span ∈ spans) :
    span.2 <+: backlog held before span.1 := by
  rw [hfolded.spans_eq] at hspan
  exact prefix_of_mem_pack hspan

theorem span_ne_nil (hfolded : Folded held sliceTokens before after pending spans)
    {span : String × List Message} (hspan : span ∈ spans) : span.2 ≠ [] := by
  rw [hfolded.spans_eq] at hspan
  apply ne_nil_of_mem_pack _ hspan
  intro name hname
  exact backlog_ne_nil ((hfolded.mem_pending name).1 (RoundRobin.mem_order.1 hname))

theorem mark_le (hfolded : Folded held sliceTokens before after pending spans)
    (name : String) : before.mark name ≤ after.mark name := by
  rw [hfolded.marks]
  exact Nat.le_add_right _ _

/-- A folded session's watermark moves. -/
theorem mark_lt (hfolded : Folded held sliceTokens before after pending spans)
    {span : String × List Message} (hspan : span ∈ spans) :
    before.mark span.1 < after.mark span.1 := by
  have hlength := List.length_pos_of_ne_nil (hfolded.span_ne_nil hspan)
  rw [hfolded.marks, Watermarks.advance, Watermarks.portion_of_mem hfolded.nodup_names hspan]
  omega

end Folded

end Run

end Kitaebot.Memory
