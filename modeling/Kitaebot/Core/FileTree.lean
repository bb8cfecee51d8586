import Mathlib.Data.List.Induction
import Kitaebot.Core.PathText

/-!
# File trees with symbolic links

A tree maps locations to entries.  The operating system reads a path text from
the left: a link is replaced by its target, within a budget of links, and a
last name may be absent.  From the last link on, the reading is lexical.
-/

namespace Kitaebot

open PathText

inductive Entry where
  | file
  | directory
  | link (target : String)
  deriving DecidableEq, Repr

inductive WalkError where
  | notFound
  | notADirectory
  | tooManyLinks
  deriving DecidableEq, Repr

/-- Whatever is in the tree lies in a directory of it. -/
structure FileTree where
  entry : Location → Option Entry
  root_directory : entry [] = some .directory
  parent_directory : ∀ location name,
    (entry (location ++ [name])).isSome → entry location = some .directory

namespace FileTree

/-- A tree given by its entries below the root. -/
def lookup (entries : List (Location × Entry)) : Location → Option Entry
  | [] => some .directory
  | location => (entries.find? fun entry => entry.1 == location).map Prod.snd

def ofEntries (entries : List (Location × Entry))
    (hparents : ∀ entry ∈ entries,
      lookup entries entry.1.dropLast = some .directory) : FileTree where
  entry := lookup entries
  root_directory := rfl
  parent_directory := by
    intro location name hsome
    have hkey : lookup entries (location ++ [name]) =
        (entries.find? fun entry => entry.1 == location ++ [name]).map
          Prod.snd := by
      cases location with
      | nil => rfl
      | cons first location => rfl
    rw [hkey, Option.isSome_map] at hsome
    obtain ⟨found, hfound⟩ := Option.isSome_iff_exists.mp hsome
    have hlocation : found.1 = location ++ [name] := by
      simpa using List.find?_some hfound
    have hparent := hparents found (List.mem_of_find?_eq_some hfound)
    rwa [hlocation, List.dropLast_concat] at hparent

/-- Where the reading of a link's target starts. -/
def linkStart (location : Location) (target : String) : Location :=
  if isAbsolute (segments target) then [] else location

/-- Read segments from a location; `follow` reads on from a link. -/
def walkWith (tree : FileTree)
    (follow : Location → List String → Except WalkError Location) :
    Location → List String → Except WalkError Location
  | location, [] => .ok location
  | location, segment :: rest =>
      match tree.entry location with
      | none => .error .notFound
      | some .file => .error .notADirectory
      | some (.link _) => .error .notADirectory
      | some .directory =>
          if isSkipped segment then walkWith tree follow location rest
          else if segment = ".." then
            walkWith tree follow location.dropLast rest
          else match tree.entry (location ++ [segment]) with
            | some (.link target) =>
                follow (linkStart location target) (segments target ++ rest)
            | _ => walkWith tree follow (location ++ [segment]) rest

/-- The location a path text leads to, following at most `limit` links. -/
def walk (tree : FileTree) :
    ℕ → Location → List String → Except WalkError Location
  | 0 => tree.walkWith fun _ _ => .error .tooManyLinks
  | limit + 1 => tree.walkWith (tree.walk limit)

/-- The real path of something that exists. -/
def canonicalize (tree : FileTree) (limit : ℕ) (path : PathText) :
    Except WalkError Location := do
  let location ← tree.walk limit [] path
  if (tree.entry location).isSome then pure location
  else .error .notFound

/-- Where the reading goes on after the first link it meets. -/
def firstLink (tree : FileTree) :
    Location → List String → Option (Location × List String)
  | _, [] => none
  | location, segment :: rest =>
      if isSkipped segment then tree.firstLink location rest
      else if segment = ".." then tree.firstLink location.dropLast rest
      else match tree.entry (location ++ [segment]) with
        | some (.link target) =>
            some (linkStart location target, segments target ++ rest)
        | _ => tree.firstLink (location ++ [segment]) rest

/-- What is left to read after the last link. -/
def lastStretch (tree : FileTree) :
    ℕ → Location → List String → Location × List String
  | 0, location, path => (location, path)
  | limit + 1, location, path =>
      match tree.firstLink location path with
      | none => (location, path)
      | some (next, rest) => tree.lastStretch limit next rest

/-- The reading that looks at no entry. -/
def collapse : Location → List String → Location
  | location, [] => location
  | location, segment :: rest =>
      if isSkipped segment then collapse location rest
      else if segment = ".." then collapse location.dropLast rest
      else collapse (location ++ [segment]) rest

theorem collapse_append (location : Location) (first second : List String) :
    collapse location (first ++ second) =
      collapse (collapse location first) second := by
  induction first generalizing location with
  | nil => rfl
  | cons segment first ih =>
      rw [List.cons_append, collapse, collapse]
      split_ifs
      · exact ih location
      · exact ih location.dropLast
      · exact ih (location ++ [segment])

/-- Without parent directories a reading only adds names. -/
theorem collapse_names (location : Location) {path : List String}
    (hpath : ".." ∉ path) :
    collapse location path = location ++ names path := by
  induction path generalizing location with
  | nil => exact (List.append_nil location).symm
  | cons segment path ih =>
      obtain ⟨hsegment, hrest⟩ := not_or.mp (List.mem_cons.not.mp hpath)
      rw [collapse, names, List.filter_cons]
      by_cases hskip : isSkipped segment
      · rw [if_pos hskip, if_neg (by simp [IsName, hskip])]
        exact ih location hrest
      · have hname : IsName segment := ⟨by simpa using hskip, Ne.symm hsegment⟩
        rw [if_neg hskip, if_neg (Ne.symm hsegment), if_pos (by simpa using hname),
          ih _ hrest, names, List.append_assoc, List.singleton_append]

/-! ## One link at a time -/

section Walk

variable (tree : FileTree)
  (follow : Location → List String → Except WalkError Location)

theorem walkWith_ok_cons {location reached : Location} {segment : String}
    {rest : List String}
    (hwalk : tree.walkWith follow location (segment :: rest) = .ok reached) :
    tree.entry location = some .directory := by
  rw [walkWith] at hwalk
  split at hwalk
  · cases hwalk
  · cases hwalk
  · cases hwalk
  · assumption

theorem walkWith_cons {location : Location} {segment : String}
    {rest : List String}
    (hdirectory : tree.entry location = some .directory) :
    tree.walkWith follow location (segment :: rest) =
      if isSkipped segment then tree.walkWith follow location rest
      else if segment = ".." then
        tree.walkWith follow location.dropLast rest
      else match tree.entry (location ++ [segment]) with
        | some (.link target) =>
            follow (linkStart location target) (segments target ++ rest)
        | _ => tree.walkWith follow (location ++ [segment]) rest := by
  rw [walkWith, hdirectory]

/-- Without a link the reading is lexical. -/
theorem walkWith_of_no_link {location reached : Location} {path : List String}
    (hlink : tree.firstLink location path = none)
    (hwalk : tree.walkWith follow location path = .ok reached) :
    reached = collapse location path := by
  induction path generalizing location with
  | nil => exact (Except.ok.inj hwalk).symm
  | cons segment rest ih =>
      rw [walkWith_cons tree follow (walkWith_ok_cons tree follow hwalk)] at hwalk
      rw [firstLink] at hlink
      rw [collapse]
      split_ifs at hwalk hlink ⊢ with hskip hparent
      · exact ih hlink hwalk
      · exact ih hlink hwalk
      · split at hwalk
        · next target htarget => simp only [htarget] at hlink; cases hlink
        · next hother =>
            split at hlink
            · cases hlink
            · exact ih hlink hwalk

/-- A link hands the reading over. -/
theorem walkWith_of_link {location reached next : Location}
    {path rest : List String}
    (hlink : tree.firstLink location path = some (next, rest))
    (hwalk : tree.walkWith follow location path = .ok reached) :
    follow next rest = .ok reached := by
  induction path generalizing location with
  | nil => cases hlink
  | cons segment path ih =>
      rw [walkWith_cons tree follow (walkWith_ok_cons tree follow hwalk)] at hwalk
      rw [firstLink] at hlink
      split_ifs at hwalk hlink with hskip hparent
      · exact ih hlink hwalk
      · exact ih hlink hwalk
      · split at hwalk
        · next target htarget =>
            simp only [htarget] at hlink
            cases hlink
            exact hwalk
        · next hother =>
            split at hlink
            · next target htarget => exact absurd htarget (hother target)
            · exact ih hlink hwalk

end Walk

/-- From the last link on, the reading is lexical. -/
theorem walk_lastStretch (tree : FileTree) {limit : ℕ}
    {location reached : Location} {path : List String}
    (hwalk : tree.walk limit location path = .ok reached) :
    reached = collapse (tree.lastStretch limit location path).1
      (tree.lastStretch limit location path).2 := by
  induction limit generalizing location path with
  | zero =>
      cases hlink : tree.firstLink location path with
      | none => exact tree.walkWith_of_no_link _ hlink hwalk
      | some next => cases tree.walkWith_of_link _ hlink hwalk
  | succ limit ih =>
      rw [lastStretch]
      cases hlink : tree.firstLink location path with
      | none => exact tree.walkWith_of_no_link _ hlink hwalk
      | some next => exact ih (tree.walkWith_of_link _ hlink hwalk)

/-! ## Real paths -/

theorem names_dropLast {location : Location}
    (hnames : ∀ name ∈ location, IsName name) :
    ∀ name ∈ location.dropLast, IsName name :=
  fun name hname => hnames name (List.mem_of_mem_dropLast hname)

theorem names_concat {location : Location}
    (hnames : ∀ name ∈ location, IsName name) {name : String}
    (hname : IsName name) : ∀ other ∈ location ++ [name], IsName other := by
  intro other hother
  rcases List.mem_append.mp hother with hold | hnew
  · exact hnames other hold
  · rw [List.mem_singleton.mp hnew]
    exact hname

/-- What a path text leads to is made of names, and is no link. -/
structure Settled (tree : FileTree) (location : Location) : Prop where
  names : ∀ name ∈ location, IsName name
  no_link : ∀ target, tree.entry location ≠ some (.link target)

theorem settled_root (tree : FileTree) : tree.Settled [] where
  names := by simp
  no_link := by simp [tree.root_directory]

theorem settled_dropLast {tree : FileTree} {location : Location}
    (hlocation : tree.Settled location)
    (hdirectory : tree.entry location = some .directory) :
    tree.Settled location.dropLast := by
  refine ⟨names_dropLast hlocation.names, ?_⟩
  intro target
  rcases List.eq_nil_or_concat' location with rfl | ⟨parent, name, rfl⟩
  · exact hlocation.no_link target
  · rw [List.dropLast_concat, tree.parent_directory parent name (by simp [hdirectory])]
    simp

theorem settled_linkStart {tree : FileTree} {location : Location}
    (hlocation : tree.Settled location) (target : String) :
    tree.Settled (linkStart location target) := by
  rw [linkStart]
  split
  · exact tree.settled_root
  · exact hlocation

theorem settled_walkWith {tree : FileTree}
    {follow : Location → List String → Except WalkError Location}
    (hfollow : ∀ location path reached, tree.Settled location →
      follow location path = .ok reached → tree.Settled reached)
    {location reached : Location} {path : List String}
    (hlocation : tree.Settled location)
    (hwalk : tree.walkWith follow location path = .ok reached) :
    tree.Settled reached := by
  induction path generalizing location with
  | nil => exact Except.ok.inj hwalk ▸ hlocation
  | cons segment rest ih =>
      have hdirectory := walkWith_ok_cons tree follow hwalk
      rw [walkWith_cons tree follow hdirectory] at hwalk
      split_ifs at hwalk with hskip hparent
      · exact ih hlocation hwalk
      · exact ih (settled_dropLast hlocation hdirectory) hwalk
      · split at hwalk
        · exact hfollow _ _ _ (settled_linkStart hlocation _) hwalk
        · next hother =>
            have hname : IsName segment := ⟨by simpa using hskip, hparent⟩
            exact ih ⟨names_concat hlocation.names hname, hother⟩ hwalk

theorem settled_walk {tree : FileTree} {limit : ℕ}
    {location reached : Location} {path : List String}
    (hlocation : tree.Settled location)
    (hwalk : tree.walk limit location path = .ok reached) :
    tree.Settled reached := by
  induction limit generalizing location reached path with
  | zero =>
      exact settled_walkWith (fun _ _ _ _ hreached => by cases hreached)
        hlocation hwalk
  | succ limit ih =>
      exact settled_walkWith (fun _ _ _ hnext hreached => ih hnext hreached)
        hlocation hwalk

theorem directory_of_append (tree : FileTree) {location : Location} {name : String}
    {names : List String}
    (hexists : (tree.entry (location ++ name :: names)).isSome) :
    tree.entry location = some .directory := by
  induction names using List.reverseRecOn with
  | nil => exact tree.parent_directory location name hexists
  | append_singleton names last ih =>
      rw [← List.cons_append, ← List.append_assoc] at hexists
      apply ih
      rw [tree.parent_directory _ last hexists]
      rfl

/-- Reading a real path stays on it. -/
theorem walkWith_names (tree : FileTree)
    (follow : Location → List String → Except WalkError Location)
    {location : Location} {names : List String}
    (hnames : ∀ name ∈ names, IsName name)
    (hexists : (tree.entry (location ++ names)).isSome)
    (hlink : ∀ target, tree.entry (location ++ names) ≠ some (.link target))
    (rest : List String) :
    tree.walkWith follow location (names ++ rest) =
      tree.walkWith follow (location ++ names) rest := by
  induction names generalizing location with
  | nil => rw [List.append_nil, List.nil_append]
  | cons name names ih =>
      obtain ⟨hskip, hparent⟩ := hnames name List.mem_cons_self
      have hsplit : location ++ name :: names = (location ++ [name]) ++ names := by
        simp
      have hnext : ∀ target,
          tree.entry (location ++ [name]) ≠ some (.link target) := by
        intro target
        cases names with
        | nil => exact hlink target
        | cons other names =>
            rw [hsplit] at hexists
            rw [tree.directory_of_append hexists]
            simp
      rw [List.cons_append,
        walkWith_cons tree follow (tree.directory_of_append hexists), hskip,
        if_neg Bool.false_ne_true, if_neg hparent]
      rw [hsplit] at hexists hlink ⊢
      have hrest := ih (fun other hother =>
        hnames other (List.mem_cons_of_mem _ hother)) hexists hlink
      split
      · next target htarget => exact absurd htarget (hnext target)
      · exact hrest

theorem walk_names (tree : FileTree) (limit : ℕ) {location : Location}
    {names : List String} (hnames : ∀ name ∈ names, IsName name)
    (hexists : (tree.entry (location ++ names)).isSome)
    (hlink : ∀ target, tree.entry (location ++ names) ≠ some (.link target))
    (rest : List String) :
    tree.walk limit location (names ++ rest) =
      tree.walk limit (location ++ names) rest := by
  cases limit with
  | zero => exact tree.walkWith_names _ hnames hexists hlink rest
  | succ limit => exact tree.walkWith_names _ hnames hexists hlink rest

/-- A slash before a path changes nothing. -/
theorem walk_slash (tree : FileTree) (limit : ℕ) (path : List String) :
    tree.walk limit [] ("" :: path) = tree.walk limit [] path := by
  cases limit with
  | zero =>
      rw [walk, walkWith_cons tree _ tree.root_directory]
      rfl
  | succ limit =>
      rw [walk, walkWith_cons tree _ tree.root_directory]
      rfl

theorem canonicalize_eq_ok {tree : FileTree} {limit : ℕ} {path : PathText}
    {location : Location} (hcanonical : tree.canonicalize limit path = .ok location) :
    tree.walk limit [] path = .ok location ∧ (tree.entry location).isSome := by
  rw [canonicalize] at hcanonical
  cases hwalk : tree.walk limit [] path with
  | error error => rw [hwalk] at hcanonical; cases hcanonical
  | ok reached =>
      rw [hwalk] at hcanonical
      change (if (tree.entry reached).isSome then .ok reached
        else .error WalkError.notFound) = Except.ok location at hcanonical
      split at hcanonical
      · next hexists =>
          cases hcanonical
          exact ⟨rfl, hexists⟩
      · cases hcanonical

/-- A real path leads to itself. -/
theorem walk_canonical {tree : FileTree} {limit : ℕ} {path : PathText}
    {location : Location}
    (hcanonical : tree.canonicalize limit path = .ok location) (later : ℕ) :
    tree.walk later [] (ofLocation location) = .ok location := by
  obtain ⟨hwalk, hexists⟩ := canonicalize_eq_ok hcanonical
  have hsettled := settled_walk tree.settled_root hwalk
  have hread : tree.walk later [] (location ++ []) =
      tree.walk later ([] ++ location) [] := by
    apply tree.walk_names later hsettled.names
    · exact hexists
    · exact hsettled.no_link
  have hend : tree.walk later location [] = .ok location := by
    cases later with
    | zero => rfl
    | succ later => rfl
  rw [List.append_nil, List.nil_append, hend] at hread
  cases location with
  | nil =>
      rw [ofLocation, walk_slash, walk_slash]
      exact hread
  | cons name names =>
      rw [ofLocation, walk_slash]
      · exact hread
      · exact List.cons_ne_nil name names

end FileTree
end Kitaebot
