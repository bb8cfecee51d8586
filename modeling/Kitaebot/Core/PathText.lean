import Mathlib.Data.List.DropRight
import Mathlib.Data.List.Infix

/-!
# Path texts

A Unix path text is kept as the texts between its slashes, so that `/a//b` is
`["", "a", "", "b"]`.  Empty texts and single dots say nothing about where the
path leads; they are skipped when the path is read as components.
-/

namespace Kitaebot

/-- A path text, cut at its slashes. -/
abbrev PathText := List String

/-- The names from the root directory down. -/
abbrev Location := List String

inductive Component where
  | rootDir
  | curDir
  | parentDir
  | normal (name : String)
  deriving DecidableEq, Repr

def Component.name? : Component → Option String
  | normal name => some name
  | _ => none

namespace PathText

def segments (path : String) : PathText :=
  (path.toList.splitOn '/').map String.ofList

def display (path : PathText) : String := "/".intercalate path

def isAbsolute : PathText → Bool
  | first :: _ :: _ => first == ""
  | _ => false

/-- A text between slashes that names no component. -/
def isSkipped (segment : String) : Bool := segment == "" || segment == "."

/-- The component a text between slashes names. -/
def bodyComponent (segment : String) : Option Component :=
  if isSkipped segment then none
  else if segment = ".." then some .parentDir
  else some (.normal segment)

/-- Repeated slashes, trailing slashes and dots are dropped, but for a dot at
the start of a relative path. -/
def components (path : PathText) : List Component :=
  let body := path.filterMap bodyComponent
  if isAbsolute path then .rootDir :: body
  else if path.head? = some "." then .curDir :: body
  else body

def startsWith (path base : PathText) : Bool :=
  (components base).isPrefixOf (components path)

/-- The text of an absolute path of plain names. -/
def ofLocation : Location → PathText
  | [] => ["", ""]
  | names => "" :: names

/-- What is left of a body after its first components. -/
def consume : List String → List String → Option (List String)
  | [], body => some body
  | _ :: _, [] => none
  | name :: names, segment :: body =>
      if isSkipped segment then consume (name :: names) body
      else if segment = name then consume names body
      else none

/-- A remainder loses the slashes and dots at both ends. -/
def trim (body : List String) : PathText :=
  match (body.dropWhile isSkipped).rdropWhile isSkipped with
  | [] => [""]
  | trimmed => trimmed

/-- The remainder of a path below an absolute path of plain names. -/
def stripPrefix (path : PathText) (base : Location) : Option PathText :=
  if isAbsolute path then (consume base path).map trim else none

/-- An absolute path replaces what it is joined to. -/
def join (base : Location) (path : PathText) : PathText :=
  if isAbsolute path then path else "" :: base ++ path

/-! ## Names -/

/-- A text that is looked up as a name. -/
def IsName (segment : String) : Prop :=
  isSkipped segment = false ∧ segment ≠ ".."

instance (segment : String) : Decidable (IsName segment) :=
  inferInstanceAs (Decidable (_ ∧ _))

/-- The names among the segments. -/
def names (path : PathText) : List String := path.filter fun name => IsName name

theorem bodyComponent_of_isName {segment : String} (hname : IsName segment) :
    bodyComponent segment = some (.normal segment) := by
  rw [bodyComponent, hname.1, if_neg Bool.false_ne_true, if_neg hname.2]

theorem filterMap_name_body (path : PathText) :
    (path.filterMap bodyComponent).filterMap Component.name? = names path := by
  induction path with
  | nil => rfl
  | cons segment path ih =>
      rw [List.filterMap_cons, names, List.filter_cons]
      by_cases hskip : isSkipped segment
      · rw [bodyComponent, if_pos hskip, if_neg (by simp [IsName, hskip])]
        exact ih
      · by_cases hparent : segment = ".."
        · rw [bodyComponent, if_neg hskip, if_pos hparent,
            if_neg (by simp [IsName, hparent])]
          exact ih
        · have hname : IsName segment := ⟨by simpa using hskip, hparent⟩
          rw [bodyComponent_of_isName hname, if_pos (by simpa using hname),
            ← names, ← ih]
          rfl

/-- The plain names of a path are its names between slashes. -/
theorem filterMap_name_components (path : PathText) :
    (components path).filterMap Component.name? = names path := by
  rw [← filterMap_name_body, components]
  split_ifs
  · rfl
  · rfl
  · rfl

theorem filterMap_body_of_names {location : Location}
    (hnames : ∀ name ∈ location, IsName name) :
    location.filterMap bodyComponent = location.map .normal := by
  induction location with
  | nil => rfl
  | cons name location ih =>
      rw [List.filterMap_cons_some (bodyComponent_of_isName
          (hnames name List.mem_cons_self)), List.map_cons,
        ih fun other hother => hnames other (List.mem_cons_of_mem _ hother)]

theorem components_slash {path : PathText} (hpath : path ≠ []) :
    components ("" :: path) = .rootDir :: path.filterMap bodyComponent := by
  cases path with
  | nil => exact absurd rfl hpath
  | cons segment path => rfl

theorem components_ofLocation {location : Location}
    (hnames : ∀ name ∈ location, IsName name) :
    components (ofLocation location) = .rootDir :: location.map .normal := by
  cases location with
  | nil => rfl
  | cons name location =>
      rw [ofLocation, components_slash (List.cons_ne_nil name location),
        filterMap_body_of_names hnames]
      exact nofun

theorem normal_injective : Function.Injective Component.normal :=
  fun _ _ heq => Component.normal.inj heq

theorem startsWith_ofLocation {location base : Location}
    (hlocation : ∀ name ∈ location, IsName name)
    (hbase : ∀ name ∈ base, IsName name) :
    startsWith (ofLocation location) (ofLocation base) = true ↔
      base <+: location := by
  rw [startsWith, components_ofLocation hlocation, components_ofLocation hbase,
    List.isPrefixOf_iff_prefix, List.cons_prefix_cons]
  constructor
  · rintro ⟨_, hleading⟩
    exact (List.prefix_map_iff_of_injective normal_injective).mp hleading
  · intro hleading
    exact ⟨rfl, hleading.map _⟩

/-! ## Where a parent directory may stand -/

/-- Only the last segment leads to a parent directory. -/
def ParentLast (path : PathText) : Prop :=
  ∀ before after, path = before ++ ".." :: after → after = []

theorem ParentLast.of_infix {path part : PathText} (hpath : ParentLast path)
    (hpart : part <:+: path) : ParentLast part := by
  rintro before after rfl
  obtain ⟨first, last, rfl⟩ := hpart
  have hafter := hpath (first ++ before) (after ++ last) (by simp)
  exact (List.append_eq_nil_iff.mp hafter).1

/-- A path without parent directories, or with one at its end. -/
theorem ParentLast.cases {path : PathText} (hpath : ParentLast path) :
    ".." ∉ path ∨ ∃ before, path = before ++ [".."] ∧ ".." ∉ before := by
  by_cases hmem : ".." ∈ path
  · obtain ⟨before, after, rfl⟩ := List.append_of_mem hmem
    obtain rfl := hpath before after rfl
    refine .inr ⟨before, rfl, fun hbefore => ?_⟩
    obtain ⟨first, second, rfl⟩ := List.append_of_mem hbefore
    have hnil := hpath first (second ++ [".."]) (by simp)
    simp at hnil
  · exact .inl hmem

theorem filterMap_body_of_no_parent {path : PathText} (hpath : ".." ∉ path) :
    path.filterMap bodyComponent = (names path).map .normal := by
  induction path with
  | nil => rfl
  | cons segment path ih =>
      obtain ⟨hsegment, hrest⟩ := not_or.mp (List.mem_cons.not.mp hpath)
      rw [List.filterMap_cons, names, List.filter_cons]
      by_cases hskip : isSkipped segment
      · rw [bodyComponent, if_pos hskip, if_neg (by simp [IsName, hskip])]
        exact ih hrest
      · have hname : IsName segment := ⟨by simpa using hskip, Ne.symm hsegment⟩
        rw [bodyComponent_of_isName hname, if_pos (by simpa using hname),
          ih hrest]
        rfl

theorem infix_intercalate {Value : Type*} (separator : List Value)
    (before after : List (List Value)) (first second : List Value) :
    first ++ separator <:+:
      separator.intercalate (before ++ first :: second :: after) := by
  induction before with
  | nil =>
      refine ⟨[], separator.intercalate (second :: after), ?_⟩
      simp [List.intercalate]
  | cons value before ih =>
      obtain ⟨left, right, hsplit⟩ := ih
      cases before with
      | nil =>
          refine ⟨value ++ separator ++ left, right, ?_⟩
          rw [List.nil_append] at hsplit
          rw [List.cons_append, List.nil_append, List.intercalate_cons_cons,
            ← hsplit]
          simp
      | cons other before =>
          refine ⟨value ++ separator ++ left, right, ?_⟩
          rw [List.cons_append, List.cons_append, List.intercalate_cons_cons,
            ← List.cons_append, ← hsplit]
          simp

/-- A text without `../` names a parent directory at its end only. -/
theorem parentLast_segments {path : String}
    (hpath : ¬ "../".toList <:+: path.toList) : ParentLast (segments path) := by
  intro before after hsplit
  cases after with
  | nil => rfl
  | cons next after =>
      obtain ⟨first, rest, hcut, rfl, hrest⟩ :=
        List.map_eq_append_iff.mp hsplit
      obtain ⟨parent, rest, rfl, hparent, hrest⟩ :=
        List.map_eq_cons_iff.mp hrest
      obtain ⟨second, rest, rfl, rfl, rfl⟩ := List.map_eq_cons_iff.mp hrest
      have hdots : parent = "..".toList := by
        rw [← hparent, String.toList_ofList]
      have hwithin := infix_intercalate ['/'] first rest parent second
      rw [← hcut, List.intercalate_splitOn, hdots] at hwithin
      exact absurd hwithin hpath

theorem consume_suffix {base path rest : List String}
    (hrest : consume base path = some rest) : rest <:+ path := by
  induction base, path using consume.induct with
  | case1 body =>
      rw [consume] at hrest
      exact Option.some.inj hrest ▸ List.suffix_rfl
  | case2 name base => cases hrest
  | case3 name base segment body hskip ih =>
      rw [consume, if_pos hskip] at hrest
      exact (ih hrest).trans (List.suffix_cons segment body)
  | case4 base segment body hskip ih =>
      rw [consume, if_neg hskip, if_pos rfl] at hrest
      exact (ih hrest).trans (List.suffix_cons segment body)
  | case5 name base segment body hskip hname =>
      rw [consume, if_neg hskip, if_neg hname] at hrest
      cases hrest

/-- A trimmed remainder is empty or a part that starts with a component. -/
theorem trim_cases (body : List String) :
    trim body = [""] ∨
      trim body <:+: body ∧ ∃ first rest, trim body = first :: rest ∧
        isSkipped first = false := by
  rw [trim]
  cases htrimmed : (body.dropWhile isSkipped).rdropWhile isSkipped with
  | nil => exact .inl rfl
  | cons first rest =>
      right
      have hleading := List.rdropWhile_prefix isSkipped (body.dropWhile isSkipped)
      rw [htrimmed] at hleading
      have hsuffix := List.dropWhile_suffix (l := body) isSkipped
      refine ⟨hleading.isInfix.trans hsuffix.isInfix, first, rest, rfl, ?_⟩
      obtain ⟨last, hlast⟩ := hleading
      have hhead := List.head?_dropWhile_not isSkipped body
      rw [← hlast] at hhead
      simpa using hhead

theorem isAbsolute_trim (body : List String) : isAbsolute (trim body) = false := by
  rcases trim_cases body with hempty | ⟨_, first, rest, htrim, hfirst⟩
  · rw [hempty]
    rfl
  · rw [htrim]
    cases rest with
    | nil => rfl
    | cons second rest =>
        rw [isSkipped, Bool.or_eq_false_iff] at hfirst
        exact hfirst.1

/-- The remainder below a base is relative, and a parent directory still stands
at its end only. -/
theorem stripPrefix_relative {path rest : PathText} {base : Location}
    (hpath : ParentLast path) (hrest : stripPrefix path base = some rest) :
    isAbsolute rest = false ∧ ParentLast rest := by
  rw [stripPrefix] at hrest
  split_ifs at hrest
  obtain ⟨body, hbody, rfl⟩ := Option.map_eq_some_iff.mp hrest
  refine ⟨isAbsolute_trim body, ?_⟩
  rcases trim_cases body with hempty | ⟨hwithin, _⟩
  · rw [hempty]
    intro before after hsplit
    cases before with
    | nil => simp at hsplit
    | cons first before => simp at hsplit
  · exact hpath.of_infix (hwithin.trans (consume_suffix hbody).isInfix)

end PathText
end Kitaebot
