import Mathlib

/-!
# Lexical paths

A path is a list of characters cut into segments at a separator.  Walking the
segments from a directory gives the directory or file that the path names when
no link is followed: an empty segment and `.` stay, `..` goes up and stays at
the root, any other segment goes down.  A directory is the list of names that
leads to it from the root, so that lying below a directory is to have its list
as a prefix.

The second half is about a path made by concatenation, `root ++ rest`, where
`rest` never goes up.  Nothing separates the two parts: the last segment of
`root` and the first one of `rest` become one segment.
`isPrefix_resolve_append_iff` says exactly when the result still lies below
`root`.
-/

namespace LexicalPath

variable {α : Type*} [DecidableEq α] (separator dot : α)

/-! ## Segments -/

/-- What stands between the separators: always at least one segment. -/
def segments (path : List α) : List (List α) := path.splitOn separator

def firstSegment (path : List α) : List α := path.takeWhile fun c => c ≠ separator

def laterSegments (path : List α) : List (List α) := (segments separator path).tail

def earlierSegments (path : List α) : List (List α) := (segments separator path).dropLast

def lastSegment (path : List α) : List α := (segments separator path).getLastD []

variable {separator}

theorem segments_ne_nil (path : List α) : segments separator path ≠ [] :=
  List.splitOn_ne_nil separator path

@[simp] theorem segments_nil : segments separator ([] : List α) = [[]] := List.splitOn_nil _

theorem segments_cons_self (path : List α) :
    segments separator (separator :: path) = [] :: segments separator path := by
  rw [segments, List.splitOn_cons_eq_if_modifyHead, if_pos (by simp)]
  rfl

theorem segments_cons_of_ne {c : α} (h : c ≠ separator) (path : List α) :
    segments separator (c :: path) = (segments separator path).modifyHead (List.cons c) := by
  rw [segments, List.splitOn_cons_eq_if_modifyHead, if_neg (by simpa using h)]
  rfl

theorem segments_eq_cons (path : List α) :
    segments separator path = firstSegment separator path :: laterSegments separator path := by
  induction path with
  | nil => simp [firstSegment, laterSegments]
  | cons c path ih =>
      by_cases hc : c = separator
      · subst hc
        simp [laterSegments, firstSegment, segments_cons_self]
      · rw [laterSegments, segments_cons_of_ne hc, ih]
        simp [firstSegment, hc]

theorem segments_eq_concat (path : List α) :
    segments separator path = earlierSegments separator path ++ [lastSegment separator path] := by
  rw [earlierSegments, lastSegment, List.getLastD_eq_getLast?,
    List.getLast?_eq_some_getLast (segments_ne_nil path), Option.getD_some,
    List.dropLast_append_getLast]

theorem earlierSegments_of_eq {path last : List α} {earlier : List (List α)}
    (h : segments separator path = earlier ++ [last]) :
    earlierSegments separator path = earlier := by
  rw [earlierSegments, h, List.dropLast_concat]

theorem lastSegment_of_eq {path last : List α} {earlier : List (List α)}
    (h : segments separator path = earlier ++ [last]) : lastSegment separator path = last := by
  rw [lastSegment, h, List.getLastD_concat]

/-- Concatenation joins the last segment of the first path and the first one of
the second. -/
theorem segments_append (root rest : List α) :
    segments separator (root ++ rest) = earlierSegments separator root ++
      (lastSegment separator root ++ firstSegment separator rest) ::
        laterSegments separator rest := by
  induction root with
  | nil => simp [earlierSegments, lastSegment, segments_eq_cons rest]
  | cons c root ih =>
      have hroot : segments separator root = _ := segments_eq_concat root
      by_cases hc : c = separator
      · subst hc
        have hcons : segments c (c :: root) =
            ([] :: earlierSegments c root) ++ [lastSegment c root] := by
          rw [segments_cons_self, hroot, List.cons_append]
        rw [List.cons_append, segments_cons_self, ih, earlierSegments_of_eq hcons,
          lastSegment_of_eq hcons, List.cons_append]
      · rw [List.cons_append, segments_cons_of_ne hc, ih]
        -- `c` goes to the segment that comes first, which may be the joined one
        cases hearlier : earlierSegments separator root with
        | nil =>
            have hcons : segments separator (c :: root) =
                [] ++ [c :: lastSegment separator root] := by
              rw [segments_cons_of_ne hc, hroot, hearlier]
              rfl
            rw [earlierSegments_of_eq hcons, lastSegment_of_eq hcons]
            rfl
        | cons segment earlier =>
            have hcons : segments separator (c :: root) =
                ((c :: segment) :: earlier) ++ [lastSegment separator root] := by
              rw [segments_cons_of_ne hc, hroot, hearlier]
              rfl
            rw [earlierSegments_of_eq hcons, lastSegment_of_eq hcons]
            rfl

/-- A segment is a contiguous part of its path. -/
theorem isInfix_of_mem_segments {path segment : List α} (h : segment ∈ segments separator path) :
    segment <:+: path := by
  induction path generalizing segment with
  | nil =>
      rw [segments_nil, List.mem_singleton] at h
      rw [h]
  | cons c path ih =>
      have hcons : path <:+: c :: path := (List.suffix_cons c path).isInfix
      by_cases hc : c = separator
      · subst hc
        rw [segments_cons_self, List.mem_cons] at h
        rcases h with rfl | hlater
        · exact List.nil_infix
        · exact (ih hlater).trans hcons
      · rw [segments_cons_of_ne hc, segments_eq_cons, List.modifyHead_cons, List.mem_cons] at h
        rcases h with rfl | hlater
        · have hfirst : firstSegment separator path <+: path := List.takeWhile_prefix _
          exact (List.prefix_cons_inj c |>.mpr hfirst).isInfix
        · refine (ih ?_).trans hcons
          rw [segments_eq_cons]
          exact List.mem_cons_of_mem _ hlater

/-! ## Walking -/

variable (separator)

/-- A segment that goes down: neither empty nor `.` nor `..`. -/
def IsName (segment : List α) : Prop :=
  segment ≠ [] ∧ segment ≠ [dot] ∧ segment ≠ [dot, dot]

instance (segment : List α) : Decidable (IsName dot segment) :=
  inferInstanceAs (Decidable (_ ∧ _ ∧ _))

/-- The names among some segments. -/
def names (segments : List (List α)) : List (List α) := segments.filter fun s => IsName dot s

/-- The directory reached from `dir` by one segment. -/
def enter (dir : List (List α)) (segment : List α) : List (List α) :=
  if segment = [dot, dot] then dir.dropLast
  else if segment = [] ∨ segment = [dot] then dir
  else dir ++ [segment]

/-- The directory reached from `dir` by segments in turn. -/
def walk (dir : List (List α)) (segments : List (List α)) : List (List α) :=
  segments.foldl (enter dot) dir

/-- Where a path starts: at the root when it begins with a separator, and else
in the working directory. -/
def start (cwd : List (List α)) (path : List α) : List (List α) :=
  if path.head? = some separator then [] else cwd

/-- What a path names, as the list of names from the root. -/
def resolve (cwd : List (List α)) (path : List α) : List (List α) :=
  walk dot (start separator cwd path) (segments separator path)

variable {separator dot}

theorem enter_of_isName {segment : List α} (h : IsName dot segment) (dir : List (List α)) :
    enter dot dir segment = dir ++ [segment] := by
  rw [enter, if_neg h.2.2, if_neg (by simp [h.1, h.2.1])]

@[simp] theorem enter_nil (dir : List (List α)) : enter dot dir [] = dir := by simp [enter]

@[simp] theorem enter_dot (dir : List (List α)) : enter dot dir [dot] = dir := by simp [enter]

@[simp] theorem enter_dot_dot (dir : List (List α)) : enter dot dir [dot, dot] = dir.dropLast := by
  simp [enter]

/-- Only `..` leaves the directory it is read in. -/
theorem isPrefix_enter {segment : List α} (h : segment ≠ [dot, dot]) (dir : List (List α)) :
    dir <+: enter dot dir segment := by
  unfold enter
  rw [if_neg h]
  split
  · exact List.prefix_rfl
  · exact List.prefix_append dir _

theorem walk_cons (dir : List (List α)) (segment : List α) (rest : List (List α)) :
    walk dot dir (segment :: rest) = walk dot (enter dot dir segment) rest := rfl

theorem walk_append (dir first rest : List (List α)) :
    walk dot dir (first ++ rest) = walk dot (walk dot dir first) rest := List.foldl_append

/-- Segments that never go up go down by their names. -/
theorem walk_of_notMem {segments : List (List α)} (h : [dot, dot] ∉ segments)
    (dir : List (List α)) : walk dot dir segments = dir ++ names dot segments := by
  induction segments generalizing dir with
  | nil => simp [walk, names]
  | cons segment rest ih =>
      obtain ⟨hsegment, hrest⟩ : segment ≠ [dot, dot] ∧ [dot, dot] ∉ rest := by
        simpa [eq_comm] using h
      rw [walk_cons, ih hrest]
      by_cases hname : IsName dot segment
      · simp [enter_of_isName hname, names, hname]
      · have hstay : segment = [] ∨ segment = [dot] := by
          by_contra hne
          rw [not_or] at hne
          exact hname ⟨hne.1, hne.2, hsegment⟩
        rcases hstay with rfl | rfl <;> simp [names, hname]

/-! ## Concatenation -/

variable (separator dot)

/-- The directory in which the last segment of a path is read. -/
def parent (cwd : List (List α)) (path : List α) : List (List α) :=
  walk dot (start separator cwd path) (earlierSegments separator path)

/-- When `root ++ rest`, for a `rest` that never goes up, still lies below `root`.

Nothing can go wrong where the last segment of `root` is empty or `..`.  Where it
is a name, that name must not grow.  Where it is `.`, it must not become `..`,
unless that goes nowhere or the next name leads back.  An empty `root` is the
working directory, and `rest` may then start at the root of the file system. -/
def StaysBelow (cwd : List (List α)) (root rest : List α) : Prop :=
  if root = [] then rest.head? = some separator → cwd <+: names dot (segments separator rest)
  else if IsName dot (lastSegment separator root) then firstSegment separator rest = []
  else if lastSegment separator root = [dot] ∧ firstSegment separator rest = [dot] then
    parent separator dot cwd root = [] ∨
      (names dot (laterSegments separator rest)).head? = (parent separator dot cwd root).getLast?
  else True

instance (cwd : List (List α)) (root rest : List α) :
    Decidable (StaysBelow separator dot cwd root rest) := by
  unfold StaysBelow
  infer_instance

variable {separator dot}

theorem resolve_eq_enter (cwd : List (List α)) (path : List α) :
    resolve separator dot cwd path =
      enter dot (parent separator dot cwd path) (lastSegment separator path) := by
  rw [resolve, segments_eq_concat, walk_append]
  rfl

theorem resolve_nil (cwd : List (List α)) : resolve separator dot cwd [] = cwd := by
  simp [resolve, start, walk]

/-- The joined segment is read where the last segment of `root` was, and the rest
goes down from there. -/
theorem resolve_append (cwd : List (List α)) {root rest : List α} (hroot : root ≠ [])
    (hrest : [dot, dot] ∉ segments separator rest) :
    resolve separator dot cwd (root ++ rest) =
      enter dot (parent separator dot cwd root)
        (lastSegment separator root ++ firstSegment separator rest) ++
      names dot (laterSegments separator rest) := by
  have hstart : start separator cwd (root ++ rest) = start separator cwd root := by
    rw [start, start, List.head?_append_of_ne_nil _ hroot]
  have hlater : [dot, dot] ∉ laterSegments separator rest := fun h =>
    hrest (List.mem_of_mem_tail h)
  calc resolve separator dot cwd (root ++ rest)
      = walk dot (start separator cwd root) (earlierSegments separator root ++
          (lastSegment separator root ++ firstSegment separator rest) ::
            laterSegments separator rest) := by rw [resolve, hstart, segments_append]
    _ = walk dot (enter dot (parent separator dot cwd root)
          (lastSegment separator root ++ firstSegment separator rest))
          (laterSegments separator rest) := walk_append _ _ _
    _ = _ := walk_of_notMem hlater _

omit [DecidableEq α] in
theorem isPrefix_dropLast_append_iff (dir rest : List (List α)) :
    dir <+: dir.dropLast ++ rest ↔ dir = [] ∨ rest.head? = dir.getLast? := by
  induction dir using List.reverseRecOn with
  | nil => simp
  | append_singleton dir last _ =>
      rw [List.dropLast_concat, List.prefix_append_right_inj, List.getLast?_concat]
      cases rest with
      | nil => simp
      | cons name rest =>
          rw [List.cons_prefix_cons, List.head?_cons, Option.some_inj]
          refine ⟨fun h => .inr h.1.symm, fun h => ?_⟩
          rcases h with hnil | heq
          · simp at hnil
          · exact ⟨heq.symm, List.nil_prefix⟩

omit [DecidableEq α] in
/-- A name that grows stays a name. -/
theorem isName_append {last : List α} (h : IsName dot last) (first : List α) :
    IsName dot (last ++ first) := by
  obtain ⟨hne, hdot, hdots⟩ := h
  refine ⟨by simp [hne], fun heq => ?_, fun heq => ?_⟩
  · rcases List.append_eq_singleton_iff.mp heq with ⟨hnil, _⟩ | ⟨hlast, _⟩
    · exact hne hnil
    · exact hdot hlast
  · rcases List.append_eq_cons_iff.mp heq with ⟨hnil, _⟩ | ⟨tail, rfl, htail⟩
    · exact hne hnil
    · rcases List.append_eq_singleton_iff.mp htail.symm with ⟨rfl, _⟩ | ⟨rfl, _⟩
      · exact hdot rfl
      · exact hdots rfl

/-- Below a directory that is read last in `root`, the joined segment changes
nothing only when it is the same segment. -/
theorem isPrefix_enter_append_iff {last : List α} (hlast : IsName dot last)
    (dir rest : List (List α)) (first : List α) :
    enter dot dir last <+: enter dot dir (last ++ first) ++ rest ↔ first = [] := by
  calc enter dot dir last <+: enter dot dir (last ++ first) ++ rest
      ↔ dir ++ [last] <+: dir ++ ([last ++ first] ++ rest) := by
        rw [enter_of_isName hlast, enter_of_isName (isName_append hlast first), List.append_assoc]
    _ ↔ last = last ++ first ∧ [] <+: rest := by
        rw [List.prefix_append_right_inj, List.singleton_append, List.cons_prefix_cons]
    _ ↔ first = [] := by
        rw [List.self_eq_append_right]
        exact and_iff_left List.nil_prefix

/-- Where the last segment of `root` goes nowhere or up, so does what it grows
to, unless `.` becomes `..`. -/
theorem isPrefix_enter_append {last first : List α} (hlast : ¬ IsName dot last)
    (hfirst : first ≠ [dot, dot]) (hdots : ¬ (last = [dot] ∧ first = [dot]))
    (dir : List (List α)) : enter dot dir last <+: enter dot dir (last ++ first) := by
  by_cases hnil : last = []
  · subst hnil
    rw [enter_nil, List.nil_append]
    exact isPrefix_enter hfirst dir
  by_cases hdot : last = [dot]
  · -- `.` grows to a name, since it does not become `..`
    subst hdot
    rw [enter_dot]
    refine isPrefix_enter (fun heq => hdots ⟨rfl, ?_⟩) dir
    simpa using heq
  · have hup : last = [dot, dot] := by
      by_contra hne
      exact hlast ⟨hnil, hdot, hne⟩
    subst hup
    cases first with
    | nil => exact List.prefix_rfl
    | cons c first =>
        rw [enter_dot_dot]
        exact (List.dropLast_prefix dir).trans (isPrefix_enter (by simp) dir)

/-- **Concatenated paths.**  A path that never goes up, appended to `root`, lies
below `root` exactly when `StaysBelow` says so. -/
theorem isPrefix_resolve_append_iff (cwd : List (List α)) {root rest : List α}
    (hrest : [dot, dot] ∉ segments separator rest) :
    resolve separator dot cwd root <+: resolve separator dot cwd (root ++ rest) ↔
      StaysBelow separator dot cwd root rest := by
  unfold StaysBelow
  split_ifs with hroot hname hdots
  · subst hroot
    rw [resolve_nil, List.nil_append, resolve, walk_of_notMem hrest, start]
    split_ifs with hhead
    · simp [hhead]
    · simp [hhead]
  · rw [resolve_append cwd hroot hrest, resolve_eq_enter]
    exact isPrefix_enter_append_iff hname _ _ _
  · rw [resolve_append cwd hroot hrest, resolve_eq_enter, hdots.1, hdots.2, enter_dot,
      List.singleton_append, enter_dot_dot, isPrefix_dropLast_append_iff]
  · rw [resolve_append cwd hroot hrest, resolve_eq_enter]
    have hfirst : firstSegment separator rest ≠ [dot, dot] := by
      rintro heq
      apply hrest
      rw [segments_eq_cons, heq]
      exact List.mem_cons_self
    have hbelow := isPrefix_enter_append hname hfirst hdots (parent separator dot cwd root)
    exact iff_of_true (hbelow.trans (List.prefix_append _ _)) trivial

/-- A path that starts with a separator stays below any non-empty root. -/
theorem staysBelow_of_head {root rest : List α} (hroot : root ≠ [])
    (hrest : rest.head? = some separator) (cwd : List (List α)) :
    StaysBelow separator dot cwd root rest := by
  have hfirst : firstSegment separator rest = [] := by
    cases rest with
    | nil => rfl
    | cons c rest =>
        have hc : c = separator := by simpa using hrest
        simp [firstSegment, hc]
  unfold StaysBelow
  rw [if_neg hroot, hfirst]
  simp

end LexicalPath
