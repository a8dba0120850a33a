/-
# Locations

Without links, the place that a path leads to is told by names: those of the directories
passed on the way down from the root, where two dots take back the last. A location is that
list, nearest name first, so the directories above a location are its tails. A path that leads
anywhere leads to the tree at its location (`stands_of_reach`).

A path is followed as its solid segments are, so that its parent leads to the directory above,
unless its last component is two dots, and a name in it leads to the entry of that name.

Key definitions: `FileSystem.Location`, `FileSystem.tree?`, `FileSystem.location`,
`FileSystem.reach`, `FileSystem.Stands`.
Key theorems: `FileSystem.stands_of_reach`, `FileSystem.reach_child`, `FileSystem.reach_child_iff`,
`FileSystem.reach_parent?`, `FileSystem.location_parent?`, `FileSystem.isFile_child_iff`.
-/
import Mathlib
import SupportLayer.FileTree
import SupportLayer.Proofs.Path.Components

open SupportLayer.Path (Segment isIdle IsName)

namespace SupportLayer

/-- The tree under a name in a tree. -/
def FileTree.child? (name : List Char) : FileTree → Option FileTree
  | .directory entries => entry? name entries
  | .file _ => none

/-- The tree is a directory. -/
def FileTree.IsDirectory (tree : FileTree) : Prop := ∃ entries, tree = .directory entries

namespace FileSystem

/-- The names from a tree up to the root. -/
abbrev Location := List (List Char)

/-- The location one segment further. -/
def Location.step (l : Location) (segment : Segment) : Location :=
  if isIdle segment then l else if segment = ['.', '.'] then l.tail else segment :: l

/-- The location that segments lead to. -/
def Location.follow (l : Location) (segments : List Segment) : Location :=
  segments.foldl Location.step l

variable (fs : FileSystem)

/-- The tree at a location. -/
def tree? : Location → Option FileTree
  | [] => some fs.root
  | name :: l => (tree? l).bind (FileTree.child? name)

/-- The location from which a path is followed. -/
def base (p : Path) : Location := if p.Absolute then [] else Location.follow [] fs.working

/-- The location of a path. -/
def location (p : Path) : Location := (fs.base p).follow p.segments

/-- The place from which a path is followed. -/
def start (p : Path) : Except StreamError Place :=
  if p.Absolute then .ok fs.top else fs.top.follow fs.working

/-- The place that a path leads to, whatever the limits on its text. -/
def reach (p : Path) : Except StreamError Place := (fs.start p).bind (·.follow p.segments)

/-- A place is the one at a location. -/
inductive Stands : Location → Place → Prop
  | root : Stands [] fs.top
  | entry {l : Location} {p : Place} {name : List Char} {entries : List (List Char × FileTree)}
    {tree : FileTree} : Stands l p → p.here = .directory entries →
      FileTree.entry? name entries = some tree → Stands (name :: l) ⟨tree, p.here :: p.above⟩

variable {fs}

theorem resolve_eq_reach {p : Path} (hnul : '\x00' ∉ p.text) (hne : p.text ≠ [])
    (hlimit : Utf8.size p.text < pathLimit) : fs.resolve p = fs.reach p := by
  unfold resolve reach start
  rw [if_neg (by simpa using hnul), if_neg hne, if_neg (by omega)]
  by_cases h : p.Absolute
  · rw [if_pos h, show p.text.head? = some '/' from h]
    rfl
  · rw [if_neg h]
    split
    · next hhead => exact absurd hhead h
    · cases fs.top.follow fs.working <;> rfl

theorem reach_eq_ok_iff {p : Path} {place : Place} :
    fs.reach p = .ok place ↔ ∃ origin, fs.start p = .ok origin ∧ origin.follow p.segments = .ok place := by
  unfold reach
  cases fs.start p with
  | error cause => simp [Except.bind]
  | ok origin => simp [Except.bind]

theorem start_congr {p q : Path} (h : q.Absolute ↔ p.Absolute) :
    fs.start q = fs.start p ∧ fs.base q = fs.base p := by
  unfold start base
  simp only [h, true_and]

/-- A path resolves iff it leads somewhere and its text keeps to the limits. -/
theorem resolve_eq_ok_iff {p : Path} {place : Place} :
    fs.resolve p = .ok place ↔ '\x00' ∉ p.text ∧ p.text ≠ [] ∧ Utf8.size p.text < pathLimit ∧
      fs.reach p = .ok place := by
  constructor
  · intro h
    have hnul : '\x00' ∉ p.text := by
      intro hc
      simp [resolve, hc] at h
    have hne : p.text ≠ [] := by
      intro hc
      simp [resolve, hc] at h
    have hlimit : Utf8.size p.text < pathLimit := by
      by_contra hc
      simp [resolve, hnul, hne, not_lt.mp hc] at h
    exact ⟨hnul, hne, hlimit, resolve_eq_reach hnul hne hlimit ▸ h⟩
  · rintro ⟨hnul, hne, hlimit, h⟩
    exact (resolve_eq_reach hnul hne hlimit).trans h

/-- A path that resolves has no NUL, and leads where it resolves to. -/
theorem reach_of_resolve {p : Path} {place : Place} (h : fs.resolve p = .ok place) :
    '\x00' ∉ p.text ∧ fs.reach p = .ok place := by
  obtain ⟨hnul, -, -, hreach⟩ := resolve_eq_ok_iff.mp h
  exact ⟨hnul, hreach⟩

/-! ### Following segments -/

namespace Place

variable {p q : Place} {s : Segment} {l m : List Segment}

theorem follow_append (p : Place) (l m : List Segment) :
    p.follow (l ++ m) = (p.follow l).bind (·.follow m) := by
  induction l generalizing p with
  | nil => rfl
  | cons s l ih =>
    rw [List.cons_append, follow, follow]
    cases p.step s with
    | ok q => exact ih q
    | error cause => rfl

theorem isDirectory_of_step (h : p.step s = .ok q) : p.here.IsDirectory := by
  unfold step at h
  cases hp : p.here with
  | file content =>
    rw [hp] at h
    cases h
  | directory entries => exact ⟨entries, rfl⟩

theorem isDirectory_of_follow (h : p.follow l = .ok q) (hq : q.here.IsDirectory) :
    p.here.IsDirectory := by
  cases l with
  | nil =>
    cases h
    exact hq
  | cons s l =>
    rw [follow] at h
    cases hs : p.step s with
    | ok r => exact isDirectory_of_step hs
    | error cause =>
      rw [hs] at h
      cases h

theorem step_idle (hp : p.here.IsDirectory) (hs : isIdle s) : p.step s = .ok p := by
  obtain ⟨entries, he⟩ := hp
  unfold step
  rw [he]
  exact if_pos hs

theorem eq_of_step_idle (h : p.step s = .ok q) (hs : isIdle s) : q = p := by
  rw [step_idle (isDirectory_of_step h) hs] at h
  exact (Except.ok.inj h).symm

theorem step_name {entries : List (List Char × FileTree)} (hp : p.here = .directory entries)
    (hs : IsName s) (hsize : Utf8.size s ≤ nameLimit) :
    p.step s =
      match FileTree.entry? s entries with
      | some tree => .ok ⟨tree, p.here :: p.above⟩
      | none => .error .missing := by
  have hlimit : ¬ nameLimit < Utf8.size s := not_lt.mpr hsize
  cases he : FileTree.entry? s entries <;> simp [step, hp, hs.solid, hs.up, hlimit, he]

/-- Idle segments lead nowhere. -/
theorem follow_solid (h : p.follow l = .ok q) : p.follow (l.filter (!isIdle ·)) = .ok q := by
  induction l generalizing p with
  | nil => exact h
  | cons s l ih =>
    rw [follow] at h
    cases hs : p.step s with
    | error cause =>
      rw [hs] at h
      cases h
    | ok r =>
      rw [hs] at h
      by_cases hi : isIdle s
      · rw [eq_of_step_idle hs hi] at h
        simpa [hi] using ih h
      · simp only [List.filter_cons, hi, Bool.not_false, if_true, follow, hs]
        exact ih h

/-- To a directory, idle segments may stand in the way. -/
theorem follow_of_solid (h : p.follow (l.filter (!isIdle ·)) = .ok q) (hq : q.here.IsDirectory) :
    p.follow l = .ok q := by
  induction l generalizing p with
  | nil => exact h
  | cons s l ih =>
    by_cases hi : isIdle s
    · have hrest : p.follow (l.filter (!isIdle ·)) = .ok q := by simpa [hi] using h
      rw [follow, step_idle (isDirectory_of_follow hrest hq) hi]
      exact ih hrest
    · simp only [List.filter_cons, hi, Bool.not_false, if_true, follow] at h
      rw [follow]
      cases hs : p.step s with
      | error cause =>
        rw [hs] at h
        cases h
      | ok r =>
        rw [hs] at h
        exact ih h

end Place

theorem Location.follow_solid (l : Location) (segments : List Segment) :
    l.follow (segments.filter (!isIdle ·)) = l.follow segments := by
  induction segments generalizing l with
  | nil => rfl
  | cons s segments ih =>
    by_cases hi : isIdle s
    · have hstep : l.step s = l := if_pos hi
      simpa [Location.follow, hi, hstep] using ih l
    · simpa [Location.follow, hi] using ih (l.step s)

theorem location_eq (p : Path) : fs.location p = (fs.base p).follow p.solid :=
  (Location.follow_solid _ _).symm

/-! ### Places and their locations -/

theorem Stands.tree? {l : Location} {p : Place} (h : Stands fs l p) : fs.tree? l = some p.here := by
  induction h with
  | root => rfl
  | entry _ hp he ih => simp [FileSystem.tree?, ih, hp, FileTree.child?, he]

theorem Stands.step {l : Location} {p q : Place} {s : Segment} (h : Stands fs l p)
    (hs : p.step s = .ok q) : Stands fs (l.step s) q := by
  obtain ⟨entries, hp⟩ := Place.isDirectory_of_step hs
  unfold Place.step at hs
  rw [hp] at hs
  simp only at hs
  unfold Location.step
  split at hs
  · next hi =>
    cases hs
    rwa [if_pos hi]
  · next hi =>
    rw [if_neg hi]
    split at hs
    · next hup =>
      rw [if_pos hup]
      cases h with
      | root =>
        cases hs
        exact .root
      | entry h _ _ =>
        cases hs
        exact h
    · next hup =>
      rw [if_neg hup]
      split at hs
      · cases hs
      · split at hs
        · next tree he =>
          cases hs
          exact hp ▸ .entry h hp he
        · cases hs

theorem Stands.follow {l : Location} {p q : Place} {segments : List Segment} (h : Stands fs l p)
    (hs : p.follow segments = .ok q) : Stands fs (l.follow segments) q := by
  induction segments generalizing l p with
  | nil =>
    cases hs
    exact h
  | cons s segments ih =>
    rw [Place.follow] at hs
    cases hr : p.step s with
    | error cause =>
      rw [hr] at hs
      cases hs
    | ok r =>
      rw [hr] at hs
      exact ih (h.step hr) hs

/-- A path leads to the tree at its location. -/
theorem stands_of_reach {p : Path} {place : Place} (h : fs.reach p = .ok place) :
    Stands fs (fs.location p) place := by
  obtain ⟨origin, hstart, hf⟩ := reach_eq_ok_iff.mp h
  refine Stands.follow ?_ hf
  unfold start at hstart
  unfold base
  split at hstart
  · next ha =>
    cases hstart
    rw [if_pos ha]
    exact .root
  · next ha =>
    rw [if_neg ha]
    exact Stands.root.follow hstart

/-! ### Up and down -/

theorem reach_child {p : Path} {place : Place} {name : List Char} (h : fs.reach p = .ok place)
    (hn : IsName name) : fs.reach (p.child name) = place.step name := by
  obtain ⟨init, last, hp, hlast, hc⟩ := p.segments_child hn
  obtain ⟨origin, hstart, hf⟩ := reach_eq_ok_iff.mp h
  have hinit : origin.follow init = .ok place := by
    rw [hp, Place.follow_append] at hf
    cases hi : origin.follow init with
    | error cause =>
      rw [hi] at hf
      cases hf
    | ok q =>
      rw [hi] at hf
      rcases hlast with rfl | rfl
      · exact hf
      · -- the slash at the end leads nowhere
        have hq : q.follow [[]] = .ok place := hf
        rw [Place.follow] at hq
        cases hs : q.step [] with
        | error cause =>
          rw [hs] at hq
          cases hq
        | ok r =>
          rw [hs] at hq
          cases hq
          rw [Place.eq_of_step_idle hs rfl]
  rw [reach, (start_congr (p.absolute_child hn)).1, hstart, hc]
  simp only [Except.bind, Place.follow_append, hinit, Place.follow]
  cases place.step name <;> rfl

/-- A name in a path leads where the solid segments of the path and the name lead: the idle ones
are passed in directories only, as the name is. -/
theorem reach_child_iff {p : Path} {place : Place} {name : List Char} (hn : IsName name) :
    fs.reach (p.child name) = .ok place ↔
      ∃ origin, fs.start p = .ok origin ∧ origin.follow (p.solid ++ [name]) = .ok place := by
  rw [reach_eq_ok_iff, (start_congr (p.absolute_child hn)).1]
  have hsolid := p.solid_child hn
  constructor
  · rintro ⟨origin, hstart, hf⟩
    exact ⟨origin, hstart, hsolid ▸ Place.follow_solid hf⟩
  · rintro ⟨origin, hstart, hf⟩
    refine ⟨origin, hstart, ?_⟩
    obtain ⟨init, last, -, -, hc⟩ := p.segments_child hn
    have hinit : init.filter (!isIdle ·) = p.solid := by
      rw [Path.solid, hc, List.filter_append, List.filter_cons_of_pos (by simp [hn.solid])] at hsolid
      exact (List.append_inj' hsolid rfl).1
    rw [Place.follow_append, ← hinit] at hf
    rw [hc, Place.follow_append]
    cases hi : origin.follow (init.filter (!isIdle ·)) with
    | error cause =>
      rw [hi] at hf
      cases hf
    | ok q =>
      rw [hi] at hf
      have hq : q.here.IsDirectory := by
        cases hs : q.step name with
        | ok r => exact Place.isDirectory_of_step hs
        | error cause =>
          simp only [Except.bind, Place.follow, hs] at hf
          cases hf
      rw [Place.follow_of_solid hi hq]
      exact hf

theorem reach_parent? {p q : Path} {place : Place} (hq : p.parent? = some q)
    (h : fs.reach p = .ok place) (hdir : place.here.IsDirectory) :
    ∃ above, fs.reach q = .ok above ∧ above.here.IsDirectory := by
  obtain ⟨origin, hstart, hf⟩ := reach_eq_ok_iff.mp h
  have hstart' := (start_congr (Path.absolute_parent? hq)).1.trans hstart
  have hsolid : origin.follow p.solid = .ok place := Place.follow_solid hf
  rcases Path.parent?_cases hq with ⟨hne, -, -, hs⟩ | ⟨hs, -, rfl⟩
  · rw [← List.dropLast_append_getLast hne, ← hs, Place.follow_append] at hsolid
    cases habove : origin.follow q.solid with
    | error cause =>
      rw [habove] at hsolid
      cases hsolid
    | ok above =>
      rw [habove] at hsolid
      have hd : above.here.IsDirectory := Place.isDirectory_of_follow hsolid hdir
      exact ⟨above, reach_eq_ok_iff.mpr ⟨origin, hstart', Place.follow_of_solid habove hd⟩, hd⟩
  · rw [hs] at hsolid
    cases hsolid
    exact ⟨place, reach_eq_ok_iff.mpr ⟨place, hstart', Place.follow_of_solid rfl hdir⟩, hdir⟩

theorem location_child (p : Path) {name : List Char} (hn : IsName name) :
    fs.location (p.child name) = name :: fs.location p := by
  rw [location_eq, location_eq, (start_congr (p.absolute_child hn)).2, Path.solid_child p hn]
  simp [Location.follow, Location.step, hn.solid, hn.up]

/-- The parent leads to the directory above, or to the same one if only a dot is dropped; unless
two dots are. -/
theorem location_parent? {p q : Path} (h : p.parent? = some q)
    (hup : p.components.getLast? ≠ some .up) :
    fs.location q = fs.location p ∨ fs.location q = (fs.location p).tail := by
  rw [location_eq, location_eq, (start_congr (Path.absolute_parent? h)).2]
  rcases Path.parent?_cases h with ⟨hne, -, -, hs⟩ | ⟨hs, -, rfl⟩
  · right
    have hlast : p.solid.getLast hne ≠ ['.', '.'] := by
      intro hl
      apply hup
      rw [Path.components_eq, List.getLast?_append, List.getLast?_map,
        List.getLast?_eq_some_getLast hne, hl]
      rfl
    have hidle : isIdle (p.solid.getLast hne) = false := by
      simpa using (List.mem_filter.mp (List.getLast_mem hne)).2
    conv_rhs => rw [← List.dropLast_append_getLast hne, ← hs]
    simp [Location.follow, Location.step, hidle, hlast]
  · left
    rw [hs]
    rfl

theorem isFile_child_iff {p : Path} {place : Place} {name : List Char}
    (h : fs.reach p = .ok place) (hdir : place.here.IsDirectory) (hn : IsName name)
    (hsize : Utf8.size name ≤ nameLimit) (hnul : '\x00' ∉ (p.child name).text)
    (hlimit : Utf8.size (p.child name).text < pathLimit) :
    fs.isFile (p.child name) ↔
      ∃ content, fs.tree? (name :: fs.location p) = some (.file content) := by
  obtain ⟨entries, he⟩ := hdir
  have hne := p.text_child_ne_nil hn
  have htree : fs.tree? (name :: fs.location p) = FileTree.entry? name entries := by
    rw [tree?, (stands_of_reach h).tree?, he]
    rfl
  rw [htree, isFile, resolve_eq_reach hnul hne hlimit, reach_child h hn,
    Place.step_name he hn hsize]
  cases FileTree.entry? name entries with
  | none => simp
  | some tree => cases tree <;> simp

end FileSystem

end SupportLayer
