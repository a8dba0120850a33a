/-
# The search looks at the whole walk, and ends

The search is a loop: it looks at the candidate in a directory, ends if that is a regular file, and
goes on with the parent, or ends without one. A look is made at most for each path of the walk up,
so the loop ends, in one way only (`searches_find?`, `Searches.unique`). What it finds is the first
candidate of the walk that is a regular file; it finds nothing iff none of them is. All this holds
of whatever test for regular files a system has. In a file tree a directory is no regular file, nor
is what a path would lead to that runs through a file.

Key definitions: `Settings.RegularFile`, `Settings.Searches`, `FileSystem.RunsThroughFile`.
Key theorems: `Settings.Searches.unique`, `Settings.searches_find?`, `Settings.find?_eq_some_iff`,
`Settings.find?_eq_none_iff`, `Settings.search_exact`.
-/
import Mathlib
import SupportLayer.Proofs.Discovery.Nearest
import SupportLayer.Proofs.Path.Walk

namespace SupportLayer

namespace FileSystem

/-- The path leads to a directory. -/
def LeadsToDirectory (fs : FileSystem) (p : Path) : Prop :=
  ∃ place, fs.resolve p = .ok place ∧ place.here.IsDirectory

/-- The first segments of the path lead to a file, and others follow. -/
def RunsThroughFile (fs : FileSystem) (p : Path) : Prop :=
  ∃ origin front back content above, fs.start p = .ok origin ∧ p.segments = front ++ back ∧
    back ≠ [] ∧ origin.follow front = .ok ⟨.file content, above⟩

end FileSystem

namespace Settings

/-- The path leads to a regular file. -/
def RegularFile (fs : Files) (p : Path) : Prop := fs.isFile p

/-- The loop of the search: how many candidates it looks at from a path on, and what it finds. -/
inductive Searches (fs : Files) : Path → ℕ → Option Path → Prop
  | found {p : Path} : RegularFile fs (candidate p) → Searches fs p 1 (some (candidate p))
  | up {p q : Path} {looks : ℕ} {found : Option Path} : ¬ RegularFile fs (candidate p) →
      p.parent? = some q → Searches fs q looks found → Searches fs p (looks + 1) found
  | absent {p : Path} : ¬ RegularFile fs (candidate p) → p.parent? = none → Searches fs p 1 none

/-! ### Regular files of a tree -/

theorem regularFile_iff {fs : FileSystem} {p : Path} :
    RegularFile fs p ↔ ∃ content above, fs.resolve p = .ok ⟨.file content, above⟩ := by
  rw [RegularFile, FileSystem.files_isFile, FileSystem.isFile]
  split
  · next content above h => exact iff_of_true rfl ⟨content, above, h⟩
  · next hno =>
    refine iff_of_false Bool.false_ne_true ?_
    rintro ⟨content, above, h⟩
    exact hno content above h

theorem not_regularFile_of_leadsToDirectory {fs : FileSystem} {p : Path}
    (h : fs.LeadsToDirectory p) : ¬ RegularFile fs p := by
  rw [regularFile_iff]
  rintro ⟨content, above, hfile⟩
  obtain ⟨place, hplace, entries, hdir⟩ := h
  rw [hfile] at hplace
  cases hplace
  cases hdir

theorem not_regularFile_of_runsThroughFile {fs : FileSystem} {p : Path}
    (h : fs.RunsThroughFile p) : ¬ RegularFile fs p := by
  rw [regularFile_iff]
  rintro ⟨content, above, hfile⟩
  obtain ⟨origin, front, back, content', above', hstart, hsegments, hback, hfront⟩ := h
  obtain ⟨origin', hstart', hfollow⟩ :=
    FileSystem.reach_eq_ok_iff.mp (FileSystem.reach_of_resolve hfile).2
  rw [hstart] at hstart'
  cases hstart'
  rw [hsegments, FileSystem.Place.follow_append, hfront] at hfollow
  obtain ⟨s, rest, rfl⟩ := List.exists_cons_of_ne_nil hback
  cases hfollow

/-! ### The loop -/

section

variable {fs : Files}

theorem Searches.unique {p : Path} {looks looks' : ℕ} {found found' : Option Path}
    (h : Searches fs p looks found) (h' : Searches fs p looks' found') :
    looks = looks' ∧ found = found' := by
  induction h generalizing looks' found' with
  | found hfile =>
    cases h' with
    | found => exact ⟨rfl, rfl⟩
    | up hno => exact absurd hfile hno
    | absent hno => exact absurd hfile hno
  | up hno hq _ ih =>
    cases h' with
    | found hfile => exact absurd hfile hno
    | up _ hq' hrest =>
      rw [hq] at hq'
      cases hq'
      obtain ⟨rfl, rfl⟩ := ih hrest
      exact ⟨rfl, rfl⟩
    | absent _ hnone =>
      rw [hq] at hnone
      cases hnone
  | absent hno hnone =>
    cases h' with
    | found hfile => exact absurd hfile hno
    | up _ hq =>
      rw [hnone] at hq
      cases hq
    | absent => exact ⟨rfl, rfl⟩

theorem find?_of_regularFile {p : Path} (h : RegularFile fs (candidate p)) :
    find? fs p = some (candidate p) := by
  rw [RegularFile] at h
  cases hp : p.parent? with
  | none => rw [find?_of_none hp, if_pos h]
  | some q => rw [find?_of_parent? hp, if_pos h]

theorem find?_up {p q : Path} (h : ¬ RegularFile fs (candidate p)) (hq : p.parent? = some q) :
    find? fs p = find? fs q := by
  rw [find?_of_parent? hq]
  exact if_neg h

theorem find?_absent {p : Path} (h : ¬ RegularFile fs (candidate p)) (hp : p.parent? = none) :
    find? fs p = none := by
  rw [find?_of_none hp]
  exact if_neg h

/-- The loop ends, with a look at most for each path of the walk up. -/
theorem searches_find? (fs : Files) (p : Path) :
    ∃ looks ≤ p.height + 1, Searches fs p looks (find? fs p) := by
  induction p using Path.walk_induction with
  | top p hp =>
    by_cases hfile : RegularFile fs (candidate p)
    · rw [find?_of_regularFile hfile]
      exact ⟨1, by omega, .found hfile⟩
    · rw [find?_absent hfile hp]
      exact ⟨1, by omega, .absent hfile hp⟩
  | up p q hq ih =>
    by_cases hfile : RegularFile fs (candidate p)
    · rw [find?_of_regularFile hfile]
      exact ⟨1, by omega, .found hfile⟩
    · rw [find?_up hfile hq]
      obtain ⟨looks, hle, hrest⟩ := ih
      have hheight := Path.height_of_parent? hq
      exact ⟨looks + 1, by omega, .up hfile hq hrest⟩

/-! ### What is found -/

theorem find?_eq_some_iff {start file : Path} :
    find? fs start = some file ↔
      ∃ (j : ℕ) (d : Path), start.walk[j]? = some d ∧ file = candidate d ∧ RegularFile fs file ∧
        ∀ i < j, ∀ e, start.walk[i]? = some e → ¬ RegularFile fs (candidate e) := by
  unfold find?
  rw [List.find?_eq_some_iff_getElem]
  simp only [List.getElem_map, List.length_map, Bool.not_eq_true']
  constructor
  · rintro ⟨hfile, j, hj, hd, hbefore⟩
    refine ⟨j, start.walk[j], List.getElem?_eq_getElem hj, hd.symm, hfile, ?_⟩
    intro i hi e he
    obtain ⟨-, rfl⟩ := List.getElem?_eq_some_iff.mp he
    exact Bool.eq_false_iff.mp (hbefore i hi)
  · rintro ⟨j, d, hd, rfl, hfile, hbefore⟩
    obtain ⟨hj, rfl⟩ := List.getElem?_eq_some_iff.mp hd
    refine ⟨hfile, j, hj, rfl, ?_⟩
    intro i hi
    have hno := hbefore i hi _ (List.getElem?_eq_getElem (hi.trans hj))
    exact Bool.eq_false_iff.mpr hno

theorem find?_eq_none_iff {start : Path} :
    find? fs start = none ↔ ∀ d ∈ start.walk, ¬ RegularFile fs (candidate d) := by
  unfold find?
  rw [List.find?_eq_none, List.forall_mem_map]
  rfl

end

/-- **The search is exact, and ends.** The walk up from the start has a path for each number of
components up to that of the start, and down to none or to the root. Whichever paths lead to
regular files, the loop ends with a look at most for each of them; what it finds is the first
candidate on the walk that is a regular file, and nothing iff none of them is. In a tree a regular
file is what stands at the end of its path; a directory is none, nor is anything behind a file. -/
theorem search_exact (start : Path) :
    Path.Chain start start.walk ∧
      (∀ fs : Files,
        (∃ looks ≤ start.height + 1, Searches fs start looks (find? fs start) ∧
          ∀ looks' found, Searches fs start looks' found →
            looks' = looks ∧ found = find? fs start) ∧
        (∀ file, find? fs start = some file ↔
          ∃ (j : ℕ) (d : Path), start.walk[j]? = some d ∧ file = candidate d ∧ RegularFile fs file ∧
            ∀ i < j, ∀ e, start.walk[i]? = some e → ¬ RegularFile fs (candidate e)) ∧
        (find? fs start = none ↔ ∀ d ∈ start.walk, ¬ RegularFile fs (candidate d))) ∧
      ∀ (fs : FileSystem) (p : Path),
        (RegularFile fs p ↔ ∃ content above, fs.resolve p = .ok ⟨.file content, above⟩) ∧
        (fs.LeadsToDirectory p ∨ fs.RunsThroughFile p → ¬ RegularFile fs p) := by
  refine ⟨Path.chain_walk start, fun fs => ⟨?_, fun file => find?_eq_some_iff,
    find?_eq_none_iff⟩, fun fs p => ⟨regularFile_iff, ?_⟩⟩
  · obtain ⟨looks, hle, hsearch⟩ := searches_find? fs start
    exact ⟨looks, hle, hsearch, fun looks' found h => h.unique hsearch⟩
  · rintro (hdir | hthrough)
    · exact not_regularFile_of_leadsToDirectory hdir
    · exact not_regularFile_of_runsThroughFile hthrough

/-- A tree in which the settings file in `p` has a directory of that name below it, in `p/src`, and
a file `p/src/deep` beside it. -/
def obstructed : FileSystem :=
  ⟨((FileTree.empty.addFile "p/biggie.toml".toList []).addDirectory
    "p/src/biggie.toml".toList).addFile "p/src/deep".toList [], []⟩

/-- From `/p/src/./deep//` the walk goes over `/p/src` and `/p` to the root. The first candidate runs
through a file and the second is a directory, so the third is found, after three looks. -/
theorem search_exact_obstructed :
    let start : Path := ⟨"/p/src/./deep//".toList⟩
    let file : Path := ⟨"/p/biggie.toml".toList⟩
    start.walk = [start, ⟨"/p/src".toList⟩, ⟨"/p".toList⟩, ⟨['/']⟩] ∧ start.height = 3 ∧
      ¬ RegularFile obstructed ⟨"/p/src/./deep//biggie.toml".toList⟩ ∧
      ¬ RegularFile obstructed ⟨"/p/src/biggie.toml".toList⟩ ∧
      find? obstructed start = some file ∧ Searches obstructed start 3 (some file) := by
  intro start file
  have hwalk : start.walk = [start, ⟨"/p/src".toList⟩, ⟨"/p".toList⟩, ⟨['/']⟩] := by
    decide +kernel
  obtain ⟨hchain, hsearch, htree⟩ := search_exact start
  obtain ⟨⟨looks, -, -, hunique⟩, hfound, -⟩ := hsearch obstructed
  have hthrough : ¬ RegularFile obstructed ⟨"/p/src/./deep//biggie.toml".toList⟩ :=
    (htree _ _).2 (.inr ⟨_, ["".toList, "p".toList, "src".toList, ".".toList, "deep".toList],
      ["".toList, "biggie.toml".toList], [], _, rfl, by decide +kernel, by simp, rfl⟩)
  have hdir : ¬ RegularFile obstructed ⟨"/p/src/biggie.toml".toList⟩ :=
    (htree _ _).2 (.inl ⟨_, rfl, [], rfl⟩)
  have hregular : RegularFile obstructed file := (htree _ _).1.mpr ⟨[], _, rfl⟩
  have hfile : find? obstructed start = some file := by
    refine (hfound file).mpr ⟨2, ⟨"/p".toList⟩, by rw [hwalk]; rfl, by decide +kernel, hregular, ?_⟩
    rw [hwalk]
    intro i hi e he
    match i, hi with
    | 0, _ =>
      cases he
      exact hthrough
    | 1, _ =>
      cases he
      exact hdir
  refine ⟨hwalk, ?_, hthrough, hdir, hfile, ?_⟩
  · have hlength := hchain.length
    rw [hwalk] at hlength
    exact (Nat.succ.inj hlength).symm
  · have hlast : Searches obstructed ⟨"/p".toList⟩ 1 (some file) := .found hregular
    have hsrc : Searches obstructed ⟨"/p/src".toList⟩ 2 (some file) :=
      .up hdir (by decide +kernel) hlast
    exact .up hthrough (by decide +kernel) hsrc

end Settings

end SupportLayer
