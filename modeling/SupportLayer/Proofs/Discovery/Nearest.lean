/-
# The settings file that is found is the nearest one

The walk up drops components of the start, one at a time; the tree knows only directories and
what is above them. As long as no two dots are dropped both go up alike: each path of the walk
leads to the directory above the one before it, or to the same one if a dot is dropped, so the
first file on the walk is the nearest at or above the start. Where two dots are dropped, the
walk goes on to the directory that they led out of, and may find a file there that is in no
directory above the start.

Key definitions: `Settings.Holds`, `Settings.Nearest`.
Key theorems: `Settings.nearest_of_reach`, `Settings.find?_nearest`, `Settings.find?_not_nearest`.
-/
import Mathlib
import SupportLayer.Discovery
import SupportLayer.Proofs.FileTree.Locations

namespace SupportLayer.Settings

open SupportLayer.FileSystem (Location)

/-- The directory at a location has a settings file. -/
def Holds (fs : FileSystem) (l : Location) : Prop :=
  ∃ content, fs.tree? (fileName.toList :: l) = some (.file content)

/-- The path leads to the settings file of the nearest directory that has one, at a location or
above it. -/
def Nearest (fs : FileSystem) (l : Location) (p : Path) : Prop :=
  ∃ found, fs.location p = fileName.toList :: found ∧ found <:+ l ∧ Holds fs found ∧
    ∀ between, found <:+ between → between <:+ l → between ≠ found → ¬ Holds fs between

theorem isName_fileName : Path.IsName fileName.toList := ⟨by decide, by decide, by decide⟩

theorem components_candidate (p : Path) :
    (candidate p).components = p.components ++ [.name fileName.toList] :=
  p.components_child isName_fileName

theorem find?_of_parent? {p q : Path} (h : p.parent? = some q) (fs : Files) :
    find? fs p = if fs.isFile (candidate p) then some (candidate p) else find? fs q := by
  unfold find?
  rw [Path.walk_of_parent? h, List.map_cons, List.find?_cons]
  cases fs.isFile (candidate p) <;> rfl

theorem find?_of_none {p : Path} (h : p.parent? = none) (fs : Files) :
    find? fs p = if fs.isFile (candidate p) then some (candidate p) else none := by
  unfold find?
  rw [Path.walk_of_none h, List.map_singleton, List.find?_cons]
  cases fs.isFile (candidate p) <;> rfl

theorem exists_of_find? {fs : Files} {p file : Path} (h : find? fs p = some file) :
    ∃ q ∈ p.walk, file = candidate q ∧ fs.isFile file := by
  obtain ⟨q, hq, rfl⟩ := List.mem_map.mp (List.mem_of_find?_eq_some h)
  exact ⟨q, hq, rfl, List.find?_some h⟩

theorem length_components_of_find? {fs : Files} {p file : Path} (h : find? fs p = some file) :
    file.components.length - 1 ≤ p.components.length := by
  obtain ⟨q, hq, rfl, -⟩ := exists_of_find? h
  rw [components_candidate, List.length_append, List.length_singleton, Nat.add_sub_cancel]
  exact (Path.components_prefix_of_mem_walk hq).length_le

/-! ### Candidates up the walk -/

theorem size_candidate (p : Path) :
    Utf8.size p.text + Utf8.size fileName.toList ≤ Utf8.size (candidate p).text ∧
      Utf8.size (candidate p).text ≤ Utf8.size p.text + 1 + Utf8.size fileName.toList := by
  have hslash : ∀ s : List Char, Utf8.size ('/' :: s) = 1 + Utf8.size s :=
    fun s => Utf8.size_append ['/'] s
  unfold candidate Path.child
  split
  · next h =>
    rw [List.getLast?_eq_none_iff.mp h]
    exact ⟨by decide, by decide⟩
  · split
    · simp only [Utf8.size_append]
      omega
    · simp only [Utf8.size_append, hslash]
      omega

theorem size_candidate_of_isInfix {p q : Path} (h : q.text <:+: p.text) :
    Utf8.size (candidate q).text ≤ Utf8.size (candidate p).text := by
  obtain ⟨front, back, htext⟩ := h
  have hsize : Utf8.size p.text = Utf8.size front + Utf8.size q.text + Utf8.size back := by
    rw [← htext, Utf8.size_append, Utf8.size_append]
  by_cases hnil : front ++ back = []
  · obtain ⟨rfl, rfl⟩ := List.append_eq_nil_iff.mp hnil
    obtain rfl : q = p := by
      obtain ⟨text⟩ := q
      exact congrArg Path.mk (by simpa using htext)
    exact le_rfl
  · -- a byte less makes up for the slash
    have hpos := Utf8.size_pos hnil
    rw [Utf8.size_append] at hpos
    have hp := (size_candidate p).1
    have hq := (size_candidate q).2
    omega

theorem size_candidate_parent? {p q : Path} (h : p.parent? = some q) :
    Utf8.size (candidate q).text ≤ Utf8.size (candidate p).text :=
  size_candidate_of_isInfix (Path.text_parent? h).isInfix

theorem nul_notMem_candidate {p : Path} (h : '\x00' ∉ p.text) : '\x00' ∉ (candidate p).text := by
  unfold candidate Path.child
  have hname : '\x00' ∉ fileName.toList := by decide
  split
  · exact hname
  · split <;> simp [h, hname]

/-- A path that leads to a directory has a candidate that is a file iff the directory has a
settings file. -/
theorem isFile_candidate_iff {fs : FileSystem} {p : Path} {place : FileSystem.Place}
    (h : fs.reach p = .ok place) (hdir : place.here.IsDirectory) (hnul : '\x00' ∉ p.text)
    (hlimit : Utf8.size (candidate p).text < FileSystem.pathLimit) :
    fs.files.isFile (candidate p) ↔ Holds fs (fs.location p) :=
  FileSystem.isFile_child_iff h hdir isName_fileName (by decide) (nul_notMem_candidate hnul) hlimit

/-! ### The walk up -/

theorem Nearest.of_holds {fs : FileSystem} {p : Path} (h : Holds fs (fs.location p)) :
    Nearest fs (fs.location p) (candidate p) := by
  refine ⟨_, FileSystem.location_child p isName_fileName, List.suffix_rfl, h, ?_⟩
  intro between hfound hbetween hne
  exact absurd (hbetween.eq_of_length_le hfound.length_le) hne

/-- What is found from the parent on is nearest to the start as well, if the directory between
has no settings file. -/
theorem Nearest.of_parent? {fs : FileSystem} {p q file : Path} (hq : p.parent? = some q)
    (hup : p.components.getLast? ≠ some .up) (hp : ¬ Holds fs (fs.location p))
    (h : Nearest fs (fs.location q) file) : Nearest fs (fs.location p) file := by
  rcases FileSystem.location_parent? hq hup with hl | hl
  · rwa [← hl]
  · rw [hl] at h
    obtain ⟨found, hfile, hsuffix, hholds, hnone⟩ := h
    refine ⟨found, hfile, hsuffix.trans (List.tail_suffix _), hholds, ?_⟩
    intro between hfound hbetween hne
    cases hcase : fs.location p with
    | nil =>
      rw [hcase] at hbetween hp
      rwa [List.suffix_nil.mp hbetween]
    | cons name l =>
      rw [hcase] at hbetween hp hnone
      rcases List.suffix_cons_iff.mp hbetween with rfl | hbelow
      · exact hp
      · exact hnone between hfound hbelow hne

/-- From a directory on, the first file on the walk is the nearest one, if no two dots are
dropped before it. -/
theorem nearest_of_reach {fs : FileSystem} {file : Path} (p : Path) {place : FileSystem.Place}
    (h : fs.reach p = .ok place) (hdir : place.here.IsDirectory) (hnul : '\x00' ∉ p.text)
    (hlimit : Utf8.size (candidate p).text < FileSystem.pathLimit)
    (hup : .up ∉ p.components.drop (file.components.length - 1))
    (hfound : find? fs p = some file) : Nearest fs (fs.location p) file := by
  induction p using Path.walk_induction generalizing place with
  | top p hp =>
    have hfile := isFile_candidate_iff h hdir hnul hlimit
    rw [find?_of_none hp] at hfound
    by_cases hc : fs.files.isFile (candidate p)
    · rw [if_pos hc] at hfound
      cases hfound
      exact .of_holds (hfile.mp hc)
    · rw [if_neg hc] at hfound
      cases hfound
  | up p q hq ih =>
    have hfile := isFile_candidate_iff h hdir hnul hlimit
    rw [find?_of_parent? hq] at hfound
    by_cases hc : fs.files.isFile (candidate p)
    · rw [if_pos hc] at hfound
      cases hfound
      exact .of_holds (hfile.mp hc)
    · rw [if_neg hc] at hfound
      obtain ⟨above, habove, hdir'⟩ := FileSystem.reach_parent? hq h hdir
      obtain ⟨hne, hcomponents⟩ := Path.components_parent? hq
      have hle := length_components_of_find? hfound
      -- what is dropped between the start and the file is what is dropped from the parent on,
      -- and the last component of the path
      have hdropped : p.components.drop (file.components.length - 1) =
          q.components.drop (file.components.length - 1) ++ [p.components.getLast hne] := by
        rw [← List.drop_append_of_le_length hle, hcomponents, List.dropLast_append_getLast hne]
      rw [hdropped, List.mem_append, not_or, List.mem_singleton] at hup
      have hlast : p.components.getLast? ≠ some .up := by
        rw [List.getLast?_eq_some_getLast hne]
        exact fun he => hup.2 (Option.some.inj he).symm
      have hnul' : '\x00' ∉ q.text := fun hmem => hnul ((Path.text_parent? hq).subset hmem)
      have hlimit' := (size_candidate_parent? hq).trans_lt hlimit
      exact (ih habove hdir' hnul' hlimit' hup.1 hfound).of_parent? hq hlast (mt hfile.mpr hc)

/-- **The settings file that is found is the nearest one** at or above the directory that the
start resolves to, if no two dots stand in the start behind the directory of the file. -/
theorem find?_nearest {fs : FileSystem} {start file : Path}
    {entries : List (List Char × FileTree)} {above : List FileTree}
    (hstart : fs.resolve start = .ok ⟨.directory entries, above⟩)
    (hlimit : Utf8.size (candidate start).text < FileSystem.pathLimit)
    (hfound : find? fs start = some file)
    (hup : .up ∉ start.components.drop (file.components.length - 1)) :
    fs.tree? (fs.location start) = some (.directory entries) ∧
      Nearest fs (fs.location start) file := by
  obtain ⟨hnul, hreach⟩ := FileSystem.reach_of_resolve hstart
  exact ⟨(FileSystem.stands_of_reach hreach).tree?,
    nearest_of_reach start hreach ⟨entries, rfl⟩ hnul hlimit hup hfound⟩

/-- A tree with a settings file in `p` and a directory two below it. -/
def nested : FileSystem :=
  ⟨(FileTree.empty.addFile "p/biggie.toml".toList []).addDirectory "p/src/deep".toList, []⟩

/-- From the lowest directory of `nested`, however the path to it is written, the file in `p` is
found, and it is the nearest. -/
theorem find?_nearest_nested :
    nested.resolve ⟨"p/src/./deep//".toList⟩ = .ok ⟨.directory [],
        [.directory [("deep".toList, .directory [])],
          .directory [("biggie.toml".toList, .file []),
            ("src".toList, .directory [("deep".toList, .directory [])])],
          nested.root]⟩ ∧
      find? nested ⟨"p/src/./deep//".toList⟩ = some ⟨"p/biggie.toml".toList⟩ ∧
      Nearest nested ["deep".toList, "src".toList, "p".toList] ⟨"p/biggie.toml".toList⟩ := by
  have hstart : nested.resolve ⟨"p/src/./deep//".toList⟩ = .ok ⟨.directory [],
      [.directory [("deep".toList, .directory [])],
        .directory [("biggie.toml".toList, .file []),
          ("src".toList, .directory [("deep".toList, .directory [])])],
        nested.root]⟩ := rfl
  have hfound : find? nested ⟨"p/src/./deep//".toList⟩ = some ⟨"p/biggie.toml".toList⟩ := by
    decide +kernel
  exact ⟨hstart, hfound, (find?_nearest hstart (by decide +kernel) hfound (by decide +kernel)).2⟩

/-! ### Two dots

The parent of `a/..` is `a`, a directory below the one that `a/..` leads to. -/

/-- A tree whose only file is a settings file in `a`. -/
def beside : FileSystem := ⟨FileTree.empty.addFile "a/biggie.toml".toList [], []⟩

/-- Where two dots are dropped, what is found need not be above the start: from `a/..`,
which is the root, the file in `a` is found. -/
theorem find?_not_nearest :
    ¬ ∀ (fs : FileSystem) (start file : Path) (entries : List (List Char × FileTree))
        (above : List FileTree), fs.resolve start = .ok ⟨.directory entries, above⟩ →
        find? fs start = some file → Nearest fs (fs.location start) file := by
  intro h
  have hstart : beside.resolve ⟨"a/..".toList⟩ =
      .ok ⟨.directory [("a".toList, .directory [("biggie.toml".toList, .file [])])], []⟩ := rfl
  have hfound : find? beside ⟨"a/..".toList⟩ = some ⟨"a/biggie.toml".toList⟩ := by decide +kernel
  obtain ⟨found, hfile, habove, -⟩ := h _ _ _ _ _ hstart hfound
  -- the start is the root, and the file is not in it
  have hroot : beside.location ⟨"a/..".toList⟩ = [] := by decide +kernel
  have hbelow : beside.location ⟨"a/biggie.toml".toList⟩ = [fileName.toList, ['a']] := by
    decide +kernel
  rw [hroot, List.suffix_nil] at habove
  rw [hbelow, habove] at hfile
  cases hfile

end SupportLayer.Settings
