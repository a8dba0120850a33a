/-
# How a directory is written makes no difference

What a candidate leads to is told by where its path starts and by the solid segments of the path
(`resolve_candidate_iff`): slashes and dots between them are passed in directories only, as the
name of the settings file is. So it is the same however the directory is written, if the text has
no NUL and keeps to the limit.

The parent of the file that is found has the components of the directory in which it was found,
and is written in no more characters. So its candidate is a file, and the search from there finds
it at the first look. From any path of the walk down to that directory, the search goes on as the
first one did.

Key theorems: `Settings.resolve_candidate_iff`, `Settings.find?_of_mem_walk`,
`Settings.find?_again`.
-/
import Mathlib
import SupportLayer.Proofs.Discovery.Search

namespace SupportLayer.Settings

variable {fs : FileSystem}

/-! ### Candidates -/

/-- A candidate leads where the solid segments of the path lead, and the name of the settings
file behind them. -/
theorem resolve_candidate_iff {p : Path} {place : FileSystem.Place} :
    fs.resolve (candidate p) = .ok place ↔
      '\x00' ∉ p.text ∧ Utf8.size (candidate p).text < FileSystem.pathLimit ∧
        ∃ origin, fs.start p = .ok origin ∧
          origin.follow (p.solid ++ [fileName.toList]) = .ok place := by
  have hne : (candidate p).text ≠ [] := p.text_child_ne_nil isName_fileName
  have hnul : '\x00' ∉ (candidate p).text ↔ '\x00' ∉ p.text :=
    ⟨fun h hmem => h ((p.text_isPrefix_child _).subset hmem), nul_notMem_candidate⟩
  rw [FileSystem.resolve_eq_ok_iff, hnul, candidate, FileSystem.reach_child_iff isName_fileName]
  exact ⟨fun ⟨h, _, hlimit, hreach⟩ => ⟨h, hlimit, hreach⟩,
    fun ⟨h, hlimit, hreach⟩ => ⟨h, hne, hlimit, hreach⟩⟩

theorem resolve_candidate_of_isInfix {p q : Path} {place : FileSystem.Place}
    (hanchor : q.anchor = p.anchor) (hsolid : q.solid = p.solid) (htext : q.text <:+: p.text)
    (h : fs.resolve (candidate p) = .ok place) : fs.resolve (candidate q) = .ok place := by
  obtain ⟨hnul, hlimit, origin, hstart, hfollow⟩ := resolve_candidate_iff.mp h
  have habs : q.Absolute ↔ p.Absolute := by
    rw [← Path.anchor_eq_root_iff, ← Path.anchor_eq_root_iff, hanchor]
  refine resolve_candidate_iff.mpr ⟨fun hmem => hnul (htext.subset hmem),
    (size_candidate_of_isInfix htext).trans_lt hlimit, origin, ?_, ?_⟩
  · rw [(FileSystem.start_congr habs).1, hstart]
  · rw [hsolid, hfollow]

/-! ### Searching again -/

/-- From a path of the walk that is no higher than the file, the search goes on as it did. -/
theorem find?_of_mem_walk {fs : Files} {start q file : Path} (hq : q ∈ start.walk)
    (hfound : find? fs start = some file)
    (hlow : file.components.length ≤ q.components.length + 1) : find? fs q = some file := by
  induction start using Path.walk_induction with
  | top p hp =>
    rw [Path.walk_of_none hp, List.mem_singleton] at hq
    rwa [hq]
  | up p p' hp ih =>
    rw [Path.walk_of_parent? hp, List.mem_cons] at hq
    rcases hq with rfl | hq
    · exact hfound
    · by_cases hfile : RegularFile fs (candidate p)
      · -- the file would be below the path
        rw [find?_of_regularFile hfile] at hfound
        cases hfound
        obtain ⟨hne, hp'⟩ := Path.components_parent? hp
        have hpos := List.length_pos_iff.mpr hne
        have hle := (Path.components_prefix_of_mem_walk hq).length_le
        rw [components_candidate, List.length_append, List.length_singleton] at hlow
        rw [hp', List.length_dropLast] at hle
        omega
      · rw [find?_up hfile hp] at hfound
        exact ih hq hfound

/-- **The file that is found marks its own directory.** Searched from its parent, it is found again,
with the same components; and so it is, written as it was, from every path on the walk from the
start up to there. -/
theorem find?_again {start file : Path} (hfound : find? fs start = some file) :
    ∃ directory, file.parent? = some directory ∧
      (∃ again, find? fs directory = some again ∧ again.components = file.components) ∧
      ∀ q ∈ start.walk, directory.components <+: q.components → find? fs q = some file := by
  obtain ⟨d, -, rfl, hfile⟩ := exists_of_find? hfound
  obtain ⟨directory, hparent, hanchor, hsolid, htext⟩ := d.parent?_child isName_fileName
  have hcomponents : directory.components = d.components := by
    rw [Path.components_eq, Path.components_eq, hanchor, hsolid]
  have hagain : RegularFile fs (candidate directory) := by
    obtain ⟨content, above, hplace⟩ := regularFile_iff.mp hfile
    exact regularFile_iff.mpr
      ⟨content, above, resolve_candidate_of_isInfix hanchor hsolid htext.isInfix hplace⟩
  refine ⟨directory, hparent, ⟨candidate directory, find?_of_regularFile hagain, ?_⟩, ?_⟩
  · rw [components_candidate, components_candidate, hcomponents]
  · intro q hq hprefix
    refine find?_of_mem_walk hq hfound ?_
    rw [components_candidate, List.length_append, List.length_singleton, ← hcomponents]
    exact Nat.succ_le_succ hprefix.length_le

/-- From `p/.//` the file in `p` is found, and from its parent, which is `p`, it is found again,
written without the slashes and the dot. On the walk from `p/src/./deep//` it is found from `p/src`
as well. -/
theorem find?_again_slashes :
    let start : Path := ⟨"p/.//".toList⟩
    let file : Path := ⟨"p/.//biggie.toml".toList⟩
    let low : Path := ⟨"p/src/./deep//".toList⟩
    find? nested start = some file ∧ file.parent? = some ⟨['p']⟩ ∧
      (∃ again, find? nested ⟨['p']⟩ = some again ∧ again.components = file.components) ∧
      find? nested low = some ⟨"p/biggie.toml".toList⟩ ∧ ⟨"p/src".toList⟩ ∈ low.walk ∧
      find? nested ⟨"p/src".toList⟩ = some ⟨"p/biggie.toml".toList⟩ := by
  intro start file low
  have hfound : find? nested start = some file := by decide +kernel
  have hparent : file.parent? = some ⟨['p']⟩ := by decide +kernel
  have hlow : find? nested low = some ⟨"p/biggie.toml".toList⟩ := by decide +kernel
  have hmem : ⟨"p/src".toList⟩ ∈ low.walk := by decide +kernel
  have hparent' : (Path.mk "p/biggie.toml".toList).parent? = some ⟨['p']⟩ := by decide +kernel
  obtain ⟨directory, hdirectory, hagain, -⟩ := find?_again hfound
  obtain ⟨directory', hdirectory', -, hwalk⟩ := find?_again hlow
  rw [hparent] at hdirectory
  rw [hparent'] at hdirectory'
  cases hdirectory
  cases hdirectory'
  exact ⟨hfound, hparent, hagain, hlow, hmem, hwalk _ hmem (by decide +kernel)⟩

end SupportLayer.Settings
