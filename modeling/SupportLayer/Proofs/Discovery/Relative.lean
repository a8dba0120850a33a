/-
# Relative and absolute searches agree

A relative path and the absolute one that leads over the working directory have the same solid
segments, but for those of the working directory in front. So their candidates lead to the same
place, and a step up from both keeps it so (`Beneath`). The two walks part only where the relative
one has no segments left: it drops a dot, if there is one in front, and ends with the empty path;
the absolute one goes on above the working directory, where no settings file may be.

Two dots in the start make no difference here, since both walks drop them alike.

Key definitions: `FileSystem.NamesWorking`, `Settings.ClearAbove`, `Settings.Beneath`,
`Settings.SameFile`, `Settings.SameOutcome`.
Key theorems: `Settings.resolve_candidate_beneath`, `Settings.find?_beneath`,
`Settings.discover_relative`.
-/
import Mathlib
import SupportLayer.Proofs.Discovery.Deciding
import SupportLayer.Proofs.Discovery.Spelling

open SupportLayer.Path (Component Segment isIdle)

namespace SupportLayer

namespace FileSystem

variable {fs : FileSystem}

/-- The path names the working directory, from the root on. -/
structure NamesWorking (fs : FileSystem) (root : Path) : Prop where
  components : root.components = .root :: fs.working.map .name
  leads : fs.LeadsToDirectory root

theorem NamesWorking.absolute {root : Path} (h : fs.NamesWorking root) : root.Absolute := by
  rw [Path.absolute_iff_head?, h.components]
  rfl

theorem NamesWorking.solid {root : Path} (h : fs.NamesWorking root) :
    root.solid = fs.working ∧ ['.', '.'] ∉ root.solid := by
  have hc := h.components
  rw [Path.components_eq, (Path.anchor_eq_root_iff root).mpr h.absolute] at hc
  exact Path.eq_of_map_ofSegment (List.cons.inj hc).2

/-- Names lead further down one after the other. -/
theorem Location.follow_names {l : Location} {segments : List Segment}
    (hsolid : ∀ s ∈ segments, isIdle s = false) (hup : ['.', '.'] ∉ segments) :
    l.follow segments = segments.reverse ++ l := by
  induction segments generalizing l with
  | nil => rfl
  | cons s segments ih =>
    obtain ⟨hs, hrest⟩ := List.forall_mem_cons.mp hsolid
    rw [List.mem_cons, not_or] at hup
    have hstep : l.step s = s :: l := by
      simp [Location.step, hs, Ne.symm hup.1]
    rw [List.reverse_cons, List.append_assoc, List.singleton_append, ← hstep]
    exact ih hrest hup.2

theorem location_of_absolute {p : Path} (habs : p.Absolute) (hup : ['.', '.'] ∉ p.solid) :
    fs.location p = p.solid.reverse := by
  have hsolid : ∀ s ∈ p.solid, isIdle s = false := by
    intro s hs
    simpa using (List.mem_filter.mp hs).2
  rw [location_eq, base, if_pos habs, Location.follow_names hsolid hup, List.append_nil]

end FileSystem

namespace Settings

variable {fs : FileSystem} {root p p' : Path}

/-- No directory above a location has a settings file. -/
def ClearAbove (fs : FileSystem) (l : FileSystem.Location) : Prop :=
  ∀ above, above <:+ l → above ≠ l → ¬ Holds fs above

/-- Components without a dot in front. -/
def withoutDot : List Component → List Component
  | .current :: rest => rest
  | components => components

theorem withoutDot_ofSegment (l : List Segment) :
    withoutDot (l.map Component.ofSegment) = l.map Component.ofSegment := by
  cases l with
  | nil => rfl
  | cons s l =>
    by_cases hs : s = ['.', '.']
    · rw [List.map_cons, Component.ofSegment, if_pos hs]
      rfl
    · rw [List.map_cons, Component.ofSegment, if_neg hs]
      rfl

theorem withoutDot_concat (l : List Component) (s : Segment) :
    withoutDot (l ++ [.name s]) = withoutDot l ++ [.name s] := by
  cases l with
  | nil => rfl
  | cons c l => cases c <;> rfl

/-- The second file is the first one, with the components of the root in front. -/
structure SameFile (fs : FileSystem) (root file file' : Path) : Prop where
  components : file'.components = root.components ++ withoutDot file.components
  read : fs.read file' = fs.read file

/-- Both give the same settings, or the same fault for a text that makes no sense, or for a file
that cannot be read a fault with the same reason. -/
inductive SameOutcome : Except Fault Settings → Except Fault Settings → Prop
  | settings (s : Settings) : SameOutcome (.ok s) (.ok s)
  | invalid (reason : String) :
      SameOutcome (.error (.invalidSettings reason)) (.error (.invalidSettings reason))
  | unreadable (path path' reason : String) :
      SameOutcome (.error (.unreadableSettings path reason))
        (.error (.unreadableSettings path' reason))

/-- The second path is absolute, and has the segments of the relative one behind those of the
root. -/
structure Beneath (root p p' : Path) : Prop where
  relative : ¬ p.Absolute
  absolute : p'.Absolute
  solid : p'.solid = root.solid ++ p.solid

/-! ### The same candidates -/

theorem resolve_candidate_beneath (hroot : fs.NamesWorking root) (h : Beneath root p p')
    (hlimit : Utf8.size (candidate p).text < FileSystem.pathLimit)
    (hlimit' : Utf8.size (candidate p').text < FileSystem.pathLimit) {place : FileSystem.Place} :
    fs.resolve (candidate p') = .ok place ↔ fs.resolve (candidate p) = .ok place := by
  have hnul : '\x00' ∉ p'.text ↔ '\x00' ∉ p.text := by
    obtain ⟨_, hplace, -⟩ := hroot.leads
    have hclean := (FileSystem.reach_of_resolve hplace).1
    rw [root.mem_text_iff (by decide) (by decide)] at hclean
    rw [p'.mem_text_iff (by decide) (by decide), p.mem_text_iff (by decide) (by decide), h.solid]
    simp only [List.mem_append, or_and_right, exists_or, hclean, false_or]
  have hstart : fs.start p = fs.top.follow root.solid := by
    rw [FileSystem.start, if_neg h.relative, hroot.solid.1]
  have hstart' : fs.start p' = .ok fs.top := if_pos h.absolute
  rw [resolve_candidate_iff, resolve_candidate_iff, hnul, hstart, hstart', h.solid,
    List.append_assoc]
  simp only [hlimit, hlimit', Except.ok.injEq, exists_eq_left', FileSystem.Place.follow_append]
  cases fs.top.follow root.solid <;> simp [Except.bind]

theorem regularFile_beneath (hroot : fs.NamesWorking root) (h : Beneath root p p')
    (hlimit : Utf8.size (candidate p).text < FileSystem.pathLimit)
    (hlimit' : Utf8.size (candidate p').text < FileSystem.pathLimit) :
    RegularFile fs (candidate p') ↔ RegularFile fs (candidate p) := by
  simp only [regularFile_iff, resolve_candidate_beneath hroot h hlimit hlimit']

theorem components_beneath (hroot : fs.NamesWorking root) (h : Beneath root p p') :
    p'.components = root.components ++ withoutDot p.components := by
  have hp : withoutDot p.components = p.solid.map Component.ofSegment := by
    rw [Path.components_eq]
    cases ha : p.anchor with
    | root => exact absurd ((Path.anchor_eq_root_iff p).mp ha) h.relative
    | dot => rfl
    | none => exact withoutDot_ofSegment p.solid
  rw [hp, Path.components_eq, Path.components_eq, h.solid,
    (Path.anchor_eq_root_iff p').mpr h.absolute, (Path.anchor_eq_root_iff root).mpr hroot.absolute,
    List.map_append, List.append_assoc]

theorem sameFile_candidate (hroot : fs.NamesWorking root) (h : Beneath root p p')
    (hlimit : Utf8.size (candidate p).text < FileSystem.pathLimit)
    (hlimit' : Utf8.size (candidate p').text < FileSystem.pathLimit)
    (hfile : RegularFile fs (candidate p)) : SameFile fs root (candidate p) (candidate p') := by
  refine ⟨?_, ?_⟩
  · rw [components_candidate, components_candidate, withoutDot_concat, components_beneath hroot h,
      List.append_assoc]
  · obtain ⟨content, above, hplace⟩ := regularFile_iff.mp hfile
    have hplace' := (resolve_candidate_beneath hroot h hlimit hlimit').mpr hplace
    simp only [FileSystem.read, hplace, hplace']

/-! ### Above the working directory -/

theorem holds_of_regularFile (h : RegularFile fs (candidate p)) : Holds fs (fs.location p) := by
  obtain ⟨content, above, hplace⟩ := regularFile_iff.mp h
  have hstands := FileSystem.stands_of_reach (FileSystem.reach_of_resolve hplace).2
  refine ⟨content, ?_⟩
  rw [← FileSystem.location_child p isName_fileName]
  exact hstands.tree?

/-- From the working directory the search goes on above it, and finds nothing there. -/
theorem find?_above (hroot : fs.NamesWorking root) (hclear : ClearAbove fs (fs.location root))
    (habs : p.Absolute) (hsolid : p.solid = root.solid)
    (hno : ¬ RegularFile fs (candidate p)) : find? fs p = none := by
  obtain ⟨-, hup⟩ := hroot.solid
  cases hp : p.parent? with
  | none => exact find?_absent hno hp
  | some q =>
    rw [find?_up hno hp, find?_eq_none_iff]
    intro d hd hfile
    have habs' : d.Absolute :=
      (Path.absolute_of_mem_walk hd).mpr ((Path.absolute_parent? hp).mpr habs)
    -- a path on the walk from the parent on has fewer of the names
    obtain ⟨hne, hq⟩ : root.solid ≠ [] ∧ q.solid = root.solid.dropLast := by
      rcases Path.parent?_cases hp with ⟨hne, -, -, hq⟩ | ⟨-, hdot, -⟩
      · exact ⟨hsolid ▸ hne, hsolid ▸ hq⟩
      · rw [(Path.anchor_eq_root_iff p).mpr habs] at hdot
        cases hdot
    have hprefix := Path.solid_isPrefix_of_mem_walk hd
    rw [hq] at hprefix
    have hnames := hprefix.trans (List.dropLast_prefix _)
    have hlocation : fs.location d = d.solid.reverse :=
      FileSystem.location_of_absolute habs' fun h => hup (hnames.subset h)
    have hlocation' : fs.location root = root.solid.reverse :=
      FileSystem.location_of_absolute hroot.absolute hup
    refine hclear (fs.location d) ?_ ?_ (holds_of_regularFile hfile)
    · rw [hlocation, hlocation', List.reverse_suffix]
      exact hnames
    · rw [hlocation, hlocation']
      intro heq
      have hle := hprefix.length_le
      have hpos := List.length_pos_iff.mpr hne
      rw [List.reverse_injective heq, List.length_dropLast] at hle
      omega

/-! ### The same search -/

theorem Beneath.parent? {q : Path} (h : Beneath root p p') (hp : p.parent? = some q)
    (hne : p.solid ≠ []) :
    ∃ q', p'.parent? = some q' ∧ Beneath root q q' := by
  have hsolid' : p'.solid ≠ [] := by
    rw [h.solid]
    exact List.append_ne_nil_of_right_ne_nil _ hne
  have hanchor' := (Path.anchor_eq_root_iff p').mpr h.absolute
  cases hp' : p'.parent? with
  | none =>
    rw [Path.parent?_eq_none_iff, Path.components_eq, hanchor'] at hp'
    simp [Path.Anchor.components, hsolid'] at hp'
  | some q' =>
    refine ⟨q', rfl, mt (Path.absolute_parent? hp).mp h.relative,
      (Path.absolute_parent? hp').mpr h.absolute, ?_⟩
    rcases Path.parent?_cases hp with ⟨-, -, -, hq⟩ | ⟨hnil, -⟩
    · rcases Path.parent?_cases hp' with ⟨-, -, -, hq'⟩ | ⟨hnil', -⟩
      · rw [hq', hq, h.solid, List.dropLast_append_of_ne_nil hne]
      · exact absurd hnil' hsolid'
    · exact absurd hnil hne

/-- A file is found by both at the first look. -/
theorem find?_beneath_of_regularFile (hroot : fs.NamesWorking root) (h : Beneath root p p')
    (hlimit : Utf8.size (candidate p).text < FileSystem.pathLimit)
    (hlimit' : Utf8.size (candidate p').text < FileSystem.pathLimit)
    (hfile : RegularFile fs (candidate p)) :
    Option.Rel (SameFile fs root) (find? fs p) (find? fs p') := by
  have hfile' := (regularFile_beneath hroot h hlimit hlimit').mpr hfile
  rw [find?_of_regularFile hfile, find?_of_regularFile hfile']
  exact .some (sameFile_candidate hroot h hlimit hlimit' hfile)

/-- Beneath the working directory both searches find the same. -/
theorem find?_beneath (hroot : fs.NamesWorking root) (hclear : ClearAbove fs (fs.location root))
    (h : Beneath root p p')
    (hlimit : Utf8.size (candidate p).text < FileSystem.pathLimit)
    (hlimit' : Utf8.size (candidate p').text < FileSystem.pathLimit) :
    Option.Rel (SameFile fs root) (find? fs p) (find? fs p') := by
  induction p using Path.walk_induction generalizing p' with
  | top p hp =>
    by_cases hfile : RegularFile fs (candidate p)
    · exact find?_beneath_of_regularFile hroot h hlimit hlimit' hfile
    · have hfile' := mt (regularFile_beneath hroot h hlimit hlimit').mp hfile
      -- without a parent the relative path is empty
      have hempty : p = ⟨[]⟩ := by
        rcases (Path.parent?_eq_none_iff p).mp hp with hc | hc
        · exact (Path.components_eq_nil_iff p).mp hc
        · exact absurd ((Path.absolute_iff_head? p).mpr (by rw [hc]; rfl)) h.relative
      have hsolid : p'.solid = root.solid := by
        rw [h.solid, hempty]
        exact List.append_nil _
      rw [find?_absent hfile hp, find?_above hroot hclear h.absolute hsolid hfile']
      exact .none
  | up p q hp ih =>
    by_cases hfile : RegularFile fs (candidate p)
    · exact find?_beneath_of_regularFile hroot h hlimit hlimit' hfile
    · have hfile' := mt (regularFile_beneath hroot h hlimit hlimit').mp hfile
      have hq := (size_candidate_parent? hp).trans_lt hlimit
      rw [find?_up hfile hp]
      by_cases hsolid : p.solid = []
      · -- a dot is dropped, and the absolute search stays where it is
        obtain ⟨-, -, rfl⟩ : p.solid = [] ∧ p.anchor = .dot ∧ q = ⟨[]⟩ :=
          (Path.parent?_cases hp).resolve_left fun ⟨hne, _⟩ => hne hsolid
        exact ih ⟨by decide, h.absolute, by rw [h.solid, hsolid]; rfl⟩ hq hlimit'
      · obtain ⟨q', hp', hbeneath⟩ := h.parent? hp hsolid
        rw [find?_up hfile' hp']
        exact ih hbeneath hq ((size_candidate_parent? hp').trans_lt hlimit')

/-! ### The same settings -/

section

variable {syntaxError : List Char → String}

theorem sameOutcome_load {fs : Files} {file file' : Path} (h : fs.read file' = fs.read file) :
    SameOutcome (load syntaxError fs file).1 (load syntaxError fs file').1 := by
  unfold load Files.readText
  rw [h]
  cases fs.read file with
  | error cause => exact .unreadable _ _ _
  | ok content =>
    cases hd : Utf8.decode? content with
    | none =>
      simp only [hd]
      exact .unreadable _ _ _
    | some text =>
      simp only [hd]
      cases ht : ofText syntaxError text with
      | ok s => exact .settings s
      | error fault =>
        obtain ⟨reason, rfl⟩ := eq_invalidSettings_of_ofText ht
        exact .invalid reason

theorem sameOutcome_discover {start start' : Path}
    (h : Option.Rel (SameFile fs root) (find? fs start) (find? fs start')) :
    SameOutcome (discover syntaxError fs start).1 (discover syntaxError fs start').1 := by
  unfold discover
  generalize find? fs start = found at h
  generalize find? fs start' = found' at h
  cases h with
  | some hsame => exact sameOutcome_load hsame.read
  | none => exact .settings .default

end

/-- The absolute path for a relative one: it is written behind the root, or it is the root if the
relative one is empty. -/
theorem beneath_child (hroot : fs.NamesWorking root) {start whole : Path} (hstart : ¬ start.Absolute)
    (hwhole : whole = root.child start.text ∨ start.text = [] ∧ whole = root) :
    Beneath root start whole ∧
      Utf8.size (candidate start).text ≤ Utf8.size (candidate whole).text := by
  rcases hwhole with rfl | ⟨hempty, rfl⟩
  · refine ⟨⟨hstart, ?_, root.solid_child_text start.text⟩,
      size_candidate_of_isInfix (root.text_isSuffix_child start.text).isInfix⟩
    obtain ⟨rest, hrest⟩ := root.text_isPrefix_child start.text
    have habs : root.text.head? = some '/' := hroot.absolute
    rw [Path.Absolute, ← hrest, List.head?_append, habs]
    rfl
  · refine ⟨⟨hstart, hroot.absolute, ?_⟩, size_candidate_of_isInfix ?_⟩
    · have hsolid : start.solid = [] := by
        rw [Path.solid, Path.segments, hempty]
        rfl
      rw [hsolid, List.append_nil]
    · rw [hempty]
      exact List.nil_infix

/-- **Relative and absolute searches agree.** If no directory above the working directory has a
settings file, and no candidate reaches the path limit, the search from a relative path finds
nothing iff the one from the absolute path does; otherwise both find the same file, the absolute
one with the components of the working directory in front and without the dot. So both discover
the same settings, or fail alike. -/
theorem discover_relative (syntaxError : List Char → String) {start whole : Path}
    (hroot : fs.NamesWorking root)
    (hclear : ClearAbove fs (fs.location root)) (hstart : ¬ start.Absolute)
    (hwhole : whole = root.child start.text ∨ start.text = [] ∧ whole = root)
    (hlimit : Utf8.size (candidate whole).text < FileSystem.pathLimit) :
    Option.Rel (SameFile fs root) (find? fs start) (find? fs whole) ∧
      SameOutcome (discover syntaxError fs start).1 (discover syntaxError fs whole).1 := by
  obtain ⟨hbeneath, hsize⟩ := beneath_child hroot hstart hwhole
  have hfound := find?_beneath hroot hclear hbeneath (hsize.trans_lt hlimit) hlimit
  exact ⟨hfound, sameOutcome_discover hfound⟩

/-- A tree whose working directory is `w/d`, with a settings file there that is no text, and one
in a directory beside it. -/
def workshop : FileSystem :=
  ⟨(FileTree.empty.addFile "w/d/biggie.toml".toList [0xff]).addFile
    "w/e/biggie.toml".toList [], ["w".toList, "d".toList]⟩

/-- In `workshop`, from `./a/./f//` the settings file in the working directory is found over a dot,
and from `/w/d/./a/./f//` by its names: it is the same file, and neither search can read it. -/
theorem discover_relative_dotted :
    let root : Path := ⟨"/w/d".toList⟩
    let start : Path := ⟨"./a/./f//".toList⟩
    let whole : Path := ⟨"/w/d/./a/./f//".toList⟩
    let said : List Char → String := fun _ => ""
    workshop.NamesWorking root ∧ ClearAbove workshop (workshop.location root) ∧
      whole = root.child start.text ∧ find? workshop start = some ⟨"./biggie.toml".toList⟩ ∧
      find? workshop whole = some ⟨"/w/d/biggie.toml".toList⟩ ∧
      SameFile workshop root ⟨"./biggie.toml".toList⟩ ⟨"/w/d/biggie.toml".toList⟩ ∧
      SameOutcome (discover said workshop start).1 (discover said workshop whole).1 := by
  intro root start whole said
  have hroot : workshop.NamesWorking root := ⟨by decide +kernel, _, rfl, _, rfl⟩
  have hclear : ClearAbove workshop (workshop.location root) := by
    have hlocation : workshop.location root = ["d".toList, "w".toList] := by decide +kernel
    intro l hl hne ⟨content, hholds⟩
    rw [hlocation, List.suffix_cons_iff, List.suffix_cons_iff, List.suffix_nil] at hl
    rcases hl with rfl | rfl | rfl
    · exact hne hlocation.symm
    · cases hholds
    · cases hholds
  have hwhole : whole = root.child start.text := by decide +kernel
  have hfound : find? workshop start = some ⟨"./biggie.toml".toList⟩ := by decide +kernel
  have hfound' : find? workshop whole = some ⟨"/w/d/biggie.toml".toList⟩ := by decide +kernel
  obtain ⟨hsame, houtcome⟩ :=
    discover_relative said hroot hclear (by decide) (.inl hwhole) (by decide +kernel)
  rw [hfound, hfound'] at hsame
  cases hsame with
  | some hsame => exact ⟨hroot, hclear, hwhole, hfound, hfound', hsame, houtcome⟩

end Settings

end SupportLayer
