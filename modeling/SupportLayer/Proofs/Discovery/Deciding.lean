/-
# One file decides

The walk up looks at one candidate after the other and stops at the first that is a regular file.
What is answered and logged is then what reading that file gives: its settings, or the fault that
it cannot be read or makes no sense, which no file further up and no default makes good. So two
file systems in which the same candidates are files, up to that one, and in which it has the same
content, are not told apart.

Key definitions: `Settings.tried`, `Settings.SameSearch`, `Settings.DecidedBy`.
Key theorems: `Settings.find?_congr`, `Settings.decidedBy_load`, `Settings.discover_decided`.
-/
import Mathlib
import SupportLayer.Discovery
import SupportLayer.FileTree
import SupportLayer.Proofs.Text.Utf8

namespace SupportLayer.Settings

/-- The items of a list up to the first that passes a test, and with it. -/
def upTo {α : Type} (test : α → Bool) : List α → List α
  | [] => []
  | a :: rest => if test a then [a] else a :: upTo test rest

/-- The candidates that are looked at from `start` on: up to the first that is a regular file, or
all of them if none is. -/
def tried (fs : Files) (start : Path) : List Path :=
  upTo fs.isFile (start.walk.map candidate)

/-- The other file system has the same files among the candidates looked at, and the same content
in the one that is found. -/
structure SameSearch (fs fs' : Files) (start : Path) : Prop where
  files : ∀ c ∈ tried fs start, fs'.isFile c = fs.isFile c
  content : ∀ file, find? fs start = some file → fs'.read file = fs.read file

/-- What is answered and logged is decided by a file: its text gives the settings or the fault; if
it has no text, the fault says so. Settings are logged with the file, a fault is not logged. -/
structure DecidedBy (syntaxError : List Char → String) (fs : Files) (file : Path)
    (result : Except Fault Settings × List LogRecord) : Prop where
  text : ∀ text, fs.read file = .ok (Utf8.encode text) → result.1 = ofText syntaxError text
  noText : (¬ ∃ text, fs.read file = .ok (Utf8.encode text)) →
    ∃ reason, result.1 = .error (.unreadableSettings (String.ofList file.text) reason)
  logged : ∀ s, result.1 = .ok s →
    result.2 = [.settingsLoaded (String.ofList file.text) s.dialect.label]
  silent : ∀ fault, result.1 = .error fault → result.2 = [] ∧ fault.status = .config

variable {syntaxError : List Char → String}

/-! ### The search -/

theorem find?_eq_of_upTo {α : Type} {p q : α → Bool} :
    ∀ l : List α, (∀ a ∈ upTo p l, q a = p a) → l.find? q = l.find? p
  | [], _ => rfl
  | a :: rest, h => by
    unfold upTo at h
    by_cases hp : p a
    · have hq : q a = p a := h a (by simp [hp])
      rw [List.find?_cons_of_pos hp, List.find?_cons_of_pos (hq.trans hp)]
    · rw [if_neg hp] at h
      obtain ⟨hq, hrest⟩ := List.forall_mem_cons.mp h
      rw [List.find?_cons_of_neg hp, List.find?_cons_of_neg (hq ▸ hp),
        find?_eq_of_upTo rest hrest]

theorem find?_congr {fs fs' : Files} {start : Path}
    (h : ∀ c ∈ tried fs start, fs'.isFile c = fs.isFile c) : find? fs' start = find? fs start :=
  find?_eq_of_upTo _ h

/-! ### The file -/

theorem readText_eq_ok_iff {fs : Files} {file : Path} {text : List Char} :
    fs.readText file = .ok text ↔ fs.read file = .ok (Utf8.encode text) := by
  unfold Files.readText
  cases fs.read file with
  | error cause => simp only [reduceCtorEq]
  | ok content =>
    rw [Except.ok.injEq, ← Utf8.decode?_eq_some_iff]
    dsimp only
    cases Utf8.decode? content <;> simp only [reduceCtorEq, Except.ok.injEq, Option.some.injEq]

theorem eq_invalidSettings_of_ofText {text : List Char} {fault : Fault}
    (h : ofText syntaxError text = .error fault) : ∃ reason, fault = .invalidSettings reason := by
  unfold ofText at h
  split at h
  · cases h
    exact ⟨_, rfl⟩
  · split at h
    · cases h
    · cases h
      exact ⟨_, rfl⟩

theorem status_of_ofText {text : List Char} {fault : Fault} (h : ofText syntaxError text = .error fault) :
    fault.status = .config := by
  obtain ⟨reason, rfl⟩ := eq_invalidSettings_of_ofText h
  rfl

/-- What a file gives is decided by its content. -/
theorem decidedBy_load (fs : Files) (file : Path) :
    DecidedBy syntaxError fs file (load syntaxError fs file) := by
  cases h : fs.readText file with
  | error cause =>
    have hload : load syntaxError fs file =
        (.error (.unreadableSettings (String.ofList file.text) cause.text), []) := by
      simp only [load, h]
    have hnone : ∀ text, fs.read file ≠ .ok (Utf8.encode text) := by
      intro text htext
      rw [readText_eq_ok_iff.mpr htext] at h
      cases h
    rw [hload]
    refine ⟨fun text htext => absurd htext (hnone text), fun _ => ⟨_, rfl⟩, fun _ hs => ?_,
      fun _ hfault => ?_⟩
    · cases hs
    · cases hfault
      exact ⟨rfl, rfl⟩
  | ok text =>
    have hread := readText_eq_ok_iff.mp h
    have hsame : ∀ text', fs.read file = .ok (Utf8.encode text') → text' = text := by
      intro text' h'
      rw [← readText_eq_ok_iff, h] at h'
      exact (Except.ok.inj h').symm
    have hfst : (load syntaxError fs file).1 = ofText syntaxError text := by
      simp only [load, h]
      split <;> simp_all only
    refine ⟨fun text' h' => hsame text' h' ▸ hfst, fun hnone => absurd ⟨text, hread⟩ hnone,
      fun s hs => ?_, fun fault hfault => ?_⟩
    · rw [hfst] at hs
      simp only [load, h, hs]
    · rw [hfst] at hfault
      simp only [load, h, hfault, true_and]
      exact status_of_ofText hfault

theorem load_congr {fs fs' : Files} {file : Path} (h : fs'.read file = fs.read file) :
    load syntaxError fs' file = load syntaxError fs file := by
  simp only [load, Files.readText, h]

/-! ### Both together -/

/-- **Only the file that is found counts.** Without one the defaults hold, and that is logged;
otherwise what is answered and logged is decided by the file alone, so nothing else in a file
system makes a difference. -/
theorem discover_decided (syntaxError : List Char → String) (fs : Files) (start : Path) :
    (find? fs start = none →
      discover syntaxError fs start = (.ok .default, [.settingsAbsent (String.ofList start.text)])) ∧
    (∀ file, find? fs start = some file →
      discover syntaxError fs start = load syntaxError fs file ∧
        DecidedBy syntaxError fs file (discover syntaxError fs start)) ∧
    ∀ fs', SameSearch fs fs' start →
      discover syntaxError fs' start = discover syntaxError fs start := by
  refine ⟨fun h => ?absent, fun file h => ?found, fun fs' h => ?same⟩
  case absent => simp only [discover, h]
  case found =>
    have hload : discover syntaxError fs start = load syntaxError fs file := by
      simp only [discover, h]
    exact ⟨hload, hload ▸ decidedBy_load fs file⟩
  case same =>
    unfold discover
    rw [find?_congr h.files]
    split
    · next file hfile => exact load_congr (h.content file hfile)
    · rfl

/-- A settings file in the root, whatever it holds, and one in `p` that is no text. -/
def shadowing (outer : Bytes) : FileSystem :=
  ⟨(FileTree.empty.addFile "biggie.toml".toList outer).addFile "p/biggie.toml".toList [0xff], []⟩

/-- A system in which the settings file in `p` may not be read, and another one lies in the root. -/
def locked : Files where
  isFile path := path = ⟨"p/biggie.toml".toList⟩ ∨ path = ⟨"biggie.toml".toList⟩
  read path := if path = ⟨"biggie.toml".toList⟩ then .ok [] else .error (.system 13)

/-- From `p`, the file in `p` decides: it is no text, and neither the settings in the root nor the
defaults stand in for it, so it makes no difference what the root holds. A file that may not be
read decides as well. In the empty tree the defaults hold. -/
theorem discover_decided_shadowing :
    let file : Path := ⟨"p/biggie.toml".toList⟩
    let fs := shadowing (Utf8.encode "[runtime]\n".toList)
    let empty : FileSystem := ⟨.empty, []⟩
    let said : List Char → String := fun _ => ""
    find? fs ⟨['p']⟩ = some file ∧
      (∃ reason, discover said fs ⟨['p']⟩ =
        (.error (.unreadableSettings "p/biggie.toml" reason), [])) ∧
      SameSearch fs (shadowing []) ⟨['p']⟩ ∧
      discover said (shadowing []) ⟨['p']⟩ = discover said fs ⟨['p']⟩ ∧
      (∃ reason, discover said locked ⟨['p']⟩ =
        (.error (.unreadableSettings "p/biggie.toml" reason), [])) ∧
      find? empty ⟨['p']⟩ = none ∧
      discover said empty ⟨['p']⟩ = (.ok .default, [.settingsAbsent "p"]) := by
  intro file fs empty said
  have hfound : find? fs ⟨['p']⟩ = some file := by decide +kernel
  have hread : fs.read file = .ok [0xff] := rfl
  have hnone : find? empty ⟨['p']⟩ = none := by decide +kernel
  have hlocked : find? locked ⟨['p']⟩ = some file := by decide +kernel
  have hsame : SameSearch fs (shadowing []) ⟨['p']⟩ := by
    refine ⟨by decide +kernel, fun found h => ?_⟩
    rw [hfound] at h
    cases h
    rfl
  obtain ⟨-, hdecided⟩ := (discover_decided said fs ⟨['p']⟩).2.1 file hfound
  have hnoText : ¬ ∃ text, fs.read file = .ok (Utf8.encode text) := by
    rintro ⟨text, htext⟩
    rw [hread, Except.ok.injEq] at htext
    have hdecode := Utf8.decode?_eq_some_iff.mpr htext
    have : Utf8.decode? [0xff] = none := by decide +kernel
    rw [this] at hdecode
    cases hdecode
  obtain ⟨reason, hreason⟩ := hdecided.noText hnoText
  obtain ⟨-, hdecided'⟩ := (discover_decided said locked ⟨['p']⟩).2.1 file hlocked
  obtain ⟨reason', hreason'⟩ := hdecided'.noText (by rintro ⟨text, ⟨⟩⟩)
  exact ⟨hfound, ⟨reason, Prod.ext hreason (hdecided.silent _ hreason).1⟩, hsame,
    (discover_decided said fs ⟨['p']⟩).2.2 _ hsame,
    ⟨reason', Prod.ext hreason' (hdecided'.silent _ hreason').1⟩, hnone,
    (discover_decided said _ _).1 hnone⟩

end SupportLayer.Settings
