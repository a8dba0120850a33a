/-
# Paths

A path is a text of segments parted by slashes. An empty segment and a single dot are no
components, except the dot in front of a relative path; two dots are a component like a
name, because going up is lexical here: the parent of a path is the path without its last
component, kept as it was written up to the component before.

Key definitions: `Path`, `Path.segments`, `Path.anchored`, `Path.components`, `Path.parent?`,
`Path.child`, `Path.walk`.
Key theorems: `Path.joined_segmentsOf`, `Path.ofAnchored_anchored`, `Path.parent?_shorter`.
-/
import SupportLayer.Text.Utf8

namespace SupportLayer

/-- A path, as the text it is written in. -/
structure Path where
  text : List Char
  deriving DecidableEq, Repr

namespace Path

/-- A stretch of a path between two slashes. -/
abbrev Segment := List Char

/-- The stretches of a text between slashes, of which there is one at least. -/
def segmentsOf : List Char → List Segment
  | [] => [[]]
  | c :: rest =>
    if c = '/' then [] :: segmentsOf rest
    else
      match segmentsOf rest with
      | [] => [[c]]
      | segment :: segments => (c :: segment) :: segments

/-- The text of segments with slashes between them. -/
def joined : List Segment → List Char
  | [] => []
  | [segment] => segment
  | segment :: segments => segment ++ '/' :: joined segments

/-- The segments of a path. -/
def segments (p : Path) : List Segment := segmentsOf p.text

/-- A segment that is no component. -/
def isIdle (s : Segment) : Bool := s = [] || s = ['.']

/-- What stands in front of the segments that make up a path: the root, a dot, or nothing. -/
inductive Anchor where
  | root | dot | none
  deriving DecidableEq, Repr

/-- The anchor of a path and the segments behind it. -/
def anchored (p : Path) : Anchor × List Segment :=
  match p.segments with
  | [] => (.none, [])
  | [only] => if only = ['.'] then (.dot, []) else (.none, [only])
  | first :: rest =>
    if first = [] then (.root, rest)
    else if first = ['.'] then (.dot, rest)
    else (.none, first :: rest)

/-- The path of an anchor and the segments behind it. -/
def ofAnchored : Anchor → List Segment → Path
  | .root, segments => ⟨'/' :: joined segments⟩
  | .dot, segments => ⟨joined (['.'] :: segments)⟩
  | .none, segments => ⟨joined segments⟩

/-- A component: the root, a dot in front, two dots, or a name. -/
inductive Component where
  | root
  | current
  | up
  | name (s : Segment)
  deriving DecidableEq, Repr

/-- The component of a segment that is not idle. -/
def Component.ofSegment (s : Segment) : Component :=
  if s = ['.', '.'] then .up else .name s

/-- The component that an anchor is. -/
def Anchor.components : Anchor → List Component
  | .root => [.root]
  | .dot => [.current]
  | .none => []

/-- The components of a path. -/
def components (p : Path) : List Component :=
  p.anchored.1.components ++ (p.anchored.2.filter (!isIdle ·)).map Component.ofSegment

/-- Segments without the idle ones at their end. -/
def trimmed : List Segment → List Segment
  | [] => []
  | segment :: segments =>
    match trimmed segments with
    | [] => if isIdle segment then [] else [segment]
    | rest => segment :: rest

/-- The path without its last component. The root has no parent, nor has the empty path; the
parent of a single name, of two dots or of a dot is the empty path. -/
def parent? (p : Path) : Option Path :=
  match p.anchored with
  | (anchor, segments) =>
    match trimmed segments, anchor with
    | [], .dot => some ⟨[]⟩
    | [], _ => none
    | kept, _ => some (ofAnchored anchor (trimmed kept.dropLast))

/-- The path of a name in the directory of a path. -/
def child (p : Path) (name : List Char) : Path :=
  match p.text.getLast? with
  | none => ⟨name⟩
  | some c => if c = '/' then ⟨p.text ++ name⟩ else ⟨p.text ++ '/' :: name⟩

/-! ### A parent is shorter

Joined segments get no longer when some of them are dropped at the end, and shorter when one
of the dropped ones was not empty. -/

theorem segmentsOf_ne_nil (s : List Char) : segmentsOf s ≠ [] := by
  cases s with
  | nil => simp [segmentsOf]
  | cons c rest =>
    unfold segmentsOf
    split
    · simp
    · split <;> simp

theorem joined_segmentsOf : ∀ s : List Char, joined (segmentsOf s) = s
  | [] => rfl
  | c :: rest => by
    have ih := joined_segmentsOf rest
    unfold segmentsOf
    split
    · next h =>
      subst h
      cases hs : segmentsOf rest with
      | nil => exact absurd hs (segmentsOf_ne_nil rest)
      | cons a l => rw [hs] at ih; simp [joined, ih]
    · cases hs : segmentsOf rest with
      | nil => exact absurd hs (segmentsOf_ne_nil rest)
      | cons a l =>
        rw [hs] at ih
        cases l <;> simp_all [joined]

theorem trimmed_isPrefix : ∀ l : List Segment, trimmed l <+: l
  | [] => by simp [trimmed]
  | a :: l => by
    have ih := trimmed_isPrefix l
    unfold trimmed
    split
    · split
      · exact List.nil_prefix
      · exact ⟨l, rfl⟩
    · exact (List.cons_prefix_cons).2 ⟨rfl, ih⟩

theorem length_joined_cons (a : Segment) (l : List Segment) :
    (joined (a :: l)).length = a.length + (if l = [] then 0 else (joined l).length + 1) := by
  cases l <;> simp [joined]

theorem length_joined_le_of_prefix : ∀ {l m : List Segment}, l <+: m →
    (joined l).length ≤ (joined m).length
  | [], _, _ => by simp [joined]
  | a :: l, [], h => by simp at h
  | a :: l, b :: m, h => by
    obtain ⟨hab, hlm⟩ := List.cons_prefix_cons.1 h
    have ih := length_joined_le_of_prefix hlm
    rw [hab, length_joined_cons, length_joined_cons]
    by_cases hl : l = []
    · simp [hl]
    · have hm : m ≠ [] := by intro he; subst he; simp_all
      simp [hl, hm, ih]

theorem getLast_trimmed : ∀ (l : List Segment) (h : trimmed l ≠ []),
    isIdle ((trimmed l).getLast h) = false
  | [], h => by simp [trimmed] at h
  | a :: l, h => by
    cases hl : trimmed l with
    | nil =>
      cases ha : isIdle a with
      | true => exact absurd (by simp [trimmed, hl, ha]) h
      | false => simp [trimmed, hl, ha]
    | cons b m =>
      have hb : trimmed l ≠ [] := by simp [hl]
      have ih := getLast_trimmed l hb
      simp only [trimmed, hl]
      simp only [hl] at ih
      rw [List.getLast_cons (by simp)]
      exact ih

theorem length_joined_dropLast_lt : ∀ {l : List Segment} (h : l ≠ []),
    l.getLast h ≠ [] → (joined l.dropLast).length < (joined l).length
  | [], h, _ => absurd rfl h
  | [a], _, ha => by
    simp only [List.getLast_singleton] at ha
    simpa [joined] using List.length_pos_iff.2 ha
  | a :: b :: l, _, ha => by
    have hlast : (b :: l).getLast (by simp) ≠ [] := by simpa using ha
    have ih := length_joined_dropLast_lt (l := b :: l) (by simp) hlast
    rw [List.dropLast_cons_of_ne_nil (by simp), length_joined_cons, length_joined_cons]
    by_cases hd : (b :: l).dropLast = [] <;> simp [hd]
    omega

theorem joined_trimmed_dropLast_lt {l : List Segment} (h : trimmed l ≠ []) :
    (joined (trimmed (trimmed l).dropLast)).length < (joined l).length := by
  have hidle := getLast_trimmed l h
  have hne : (trimmed l).getLast h ≠ [] := by
    intro he; simp [he, isIdle] at hidle
  calc (joined (trimmed (trimmed l).dropLast)).length
      ≤ (joined (trimmed l).dropLast).length := length_joined_le_of_prefix (trimmed_isPrefix _)
    _ < (joined (trimmed l)).length := length_joined_dropLast_lt h hne
    _ ≤ (joined l).length := length_joined_le_of_prefix (trimmed_isPrefix l)

/-- The text of a path is that of its anchor and the segments behind it. -/
theorem ofAnchored_anchored (p : Path) : ofAnchored p.anchored.1 p.anchored.2 = p := by
  have hj := joined_segmentsOf p.text
  have hn := segmentsOf_ne_nil p.text
  unfold anchored segments
  split
  · next h => exact absurd h hn
  · next only h =>
    rw [h] at hj
    split
    · next ho => subst ho; exact congrArg Path.mk hj
    · exact congrArg Path.mk hj
  · next first rest hrest h =>
    rw [h] at hj
    have hr : rest ≠ [] := hrest
    split
    · next hf =>
      subst hf
      refine congrArg Path.mk ?_
      rw [← hj]
      cases rest with
      | nil => exact absurd rfl hr
      | cons a l => rfl
    · split
      · next hf => subst hf; exact congrArg Path.mk hj
      · exact congrArg Path.mk hj

theorem parent?_shorter {p q : Path} (h : p.parent? = some q) : q.text.length < p.text.length := by
  have hp := ofAnchored_anchored p
  generalize ha : p.anchored = x at hp
  obtain ⟨anchor, l⟩ := x
  unfold parent? at h
  rw [ha] at h
  simp only at h
  have key : ∀ hne : trimmed l ≠ [],
      (ofAnchored anchor (trimmed (trimmed l).dropLast)).text.length < p.text.length := by
    intro hne
    have hlt := joined_trimmed_dropLast_lt hne
    have hl : l ≠ [] := by intro he; subst he; simp [trimmed] at hne
    rw [← hp]
    cases anchor with
    | root => simpa [ofAnchored] using hlt
    | none => simpa [ofAnchored] using hlt
    | dot =>
      simp only [ofAnchored]
      rw [length_joined_cons, length_joined_cons, if_neg hl]
      split <;> omega
  split at h
  · cases h
    rw [← hp]
    simp only [ofAnchored, length_joined_cons, List.length_nil, List.length_cons]
    omega
  · simp at h
  · next kept _ hne =>
    cases h
    exact key (fun he => by simp_all)

/-- A path and the paths above it, nearest first. -/
def walk (p : Path) : List Path :=
  match h : p.parent? with
  | some q =>
    have := parent?_shorter h
    p :: walk q
  | none => [p]
termination_by p.text.length

end Path

end SupportLayer
