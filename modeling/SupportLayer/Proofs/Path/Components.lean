/-
# Components of paths

A slash parts the segments of a text (`segmentsOf_append_slash`), and of the segments only the
solid ones, those that are not idle, are components. So a path is told by its anchor and its
solid segments: the parent keeps the anchor and drops the last of them, or drops the dot in
front if there is none left, and a name in a directory adds one.

Key definitions: `Path.anchor`, `Path.solid`, `Path.Absolute`.
Key theorems: `Path.segmentsOf_append_slash`, `Path.mem_text_iff`, `Path.components_eq`,
`Path.parent?_cases`, `Path.components_parent?`, `Path.parent?_eq_none_iff`, `Path.text_parent?`,
`Path.segments_child_text`, `Path.components_child`, `Path.components_prefix_of_mem_walk`.
-/
import Mathlib
import SupportLayer.Path

namespace SupportLayer.Path

/-! ### Segments -/

theorem segmentsOf_append_slash (s t : List Char) :
    segmentsOf (s ++ '/' :: t) = segmentsOf s ++ segmentsOf t := by
  induction s with
  | nil => simp [segmentsOf]
  | cons c s ih =>
    by_cases hc : c = '/'
    · simp [segmentsOf, hc, ih]
    · obtain ⟨a, l, hs⟩ := List.exists_cons_of_ne_nil (segmentsOf_ne_nil s)
      rw [List.cons_append, segmentsOf, segmentsOf, if_neg hc, if_neg hc, ih, hs]
      rfl

theorem segmentsOf_of_notMem {s : List Char} (h : '/' ∉ s) : segmentsOf s = [s] := by
  induction s with
  | nil => rfl
  | cons c s ih =>
    simp only [List.mem_cons, not_or] at h
    rw [segmentsOf, if_neg (Ne.symm h.1), ih h.2]

theorem notMem_of_mem_segmentsOf {s : List Char} {a : Segment} (h : a ∈ segmentsOf s) :
    '/' ∉ a := by
  induction s generalizing a with
  | nil => simp_all [segmentsOf]
  | cons c s ih =>
    obtain ⟨b, l, hs⟩ := List.exists_cons_of_ne_nil (segmentsOf_ne_nil s)
    rw [hs] at ih
    by_cases hc : c = '/'
    · rw [hc, segmentsOf, if_pos rfl, hs] at h
      rcases List.mem_cons.mp h with rfl | h
      · simp
      · exact ih h
    · rw [segmentsOf, if_neg hc, hs] at h
      rcases List.mem_cons.mp h with rfl | h
      · simpa [Ne.symm hc] using ih List.mem_cons_self
      · exact ih (List.mem_cons_of_mem _ h)

theorem segmentsOf_joined {l : List Segment} (hne : l ≠ []) (hl : ∀ a ∈ l, '/' ∉ a) :
    segmentsOf (joined l) = l := by
  induction l with
  | nil => exact absurd rfl hne
  | cons a l ih =>
    have ha := segmentsOf_of_notMem (hl a List.mem_cons_self)
    cases l with
    | nil => exact ha
    | cons b l =>
      rw [joined, segmentsOf_append_slash, ha, ih (by simp) fun x hx => hl x (List.mem_cons_of_mem a hx)]
      · rfl
      · simp

/-! ### Solid segments -/

/-- What stands in front of the segments of a path. -/
def anchor (p : Path) : Anchor := p.anchored.1

/-- The segments of a path that are not idle. -/
def solid (p : Path) : List Segment := p.segments.filter (!isIdle ·)

/-- The path starts at the root. -/
def Absolute (p : Path) : Prop := p.text.head? = some '/'

instance (p : Path) : Decidable p.Absolute := inferInstanceAs (Decidable (_ = _))

theorem filter_segmentsOf_joined {l : List Segment} (hl : ∀ a ∈ l, '/' ∉ a) :
    (segmentsOf (joined l)).filter (!isIdle ·) = l.filter (!isIdle ·) := by
  cases l with
  | nil => rfl
  | cons a l => rw [segmentsOf_joined (by simp) hl]

theorem mem_joined_iff {c : Char} (hc : c ≠ '/') {l : List Segment} :
    c ∈ joined l ↔ ∃ a ∈ l, c ∈ a := by
  induction l with
  | nil => simp [joined]
  | cons a l ih =>
    rw [List.exists_mem_cons_iff, ← ih]
    cases l with
    | nil => simp [joined]
    | cons b l =>
      show c ∈ a ++ '/' :: joined (b :: l) ↔ _
      rw [List.mem_append, List.mem_cons, or_iff_right hc]

/-- A character that parts no segments and makes none idle is in a path iff it is in a solid
segment. -/
theorem mem_text_iff (p : Path) {c : Char} (hslash : c ≠ '/') (hdot : c ≠ '.') :
    c ∈ p.text ↔ ∃ s ∈ p.solid, c ∈ s := by
  rw [← joined_segmentsOf p.text, mem_joined_iff hslash]
  constructor
  · rintro ⟨s, hs, hc⟩
    have hsolid : isIdle s = false := by
      have hnil : s ≠ [] := List.ne_nil_of_mem hc
      have hone : s ≠ ['.'] := fun h => hdot (List.mem_singleton.mp (h ▸ hc))
      simp [isIdle, hnil, hone]
    exact ⟨s, List.mem_filter.mpr ⟨hs, by simp [hsolid]⟩, hc⟩
  · rintro ⟨s, hs, hc⟩
    exact ⟨s, (List.mem_filter.mp hs).1, hc⟩

/-- The ways in which a path starts. -/
theorem anchored_cases (p : Path) :
    (∃ rest, p.text = '/' :: rest ∧ p.anchored = (.root, segmentsOf rest)) ∨
    (p.text = ['.'] ∧ p.anchored = (.dot, [])) ∨
    (∃ rest, p.text = '.' :: '/' :: rest ∧ p.anchored = (.dot, segmentsOf rest)) ∨
    (¬ p.Absolute ∧ p.segments.head? ≠ some ['.'] ∧ p.anchored = (.none, p.segments)) := by
  obtain ⟨text⟩ := p
  unfold Absolute anchored segments
  cases text with
  | nil => exact .inr (.inr (.inr ⟨by simp, by simp [segmentsOf], rfl⟩))
  | cons c s =>
    by_cases hc : c = '/'
    · refine .inl ⟨s, by rw [hc], ?_⟩
      obtain ⟨a, l, hs⟩ := List.exists_cons_of_ne_nil (segmentsOf_ne_nil s)
      simp [segmentsOf, hc, hs]
    · obtain ⟨a, l, hs⟩ := List.exists_cons_of_ne_nil (segmentsOf_ne_nil s)
      have hj := joined_segmentsOf s
      simp only [segmentsOf, if_neg hc, hs]
      by_cases hd : c :: a = ['.']
      · obtain ⟨rfl, rfl⟩ := List.cons_eq_cons.mp hd
        refine .inr ?_
        cases l with
        | nil =>
          rw [hs] at hj
          exact .inl ⟨by rw [← hj]; rfl, by simp⟩
        | cons b l =>
          rw [hs] at hj
          have hrest : segmentsOf (joined (b :: l)) = b :: l :=
            segmentsOf_joined (by simp) fun x hx =>
              notMem_of_mem_segmentsOf (s := s) (by rw [hs]; exact List.mem_cons_of_mem _ hx)
          exact .inr (.inl ⟨joined (b :: l), by rw [← hj]; rfl, by simp [hrest]⟩)
      · refine .inr (.inr (.inr ⟨by simp [hc], by simpa using hd, ?_⟩))
        cases l with
        | nil => simp [hd]
        | cons b l => simp [hd]

theorem anchor_eq (p : Path) :
    p.anchor =
      if p.Absolute then .root else if p.segments.head? = some ['.'] then .dot else .none := by
  unfold anchor
  rcases p.anchored_cases with ⟨rest, ht, ha⟩ | ⟨ht, ha⟩ | ⟨rest, ht, ha⟩ | ⟨ht, hhead, ha⟩
  · simp [ha, Absolute, ht]
  · simp [ha, Absolute, ht, segments, segmentsOf]
  · have hseg : p.segments = ['.'] :: segmentsOf rest := by
      rw [segments, ht]
      exact segmentsOf_append_slash ['.'] rest
    simp [ha, Absolute, ht, hseg]
  · rw [ha, if_neg ht, if_neg hhead]

theorem anchor_eq_root_iff (p : Path) : p.anchor = .root ↔ p.Absolute := by
  rw [anchor_eq]
  by_cases h : p.Absolute
  · simp [h]
  · by_cases hd : p.segments.head? = some ['.'] <;> simp [h, hd]

theorem filter_anchored (p : Path) : p.anchored.2.filter (!isIdle ·) = p.solid := by
  unfold solid segments
  rcases p.anchored_cases with ⟨rest, ht, ha⟩ | ⟨ht, ha⟩ | ⟨rest, ht, ha⟩ | ⟨ht, -, ha⟩
  · rw [ha, ht, show '/' :: rest = [] ++ '/' :: rest from rfl, segmentsOf_append_slash]
    rfl
  · rw [ha, ht]
    rfl
  · rw [ha, ht, show '.' :: '/' :: rest = ['.'] ++ '/' :: rest from rfl, segmentsOf_append_slash]
    rfl
  · rw [ha]
    rfl

/-- The components of a path are its anchor and its solid segments. -/
theorem components_eq (p : Path) :
    p.components = p.anchor.components ++ p.solid.map Component.ofSegment := by
  rw [← filter_anchored]
  rfl

/-! ### Parents -/

theorem filter_trimmed (l : List Segment) :
    (trimmed l).filter (!isIdle ·) = l.filter (!isIdle ·) := by
  induction l with
  | nil => rfl
  | cons a l ih =>
    unfold trimmed
    cases hl : trimmed l with
    | nil =>
      rw [hl] at ih
      by_cases ha : isIdle a <;> simp [ha, ← ih]
    | cons b m =>
      rw [hl] at ih
      simp only [List.filter_cons, ← ih]

/-- The segments without the last solid one, and without the idle ones around it. -/
def above (l : List Segment) : List Segment := trimmed (trimmed l).dropLast

theorem above_isPrefix (l : List Segment) : above l <+: l :=
  (trimmed_isPrefix _).trans ((List.dropLast_prefix _).trans (trimmed_isPrefix l))

theorem filter_above (l : List Segment) :
    (above l).filter (!isIdle ·) = (l.filter (!isIdle ·)).dropLast := by
  unfold above
  rw [filter_trimmed, ← filter_trimmed l]
  by_cases h : trimmed l = []
  · rw [h]
    rfl
  · have hlast := getLast_trimmed l h
    conv_rhs => rw [← List.dropLast_append_getLast h, List.filter_append]
    simp [hlast]

theorem trimmed_eq_nil_iff {l : List Segment} : trimmed l = [] ↔ l.filter (!isIdle ·) = [] := by
  rw [← filter_trimmed]
  constructor
  · intro h
    rw [h]
    rfl
  · intro h
    by_contra hne
    have hlast := getLast_trimmed l hne
    have hmem := List.getLast_mem hne
    have : (trimmed l).getLast hne ∈ (trimmed l).filter (!isIdle ·) :=
      List.mem_filter.mpr ⟨hmem, by simp [hlast]⟩
    rw [h] at this
    cases this

/-- A path made of an anchor and segments has that anchor and those segments, unless the
segments would be taken for an anchor. -/
theorem ofAnchored_solid {a : Anchor} {l : List Segment} (hl : ∀ x ∈ l, '/' ∉ x)
    (ha : a = .none → l.head? ≠ some [] ∧ l.head? ≠ some ['.']) :
    (ofAnchored a l).anchor = a ∧ (ofAnchored a l).solid = l.filter (!isIdle ·) := by
  have key : ∀ {x : Anchor} {m : List Segment}, (ofAnchored a l).anchored = (x, m) →
      m.filter (!isIdle ·) = l.filter (!isIdle ·) →
      (ofAnchored a l).anchor = x ∧ (ofAnchored a l).solid = l.filter (!isIdle ·) := by
    intro x m hx hm
    rw [← filter_anchored, anchor, hx]
    exact ⟨rfl, hm⟩
  cases a with
  | root =>
    rcases (ofAnchored .root l).anchored_cases with ⟨rest, ht, hx⟩ | ⟨ht, -⟩ | ⟨rest, ht, -⟩ | ⟨ht, -⟩
    · cases ht
      exact key hx (filter_segmentsOf_joined hl)
    · simp [ofAnchored] at ht
    · simp [ofAnchored] at ht
    · simp [ofAnchored, Absolute] at ht
  | dot =>
    cases l with
    | nil => exact key rfl rfl
    | cons b l =>
      rcases (ofAnchored .dot (b :: l)).anchored_cases with
        ⟨rest, ht, -⟩ | ⟨ht, -⟩ | ⟨rest, ht, hx⟩ | ⟨-, ht, -⟩
      · simp [ofAnchored, joined] at ht
      · simp [ofAnchored, joined] at ht
      · have hrest : joined (b :: l) = rest := by simpa [ofAnchored, joined] using ht
        subst hrest
        exact key hx (filter_segmentsOf_joined hl)
      · have hs : (ofAnchored .dot (b :: l)).segments = ['.'] :: segmentsOf (joined (b :: l)) :=
          segmentsOf_append_slash ['.'] _
        rw [hs] at ht
        exact absurd rfl ht
  | none =>
    obtain ⟨hnil, hdot⟩ := ha rfl
    have hx : (ofAnchored .none l).anchored = (.none, segmentsOf (joined l)) := by
      have hhead : (segmentsOf (joined l)).head? ≠ some ['.'] := by
        cases l with
        | nil => simp [joined, segmentsOf]
        | cons b l => rwa [segmentsOf_joined (by simp) hl]
      have habs : ¬ (ofAnchored .none l).Absolute := by
        cases l with
        | nil => simp [Absolute, ofAnchored, joined]
        | cons b l =>
          cases b with
          | nil => exact absurd rfl hnil
          | cons c b =>
            have hc := hl (c :: b) List.mem_cons_self
            intro h
            cases l <;> simp_all [Absolute, ofAnchored, joined]
      rcases (ofAnchored .none l).anchored_cases with ⟨rest, ht, -⟩ | ⟨ht, -⟩ | ⟨rest, ht, -⟩ | ⟨-, -, hx⟩
      · exact absurd (congrArg List.head? ht) habs
      · have : (segmentsOf (joined l)).head? = some ['.'] := by
          rw [show joined l = ['.'] from ht]
          rfl
        exact absurd this hhead
      · have : (segmentsOf (joined l)).head? = some ['.'] := by
          rw [show joined l = ['.'] ++ '/' :: rest from ht, segmentsOf_append_slash]
          rfl
        exact absurd this hhead
      · exact hx
    exact key hx (filter_segmentsOf_joined hl)

theorem notMem_of_mem_anchored {p : Path} {x : Segment} (h : x ∈ p.anchored.2) : '/' ∉ x := by
  rcases p.anchored_cases with ⟨rest, -, ha⟩ | ⟨-, ha⟩ | ⟨rest, -, ha⟩ | ⟨-, -, ha⟩ <;>
    rw [ha] at h
  · exact notMem_of_mem_segmentsOf h
  · cases h
  · exact notMem_of_mem_segmentsOf h
  · exact notMem_of_mem_segmentsOf h

/-- Behind no anchor, the segments above start with none that would be taken for one. -/
theorem head?_above_ne {p : Path} (h : p.anchor = .none) :
    (above p.anchored.2).head? ≠ some [] ∧ (above p.anchored.2).head? ≠ some ['.'] := by
  rcases p.anchored_cases with ⟨rest, -, ha⟩ | ⟨-, ha⟩ | ⟨rest, -, ha⟩ | ⟨habs, hdot, ha⟩ <;>
    simp only [anchor, ha, reduceCtorEq] at h
  rw [ha]
  cases habove : above p.segments with
  | nil => simp
  | cons b l =>
    have hb : p.segments.head? = some b := by
      obtain ⟨rest, hrest⟩ := above_isPrefix p.segments
      rw [← hrest, habove]
      rfl
    refine ⟨fun hnil => ?_, fun hb' => hdot (hb.trans hb')⟩
    obtain rfl : b = [] := by simpa using hnil
    obtain ⟨text⟩ := p
    cases text with
    | nil => cases habove
    | cons c s =>
      have hc : c ≠ '/' := fun hc => habs (congrArg some hc)
      obtain ⟨a, m, hs⟩ := List.exists_cons_of_ne_nil (segmentsOf_ne_nil s)
      simp [segments, segmentsOf, hc, hs] at hb

/-- The parent of a path keeps its anchor and loses its last solid segment; a dot by itself has
the empty path for a parent. -/
theorem parent?_cases {p q : Path} (h : p.parent? = some q) :
    (p.solid ≠ [] ∧ q = ofAnchored p.anchor (above p.anchored.2) ∧ q.anchor = p.anchor ∧
      q.solid = p.solid.dropLast) ∨
    (p.solid = [] ∧ p.anchor = .dot ∧ q = ⟨[]⟩) := by
  have hsolid := trimmed_eq_nil_iff (l := p.anchored.2)
  rw [filter_anchored] at hsolid
  by_cases ht : trimmed p.anchored.2 = []
  · refine .inr ⟨hsolid.mp ht, ?_⟩
    unfold parent? at h
    simp only [ht] at h
    unfold anchor
    cases ha : p.anchored.1 <;> simp_all
  · have hq : q = ofAnchored p.anchor (above p.anchored.2) := by
      unfold parent? at h
      simp only at h
      split at h
      · next he _ => exact absurd he ht
      · next he _ => exact absurd he ht
      · exact (Option.some.inj h).symm
    have hl : ∀ x ∈ above p.anchored.2, '/' ∉ x := fun x hx =>
      notMem_of_mem_anchored ((above_isPrefix _).subset hx)
    obtain ⟨hanchor, hrest⟩ := ofAnchored_solid hl (a := p.anchor) head?_above_ne
    refine .inl ⟨mt hsolid.mpr ht, hq, hq ▸ hanchor, ?_⟩
    rw [hq, hrest, filter_above, filter_anchored]

theorem absolute_parent? {p q : Path} (h : p.parent? = some q) : q.Absolute ↔ p.Absolute := by
  rw [← anchor_eq_root_iff, ← anchor_eq_root_iff]
  rcases parent?_cases h with ⟨-, -, hanchor, -⟩ | ⟨-, hanchor, rfl⟩
  · rw [hanchor]
  · rw [hanchor]
    decide

theorem components_parent? {p q : Path} (h : p.parent? = some q) :
    p.components ≠ [] ∧ q.components = p.components.dropLast := by
  rcases parent?_cases h with ⟨hne, -, hanchor, hsolid⟩ | ⟨hs, hanchor, rfl⟩
  · rw [components_eq, components_eq, hanchor, hsolid, List.map_dropLast]
    refine ⟨by simp [hne], ?_⟩
    rw [List.dropLast_append_of_ne_nil (by simpa using hne)]
  · rw [components_eq p, hs, hanchor]
    exact ⟨by simp [Anchor.components], rfl⟩

theorem ofSegment_ne_root (s : Segment) : Component.ofSegment s ≠ .root := by
  unfold Component.ofSegment
  split <;> simp

/-- Names are told by their components. -/
theorem eq_of_map_ofSegment {l m : List Segment} (h : l.map Component.ofSegment = m.map .name) :
    l = m ∧ ['.', '.'] ∉ l := by
  induction l generalizing m with
  | nil =>
    rw [List.map_nil, eq_comm, List.map_eq_nil_iff] at h
    exact ⟨h.symm, List.not_mem_nil⟩
  | cons s l ih =>
    cases m with
    | nil => cases h
    | cons t m =>
      obtain ⟨hs, hl⟩ := List.cons_eq_cons.mp h
      obtain ⟨rfl, hup⟩ := ih hl
      by_cases hdots : s = ['.', '.']
      · rw [Component.ofSegment, if_pos hdots] at hs
        cases hs
      · rw [Component.ofSegment, if_neg hdots] at hs
        cases hs
        exact ⟨rfl, by simpa using ⟨Ne.symm hdots, hup⟩⟩

theorem parent?_eq_none_iff (p : Path) :
    p.parent? = none ↔ p.components = [] ∨ p.components = [.root] := by
  have hsolid := trimmed_eq_nil_iff (l := p.anchored.2)
  rw [filter_anchored] at hsolid
  rw [components_eq]
  unfold parent? anchor
  simp only
  split
  · next ht ha => simp [hsolid.mp ht, ha, Anchor.components]
  · next ht ha =>
    rw [hsolid.mp ht]
    cases hx : p.anchored.1 <;> simp_all [Anchor.components]
  · next ht _ =>
    have hne : p.solid ≠ [] := mt hsolid.mpr (by simpa using ht)
    cases p.anchored.1 <;> simp [Anchor.components, hne, ofSegment_ne_root]

theorem joined_isPrefix : ∀ {l m : List Segment}, l <+: m → joined l <+: joined m
  | [], _, _ => List.nil_prefix
  | a :: l, [], h => by simp at h
  | a :: l, b :: m, h => by
    obtain ⟨rfl, hlm⟩ := List.cons_prefix_cons.mp h
    have ih := joined_isPrefix hlm
    cases l with
    | nil => cases m <;> simp [joined]
    | cons c l =>
      cases m with
      | nil => simp at hlm
      | cons d m =>
        have ha : joined (a :: d :: m) = a ++ '/' :: joined (d :: m) := rfl
        rw [ha, joined, List.prefix_append_right_inj, List.cons_prefix_cons]
        · exact ⟨rfl, ih⟩
        · simp

theorem text_ofAnchored_isPrefix (a : Anchor) {l m : List Segment} (h : l <+: m) :
    (ofAnchored a l).text <+: (ofAnchored a m).text := by
  cases a with
  | root => exact List.cons_prefix_cons.mpr ⟨rfl, joined_isPrefix h⟩
  | dot => exact joined_isPrefix (List.cons_prefix_cons.mpr ⟨rfl, h⟩)
  | none => exact joined_isPrefix h

theorem text_parent? {p q : Path} (h : p.parent? = some q) : q.text <+: p.text := by
  rcases parent?_cases h with ⟨-, rfl, -⟩ | ⟨-, -, rfl⟩
  · have hprefix := text_ofAnchored_isPrefix p.anchor (above_isPrefix p.anchored.2)
    rwa [anchor, ofAnchored_anchored] at hprefix
  · exact List.nil_prefix

/-! ### Names in a directory -/

/-- A segment that names an entry: no slash in it, no dots by themselves. -/
structure IsName (s : Segment) : Prop where
  slash : '/' ∉ s
  solid : isIdle s = false
  up : s ≠ ['.', '.']

variable {name : Segment}

/-- The segments of a text in a directory: what a slash at the end of the directory leaves
behind it gives way to those of the text. -/
theorem segments_child_text (p : Path) (s : List Char) :
    ∃ init last, p.segments = init ++ last ∧ (last = [] ∨ last = [[]]) ∧
      (p.child s).segments = init ++ segmentsOf s := by
  obtain ⟨text⟩ := p
  unfold child segments
  rcases List.eq_nil_or_concat' text with rfl | ⟨init, c, rfl⟩
  · exact ⟨[], [[]], rfl, .inr rfl, rfl⟩
  · rw [List.getLast?_concat]
    by_cases hc : c = '/'
    · subst hc
      refine ⟨segmentsOf init, [[]], ?_, .inr rfl, ?_⟩
      · rw [segmentsOf_append_slash]
        rfl
      · simp only [if_true]
        rw [List.append_assoc, List.singleton_append, segmentsOf_append_slash]
    · refine ⟨_, [], (List.append_nil _).symm, .inl rfl, ?_⟩
      simp only [if_neg hc]
      rw [segmentsOf_append_slash]

theorem segments_child (p : Path) (h : IsName name) :
    ∃ init last, p.segments = init ++ last ∧ (last = [] ∨ last = [[]]) ∧
      (p.child name).segments = init ++ [name] := by
  rw [← segmentsOf_of_notMem h.slash]
  exact p.segments_child_text name

theorem solid_child_text (p : Path) (s : List Char) :
    (p.child s).solid = p.solid ++ (segmentsOf s).filter (!isIdle ·) := by
  obtain ⟨init, last, hp, hlast, hc⟩ := p.segments_child_text s
  unfold solid
  rw [hc, hp, List.filter_append, List.filter_append]
  have hnil : isIdle [] = true := rfl
  rcases hlast with rfl | rfl <;> simp [hnil]

theorem solid_child (p : Path) (h : IsName name) : (p.child name).solid = p.solid ++ [name] := by
  rw [solid_child_text, segmentsOf_of_notMem h.slash, List.filter_cons_of_pos (by simp [h.solid])]
  rfl

theorem absolute_child (p : Path) (h : IsName name) : (p.child name).Absolute ↔ p.Absolute := by
  obtain ⟨text⟩ := p
  unfold Absolute child
  cases text with
  | nil =>
    simp only [List.getLast?_nil, List.head?_nil, reduceCtorEq, iff_false]
    intro hhead
    exact h.slash (List.mem_of_mem_head? hhead)
  | cons c s =>
    simp only [List.getLast?_cons]
    split <;> simp

theorem anchor_child (p : Path) (h : IsName name) : (p.child name).anchor = p.anchor := by
  have hhead : (p.child name).segments.head? = some ['.'] ↔ p.segments.head? = some ['.'] := by
    obtain ⟨init, last, hp, hlast, hc⟩ := p.segments_child h
    rw [hp, hc]
    cases init with
    | cons a l => rfl
    | nil =>
      have hdot : name ≠ ['.'] := fun hn => by
        have := h.solid
        rw [hn] at this
        cases this
      rcases hlast with rfl | rfl <;> simp [hdot]
  rw [anchor_eq, anchor_eq]
  simp only [absolute_child p h, hhead]

theorem components_child (p : Path) (h : IsName name) :
    (p.child name).components = p.components ++ [.name name] := by
  rw [components_eq, components_eq, anchor_child p h, solid_child p h, List.map_append,
    List.append_assoc]
  simp [Component.ofSegment, h.up]

theorem text_isPrefix_child (p : Path) (s : List Char) : p.text <+: (p.child s).text := by
  unfold child
  split
  · next h =>
    rw [List.getLast?_eq_none_iff.mp h]
    exact List.nil_prefix
  · split <;> exact List.prefix_append _ _

theorem text_isSuffix_child (p : Path) (s : List Char) : s <:+ (p.child s).text := by
  unfold child
  split
  · exact List.suffix_rfl
  · split
    · exact List.suffix_append _ _
    · exact (List.suffix_cons _ _).trans (List.suffix_append _ _)

theorem text_child_ne_nil (p : Path) (h : IsName name) : (p.child name).text ≠ [] := by
  intro hnil
  have hsolid := solid_child p h
  simp [solid, segments, hnil, segmentsOf, isIdle] at hsolid

/-! ### The walk up -/

theorem walk_of_parent? {p q : Path} (h : p.parent? = some q) : p.walk = p :: q.walk := by
  rw [walk]
  split
  · next q' h' =>
    rw [h] at h'
    cases h'
    rfl
  · next h' =>
    rw [h] at h'
    cases h'

theorem walk_of_none {p : Path} (h : p.parent? = none) : p.walk = [p] := by
  rw [walk]
  split
  · next q' h' =>
    rw [h] at h'
    cases h'
  · rfl

/-- The walk up, step by step: a path without a parent, or a path behind which the walk up from
its parent follows. -/
@[elab_as_elim]
theorem walk_induction {motive : Path → Prop} (top : ∀ p, p.parent? = none → motive p)
    (up : ∀ p q, p.parent? = some q → motive q → motive p) (p : Path) : motive p := by
  induction p using walk.induct with
  | case1 p q h _ ih => exact up p q h ih
  | case2 p h => exact top p h

/-- The paths on the walk up have the first of the components. -/
theorem components_prefix_of_mem_walk {p q : Path} (h : q ∈ p.walk) :
    q.components <+: p.components := by
  induction p using walk_induction with
  | top p hp =>
    rw [walk_of_none hp, List.mem_singleton] at h
    rw [h]
  | up p q' hp ih =>
    rw [walk_of_parent? hp, List.mem_cons] at h
    rcases h with rfl | h
    · exact List.prefix_rfl
    · refine (ih h).trans ?_
      rw [(components_parent? hp).2]
      exact List.dropLast_prefix _

end SupportLayer.Path
