/-
# The walk up, step by step

Each step of the walk up drops one component, the last one, so the paths on it are told by number:
behind `j` steps a path has all components but the last `j`, and the walk ends where none is left
but the root. So a walk is as long as its path is high (`chain_walk`).

A name in a directory is undone by a step: the path that it comes back to has the components of the
directory, and is written as the directory is, up to some place (`parent?_child`).

Key definitions: `Path.height`, `Path.Chain`.
Key theorems: `Path.chain_walk`, `Path.parent?_child`.
-/
import Mathlib
import SupportLayer.Proofs.Path.Components

namespace SupportLayer.Path

/-! ### Components at the start -/

theorem absolute_iff_head? (p : Path) : p.Absolute ↔ p.components.head? = some .root := by
  rw [← anchor_eq_root_iff, components_eq]
  cases p.anchor with
  | root => simp [Anchor.components]
  | dot => simp [Anchor.components]
  | none =>
    have hne : ∀ s ∈ p.solid.head?, Component.ofSegment s ≠ .root := fun s _ => ofSegment_ne_root s
    cases h : p.solid <;> simp_all [Anchor.components]

theorem components_eq_nil_iff (p : Path) : p.components = [] ↔ p = ⟨[]⟩ := by
  constructor
  · intro h
    rw [components_eq, List.append_eq_nil_iff, List.map_eq_nil_iff] at h
    obtain ⟨hanchor, hsolid⟩ := h
    obtain ⟨text⟩ := p
    cases text with
    | nil => rfl
    | cons c s =>
      -- the first segment is not empty, so it is solid or a dot in front
      rcases (Path.mk (c :: s)).anchored_cases with ⟨_, -, ha⟩ | ⟨-, ha⟩ | ⟨_, -, ha⟩ | ⟨habs, hdot, -⟩
      · simp [anchor, ha, Anchor.components] at hanchor
      · simp [anchor, ha, Anchor.components] at hanchor
      · simp [anchor, ha, Anchor.components] at hanchor
      · have hc : c ≠ '/' := fun hc => habs (congrArg some hc)
        obtain ⟨a, l, hs⟩ := List.exists_cons_of_ne_nil (segmentsOf_ne_nil s)
        have hsegments : (Path.mk (c :: s)).segments = (c :: a) :: l := by
          simp only [segments, segmentsOf, if_neg hc, hs]
        rw [solid, hsegments, List.filter_eq_nil_iff] at hsolid
        rw [hsegments] at hdot
        simp_all [isIdle]
  · rintro rfl
    rfl

/-! ### The chain of parents -/

/-- How many steps the walk up from a path takes: one for each component, but none for the root. -/
def height (p : Path) : ℕ := if p.Absolute then p.components.length - 1 else p.components.length

theorem height_of_parent?_eq_none {p : Path} (h : p.parent? = none) : p.height = 0 := by
  rcases (parent?_eq_none_iff p).mp h with hc | hc
  · simp [height, hc]
  · have habs : p.Absolute := (absolute_iff_head? p).mpr (by rw [hc]; rfl)
    rw [height, if_pos habs, hc]
    rfl

theorem height_of_parent? {p q : Path} (h : p.parent? = some q) : p.height = q.height + 1 := by
  obtain ⟨hne, hq⟩ := components_parent? h
  have hpos : 0 < p.components.length := List.length_pos_iff.mpr hne
  have hlength : q.components.length = p.components.length - 1 := by rw [hq, List.length_dropLast]
  unfold height
  by_cases habs : p.Absolute
  · have habs' := (absolute_parent? h).mpr habs
    have hq' : q.components ≠ [] := by
      intro hnil
      rw [absolute_iff_head?, hnil] at habs'
      cases habs'
    have hpos' : 0 < q.components.length := List.length_pos_iff.mpr hq'
    rw [if_pos habs, if_pos habs']
    omega
  · rw [if_neg habs, if_neg (mt (absolute_parent? h).mp habs)]
    omega

theorem length_walk (p : Path) : p.walk.length = p.height + 1 := by
  induction p using walk_induction with
  | top p hp =>
    rw [walk_of_none hp, height_of_parent?_eq_none hp]
    rfl
  | up p q hp ih => rw [walk_of_parent? hp, List.length_cons, ih, height_of_parent? hp]

/-- Behind `j` steps of the walk, the last `j` components are gone. -/
theorem components_of_getElem?_walk {p d : Path} {j : ℕ} (h : p.walk[j]? = some d) :
    d.components = p.components.take (p.components.length - j) := by
  induction p using walk_induction generalizing j with
  | top p hp =>
    rw [walk_of_none hp] at h
    cases j with
    | zero =>
      cases h
      exact (List.take_length).symm
    | succ j => cases h
  | up p q hp ih =>
    rw [walk_of_parent? hp] at h
    cases j with
    | zero =>
      cases h
      exact (List.take_length).symm
    | succ j =>
      have hq := (components_parent? hp).2
      rw [ih h, hq, List.length_dropLast, List.dropLast_eq_take, List.take_take]
      congr 1
      omega

/-- The paths of a walk up: each with the first components of the start, one less at each step,
until none is left but the root. -/
structure Chain (start : Path) (paths : List Path) : Prop where
  first : paths[0]? = some start
  length : paths.length = start.height + 1
  components : ∀ j d, paths[j]? = some d →
    d.components = start.components.take (start.components.length - j)
  relative : ¬ start.Absolute → paths.getLast? = some ⟨[]⟩
  absolute : start.Absolute → ∃ d, paths.getLast? = some d ∧ d.components = [.root]

theorem getLast?_walk {p d : Path} (h : p.walk.getLast? = some d) : d.parent? = none := by
  induction p using walk_induction with
  | top p hp =>
    rw [walk_of_none hp] at h
    cases h
    exact hp
  | up p q hp ih =>
    rw [walk_of_parent? hp, List.getLast?_cons] at h
    apply ih
    cases hq : q.walk.getLast? with
    | none =>
      have hnil := List.getLast?_eq_none_iff.mp hq
      have hlength := length_walk q
      rw [hnil] at hlength
      cases hlength
    | some e => simpa [hq] using h

theorem absolute_of_mem_walk {p q : Path} (h : q ∈ p.walk) : q.Absolute ↔ p.Absolute := by
  induction p using walk_induction with
  | top p hp =>
    rw [walk_of_none hp, List.mem_singleton] at h
    rw [h]
  | up p q' hp ih =>
    rw [walk_of_parent? hp, List.mem_cons] at h
    rcases h with rfl | h
    · exact Iff.rfl
    · exact (ih h).trans (absolute_parent? hp)

/-- The walk up is the chain of the first components, down to the empty path or the root. -/
theorem chain_walk (p : Path) : Chain p p.walk := by
  obtain ⟨d, hd⟩ : ∃ d, p.walk.getLast? = some d := by
    cases hlast : p.walk.getLast? with
    | none =>
      have hlength := length_walk p
      rw [List.getLast?_eq_none_iff.mp hlast] at hlength
      cases hlength
    | some d => exact ⟨d, rfl⟩
  have htop := (parent?_eq_none_iff d).mp (getLast?_walk hd)
  have habs := absolute_of_mem_walk (List.mem_of_getLast? hd)
  rw [absolute_iff_head?] at habs
  refine ⟨?_, length_walk p, fun j d h => components_of_getElem?_walk h, fun hrel => ?_,
    fun habs' => ⟨d, hd, ?_⟩⟩
  · cases hp : p.parent? with
    | none => rw [walk_of_none hp]; rfl
    | some q => rw [walk_of_parent? hp]; rfl
  · rcases htop with hnil | hroot
    · rw [hd, (components_eq_nil_iff d).mp hnil]
    · exact absurd (habs.mp (by rw [hroot]; rfl)) hrel
  · rcases htop with hnil | hroot
    · have hhead := habs.mpr habs'
      rw [hnil] at hhead
      cases hhead
    · exact hroot

theorem solid_isPrefix_of_mem_walk {p q : Path} (h : q ∈ p.walk) : q.solid <+: p.solid := by
  induction p using walk_induction with
  | top p hp =>
    rw [walk_of_none hp, List.mem_singleton] at h
    rw [h]
  | up p q' hp ih =>
    rw [walk_of_parent? hp, List.mem_cons] at h
    rcases h with rfl | h
    · exact List.prefix_rfl
    · refine (ih h).trans ?_
      rcases parent?_cases hp with ⟨-, -, -, hsolid⟩ | ⟨-, -, rfl⟩
      · rw [hsolid]
        exact List.dropLast_prefix _
      · exact List.nil_prefix

/-! ### The parent of a name in a directory -/

/-- The segments that an anchor takes up. -/
def Anchor.segments : Anchor → List Segment
  | .root => [[]]
  | .dot => [['.']]
  | .none => []

theorem segments_eq_anchored (p : Path) : p.segments = p.anchor.segments ++ p.anchored.2 := by
  unfold anchor segments
  rcases p.anchored_cases with ⟨rest, ht, ha⟩ | ⟨ht, ha⟩ | ⟨rest, ht, ha⟩ | ⟨-, -, ha⟩ <;> rw [ha]
  · rw [ht]
    exact segmentsOf_append_slash [] rest
  · rw [ht]
    rfl
  · rw [ht]
    exact segmentsOf_append_slash ['.'] rest
  · rfl

variable {name : Segment}

theorem above_concat (l : List Segment) (h : isIdle name = false) :
    above (l ++ [name]) = trimmed l := by
  have hself : trimmed (l ++ [name]) = l ++ [name] := by
    induction l with
    | nil => simp [trimmed, h]
    | cons a l ih =>
      obtain ⟨b, m, hb⟩ : ∃ b m, l ++ [name] = b :: m := List.exists_cons_of_ne_nil (by simp)
      rw [hb] at ih
      rw [List.cons_append, hb, trimmed, ih]
  rw [above, hself, List.dropLast_concat]

/-- Above a name in a directory are the segments of the directory, or the first of them. -/
theorem above_child_isPrefix (p : Path) (h : IsName name) :
    above (p.child name).anchored.2 <+: p.anchored.2 := by
  obtain ⟨init, last, hp, -, hc⟩ := p.segments_child h
  rw [segments_eq_anchored] at hp hc
  rw [anchor_child p h] at hc
  have hsolid : (p.child name).anchored.2.filter (!isIdle ·) = p.solid ++ [name] := by
    rw [filter_anchored, solid_child p h]
  rcases List.eq_nil_or_concat' (p.child name).anchored.2 with hnil | ⟨l, s, hl⟩
  · rw [hnil] at hsolid
    simp at hsolid
  · rw [hl, ← List.append_assoc] at hc
    obtain ⟨rfl, hs⟩ := List.append_inj' hc rfl
    rw [List.append_assoc] at hp
    rw [hl, (List.cons.inj hs).1, above_concat l h.solid, List.append_cancel_left hp]
    exact (trimmed_isPrefix l).trans (List.prefix_append l last)

/-- A step up undoes a name in a directory, but for how the directory is written. -/
theorem parent?_child (p : Path) (h : IsName name) :
    ∃ q, (p.child name).parent? = some q ∧ q.anchor = p.anchor ∧ q.solid = p.solid ∧
      q.text <+: p.text := by
  have hsolid := solid_child p h
  cases hq : (p.child name).parent? with
  | none =>
    have hcomponents := components_child p h
    rcases (parent?_eq_none_iff _).mp hq with hc | hc <;> rw [hc] at hcomponents
    · simp at hcomponents
    · have hlast := congrArg List.getLast? hcomponents
      simp at hlast
  | some q =>
    rcases parent?_cases hq with ⟨-, hwritten, hanchor, hq'⟩ | ⟨hnil, -⟩
    · refine ⟨q, rfl, hanchor.trans (anchor_child p h), ?_, ?_⟩
      · rw [hq', hsolid, List.dropLast_concat]
      · have hprefix := text_ofAnchored_isPrefix p.anchor (above_child_isPrefix p h)
        rwa [← anchor_child p h, ← hwritten, anchor_child p h, anchor, ofAnchored_anchored] at hprefix
    · rw [hsolid] at hnil
      simp at hnil

end SupportLayer.Path
