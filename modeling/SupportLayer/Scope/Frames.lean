/-
# Scope frames

Code without destructors defers actions on a stack of frames: a frame is opened where a
block starts, collects the actions deferred in the block, and is closed where the block
ends, which fires them, the last one first. Deferring with no frame open opens one.

Key definitions: `Scope.Frames`, `Scope.Frames.enter`, `Scope.Frames.defer`,
`Scope.Frames.exit`.
-/

namespace SupportLayer.Scope

/-- The open frames, the innermost first, each with its actions in the order in which they
were deferred. -/
abbrev Frames (α : Type) := List (List α)

namespace Frames

variable {α : Type}

/-- The frames with a new one open. -/
def enter (frames : Frames α) : Frames α := [] :: frames

/-- The frames with an action in the innermost one, and whether one had to be opened for
it. -/
def defer (action : α) : Frames α → Frames α × Bool
  | [] => ([[action]], true)
  | frame :: frames => ((frame ++ [action]) :: frames, false)

/-- The actions of the innermost frame in the order in which they fire, and the frames
without it; nothing if no frame is open. -/
def exit : Frames α → Option (List α × Frames α)
  | [] => none
  | frame :: frames => some (frame.reverse, frames)

/-- The number of open frames. -/
def depth (frames : Frames α) : Nat := frames.length

end Frames

end SupportLayer.Scope
