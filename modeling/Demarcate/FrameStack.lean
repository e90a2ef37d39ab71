/-!
# FrameStack — the frames of one data source

Each call that runs on a session of its own puts a frame on the stack and takes it off again, so the top frame is the
innermost call's.  Taking from an empty stack, or replacing its top, is a fault of the bookkeeping: there is no result.
-/
namespace Demarcate

structure FrameStack (α : Type) where
  /-- The top first. -/
  frames : List α := []
  deriving DecidableEq

namespace FrameStack

variable {α : Type}

def current? (s : FrameStack α) : Option α := s.frames.head?
def depth (s : FrameStack α) : Nat := s.frames.length
def isEmpty (s : FrameStack α) : Bool := s.frames.isEmpty

def push (s : FrameStack α) (a : α) : FrameStack α := ⟨a :: s.frames⟩

/-- The top frame and the stack without it. -/
def pop? (s : FrameStack α) : Option (α × FrameStack α) :=
  match s.frames with
  | [] => none
  | a :: rest => some (a, ⟨rest⟩)

/-- The top frame and the stack with another in its place. -/
def replaceTop? (s : FrameStack α) (a : α) : Option (α × FrameStack α) :=
  match s.frames with
  | [] => none
  | top :: rest => some (top, ⟨a :: rest⟩)

/-- What unwinds a call that takes a frame from an empty stack. -/
def popText : String := "pop on an empty resource context stack"

/-- What unwinds a call that replaces the top of an empty stack. -/
def replaceTopText : String := "replace_top on an empty resource context stack"

theorem pop?_push (s : FrameStack α) (a : α) : (s.push a).pop? = some (a, s) := rfl

theorem replaceTop?_push (s : FrameStack α) (a b : α) : (s.push a).replaceTop? b = some (a, s.push b) := rfl

theorem current?_push (s : FrameStack α) (a : α) : (s.push a).current? = some a := rfl

theorem depth_push (s : FrameStack α) (a : α) : (s.push a).depth = s.depth + 1 := rfl

end FrameStack
end Demarcate
