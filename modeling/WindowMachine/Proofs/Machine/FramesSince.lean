import WindowMachine.Proofs.Machine.Effects

/-!
# Frames since a call

Some properties of frames hold of the current frame and of all those that were
suspended since a call, as long as the call lasts.  A call adds the current
frame to the suspended ones and a return takes the last of them back, unless it
leaves the call.  Everything else is about the current frame only.
-/

namespace WindowMachine

namespace Machine

/-- Whether all frames above `floor` suspended callers have a property: those
that were suspended later, and the current one if there are so many. -/
structure FramesSince (floor : Nat) (holds : Frame → Prop) (m : Machine) :
    Prop where
  frame : floor < m.depth → holds m.frame
  callers (level : Nat) (f : Frame) :
    floor < level → m.callers[level]? = some f → holds f

namespace FramesSince

variable {m n : Machine} {floor : Nat} {holds wider : Frame → Prop}

theorem mono (since : FramesSince floor holds m)
    (weaker : ∀ f, holds f → wider f) : FramesSince floor wider m where
  frame deeper := weaker _ (since.frame deeper)
  callers level f above found := weaker _ (since.callers level f above found)

theorem of_frame (since : FramesSince floor holds m)
    (callers : n.callers = m.callers) (frame : holds n.frame) :
    FramesSince floor holds n where
  frame _ := frame
  callers level f above found := by
    rw [callers] at found
    exact since.callers level f above found

/-- Right after a call from `floor` callers there is only the new frame. -/
theorem of_entered {callee : Frame} (inner : holds callee) :
    FramesSince m.depth holds (m.apply (.enter callee)) where
  frame _ := inner
  callers level f above found := by
    have size := (Array.getElem?_eq_some_iff.mp found).1
    simp only [apply, Array.size_push] at size
    simp only [depth] at above
    omega

theorem enter {callee : Frame} (since : FramesSince floor holds m)
    (frame : holds m.frame) (inner : holds callee) :
    FramesSince floor holds (m.apply (.enter callee)) where
  frame _ := inner
  callers level f above found := by
    simp only [apply, Array.getElem?_push] at found
    split at found
    · cases found
      exact frame
    · exact since.callers level f above found

theorem leave {caller : Frame} {value : Int32}
    (since : FramesSince floor holds m)
    (back : m.callers.back? = some caller) :
    FramesSince floor holds (m.apply (.leave caller value)) where
  frame deeper := by
    have inner : floor < m.callers.size - 1 := by
      simpa [depth, apply] using deeper
    rw [Array.back?_eq_getElem?] at back
    exact since.callers _ caller inner back
  callers level f above found := by
    simp only [apply, Array.getElem?_pop] at found
    split at found
    · exact since.callers level f above found
    · cases found

end FramesSince

end Machine

end WindowMachine
