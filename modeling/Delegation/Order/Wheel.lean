/-!
# Wheels

A wheel holds elements in a circle, with a place between two of them where the circle begins.
An element can be put in at that place, and the wheel can be turned by one element, so that
the first one becomes the last.  The elements behind the beginning are kept in one list and
those before it in another one, backwards; `toList` shows all of them from the beginning on,
and `toList_push` and `toList_turn` say what the two operations do to that list.
-/

namespace Delegation

/-- Elements in a circle. -/
structure Wheel (α : Type) where
  /-- The elements behind the beginning. -/
  ahead : List α
  /-- The elements behind those of `ahead`, the last one first. -/
  behind : List α

namespace Wheel

variable {α : Type}

/-- The wheel without elements. -/
def empty : Wheel α := ⟨[], []⟩

/-- All elements from the beginning on. -/
def toList (w : Wheel α) : List α := w.ahead ++ w.behind.reverse

/-- Puts an element in at the beginning. -/
def push (w : Wheel α) (x : α) : Wheel α := ⟨x :: w.ahead, w.behind⟩

/-- Moves the beginning behind the first element. -/
def turn (w : Wheel α) : Wheel α :=
  match w.ahead with
  | x :: ahead => ⟨ahead, x :: w.behind⟩
  | [] =>
    match w.behind.reverse with
    | x :: ahead => ⟨ahead, [x]⟩
    | [] => empty

@[simp]
theorem toList_empty : (empty : Wheel α).toList = [] := rfl

@[simp]
theorem toList_push (w : Wheel α) (x : α) : (w.push x).toList = x :: w.toList := rfl

/-- Turning a wheel makes the first element the last one. -/
theorem toList_turn (w : Wheel α) : w.turn.toList = w.toList.drop 1 ++ w.toList.take 1 := by
  obtain ⟨ahead, behind⟩ := w
  cases ahead with
  | cons x ahead => simp [turn, toList]
  | nil =>
    cases h : behind.reverse with
    | nil => simp [turn, toList, h, empty]
    | cons x ahead => simp [turn, toList, h]

/-- Turning a wheel keeps its elements. -/
theorem toList_turn_perm (w : Wheel α) : w.turn.toList.Perm w.toList := by
  rw [toList_turn]
  exact List.perm_append_comm.trans (by rw [List.take_append_drop])

end Wheel

end Delegation
