import Delegation.Block

/-!
# Tiling a span with blocks

Every span is cut into aligned blocks in one way of least length: take the largest aligned
block that starts where the span starts and does not leave it, and go on behind it.
-/

namespace Delegation.Block

/-- The greatest `k` up to a limit such that the `2 ^ k` addresses from `first` on are
aligned and end at `last` or before. -/
def hostBits (first last : Nat) : Nat → Nat
  | 0 => 0
  | k + 1 =>
    if first % 2 ^ (k + 1) = 0 ∧ first + 2 ^ (k + 1) - 1 ≤ last then k + 1
    else hostBits first last k

/-- The blocks from `first` to `last`, in ascending order. -/
def tiles (f : Family) (first last : Nat) : List Block :=
  if first ≤ last then
    let bits := hostBits first last f.width
    ⟨f, first, f.width - bits⟩ :: tiles f (first + 2 ^ bits) last
  else []
termination_by last + 1 - first
decreasing_by
  have : 0 < 2 ^ hostBits first last f.width := Nat.two_pow_pos _
  omega

/-- The fewest aligned blocks that make up a span, in ascending order. -/
def tiling (f : Family) (s : Span) : Except Fault (List Block) :=
  (s.check f).map fun s => tiles f s.first s.last

theorem hostBits_le (first last k : Nat) : hostBits first last k ≤ k := by
  induction k with
  | zero => exact Nat.le_refl 0
  | succ k ih =>
    unfold hostBits
    split
    · exact Nat.le_refl _
    · omega

/-- The chosen block is aligned and stays within the span. -/
theorem hostBits_fits {first last : Nat} (h : first ≤ last) (k : Nat) :
    first % 2 ^ hostBits first last k = 0 ∧
      first + 2 ^ hostBits first last k - 1 ≤ last := by
  induction k with
  | zero => simp [hostBits, Nat.mod_one, h]
  | succ k ih =>
    unfold hostBits
    split
    · assumption
    · exact ih

/-- No larger block would do. -/
theorem le_hostBits {first last j k : Nat} (hj : j ≤ k) (haligned : first % 2 ^ j = 0)
    (hlast : first + 2 ^ j - 1 ≤ last) : j ≤ hostBits first last k := by
  induction k with
  | zero => omega
  | succ k ih =>
    unfold hostBits
    split
    · exact hj
    · next h =>
      rcases Nat.lt_or_ge j (k + 1) with hlt | hge
      · exact ih (by omega)
      · have : j = k + 1 := by omega
        subst this
        exact absurd ⟨haligned, hlast⟩ h

end Delegation.Block
