import Delegation.Power

/-!
# Numbers as groups of digits

An address is written as a fixed number of groups, the most significant first: four octets or
eight hextets.  `groups base k n` are the `k` last digits of `n` in base `base`, and
`ofGroups` puts groups together again.

Main results: `ofGroups_groups` and `groups_ofGroups`, which make the two inverse to each
other on numbers of at most `k` digits and on `k` digits below the base.
-/

namespace Delegation.Address

/-- The last `k` digits of a number in a base, most significant first. -/
def groups (base : Nat) : Nat → Nat → List Nat
  | 0, _ => []
  | k + 1, n => groups base k (n / base) ++ [n % base]

/-- The number with the given digits in a base. -/
def ofGroups (base : Nat) (ds : List Nat) : Nat :=
  ds.foldl (fun n d => base * n + d) 0

@[simp] theorem length_groups (base k n : Nat) : (groups base k n).length = k := by
  induction k generalizing n with
  | zero => rfl
  | succ k ih => simp [groups, ih]

theorem lt_of_mem_groups {base k n d : Nat} (hb : 0 < base) (h : d ∈ groups base k n) :
    d < base := by
  induction k generalizing n with
  | zero => simp [groups] at h
  | succ k ih =>
    rcases List.mem_append.mp h with h | h
    · exact ih h
    · rw [List.mem_singleton.mp h]
      exact Nat.mod_lt _ hb

@[simp] theorem ofGroups_nil (base : Nat) : ofGroups base [] = 0 := rfl

theorem ofGroups_append_singleton (base : Nat) (ds : List Nat) (d : Nat) :
    ofGroups base (ds ++ [d]) = base * ofGroups base ds + d := by
  simp [ofGroups]

/-- Groups hold the whole of a number that has no more digits. -/
theorem ofGroups_groups {base k n : Nat} (h : n < base ^ k) :
    ofGroups base (groups base k n) = n := by
  induction k generalizing n with
  | zero => simp_all [groups]
  | succ k ih =>
    have hdiv : n / base < base ^ k := by
      apply Nat.div_lt_of_lt_mul
      rwa [Nat.mul_comm, ← Nat.pow_succ]
    rw [groups, ofGroups_append_singleton, ih hdiv]
    exact Nat.div_add_mod n base

/-- Digits below the base come back. -/
theorem groups_ofGroups {base : Nat} (ds : List Nat) (h : ∀ d ∈ ds, d < base) :
    groups base ds.length (ofGroups base ds) = ds := by
  generalize hk : ds.length = k
  induction k generalizing ds with
  | zero => simp [groups, List.eq_nil_of_length_eq_zero hk]
  | succ k ih =>
    have hne : ds ≠ [] := fun e => by simp [e] at hk
    have hsplit := List.dropLast_concat_getLast hne
    have hd : ds.getLast hne < base := h _ (List.getLast_mem hne)
    have hlen : ds.dropLast.length = k := by simp [hk]
    conv => lhs; rw [← hsplit]
    rw [groups, ofGroups_append_singleton, Nat.mul_add_div (by omega),
      Nat.div_eq_of_lt hd, Nat.add_zero, Nat.mul_add_mod, Nat.mod_eq_of_lt hd,
      ih _ (fun d hm => h d ((List.dropLast_sublist ds).subset hm)) hlen, hsplit]

/-- As many digits as there are make a number below that power of the base. -/
theorem ofGroups_lt {base : Nat} (ds : List Nat) (h : ∀ d ∈ ds, d < base) :
    ofGroups base ds < base ^ ds.length := by
  generalize hk : ds.length = k
  induction k generalizing ds with
  | zero => simp [List.eq_nil_of_length_eq_zero hk]
  | succ k ih =>
    have hne : ds ≠ [] := fun e => by simp [e] at hk
    have hd : ds.getLast hne < base := h _ (List.getLast_mem hne)
    have hlen : ds.dropLast.length = k := by simp [hk]
    have hinit := ih _ (fun d hm => h d ((List.dropLast_sublist ds).subset hm)) hlen
    rw [← List.dropLast_concat_getLast hne, ofGroups_append_singleton, Nat.pow_succ]
    have hmul := Nat.mul_le_mul_left base (Nat.succ_le_of_lt hinit)
    rw [Nat.mul_succ, Nat.mul_comm base (base ^ k)] at hmul
    omega

end Delegation.Address
