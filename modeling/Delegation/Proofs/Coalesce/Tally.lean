import Delegation.Proofs.Coalesce.Runs

/-!
# What coalescing counts

Coalescing drops repeated spans first and sweeps over the others afterwards.  Both can be done
in one pass over the sorted holdings: a `Pass` compares each holding with the one of the latest
start, and either counts it as a duplicate, or stops at a clash, or hands it to the sweep.

So every holding is counted once: it is a duplicate, or it is merged into a run, or absorbed by
one, or a run starts with it.

Main results: `coalesceTallied_eq_coalesceOnce` and `accounts_of_coalesceTallied`.
-/

namespace Delegation

open Coalesce

/-- The tally is that of `input` holdings which gave `output` runs, and it counts each of the
holdings once. -/
structure CoalesceTally.Accounts (t : CoalesceTally) (input output : Nat) : Prop where
  input_eq : t.input = input
  output_eq : t.output = output
  balance : t.input = t.duplicates + t.merges + t.overlaps + t.output

namespace CoalesceTally.Accounts

lemma zero : CoalesceTally.zero.Accounts 0 0 := ⟨rfl, rfl, rfl⟩

lemma add {s t : CoalesceTally} {m n k l : Nat} (hs : s.Accounts m k) (ht : t.Accounts n l) :
    (s.add t).Accounts (m + n) (k + l) := by
  obtain ⟨hsinput, hsoutput, hsbalance⟩ := hs
  obtain ⟨htinput, htoutput, htbalance⟩ := ht
  refine ⟨?_, ?_, ?_⟩ <;> simp only [CoalesceTally.add]
  · omega
  · omega
  · omega

end CoalesceTally.Accounts

namespace Coalesce

variable {r : Realm} {hs ds kept kept' l : List Holding} {next : Holding} {s : Sweep} {n : Nat}

/-! ## The sweep -/

lemma sweep_append_singleton (h : sweep ds = some s) (next : Holding) :
    sweep (ds ++ [next]) = some (s.step next) := by
  cases ds with
  | nil => cases h
  | cons d rest =>
    obtain rfl := Option.some.inj h
    simp [sweep]

/-- Each holding is merged or absorbed, or begins a run. -/
lemma Sweep.count_step (s : Sweep) (next : Holding) :
    (s.step next).merges + (s.step next).absorbed.length + (s.step next).closed.length =
      s.merges + s.absorbed.length + s.closed.length + 1 := by
  rcases Nat.lt_trichotomy (s.current.last + 1) next.first with hgap | htouch | hoverlap
  · rw [step_of_gap hgap]
    simp only [List.length_cons]
    omega
  · rw [step_of_touch htouch]
    simp only
    omega
  · rw [step_of_overlap (by omega)]
    simp only [List.length_cons]
    omega

lemma Sweep.count_foldl (s : Sweep) (rest : List Holding) :
    (rest.foldl Sweep.step s).merges + (rest.foldl Sweep.step s).absorbed.length +
        (rest.foldl Sweep.step s).closed.length =
      s.merges + s.absorbed.length + s.closed.length + rest.length := by
  induction rest generalizing s with
  | nil => rfl
  | cons next rest ih =>
    rw [List.foldl_cons, ih, count_step, List.length_cons]
    omega

lemma length_of_sweep (h : sweep ds = some s) :
    ds.length = s.merges + s.absorbed.length + s.runs.length := by
  cases ds with
  | nil => cases h
  | cons d rest =>
    obtain rfl := Option.some.inj h
    have hcount := Sweep.count_foldl (Sweep.start d) rest
    simp only [Sweep.start, List.length_nil] at hcount
    simp only [Sweep.runs, Sweep.start, List.length_reverse, List.length_cons]
    omega

/-! ## One pass -/

/-- The state between two holdings when each of them is read once. -/
structure Pass where
  sweep : Sweep
  /-- The holding with the latest start. -/
  latest : Holding
  duplicates : Nat

namespace Pass

/-- The state after the first holding. -/
def start (h : Holding) : Pass := ⟨Sweep.start h, h, 0⟩

/-- Reads one more holding. -/
def read (r : Realm) (p : Pass) (next : Holding) : Except Fault Pass :=
  if next.first = p.latest.first then
    if next.last = p.latest.last then .ok { p with duplicates := p.duplicates + 1 }
    else .error (.conflictingRanges r.registry r.family next.first p.latest.last next.last)
  else .ok { p with sweep := p.sweep.step next, latest := next }

/-- The runs, and the tally of the holdings that have been read. -/
def result (input : Nat) (p : Pass) : List Holding × CoalesceTally :=
  (p.sweep.runs,
    ⟨input, p.duplicates, p.sweep.merges, p.sweep.absorbed.length, p.sweep.runs.length⟩)

/-- The state of a pass over `n` holdings of which `kept` are the distinct ones, the latest
first. -/
structure Follows (p : Pass) (n : Nat) (kept : List Holding) : Prop where
  head?_eq : kept.head? = some p.latest
  sweep_eq : Coalesce.sweep kept.reverse = some p.sweep
  length_eq : n = p.duplicates + kept.length

variable {p : Pass}

/-- A pass and the reading of distinct starts go along with each other. -/
lemma Follows.read (hp : p.Follows n kept) (h : readNext kept next = .ok kept') :
    ∃ q, p.read r next = .ok q ∧ q.Follows (n + 1) kept' := by
  have hlength := hp.length_eq
  rcases readNext_cases kept next with ⟨hok, hne⟩ | ⟨hok, d, hd, hspan⟩ | ⟨d, -, herr, -⟩
  · obtain rfl := Except.ok.inj (hok.symm.trans h)
    refine ⟨_, if_neg (hne p.latest hp.head?_eq), rfl, ?_, ?_⟩
    · rw [List.reverse_cons]
      exact sweep_append_singleton hp.sweep_eq next
    · simp only [List.length_cons]
      omega
  · obtain rfl := Except.ok.inj (hok.symm.trans h)
    obtain rfl := Option.some.inj (hp.head?_eq.symm.trans hd)
    refine ⟨{ p with duplicates := p.duplicates + 1 }, ?_, hp.head?_eq, hp.sweep_eq, ?_⟩
    · rw [Pass.read, if_pos (congrArg Span.first hspan).symm,
        if_pos (congrArg Span.last hspan).symm]
    · simp only
      omega
  · simp [h] at herr

lemma Follows.read_error {c : Clash} (hp : p.Follows n kept) (h : readNext kept next = .error c) :
    p.read r next = .error (c.fault r) := by
  rcases readNext_cases kept next with ⟨hok, -⟩ | ⟨hok, -⟩ | ⟨d, hd, herr, hfirst, hlast⟩
  · simp [h] at hok
  · simp [h] at hok
  · obtain rfl := Except.error.inj (herr.symm.trans h)
    obtain rfl := Option.some.inj (hp.head?_eq.symm.trans hd)
    rw [Pass.read, if_pos hfirst, if_neg hlast]
    rfl

lemma Follows.foldlM (hp : p.Follows n kept) (h : l.foldlM readNext kept = .ok kept') :
    ∃ q, l.foldlM (Pass.read r) p = .ok q ∧ q.Follows (n + l.length) kept' := by
  induction l generalizing p n kept with
  | nil =>
    obtain rfl := Except.ok.inj h
    exact ⟨p, rfl, hp⟩
  | cons next l ih =>
    rw [List.foldlM_cons] at h
    obtain ⟨middle, hmiddle, h⟩ := Sequence.bind_eq_ok_iff.mp h
    obtain ⟨q, hq, hfollows⟩ := hp.read (r := r) hmiddle
    obtain ⟨q', hq', hfollows'⟩ := ih hfollows h
    refine ⟨q', ?_, ?_⟩
    · rw [List.foldlM_cons, hq]
      exact hq'
    · rw [List.length_cons, Nat.add_comm l.length, ← Nat.add_assoc]
      exact hfollows'

lemma Follows.foldlM_error {c : Clash} (hp : p.Follows n kept)
    (h : l.foldlM readNext kept = .error c) : l.foldlM (Pass.read r) p = .error (c.fault r) := by
  induction l generalizing p n kept with
  | nil => cases h
  | cons next l ih =>
    rw [List.foldlM_cons] at h ⊢
    cases hnext : readNext kept next with
    | error c' =>
      rw [hnext] at h
      obtain rfl := Except.error.inj h
      rw [hp.read_error hnext]
      rfl
    | ok middle =>
      rw [hnext] at h
      obtain ⟨q, hq, hfollows⟩ := hp.read (r := r) hnext
      rw [hq]
      exact ih hfollows h

lemma follows_start (h : Holding) : (start h).Follows 1 [h] := ⟨rfl, rfl, rfl⟩

end Pass

lemma of_sortByFirst_eq_nil (h : sortByFirst hs = []) : hs = [] ∧ distinct hs = .ok [] := by
  have hnil : hs = [] := by
    simpa [h] using sortByFirst_perm hs
  exact ⟨hnil, distinct_eq_ok_iff.mpr (by rw [h]; rfl)⟩

/-- The pass behind a list of distinct holdings. -/
lemma exists_pass_of_distinct (r : Realm) {h : Holding} (hsorted : sortByFirst hs = h :: l)
    (hds : distinct hs = .ok ds) :
    ∃ q, l.foldlM (Pass.read r) (Pass.start h) = .ok q ∧ q.Follows hs.length ds.reverse := by
  rw [distinct_eq_ok_iff, hsorted] at hds
  obtain ⟨q, hq, hfollows⟩ := (Pass.follows_start h).foldlM (r := r) hds
  have hlength := (sortByFirst_perm hs).length_eq
  rw [hsorted, List.length_cons, Nat.add_comm] at hlength
  exact ⟨q, hq, hlength ▸ hfollows⟩

namespace Pass.Follows

variable {q : Pass}

/-- The result of a pass is that of the sweep over the distinct holdings. -/
lemma result_eq (hq : q.Follows hs.length ds.reverse) :
    q.result hs.length = (runsOf ds, tally hs ds) := by
  have hsweep := hq.sweep_eq
  have hlength := hq.length_eq
  rw [List.reverse_reverse] at hsweep
  rw [List.length_reverse] at hlength
  rw [Pass.result, runsOf_of_sweep hsweep, tally, hsweep]
  simp only [Prod.mk.injEq, CoalesceTally.mk.injEq, true_and, and_true]
  omega

/-- A pass counts each holding that it reads once. -/
lemma accounts_result (hq : q.Follows n kept) :
    (q.result n).2.Accounts n (q.result n).1.length := by
  have hcount := length_of_sweep hq.sweep_eq
  have hlength := hq.length_eq
  rw [List.length_reverse] at hcount
  refine ⟨rfl, rfl, ?_⟩
  simp only [Pass.result]
  omega

end Pass.Follows

end Coalesce

/-- Coalescing in one pass. -/
def coalesceOnce (r : Realm) (hs : List Holding) : Except Fault (List Holding × CoalesceTally) :=
  match sortByFirst hs with
  | [] => .ok ([], CoalesceTally.zero)
  | h :: rest => (rest.foldlM (Pass.read r) (Pass.start h)).map (Pass.result hs.length)

variable {r : Realm} {hs runs : List Holding} {t : CoalesceTally}

/-- One pass finds the same runs, tally and fault. -/
theorem coalesceTallied_eq_coalesceOnce (r : Realm) (hs : List Holding) :
    coalesceTallied r hs = coalesceOnce r hs := by
  rw [coalesceTallied, coalesceOnce]
  cases hsorted : sortByFirst hs with
  | nil =>
    rw [(of_sortByFirst_eq_nil hsorted).2]
    rfl
  | cons h rest =>
    cases hds : distinct hs with
    | error c =>
      have herr := distinct_eq_error_iff.mp hds
      rw [hsorted] at herr
      have hpass := (Pass.follows_start h).foldlM_error (r := r) herr
      simp only [hpass, Except.map]
    | ok ds =>
      obtain ⟨q, hq, hfollows⟩ := exists_pass_of_distinct r hsorted hds
      simp only [hq, Except.map, hfollows.result_eq]

lemma exists_pass_of_coalesceTallied (h : coalesceTallied r hs = .ok (runs, t)) (hne : hs ≠ []) :
    ∃ (q : Pass) (kept : List Holding), q.Follows hs.length kept ∧
      q.result hs.length = (runs, t) := by
  rw [coalesceTallied] at h
  cases hds : distinct hs with
  | error c => simp [hds] at h
  | ok ds =>
    rw [hds] at h
    obtain ⟨k, rest, hsorted⟩ :=
      List.exists_cons_of_ne_nil fun hnil => hne (of_sortByFirst_eq_nil hnil).1
    obtain ⟨q, -, hq⟩ := exists_pass_of_distinct r hsorted hds
    exact ⟨q, ds.reverse, hq, hq.result_eq.trans (Except.ok.inj h)⟩

/-- Coalescing counts every holding once. -/
theorem accounts_of_coalesceTallied (h : coalesceTallied r hs = .ok (runs, t)) :
    t.Accounts hs.length runs.length := by
  by_cases hne : hs = []
  · subst hne
    rw [coalesceTallied_eq_coalesceOnce, coalesceOnce] at h
    simp only [sortByFirst, List.mergeSort_nil, Except.ok.injEq, Prod.mk.injEq] at h
    obtain ⟨rfl, rfl⟩ := h
    exact .zero
  · obtain ⟨q, kept, hq, hresult⟩ := exists_pass_of_coalesceTallied h hne
    have haccounts := hq.accounts_result
    rwa [hresult] at haccounts

/-- Holdings have a run. -/
lemma ne_nil_of_coalesceTallied (h : coalesceTallied r hs = .ok (runs, t)) (hne : hs ≠ []) :
    runs ≠ [] := by
  obtain ⟨q, kept, -, hresult⟩ := exists_pass_of_coalesceTallied h hne
  obtain ⟨rfl, -⟩ := Prod.mk.inj hresult
  simp [Sweep.runs]

end Delegation
