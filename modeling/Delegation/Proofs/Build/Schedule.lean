import Delegation.Proofs.Build.Lookup
import Delegation.Proofs.Build.Workers

/-!
# Groups in turn and side by side

The groups of a build may be coalesced one after another, up to the first failure
(`buildInTurn`), or side by side by workers that write to one journal in any order
(`BuiltSideBySide`).  Workers go on when another one fails, so a failing build may leave more
notes side by side than in turn.

Main result: `schedules_agree`.  A build has one outcome, whichever way it goes and in whatever
order workers do their steps: the fault is the one of the least failing group.  If it succeeds it
leaves the same notes both ways, and if it fails the notes of the build in turn are among those
of the build side by side.
-/

namespace Delegation

open Build Sequence Relation

variable {table : CountryTable} {r : Realm} {records : List Record} {hs : List (Group × Holding)}

/-! ## The two ways of building -/

/-- The index of coalesced groups, with what was counted. -/
def finishBuild (table : CountryTable) (r : Realm) (records : List Record)
    (hs : List (Group × Holding)) (coalesced : List (List Holding × CoalesceTally)) :
    Except Fault (RangeIndex × BuildTally) := do
  let entries ← Build.entries table r (coalesced.flatMap (·.1))
  let mine := Build.ofRealm r records
  return (⟨r, entries.toArray⟩,
    { records := mine.length
      indexed := hs.length
      skipped := mine.length - hs.length
      groups := (partitions hs).length
      coalesced := (coalesced.map (·.2)).foldl CoalesceTally.add CoalesceTally.zero
      entries := entries.length })

/-- The note at the end of a build that succeeds. -/
def closingNotes (r : Realm) (outcome : Except Fault (RangeIndex × BuildTally)) : List Note :=
  match outcome with
  | .error _ => []
  | .ok (_, t) => [buildNote r t]

/-- The outcome and the notes of a build that coalesces groups one after another. -/
def buildInTurn (table : CountryTable) (r : Realm) (records : List Record) :
    Except Fault (RangeIndex × BuildTally) × List Note :=
  match holdings r records with
  | .error fault => (.error fault, [])
  | .ok hs =>
    let coalesced := inTurn (coalesceTallied r) (coalesceNotes r) (partitions hs)
    let outcome := coalesced.1 >>= finishBuild table r records hs
    (outcome, coalesced.2 ++ closingNotes r outcome)

/-- An outcome and notes of a build whose groups are coalesced side by side. -/
inductive BuiltSideBySide (table : CountryTable) (r : Realm) (records : List Record) :
    Except Fault (RangeIndex × BuildTally) → List Note → Prop where
  | unread {fault : Fault} (hfault : holdings r records = .error fault) :
      BuiltSideBySide table r records (.error fault) []
  | coalesced {hs : List (Group × Holding)}
      {p : Pool (List Holding) (Except Fault (List Holding × CoalesceTally))}
      {results : List (Except Fault (List Holding × CoalesceTally))}
      (hhs : holdings r records = .ok hs)
      (hrun : ReflTransGen (Pool.Step (coalesceTallied r))
        (Pool.start (coalesceNotes r) (partitions hs)) p)
      (hends : p.Ends results) :
      BuiltSideBySide table r records (results.mapM id >>= finishBuild table r records hs)
        (p.journal ++ closingNotes r (results.mapM id >>= finishBuild table r records hs))

/-! ## The outcome -/

lemma buildTallied_eq (hhs : holdings r records = .ok hs) :
    buildTallied table r records =
      (partitions hs).mapM (coalesceTallied r) >>= finishBuild table r records hs := by
  rw [buildTallied, hhs]
  rfl

lemma buildTallied_eq_error {fault : Fault} (hfault : holdings r records = .error fault) :
    buildTallied table r records = .error fault := by
  rw [buildTallied, hfault]
  rfl

/-- A group fails to be coalesced, and no group before it does. -/
structure LeastFailing (r : Realm) (hs : List (Group × Holding)) (g : Group) (fault : Fault) :
    Prop where
  mem : g ∈ groupsOf hs
  fails : coalesceTallied r (members hs g) = .error fault
  least : ∀ g' ∈ groupsOf hs, g' ≠ g → Group.le g' g = true →
    ∃ x, coalesceTallied r (members hs g') = .ok x

/-- Coalescing fails with the fault of the least failing group. -/
lemma exists_leastFailing {fault : Fault}
    (h : (partitions hs).mapM (coalesceTallied r) = .error fault) :
    ∃ g, LeastFailing r hs g fault := by
  rw [partitions, List.mapM_map, mapM_eq_error_iff] at h
  obtain ⟨before, g, after, hgroups, hbefore, hg⟩ := h
  refine ⟨g, by simp [hgroups], hg, fun g' hg' hne hle => hbefore g' ?_⟩
  have hsorted := groupsOf_pairwise hs
  rw [hgroups] at hg' hsorted
  rcases List.mem_append.mp hg' with hg' | hg'
  · exact hg'
  · -- what comes behind `g` in the order cannot be before it
    have hafter := (List.mem_cons.mp hg').resolve_left hne
    have hge := List.rel_of_pairwise_cons (List.pairwise_append.mp hsorted).2.1 hafter
    rw [Group.le_iff] at hle hge
    exact absurd (Group.eq_of_rank_eq (Nat.le_antisymm hle hge)) hne

/-! ## The notes -/

lemma isPrefix_throughFirst {α : Type} (p : α → Bool) (l : List α) : throughFirst p l <+: l := by
  induction l with
  | nil => exact List.prefix_refl []
  | cons a l ih =>
    rw [throughFirst]
    split
    · exact ⟨l, rfl⟩
    · exact List.prefix_cons_inj a |>.mpr ih

lemma throughFirst_eq_self {α : Type} {p : α → Bool} {l : List α} (h : ∀ a ∈ l, p a = false) :
    throughFirst p l = l := by
  induction l with
  | nil => rfl
  | cons a l ih =>
    rw [List.forall_mem_cons] at h
    rw [throughFirst, if_neg (by simp [h.1]), ih h.2]

lemma buildNotes_eq (hhs : holdings r records = .ok hs) (schedule : Schedule) :
    buildNotes schedule table r records =
      (match schedule with
        | .parallel => partitions hs
        | .sequential =>
          throughFirst (fun p => !(coalesceTallied r p).isOk) (partitions hs)).flatMap
            (coalesceNotes r) ++ closingNotes r (buildTallied table r records) := by
  rw [buildNotes, hhs]
  rfl

lemma buildNotes_eq_nil {fault : Fault} (hfault : holdings r records = .error fault)
    (schedule : Schedule) : buildNotes schedule table r records = [] := by
  rw [buildNotes, hfault]

/-- A build in turn has the outcome and the notes of a sequential build. -/
theorem buildInTurn_eq (table : CountryTable) (r : Realm) (records : List Record) :
    buildInTurn table r records =
      (buildTallied table r records, buildNotes .sequential table r records) := by
  rw [buildInTurn]
  cases hhs : holdings r records with
  | error fault => rw [buildTallied_eq_error hhs, buildNotes_eq_nil hhs]
  | ok hs =>
    simp only [inTurn_eq]
    rw [← buildTallied_eq hhs, buildNotes_eq hhs]

/-- What a sequential build notes is noted by a parallel one as well. -/
lemma buildNotes_sublist (table : CountryTable) (r : Realm) (records : List Record) :
    (buildNotes .sequential table r records).Sublist (buildNotes .parallel table r records) := by
  cases hhs : holdings r records with
  | error fault => rw [buildNotes_eq_nil hhs, buildNotes_eq_nil hhs]
  | ok hs =>
    rw [buildNotes_eq hhs, buildNotes_eq hhs]
    exact ((isPrefix_throughFirst _ _).sublist.flatMap _).append_right _

/-- A build that succeeds has coalesced all groups either way. -/
lemma buildNotes_of_ok {built : RangeIndex × BuildTally}
    (h : buildTallied table r records = .ok built) :
    buildNotes .sequential table r records = buildNotes .parallel table r records := by
  cases hhs : holdings r records with
  | error fault => rw [buildNotes_eq_nil hhs, buildNotes_eq_nil hhs]
  | ok hs =>
    rw [buildTallied_eq hhs] at h
    obtain ⟨coalesced, hcoalesced, -⟩ := bind_eq_ok_iff.mp h
    rw [buildNotes_eq hhs, buildNotes_eq hhs]
    simp only
    rw [throughFirst_eq_self]
    intro part hpart
    obtain ⟨x, hx⟩ := exists_mapM_eq_ok_iff.mp ⟨coalesced, hcoalesced⟩ part hpart
    rw [hx]
    rfl

/-! ## Both ways agree -/

/-- The results of workers make up the outcome, and their notes the journal, in whatever order
they come. -/
theorem BuiltSideBySide.eq_and_perm {outcome : Except Fault (RangeIndex × BuildTally)}
    {journal : List Note} (h : BuiltSideBySide table r records outcome journal) :
    outcome = buildTallied table r records ∧
      journal.Perm (buildNotes .parallel table r records) := by
  cases h with
  | unread hfault =>
    rw [buildTallied_eq_error hfault, buildNotes_eq_nil hfault]
    exact ⟨rfl, .refl _⟩
  | @coalesced hs p results hhs hrun hends =>
    obtain ⟨rfl, hnotes⟩ := Pool.ends_of_run hrun hends
    have hresults : ((partitions hs).map (coalesceTallied r)).mapM id =
        (partitions hs).mapM (coalesceTallied r) := List.mapM_map
    rw [hresults, ← buildTallied_eq hhs, buildNotes_eq hhs]
    exact ⟨rfl, hnotes.append_right _⟩

/-- Workers can always bring a build to its end. -/
theorem exists_builtSideBySide (table : CountryTable) (r : Realm) (records : List Record) :
    ∃ outcome journal, BuiltSideBySide table r records outcome journal := by
  cases hhs : holdings r records with
  | error fault => exact ⟨_, _, .unread hhs⟩
  | ok hs =>
    obtain ⟨p, results, hrun, hends⟩ := Pool.exists_ends (coalesceTallied r)
      (Pool.start (coalesceNotes r) (partitions hs))
    exact ⟨_, _, .coalesced hhs hrun hends⟩

/-- A build has one outcome in turn and side by side, and in turn it leaves no notes that it
does not leave side by side. -/
theorem schedules_agree (table : CountryTable) (r : Realm) (records : List Record) :
    buildInTurn table r records =
        (buildTallied table r records, buildNotes .sequential table r records) ∧
      (∃ outcome journal, BuiltSideBySide table r records outcome journal) ∧
      ∀ outcome journal, BuiltSideBySide table r records outcome journal →
        outcome = (buildInTurn table r records).1 ∧
        (∀ hs, holdings r records = .ok hs →
          (∃ g ∈ groupsOf hs, ∃ fault, coalesceTallied r (members hs g) = .error fault) →
          ∃ g fault, LeastFailing r hs g fault ∧ outcome = .error fault) ∧
        (∀ built, outcome = .ok built → journal.Perm (buildInTurn table r records).2) ∧
        ∀ fault, outcome = .error fault → (buildInTurn table r records).2.Subperm journal := by
  rw [buildInTurn_eq]
  refine ⟨rfl, exists_builtSideBySide table r records, fun outcome journal h => ?_⟩
  obtain ⟨rfl, hnotes⟩ := h.eq_and_perm
  refine ⟨rfl, fun hs hhs hfails => ?least, fun built hbuilt => ?ok, fun fault hfault => ?error⟩
  case least =>
    obtain ⟨g, hg, fault, hfault⟩ := hfails
    cases hcoalesced : (partitions hs).mapM (coalesceTallied r) with
    | ok coalesced =>
      obtain ⟨x, hx⟩ := exists_mapM_eq_ok_iff.mp ⟨coalesced, hcoalesced⟩ _
        (List.mem_map_of_mem hg)
      rw [hx] at hfault
      cases hfault
    | error fault' =>
      obtain ⟨g', hleast⟩ := exists_leastFailing hcoalesced
      refine ⟨g', fault', hleast, ?_⟩
      rw [buildTallied_eq hhs, hcoalesced]
      rfl
  case ok => rwa [buildNotes_of_ok hbuilt]
  case error => exact (buildNotes_sublist table r records).subperm.trans hnotes.symm.subperm

/-- The holdings of two countries that each have two of different lengths at one start; those of
France overlap besides. -/
def clashingRecords : List Record :=
  [⟨.ripencc, france, .ipv4, 95, .count 10, .allocated⟩,
    ⟨.ripencc, france, .ipv4, 100, .count 10, .allocated⟩,
    ⟨.ripencc, france, .ipv4, 100, .count 20, .allocated⟩,
    ⟨.ripencc, germany, .ipv4, 50, .count 10, .allocated⟩,
    ⟨.ripencc, germany, .ipv4, 50, .count 20, .allocated⟩]

/-- The holdings of Germany. -/
def clashingGermany : List Holding :=
  [⟨⟨50, 59⟩, germany, .allocated⟩, ⟨⟨50, 69⟩, germany, .allocated⟩]

/-- The holdings of France. -/
def clashingFrance : List Holding :=
  [⟨⟨95, 104⟩, france, .allocated⟩, ⟨⟨100, 109⟩, france, .allocated⟩,
    ⟨⟨100, 119⟩, france, .allocated⟩]

/-- The fault of Germany. -/
def clashingFault : Fault := .conflictingRanges .ripencc .ipv4 50 59 69

/-- The results of both, in the order of groups. -/
def clashingResults : List (Except Fault (List Holding × CoalesceTally)) :=
  [coalesceTallied ⟨.ripencc, .ipv4⟩ clashingGermany,
    coalesceTallied ⟨.ripencc, .ipv4⟩ clashingFrance]

/-- The journal if the worker of France is first to write its notes. -/
def clashingJournal : List Note :=
  [] ++ coalesceNotes ⟨.ripencc, .ipv4⟩ clashingFrance ++
    coalesceNotes ⟨.ripencc, .ipv4⟩ clashingGermany

/-- The workers when both have handed over their results. -/
def clashingPool : Pool (List Holding) (Except Fault (List Holding × CoalesceTally)) :=
  ⟨clashingResults.map .done, clashingJournal⟩

theorem schedules_agree_clashing :
    BuiltSideBySide germanyFrance ⟨.ripencc, .ipv4⟩ clashingRecords (.error clashingFault)
        clashingJournal ∧ clashingJournal.length = 1 ∧
      (buildInTurn germanyFrance ⟨.ripencc, .ipv4⟩ clashingRecords).1 = .error clashingFault ∧
      (buildInTurn germanyFrance ⟨.ripencc, .ipv4⟩ clashingRecords).2.Subperm
        clashingJournal := by
  have hhs : holdings ⟨.ripencc, .ipv4⟩ clashingRecords =
      .ok (clashingFrance.map (.country france, ·) ++
        clashingGermany.map (.country germany, ·)) := by cbv
  have hparts : partitions (clashingFrance.map (.country france, ·) ++
      clashingGermany.map (.country germany, ·)) = [clashingGermany, clashingFrance] := by cbv
  have hrun : ReflTransGen (Pool.Step (coalesceTallied ⟨.ripencc, .ipv4⟩))
      (Pool.start (coalesceNotes ⟨.ripencc, .ipv4⟩) [clashingGermany, clashingFrance])
      clashingPool :=
    .trans (Pool.run_alone _ [.busy clashingGermany _] [] clashingFrance _ [])
      (Pool.run_alone _ [] [.done _] clashingGermany _ _)
  have hresults : clashingResults.mapM id = .error clashingFault := by cbv
  have hends : clashingPool.Ends clashingResults := rfl
  rw [← hparts] at hrun
  have hbuilt : BuiltSideBySide germanyFrance ⟨.ripencc, .ipv4⟩ clashingRecords
      (.error clashingFault) clashingJournal := by
    have hcoalesced := @BuiltSideBySide.coalesced germanyFrance _ _ _ _ _ hhs hrun hends
    rw [hresults] at hcoalesced
    -- no note is added at the end
    rw [← List.append_nil clashingJournal]
    exact hcoalesced
  obtain ⟨hfault, -, -, hnoted⟩ := (schedules_agree _ _ _).2.2 _ _ hbuilt
  exact ⟨hbuilt, by cbv, hfault.symm, hnoted _ rfl⟩

end Delegation
