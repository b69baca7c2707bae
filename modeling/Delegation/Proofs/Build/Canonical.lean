import Delegation.Proofs.Build.Stages
import Delegation.Proofs.Ownership

/-!
# Indexes are canonical

The runs of all groups, each with its group as the owner, are in normal form: they are in
ascending order, share no address, and runs that touch have different owners.  A normal list
is determined by who owns which address.  So two indexes of one realm whose records delegate
the same addresses to the same groups have the same bounds and the same codes of the groups,
whatever the records are and in whatever order they come (`outline_eq_of_ownedBy`).

Records may be reordered, cut into adjacent pieces, repeated, or joined by records that lie
inside others of their group.  Such an `Edit` leaves every address to the groups that have it
(`Edit.ownedBy_iff`).

Main result: `build_canonical`.
-/

namespace Delegation

open Sequence

/-! ## Outlines -/

/-- The code of the group of an entry: its status code at the root registry, its country code
elsewhere. -/
def Entry.groupCode (registry : Registry) (e : Entry) : Nat :=
  match registry with
  | .iana => e.statusCode
  | _ => e.countryCode

/-- The span of each entry with the code of its group, in their order. -/
def RangeIndex.outline (x : RangeIndex) : List (Span × Nat) :=
  x.entries.toList.map fun e => (e.toSpan, e.groupCode x.realm.registry)

/-- The code of a group. -/
def Group.codeIn (table : CountryTable) : Group → Except Fault Nat
  | .country c => table.codeOf c
  | .status s => .ok s.code

/-- What an outline has for a tenure of a group. -/
def Tenure.outlined (table : CountryTable) (t : Tenure Group) : Except Fault (Span × Nat) :=
  (t.owner.codeIn table).map fun code => (t.toSpan, code)

/-- The records are of one realm, and of one group if they are of any. -/
structure Record.Alongside (x y : Record) : Prop where
  registry_eq : y.registry = x.registry
  family_eq : y.family = x.family
  group?_eq : y.group? = x.group?

namespace Build

open Tenure (Normal Owns)

variable {table : CountryTable} {r : Realm} {records A B : List Record} {x y : RangeIndex}
  {runs : List Holding} {h k j : Holding} {e : Entry} {u v : Record} {g : Group} {a : Nat}

/-! ## Runs as tenures -/

/-- A run with its group as the owner. -/
def tenure (registry : Registry) (k : Holding) : Tenure Group := ⟨k.toSpan, k.groupIn registry⟩

/-- The entry of a run has the code of the group of the run. -/
lemma codeIn_groupIn {f : Family} (registry : Registry) (h : encode table f k = .ok e) :
    (k.groupIn registry).codeIn table = .ok (e.groupCode registry) := by
  obtain ⟨-, code, hcode, rfl⟩ := encode_eq_ok_iff.mp h
  -- the root registry has the status code, which needs no table
  cases registry with
  | iana => rfl
  | _ => exact hcode

lemma outlined_tenure {f : Family} {registry : Registry} (h : encode table f k = .ok e) :
    (tenure registry k).outlined table = .ok (e.toSpan, e.groupCode registry) := by
  have hcode := codeIn_groupIn registry h
  obtain ⟨-, code, -, rfl⟩ := encode_eq_ok_iff.mp h
  exact map_eq_ok_iff.mpr ⟨_, hcode, rfl⟩

namespace Built

/-- The tenures of an index are in normal form. -/
theorem normal_tenures (hb : Built table r records x runs) :
    Normal (runs.map (tenure r.registry)) := by
  refine ⟨?_, ?_, ?_⟩
  · rw [List.forall_mem_map]
    exact hb.allRuns.first_le_last
  · rw [List.pairwise_map]
    exact hb.ordered
  · rw [List.pairwise_map]
    refine (hb.ordered.and hb.allRuns.apart).imp_of_mem ?_
    rintro k j hk hj ⟨hlt, hapart⟩ htouch heq
    -- runs of one group would have a gap between them
    have hgap := hapart heq
    have hkle := hb.allRuns.first_le_last k hk
    have hjle := hb.allRuns.first_le_last j hj
    have htouch : k.last + 1 = j.first := htouch
    omega

/-- The tenures of an index say what the records say. -/
lemma owns_tenures_iff (hb : Built table r records x runs) :
    Owns (runs.map (tenure r.registry)) g a ↔ OwnedBy r records g a := by
  rw [← hb.exists_run_iff]
  constructor
  · rintro ⟨t, ht, hg, ha⟩
    obtain ⟨k, hk, rfl⟩ := List.mem_map.mp ht
    exact ⟨k, hk, hg, ha⟩
  · rintro ⟨k, hk, hg, ha⟩
    exact ⟨tenure r.registry k, List.mem_map_of_mem hk, hg, ha⟩

/-- The tenures of an index determine its outline. -/
lemma outlined_tenures (hb : Built table r records x runs) :
    (runs.map (tenure r.registry)).mapM (Tenure.outlined table) = .ok x.outline := by
  rw [List.mapM_map, RangeIndex.outline, hb.realm_eq]
  exact mapM_eq_ok_map hb.encoded fun k e hk => outlined_tenure hk

end Built

/-- Indexes whose records delegate the same addresses to the same groups have one outline. -/
theorem outline_eq_of_ownedBy (hx : build table r A = .ok x) (hy : build table r B = .ok y)
    (howned : ∀ g a, OwnedBy r A g a ↔ OwnedBy r B g a) : x.outline = y.outline := by
  obtain ⟨runs, hbx⟩ := built_of_build hx
  obtain ⟨runs', hby⟩ := built_of_build hy
  have hsame : runs.map (tenure r.registry) = runs'.map (tenure r.registry) := by
    refine hbx.normal_tenures.eq_of_owns hby.normal_tenures ?_
    intro g a
    rw [hbx.owns_tenures_iff, hby.owns_tenures_iff]
    exact howned g a
  have hout := hbx.outlined_tenures
  rw [hsame, hby.outlined_tenures] at hout
  exact (Except.ok.inj hout).symm

/-! ## Edits -/

/-- A change of a list of records that leaves every address to the groups that have it. -/
inductive Edit : List Record → List Record → Prop where
  /-- The records come in another order. -/
  | reorder {A B : List Record} (h : A.Perm B) : Edit A B
  /-- A record is cut into two adjacent pieces. -/
  | cut {A : List Record} {x y z : Record} {h k j : Holding} (hy : x.Alongside y)
      (hz : x.Alongside z) (hx : x.holding = .ok h) (hk : y.holding = .ok k)
      (hj : z.holding = .ok j) (hfirst : k.first = h.first) (htouch : k.last + 1 = j.first)
      (hlast : j.last = h.last) : Edit (x :: A) (y :: z :: A)
  /-- A record is repeated. -/
  | duplicate {A : List Record} {x : Record} (hx : x ∈ A) : Edit A (x :: A)
  /-- A record is added that lies inside another one of its group. -/
  | contained {A : List Record} {x y : Record} {h k : Holding} (hmem : x ∈ A)
      (hy : x.Alongside y) (hx : x.holding = .ok h) (hk : y.holding = .ok k)
      (hfirst : h.first ≤ k.first) (hlast : k.last ≤ h.last) : Edit A (y :: A)

lemma inGroup_iff_of_alongside (hv : u.Alongside v) : v.InGroup r g ↔ u.InGroup r g := by
  rw [Record.InGroup, Record.InGroup, hv.registry_eq, hv.family_eq, hv.group?_eq]

lemma ownedBy_cons_iff (hu : u.holding = .ok h) :
    OwnedBy r (u :: A) g a ↔ u.InGroup r g ∧ h.contains a ∨ OwnedBy r A g a := by
  simp [OwnedBy, hu]

/-- An address lies in a span exactly if it lies in one of two pieces of it. -/
lemma contains_iff_of_cut (hkle : k.first ≤ k.last) (hjle : j.first ≤ j.last)
    (hfirst : k.first = h.first) (htouch : k.last + 1 = j.first) (hlast : j.last = h.last) :
    h.contains a ↔ k.contains a ∨ j.contains a := by
  simp only [Span.contains_iff]
  omega

/-- An edit leaves every address to the groups that have it. -/
theorem Edit.ownedBy_iff (he : Edit A B) : OwnedBy r A g a ↔ OwnedBy r B g a := by
  cases he with
  | reorder hp => simp only [OwnedBy, hp.mem_iff]
  | cut hy hz hx hk hj hfirst htouch hlast =>
    have hkle := (Record.bounds_of_holding hk).1
    have hjle := (Record.bounds_of_holding hj).1
    rw [ownedBy_cons_iff hx, ownedBy_cons_iff hk, ownedBy_cons_iff hj,
      inGroup_iff_of_alongside hy, inGroup_iff_of_alongside hz, ← or_assoc, ← and_or_left]
    rw [contains_iff_of_cut hkle hjle hfirst htouch hlast]
  | duplicate hx =>
    constructor
    · rintro ⟨u, hu, hown⟩
      exact ⟨u, List.mem_cons_of_mem _ hu, hown⟩
    · rintro ⟨u, hu, hown⟩
      rcases List.mem_cons.mp hu with rfl | hu
      · exact ⟨u, hx, hown⟩
      · exact ⟨u, hu, hown⟩
  | @contained _ u v h k hmem hv hu hk hfirst hlast =>
    rw [ownedBy_cons_iff hk, inGroup_iff_of_alongside hv]
    refine ⟨.inr, ?_⟩
    rintro (⟨hg, ha⟩ | hown)
    · -- the record around it has the address as well
      rw [Span.contains_iff] at ha
      exact ⟨u, hmem, hg, h, hu, Span.contains_iff.mpr ⟨by omega, by omega⟩⟩
    · exact hown

/-- So do any number of edits, forth and back. -/
lemma ownedBy_iff_of_edits (he : Relation.EqvGen Edit A B) :
    OwnedBy r A g a ↔ OwnedBy r B g a := by
  -- each edit keeps the owners, so every chain of edits does
  induction he with
  | rel A B hab => exact hab.ownedBy_iff
  | refl A => exact Iff.rfl
  | symm A B _ ih => exact ih.symm
  | trans A B C _ _ ih ih' => exact ih.trans ih'

end Build

open Build

/-- Two indexes of a realm have one outline if their records delegate the same addresses to
each group; in particular, if edits lead from the ones to the others. -/
theorem build_canonical {table : CountryTable} {r : Realm} {A B : List Record} {x y : RangeIndex}
    (hx : build table r A = .ok x) (hy : build table r B = .ok y) :
    ((∀ g a, OwnedBy r A g a ↔ OwnedBy r B g a) → x.outline = y.outline) ∧
      (Relation.EqvGen Edit A B → x.outline = y.outline) := by
  have hcanonical := outline_eq_of_ownedBy hx hy
  exact ⟨hcanonical, fun he => hcanonical fun g a => ownedBy_iff_of_edits he⟩

/-- A block that the root registry lists with a status. -/
def rootBlock (first count : Nat) (s : Status) : Record :=
  ⟨.iana, .unknown, .ipv4, first, .count count, s⟩

/-- Two blocks. -/
def wholeBlocks : List Record := [rootBlock 0 512 .apnic, rootBlock 512 256 .arin]

/-- The blocks of `wholeBlocks` out of order, one of them cut and a part of it repeated, and the
other one twice. -/
def editedBlocks : List Record :=
  [rootBlock 512 256 .arin, rootBlock 300 212 .apnic, rootBlock 100 50 .apnic,
    rootBlock 0 300 .apnic, rootBlock 512 256 .arin]

/-- Edits lead from `wholeBlocks` to `editedBlocks`. -/
lemma edits_wholeBlocks : Relation.EqvGen Edit wholeBlocks editedBlocks := by
  have hcut : Edit wholeBlocks
      [rootBlock 0 300 .apnic, rootBlock 300 212 .apnic, rootBlock 512 256 .arin] :=
    .cut (h := ⟨⟨0, 511⟩, .unknown, .apnic⟩) (k := ⟨⟨0, 299⟩, .unknown, .apnic⟩)
      (j := ⟨⟨300, 511⟩, .unknown, .apnic⟩) ⟨rfl, rfl, rfl⟩ ⟨rfl, rfl, rfl⟩ (by cbv) (by cbv)
      (by cbv) rfl rfl rfl
  have hcontained : Edit [rootBlock 0 300 .apnic, rootBlock 300 212 .apnic, rootBlock 512 256 .arin]
      [rootBlock 100 50 .apnic, rootBlock 0 300 .apnic, rootBlock 300 212 .apnic,
        rootBlock 512 256 .arin] :=
    .contained (x := rootBlock 0 300 .apnic) (h := ⟨⟨0, 299⟩, .unknown, .apnic⟩)
      (k := ⟨⟨100, 149⟩, .unknown, .apnic⟩) (by decide) ⟨rfl, rfl, rfl⟩ (by cbv) (by cbv)
      (by decide) (by decide)
  have hduplicate : Edit [rootBlock 100 50 .apnic, rootBlock 0 300 .apnic, rootBlock 300 212 .apnic,
        rootBlock 512 256 .arin]
      [rootBlock 512 256 .arin, rootBlock 100 50 .apnic, rootBlock 0 300 .apnic,
        rootBlock 300 212 .apnic, rootBlock 512 256 .arin] :=
    .duplicate (by decide)
  have hreorder : Edit [rootBlock 512 256 .arin, rootBlock 100 50 .apnic, rootBlock 0 300 .apnic,
        rootBlock 300 212 .apnic, rootBlock 512 256 .arin] editedBlocks :=
    .reorder (by decide)
  exact .trans _ _ _ (.rel _ _ hcut) (.trans _ _ _ (.rel _ _ hcontained)
    (.trans _ _ _ (.rel _ _ hduplicate) (.rel _ _ hreorder)))

/-- A table of one country. -/
def unknownOnly : CountryTable := ⟨[.unknown], by decide, by decide⟩

theorem build_canonical_blocks :
    ∃ x y, build unknownOnly ⟨.iana, .ipv4⟩ wholeBlocks = .ok x ∧
      build unknownOnly ⟨.iana, .ipv4⟩ editedBlocks = .ok y ∧ x.outline = y.outline ∧
      x.outline = [(⟨0, 511⟩, 2), (⟨512, 767⟩, 3)] := by
  have hwhole : build unknownOnly ⟨.iana, .ipv4⟩ wholeBlocks =
      .ok ⟨⟨.iana, .ipv4⟩, #[⟨⟨0, 511⟩, 0, 2⟩, ⟨⟨512, 767⟩, 0, 3⟩]⟩ := by cbv
  have hedited : build unknownOnly ⟨.iana, .ipv4⟩ editedBlocks =
      .ok ⟨⟨.iana, .ipv4⟩, #[⟨⟨0, 511⟩, 0, 2⟩, ⟨⟨512, 767⟩, 0, 3⟩]⟩ := by cbv
  exact ⟨_, _, hwhole, hedited, (build_canonical hwhole hedited).2 edits_wholeBlocks, rfl⟩

end Delegation
