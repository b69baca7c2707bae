import Delegation.Proofs.Build.Canonical

/-!
# Records without effect

A build takes no notice of records of other realms, nor of the blocks that the root registry
keeps or lists with a plain state.  It decides this before it looks at the extent of a record,
so such records may delegate no span at all and still are not at fault.  Put in anywhere among
other records, they change nothing but the number of records that were skipped.

`Inserted` says that one list arises from another by putting elements in, and
`Record.unrelated_iff` that the records in question are exactly those of no group.

Main result: `build_of_inserted`.
-/

namespace Delegation

open Sequence

/-! ## Insertions -/

/-- The list `B` arises from `A` by putting the elements `E` in, in their order and at any
places. -/
inductive Inserted {α : Type} : List α → List α → List α → Prop where
  | nil : Inserted [] [] []
  | keep {A E B : List α} (x : α) (h : Inserted A E B) : Inserted (x :: A) E (x :: B)
  | insert {A E B : List α} (x : α) (h : Inserted A E B) : Inserted A (x :: E) (x :: B)

namespace Inserted

variable {α : Type} {A E B : List α}

lemma length_eq (h : Inserted A E B) : B.length = A.length + E.length := by
  induction h with
  | nil => rfl
  | keep x h ih => simp only [List.length_cons, ih]; omega
  | insert x h ih => simp only [List.length_cons, ih]; omega

lemma filter (h : Inserted A E B) (p : α → Bool) :
    Inserted (A.filter p) (E.filter p) (B.filter p) := by
  induction h with
  | nil => exact .nil
  | keep x h ih =>
    by_cases hx : p x
    · simpa only [List.filter_cons_of_pos hx] using ih.keep x
    · simpa only [List.filter_cons_of_neg hx] using ih
  | insert x h ih =>
    by_cases hx : p x
    · simpa only [List.filter_cons_of_pos hx] using ih.insert x
    · simpa only [List.filter_cons_of_neg hx] using ih

end Inserted

/-! ## Unrelated records -/

/-- The record is of another realm, or a block that the root registry lists with a plain state
or keeps. -/
def Record.Unrelated (x : Record) (r : Realm) : Prop :=
  x.registry ≠ r.registry ∨ x.family ≠ r.family ∨
    x.registry = .iana ∧ (x.status.isState ∨ x.status = .iana)

instance {x : Record} {r : Realm} : Decidable (x.Unrelated r) :=
  inferInstanceAs (Decidable (_ ∨ _))

namespace Record

variable {x : Record} {r : Realm}

lemma group?_eq_none_iff :
    x.group? = none ↔ x.registry = .iana ∧ (x.status.isState ∨ x.status = .iana) := by
  rw [group?]
  cases x.registry with
  | iana => cases x.status <;> simp [Status.delegatedTo, Status.isState, Status.isRegistry]
  | _ => simp

/-- The unrelated records are those which belong to no group of the realm. -/
theorem unrelated_iff : x.Unrelated r ↔ ∀ g, ¬ x.InGroup r g := by
  rw [Unrelated, ← group?_eq_none_iff, Option.eq_none_iff_forall_ne_some]
  constructor
  · rintro (hregistry | hfamily | hgroup) g hg
    · exact hregistry hg.1
    · exact hfamily hg.2.1
    · exact hgroup g hg.2.2
  · intro hnone
    by_cases hregistry : x.registry = r.registry
    · by_cases hfamily : x.family = r.family
      · exact .inr (.inr fun g hg => hnone g ⟨hregistry, hfamily, hg⟩)
      · exact .inr (.inl hfamily)
    · exact .inl hregistry

end Record

/-- The tally of a build that has skipped `n` further records. -/
def BuildTally.skipping (t : BuildTally) (n : Nat) : BuildTally :=
  { t with records := t.records + n, skipped := t.skipped + n }

namespace Build

variable {r : Realm} {records A E B : List Record}
  {hs : List (Group × Holding)}

lemma grouped_of_inserted (h : Inserted A E B) (hE : ∀ x ∈ E, x.Unrelated r) :
    grouped (ofRealm r B) = grouped (ofRealm r A) := by
  induction h with
  | nil => rfl
  | keep x h ih =>
    by_cases hx : ∃ g, x.InGroup r g
    · obtain ⟨g, hx⟩ := hx
      rw [grouped_cons_of_inGroup hx, grouped_cons_of_inGroup hx, ih hE]
    · rw [grouped_cons_of_not (not_exists.mp hx), grouped_cons_of_not (not_exists.mp hx), ih hE]
  | insert x h ih =>
    rw [List.forall_mem_cons] at hE
    rw [grouped_cons_of_not (Record.unrelated_iff.mp hE.1), ih hE.2]

/-- The same holdings are read, or the same record is at fault. -/
lemma holdings_of_inserted (h : Inserted A E B) (hE : ∀ x ∈ E, x.Unrelated r) :
    holdings r B = holdings r A := by
  rw [holdings, holdings, grouped_of_inserted h hE]

lemma length_le_of_holdings (hhs : holdings r records = .ok hs) :
    hs.length ≤ (ofRealm r records).length := by
  rw [length_of_mapM hhs]
  exact List.length_filterMap_le ..

/-- A build that skips further records counts them and does nothing else with them. -/
theorem buildTallied_of_inserted (table : CountryTable) (h : Inserted A E B)
    (hE : ∀ x ∈ E, x.Unrelated r) :
    buildTallied table r B =
      (buildTallied table r A).map fun (x, t) => (x, t.skipping (ofRealm r E).length) := by
  have hlength : (ofRealm r B).length = (ofRealm r A).length + (ofRealm r E).length :=
    (h.filter _).length_eq
  rw [buildTallied, buildTallied, holdings_of_inserted h hE]
  cases hhs : holdings r A with
  | error f => rfl
  | ok hs =>
    have hle := length_le_of_holdings hhs
    simp only [bind, Except.bind]
    cases (partitions hs).mapM (coalesceTallied r) with
    | error f => rfl
    | ok coalesced =>
      simp only
      cases entries table r (coalesced.flatMap (·.1)) with
      | error f => rfl
      | ok es =>
        simp only [pure, Except.pure, Except.map, BuildTally.skipping, hlength]
        rw [Nat.sub_add_comm hle]

end Build

/-- Unrelated records change neither the index nor the fault of a build, wherever they are put
in and whatever they delegate.  Only those of the realm are counted, and only as skipped. -/
theorem build_of_inserted (table : CountryTable) {r : Realm} {A E B : List Record}
    (h : Inserted A E B) (hE : ∀ x ∈ E, x.Unrelated r) :
    build table r B = build table r A ∧
      buildTallied table r B =
        (buildTallied table r A).map fun (x, t) => (x, t.skipping (Build.ofRealm r E).length) := by
  have htallied := Build.buildTallied_of_inserted table h hE
  refine ⟨?_, htallied⟩
  rw [build, build, htallied]
  cases buildTallied table r A <;> rfl

/-- Records that delegate nothing or too much, of another registry, of another family, or of no
group. -/
def strayRecords : List Record :=
  [rootBlock 0 0 .allocated, ⟨.apnic, .unknown, .ipv4, 0, .length 255, .assigned⟩,
    ⟨.iana, .unknown, .ipv6, 0, .count 0, .arin⟩, rootBlock (2 ^ 32 - 1) 256 .iana]

/-- The blocks of `wholeBlocks` among `strayRecords`. -/
def mingledRecords : List Record :=
  [rootBlock 0 0 .allocated, rootBlock 0 512 .apnic,
    ⟨.apnic, .unknown, .ipv4, 0, .length 255, .assigned⟩,
    ⟨.iana, .unknown, .ipv6, 0, .count 0, .arin⟩, rootBlock 512 256 .arin,
    rootBlock (2 ^ 32 - 1) 256 .iana]

theorem build_of_inserted_stray :
    Inserted wholeBlocks strayRecords mingledRecords ∧
      (∀ x ∈ strayRecords, x.Unrelated ⟨.iana, .ipv4⟩) ∧
      build unknownOnly ⟨.iana, .ipv4⟩ mingledRecords =
        build unknownOnly ⟨.iana, .ipv4⟩ wholeBlocks ∧
      ∃ x, buildTallied unknownOnly ⟨.iana, .ipv4⟩ wholeBlocks =
          .ok (x, ⟨2, 2, 0, 2, ⟨2, 0, 0, 0, 2⟩, 2⟩) ∧
        buildTallied unknownOnly ⟨.iana, .ipv4⟩ mingledRecords =
          .ok (x, ⟨4, 2, 2, 2, ⟨2, 0, 0, 0, 2⟩, 2⟩) := by
  have hins : Inserted wholeBlocks strayRecords mingledRecords :=
    .insert _ (.keep _ (.insert _ (.insert _ (.keep _ (.insert _ .nil)))))
  have hstray : ∀ x ∈ strayRecords, x.Unrelated ⟨.iana, .ipv4⟩ := by decide
  have hwhole : buildTallied unknownOnly ⟨.iana, .ipv4⟩ wholeBlocks =
      .ok (⟨⟨.iana, .ipv4⟩, #[⟨⟨0, 511⟩, 0, 2⟩, ⟨⟨512, 767⟩, 0, 3⟩]⟩,
        ⟨2, 2, 0, 2, ⟨2, 0, 0, 0, 2⟩, 2⟩) := by cbv
  obtain ⟨hbuild, htallied⟩ := build_of_inserted unknownOnly hins hstray
  refine ⟨hins, hstray, hbuild, _, hwhole, ?_⟩
  rw [htallied, hwhole]
  rfl

end Delegation
