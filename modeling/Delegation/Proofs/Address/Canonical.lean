import Delegation.Proofs.Address.Grammar

/-!
# The canonical texts of addresses

Writing an address groups its digits, renders each group and joins the groups; every text written
so denotes the address it was written for (`Family.denotes_canonicalText`).  With the readers
accepting exactly the texts that denote an address, the canonical texts are one text for each
address of a family: reading and writing are inverse to each other on them, and of all the texts
of one address the canonical one is the one that is written.
-/

namespace Delegation

open Delegation.Text Delegation.Address Delegation.Sequence

namespace Address

variable {base n k address : Nat}

/-- The digits of a number fit into as many places as its size needs. -/
lemma length_toDigits_le (hbase : 1 < base) (hk : 0 < k) (hn : n < base ^ k) :
    (Nat.toDigits base n).length ≤ k :=
  (Nat.length_toDigits_le_iff hbase hk).mpr hn

namespace Dotted

lemma isOctet_decimal (h : n < 256) : IsOctet (decimal n) n where
  numeral := isNumeral_toDigits (by decide) (by decide) n
  length_le := length_toDigits_le (by decide) (by decide) (by omega)
  le := Nat.le_of_lt_succ h

/-- The text of an address denotes it. -/
theorem denotes_write (h : address < 2 ^ 32) : Denotes (write address) address := by
  have hoctets : List.Forall₂ IsOctet ((groups 256 4 address).map decimal)
      (groups 256 4 address) := by
    rw [List.forall₂_map_left_iff, List.forall₂_same]
    exact fun n hn => isOctet_decimal (lt_of_mem_groups (by decide) hn)
  have hdenotes := Denotes.octets hoctets (length_groups 256 4 address)
  rwa [ofGroups_groups (by omega)] at hdenotes

end Dotted

namespace Hextets

lemma isHextet_toDigits (h : n < 65536) : IsHextet (Nat.toDigits 16 n) n where
  numeral := isNumeral_toDigits (by decide) (by decide) n
  length_le := length_toDigits_le (k := 4) (by decide) (by decide) h

lemma IsHextet.leftpad {part : List Char} (h : IsHextet part n) :
    IsHextet (part.leftpad 4 '0') n where
  numeral := h.numeral.leftpad (by decide) 4
  length_le := by
    have hlength := h.length_le
    rw [List.leftpad, List.length_append, List.length_replicate]
    omega

/-- Hextets written one by one with colons between them. -/
lemma denotesHextets_joined {write : Nat → List Char} {hextets : List Nat}
    (h : ∀ n ∈ hextets, IsHextet (write n) n) :
    DenotesHextets (joined ':' (hextets.map write)) hextets := by
  refine ⟨hextets.map write, ?_, rfl⟩
  rwa [List.forall₂_map_left_iff, List.forall₂_same]

lemma lt_of_mem_ofAddress (hn : n ∈ ofAddress address) : n < 65536 :=
  lt_of_mem_groups (by decide) hn

lemma ofGroups_ofAddress (h : address < 2 ^ 128) : ofGroups 65536 (ofAddress address) = address :=
  ofGroups_groups (by omega)

/-- The text with all its digits denotes the address. -/
theorem denotes_writeFull (h : address < 2 ^ 128) : Denotes (writeFull address) address := by
  have hhextets : DenotesHextets (writeFull address) (ofAddress address) :=
    denotesHextets_joined fun n hn => (isHextet_toDigits (lt_of_mem_ofAddress hn)).leftpad
  have hdenotes := Denotes.plain hhextets (length_groups 65536 8 address)
  rwa [ofGroups_ofAddress h] at hdenotes

end Hextets

end Address

namespace Family

variable {f : Family} {a b : Nat} {text : String} {fault : Fault}

/-- The canonical text of an address denotes it. -/
theorem denotes_canonicalText (h : a ≤ f.maxAddress) :
    f.Denotes (f.canonicalText a).toList a := by
  rw [le_maxAddress_iff] at h
  cases f with
  | ipv4 => simpa [canonicalText, Denotes] using Dotted.denotes_write h
  | ipv6 => simpa [canonicalText, Denotes] using Hextets.denotes_writeFull h

/-- A text denotes one address at most. -/
theorem Denotes.eq {text : List Char} (ha : f.Denotes text a) (hb : f.Denotes text b) : a = b := by
  rw [← String.toList_ofList (l := text), ← parse_eq_ok_iff] at ha hb
  exact Except.ok.inj (ha.symm.trans hb)

/-- The numbers that are no address of the family are refused, with their width. -/
lemma check_eq_error_iff :
    f.check a = .error fault ↔ f.maxAddress < a ∧
      fault = .rangeOverflow f a
        ("value " ++ toString a ++ " exceeds " ++ toString f.width ++ "-bit width") := by
  rw [check]
  split
  · next h => simp [Nat.not_lt.mpr h]
  · next h => simp [Nat.lt_of_not_le h, eq_comm]

lemma format_eq_ok_iff : f.format a = .ok text ↔ a ≤ f.maxAddress ∧ text = f.canonicalText a := by
  simp only [format, map_eq_ok_iff, check_eq_ok_iff, and_assoc, exists_and_left, exists_eq_left]
  rw [eq_comm (a := text)]

lemma format_eq_error_iff : f.format a = .error fault ↔ f.check a = .error fault := by
  rw [format]
  cases f.check a <;> simp [Except.map]

/-- Different addresses have different canonical texts. -/
lemma canonicalText_inj (ha : a ≤ f.maxAddress) (hb : b ≤ f.maxAddress)
    (h : f.canonicalText a = f.canonicalText b) : a = b := by
  have hdenotes := denotes_canonicalText ha
  rw [h] at hdenotes
  exact hdenotes.eq (denotes_canonicalText hb)

end Family

/-- Writing an address in its canonical text fails for the numbers beyond the last address only.
The text is read back as the address, also when its family is not known.  Two texts have one
canonical text exactly when they denote one address, and the canonical text is its own. -/
theorem canonical_text_round_trip (f : Family) :
    (∀ a fault, f.format a = .error fault ↔ f.maxAddress < a ∧
      fault = .rangeOverflow f a
        ("value " ++ toString a ++ " exceeds " ++ toString f.width ++ "-bit width")) ∧
    (∀ a ≤ f.maxAddress, ∃ text, f.format a = .ok text ∧ f.parse text = .ok a ∧
      Family.detect text.toList = some f ∧ parseAddress text = .ok (f, a)) ∧
    (∀ text₁ text₂ a₁ a₂, f.parse text₁ = .ok a₁ → f.parse text₂ = .ok a₂ →
      (f.format a₁ = f.format a₂ ↔
        ∃ a, f.Denotes text₁.toList a ∧ f.Denotes text₂.toList a)) ∧
    ∀ text a, f.parse text = .ok a → ∃ canonical, f.format a = .ok canonical ∧
      f.parse canonical = .ok a ∧ f.parse canonical >>= f.format = .ok canonical := by
  have hwrite : ∀ a ≤ f.maxAddress, f.format a = .ok (f.canonicalText a) :=
    fun a ha => Family.format_eq_ok_iff.mpr ⟨ha, rfl⟩
  have hread : ∀ a ≤ f.maxAddress, f.parse (f.canonicalText a) = .ok a :=
    fun a ha => Family.parse_eq_ok_iff.mpr (Family.denotes_canonicalText ha)
  refine ⟨fun a fault => ?_, fun a ha => ?_, fun text₁ text₂ a₁ a₂ h₁ h₂ => ?_,
    fun text a h => ?_⟩
  · rw [Family.format_eq_error_iff, Family.check_eq_error_iff]
  · exact ⟨f.canonicalText a, hwrite a ha, hread a ha,
      (Family.denotes_canonicalText ha).detect_eq, parseAddress_eq_ok_iff.mpr (hread a ha)⟩
  · have hdenotes₁ := Family.parse_eq_ok_iff.mp h₁
    have hdenotes₂ := Family.parse_eq_ok_iff.mp h₂
    constructor
    · intro heq
      rw [hwrite a₁ hdenotes₁.le_maxAddress, hwrite a₂ hdenotes₂.le_maxAddress] at heq
      have hsame := Family.canonicalText_inj hdenotes₁.le_maxAddress hdenotes₂.le_maxAddress
        (Except.ok.inj heq)
      exact ⟨a₁, hdenotes₁, hsame ▸ hdenotes₂⟩
    · rintro ⟨a, ha₁, ha₂⟩
      rw [hdenotes₁.eq ha₁, hdenotes₂.eq ha₂]
  · have ha := (Family.parse_eq_ok_iff.mp h).le_maxAddress
    exact ⟨f.canonicalText a, hwrite a ha, hread a ha, by rw [hread a ha]; exact hwrite a ha⟩

/-- Two texts of one IPv6 address, with and without a gap, and the number behind the last
address. -/
theorem canonical_text_round_trip_gap :
    Family.ipv6.format (2 ^ 128) = .error (.rangeOverflow .ipv6 (2 ^ 128)
      "value 340282366920938463463374607431768211456 exceeds 128-bit width") ∧
    parseAddress "2001:0db8:0000:0000:0000:0000:0000:0001" =
      .ok (.ipv6, 0x20010db8 * 2 ^ 96 + 1) ∧
    (∃ a, Family.ipv6.Denotes "2001:DB8::1".toList a ∧
      Family.ipv6.Denotes "2001:db8:0:0:0:0:0:1".toList a) ∧
    Family.ipv6.parse "2001:0db8:0000:0000:0000:0000:0000:0001" >>= Family.ipv6.format =
      .ok "2001:0db8:0000:0000:0000:0000:0000:0001" := by
  obtain ⟨hrefused, hwritten, hsame, hagain⟩ := canonical_text_round_trip .ipv6
  have hgap : Family.ipv6.parse "2001:DB8::1" = .ok (0x20010db8 * 2 ^ 96 + 1) := by decide
  have hplain : Family.ipv6.parse "2001:db8:0:0:0:0:0:1" = .ok (0x20010db8 * 2 ^ 96 + 1) := by
    decide
  have hformat : Family.ipv6.format (0x20010db8 * 2 ^ 96 + 1) =
      .ok "2001:0db8:0000:0000:0000:0000:0000:0001" := by decide
  refine ⟨(hrefused _ _).mpr ⟨by decide, by decide⟩, ?_, (hsame _ _ _ _ hgap hplain).mp rfl, ?_⟩
  · obtain ⟨text, htext, -, -, hread⟩ := hwritten (0x20010db8 * 2 ^ 96 + 1) (by decide)
    rwa [Except.ok.inj (htext.symm.trans hformat)] at hread
  · obtain ⟨canonical, htext, -, hstable⟩ := hagain _ _ hgap
    rwa [Except.ok.inj (htext.symm.trans hformat)] at hstable

end Delegation
