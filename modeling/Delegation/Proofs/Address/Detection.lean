import Delegation.Proofs.Address.Grammar

/-!
# Telling the family of a text

Which family a text belongs to is guessed from its separators, before the text is read.  The guess
never loses an address: a text that denotes an IPv4 address has points and no colons, and one that
denotes an IPv6 address has colons and no points, be it only `::` (`Family.Denotes.separators`).  So
no text denotes addresses of both families, and reading with a guess accepts what the reader of
either family accepts.

A text that is not accepted is refused as malformed.  With both kinds of separators it is taken for
an IPv6 text, and with neither for an IPv4 text, but no address is read from it in either family.

Main result: `parseAddress_accepts_either_family`.
-/

namespace Delegation

open Address Sequence

variable {f g : Family} {a b : Nat} {text : String} {fault : Fault}

/-! ## Separators -/

/-- There are no points in the text. -/
lemma Address.Hextets.Denotes.dot_not_mem {text : List Char} (h : Hextets.Denotes text a) :
    '.' ∉ text := by
  cases h with
  | plain htext => exact htext.dot_not_mem
  | gap hbefore hafter => simp [hbefore.dot_not_mem, hafter.dot_not_mem]

namespace Family.Denotes

/-- The texts of each family have separators of one kind, and the other family has the other
kind. -/
theorem separators {text : List Char} (h : f.Denotes text a) :
    ('.' ∈ text ↔ f = .ipv4) ∧ (':' ∈ text ↔ f = .ipv6) := by
  cases f with
  | ipv4 =>
    obtain ⟨hdot, hcolon⟩ := Dotted.Denotes.separators h
    simp [hdot, hcolon]
  | ipv6 =>
    have hdot := Hextets.Denotes.dot_not_mem h
    have hcolon := Hextets.Denotes.colon_mem h
    simp [hdot, hcolon]

/-- A text denotes addresses of one family only. -/
lemma family_eq {text : List Char} (hf : f.Denotes text a) (hg : g.Denotes text b) : f = g :=
  Option.some.inj (hf.detect_eq.symm.trans hg.detect_eq)

end Family.Denotes

/-! ## Refused texts -/

/-- Reading fails on malformed texts only. -/
lemma Family.exists_flaw_of_parse (h : f.parse text = .error fault) :
    ∃ flaw : AddressFlaw, fault = .malformedAddress f text flaw.text := by
  simp only [parse] at h
  split at h
  · cases h
  · next flaw _ => exact ⟨flaw, (Except.error.inj h).symm⟩

/-- Reading with a guess fails on malformed texts only, and names the family that was guessed. -/
lemma exists_flaw_of_parseAddress (h : parseAddress text = .error fault) :
    ∃ flaw : AddressFlaw,
      fault = .malformedAddress ((Family.detect text.toList).getD .ipv4) text flaw.text := by
  rw [parseAddress] at h
  cases hdetect : Family.detect text.toList with
  | none =>
    rw [hdetect] at h
    exact ⟨.noSeparator, (Except.error.inj h).symm⟩
  | some f =>
    rw [hdetect] at h
    exact Family.exists_flaw_of_parse (map_eq_error_iff.mp h)

/-! ## Both families -/

/-- An address is read with a guess exactly if it is read in its family.  No text is read in both
families, so the texts that are accepted are those of either grammar, and they have separators of
one kind.  Any other text is refused as malformed. -/
theorem parseAddress_accepts_either_family (text : String) :
    (∀ f a, parseAddress text = .ok (f, a) ↔ f.parse text = .ok a) ∧
    (∀ a b, Family.ipv4.parse text = .ok a → Family.ipv6.parse text ≠ .ok b) ∧
    ((∃ f a, parseAddress text = .ok (f, a)) ↔
      (∃ a, Dotted.Denotes text.toList a) ∨ ∃ a, Hextets.Denotes text.toList a) ∧
    (∀ f a, parseAddress text = .ok (f, a) →
      ('.' ∈ text.toList ↔ f = .ipv4) ∧ (':' ∈ text.toList ↔ f = .ipv6)) ∧
    ∀ fault, parseAddress text = .error fault → ∃ flaw : AddressFlaw,
      fault = .malformedAddress ((Family.detect text.toList).getD .ipv4) text flaw.text := by
  refine ⟨fun f a => parseAddress_eq_ok_iff, fun a b h4 h6 => ?_, ?_, fun f a h => ?_,
    fun fault => exists_flaw_of_parseAddress⟩
  · rw [Family.parse_eq_ok_iff] at h4 h6
    cases h4.family_eq h6
  · simp only [parseAddress_eq_ok_iff, Family.parse_eq_ok_iff]
    constructor
    · rintro ⟨f, a, h⟩
      cases f with
      | ipv4 => exact .inl ⟨a, h⟩
      | ipv6 => exact .inr ⟨a, h⟩
    · rintro (⟨a, h⟩ | ⟨a, h⟩)
      · exact ⟨.ipv4, a, h⟩
      · exact ⟨.ipv6, a, h⟩
  · rw [parseAddress_eq_ok_iff, Family.parse_eq_ok_iff] at h
    exact h.separators

/-- A text that is a gap and nothing else, and one with separators of both kinds. -/
theorem parseAddress_accepts_either_family_gap :
    Family.ipv6.parse "::" = .ok 0 ∧ parseAddress "::" = .ok (.ipv6, 0) ∧
      (∀ a, Family.ipv4.parse "::" ≠ .ok a) ∧
      ∃ flaw : AddressFlaw,
        parseAddress "::1.2.3.4" = .error (.malformedAddress .ipv6 "::1.2.3.4" flaw.text) := by
  obtain ⟨hsame, hapart, -, -, -⟩ := parseAddress_accepts_either_family "::"
  obtain ⟨-, -, -, hseparators, hmalformed⟩ := parseAddress_accepts_either_family "::1.2.3.4"
  have hgap : Family.ipv6.parse "::" = .ok 0 := by decide
  refine ⟨hgap, (hsame .ipv6 0).mpr hgap, fun a ha => hapart a 0 ha hgap, ?_⟩
  cases hparse : parseAddress "::1.2.3.4" with
  | ok address =>
    obtain ⟨hdot, hcolon⟩ := hseparators _ _ hparse
    cases (hdot.mp (by decide)).symm.trans (hcolon.mp (by decide))
  | error fault =>
    obtain ⟨flaw, rfl⟩ := hmalformed fault hparse
    exact ⟨flaw, rfl⟩

/-- Without a separator a text is of no family. -/
example : parseAddress "16909060" =
    .error (.malformedAddress .ipv4 "16909060" "neither dotted nor colon-separated") := by decide

end Delegation
