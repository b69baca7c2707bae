import Delegation.Proofs.Address.Canonical
import Delegation.Span

/-!
# The short texts of addresses

A short IPv6 text leaves the first of the longest runs of zero hextets out if it has two or more
of them, and writes an IPv4-mapped address with a dotted end (`Family.IsShortText`).  The run is
found along the hextets from the last one to the first; `longestZeroRun_spec` says which one it is
without that order.

The gap of a short text stands for exactly the run that was left out, so the text denotes its
address.  Dotted ends are refused by the reader.  So a short text is read back as the address that
it was written for unless that address is mapped (`short_text_read_back`).
-/

namespace Delegation

open Delegation.Text Delegation.Address

namespace Address.Hextets

variable {hextets high low : List Nat} {text : List Char} {n position length a : Nat}

/-! ## The first longest run of zeros -/

/-- The zeros between the two parts are the first of the longest runs of zeros of the whole. -/
structure IsFirstLongestRun (high : List Nat) (n : Nat) (low : List Nat) : Prop where
  longest : ∀ before m after,
    before ++ List.replicate m 0 ++ after = high ++ List.replicate n 0 ++ low → m ≤ n
  first : ∀ before after,
    before ++ List.replicate n 0 ++ after = high ++ List.replicate n 0 ++ low →
      high.length ≤ before.length

lemma replicate_leadingZeros_append (hextets : List Nat) :
    List.replicate (leadingZeros hextets) 0 ++ hextets.drop (leadingZeros hextets) = hextets := by
  induction hextets with
  | nil => rfl
  | cons h rest ih =>
    by_cases hzero : h = 0
    · rw [leadingZeros] at ih ⊢
      simpa [hzero, List.replicate_succ] using ih
    · simp [leadingZeros, hzero]

lemma leadingZeros_replicate_append (m : Nat) (after : List Nat) :
    m ≤ leadingZeros (List.replicate m 0 ++ after) := by
  rw [leadingZeros, List.takeWhile_append_of_pos (by simp)]
  simp

/-- The run that is found is a run of zeros, none is longer, and none of its length comes
before. -/
theorem longestZeroRun_spec (h : longestZeroRun hextets = (position, length)) :
    (∃ high low, high ++ List.replicate length 0 ++ low = hextets ∧ high.length = position) ∧
      ∀ before m after, before ++ List.replicate m 0 ++ after = hextets →
        m ≤ length ∧ (m = length → position ≤ before.length) := by
  induction hextets generalizing position length with
  | nil =>
    cases h
    exact ⟨⟨[], [], rfl, rfl⟩, fun before m after hrun => by simp_all⟩
  | cons hextet rest ih =>
    obtain ⟨⟨high, low, hrest, hhigh⟩, hbound⟩ := ih rfl
    rw [longestZeroRun] at h
    dsimp only at h
    -- a run of the whole starts with the first hextet or is one of the rest
    split_ifs at h with hle
    · obtain ⟨rfl, rfl⟩ := Prod.mk.inj h
      refine ⟨⟨[], _, replicate_leadingZeros_append _, rfl⟩, fun before m after hrun => ?_⟩
      refine ⟨?_, fun _ => Nat.zero_le _⟩
      cases before with
      | nil =>
        rw [← hrun]
        exact leadingZeros_replicate_append m after
      | cons first before =>
        exact Nat.le_trans (hbound before m after (List.cons.inj hrun).2).1 hle
    · obtain ⟨rfl, rfl⟩ := Prod.mk.inj h
      refine ⟨⟨hextet :: high, low, by simpa using hrest, by simp [hhigh]⟩,
        fun before m after hrun => ?_⟩
      cases before with
      | nil =>
        have hhere := leadingZeros_replicate_append m after
        rw [List.nil_append] at hrun
        rw [hrun] at hhere
        exact ⟨by omega, fun _ => by omega⟩
      | cons first before =>
        obtain ⟨hm, hposition⟩ := hbound before m after (List.cons.inj hrun).2
        exact ⟨hm, fun heq => Nat.succ_le_succ (hposition heq)⟩

/-! ## Texts without a dotted end -/

/-- The text writes hextets without leading zeros, and a gap for the first longest run of zeros
if there are two or more in it. -/
inductive IsShort : List Nat → List Char → Prop where
  | gap {high low : List Nat} {n : Nat} (hn : 2 ≤ n) (hrun : IsFirstLongestRun high n low) :
      IsShort (high ++ List.replicate n 0 ++ low)
        (writeHextets high ++ [':', ':'] ++ writeHextets low)
  | plain {hextets : List Nat}
      (hruns : ∀ before m after, before ++ List.replicate m 0 ++ after = hextets → m < 2) :
      IsShort hextets (writeHextets hextets)

lemma isShort_writeShort (h : isMapped a = false) : IsShort (ofAddress a) (writeShort a) := by
  rw [writeShort, h]
  generalize ofAddress a = hextets
  cases hfound : longestZeroRun hextets with
  | mk position length =>
    obtain ⟨⟨high, low, rfl, rfl⟩, hbound⟩ := longestZeroRun_spec hfound
    simp only [hfound, Bool.false_eq_true, if_false]
    split_ifs with hlong
    · have hhigh : (high ++ List.replicate length 0 ++ low).take high.length = high := by simp
      have hlow : (high ++ List.replicate length 0 ++ low).drop (high.length + length) = low := by
        simp
      rw [hhigh, hlow]
      exact .gap hlong ⟨fun before m after hrun => (hbound before m after hrun).1,
        fun before after hrun => (hbound before length after hrun).2 rfl⟩
    · refine .plain fun before m after hrun => ?_
      have hm := (hbound before m after hrun).1
      omega

lemma denotesHextets_writeHextets (h : ∀ n ∈ hextets, n < 65536) :
    DenotesHextets (writeHextets hextets) hextets :=
  denotesHextets_joined fun n hn => isHextet_toDigits (h n hn)

/-- The gap stands for the hextets that were left out. -/
theorem IsShort.denotes (h : IsShort hextets text) (hlength : hextets.length = 8)
    (hlt : ∀ n ∈ hextets, n < 65536) : Denotes text (ofGroups 65536 hextets) := by
  cases h with
  | @gap high low n hn hrun =>
    have hhigh : ∀ d ∈ high, d < 65536 := fun d hd => hlt d (by simp [hd])
    have hlow : ∀ d ∈ low, d < 65536 := fun d hd => hlt d (by simp [hd])
    rw [List.length_append, List.length_append, List.length_replicate] at hlength
    have hdenotes := Denotes.gap (denotesHextets_writeHextets hhigh)
      (denotesHextets_writeHextets hlow) (Nat.zero_lt_of_lt hn) hlength
    simpa using hdenotes
  | plain hruns => exact .plain (denotesHextets_writeHextets hlt) hlength

/-! ## Mapped addresses -/

/-- The IPv6 addresses that IPv4 addresses are mapped to. -/
def mappedSpan : Span := ⟨0xffff * 2 ^ 32, 0xffff * 2 ^ 32 + (2 ^ 32 - 1)⟩

/-- The span is the block `::ffff:0:0/96`. -/
example : Family.ipv6.parse "::ffff:0:0" >>= (Span.ofPrefix .ipv6 · 96) = .ok mappedSpan := by
  decide

lemma isMapped_eq_contains : isMapped a = mappedSpan.contains a := by
  rw [Bool.eq_iff_iff, isMapped, Span.contains_iff, mappedSpan, beq_iff_eq]
  constructor
  · intro h
    dsimp only
    omega
  · rintro ⟨hfirst, hlast⟩
    dsimp only at hfirst hlast
    omega

lemma dot_mem_write : '.' ∈ Dotted.write a :=
  sep_mem_joined (by rw [List.length_map, length_groups]; decide)

end Address.Hextets

open Address.Hextets

namespace Family

/-- The short text of an address: dotted for IPv4 and behind `::ffff:` for mapped addresses. -/
inductive IsShortText : Family → Nat → List Char → Prop where
  | dotted (a : Nat) : IsShortText .ipv4 a (Dotted.write a)
  | mapped {a : Nat} (ha : mappedSpan.contains a = true) :
      IsShortText .ipv6 a ("::ffff:".toList ++ Dotted.write (a - mappedSpan.first))
  | hextets {a : Nat} {text : List Char} (ha : mappedSpan.contains a = false)
      (htext : IsShort (ofAddress a) text) : IsShortText .ipv6 a text

variable {f : Family} {a : Nat}

lemma isShortText_shortText (f : Family) (a : Nat) : f.IsShortText a (f.shortText a).toList := by
  rw [shortText.eq_def, String.toList_ofList]
  cases f with
  | ipv4 => exact .dotted a
  | ipv6 =>
    cases hmapped : mappedSpan.contains a with
    | true =>
      have hrest : a % 2 ^ 32 = a - mappedSpan.first := by
        obtain ⟨hfirst, hlast⟩ := Span.contains_iff.mp hmapped
        simp only [mappedSpan] at hfirst hlast ⊢
        omega
      simp only [writeShort, isMapped_eq_contains, hmapped, if_true, hrest]
      exact .mapped hmapped
    | false => exact .hextets hmapped (isShort_writeShort (by rw [isMapped_eq_contains, hmapped]))

/-- Without a dotted end the short text of an address denotes it. -/
lemma IsShortText.denotes {text : List Char} (h : f.IsShortText a text) (ha : a ≤ f.maxAddress)
    (hmapped : ¬ (f = .ipv6 ∧ mappedSpan.contains a = true)) : f.Denotes text a := by
  rw [le_maxAddress_iff] at ha
  cases h with
  | dotted => exact Dotted.denotes_write ha
  | mapped hspan => exact absurd ⟨rfl, hspan⟩ hmapped
  | hextets _ htext =>
    have hdenotes := htext.denotes (length_groups 65536 8 a) fun _ hn => lt_of_mem_ofAddress hn
    rwa [ofGroups_ofAddress ha] at hdenotes

end Family

/-- A text with a colon and a point is refused as an IPv6 text with a dotted end. -/
lemma parseAddress_eq_error_of_dot {text : String} (hcolon : ':' ∈ text.toList)
    (hdot : '.' ∈ text.toList) : parseAddress text =
      .error (.malformedAddress .ipv6 text AddressFlaw.dotted.text) := by
  rw [parseAddress, Family.detect, if_pos hcolon]
  simp only [Family.parse, Hextets.read, if_pos hdot, Except.map]

/-- A short text is read back as the address that it was written for.  Only the texts of mapped
addresses are not, since no dotted end is read. -/
theorem short_text_read_back (f : Family) (a : Nat) (ha : a ≤ f.maxAddress) :
    ∃ text, f.formatShort a = .ok text ∧ f.IsShortText a text.toList ∧
      (¬ (f = .ipv6 ∧ mappedSpan.contains a = true) → parseAddress text = .ok (f, a)) ∧
      (f = .ipv6 ∧ mappedSpan.contains a = true → parseAddress text =
        .error (.malformedAddress .ipv6 text AddressFlaw.dotted.text)) := by
  have hshort := f.isShortText_shortText a
  refine ⟨f.shortText a, ?_, hshort, fun hmapped => ?_, ?_⟩
  · rw [Family.formatShort, Family.check_eq_ok_iff.mpr ⟨ha, rfl⟩]
    rfl
  · exact parseAddress_eq_ok_iff.mpr (Family.parse_eq_ok_iff.mpr (hshort.denotes ha hmapped))
  · rintro ⟨rfl, hmapped⟩
    -- only the rule matters from here on, and it decides on the form of the text
    generalize Family.ipv6.shortText a = text at hshort ⊢
    generalize hchars : text.toList = chars at hshort
    cases hshort with
    | mapped =>
      apply parseAddress_eq_error_of_dot <;> rw [hchars]
      · simp
      · exact List.mem_append_right _ dot_mem_write
    | hextets hunmapped => simp [hmapped] at hunmapped

/-- A text with a gap and the text of a mapped address. -/
theorem short_text_read_back_mapped :
    parseAddress "2001:db8::1:0:0:1" = .ok (.ipv6, 0x20010db8 * 2 ^ 96 + 2 ^ 48 + 1) ∧
    parseAddress "::ffff:192.0.2.1" = .error (.malformedAddress .ipv6 "::ffff:192.0.2.1"
      "dotted notation is not supported") := by
  constructor
  · obtain ⟨text, htext, -, hread, -⟩ :=
      short_text_read_back .ipv6 (0x20010db8 * 2 ^ 96 + 2 ^ 48 + 1) (by decide)
    have hformat : Family.ipv6.formatShort (0x20010db8 * 2 ^ 96 + 2 ^ 48 + 1) =
        .ok "2001:db8::1:0:0:1" := by decide
    rw [← Except.ok.inj (htext.symm.trans hformat)]
    exact hread (by decide)
  · obtain ⟨text, htext, -, -, hrefused⟩ :=
      short_text_read_back .ipv6 (0xffff * 2 ^ 32 + 0xc0000201) (by decide)
    have hformat : Family.ipv6.formatShort (0xffff * 2 ^ 32 + 0xc0000201) =
        .ok "::ffff:192.0.2.1" := by decide
    rw [← Except.ok.inj (htext.symm.trans hformat)]
    exact hrefused (by decide)

end Delegation
