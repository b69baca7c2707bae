import Delegation.Address
import Delegation.Proofs.Text.Numeral
import Delegation.Proofs.Text.Pieces

/-!
# Which texts denote an address

`Dotted.Denotes` and `Hextets.Denotes` say without any reader which address a text denotes: four
octets with points between them, and eight hextets with colons between them, where a gap `::` may
stand once for some that are zero.  The readers accept exactly these texts, each for the address
that it denotes (`Family.parse_eq_ok_iff`).

A text that denotes an address shows its family in its separators, so an address can be read
without knowing its family (`parseAddress_eq_ok_iff`).
-/

namespace Delegation

open Delegation.Text Delegation.Sequence

namespace Address

/-! ## IPv4 -/

namespace Dotted

/-- One to three decimal digits for a number of eight bits. -/
structure IsOctet (part : List Char) (n : Nat) : Prop where
  numeral : IsNumeral 10 part n
  length_le : part.length ≤ 3
  le : n ≤ 255

/-- Four octets with points between them denote the address that they make up. -/
inductive Denotes : List Char → Nat → Prop where
  | octets {parts : List (List Char)} {octets : List Nat}
      (hparts : List.Forall₂ IsOctet parts octets) (hlength : octets.length = 4) :
      Denotes (joined '.' parts) (ofGroups 256 octets)

variable {part text : List Char} {n address : Nat}

lemma readOctet_eq_ok_iff : readOctet part = .ok n ↔ IsOctet part n := by
  rw [readOctet]
  constructor
  · intro h
    split at h
    · cases h
    · next m hm =>
      split_ifs at h with hlength hle
      obtain rfl := Except.ok.inj h
      exact ⟨readDecimal?_eq_some_iff.mp hm, Nat.le_of_not_lt hlength, Nat.le_of_not_lt hle⟩
  · rintro ⟨hnumeral, hlength, hle⟩
    rw [readDecimal?_eq_some_iff.mpr hnumeral]
    simp only [if_neg (Nat.not_lt.mpr hlength), if_neg (Nat.not_lt.mpr hle)]

lemma not_mem_of_forall₂ {parts : List (List Char)} {octets : List Nat} {c : Char}
    (h : List.Forall₂ IsOctet parts octets) (hc : hexDigit? c = none) : ∀ p ∈ parts, c ∉ p :=
  forall_of_forall₂ h fun _ _ hoctet => hoctet.numeral.not_mem hc

/-- The texts that are read are those that denote an address. -/
theorem read_eq_ok_iff : read text = .ok address ↔ Denotes text address := by
  constructor
  · intro h
    simp only [read] at h
    split at h
    · cases h
    · next octets hoctets =>
      split_ifs at h with hmany hfew
      obtain rfl := Except.ok.inj h
      rw [List.take_of_length_le (Nat.le_of_not_lt hmany), mapM_eq_ok_iff] at hoctets
      have hdenotes := hoctets.imp fun _ _ => readOctet_eq_ok_iff.mp
      rw [← joined_pieces '.' text]
      exact .octets hdenotes (by rw [← hdenotes.length_eq]; omega)
  · rintro ⟨hparts, hlength⟩
    next parts octets =>
    have hfour : parts.length = 4 := by rw [hparts.length_eq, hlength]
    have hpieces : pieces '.' (joined '.' parts) = parts :=
      pieces_joined '.' (List.ne_nil_of_length_pos (by omega)) (not_mem_of_forall₂ hparts rfl)
    have hread : parts.mapM readOctet = .ok octets :=
      mapM_eq_ok_iff.mpr (hparts.imp fun _ _ => readOctet_eq_ok_iff.mpr)
    simp [read, hpieces, hfour, List.take_of_length_le, hread]

namespace Denotes

lemma lt (h : Denotes text address) : address < 2 ^ 32 := by
  obtain ⟨hparts, hlength⟩ := h
  have hlt : ofGroups 256 _ < 256 ^ _ := ofGroups_lt _
    (forall_of_forall₂ hparts.flip fun _ _ hoctet => Nat.lt_succ_of_le hoctet.le)
  rwa [hlength] at hlt

/-- There are points in the text, and no colons. -/
lemma separators (h : Denotes text address) : '.' ∈ text ∧ ':' ∉ text := by
  obtain ⟨hparts, hlength⟩ := h
  refine ⟨sep_mem_joined (by rw [hparts.length_eq, hlength]; decide), fun hcolon => ?_⟩
  rcases eq_or_mem_of_mem_joined hcolon with hsep | ⟨p, hp, hcolon⟩
  · cases hsep
  · exact not_mem_of_forall₂ hparts rfl p hp hcolon

end Denotes

end Dotted

/-! ## IPv6 -/

namespace Hextets

/-- One to four hexadecimal digits. -/
structure IsHextet (part : List Char) (n : Nat) : Prop where
  numeral : IsNumeral 16 part n
  length_le : part.length ≤ 4

/-- Hextets with colons between them; an empty text holds none. -/
def DenotesHextets (text : List Char) (hextets : List Nat) : Prop :=
  ∃ parts, List.Forall₂ IsHextet parts hextets ∧ joined ':' parts = text

/-- Eight hextets denote the address that they make up; a gap stands for all that are missing,
which are zero. -/
inductive Denotes : List Char → Nat → Prop where
  | plain {text : List Char} {hextets : List Nat} (htext : DenotesHextets text hextets)
      (hlength : hextets.length = 8) : Denotes text (ofGroups 65536 hextets)
  | gap {before after : List Char} {high low : List Nat} {n : Nat}
      (hbefore : DenotesHextets before high) (hafter : DenotesHextets after low) (hn : 0 < n)
      (hlength : high.length + n + low.length = 8) :
      Denotes (before ++ ':' :: ':' :: after)
        (ofGroups 65536 (high ++ List.replicate n 0 ++ low))

variable {part text before after : List Char} {n address : Nat} {hextets : List Nat}

lemma IsHextet.lt (h : IsHextet part n) : n < 65536 := by
  obtain ⟨⟨-, ds, hds, rfl⟩, hlength⟩ := h
  have hlt : ofGroups 16 ds < 16 ^ _ := ofGroups_lt ds (forall_of_forall₂ hds.flip fun _ _ hd => hd.2)
  rw [← hds.length_eq] at hlt
  exact Nat.lt_of_lt_of_le hlt (Nat.pow_le_pow_right (by decide) hlength)

lemma readHextet_eq_ok_iff : readHextet part = .ok n ↔ IsHextet part n := by
  rw [readHextet]
  constructor
  · intro h
    split at h
    · cases h
    · next hne =>
      split at h
      · cases h
      · next m hm =>
        split_ifs at h with hlength
        obtain rfl := Except.ok.inj h
        exact ⟨(readHex?_eq_some_iff hne).mp hm, Nat.le_of_not_lt hlength⟩
  · rintro ⟨hnumeral, hlength⟩
    rw [if_neg hnumeral.1, (readHex?_eq_some_iff hnumeral.1).mpr hnumeral]
    simp only [if_neg (Nat.not_lt.mpr hlength)]

/-! ### Hextets in a row -/

lemma ne_nil_of_forall₂ {parts : List (List Char)} (h : List.Forall₂ IsHextet parts hextets) :
    ∀ p ∈ parts, p ≠ [] :=
  forall_of_forall₂ h fun _ _ hhextet => hhextet.numeral.1

lemma not_mem_of_forall₂ {parts : List (List Char)} {c : Char}
    (h : List.Forall₂ IsHextet parts hextets) (hc : hexDigit? c = none) : ∀ p ∈ parts, c ∉ p :=
  forall_of_forall₂ h fun _ _ hhextet => hhextet.numeral.not_mem hc

lemma joined_ne_nil {parts : List (List Char)} (hparts : parts ≠ []) (hne : ∀ p ∈ parts, p ≠ []) :
    joined ':' parts ≠ [] := by
  match parts, hparts with
  | [p], _ => exact hne p List.mem_cons_self
  | p :: q :: parts, _ => simp [joined]

lemma readHextets_eq_ok_iff : readHextets text = .ok hextets ↔ DenotesHextets text hextets := by
  rw [readHextets]
  constructor
  · intro h
    split at h
    · next hnil =>
      obtain rfl := Except.ok.inj h
      exact ⟨[], .nil, hnil.symm⟩
    · exact ⟨pieces ':' text, (mapM_eq_ok_iff.mp h).imp fun _ _ => readHextet_eq_ok_iff.mp,
        joined_pieces ':' text⟩
  · rintro ⟨parts, hparts, rfl⟩
    cases parts with
    | nil =>
      cases hparts
      rfl
    | cons p parts =>
      rw [if_neg (joined_ne_nil (List.cons_ne_nil p parts) (ne_nil_of_forall₂ hparts)),
        pieces_joined ':' (List.cons_ne_nil p parts) (not_mem_of_forall₂ hparts rfl),
        mapM_eq_ok_iff]
      exact hparts.imp fun _ _ => readHextet_eq_ok_iff.mpr

namespace DenotesHextets

lemma ne_nil (h : DenotesHextets text hextets) (hne : hextets ≠ []) : text ≠ [] := by
  obtain ⟨parts, hparts, rfl⟩ := h
  refine joined_ne_nil ?_ (ne_nil_of_forall₂ hparts)
  rintro rfl
  cases hparts
  exact hne rfl

lemma dot_not_mem (h : DenotesHextets text hextets) : '.' ∉ text := by
  obtain ⟨parts, hparts, rfl⟩ := h
  intro hdot
  rcases eq_or_mem_of_mem_joined hdot with hsep | ⟨p, hp, hdot⟩
  · cases hsep
  · exact not_mem_of_forall₂ hparts rfl p hp hdot

lemma lt (h : DenotesHextets text hextets) : ∀ n ∈ hextets, n < 65536 := by
  obtain ⟨parts, hparts, -⟩ := h
  exact forall_of_forall₂ hparts.flip fun _ _ hhextet => hhextet.lt

end DenotesHextets

/-! ### Where the gap is -/

/-- What stands around a gap and the two colons of it are the whole text. -/
lemma eq_of_cutGap (h : cutGap text = some (before, after)) :
    text = before ++ ':' :: ':' :: after := by
  induction text generalizing before with
  | nil => cases h
  | cons c rest ih =>
    unfold cutGap at h
    split at h
    · obtain ⟨rfl, rfl⟩ := Prod.mk.inj (Option.some.inj h)
      rfl
    · obtain ⟨⟨before', after'⟩, hcut, h⟩ := Option.map_eq_some_iff.mp h
      obtain ⟨rfl, rfl⟩ := Prod.mk.inj h
      rw [ih hcut, List.cons_append]

/-- There is no gap in a text without colons. -/
lemma cutGap_append_of_not_mem {p : List Char} (hp : ':' ∉ p) (rest : List Char) :
    cutGap (p ++ rest) = (cutGap rest).map fun (before, after) => (p ++ before, after) := by
  induction p with
  | nil => simp
  | cons c p ih =>
    obtain ⟨hc, hp⟩ := not_or.mp (List.mem_cons.not.mp hp)
    rw [List.cons_append, cutGap, ih hp]
    · simp [Function.comp_def]
    · rintro _ rfl
      exact absurd rfl hc

/-- A single colon is no gap. -/
lemma cutGap_colon {c : Char} (hc : c ≠ ':') (rest : List Char) :
    cutGap (':' :: c :: rest) =
      (cutGap (c :: rest)).map fun (before, after) => (':' :: before, after) := by
  rw [cutGap]
  rintro _ - h
  exact hc (List.cons.inj h).1

/-- Hextets in a row have no gap between them. -/
lemma DenotesHextets.cutGap_append (h : DenotesHextets text hextets) (rest : List Char) :
    cutGap (text ++ rest) = (cutGap rest).map fun (before, after) => (text ++ before, after) := by
  obtain ⟨parts, hparts, rfl⟩ := h
  have hne := ne_nil_of_forall₂ hparts
  have hcolon := not_mem_of_forall₂ hparts (c := ':') rfl
  clear hparts
  induction parts with
  | nil => simp [joined]
  | cons p parts ih =>
    rw [List.forall_mem_cons] at hne hcolon
    cases parts with
    | nil => exact cutGap_append_of_not_mem hcolon.1 rest
    | cons q parts =>
      have hrest := ih hne.2 hcolon.2
      -- the next hextet starts with a digit
      obtain ⟨c, tail, hq⟩ := List.exists_cons_of_ne_nil (hne.2 q List.mem_cons_self)
      have hc : c ≠ ':' := by
        rintro rfl
        exact hcolon.2 q List.mem_cons_self (hq ▸ List.mem_cons_self)
      obtain ⟨tail', htail⟩ : ∃ tail', joined ':' (q :: parts) ++ rest = c :: tail' := by
        cases parts <;> simp [joined, hq]
      rw [joined, List.append_assoc, cutGap_append_of_not_mem hcolon.1, List.cons_append, htail,
        cutGap_colon hc, ← htail, hrest]
      simp [Function.comp_def]

lemma DenotesHextets.cutGap_eq_none (h : DenotesHextets text hextets) : cutGap text = none := by
  simpa [cutGap] using h.cutGap_append []

/-! ### Addresses -/

lemma readPlain_eq_ok_iff :
    readPlain text = .ok hextets ↔ DenotesHextets text hextets ∧ hextets.length = 8 := by
  rw [readPlain]
  constructor
  · intro h
    split at h
    · cases h
    · obtain ⟨plain, hplain, h⟩ := bind_eq_ok_iff.mp h
      split_ifs at h with hlength
      obtain rfl := Except.ok.inj h
      exact ⟨readHextets_eq_ok_iff.mp hplain, not_not.mp hlength⟩
  · rintro ⟨htext, hlength⟩
    rw [if_neg (htext.ne_nil (List.ne_nil_of_length_pos (by omega))),
      readHextets_eq_ok_iff.mpr htext]
    simp [bind, Except.bind, hlength]

lemma readAround_eq_ok_iff :
    readAround before after = .ok hextets ↔
      ∃ high low n, DenotesHextets before high ∧ DenotesHextets after low ∧ 0 < n ∧
        high.length + n + low.length = 8 ∧ high ++ List.replicate n 0 ++ low = hextets := by
  rw [readAround]
  constructor
  · intro h
    split at h
    · cases h
    · obtain ⟨high, hhigh, h⟩ := bind_eq_ok_iff.mp h
      obtain ⟨low, hlow, h⟩ := bind_eq_ok_iff.mp h
      split_ifs at h with hlength
      exact ⟨high, low, 8 - high.length - low.length, readHextets_eq_ok_iff.mp hhigh,
        readHextets_eq_ok_iff.mp hlow, by omega, by omega, Except.ok.inj h⟩
  · rintro ⟨high, low, n, hbefore, hafter, hn, hlength, rfl⟩
    have hzeros : 8 - high.length - low.length = n := by omega
    have hfew : ¬ 7 < high.length + low.length := by omega
    rw [hafter.cutGap_eq_none, readHextets_eq_ok_iff.mpr hbefore, readHextets_eq_ok_iff.mpr hafter]
    simp [bind, Except.bind, hfew, hzeros]

/-- The texts that are read are those that denote an address. -/
theorem read_eq_ok_iff : read text = .ok address ↔ Denotes text address := by
  constructor
  · intro h
    rw [read] at h
    split at h
    · cases h
    · cases hcut : cutGap text with
      | some cut =>
        obtain ⟨before, after⟩ := cut
        rw [hcut] at h
        obtain ⟨hextets, hhextets, haddress⟩ := bind_eq_ok_iff.mp h
        obtain rfl := Except.ok.inj haddress
        obtain ⟨high, low, n, hbefore, hafter, hn, hlength, rfl⟩ :=
          readAround_eq_ok_iff.mp hhextets
        rw [eq_of_cutGap hcut]
        exact .gap hbefore hafter hn hlength
      | none =>
        rw [hcut] at h
        obtain ⟨hextets, hhextets, haddress⟩ := bind_eq_ok_iff.mp h
        obtain rfl := Except.ok.inj haddress
        obtain ⟨htext, hlength⟩ := readPlain_eq_ok_iff.mp hhextets
        exact .plain htext hlength
  · intro h
    cases h with
    | plain htext hlength =>
      rw [read, if_neg htext.dot_not_mem, htext.cutGap_eq_none]
      simp [readPlain_eq_ok_iff.mpr ⟨htext, hlength⟩, bind, Except.bind]
    | @gap before after high low n hbefore hafter hn hlength =>
      have hdot : '.' ∉ before ++ ':' :: ':' :: after := by
        simp [hbefore.dot_not_mem, hafter.dot_not_mem]
      have hcut : cutGap (before ++ ':' :: ':' :: after) = some (before, after) := by
        simp [hbefore.cutGap_append, cutGap]
      have hread := readAround_eq_ok_iff.mpr ⟨high, low, n, hbefore, hafter, hn, hlength, rfl⟩
      rw [read, if_neg hdot, hcut]
      simp [hread, bind, Except.bind]

namespace Denotes

lemma lt (h : Denotes text address) : address < 2 ^ 128 := by
  cases h with
  | plain htext hlength =>
    have hlt : ofGroups 65536 _ < 65536 ^ _ := ofGroups_lt _ htext.lt
    rwa [hlength] at hlt
  | @gap _ _ high low n hbefore hafter hn hlength =>
    have hall : ∀ d ∈ high ++ List.replicate n 0 ++ low, d < 65536 := by
      intro d hd
      rcases List.mem_append.mp hd with hd | hd
      · rcases List.mem_append.mp hd with hd | hd
        · exact hbefore.lt d hd
        · rw [List.eq_of_mem_replicate hd]
          decide
      · exact hafter.lt d hd
    have hlt : ofGroups 65536 _ < 65536 ^ _ := ofGroups_lt _ hall
    rwa [List.length_append, List.length_append, List.length_replicate, hlength] at hlt

/-- There are colons in the text. -/
lemma colon_mem (h : Denotes text address) : ':' ∈ text := by
  cases h with
  | plain htext hlength =>
    obtain ⟨parts, hparts, rfl⟩ := htext
    exact sep_mem_joined (by rw [hparts.length_eq, hlength]; decide)
  | gap => simp

end Denotes

end Hextets

end Address

/-! ## Either family -/

open Address

/-- The text denotes an address of the family. -/
def Family.Denotes : Family → List Char → Nat → Prop
  | .ipv4 => Dotted.Denotes
  | .ipv6 => Hextets.Denotes

variable {f : Family} {text : String} {a : Nat}

/-- An address is read from exactly the texts that denote it. -/
theorem Family.parse_eq_ok_iff : f.parse text = .ok a ↔ f.Denotes text.toList a := by
  cases f with
  | ipv4 =>
    rw [Family.Denotes, ← Dotted.read_eq_ok_iff]
    simp only [Family.parse]
    cases Dotted.read text.toList <;> simp
  | ipv6 =>
    rw [Family.Denotes, ← Hextets.read_eq_ok_iff]
    simp only [Family.parse]
    cases Hextets.read text.toList <;> simp

namespace Family.Denotes

lemma le_maxAddress {text : List Char} (h : f.Denotes text a) : a ≤ f.maxAddress := by
  rw [le_maxAddress_iff]
  cases f with
  | ipv4 => exact Dotted.Denotes.lt h
  | ipv6 => exact Hextets.Denotes.lt h

/-- The separators of the text point to the family. -/
theorem detect_eq {text : List Char} (h : f.Denotes text a) : detect text = some f := by
  cases f with
  | ipv4 =>
    obtain ⟨hdot, hcolon⟩ := Dotted.Denotes.separators h
    rw [detect, if_neg hcolon, if_pos hdot]
  | ipv6 => rw [detect, if_pos (Hextets.Denotes.colon_mem h)]

end Family.Denotes

/-- Reading an address of any family is reading it as one of its own family. -/
theorem parseAddress_eq_ok_iff : parseAddress text = .ok (f, a) ↔ f.parse text = .ok a := by
  rw [parseAddress]
  constructor
  · intro h
    split at h
    · cases h
    · obtain ⟨b, hb, heq⟩ := map_eq_ok_iff.mp h
      obtain ⟨rfl, rfl⟩ := Prod.mk.inj heq
      exact hb
  · intro h
    rw [(Family.parse_eq_ok_iff.mp h).detect_eq]
    simp only [h, Except.map]

end Delegation
