import Delegation.Proofs.Json.Pretty
import Delegation.Proofs.Text.Blank
import Delegation.Text.Pieces

/-!
# Members found in the text of an object

The text of a member can be cut out of the text of an object without reading values: only quotes and
brackets are told apart from other characters.  A comma outside of both separates members, and a
colon outside of both separates the name of a member from its value (`memberText?`).

A written value opens and closes its own quotes and brackets, and has neither a comma nor a colon
outside of them (`passes_prettyChars`).  So what is cut out of a written object is what is written
for its members.

Main result: `memberText?_pretty`.
-/

namespace Delegation.Json

open Delegation.Text

/-! ## Quotes and brackets -/

/-- Where a character stands in a text: within a number of brackets, and between quotes or not. -/
inductive Place where
  | outside (depth : Nat)
  | inside (depth : Nat)
  /-- Between quotes and behind a backslash. -/
  | escaped (depth : Nat)
  deriving DecidableEq

/-- The place behind a character. -/
def Place.next : Place → Char → Place
  | .outside depth, c =>
    if c = '"' then .inside depth
    else if c = '[' ∨ c = '\x7b' then .outside (depth + 1)
    else if c = ']' ∨ c = '\x7d' then .outside (depth - 1)
    else .outside depth
  | .inside depth, c =>
    if c = '"' then .outside depth else if c = '\\' then .escaped depth else .inside depth
  | .escaped depth, _ => .inside depth

/-- The pieces of a text between the separators that are outside of all quotes and brackets. -/
def outerPieces (sep : Char) (place : Place) : List Char → List (List Char)
  | [] => [[]]
  | c :: s =>
    if place = .outside 0 ∧ c = sep then [] :: outerPieces sep place s
    else consFirst c (outerPieces sep (place.next c) s)

/-- The text of the value of a member, if the text of the member has this name. -/
def valueText? (name : String) (member : List Char) : Option (List Char) :=
  match outerPieces ':' (.outside 0) member with
  | [before, behind] => if trim before = quoted name.toList then some (trim behind) else none
  | _ => none

/-- The text of the value of the first member with a name, in the text of an object. -/
def memberText? (name : String) (document : String) : Option String :=
  match trim document.toList with
  | '\x7b' :: s =>
    ((outerPieces ',' (.outside 0) s.dropLast).findSome? (valueText? name)).map String.ofList
  | _ => none

/-! ## Texts without a cut -/

variable {sep : Char} {place place' place'' : Place} {s t : List Char} {depth level : Nat}

/-- A text leads from one place to another, and no separator in it is outside of all quotes and
brackets. -/
inductive Passes (sep : Char) : Place → List Char → Place → Prop where
  | nil {place : Place} : Passes sep place [] place
  | cons {place place' : Place} {c : Char} {s : List Char} (hc : ¬ (place = .outside 0 ∧ c = sep))
      (hs : Passes sep (place.next c) s place') : Passes sep place (c :: s) place'

namespace Passes

lemma append (hs : Passes sep place s place') (ht : Passes sep place' t place'') :
    Passes sep place (s ++ t) place'' := by
  induction hs with
  | nil => exact ht
  | cons hc _ ih => exact .cons hc (ih ht)

lemma singleton {c : Char} (hc : ¬ (place = .outside 0 ∧ c = sep)) :
    Passes sep place [c] (place.next c) := .cons hc .nil

/-- The text is at the front of the first piece. -/
lemma outerPieces_append (hs : Passes sep place s place') (t : List Char) :
    outerPieces sep place (s ++ t) = s.foldr consFirst (outerPieces sep place' t) := by
  induction hs with
  | nil => rfl
  | cons hc _ ih => rw [List.cons_append, outerPieces, if_neg hc, ih, List.foldr_cons]

end Passes

lemma foldr_consFirst (s p : List Char) (ps : List (List Char)) :
    s.foldr consFirst (p :: ps) = (s ++ p) :: ps := by
  induction s with
  | nil => rfl
  | cons c s ih => rw [List.foldr_cons, ih, consFirst, List.cons_append]

lemma outerPieces_of_passes (hs : Passes sep (.outside 0) s (.outside 0)) :
    outerPieces sep (.outside 0) s = [s] := by
  have hpieces := hs.outerPieces_append []
  rwa [outerPieces, foldr_consFirst, List.append_nil] at hpieces

lemma outerPieces_append_sep (hs : Passes sep (.outside 0) s (.outside 0)) (t : List Char) :
    outerPieces sep (.outside 0) (s ++ sep :: t) = s :: outerPieces sep (.outside 0) t := by
  rw [hs.outerPieces_append, outerPieces, if_pos ⟨rfl, rfl⟩, foldr_consFirst, List.append_nil]

/-! ## Written values -/

section Written

variable (hsep : sep = ',' ∨ sep = ':')

/-- A character that is neither a quote nor a bracket, nor separates members or values. -/
def IsPlain (c : Char) : Prop := c ∉ ['"', '[', ']', '\x7b', '\x7d', ',', ':']

lemma isPlain_of_isDigit {c : Char} (hc : c.isDigit = true) : IsPlain c := by
  intro hmem
  have hnone : ['"', '[', ']', '\x7b', '\x7d', ',', ':'].all (!Char.isDigit ·) = true := rfl
  have hnot := List.all_eq_true.mp hnone c hmem
  rw [hc] at hnot
  cases hnot

lemma isPlain_of_mem_newline {c : Char} (hc : c ∈ newline depth) : IsPlain c := by
  rcases List.mem_cons.mp hc with rfl | hc
  · simp [IsPlain]
  · rw [List.eq_of_mem_replicate hc]
    simp [IsPlain]

include hsep in
lemma passes_plain (hs : ∀ c ∈ s, IsPlain c) : Passes sep (.outside level) s (.outside level) := by
  induction s with
  | nil => exact .nil
  | cons c s ih =>
    rw [List.forall_mem_cons] at hs
    obtain ⟨hc, hs⟩ := hs
    simp only [IsPlain, List.mem_cons, List.not_mem_nil, or_false, not_or] at hc
    refine .cons ?_ ?_
    · rintro ⟨-, rfl⟩
      rcases hsep with rfl | rfl
      · exact hc.2.2.2.2.2.1 rfl
      · exact hc.2.2.2.2.2.2 rfl
    · have hnext : Place.next (.outside level) c = .outside level := by
        simp [Place.next, hc]
      rw [hnext]
      exact ih hs

/-- Between quotes only the closing quote and the backslash matter. -/
lemma passes_inside (hs : ∀ c ∈ s, c ≠ '"' ∧ c ≠ '\\') :
    Passes sep (.inside level) s (.inside level) := by
  induction s with
  | nil => exact .nil
  | cons c s ih =>
    rw [List.forall_mem_cons] at hs
    refine .cons (by simp) ?_
    rw [Place.next, if_neg hs.1.1, if_neg hs.1.2]
    exact ih hs.2

/-- The digits of a control character are neither quotes nor backslashes. -/
lemma ne_of_mem_controlDigits {c d : Char} (hd : d ∈ controlDigits c) : d ≠ '"' ∧ d ≠ '\\' := by
  have hnumeral : IsNumeral 16 (controlDigits c) c.toNat :=
    (isNumeral_toDigits (by decide) (by decide) c.toNat).leftpad (by decide) 4
  constructor
  · rintro rfl
    exact hnumeral.not_mem rfl hd
  · rintro rfl
    exact hnumeral.not_mem rfl hd

lemma passes_escape (c : Char) : Passes sep (.inside level) (escape c) (.inside level) := by
  -- the character behind a backslash is passed, whichever it is
  have hescaped : ∀ (e : Char) {s : List Char}, Passes sep (.inside level) s (.inside level) →
      Passes sep (.inside level) ('\\' :: e :: s) (.inside level) := by
    intro e s hs
    exact .cons (by simp) (.cons (by simp [Place.next]) hs)
  rw [escape.eq_def]
  split
  iterate 7 exact hescaped _ .nil
  · next hquote hbackslash _ _ _ _ _ =>
    split_ifs
    · exact hescaped 'u' (passes_inside fun d hd => ne_of_mem_controlDigits hd)
    · exact passes_inside (by simpa using ⟨hquote, hbackslash⟩)

lemma passes_escaped (s : List Char) :
    Passes sep (.inside level) (s.flatMap escape) (.inside level) := by
  induction s with
  | nil => exact .nil
  | cons c s ih =>
    rw [List.flatMap_cons]
    exact (passes_escape c).append ih

include hsep

/-- A separator is no bracket and no quote. -/
lemma passes_of_ne {c : Char} (hc : c ≠ ',') (hc' : c ≠ ':') :
    Passes sep (.outside level) [c] (Place.next (.outside level) c) := by
  refine .singleton ?_
  rintro ⟨-, rfl⟩
  rcases hsep with rfl | rfl
  · exact hc rfl
  · exact hc' rfl

lemma passes_quoted (s : List Char) : Passes sep (.outside level) (quoted s) (.outside level) := by
  have hopen : Passes sep (.outside level) ['"'] (.inside level) :=
    passes_of_ne hsep (by decide) (by decide)
  have hclose : Passes sep (.inside level) ['"'] (.outside level) := .singleton (by simp)
  exact (hopen.append (passes_escaped s)).append hclose

/-- Between brackets every separator may stand. -/
lemma passes_bracketed {opening closing : Char} (hopening : opening = '[' ∨ opening = '\x7b')
    (hclosing : closing = ']' ∨ closing = '\x7d')
    (hs : Passes sep (.outside (level + 1)) s (.outside (level + 1))) :
    Passes sep (.outside level) (opening :: s ++ [closing]) (.outside level) := by
  have hopen : Passes sep (.outside level) [opening] (.outside (level + 1)) := by
    rcases hopening with rfl | rfl
    · exact passes_of_ne hsep (by decide) (by decide)
    · exact passes_of_ne hsep (by decide) (by decide)
  have hclose : Passes sep (.outside (level + 1)) [closing] (.outside level) := by
    rcases hclosing with rfl | rfl
    · exact passes_of_ne hsep (by decide) (by decide)
    · exact passes_of_ne hsep (by decide) (by decide)
  exact (hopen.append hs).append hclose

lemma passes_newline (depth : Nat) :
    Passes sep (.outside level) (newline depth) (.outside level) :=
  passes_plain hsep fun _ => isPlain_of_mem_newline

/-- Parts within brackets are passed if each of them is. -/
lemma passes_parts {α : Type} {write : α → List Char} {xs : List α}
    (h : ∀ x ∈ xs, Passes sep (.outside (level + 1)) (write x) (.outside (level + 1))) :
    Passes sep (.outside (level + 1)) (parts depth write xs) (.outside (level + 1)) := by
  induction xs with
  | nil => exact .nil
  | cons x xs ih =>
    rw [List.forall_mem_cons] at h
    have hcomma : Passes sep (.outside (level + 1)) [','] (.outside (level + 1)) :=
      .singleton (by simp)
    exact ((hcomma.append (passes_newline hsep depth)).append h.1).append (ih h.2)

/-- A list of parts with its brackets is passed if each of the parts is. -/
lemma passes_listed {α : Type} {write : α → List Char} {x : α} {xs : List α}
    {opening closing : Char} (hopening : opening = '[' ∨ opening = '\x7b')
    (hclosing : closing = ']' ∨ closing = '\x7d')
    (h : ∀ y ∈ x :: xs, Passes sep (.outside (level + 1)) (write y) (.outside (level + 1))) :
    Passes sep (.outside level)
      (opening :: newline (depth + 1) ++ write x ++ parts (depth + 1) write xs ++ newline depth ++
        [closing]) (.outside level) := by
  rw [List.forall_mem_cons] at h
  have hfirst := (passes_newline hsep (depth + 1)).append h.1
  have hothers : Passes sep (.outside (level + 1)) (parts (depth + 1) write xs)
      (.outside (level + 1)) := passes_parts hsep h.2
  exact passes_bracketed hsep hopening hclosing
    ((hfirst.append hothers).append (passes_newline hsep depth))

/-- A name, a colon and a value are passed, unless they are to be cut at the colon. -/
lemma passes_prettyMember {m : String × Json} (hcolon : ¬ (level = 0 ∧ sep = ':'))
    (h : Passes sep (.outside level) (prettyChars depth m.2) (.outside level)) :
    Passes sep (.outside level) (prettyMember depth m) (.outside level) := by
  obtain ⟨name, v⟩ := m
  have hbetween : Passes sep (.outside level) [':'] (.outside level) := by
    refine .singleton ?_
    rintro ⟨hlevel, hc⟩
    exact hcolon ⟨Place.outside.inj hlevel, hc.symm⟩
  have hblank : Passes sep (.outside level) [' '] (.outside level) :=
    passes_of_ne hsep (by decide) (by decide)
  have hmember := ((passes_quoted hsep name.toList).append (hbetween.append hblank)).append h
  rwa [List.append_assoc] at hmember

/-- A written value has no separator outside of its quotes and brackets, and closes all of them. -/
theorem passes_prettyChars (v : Json) (depth level : Nat) :
    Passes sep (.outside level) (prettyChars depth v) (.outside level) := by
  induction v using induction_parts generalizing depth level with
  | null => exact passes_plain hsep (by simp [prettyChars, atom, IsPlain])
  | bool b =>
    cases b
    · exact passes_plain hsep (by simp [prettyChars, atom, IsPlain])
    · exact passes_plain hsep (by simp [prettyChars, atom, IsPlain])
  | number n =>
    refine passes_plain hsep fun c hc => isPlain_of_isDigit ?_
    exact Nat.isDigit_of_mem_toDigits (b := 10) (n := n) (by decide) (by decide) hc
  | text s => exact passes_quoted hsep s.toList
  | array items ih =>
    cases items with
    | nil => exact passes_bracketed hsep (s := []) (.inl rfl) (.inl rfl) .nil
    | cons x xs =>
      rw [prettyChars, prettyItems_eq]
      exact passes_listed hsep (.inl rfl) (.inl rfl) fun y hy => ih y hy (depth + 1) (level + 1)
  | object members ih =>
    cases members with
    | nil => exact passes_bracketed hsep (s := []) (.inr rfl) (.inr rfl) .nil
    | cons m ms =>
      rw [prettyChars, prettyMembers_eq]
      exact passes_listed hsep (.inr rfl) (.inr rfl) fun m' hm' =>
        passes_prettyMember hsep (by simp) (ih m' hm' (depth + 1) (level + 1))

end Written

/-! ## Members of written objects -/

lemma isBlank_of_mem_newline {c : Char} (hc : c ∈ newline depth) : isBlank c = true := by
  rcases List.mem_cons.mp hc with rfl | hc
  · rfl
  · rw [List.eq_of_mem_replicate hc]
    rfl

/-- Between two characters that are not blank nothing is trimmed. -/
lemma trim_bracketed {first last : Char} (hfirst : isBlank first = false)
    (hlast : isBlank last = false) (s : List Char) :
    trim (first :: s ++ [last]) = first :: s ++ [last] := by
  refine trim_eq_self ?_ ?_
  · rintro _ ⟨⟩
    exact hfirst
  · rw [List.getLast?_concat]
    rintro _ ⟨⟩
    exact hlast

lemma trim_quoted (s : List Char) : trim (quoted s) = quoted s := trim_bracketed rfl rfl _

lemma not_isBlank_of_isDigit {c : Char} (hc : c.isDigit = true) : isBlank c = false := by
  simp only [Char.isDigit, ge_iff_le, UInt32.le_iff_toNat_le, Char.toNat_val, Char.reduceToNat,
    Bool.and_eq_true, decide_eq_true_eq] at hc
  exact not_isBlank_of_visible (by omega) (by omega)

lemma trim_prettyChars (depth : Nat) (v : Json) :
    trim (prettyChars depth v) = prettyChars depth v := by
  cases v with
  | null => rfl
  | bool b => cases b <;> rfl
  | number n =>
    have hdigits : ∀ c ∈ Nat.toDigits 10 n, isBlank c = false := fun c hc =>
      not_isBlank_of_isDigit (Nat.isDigit_of_mem_toDigits (by decide) (by decide) hc)
    exact trim_eq_self (fun c hc => hdigits c (List.mem_of_mem_head? hc))
      (fun c hc => hdigits c (List.mem_of_mem_getLast? hc))
  | text s => exact trim_quoted s.toList
  | array items =>
    cases items with
    | nil => rfl
    | cons x xs => exact trim_bracketed rfl rfl _
  | object members =>
    cases members with
    | nil => rfl
    | cons m ms => exact trim_bracketed rfl rfl _

/-- The name that is written in front of a colon is found, without the line feed. -/
lemma trim_newline_quoted (depth : Nat) (s : List Char) :
    trim (newline depth ++ quoted s) = quoted s := by
  have hfront : ∀ c ∈ newline depth, isBlank c = true := fun _ => isBlank_of_mem_newline
  rw [← List.append_nil (newline depth ++ _), trim_padded hfront (by simp), trim_quoted]

/-- The text of a member on a line of its own, with or without the line feed behind the last one. -/
def IsPiece (depth : Nat) (piece : List Char) (m : String × Json) : Prop :=
  ∃ back, (back = [] ∨ back = newline 0) ∧ piece = newline depth ++ prettyMember depth m ++ back

/-- The members of an object are cut apart. -/
lemma forall₂_isPiece (m : String × Json) (ms : List (String × Json)) :
    List.Forall₂ (IsPiece depth)
      (outerPieces ',' (.outside 0)
        (newline depth ++ prettyMember depth m ++
          (parts depth (prettyMember depth) ms ++ newline 0)))
      (m :: ms) := by
  have hcomma : (',' : Char) = ',' ∨ ',' = ':' := .inl rfl
  have hpasses : ∀ m,
      Passes ',' (.outside 0) (newline depth ++ prettyMember depth m) (.outside 0) := fun m =>
    (passes_newline hcomma depth).append
      (passes_prettyMember hcomma (by simp) (passes_prettyChars hcomma m.2 depth 0))
  induction ms generalizing m with
  | nil =>
    rw [parts, List.flatMap_nil, List.nil_append,
      outerPieces_of_passes ((hpasses m).append (passes_newline hcomma 0))]
    exact .cons ⟨newline 0, .inr rfl, rfl⟩ .nil
  | cons m' ms ih =>
    rw [parts_cons_append, List.cons_append, outerPieces_append_sep (hpasses m),
      ← List.append_assoc]
    exact .cons ⟨[], .inl rfl, (List.append_nil _).symm⟩ (ih m')

/-- In the text of a member its name and its value are found. -/
lemma valueText?_eq {piece : List Char} {name : String} {m : String × Json}
    (h : IsPiece depth piece m) :
    valueText? name piece = if name = m.1 then some (prettyChars depth m.2) else none := by
  obtain ⟨back, hback, rfl⟩ := h
  obtain ⟨name', v⟩ := m
  have hcolon : (':' : Char) = ',' ∨ ':' = ':' := .inr rfl
  -- what is left behind the last member is blank, and has nothing that is cut at
  have hend : ∀ c ∈ back, isBlank c = true ∧ IsPlain c := by
    rcases hback with rfl | rfl
    · exact fun c hc => nomatch hc
    · exact fun c hc => ⟨isBlank_of_mem_newline hc, isPlain_of_mem_newline hc⟩
  have hbefore : Passes ':' (.outside 0) (newline depth ++ quoted name'.toList) (.outside 0) :=
    (passes_newline hcolon depth).append (passes_quoted hcolon _)
  have hbehind : Passes ':' (.outside 0) ([' '] ++ prettyChars depth v ++ back) (.outside 0) :=
    ((passes_plain hcolon (by simp [IsPlain])).append (passes_prettyChars hcolon v depth 0)).append
      (passes_plain hcolon fun c hc => (hend c hc).2)
  have htext : newline depth ++ prettyMember depth (name', v) ++ back =
      newline depth ++ quoted name'.toList ++ ':' :: ([' '] ++ prettyChars depth v ++ back) := by
    simp [prettyMember]
  have hvalue : trim ([' '] ++ prettyChars depth v ++ back) = prettyChars depth v := by
    rw [trim_padded (by simp [isBlank]) fun c hc => (hend c hc).1, trim_prettyChars]
  have hname : quoted name'.toList = quoted name.toList ↔ name = name' := by
    rw [quoted_inj, String.toList_inj, eq_comm]
  rw [valueText?, htext, outerPieces_append_sep hbefore, outerPieces_of_passes hbehind]
  simp only [trim_newline_quoted, hvalue, hname]

lemma findSome?_valueText? {pieces : List (List Char)} {ms : List (String × Json)} (name : String)
    (h : List.Forall₂ (IsPiece depth) pieces ms) :
    pieces.findSome? (valueText? name) = (ms.lookup name).map (prettyChars depth) := by
  induction h with
  | nil => rfl
  | @cons piece m pieces ms hm _ ih =>
    rw [List.findSome?_cons, valueText?_eq hm, List.lookup_cons, ih]
    by_cases hname : name = m.1
    · rw [if_pos hname, beq_iff_eq.mpr hname]
      rfl
    · rw [if_neg hname, beq_false_of_ne hname]

/-- Cutting a member out of the text of an object gives what is written for its value. -/
theorem memberText?_pretty (name : String) (ms : List (String × Json)) :
    memberText? name (pretty (.object ms)) =
      (ms.lookup name).map fun v => String.ofList (prettyChars 1 v) := by
  cases ms with
  | nil => rfl
  | cons m ms =>
    have htext : (pretty (.object (m :: ms))).toList =
        '\x7b' :: (newline 1 ++ prettyMember 1 m ++
          (parts 1 (prettyMember 1) ms ++ newline 0)) ++ ['\x7d'] := by
      rw [pretty, String.toList_ofList]
      simp only [prettyChars, prettyMembers_eq, List.cons_append, List.append_assoc, Nat.zero_add]
    rw [memberText?, htext, trim_bracketed rfl rfl, List.cons_append]
    simp only [List.dropLast_concat]
    rw [findSome?_valueText? name (forall₂_isPiece m ms), Option.map_map]
    rfl

end Delegation.Json
