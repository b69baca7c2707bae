import Delegation.Proofs.Json.Quoted

/-!
# Written values are unambiguous

The first character of a written value tells what sort of value it is, and each sort tells by itself
where its text ends; only a number needs something else than a digit behind it.  So a value can be
told from its text, whatever comes behind it (`Unambiguous`): this is clear of the values without
parts, and a list of parts ends where a line feed comes instead of a comma (`eq_of_parts_append`).

Main result: `pretty_injective`.
-/

namespace Delegation.Json

open Delegation.Text

variable {r r' : List Char} {depth : Nat}

/-! ## Values without parts -/

/-- The text is over or goes on with something else than a digit. -/
def NoDigit (s : List Char) : Prop := ∀ c ∈ s.head?, c.isDigit = false

/-- What is written for `a` is written for nothing else, and it is clear where it ends. -/
def Unambiguous {α : Type} (write : α → List Char) (a : α) : Prop :=
  ∀ b r r', NoDigit r → NoDigit r' → write a ++ r = write b ++ r' → a = b ∧ r = r'

lemma TakesText.unique {line : Nat} {input text text' rest rest' : List Char}
    (h : TakesText line input text rest) (h' : TakesText line input text' rest') :
    text = text' ∧ rest = rest' := by
  obtain ⟨x, hx, rfl, rfl⟩ := h
  obtain ⟨y, hy, rfl, rfl⟩ := h'
  obtain rfl := Except.ok.inj (hx.symm.trans hy)
  exact ⟨rfl, rfl⟩

lemma eq_of_quoted_append {s s' : List Char} (h : quoted s ++ r = quoted s' ++ r') :
    s = s' ∧ r = r' := by
  have hquoted : ∀ s r, quoted s ++ r = '"' :: (s.flatMap escape ++ '"' :: r) := by
    simp [quoted]
  rw [hquoted, hquoted] at h
  have hs := takesText_escaped 0 s r
  rw [(List.cons.inj h).2] at hs
  exact hs.unique (takesText_escaped 0 s' r')

lemma quoted_inj {s s' : List Char} : quoted s = quoted s' ↔ s = s' := by
  constructor
  · intro h
    exact (eq_of_quoted_append (r := []) (congrArg (· ++ []) h)).1
  · rintro rfl
    rfl

lemma takeWhile_toDigits_append {n : Nat} (hr : NoDigit r) :
    (Nat.toDigits 10 n ++ r).takeWhile Char.isDigit = Nat.toDigits 10 n := by
  have hdigits : ∀ c ∈ Nat.toDigits 10 n, c.isDigit = true := fun c hc =>
    Nat.isDigit_of_mem_toDigits (by decide) (by decide) hc
  have hrest : r.takeWhile Char.isDigit = [] := by
    cases r with
    | nil => rfl
    | cons c r => exact List.takeWhile_cons_of_neg (by simpa using hr c rfl)
  rw [List.takeWhile_append_of_pos hdigits, hrest, List.append_nil]

lemma eq_of_toDigits_append {n n' : Nat} (hr : NoDigit r) (hr' : NoDigit r')
    (h : Nat.toDigits 10 n ++ r = Nat.toDigits 10 n' ++ r') : n = n' ∧ r = r' := by
  have hdigits := takeWhile_toDigits_append (n := n) hr
  rw [h, takeWhile_toDigits_append hr'] at hdigits
  have hread := readDecimal?_decimal n
  rw [decimal, ← hdigits] at hread
  obtain rfl := Option.some.inj ((readDecimal?_decimal n').symm.trans hread)
  exact ⟨rfl, List.append_cancel_left h⟩

/-! ## Sorts of values -/

/-- The sort of a value. -/
def sort : Json → Nat
  | .null => 0
  | .bool _ => 1
  | .number _ => 2
  | .text _ => 3
  | .array _ => 4
  | .object _ => 5

/-- The sort of the values whose texts start with a character. -/
def sortOf (c : Char) : Nat :=
  if c.isDigit then 2
  else match c with
    | 'n' => 0
    | 't' => 1
    | 'f' => 1
    | '"' => 3
    | '[' => 4
    | _ => 5

lemma exists_prettyChars_eq_cons (depth : Nat) (v : Json) :
    ∃ c rest, prettyChars depth v = c :: rest ∧ sortOf c = v.sort := by
  cases v with
  | null => exact ⟨_, _, rfl, rfl⟩
  | bool b => cases b <;> exact ⟨_, _, rfl, rfl⟩
  | number n =>
    obtain ⟨c, rest, hdigits⟩ := List.exists_cons_of_ne_nil (Nat.toDigits_ne_nil (n := n) (b := 10))
    have hc : c.isDigit = true :=
      Nat.isDigit_of_mem_toDigits (b := 10) (n := n) (by decide) (by decide) (by simp [hdigits])
    exact ⟨c, rest, hdigits, by simp [sortOf, hc, sort]⟩
  | text s => exact ⟨_, _, rfl, rfl⟩
  | array items => cases items <;> exact ⟨_, _, rfl, rfl⟩
  | object members => cases members <;> exact ⟨_, _, rfl, rfl⟩

lemma sort_eq_of_prettyChars_append {v w : Json}
    (h : prettyChars depth v ++ r = prettyChars depth w ++ r') : v.sort = w.sort := by
  obtain ⟨c, rest, hv, hc⟩ := exists_prettyChars_eq_cons depth v
  obtain ⟨d, rest', hw, hd⟩ := exists_prettyChars_eq_cons depth w
  rw [hv, hw, List.cons_append, List.cons_append] at h
  rw [← hc, ← hd, (List.cons.inj h).1]

/-! ## Lists of parts -/

/-- The text goes on with the line that closes a list of parts. -/
def Closes (s : List Char) : Prop := s.head? = some '\n'

lemma closes_newline (depth : Nat) (s : List Char) : Closes (newline depth ++ s) := rfl

lemma noDigit_of_closes (h : Closes r) : NoDigit r := by
  intro c hc
  obtain rfl := Option.some.inj (h.symm.trans hc)
  rfl

section Parts

variable {α : Type} {write : α → List Char} {x y : α} {xs ys : List α}

/-- The parts behind the first one, each after a comma. -/
def parts (depth : Nat) (write : α → List Char) (xs : List α) : List Char :=
  xs.flatMap fun x => ',' :: newline depth ++ write x

lemma parts_cons_append (depth : Nat) (write : α → List Char) (x : α) (xs : List α)
    (r : List Char) :
    parts depth write (x :: xs) ++ r =
      ',' :: newline depth ++ (write x ++ (parts depth write xs ++ r)) := by
  simp [parts]

lemma noDigit_parts_append (depth : Nat) (write : α → List Char) (xs : List α) (hr : Closes r) :
    NoDigit (parts depth write xs ++ r) := by
  cases xs with
  | nil => exact noDigit_of_closes hr
  | cons x xs =>
    rintro c ⟨⟩
    rfl

/-- The parts of a list can be told from their text. -/
lemma eq_of_parts_append (h : ∀ z ∈ x :: xs, Unambiguous write z) (hr : Closes r) (hr' : Closes r')
    (heq : write x ++ (parts depth write xs ++ r) = write y ++ (parts depth write ys ++ r')) :
    x :: xs = y :: ys ∧ r = r' := by
  induction xs generalizing x y ys with
  | nil =>
    obtain ⟨rfl, hrest⟩ := h x List.mem_cons_self y _ _ (noDigit_parts_append depth write [] hr)
      (noDigit_parts_append depth write ys hr') heq
    cases ys with
    | nil => exact ⟨rfl, hrest⟩
    | cons z ys =>
      rw [show r = _ from hrest] at hr
      cases hr
  | cons z xs ih =>
    obtain ⟨rfl, hrest⟩ := h x List.mem_cons_self y _ _
      (noDigit_parts_append depth write (z :: xs) hr) (noDigit_parts_append depth write ys hr') heq
    cases ys with
    | nil =>
      rw [show r' = _ from hrest.symm] at hr'
      cases hr'
    | cons w ys =>
      rw [parts_cons_append, parts_cons_append, List.append_cancel_left_eq] at hrest
      obtain ⟨hparts, hend⟩ := ih (fun z hz => h z (List.mem_cons_of_mem x hz)) hrest
      exact ⟨by rw [hparts], hend⟩

end Parts

/-! ## All values -/

lemma prettyItems_eq (depth : Nat) (xs : List Json) :
    prettyItems depth xs = parts depth (prettyChars depth) xs := by
  induction xs with
  | nil => rfl
  | cons x xs ih => rw [prettyItems, ih, parts, parts, List.flatMap_cons]

lemma prettyMembers_eq (depth : Nat) (ms : List (String × Json)) :
    prettyMembers depth ms = parts depth (prettyMember depth) ms := by
  induction ms with
  | nil => rfl
  | cons m ms ih => rw [prettyMembers, ih, parts, parts, List.flatMap_cons]

lemma unambiguous_prettyMember {m : String × Json} (h : Unambiguous (prettyChars depth) m.2) :
    Unambiguous (prettyMember depth) m := by
  rintro ⟨name, w⟩ r r' hr hr' heq
  obtain ⟨name', v⟩ := m
  simp only [prettyMember, List.append_assoc, List.cons_append] at heq
  obtain ⟨hname, hvalue⟩ := eq_of_quoted_append heq
  simp only [List.cons.injEq, true_and] at hvalue
  obtain ⟨rfl, hrest⟩ := h w r r' hr hr' hvalue
  exact ⟨by rw [String.toList_inj.mp hname], hrest⟩

/-- A value has a property if this follows from its parts having it. -/
@[elab_as_elim]
theorem induction_parts {motive : Json → Prop} (null : motive .null) (bool : ∀ b, motive (.bool b))
    (number : ∀ n, motive (.number n)) (text : ∀ s, motive (.text s))
    (array : ∀ items, (∀ x ∈ items, motive x) → motive (.array items))
    (object : ∀ members, (∀ m ∈ members, motive m.2) → motive (.object members)) (v : Json) :
    motive v :=
  match v with
  | .null => null
  | .bool b => bool b
  | .number n => number n
  | .text s => text s
  | .array items => array items fun x hx =>
    have := List.sizeOf_lt_of_mem hx
    induction_parts null bool number text array object x
  | .object members => object members fun m hm =>
    have := List.sizeOf_lt_of_mem hm
    have : sizeOf m.2 < sizeOf m := by
      obtain ⟨name, v⟩ := m
      simp
    induction_parts null bool number text array object m.2
termination_by sizeOf v

/-- Every value can be told from its text. -/
theorem unambiguous_prettyChars (v : Json) (depth : Nat) : Unambiguous (prettyChars depth) v := by
  induction v using induction_parts generalizing depth with
  | null =>
    intro w r r' _ _ heq
    cases w with
    | null => exact ⟨rfl, List.append_cancel_left heq⟩
    | _ => cases sort_eq_of_prettyChars_append heq
  | bool b =>
    intro w r r' _ _ heq
    cases w with
    | bool b' =>
      cases b <;> cases b' <;> first | exact ⟨rfl, List.append_cancel_left heq⟩ | cases heq
    | _ => cases sort_eq_of_prettyChars_append heq
  | number n =>
    intro w r r' hr hr' heq
    cases w with
    | number n' =>
      obtain ⟨rfl, hrest⟩ := eq_of_toDigits_append hr hr' heq
      exact ⟨rfl, hrest⟩
    | _ => cases sort_eq_of_prettyChars_append heq
  | text s =>
    intro w r r' _ _ heq
    cases w with
    | text s' =>
      obtain ⟨hs, hrest⟩ := eq_of_quoted_append heq
      rw [String.toList_inj.mp hs]
      exact ⟨rfl, hrest⟩
    | _ => cases sort_eq_of_prettyChars_append heq
  | array xs ih =>
    intro w r r' _ _ heq
    cases w with
    | array ys =>
      match xs, ys with
      | [], [] => exact ⟨rfl, List.append_cancel_left heq⟩
      | [], y :: ys => cases heq
      | x :: xs, [] => cases heq
      | x :: xs, y :: ys =>
        simp only [prettyChars, prettyItems_eq, List.cons_append, List.append_assoc,
          List.cons.injEq, true_and, List.append_cancel_left_eq] at heq
        obtain ⟨hitems, hend⟩ := eq_of_parts_append (fun z hz => ih z hz (depth + 1))
          (closes_newline depth _) (closes_newline depth _) heq
        rw [List.append_cancel_left_eq, List.cons.injEq] at hend
        exact ⟨by rw [hitems], hend.2⟩
    | _ => cases sort_eq_of_prettyChars_append heq
  | object ms ih =>
    intro w r r' _ _ heq
    cases w with
    | object ns =>
      match ms, ns with
      | [], [] => exact ⟨rfl, List.append_cancel_left heq⟩
      | [], n :: ns => cases heq
      | m :: ms, [] => cases heq
      | m :: ms, n :: ns =>
        simp only [prettyChars, prettyMembers_eq, List.cons_append, List.append_assoc,
          List.cons.injEq, true_and, List.append_cancel_left_eq] at heq
        obtain ⟨hmembers, hend⟩ := eq_of_parts_append
          (fun z hz => unambiguous_prettyMember (ih z hz (depth + 1)))
          (closes_newline depth _) (closes_newline depth _) heq
        rw [List.append_cancel_left_eq, List.cons.injEq] at hend
        exact ⟨by rw [hmembers], hend.2⟩
    | _ => cases sort_eq_of_prettyChars_append heq

/-- Different values have different texts. -/
theorem pretty_injective : Function.Injective pretty := by
  intro v w h
  have hnil : NoDigit [] := fun _ h => nomatch h
  have hchars : prettyChars 0 v ++ [] = prettyChars 0 w ++ [] := by rw [String.ofList_injective h]
  exact (unambiguous_prettyChars v 0 w [] [] hnil hnil hchars).1

end Delegation.Json
