import Delegation.Proofs.Sequence
import Delegation.Storage.Tree

/-!
# Writing files

A file is written in a directory that a path leads to, and no directory stands in its place.  So the
path leads to that directory afterwards as well, even if the file is new: its way does not pass
through the place of the file (`foldlM_step_put`).  Hence what has been written is read back, and
all other files are what they have been.

Main result: `read_of_write`.
-/

namespace Delegation.FileTree

open Delegation.Text Sequence

variable {t t' : FileTree} {place other : List (List Char)} {bytes : List UInt8} {node next : Node}
  {name : List Char} {names : List (List Char)} {path : String}

/-! ## Putting a file at a place -/

lemma lookup_filter_fst_ne {files : List (List (List Char) × List UInt8)} (h : other ≠ place) :
    (files.filter (·.1 != place)).lookup other = files.lookup other := by
  induction files with
  | nil => rfl
  | cons file files ih =>
    obtain ⟨p, b⟩ := file
    by_cases hp : p = place
    · subst hp
      have hne : (other == p) = false := beq_eq_false_iff_ne.mpr h
      rw [List.filter_cons_of_neg (by simp), ih, List.lookup_cons, hne]
    · rw [List.filter_cons_of_pos (by simpa using hp), List.lookup_cons, List.lookup_cons, ih]

@[simp] lemma file?_put_self : (t.put place bytes).file? place = some bytes := by
  simp [put, file?]

lemma file?_put_of_ne (h : other ≠ place) : (t.put place bytes).file? other = t.file? other := by
  have hne : (other == place) = false := beq_eq_false_iff_ne.mpr h
  rw [put, file?, file?, List.lookup_cons, hne]
  exact lookup_filter_fst_ne h

/-- No directory disappears. -/
lemma isDirectory_put (h : t.isDirectory other = true) :
    (t.put place bytes).isDirectory other = true := by
  rw [isDirectory, Bool.or_eq_true, List.any_eq_true] at h ⊢
  refine h.imp_right ?_
  rintro ⟨⟨p, b⟩, hmem, hbelow⟩
  by_cases hp : p = place
  · subst hp
    exact ⟨(p, bytes), List.mem_cons_self, hbelow⟩
  · exact ⟨(p, b), List.mem_cons_of_mem _ (List.mem_filter.mpr ⟨hmem, by simpa using hp⟩), hbelow⟩

/-! ## Following a path -/

/-- No directory can be entered at the place. -/
def IsFree (t : FileTree) (place : List (List Char)) : Prop :=
  (t.file? place).isSome = true ∨ t.isDirectory place = false

/-- What a place is entered as. -/
def enter (t : FileTree) (place : List (List Char)) : Except StorageProblem Node :=
  match t.file? place with
  | some bytes => .ok (.file bytes)
  | none => if t.isDirectory place then .ok (.directory place) else .error .notFound

/-- A name either leads to the place that it names, or it does not depend on the files where it
leads. -/
lemma step_directory (start : List (List Char)) (name : List Char) :
    (∀ t : FileTree, t.step (.directory start) name = t.enter (start ++ [name])) ∨
      ∃ result, (∀ t : FileTree, t.step (.directory start) name = result) ∧
        (∀ b, result ≠ .ok (.file b)) ∧ result ≠ .error .notFound := by
  simp only [step]
  split_ifs with hstay hup htop hlong
  · exact .inr ⟨_, fun _ => rfl, by simp, by simp⟩
  · exact .inr ⟨_, fun _ => rfl, by simp, by simp⟩
  · exact .inr ⟨_, fun _ => rfl, by simp, by simp⟩
  · exact .inr ⟨_, fun _ => rfl, by simp, by simp⟩
  · exact .inl fun _ => rfl

lemma enter_put_self : (t.put place bytes).enter place = .ok (.file bytes) := by
  rw [enter, file?_put_self]

lemma isFree_iff_enter :
    t.IsFree place ↔ (∃ b, t.enter place = .ok (.file b)) ∨ t.enter place = .error .notFound := by
  rw [IsFree, enter]
  cases t.file? place <;> cases t.isDirectory place <;> simp

/-- A directory is still entered when a file is put elsewhere. -/
lemma enter_put (hfree : t.IsFree place) (h : t.enter other = .ok next)
    (hnext : ∀ b, next ≠ .file b) : (t.put place bytes).enter other = .ok next := by
  have hne : other ≠ place := by
    rintro rfl
    rcases isFree_iff_enter.mp hfree with ⟨b, hb⟩ | hnone
    · exact hnext b (Except.ok.inj (h.symm.trans hb))
    · cases h.symm.trans hnone
  rw [enter] at h ⊢
  rw [file?_put_of_ne hne]
  cases hfile : t.file? other with
  | some b =>
    rw [hfile] at h
    exact absurd (Except.ok.inj h).symm (hnext b)
  | none =>
    simp only [hfile] at h ⊢
    split_ifs at h with hdirectory
    rw [if_pos (isDirectory_put hdirectory), h]

lemma step_put (hfree : t.IsFree place) (h : t.step node name = .ok next)
    (hnext : ∀ b, next ≠ .file b) : (t.put place bytes).step node name = .ok next := by
  cases node with
  | file b => cases h
  | outside => exact h
  | directory start =>
    rcases step_directory start name with henter | ⟨result, hresult, -⟩
    · rw [henter] at h ⊢
      exact enter_put hfree h hnext
    · rw [hresult] at h ⊢
      exact h

/-- A way to a directory is not changed by a file elsewhere. -/
lemma foldlM_step_put (hfree : t.IsFree place) (h : names.foldlM t.step node = .ok next)
    (hnext : ∀ b, next ≠ .file b) : names.foldlM (t.put place bytes).step node = .ok next := by
  induction names generalizing node with
  | nil => exact h
  | cons name names ih =>
    rw [List.foldlM_cons, bind_eq_ok_iff] at h ⊢
    obtain ⟨mid, hmid, h⟩ := h
    refine ⟨mid, step_put hfree hmid ?_, ih h⟩
    -- nothing comes behind a file
    rintro b rfl
    cases names with
    | nil => exact hnext b (Except.ok.inj h).symm
    | cons => cases h

/-! ## Writing -/

lemma dropWhile_slash {path : List Char} (h : path.getLast? ≠ some '/') :
    (path.reverse.dropWhile (· == '/')).reverse = path := by
  cases hreverse : path.reverse with
  | nil => rw [List.reverse_eq_nil_iff.mp hreverse]; rfl
  | cons c rest =>
    have hc : c ≠ '/' := by
      rintro rfl
      rw [← List.head?_reverse, hreverse] at h
      exact h rfl
    rw [List.dropWhile_cons_of_neg (by simpa using hc), ← hreverse, List.reverse_reverse]

/-- A path that can be written leads to a directory and, in it, to a file or to nothing. -/
lemma exists_put_of_write (h : t.write path bytes = .ok t') :
    checkPath path.toList = .ok () ∧
      ∃ names name place, pieces '/' path.toList = names ++ [name] ∧
        names.foldlM t.step (origin path.toList) = .ok (.directory place) ∧
        ((∃ b, t.step (.directory place) name = .ok (.file b)) ∨
          t.step (.directory place) name = .error .notFound) ∧
        t' = t.put (place ++ [name]) bytes := by
  simp only [write] at h
  cases hcheck : checkPath path.toList with
  | error problem => simp [hcheck] at h
  | ok =>
    simp only [hcheck] at h
    refine ⟨rfl, ?_⟩
    split at h
    · cases h
    · cases h
    · next parent _ hparent =>
      split_ifs at h with hslash
      rw [dropWhile_slash hslash] at hparent h
      have hne := pieces_ne_nil '/' path.toList
      have hnames := (List.dropLast_append_getLast hne).symm
      rw [List.getLast?_eq_some_getLast hne, Option.getD_some] at h
      split at h
      · next hstep => exact ⟨_, _, _, hnames, hparent, .inl ⟨_, hstep⟩, (Except.ok.inj h).symm⟩
      · next hstep => exact ⟨_, _, _, hnames, hparent, .inr hstep, (Except.ok.inj h).symm⟩
      · cases h
      · cases h

/-- What is written is read back, and no other file is touched. -/
theorem read_of_write (h : t.write path bytes = .ok t') :
    t'.read path = .ok (Feed.ofBytes bytes) ∧
      ∃ place, t'.file? place = some bytes ∧
        ∀ other, other ≠ place → t'.file? other = t.file? other := by
  obtain ⟨hcheck, names, name, place, hnames, hparent, hlast, rfl⟩ := exists_put_of_write h
  rcases step_directory place name with henter | ⟨result, hresult, hfile, hnotFound⟩
  · rw [henter] at hlast
    have hfree := isFree_iff_enter.mpr hlast
    refine ⟨?_, _, file?_put_self, fun other hother => file?_put_of_ne hother⟩
    have hresolve : (t.put (place ++ [name]) bytes).resolve path.toList = .ok (.file bytes) := by
      rw [resolve, hcheck]
      show (pieces '/' path.toList).foldlM _ _ = _
      rw [hnames, List.foldlM_append, bind_eq_ok_iff]
      refine ⟨_, foldlM_step_put hfree hparent (by simp), ?_⟩
      rw [List.foldlM_cons, henter, enter_put_self]
      rfl
    rw [read, hresolve]
    rfl
  · rw [hresult] at hlast
    rcases hlast with ⟨b, hb⟩ | hnone
    · exact absurd hb (hfile b)
    · exact absurd hnone hnotFound

end Delegation.FileTree
