import Delegation.Command.Arguments
import Delegation.Proofs.Sequence

/-!
# Adding a flag to the arguments

Arguments are read from left to right, and what has been read before shows only in two ways: an
option may not be repeated, and the option whose value is due.  So arguments that do not give a flag
are read in the same way behind that flag (`Uniform`), and the flag is all that is added to what has
been read.

Main result: `read_add_quiet`, for the flag of `lookup`, which can be put right behind the name of
the command.
-/

namespace Delegation.Command

open Sequence

variable {g : Grammar} {r s : Reading} {flag : String} {argument : String} {arguments : List String}

namespace Reading

/-- What has been read if a flag was given before everything else. -/
def withFlag (r : Reading) (flag : String) : Reading :=
  { r with options := r.options ++ [(flag, "")] }

@[simp] lemma operands_withFlag : (r.withFlag flag).operands = r.operands := rfl

lemma has_withFlag {long : String} :
    (r.withFlag flag).has long = (r.has long || flag == long) := by
  simp [withFlag, has]

lemma values_withFlag {long : String} (h : flag ≠ long) :
    (r.withFlag flag).values long = r.values long := by
  simp [withFlag, values, h]

/-- Nothing that has been read is forgotten, and if the flag is not read, it makes no difference
that it was given before. -/
def Uniform (flag : String) (read : Reading → Except Stop Reading) : Prop :=
  ∀ r s, read r = .ok s → (r.has flag = true → s.has flag = true) ∧
    (s.has flag = false → read (r.withFlag flag) = .ok (s.withFlag flag))

lemma Uniform.ok {next : Reading → Reading} (hhas : ∀ r, (next r).has flag = r.has flag)
    (hnext : ∀ r, next (r.withFlag flag) = (next r).withFlag flag) :
    Uniform flag fun r => .ok (next r) := by
  intro r s h
  obtain rfl := Except.ok.inj h
  exact ⟨fun hr => by rw [hhas, hr], fun _ => congrArg Except.ok (hnext r)⟩

lemma Uniform.error {stop : Stop} : Uniform flag fun _ => .error stop := by
  intro r s h
  cases h

lemma Uniform.bind {p q : Reading → Except Stop Reading} (hp : Uniform flag p)
    (hq : Uniform flag q) : Uniform flag fun r => p r >>= q := by
  intro r s h
  obtain ⟨m, hm, hs⟩ := bind_eq_ok_iff.mp h
  obtain ⟨hrm, hpm⟩ := hp r m hm
  obtain ⟨hms, hqs⟩ := hq m s hs
  refine ⟨fun hr => hms (hrm hr), fun hs' => ?_⟩
  -- a flag that is not there at the end has not been there in between
  have hm' : m.has flag = false := Bool.eq_false_iff.mpr fun hm' => by simp [hms hm'] at hs'
  exact bind_eq_ok_iff.mpr ⟨_, hpm hm', hqs hs'⟩

/-! ## One argument -/

lemma addOption_eq_ok_iff {spec : OptionSpec} {value : String} :
    r.addOption spec value = .ok s ↔ (spec.repeats = true ∨ r.has spec.long = false) ∧
      { r with options := (spec.long, value) :: r.options, pending := none } = s := by
  rw [addOption]
  cases spec.repeats <;> cases r.has spec.long <;> simp

lemma uniform_addOption (spec : OptionSpec) (value : String) :
    Uniform flag fun r => r.addOption spec value := by
  intro r s h
  obtain ⟨hrepeats, rfl⟩ := addOption_eq_ok_iff.mp h
  refine ⟨fun hr => by simp_all [has], fun hs => ?_⟩
  have hne : spec.long ≠ flag := by
    rintro rfl
    simp [has] at hs
  refine addOption_eq_ok_iff.mpr ⟨?_, rfl⟩
  rw [has_withFlag, Bool.or_eq_false_iff, beq_eq_false_iff_ne]
  exact hrepeats.imp_right fun hr => ⟨hr, hne.symm⟩

lemma uniform_addValue (spec : OptionSpec) (accepts : String → Bool) (value : String) :
    Uniform flag fun r => r.addValue spec accepts value := by
  simp only [addValue]
  split_ifs
  · exact uniform_addOption spec value
  · exact .error

lemma uniform_addOperand (g : Grammar) (operand : String) :
    Uniform flag fun r => addOperand g r operand := by
  intro r s h
  simp only [addOperand] at h ⊢
  rw [operands_withFlag]
  split_ifs at h ⊢
  obtain rfl := Except.ok.inj h
  exact ⟨fun hr => hr, fun _ => rfl⟩

lemma uniform_pending (spec : OptionSpec) :
    Uniform flag fun r => .ok { r with pending := some spec } :=
  .ok (fun _ => rfl) fun _ => rfl

lemma uniform_readLong (g : Grammar) (text : List Char) :
    Uniform flag fun r => readLong g r text := by
  simp only [readLong]
  split
  · exact .error
  · split
    · exact uniform_addOption _ _
    · exact .error
    · exact uniform_addValue _ _ _
    · exact uniform_pending _
    · exact .error

lemma uniform_readShort (g : Grammar) (text : List Char) :
    Uniform flag fun r => readShort g r text := by
  induction text with
  | nil => exact .ok (fun _ => rfl) fun _ => rfl
  | cons c rest ih =>
    simp only [readShort]
    split
    · exact .error
    · next spec _ =>
      split
      · exact .error
      · refine (congrArg (Uniform flag) (funext fun r => ?_)).mpr
          ((uniform_addOption spec "").bind ih)
        cases r.addOption spec "" <;> rfl
      · split
        · exact uniform_pending _
        · exact uniform_addValue _ _ _
        · exact uniform_addValue _ _ _

lemma uniform_step (g : Grammar) (argument : String) :
    Uniform flag fun r => r.step g argument := by
  -- for readings in which the same option is due and operands are treated alike
  have hsame : ∀ pending onlyOperands, Uniform flag fun r =>
      step g { r with pending := pending, onlyOperands := onlyOperands } argument := by
    intro pending onlyOperands
    have hset : Uniform flag fun r =>
        .ok { r with pending := pending, onlyOperands := onlyOperands } :=
      .ok (fun _ => rfl) fun _ => rfl
    cases pending with
    | some spec =>
      simp only [step]
      split
      · exact .error
      · exact hset.bind (uniform_addValue _ _ _)
      · exact .error
    | none =>
      simp only [step]
      split
      · exact hset.bind (uniform_addOperand g argument)
      · split
        · exact .ok (fun _ => rfl) fun _ => rfl
        · exact hset.bind (uniform_readLong g _)
        · next c text _ _ _ => exact hset.bind (uniform_readShort g (c :: text))
        · exact hset.bind (uniform_addOperand g argument)
  exact fun r => hsame r.pending r.onlyOperands r

/-! ## All arguments -/

lemma uniform_foldlM (g : Grammar) (arguments : List String) :
    Uniform flag fun r => arguments.foldlM (step g) r := by
  induction arguments with
  | nil => exact .ok (fun _ => rfl) fun _ => rfl
  | cons argument arguments ih =>
    simp only [List.foldlM_cons]
    exact (uniform_step g argument).bind ih

lemma read_eq_ok_iff :
    read g arguments = .ok r ↔ arguments.foldlM (step g) start = .ok r ∧ r.pending = none := by
  rw [read]
  cases arguments.foldlM (step g) start with
  | error stop => simp
  | ok q =>
    cases hpending : q.pending <;> simp [hpending] <;> rintro rfl <;> simp [hpending]

/-- Arguments that do not give a flag may be read behind it. -/
theorem read_cons_of_flag (hflag : start.step g argument = .ok (start.withFlag flag))
    (hread : read g arguments = .ok r) (hr : r.has flag = false) :
    read g (argument :: arguments) = .ok (r.withFlag flag) := by
  obtain ⟨hfold, hpending⟩ := read_eq_ok_iff.mp hread
  refine read_eq_ok_iff.mpr ⟨?_, hpending⟩
  rw [List.foldlM_cons, hflag]
  exact (uniform_foldlM g arguments start r hfold).2 hr

end Reading

/-! ## Looking up without output -/

variable {address : String} {paths : List String} {countries : Option String} {quiet : Bool}

lemma readLookup_eq_ok_iff :
    readLookup arguments = .ok (.lookup address paths countries quiet) ↔
      ∃ r rest, Reading.read lookupGrammar arguments = .ok r ∧ r.operands = address :: rest ∧
        r.values "input" = paths ∧ paths ≠ [] ∧ r.value? "countries" = countries ∧
        r.has "quiet" = quiet := by
  rw [readLookup, bind_eq_ok_iff]
  refine exists_congr fun r => ?_
  cases hoperands : r.operands with
  | nil => simp
  | cons operand rest =>
    cases hinputs : r.values "input" with
    | nil =>
      simp only [reduceCtorEq, and_false, false_iff]
      rintro ⟨_, -, -, rfl, hne, -⟩
      exact hne rfl
    | cons path others =>
      simp only [Except.ok.injEq, Request.lookup.injEq, List.cons.injEq, exists_and_left]
      constructor
      · rintro ⟨hread, rfl, rfl, hcountries, hquiet⟩
        exact ⟨hread, rest, ⟨rfl, rfl⟩, rfl, List.cons_ne_nil _ _, hcountries, hquiet⟩
      · rintro ⟨hread, _, ⟨rfl, -⟩, rfl, -, hcountries, hquiet⟩
        exact ⟨hread, rfl, rfl, hcountries, hquiet⟩

/-- The flag may be given before everything else. -/
lemma readLookup_quiet (h : readLookup arguments = .ok (.lookup address paths countries false)) :
    readLookup ("--quiet" :: arguments) = .ok (.lookup address paths countries true) := by
  obtain ⟨r, rest, hread, hoperands, hpaths, hne, hcountries, hquiet⟩ := readLookup_eq_ok_iff.mp h
  refine readLookup_eq_ok_iff.mpr ⟨r.withFlag "quiet", rest,
    Reading.read_cons_of_flag rfl hread hquiet, hoperands, ?_, hne, ?_, ?_⟩
  · rwa [Reading.values_withFlag (by decide)]
  · rwa [Reading.value?, Reading.values_withFlag (by decide)]
  · rw [Reading.has_withFlag]
    simp

/-! ## The name of the command -/

/-- A lookup is asked for by the name of that command. -/
lemma eq_lookup_of_readNamed {name : String}
    (h : readNamed name arguments = .ok (.lookup address paths countries quiet)) :
    name = "lookup" := by
  simp only [readNamed] at h
  split_ifs at h with hbuild hlookup hcidr hhelp
  · rw [readBuild, bind_eq_ok_iff] at h
    obtain ⟨r, -, h⟩ := h
    split at h <;> cases h
  · exact hlookup
  · rw [readCidr, bind_eq_ok_iff] at h
    obtain ⟨r, -, h⟩ := h
    split at h <;> cases h

/-- What stands before the name of the command does not depend on what stands behind it. -/
lemma exists_readNamed_of_readOuter {r : Reading} {request : Request}
    (h : readOuter r arguments = .ok request) :
    ∃ before name after, arguments = before ++ name :: after ∧
      readNamed name after = .ok request ∧
      ∀ others, readOuter r (before ++ name :: others) = readNamed name others := by
  induction arguments generalizing r with
  | nil => cases h
  | cons argument arguments ih =>
    simp only [readOuter] at h
    split at h
    · next c rest htext =>
      cases hstep : Reading.step outerGrammar r argument with
      | error stop => simp [hstep] at h
      | ok s =>
        simp only [hstep] at h
        split_ifs at h with honly
        obtain ⟨before, name, after, rfl, hnamed, hrest⟩ := ih h
        refine ⟨argument :: before, name, after, rfl, hnamed, fun others => ?_⟩
        simp only [List.cons_append, readOuter, htext, hstep, if_neg honly]
        exact hrest others
    · next hplain =>
      refine ⟨[], argument, arguments, rfl, h, fun others => ?_⟩
      -- by `hplain` nothing is read before the name
      simp only [List.nil_append, readOuter]

/-- A lookup is never asked for without any input. -/
lemma paths_ne_nil_of_read
    (h : Request.read arguments = .ok (.lookup address paths countries quiet)) : paths ≠ [] := by
  obtain ⟨before, name, after, rfl, hnamed, -⟩ := exists_readNamed_of_readOuter h
  obtain rfl := eq_lookup_of_readNamed hnamed
  obtain ⟨-, -, -, -, -, hne, -⟩ := readLookup_eq_ok_iff.mp hnamed
  exact hne

/-- A lookup that is asked for with output can also be asked for without. -/
theorem read_add_quiet
    (h : Request.read arguments = .ok (.lookup address paths countries false)) :
    ∃ before after, arguments = before ++ "lookup" :: after ∧
      Request.read (before ++ "lookup" :: "--quiet" :: after) =
        .ok (.lookup address paths countries true) := by
  obtain ⟨before, name, after, rfl, hnamed, hread⟩ := exists_readNamed_of_readOuter h
  obtain rfl := eq_lookup_of_readNamed hnamed
  exact ⟨before, after, rfl, (hread _).trans (readLookup_quiet hnamed)⟩

end Delegation.Command
