import FinChain.Lib.Loops
import Mathlib.Data.List.TakeWhile
import Mathlib.Algebra.Ring.Nat

/-!
# Account names

`is_valid_name` walks over a name by position: it looks for the next dot, checks the label in front of it by its
first, its last and its other characters, and goes on behind the dot. The documentation describes the
names by a grammar, a sequence of labels with dots between them.

Both agree on every string (`isValidName_iff`), and no position that is read lies outside the string. A label of length zero,
in front of a leading dot, behind a trailing one or between two, is refused before any of its
characters is read.
-/

namespace FinChain.Protocol

open Exec

/-- `GRAPHENE_MIN_ACCOUNT_NAME_LENGTH` -/
def minAccountNameLength : ℕ := 1

/-- `GRAPHENE_MAX_ACCOUNT_NAME_LENGTH` -/
def maxAccountNameLength : ℕ := 63

/-- What can go wrong in `is_valid_name`. -/
inductive NameFault
  /-- A failed `FC_ASSERT`. -/
  | assertion
  /-- A character is read that the string does not have. -/
  | outOfRange
  /-- The loop has not come to an end. -/
  | endless
  deriving DecidableEq

/-- `name[ i ]` -/
def charAt (name : List Char) (i : ℕ) : EStateM NameFault Unit Char :=
  require .outOfRange name[i]?

/-- `a - b` of two numbers of type `size_t`. -/
def sizeSub (a b : ℕ) : ℕ := (a + 2 ^ 64 - b) % 2 ^ 64

/-- `name.find_first_of( c, begin )`, where there is none for `npos`. -/
def findFirstOf (name : List Char) (c : Char) (start : ℕ) : Option ℕ :=
  ((name.drop start).findIdx? (· == c)).map (start + ·)

/-- The cases of the `switch` on the last character of a label. -/
def isLetDig (c : Char) : Bool := c.isLower || c.isDigit

/-- The cases of the `switch` on a character inside a label. -/
def isLetDigHyp (c : Char) : Bool := isLetDig c || c == '-'

/-- The inner loop, over the positions that are left. -/
def validBetween (name : List Char) : List ℕ → EStateM NameFault Unit Bool
  | [] => pure true
  | i :: is => do
    if isLetDigHyp (← charAt name i) then validBetween name is else pure false

/-- The body of the `while` loop, for the label that starts at `begin`. It goes on with the next label or it
returns. -/
def labelRound (name : List Char) (start : ℕ) : EStateM NameFault Unit (ℕ ⊕ Bool) := do
  let stop := (findFirstOf name '.' start).getD name.length
  if sizeSub stop start < minAccountNameLength then return .inr false
  if !(← charAt name start).isLower then return .inr false
  if !isLetDig (← charAt name (sizeSub stop 1)) then return .inr false
  -- `for( size_t i=begin+1; i<end-1; i++ )`
  if !(← validBetween name (List.range' (start + 1) (sizeSub stop 1 - (start + 1)))) then
    return .inr false
  if stop = name.length then return .inr true
  return .inl (stop + 1)

/-- The `while` loop. -/
def validLabels (name : List Char) : ℕ → ℕ → EStateM NameFault Unit Bool
  | 0, _ => throw .endless
  | rounds + 1, start => labelRound name start >>= Sum.elim (validLabels name rounds) pure

/-- `is_valid_name` -/
def isValidName (name : List Char) : EStateM NameFault Unit Bool := do
  assert .assertion (1 ≤ name.length)
  if name.length < minAccountNameLength then return false
  if maxAccountNameLength < name.length then return false
  validLabels name (name.length + 1) 0

/-! ### The grammar -/

/-- `<label>`: a letter in front, a letter or digit at the end, and letters, digits and hyphens
between them. All letters are lowercase. -/
structure IsLabel (label : List Char) : Prop where
  length : minAccountNameLength ≤ label.length
  first : ∀ c ∈ label.head?, c.isLower
  last : ∀ c ∈ label.getLast?, c.isLower ∨ c.isDigit
  between : ∀ c ∈ label.tail.dropLast, c.isLower ∨ c.isDigit ∨ c = '-'

/-- `<subdomain> ::= <label> ("." <label>)*` -/
def IsSubdomain (name : List Char) : Prop :=
  ∃ labels : List (List Char), labels ≠ [] ∧ (∀ label ∈ labels, IsLabel label) ∧
    name = ['.'].intercalate labels

theorem IsLabel.no_dot {label : List Char} (h : IsLabel label) : '.' ∉ label := by
  intro hmem
  obtain ⟨c, rest, rfl⟩ := List.exists_cons_of_ne_nil (List.ne_nil_of_mem hmem)
  -- the dot is the first character, the last one or one between them
  have hfirst := h.first c rfl
  rcases List.mem_cons.mp hmem with rfl | hmem
  · exact absurd hfirst (by decide)
  · have hne := List.ne_nil_of_mem hmem
    rw [← List.dropLast_append_getLast hne, List.mem_append, List.mem_singleton] at hmem
    rcases hmem with hmem | hdot
    · have := h.between '.' hmem
      revert this
      decide
    · have := h.last '.' (by rw [List.getLast?_cons_of_ne_nil hne, List.getLast?_eq_getLast_of_ne_nil hne, hdot]; rfl)
      revert this
      decide

/-- The labels of a name are what stands between its dots. -/
theorem isSubdomain_iff_splitOn {name : List Char} :
    IsSubdomain name ↔ ∀ label ∈ name.splitOn '.', IsLabel label := by
  constructor
  · rintro ⟨labels, hne, hlabels, rfl⟩
    rwa [List.splitOn_intercalate '.' (fun label hmem => (hlabels label hmem).no_dot) hne]
  · intro h
    exact ⟨name.splitOn '.', List.splitOn_ne_nil '.' name, h, (List.intercalate_splitOn '.').symm⟩

theorem isSubdomain_of_no_dot {label : List Char} (hdot : '.' ∉ label) :
    IsSubdomain label ↔ IsLabel label := by
  rw [isSubdomain_iff_splitOn, List.splitOn_eq_singleton hdot]
  exact List.forall_mem_singleton

theorem isSubdomain_dot {label rest : List Char} (hdot : '.' ∉ label) :
    IsSubdomain (label ++ '.' :: rest) ↔ IsLabel label ∧ IsSubdomain rest := by
  have hsplit : (label ++ '.' :: rest).splitOn '.' = label :: rest.splitOn '.' :=
    List.splitOn_append_cons_of_forall_mem_beq_eq_false
      (fun c hc => beq_eq_false_iff_ne.mpr (ne_of_mem_of_not_mem hc hdot)) '.' (beq_self_eq_true _) rest
  rw [isSubdomain_iff_splitOn, hsplit, List.forall_mem_cons, ← isSubdomain_iff_splitOn]

/-! ### One round -/

section Round

variable {before label rest : List Char} {name : List Char} {i : ℕ}

/-- A name with the label that a round looks at set off. -/
structure AtLabel (name before label rest : List Char) : Prop where
  parts : name = before ++ (label ++ rest)
  no_dot : '.' ∉ label
  behind : rest = [] ∨ ∃ more, rest = '.' :: more
  fits : name.length < 2 ^ 64

theorem charAt_of_getElem? {c : Char} (h : name[i]? = some c) : charAt name i () = .ok c () := by
  unfold charAt
  rw [h]
  rfl

/-- The label ends at the next dot or at the end of the name. -/
theorem AtLabel.stop (h : AtLabel name before label rest) :
    (findFirstOf name '.' before.length).getD name.length = before.length + label.length := by
  have hdots : label.findIdx? (· == '.') = none :=
    List.findIdx?_eq_none_iff.mpr fun c hc => beq_eq_false_iff_ne.mpr (ne_of_mem_of_not_mem hc h.no_dot)
  rw [findFirstOf, h.parts, List.drop_left, List.findIdx?_append, hdots]
  rcases h.behind with rfl | ⟨more, rfl⟩
  · simp
  · simp [List.findIdx?_cons]

/-- The inner loop reads the characters of a part of the name. -/
theorem validBetween_eq (rest middle : List Char) : ∀ before : List Char,
    validBetween (before ++ (middle ++ rest)) (List.range' before.length middle.length) () =
      .ok (middle.all isLetDigHyp) () := by
  induction middle with
  | nil => exact fun before => rfl
  | cons c middle ih =>
    intro before
    have hc : charAt (before ++ (c :: middle ++ rest)) before.length () = .ok c () :=
      charAt_of_getElem? (by simp)
    have hmore := ih (before ++ [c])
    rw [List.append_assoc, List.length_append, List.length_singleton] at hmore
    rw [List.length_cons, List.range'_succ, validBetween, bind_apply, hc, List.all_cons]
    by_cases hhyp : isLetDigHyp c
    · simp only [hhyp, if_true, Bool.true_and]
      exact hmore
    · simp only [hhyp, if_false, Bool.false_and, Bool.false_eq_true]
      rfl

theorem isLetDig_iff {c : Char} : isLetDig c ↔ c.isLower ∨ c.isDigit := by
  simp [isLetDig]

theorem isLetDigHyp_iff {c : Char} : isLetDigHyp c ↔ c.isLower ∨ c.isDigit ∨ c = '-' := by
  simp [isLetDigHyp, isLetDig, or_assoc]

/-- The four checks of a round are those of the grammar. -/
theorem isLabel_cons {c : Char} {cs : List Char} :
    IsLabel (c :: cs) ↔ c.isLower ∧ isLetDig ((c :: cs).getLast (List.cons_ne_nil c cs)) ∧
      cs.dropLast.all isLetDigHyp := by
  have hlast := List.getLast?_eq_getLast_of_ne_nil (List.cons_ne_nil c cs)
  constructor
  · intro h
    refine ⟨h.first c rfl, isLetDig_iff.mpr (h.last _ hlast), List.all_eq_true.mpr fun x hx => ?_⟩
    exact isLetDigHyp_iff.mpr (h.between x hx)
  · rintro ⟨hfirst, hend, hmiddle⟩
    refine ⟨by simp [minAccountNameLength], ?_, ?_, ?_⟩
    · rintro x ⟨⟩
      exact hfirst
    · intro x hx
      rw [Option.mem_def, hlast] at hx
      cases hx
      exact isLetDig_iff.mp hend
    · intro x hx
      exact isLetDigHyp_iff.mp (List.all_eq_true.mp hmiddle x hx)

/-- What a round does with a label that is not empty, check by check. -/
theorem AtLabel.round_cons {c : Char} {cs : List Char} (h : AtLabel name before (c :: cs) rest) :
    labelRound name before.length () =
      .ok (if !c.isLower then .inr false
        else if !isLetDig ((c :: cs).getLast (List.cons_ne_nil c cs)) then .inr false
        else if !cs.dropLast.all isLetDigHyp then .inr false
        else if before.length + (c :: cs).length = name.length then .inr true
        else .inl (before.length + (c :: cs).length + 1)) () := by
  have hlength : name.length = before.length + (cs.length + 1) + rest.length := by
    rw [h.parts]
    simp only [List.length_append, List.length_cons]
    omega
  have hfits := h.fits
  have hsize : sizeSub (before.length + (c :: cs).length) before.length = cs.length + 1 := by
    rw [List.length_cons, sizeSub]
    omega
  have hend : sizeSub (before.length + (c :: cs).length) 1 = before.length + cs.length := by
    rw [List.length_cons, sizeSub]
    omega
  have hfirst : charAt name before.length () = .ok c () :=
    charAt_of_getElem? (by rw [h.parts]; simp)
  have hlast : charAt name (before.length + cs.length) () =
      .ok ((c :: cs).getLast (List.cons_ne_nil c cs)) () := by
    apply charAt_of_getElem?
    rw [h.parts, List.getElem?_append_right (Nat.le_add_right _ _), Nat.add_sub_cancel_left,
      List.getElem?_append_left (Nat.lt_succ_self _), List.getLast_eq_getElem]
    simp
  have hmiddle : validBetween name (List.range' (before.length + 1) (before.length + cs.length - (before.length + 1))) () =
      .ok (cs.dropLast.all isLetDigHyp) () := by
    obtain ⟨tail, htail⟩ := cs.dropLast_prefix
    have hname : name = (before ++ [c]) ++ (cs.dropLast ++ (tail ++ rest)) := by
      rw [h.parts]
      conv_lhs => rw [← htail]
      simp
    have hcount : before.length + cs.length - (before.length + 1) = cs.dropLast.length := by
      rw [List.length_dropLast]
      omega
    have heq := validBetween_eq (tail ++ rest) cs.dropLast (before ++ [c])
    rw [hcount, hname]
    rwa [List.length_append, List.length_singleton] at heq
  have hone : ¬ cs.length + 1 < minAccountNameLength := by
    simp [minAccountNameLength]
  simp only [labelRound, h.stop, hsize, hone, if_false, bind_apply, hfirst, hend]
  split
  · rfl
  simp only [bind_apply, hlast]
  split
  · rfl
  simp only [bind_apply, hmiddle]
  split
  · rfl
  split
  · rfl
  · rfl

/-- What a round does with a label: it returns if the label is no good or the last one. -/
theorem AtLabel.round (h : AtLabel name before label rest) [Decidable (IsLabel label)] :
    labelRound name before.length () =
      .ok (if IsLabel label then
          if rest = [] then .inr true else .inl (before.length + label.length + 1)
        else .inr false) () := by
  cases label with
  | nil =>
    -- an empty label is refused by its length
    have hno : ¬ IsLabel [] := fun h => absurd h.length (by decide)
    have hfits := h.fits
    have hparts : name.length = before.length + rest.length := by
      rw [h.parts]
      simp
    have hsize : sizeSub (before.length + ([] : List Char).length) before.length = 0 := by
      rw [List.length_nil, sizeSub]
      omega
    rw [if_neg hno]
    simp only [labelRound, h.stop, hsize]
    rfl
  | cons c cs =>
    have hlast : before.length + (c :: cs).length = name.length ↔ rest = [] := by
      rw [h.parts, ← List.length_eq_zero_iff]
      simp only [List.length_append]
      omega
    rw [h.round_cons]
    by_cases hlabel : IsLabel (c :: cs)
    · obtain ⟨hfirst, hend, hmiddle⟩ := isLabel_cons.mp hlabel
      simp only [hfirst, hend, hmiddle, hlabel, hlast, Bool.not_true, Bool.false_eq_true, if_false, if_true]
    · have hsome : ¬ (c.isLower ∧ isLetDig ((c :: cs).getLast (List.cons_ne_nil c cs)) ∧
          cs.dropLast.all isLetDigHyp) := fun h => hlabel (isLabel_cons.mpr h)
      rw [if_neg hlabel]
      split
      · rfl
      split
      · rfl
      split
      · rfl
      · simp_all

theorem exists_atLabel {rest : List Char} (hname : name = before ++ rest) (hfits : name.length < 2 ^ 64) :
    ∃ label behind, rest = label ++ behind ∧ AtLabel name before label behind := by
  refine ⟨rest.takeWhile (· != '.'), rest.dropWhile (· != '.'), List.takeWhile_append_dropWhile.symm, ?_⟩
  refine ⟨by rw [List.takeWhile_append_dropWhile]; exact hname, ?_, ?_, hfits⟩
  · intro hdot
    have := List.mem_takeWhile_imp hdot
    simp at this
  · cases hmore : rest.dropWhile (· != '.') with
    | nil => exact .inl rfl
    | cons c more =>
      have hc : (c != '.') = false := by
        have := List.head?_dropWhile_not (· != '.') rest
        rw [hmore] at this
        simpa using this
      rw [bne_eq_false_iff_eq] at hc
      exact .inr ⟨more, by rw [hc]⟩

end Round

/-! ### The loop -/

/-- From any position the loop ends, and finds out whether the rest of the name is in the grammar. -/
theorem validLabels_spec {name : List Char} (hfits : name.length < 2 ^ 64) :
    ∀ (rounds : ℕ) (before rest : List Char), name = before ++ rest → rest.length < rounds → ∃ valid,
      Ends (labelRound name) before.length () (.ok valid ()) ∧
      validLabels name rounds before.length () = .ok valid () ∧ (valid = true ↔ IsSubdomain rest) := by
  classical
  intro rounds
  induction rounds with
  | zero => exact fun _ _ _ hrounds => absurd hrounds (Nat.not_lt_zero _)
  | succ rounds ih =>
    intro before rest hname hrounds
    obtain ⟨label, behind, rfl, hat⟩ := exists_atLabel hname hfits
    have hround := hat.round
    by_cases hlabel : IsLabel label
    · rcases hat.behind with rfl | ⟨more, rfl⟩
      · rw [if_pos hlabel, if_pos rfl] at hround
        refine ⟨true, .done hround, by rw [validLabels, bind_apply, hround]; rfl, ?_⟩
        rw [List.append_nil, isSubdomain_of_no_dot hat.no_dot]
        exact iff_of_true rfl hlabel
      · rw [if_pos hlabel, if_neg (List.cons_ne_nil _ _)] at hround
        -- the next round starts behind the dot
        have hstart : (before ++ (label ++ ['.'])).length = before.length + label.length + 1 := by
          simp [Nat.add_assoc]
        have hmore : more.length < rounds := by
          rw [List.length_append, List.length_cons] at hrounds
          omega
        obtain ⟨valid, hends, hrun, hvalid⟩ := ih (before ++ (label ++ ['.'])) more
          (by rw [hname]; simp) hmore
        rw [hstart] at hends hrun
        refine ⟨valid, .again hround hends, by rw [validLabels, bind_apply, hround]; exact hrun, ?_⟩
        rw [hvalid, isSubdomain_dot hat.no_dot]
        exact ⟨fun h => ⟨hlabel, h⟩, And.right⟩
    · rw [if_neg hlabel] at hround
      refine ⟨false, .done hround, by rw [validLabels, bind_apply, hround]; rfl, ?_⟩
      refine iff_of_false (by decide) fun h => hlabel ?_
      rcases hat.behind with rfl | ⟨more, rfl⟩
      · rw [List.append_nil] at h
        exact (isSubdomain_of_no_dot hat.no_dot).mp h
      · exact ((isSubdomain_dot hat.no_dot).mp h).1

/-- **Names are parsed by the grammar.** For every string that is not empty `is_valid_name` returns, without reading a
position outside the string, and accepts just the names of the grammar whose length is within the limits; the
loop that it starts would end without the bound on its rounds as well. -/
theorem isValidName_iff (name : List Char) (hname : name ≠ []) :
    ∃ valid, isValidName name () = .ok valid () ∧
      (valid = true ↔ minAccountNameLength ≤ name.length ∧ name.length ≤ maxAccountNameLength ∧ IsSubdomain name) ∧
      (name.length ≤ maxAccountNameLength → Ends (labelRound name) 0 () (.ok valid ())) := by
  have hlength : 1 ≤ name.length := List.length_pos_iff.mpr hname
  have hmin : ¬ name.length < minAccountNameLength := Nat.not_lt.mpr hlength
  have hassert : (assert NameFault.assertion (1 ≤ name.length) : EStateM NameFault Unit Unit) () = .ok () () := by
    rw [assert, if_pos hlength]
    rfl
  by_cases hmax : maxAccountNameLength < name.length
  · refine ⟨false, ?_, iff_of_false (by decide) fun h => Nat.not_le.mpr hmax h.2.1, fun h => absurd h (Nat.not_le.mpr hmax)⟩
    rw [isValidName, bind_apply, hassert]
    simp only [hmin, hmax, if_true, if_false]
    rfl
  · have hfits : name.length < 2 ^ 64 := by
      unfold maxAccountNameLength at hmax
      omega
    obtain ⟨valid, hends, hrun, hvalid⟩ := validLabels_spec hfits (name.length + 1) [] name rfl (Nat.lt_succ_self _)
    refine ⟨valid, ?_, ?_, fun _ => hends⟩
    · rw [isValidName, bind_apply, hassert]
      simp only [hmin, hmax, if_false]
      exact hrun
    · rw [hvalid]
      exact ⟨fun h => ⟨hlength, Nat.not_lt.mp hmax, h⟩, fun h => h.2.2⟩

/-- A name of two labels, the first with a single letter. -/
theorem isValidName_iff_twoLabels :
    ∃ valid, isValidName ['a', '.', 'b', '-', '0'] () = .ok valid () ∧
      (valid = true ↔ minAccountNameLength ≤ 5 ∧ 5 ≤ maxAccountNameLength ∧ IsSubdomain ['a', '.', 'b', '-', '0']) ∧
      (5 ≤ maxAccountNameLength → Ends (labelRound ['a', '.', 'b', '-', '0']) 0 () (.ok valid ())) :=
  isValidName_iff ['a', '.', 'b', '-', '0'] (List.cons_ne_nil _ _)

example : (isValidName ['a', '.', 'b', '-', '0']).run' () = some true := by decide

example : (isValidName ['a', '.', '.', 'b']).run' () = some false := by decide

end FinChain.Protocol
