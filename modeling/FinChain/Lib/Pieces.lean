import FinChain.Lib.Exec

/-!
# Reading and writing in pieces

A stream gives away some of the items that it is asked for, and takes some of those that it is given. To read
a number of items, or to write a list of them, is to go on until all is done (`ReadAll`, `WriteAll`). How the stream is cut
into pieces does not matter then: what is read is what the stream has (`Supplies.read`), and what is written
arrives in one piece (`WriteAll.write_spec`).
-/

namespace Exec

variable {ε σ α : Type}

/-- Read all, with a program that reads some. -/
structure ReadAll (ε σ α : Type) where
  read : (ℕ → EStateM ε σ (List α)) → ℕ → EStateM ε σ (List α)
  read_zero : ∀ readsome, read readsome 0 = pure []
  read_more : ∀ {readsome : ℕ → EStateM ε σ (List α)} {n s xs s'}, 0 < n → readsome n s = .ok xs s' →
    xs ≠ [] → xs.length ≤ n →
      read readsome n s = (read readsome (n - xs.length) >>= fun ys => pure (xs ++ ys)) s'
  read_error : ∀ {readsome : ℕ → EStateM ε σ (List α)} {n s e s'}, 0 < n → readsome n s = .error e s' →
    read readsome n s = .error e s'

/-- Write all, with a program that writes some and returns how many. -/
structure WriteAll (ε σ α : Type) where
  write : (List α → EStateM ε σ ℕ) → List α → EStateM ε σ Unit
  write_nil : ∀ writesome, write writesome [] = pure ()
  write_more : ∀ {writesome : List α → EStateM ε σ ℕ} {xs s k s'}, writesome xs s = .ok k s' → 0 < k →
    k ≤ xs.length → write writesome xs s = write writesome (xs.drop k) s'

/-! ### Loops over the pieces -/

/-- A loop that reads, and gives up when it gets nothing. -/
def readLoop (readsome : ℕ → EStateM ε σ (List α)) (n : ℕ) : EStateM ε σ (List α) :=
  if n = 0 then pure []
  else do
    let xs ← readsome n
    if _h : xs.length = 0 ∨ n < xs.length then pure xs
    else do
      let ys ← readLoop readsome (n - xs.length)
      pure (xs ++ ys)
termination_by n

/-- A loop that writes, and gives up when nothing is taken. -/
def writeLoop (writesome : List α → EStateM ε σ ℕ) (xs : List α) : EStateM ε σ Unit :=
  if xs = [] then pure ()
  else do
    let k ← writesome xs
    if _h : k = 0 ∨ xs.length < k then pure ()
    else writeLoop writesome (xs.drop k)
termination_by xs.length
decreasing_by
  rw [List.length_drop]
  omega

def ReadAll.loop : ReadAll ε σ α where
  read := readLoop
  read_zero readsome := by
    unfold readLoop
    exact if_pos rfl
  read_more {readsome n s xs s'} hn hread hne hle := by
    have hpiece : ¬ (xs.length = 0 ∨ n < xs.length) := by
      rw [List.length_eq_zero_iff]
      exact not_or.mpr ⟨hne, Nat.not_lt.mpr hle⟩
    conv_lhs => unfold readLoop
    rw [if_neg (Nat.pos_iff_ne_zero.mp hn), bind_apply, hread]
    exact congrFun (dif_neg hpiece) s'
  read_error {readsome n s e s'} hn hread := by
    unfold readLoop
    rw [if_neg (Nat.pos_iff_ne_zero.mp hn), bind_apply, hread]

def WriteAll.loop : WriteAll ε σ α where
  write := writeLoop
  write_nil writesome := by
    unfold writeLoop
    exact if_pos rfl
  write_more {writesome xs s k s'} hwrite hk hle := by
    have hne : xs ≠ [] := by
      rintro rfl
      exact Nat.not_lt.mpr hle hk
    have hpiece : ¬ (k = 0 ∨ xs.length < k) := not_or.mpr ⟨Nat.pos_iff_ne_zero.mp hk, Nat.not_lt.mpr hle⟩
    conv_lhs => unfold writeLoop
    rw [if_neg hne, bind_apply, hwrite]
    exact congrFun (dif_neg hpiece) s'

/-! ### What is read -/

/-- **A stream** of items `rest`, which come in pieces that are multiples of `d`. When it is asked for more than
it has, it may also come to its end. -/
structure Supplies (readsome : ℕ → EStateM ε σ (List α)) (d : ℕ) (eof : ε) (rest : σ → List α) (AtEnd : σ → Prop)
    (R : σ → σ → Prop) : Prop where
  next : ∀ {n} s, 0 < n → d ∣ n →
    (∃ xs s', readsome n s = .ok xs s' ∧ xs ≠ [] ∧ xs.length ≤ n ∧ d ∣ xs.length ∧ rest s = xs ++ rest s' ∧
      R s s') ∨
    ∃ s', readsome n s = .error eof s' ∧ (rest s).length < n ∧ AtEnd s' ∧ R s s'
  refl : ∀ s, R s s
  trans : ∀ {s₁ s₂ s₃}, R s₁ s₂ → R s₂ s₃ → R s₁ s₃

section Supplies

variable {readsome : ℕ → EStateM ε σ (List α)} {d n : ℕ} {eof : ε} {rest : σ → List α} {AtEnd : σ → Prop}
  {R : σ → σ → Prop} {s : σ}

/-- **Reading all**, whatever the pieces are. -/
theorem Supplies.read (h : Supplies readsome d eof rest AtEnd R) (I : ReadAll ε σ α) (hn : d ∣ n) :
    (n ≤ (rest s).length ∧ ∃ s', I.read readsome n s = .ok ((rest s).take n) s' ∧ rest s' = (rest s).drop n ∧
      R s s') ∨
    ((rest s).length < n ∧ ∃ s', I.read readsome n s = .error eof s' ∧ AtEnd s' ∧ R s s') := by
  -- the rest of the items to read decreases with every piece
  induction n using Nat.strongRecOn generalizing s with
  | ind n ih =>
    rcases Nat.eq_zero_or_pos n with rfl | hpos
    · refine .inl ⟨Nat.zero_le _, s, ?_, List.drop_zero.symm, h.refl s⟩
      rw [I.read_zero, List.take_zero]
      rfl
    rcases h.next s hpos hn with ⟨xs, s₁, hread, hne, hle, hxs, hrest, hR⟩ | ⟨s', hread, hshort, hend, hR⟩
    · have hlen : 0 < xs.length := List.length_pos_iff.mpr hne
      have htotal : (rest s).length = xs.length + (rest s₁).length := by rw [hrest, List.length_append]
      have hmore := I.read_more hpos hread hne hle
      rw [bind_apply] at hmore
      rcases ih (n - xs.length) (by omega) (s := s₁) ((Nat.dvd_sub hn hxs)) with
        ⟨henough, s', hread', hrest', hR'⟩ | ⟨hshort, s', hread', hend, hR'⟩
      · refine .inl ⟨by omega, s', ?_, ?_, h.trans hR hR'⟩
        · rw [hmore, hread', hrest, List.take_append, List.take_of_length_le hle]
          rfl
        · rw [hrest', hrest, List.drop_append, List.drop_eq_nil_of_le hle, List.nil_append]
      · refine .inr ⟨by omega, s', ?_, hend, h.trans hR hR'⟩
        rw [hmore, hread']
    · exact .inr ⟨hshort, s', I.read_error hpos hread, hend, hR⟩

end Supplies

/-! ### What is written -/

/-- **Writing all**, whatever the pieces are: what `P` says of the items so far is kept. -/
theorem WriteAll.write_spec (O : WriteAll ε σ α) {writesome : List α → EStateM ε σ ℕ} {d : ℕ}
    {P : List α → σ → Prop} (hnext : ∀ {done xs s}, P done s → xs ≠ [] → d ∣ xs.length →
      ∃ k s', writesome xs s = .ok k s' ∧ 0 < k ∧ k ≤ xs.length ∧ d ∣ k ∧ P (done ++ xs.take k) s')
    {done xs : List α} {s : σ} (hs : P done s) (hxs : d ∣ xs.length) :
    ∃ s', O.write writesome xs s = .ok () s' ∧ P (done ++ xs) s' := by
  -- the list that is left decreases with every piece
  induction hlen : xs.length using Nat.strongRecOn generalizing done xs s with
  | ind n ih =>
    subst hlen
    by_cases hne : xs = []
    · subst hne
      refine ⟨s, ?_, by rwa [List.append_nil]⟩
      rw [O.write_nil]
      rfl
    · obtain ⟨k, s₁, hwrite, hk, hle, hdvd, hP⟩ := hnext hs hne hxs
      have hrest : d ∣ (xs.drop k).length := by
        rw [List.length_drop]
        exact Nat.dvd_sub hxs hdvd
      obtain ⟨s', hwrite', hP'⟩ := ih (xs.drop k).length (by rw [List.length_drop]; omega) hP hrest rfl
      rw [List.append_assoc, List.take_append_drop] at hP'
      exact ⟨s', (O.write_more hwrite hk hle).trans hwrite', hP'⟩

end Exec
