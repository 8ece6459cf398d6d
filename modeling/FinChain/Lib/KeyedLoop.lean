import Mathlib.Data.List.AList

/-!
# Loops over the entries of a finite map

A `for` loop over an unordered map visits its entries in an order the program does not
choose. When the body acts on one key at a time (what it does to the part of the state that
belongs to a key depends only on that part, and the parts of the other keys are left alone),
the order is irrelevant and the result can be read off key by key:

* `foldl_keyed`: the loop whose body cannot fail;
* `foldlM_keyed`: the loop whose body may fail, when every entry finds its own part in a
  state that makes the body succeed;
* `foldlM_keyed_inv`: the converse, a loop that did succeed found every entry in such a state.

The part of a state `s` that belongs to the key `k` is given by a projection `π k s`.
-/

namespace KeyedLoop

variable {K V S T ε : Type} [DecidableEq K]

/-- The entry a list of entries holds under a key is absent from the tail of a list without
duplicate keys whose head carries that key. -/
theorem dlookup_tail_of_head {k : K} {v : V} {l : List (Sigma fun _ : K => V)}
    (h : (⟨k, v⟩ :: l : List (Sigma fun _ : K => V)).NodupKeys) :
    l.dlookup k = none := by
  rw [List.dlookup_eq_none]
  exact (List.nodupKeys_cons.mp h).1

/-- **A loop that cannot fail, read key by key.** -/
theorem foldl_keyed (π : K → S → T) (step : S → (Sigma fun _ : K => V) → S) (g : K → V → T → T)
    (hown : ∀ s k v, π k (step s ⟨k, v⟩) = g k v (π k s))
    (hother : ∀ s k v k', k' ≠ k → π k' (step s ⟨k, v⟩) = π k' s)
    (m : AList fun _ : K => V) (s : S) (k : K) :
    π k (m.entries.foldl step s) = (m.lookup k).elim (π k s) fun v => g k v (π k s) := by
  obtain ⟨l, hl⟩ := m
  change π k (l.foldl step s) = (l.dlookup k).elim (π k s) fun v => g k v (π k s)
  induction l generalizing s with
  | nil => rfl
  | cons e l ih =>
    obtain ⟨k₀, v₀⟩ := e
    have htail := (List.nodupKeys_cons.mp hl).2
    rw [List.foldl_cons, ih _ htail]
    by_cases hk : k₀ = k
    · subst hk
      rw [dlookup_tail_of_head hl, List.dlookup_cons_eq]
      exact hown s k₀ v₀
    · rw [List.dlookup_cons_ne l ⟨k₀, v₀⟩ (fun h => hk h.symm), hother s k₀ v₀ k (fun h => hk h.symm)]

/-- A quantity that the body of a loop never changes is unchanged by the loop. -/
theorem foldl_frame {A : Type} (π : S → T) (step : S → A → S)
    (hframe : ∀ s a, π (step s a) = π s) (l : List A) (s : S) :
    π (l.foldl step s) = π s := by
  induction l generalizing s with
  | nil => rfl
  | cons a l ih => rw [List.foldl_cons, ih, hframe]

section Fallible

variable (π : K → S → T) (step : S → (Sigma fun _ : K => V) → Except ε S)
  (ok : K → V → T → Prop) (g : K → V → T → T)

/-- **A loop that may fail, read key by key.** Every entry whose own part satisfies `ok` when
the loop starts still does when its turn comes, because the other entries leave it alone. -/
theorem foldlM_keyed
    (hstep : ∀ s k v, ok k v (π k s) → ∃ s', step s ⟨k, v⟩ = .ok s' ∧
      π k s' = g k v (π k s) ∧ ∀ k', k' ≠ k → π k' s' = π k' s)
    (m : AList fun _ : K => V) (s : S)
    (hok : ∀ k v, m.lookup k = some v → ok k v (π k s)) :
    ∃ s', m.entries.foldlM step s = .ok s' ∧
      ∀ k, π k s' = (m.lookup k).elim (π k s) fun v => g k v (π k s) := by
  obtain ⟨l, hl⟩ := m
  replace hok : ∀ k v, l.dlookup k = some v → ok k v (π k s) := hok
  change ∃ s', l.foldlM step s = .ok s' ∧
      ∀ k, π k s' = (l.dlookup k).elim (π k s) fun v => g k v (π k s)
  induction l generalizing s with
  | nil => exact ⟨s, rfl, fun _ => rfl⟩
  | cons e l ih =>
    obtain ⟨k₀, v₀⟩ := e
    have htail := (List.nodupKeys_cons.mp hl).2
    have hnone := dlookup_tail_of_head hl
    obtain ⟨s₁, hs₁, hown, hother⟩ := hstep s k₀ v₀ (hok k₀ v₀ (List.dlookup_cons_eq l k₀ v₀))
    -- the remaining entries carry other keys, so their parts are those of `s`
    have hok₁ : ∀ k v, l.dlookup k = some v → ok k v (π k s₁) := by
      intro k v hk
      have hne : k ≠ k₀ := by
        rintro rfl
        rw [hnone] at hk
        exact absurd hk (by simp)
      rw [hother k hne]
      exact hok k v (by rw [List.dlookup_cons_ne l ⟨k₀, v₀⟩ hne]; exact hk)
    obtain ⟨s', hs', hkeys⟩ := ih s₁ htail hok₁
    refine ⟨s', ?_, fun k => ?_⟩
    · rw [List.foldlM_cons, hs₁]
      exact hs'
    · rw [hkeys k]
      by_cases hk : k = k₀
      · subst hk
        rw [hnone, List.dlookup_cons_eq]
        exact hown
      · rw [List.dlookup_cons_ne l ⟨k₀, v₀⟩ hk, hother k hk]

/-- **A loop that did not fail found every entry in a good state.** -/
theorem foldlM_keyed_inv
    (hstep : ∀ s s' k v, step s ⟨k, v⟩ = .ok s' → ok k v (π k s) ∧ ∀ k', k' ≠ k → π k' s' = π k' s)
    (m : AList fun _ : K => V) {s s' : S} (hrun : m.entries.foldlM step s = .ok s')
    {k : K} {v : V} (hk : m.lookup k = some v) : ok k v (π k s) := by
  obtain ⟨l, hl⟩ := m
  replace hk : l.dlookup k = some v := hk
  replace hrun : l.foldlM step s = .ok s' := hrun
  induction l generalizing s with
  | nil => exact absurd hk (by simp)
  | cons e l ih =>
    obtain ⟨k₀, v₀⟩ := e
    rw [List.foldlM_cons] at hrun
    cases hs₁ : step s ⟨k₀, v₀⟩ with
    | error err =>
      rw [hs₁] at hrun
      exact absurd hrun (by intro h; cases h)
    | ok s₁ =>
      rw [hs₁] at hrun
      obtain ⟨hok, hother⟩ := hstep s s₁ k₀ v₀ hs₁
      by_cases hkk : k = k₀
      · subst hkk
        rw [List.dlookup_cons_eq] at hk
        obtain rfl := Option.some.inj hk
        exact hok
      · rw [List.dlookup_cons_ne l ⟨k₀, v₀⟩ hkk] at hk
        rw [← hother k hkk]
        exact ih (List.nodupKeys_cons.mp hl).2 hk hrun

/-- A quantity that no successful pass through the body changes is unchanged by the loop. -/
theorem foldlM_frame {A R : Type} (ρ : S → R) (body : S → A → Except ε S)
    (hframe : ∀ s s' a, body s a = .ok s' → ρ s' = ρ s) (l : List A) {s s' : S}
    (hrun : l.foldlM body s = .ok s') : ρ s' = ρ s := by
  induction l generalizing s with
  | nil =>
    obtain rfl : s = s' := Except.ok.inj hrun
    rfl
  | cons a l ih =>
    rw [List.foldlM_cons] at hrun
    cases hs₁ : body s a with
    | error err =>
      rw [hs₁] at hrun
      exact absurd hrun (by intro h; cases h)
    | ok s₁ =>
      rw [hs₁] at hrun
      rw [ih hrun, hframe s s₁ a hs₁]

end Fallible

end KeyedLoop
