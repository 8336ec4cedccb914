set_option autoImplicit false

/-! # Computations that may fail

What is known of a computation that has succeeded: its parts have. A batch succeeds if all of its
members do one after the other, and otherwise stops at the first that does not
(`exists_of_foldlM_eq_error`). It succeeds in any order if any two neighbours can change places
(`foldlM_perm`). -/

namespace IndexedStore

variable {ε α β : Type}

theorem exists_of_bind_eq_ok {r : Except ε α} {f : α → Except ε β} {b : β}
    (h : r >>= f = .ok b) : ∃ a, r = .ok a ∧ f a = .ok b := by
  cases r with
  | error e => cases h
  | ok a => exact ⟨a, rfl, h⟩

theorem of_mapError_ok {ε' : Type} {r : Except ε α} {f : ε → ε'} {a : α}
    (h : r.mapError f = .ok a) : r = .ok a := by
  cases r with
  | error e => cases h
  | ok b =>
    cases h
    rfl

/-- **A batch that fails** fails at the first member that does, after those before it. -/
theorem exists_of_foldlM_eq_error {f : β → α → Except ε β} {l : List α} {s : β} {e : ε}
    (hrun : l.foldlM f s = .error e) :
    ∃ before a after s', l = before ++ a :: after ∧ before.foldlM f s = .ok s' ∧
      f s' a = .error e := by
  induction l generalizing s with
  | nil => cases hrun
  | cons a rest ih =>
    rw [List.foldlM_cons] at hrun
    cases hfirst : f s a with
    | error e' =>
      rw [hfirst] at hrun
      cases hrun
      exact ⟨[], a, rest, s, rfl, rfl, hfirst⟩
    | ok s₁ =>
      rw [hfirst] at hrun
      obtain ⟨before, a', after, s', rfl, hbefore, hfails⟩ := ih hrun
      refine ⟨a :: before, a', after, s', rfl, ?_, hfails⟩
      rw [List.foldlM_cons, hfirst]
      exact hbefore

/-- **A batch that succeeds** does so in every order, with the same end, if any two neighbours can
change places. -/
theorem foldlM_perm {f : β → α → Except ε β} {I : β → Prop}
    (hkeeps : ∀ s a s', I s → f s a = .ok s' → I s')
    (hswap : ∀ s a a' s', I s → f s a >>= (f · a') = .ok s' → f s a' >>= (f · a) = .ok s')
    {l l' : List α} (hperm : l.Perm l') {s s' : β} (hI : I s) (hrun : l.foldlM f s = .ok s') :
    l'.foldlM f s = .ok s' := by
  induction hperm generalizing s with
  | nil => exact hrun
  | cons a _ ih =>
    rw [List.foldlM_cons] at hrun ⊢
    obtain ⟨s₁, hfirst, hrest⟩ := exists_of_bind_eq_ok hrun
    rw [hfirst]
    exact ih (hkeeps s a s₁ hI hfirst) hrest
  | swap a a' l =>
    simp only [List.foldlM_cons, ← bind_assoc] at hrun ⊢
    obtain ⟨s₁, hpair, hrest⟩ := exists_of_bind_eq_ok hrun
    rw [hswap s a' a s₁ hI hpair]
    exact hrest
  | trans _ _ ih ih' => exact ih' hI (ih hI hrun)

end IndexedStore
