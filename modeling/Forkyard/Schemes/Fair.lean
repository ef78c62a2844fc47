import Forkyard.Schemes.Steps

/-! Schedules without end. Each actor of a machine takes its turn again and again, at times of the
    scheduler's choosing, and a measure of the work left never grows. If as long as work is left
    some actor's next turn lowers the measure, whatever others do meanwhile, the work gets done. -/

namespace Schemes

variable {S Ev A : Type}

/-- The state after the first `n` events of a schedule. -/
def after (step : S → Ev → S) (s : S) (schedule : ℕ → Ev) : ℕ → S
  | 0 => s
  | n + 1 => step (after step s schedule n) (schedule n)

/-- Each of these actors gets its turn again and again. -/
def Fair (turn : A → Ev → Prop) (actors : A → Prop) (schedule : ℕ → Ev) : Prop :=
  ∀ a, actors a → ∀ n, ∃ m, n ≤ m ∧ turn a (schedule m)

/-- INVARIANT RULE: what every step keeps, a schedule keeps. -/
theorem after_inv {step : S → Ev → S} {P : S → Prop} (hstep : ∀ s e, P s → P (step s e)) {s : S}
    (hs : P s) (schedule : ℕ → Ev) (n : ℕ) : P (after step s schedule n) := by
  induction n with
  | zero => exact hs
  | succ n ih => exact hstep _ _ ih

/-- A helper helps until its turn, or until someone else has lowered the measure. -/
theorem helps_until {step : S → Ev → S} {P : S → Prop} (hstep : ∀ s e, P s → P (step s e))
    {μ : S → ℕ} (hμ : ∀ s e, P s → μ (step s e) ≤ μ s) {Helps : S → Prop}
    (hkeep : ∀ s e, P s → Helps s → μ (step s e) = μ s → Helps (step s e)) {s : S} (hs : P s)
    (schedule : ℕ → Ev) {n : ℕ} (hhelps : Helps (after step s schedule n)) (d : ℕ) :
    (∃ m, n ≤ m ∧ μ (after step s schedule m) < μ (after step s schedule n)) ∨
      (Helps (after step s schedule (n + d)) ∧
        μ (after step s schedule (n + d)) = μ (after step s schedule n)) := by
  induction d with
  | zero => exact .inr ⟨hhelps, rfl⟩
  | succ d ih =>
    rcases ih with hlow | ⟨hstill, hsame⟩
    · exact .inl hlow
    have hinv := after_inv hstep hs schedule (n + d)
    rcases Nat.lt_or_eq_of_le (hμ _ (schedule (n + d)) hinv) with hlt | heq
    · exact .inl ⟨n + d + 1, by omega, by rw [← hsame]; exact hlt⟩
    · exact .inr ⟨hkeep _ _ hinv hstill heq, heq.trans hsame⟩

/-- LIVENESS RULE: in a fair schedule the work gets done. -/
theorem fair_done {step : S → Ev → S} {turn : A → Ev → Prop} {actors : A → Prop}
    {schedule : ℕ → Ev} (hfair : Fair turn actors schedule) {P : S → Prop}
    (hstep : ∀ s e, P s → P (step s e)) {μ : S → ℕ} (hμ : ∀ s e, P s → μ (step s e) ≤ μ s)
    {Done : S → Prop} {Helps : A → S → Prop}
    (hhelp : ∀ s, P s → ¬ Done s → ∃ a, actors a ∧ Helps a s)
    (hlower : ∀ s e a, P s → Helps a s → turn a e → μ (step s e) < μ s)
    (hkeep : ∀ s e a, P s → Helps a s → μ (step s e) = μ s → Helps a (step s e)) {s : S}
    (hs : P s) : ∃ n, Done (after step s schedule n) := by
  -- the measure goes down again and again, and cannot for ever
  suffices h : ∀ k n, μ (after step s schedule n) = k → ∃ m, Done (after step s schedule m) from
    h _ 0 rfl
  intro k
  induction k using Nat.strongRecOn with
  | ind k ih =>
    intro n hk
    by_cases hdone : Done (after step s schedule n)
    · exact ⟨n, hdone⟩
    obtain ⟨a, ha, hhelps⟩ := hhelp _ (after_inv hstep hs schedule n) hdone
    obtain ⟨m, hnm, hturn⟩ := hfair a ha n
    obtain ⟨d, rfl⟩ := Nat.exists_eq_add_of_le hnm
    rcases helps_until hstep hμ (fun s e => hkeep s e a) hs schedule hhelps d with
      ⟨m', -, hlow⟩ | ⟨hstill, hsame⟩
    · exact ih _ (by omega) m' rfl
    · have hlow := hlower _ _ a (after_inv hstep hs schedule (n + d)) hstill hturn
      exact ih _ (by rw [← hk, ← hsame]; exact hlow) (n + d + 1) rfl

/-! ### Ranks

The work left need not be a number: where one step towards the end may leave more small ones to take,
it is ranked in any well-founded order. A helper is then someone whose turn lowers the rank, and who
helps until it is lower. -/

section Ranked

variable {R : Type} [Preorder R] [WellFoundedLT R]

omit [WellFoundedLT R] in
/-- The run goes on from moment `n` until it is done, lowers the rank or keeps it, with `a` helping
    all along. -/
theorem helps_on {state : ℕ → S} {rank : S → R} {Done : S → Prop} {Helps : A → S → Prop} {n : ℕ}
    (hrank : ∀ m, n ≤ m → ¬ Done (state m) → Done (state (m + 1)) ∨
      rank (state (m + 1)) < rank (state m) ∨ (rank (state (m + 1)) = rank (state m) ∧
        ∀ a, Helps a (state m) → Helps a (state (m + 1)))) {a : A} (hhelps : Helps a (state n))
    (hwork : ¬ Done (state n)) (d : ℕ) :
    (∃ m, n ≤ m ∧ Done (state m)) ∨ (∃ m, n ≤ m ∧ rank (state m) < rank (state n)) ∨
      (¬ Done (state (n + d)) ∧ rank (state (n + d)) = rank (state n) ∧ Helps a (state (n + d))) := by
  induction d with
  | zero => exact .inr (.inr ⟨hwork, rfl, hhelps⟩)
  | succ d ih =>
    rcases ih with hdone | hlow | ⟨hstill, hsame, hhelps⟩
    · exact .inl hdone
    · exact .inr (.inl hlow)
    rcases hrank (n + d) (Nat.le_add_right n d) hstill with hdone | hlow | ⟨heq, hkeep⟩
    · exact .inl ⟨n + d + 1, by omega, hdone⟩
    · exact .inr (.inl ⟨n + d + 1, by omega, hlow.trans_eq hsame⟩)
    · by_cases hdone : Done (state (n + d + 1))
      · exact .inl ⟨n + d + 1, by omega, hdone⟩
      · exact .inr (.inr ⟨hdone, heq.trans hsame, hkeep a hhelps⟩)

/-- LIVENESS RULE: where the rank never rises and somebody whose turn lowers it helps all along, the
    work gets done, provided nobody who helps for ever is kept from his turn for ever. -/
theorem ranked_done {state : ℕ → S} {rank : S → R} {Done : S → Prop} {Helps : A → S → Prop}
    {turn : A → ℕ → Prop}
    (hfair : ∀ a n, (∀ m, n ≤ m → Helps a (state m)) → ∃ m, n ≤ m ∧ turn a m)
    (hhelp : ∀ m, ¬ Done (state m) → ∃ a, Helps a (state m))
    (hrank : ∀ m, ¬ Done (state m) → Done (state (m + 1)) ∨
      rank (state (m + 1)) < rank (state m) ∨ (rank (state (m + 1)) = rank (state m) ∧
        ∀ a, Helps a (state m) → Helps a (state (m + 1))))
    (hlower : ∀ m a, ¬ Done (state m) → Helps a (state m) → turn a m →
      Done (state (m + 1)) ∨ rank (state (m + 1)) < rank (state m)) (n : ℕ) :
    ∃ m, n ≤ m ∧ Done (state m) := by
  suffices h : ∀ r n, rank (state n) = r → ∃ m, n ≤ m ∧ Done (state m) from h _ n rfl
  intro r
  induction r using WellFoundedLT.induction with
  | ind r ih =>
    intro n hr
    by_cases hdone : Done (state n)
    · exact ⟨n, le_rfl, hdone⟩
    by_contra hnever
    have hwork : ∀ m, n ≤ m → ¬ Done (state m) := fun m hm hdone => hnever ⟨m, hm, hdone⟩
    have hlevel : ∀ m, n ≤ m → ¬ rank (state m) < rank (state n) := by
      intro m hm hlow
      obtain ⟨k, hk, hdone⟩ := ih _ (hlow.trans_eq hr) m rfl
      exact hwork k (hm.trans hk) hdone
    obtain ⟨a, ha⟩ := hhelp n hdone
    have hstays : ∀ d, rank (state (n + d)) = rank (state n) ∧ Helps a (state (n + d)) := by
      intro d
      rcases helps_on (fun m _ => hrank m) ha hdone d with ⟨m, hm, h⟩ | ⟨m, hm, h⟩ | ⟨-, hsame, h⟩
      · exact absurd h (hwork m hm)
      · exact absurd h (hlevel m hm)
      · exact ⟨hsame, h⟩
    obtain ⟨m, hm, hturn⟩ := hfair a n fun m hm => by
      obtain ⟨d, rfl⟩ := Nat.exists_eq_add_of_le hm
      exact (hstays d).2
    obtain ⟨d, rfl⟩ := Nat.exists_eq_add_of_le hm
    rcases hlower (n + d) a (hwork _ hm) (hstays d).2 hturn with h | h
    · exact hwork (n + d + 1) (by omega) h
    · exact hlevel (n + d + 1) (by omega) (h.trans_eq (hstays d).1)

end Ranked

end Schemes
