import Mathlib.Tactic

/-! Programs that run on gas. Each step is charged out of what is left, some earn a refund that is
    granted at the end, a program may look at what it has left and go on by that, and it may call
    another, which it lends all of its gas but a 64th at most and which may fail without failing its
    caller. Where a program is run is by how much gas: the same program on less may go the same way,
    another one, or not get to its end.

        charge ──▶ charge ──▶ call ──▶ charge ──▶ stop      spent = limit − left
                     │          └─▶ body on what it is lent     used = spent − refund granted
                     └──not covered──▶ everything lost -/

namespace Schemes

/-- A program by its gas. A charge needs `floor` to be left and takes `cost`; a call is charged
    `cost`, lends at most `request`, and adds a stipend that its charge has paid for. -/
inductive Metered where
  | stop
  | revert
  | halt
  | charge (floor cost : ℕ) (k : Metered)
  | refund (amount : ℤ) (k : Metered)
  | look (k : ℕ → Metered)
  | call (cost request stipend : ℕ) (paid : stipend ≤ cost) (body : Metered) (k : Bool → Metered)

namespace Metered

/-- How a run ended: whether well, with how much gas left, and the refunds it has earned. -/
structure End where
  ok : Bool
  left : ℕ
  counter : ℤ
  deriving DecidableEq

/-- What is not covered costs everything. -/
def End.lost : End := ⟨false, 0, 0⟩

/-- A refund counts only where the run ends well. -/
def End.credit (e : End) (amount : ℤ) : End :=
  { e with counter := if e.ok then e.counter + amount else 0 }

/-- What a call lends out of what is left: what it asks for, but never the last 64th. -/
def lent (request left : ℕ) : ℕ := min request (left - left / 64)

def run : Metered → ℕ → End
  | .stop, l => ⟨true, l, 0⟩
  | .revert, l => ⟨false, l, 0⟩
  | .halt, _ => .lost
  | .charge floor cost k, l => if max floor cost ≤ l then k.run (l - cost) else .lost
  | .refund amount k, l => (k.run l).credit amount
  | .look k, l => (k l).run l
  | .call cost request stipend _ body k, l =>
    if cost ≤ l then
      let given := lent request (l - cost)
      let e := body.run (given + stipend)
      ((k e.ok).run (l - cost - given + e.left)).credit e.counter
    else .lost

/-- What a call's body comes to, run out of what is left at the call, -/
def called (body : Metered) (request stipend left : ℕ) : End :=
  body.run (lent request left + stipend)

/-- and what the caller has left after it. -/
def resumed (body : Metered) (request stipend left : ℕ) : ℕ :=
  left - lent request left + (body.called request stipend left).left

/-- With this much gas the program ends well, -/
def Succeeds (p : Metered) (limit : ℕ) : Prop := (p.run limit).ok = true

instance (p : Metered) (limit : ℕ) : Decidable (p.Succeeds limit) :=
  inferInstanceAs (Decidable (_ = _))

/-- having spent this, -/
def spent (p : Metered) (limit : ℕ) : ℕ := limit - (p.run limit).left

/-- of which this is granted back: what it has earned, up to a fifth, -/
def granted (p : Metered) (limit : ℕ) : ℕ := min (p.run limit).counter.toNat (p.spent limit / 5)

/-- and this is reported. -/
def used (p : Metered) (limit : ℕ) : ℕ := p.spent limit - p.granted limit

/-! ### Running -/

section Running

variable {floor cost request stipend l : ℕ} {amount : ℤ} {paid : stipend ≤ cost}
  {body k : Metered} {look : ℕ → Metered} {next : Bool → Metered}

@[simp] theorem credit_left (e : End) : (e.credit amount).left = e.left := rfl

theorem run_charge (h : max floor cost ≤ l) : (charge floor cost k).run l = k.run (l - cost) :=
  if_pos h

theorem run_call (h : cost ≤ l) : (call cost request stipend paid body next).run l
    = ((next (body.called request stipend (l - cost)).ok).run
        (body.resumed request stipend (l - cost))).credit
          (body.called request stipend (l - cost)).counter :=
  if_pos h

theorem succeeds_charge : (charge floor cost k).Succeeds l ↔
    max floor cost ≤ l ∧ k.Succeeds (l - cost) := by
  by_cases h : max floor cost ≤ l
  · rw [Succeeds, run_charge h]
    exact (and_iff_right h).symm
  · rw [Succeeds, run, if_neg h]
    exact ⟨nofun, fun hk => absurd hk.1 h⟩

theorem succeeds_call : (call cost request stipend paid body next).Succeeds l ↔
    cost ≤ l ∧ (next (body.called request stipend (l - cost)).ok).Succeeds
      (body.resumed request stipend (l - cost)) := by
  by_cases h : cost ≤ l
  · rw [Succeeds, run_call h]
    exact (and_iff_right h).symm
  · rw [Succeeds, run, if_neg h]
    exact ⟨nofun, fun hk => absurd hk.1 h⟩

theorem lent_le (request left : ℕ) : lent request left ≤ left :=
  (min_le_right _ _).trans (Nat.sub_le _ _)

end Running

/-- No run ends with more than it began with. -/
theorem run_left_le (p : Metered) (l : ℕ) : (p.run l).left ≤ l := by
  induction p generalizing l with
  | stop => exact le_refl _
  | revert => exact le_refl _
  | halt => exact Nat.zero_le _
  | charge floor cost k ih =>
    rw [run]
    split
    · exact (ih _).trans (Nat.sub_le _ _)
    · exact Nat.zero_le _
  | refund amount k ih => exact ih l
  | look k ih => exact ih l l
  | call cost request stipend paid body k ihbody ih =>
    by_cases hl : cost ≤ l
    · have hbody := ihbody (lent request (l - cost) + stipend)
      have hlent := lent_le request (l - cost)
      rw [run_call hl, credit_left]
      refine (ih _ _).trans ?_
      simp only [resumed, called]
      omega
    · rw [run, if_neg hl]
      exact Nat.zero_le _

theorem spent_add_left (p : Metered) (limit : ℕ) : p.spent limit + (p.run limit).left = limit :=
  Nat.sub_add_cancel (run_left_le p limit)

/-! ### The same way on less -/

/-- A run on `g` and one on `g'` came to one end at one cost. -/
def End.Alike (g g' : ℕ) (e e' : End) : Prop :=
  e.ok = e'.ok ∧ e.counter = e'.counter ∧ e.left + g' = e'.left + g

theorem alike_credit {g g' : ℕ} {e e' : End} (h : End.Alike g g' e e') (amount : ℤ) :
    End.Alike g g' (e.credit amount) (e'.credit amount) := by
  obtain ⟨hok, hcounter, hleft⟩ := h
  exact ⟨hok, by simp only [End.credit, hok, hcounter], hleft⟩

/-- A call comes to one end at one cost, made with `m` left or with `m'`. -/
def AlikeCalled (body : Metered) (request stipend m m' : ℕ) : Prop :=
  End.Alike (lent request m) (lent request m') (body.called request stipend m)
    (body.called request stipend m')

/-- Run on `l'` the program goes the way it goes on `l`: what is covered by the one is covered by
    the other, where it looks it goes on alike, and every call comes to one end at one cost. -/
def SameWay : Metered → ℕ → ℕ → Prop
  | .stop, _, _ => True
  | .revert, _, _ => True
  | .halt, _, _ => True
  | .charge floor cost k, l, l' => (max floor cost ≤ l ↔ max floor cost ≤ l') ∧
    SameWay k (l - cost) (l' - cost)
  | .refund _ k, l, l' => SameWay k l l'
  | .look k, l, l' => k l = k l' ∧ SameWay (k l) l l'
  | .call cost request stipend _ body k, l, l' => (cost ≤ l ↔ cost ≤ l') ∧
    body.AlikeCalled request stipend (l - cost) (l' - cost) ∧
    SameWay (k (body.called request stipend (l - cost)).ok)
      (body.resumed request stipend (l - cost)) (body.resumed request stipend (l' - cost))

/-- A run that ends well comes, on the same way, to the same end at the same cost. -/
theorem sameWay_run {p : Metered} {l l' : ℕ} (h : p.SameWay l l') (hok : p.Succeeds l) :
    End.Alike l l' (p.run l) (p.run l') := by
  induction p generalizing l l' with
  | stop => exact ⟨rfl, rfl, Nat.add_comm l l'⟩
  | revert => cases hok
  | halt => cases hok
  | charge floor cost k ih =>
    obtain ⟨hl, hok⟩ := succeeds_charge.mp hok
    have hl' := h.1.mp hl
    obtain ⟨hends, hcounter, hleft⟩ := ih h.2 hok
    rw [run_charge hl, run_charge hl']
    exact ⟨hends, hcounter, by omega⟩
  | refund amount k ih => exact alike_credit (ih h hok) amount
  | look k ih =>
    have hrest := ih l h.2 hok
    rw [run, run, ← h.1]
    exact hrest
  | call cost request stipend paid body k _ ih =>
    obtain ⟨hl, hok⟩ := succeeds_call.mp hok
    obtain ⟨hcovered, ⟨hends, hcounter, hcost⟩, hway⟩ := h
    have hl' := hcovered.mp hl
    obtain ⟨hends', hcounter', hcost'⟩ := ih _ hway hok
    have hlent := lent_le request (l - cost)
    have hlent' := lent_le request (l' - cost)
    rw [run_call hl, run_call hl', ← hends, ← hcounter]
    refine alike_credit ⟨hends', hcounter', ?_⟩ _
    simp only [resumed] at hcost' ⊢
    omega

/-! ### Another way -/

/-- Run on `l'` the program goes another way than on `l`, from where it looks at what is left or
    where a call comes to another end or another cost, and that way ends well. -/
def Detours : Metered → ℕ → ℕ → Prop
  | .stop, _, _ => False
  | .revert, _, _ => False
  | .halt, _, _ => False
  | .charge floor cost k, l, l' => max floor cost ≤ l' ∧ Detours k (l - cost) (l' - cost)
  | .refund _ k, l, l' => Detours k l l'
  | .look k, l, l' => k l = k l' ∧ Detours (k l) l l' ∨ k l ≠ k l' ∧ (k l').Succeeds l'
  | .call cost request stipend _ body k, l, l' => cost ≤ l' ∧
    (body.AlikeCalled request stipend (l - cost) (l' - cost) ∧
        Detours (k (body.called request stipend (l - cost)).ok)
          (body.resumed request stipend (l - cost)) (body.resumed request stipend (l' - cost)) ∨
      ¬ body.AlikeCalled request stipend (l - cost) (l' - cost) ∧
        (k (body.called request stipend (l' - cost)).ok).Succeeds
          (body.resumed request stipend (l' - cost)))

/-- What ends well on `l` ends well on `l'` iff it goes the same way there, or another that ends
    well. -/
theorem succeeds_iff {p : Metered} {l : ℕ} (l' : ℕ) (hok : p.Succeeds l) :
    p.Succeeds l' ↔ p.SameWay l l' ∨ p.Detours l l' := by
  induction p generalizing l l' with
  | stop => exact ⟨fun _ => .inl trivial, fun _ => rfl⟩
  | revert => cases hok
  | halt => cases hok
  | charge floor cost k ih =>
    obtain ⟨hl, hok⟩ := succeeds_charge.mp hok
    have hiff := ih (l' - cost) hok
    rw [succeeds_charge, hiff, SameWay, Detours, and_or_left]
    simp only [hl, true_iff]
  | refund amount k ih => exact ih l' hok
  | look k ih =>
    have hiff := ih l l' hok
    by_cases hk : k l = k l'
    · simp only [SameWay, Detours, hk, true_and, ne_eq, not_true_eq_false, false_and, or_false]
      rw [hk] at hiff
      exact hiff
    · simp only [SameWay, Detours, hk, false_and, ne_eq, not_false_eq_true, true_and, false_or]
      rfl
  | call cost request stipend paid body k _ ih =>
    obtain ⟨hl, hok⟩ := succeeds_call.mp hok
    have hiff := ih _ (body.resumed request stipend (l' - cost)) hok
    rw [succeeds_call, SameWay, Detours]
    simp only [hl, true_iff]
    by_cases hcalled : body.AlikeCalled request stipend (l - cost) (l' - cost)
    · simp only [hcalled, true_and, not_true_eq_false, false_and, or_false]
      rw [← hcalled.1, hiff, and_or_left]
    · simp only [hcalled, false_and, and_false, false_or, not_false_eq_true, true_and]

/-! ### Run again on what was reported -/

/-- No refund was granted, and given just what it spent the program goes the same way; or given what
    it reported it goes another way, which ends well. -/
def Enough (p : Metered) (limit : ℕ) : Prop :=
  p.granted limit = 0 ∧ p.SameWay limit (p.spent limit) ∨ p.Detours limit (p.used limit)

theorem granted_le (p : Metered) (limit : ℕ) : p.granted limit ≤ p.spent limit / 5 :=
  min_le_right _ _

/-- The same way on what was reported leaves no room for a refund. -/
theorem sameWay_used {p : Metered} {limit : ℕ} (h : p.Succeeds limit) :
    p.SameWay limit (p.used limit) ↔ p.granted limit = 0 ∧ p.SameWay limit (p.spent limit) := by
  have hgranted := p.granted_le limit
  have hspent := p.spent_add_left limit
  constructor
  · intro hway
    obtain ⟨-, -, hleft⟩ := sameWay_run hway h
    have hzero : p.granted limit = 0 := by
      rw [used] at hleft
      omega
    rw [used, hzero, Nat.sub_zero] at hway
    exact ⟨hzero, hway⟩
  · rintro ⟨hzero, hway⟩
    rwa [used, hzero, Nat.sub_zero]

/-- EXACT: what ends well ends well on what it reported iff that was enough. -/
theorem succeeds_used_iff {p : Metered} {limit : ℕ} (h : p.Succeeds limit) :
    p.Succeeds (p.used limit) ↔ p.Enough limit := by
  rw [succeeds_iff _ h, sameWay_used h, Enough]

/-! ### Programs of one way -/

/-- A program that never looks at what is left, and fails when a call fails. -/
def Steady : Metered → Prop
  | .stop => True
  | .revert => True
  | .halt => True
  | .charge _ _ k => Steady k
  | .refund _ k => Steady k
  | .look _ => False
  | .call _ _ _ _ body k => Steady body ∧ Steady (k true) ∧ ∀ l, ¬ (k false).Succeeds l

/-- The least that leaves so much when a 64th is held back. -/
def headroom (n : ℕ) : ℕ := n + (n - 1) / 63

theorem le_lent {m request left : ℕ} :
    m ≤ lent request left ↔ m ≤ request ∧ headroom m ≤ left := by
  rw [lent, headroom, le_min_iff]
  refine and_congr_right fun _ => ?_
  omega

/-- What a steady program spends on its way to the end, -/
def spend : Metered → ℕ
  | .charge _ cost k => cost + spend k
  | .refund _ k => spend k
  | .call cost _ stipend _ body k => cost - stipend + spend body + spend (k true)
  | _ => 0

/-- and the least that takes it there, where anything does. -/
def need : Metered → Option ℕ
  | .stop => some 0
  | .charge floor cost k => (need k).map fun n => max floor (cost + n)
  | .refund _ k => need k
  | .call cost request stipend _ body k =>
    (need body).bind fun m => (need (k true)).bind fun n =>
      if m - stipend ≤ request then
        some (cost + max (headroom (m - stipend)) (n + spend body - stipend))
      else none
  | _ => none

/-- Where no failing call is outlived, what a call comes to is up to its body and what follows. -/
theorem succeeds_call_steady {cost stipend : ℕ} (request : ℕ) (body : Metered)
    {next : Bool → Metered} (paid : stipend ≤ cost) (l : ℕ)
    (hfails : ∀ l, ¬ (next false).Succeeds l) :
    (call cost request stipend paid body next).Succeeds l ↔ cost ≤ l ∧
      body.Succeeds (lent request (l - cost) + stipend) ∧
        (next true).Succeeds (body.resumed request stipend (l - cost)) := by
  rw [succeeds_call]
  refine and_congr_right fun _ => ?_
  cases hok : (body.called request stipend (l - cost)).ok with
  | true => exact (and_iff_right hok).symm
  | false =>
    refine ⟨fun hlater => absurd hlater (hfails _), fun hlater => ?_⟩
    rw [Succeeds, ← called, hok] at hlater
    cases hlater.1

/-- A call's need is covered iff there is one for its body and one for what follows, and what these
    come to is. -/
theorem covers_call {cost request stipend l : ℕ} {paid : stipend ≤ cost} {body : Metered}
    {next : Bool → Metered} :
    (∃ x ∈ (call cost request stipend paid body next).need, x ≤ l) ↔
      ∃ m ∈ body.need, ∃ n ∈ (next true).need, m - stipend ≤ request ∧
        cost + max (headroom (m - stipend)) (n + body.spend - stipend) ≤ l := by
  rw [need]
  cases body.need with
  | none => simp
  | some m =>
    cases (next true).need with
    | none => simp
    | some n => simp [and_assoc]

/-- What a caller has left after a steady body is what that has not spent of the stipend and of what
    it had itself. -/
theorem resumed_add_spend {body : Metered} {request stipend left : ℕ}
    (h : (body.called request stipend left).left + body.spend = lent request left + stipend) :
    body.resumed request stipend left + body.spend = left + stipend := by
  have hlent := lent_le request left
  rw [resumed]
  omega

/-- The gas of a call whose body ends well: what it must be made with, -/
theorem call_covers {cost request stipend l m n body resumed : ℕ} (hl : cost ≤ l)
    (hresumed : resumed + body = l - cost + stipend) :
    m ≤ lent request (l - cost) + stipend ∧ n ≤ resumed ↔
      m - stipend ≤ request ∧ cost + max (headroom (m - stipend)) (n + body - stipend) ≤ l := by
  rw [← Nat.sub_le_iff_le_add, le_lent]
  omega

/-- and what it leaves. -/
theorem call_leaves {cost stipend l body resumed left rest : ℕ} (paid : stipend ≤ cost)
    (hl : cost ≤ l) (hresumed : resumed + body = l - cost + stipend)
    (hleft : left + rest = resumed) : left + (cost - stipend + body + rest) = l := by
  omega

/-- A steady program ends well on what it needs, and on no less. -/
theorem steady_run {p : Metered} (h : p.Steady) (l : ℕ) :
    (p.Succeeds l ↔ ∃ n ∈ p.need, n ≤ l) ∧ (p.Succeeds l → (p.run l).left + p.spend = l) := by
  induction p generalizing l with
  | stop => exact ⟨by simp [Succeeds, run, need], fun _ => rfl⟩
  | revert => exact ⟨by simp [Succeeds, run, need], fun hok => by cases hok⟩
  | halt => exact ⟨by simp [Succeeds, run, need, End.lost], fun hok => by cases hok⟩
  | charge floor cost k ih =>
    obtain ⟨hneed, hspend⟩ := ih h (l - cost)
    refine ⟨?_, fun hok => ?_⟩
    · rw [succeeds_charge, hneed, need]
      cases k.need with
      | none => simp
      | some n =>
        simp only [Option.mem_def, Option.some.injEq, exists_eq_left', Option.map_some]
        omega
    · obtain ⟨hl, hok⟩ := succeeds_charge.mp hok
      have hrest := hspend hok
      rw [run_charge hl, spend]
      omega
  | refund amount k ih => exact ih h l
  | look k => exact h.elim
  | call cost request stipend paid body k ihbody ih =>
    obtain ⟨hbody, hnext, hfails⟩ := h
    obtain ⟨hneed, hspend⟩ := ihbody hbody (lent request (l - cost) + stipend)
    obtain ⟨hneed', hspend'⟩ := ih true hnext (body.resumed request stipend (l - cost))
    have hcalled := succeeds_call_steady request body paid l hfails
    refine ⟨?_, fun hok => ?_⟩
    · rw [hcalled, hneed', covers_call]
      constructor
      · rintro ⟨hl, hok, n, hn, hle⟩
        obtain ⟨m, hm, hlem⟩ := hneed.mp hok
        exact ⟨m, hm, n, hn, (call_covers hl (resumed_add_spend (hspend hok))).mp ⟨hlem, hle⟩⟩
      · rintro ⟨m, hm, n, hn, hrequest, hle⟩
        have hl : cost ≤ l := (Nat.le_add_right _ _).trans hle
        have hlent : m - stipend ≤ lent request (l - cost) :=
          le_lent.mpr ⟨hrequest, Nat.le_sub_of_add_le' ((Nat.add_le_add_left
            (le_max_left _ _) _).trans hle)⟩
        have hok := hneed.mpr ⟨m, hm, Nat.sub_le_iff_le_add.mp hlent⟩
        have hcovers := (call_covers hl (resumed_add_spend (hspend hok))).mpr ⟨hrequest, hle⟩
        exact ⟨hl, hok, n, hn, hcovers.2⟩
    · obtain ⟨hl, hok, hlater⟩ := hcalled.mp hok
      have hleft := resumed_add_spend (hspend hok)
      have hrest := hspend' hlater
      rw [run_call hl, credit_left, spend]
      rw [Succeeds, ← called] at hok
      rw [hok]
      exact call_leaves paid hl hleft hrest

/-- CLOSED FORM: what a steady program reported is enough iff it was granted no refund, and needs no
    more than it spends. -/
theorem enough_steady {p : Metered} (hp : p.Steady) {limit : ℕ} (h : p.Succeeds limit) :
    p.Enough limit ↔ p.granted limit = 0 ∧ p.need = some (p.spent limit) := by
  obtain ⟨hneed, hspend⟩ := steady_run hp limit
  obtain ⟨n, hn, -⟩ := hneed.mp h
  obtain ⟨hneed', hspend'⟩ := steady_run hp n
  -- no program spends more than it needs
  have hleft := hspend h
  have hleft' := hspend' (hneed'.mpr ⟨n, hn, le_refl n⟩)
  have hspent := p.spent_add_left limit
  have hgranted := p.granted_le limit
  rw [← succeeds_used_iff h, (steady_run hp _).1, Option.mem_def.mp hn, used]
  simp only [Option.mem_def, Option.some.injEq, exists_eq_left']
  omega

end Metered

end Schemes
