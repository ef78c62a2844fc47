import Mathlib.Tactic

/-! Runs of a machine that takes one event after another. A guard says which event may be taken in
    which state; a run is guarded when every event it takes passes the guard in the state it is
    taken in. What every guarded step keeps, a guarded run keeps, at each of its moments. -/

namespace Schemes

variable {S Ev : Type}

/-- The state after a list of events. -/
def runAll (step : S → Ev → S) (s : S) (events : List Ev) : S := events.foldl step s

@[simp] theorem runAll_nil (step : S → Ev → S) (s : S) : runAll step s [] = s := rfl

@[simp] theorem runAll_cons (step : S → Ev → S) (s : S) (e : Ev) (es : List Ev) :
    runAll step s (e :: es) = runAll step (step s e) es := rfl

theorem runAll_append (step : S → Ev → S) (s : S) (es es' : List Ev) :
    runAll step s (es ++ es') = runAll step (runAll step s es) es' := List.foldl_append

/-- Every event of the run passes the guard in the state it is taken in. -/
def Guarded (step : S → Ev → S) (guard : S → Ev → Prop) : S → List Ev → Prop
  | _, [] => True
  | s, e :: es => guard s e ∧ Guarded step guard (step s e) es

instance instDecidableGuarded {step : S → Ev → S} {guard : S → Ev → Prop}
    [∀ s e, Decidable (guard s e)] : ∀ (s : S) (es : List Ev), Decidable (Guarded step guard s es)
  | _, [] => inferInstanceAs (Decidable True)
  | s, e :: es =>
    have : Decidable (Guarded step guard (step s e) es) := instDecidableGuarded (step s e) es
    inferInstanceAs (Decidable (guard s e ∧ Guarded step guard (step s e) es))

/-- What is known of every event of a run may join its guard. -/
theorem guarded_and {step : S → Ev → S} {guard : S → Ev → Prop} {K : Ev → Prop} :
    ∀ {s : S} {es : List Ev}, Guarded step guard s es → (∀ e ∈ es, K e) →
      Guarded step (fun s e => guard s e ∧ K e) s es
  | _, [], _, _ => trivial
  | _, e :: _, h, hknown => ⟨⟨h.1, hknown e List.mem_cons_self⟩,
      guarded_and h.2 fun e' he' => hknown e' (List.mem_cons_of_mem e he')⟩

/-- INVARIANT RULE: what every step keeps, a run keeps. -/
theorem runAll_inv {step : S → Ev → S} {P : S → Prop} (hstep : ∀ s e, P s → P (step s e)) :
    ∀ (s : S) (es : List Ev), P s → P (runAll step s es)
  | _, [], hs => hs
  | s, e :: es, hs => runAll_inv hstep (step s e) es (hstep s e hs)

/-- INVARIANT RULE: what every step on an event of a kind keeps, a run of such events keeps. -/
theorem runAll_inv_of {step : S → Ev → S} {P : S → Prop} {K : Ev → Prop}
    (hstep : ∀ s e, P s → K e → P (step s e)) : ∀ (s : S) (es : List Ev), P s → (∀ e ∈ es, K e) →
      P (runAll step s es)
  | _, [], hs, _ => hs
  | s, e :: es, hs, hknown => runAll_inv_of hstep (step s e) es
      (hstep s e hs (hknown e List.mem_cons_self))
      fun e' he' => hknown e' (List.mem_cons_of_mem e he')

/-- INVARIANT RULE: what every guarded step keeps, a guarded run keeps. -/
theorem guarded_inv {step : S → Ev → S} {guard : S → Ev → Prop} {P : S → Prop}
    (hstep : ∀ s e, P s → guard s e → P (step s e)) : ∀ (s : S) (es : List Ev), P s →
    Guarded step guard s es → P (runAll step s es)
  | _, [], hs, _ => hs
  | s, e :: es, hs, h => guarded_inv hstep (step s e) es (hstep s e hs h.1) h.2

/-! ### One machine behind another -/

section Shadows

variable {T Ev' Call : Type} {step : S → Ev → S} {sees : S → Ev → Option Ev'}

/-- What a run of the one machine is to the other: each event what it is in the state it is taken in,
    if it is anything to it. -/
def shadow (step : S → Ev → S) (sees : S → Ev → Option Ev') : S → List Ev → List Ev'
  | _, [] => []
  | s, e :: es => (sees s e).toList ++ shadow step sees (step s e) es

/-- SIMULATION RULE: where every guarded step of the one is a step of the other, or nothing to it,
    so is every guarded run. -/
theorem shadow_run {step' : T → Ev' → T} {guard : S → Ev → Prop} {R : S → T → Prop}
    (hstep : ∀ s t e, R s t → guard s e → R (step s e) (runAll step' t (sees s e).toList)) :
    ∀ (s : S) (t : T) (es : List Ev), R s t → Guarded step guard s es →
      R (runAll step s es) (runAll step' t (shadow step sees s es))
  | _, _, [], hst, _ => hst
  | s, t, e :: es, hst, h => by
    rw [runAll_cons, shadow, runAll_append]
    exact shadow_run hstep _ _ es (hstep s t e hst h.1) h.2

/-- Where no event is anything but its own, a run is the events it is made of, less some. -/
theorem shadow_sublist {own : Ev → Option Ev'}
    (hown : ∀ s e e', sees s e = some e' → own e = some e') :
    ∀ (s : S) (es : List Ev), (shadow step sees s es).Sublist (es.filterMap own)
  | _, [] => List.Sublist.refl _
  | s, e :: es => by
    rw [shadow]
    have hrest := shadow_sublist hown (step s e) es
    cases he : sees s e with
    | some e' =>
      rw [List.filterMap_cons_some (hown s e e' he)]
      exact hrest.cons_cons e'
    | none =>
      refine hrest.trans ?_
      rw [List.filterMap_cons]
      split
      · exact List.Sublist.refl _
      · exact List.sublist_cons_self _ _

/-- What every event is seen to call, a run calls. -/
theorem shadow_calls {calls : Ev → Option Call} {calls' : Ev' → Option Call}
    (hcalls : ∀ s e, (sees s e).bind calls' = calls e) :
    ∀ (s : S) (es : List Ev), (shadow step sees s es).filterMap calls' = es.filterMap calls
  | _, [] => rfl
  | s, e :: es => by
    rw [shadow, List.filterMap_append, shadow_calls hcalls (step s e) es, List.filterMap_cons,
      ← hcalls s e]
    cases sees s e with
    | none => rfl
    | some e' =>
      rw [Option.toList_some, Option.bind_some, List.filterMap_cons]
      cases calls' e' <;> rfl

end Shadows

/-- Among things under way one of which has moved on, each is the one that moved, or as it was. -/
theorem getElem?_set_cases {A : Type} {l : List A} {i j : ℕ} {a b : A}
    (h : (l.set i a)[j]? = some b) : j = i ∧ b = a ∨ j ≠ i ∧ l[j]? = some b := by
  by_cases hij : i = j
  · subst hij
    obtain ⟨hlt, hget⟩ := List.getElem?_eq_some_iff.mp h
    rw [List.getElem_set_self] at hget
    exact .inl ⟨rfl, hget.symm⟩
  · rw [List.getElem?_set_ne hij] at h
    exact .inr ⟨Ne.symm hij, h⟩

/-- Among things under way one of which has just come, each is that one, or was there. -/
theorem getElem?_concat_cases {A : Type} {l : List A} {i : ℕ} {a b : A}
    (h : (l ++ [a])[i]? = some b) : l[i]? = some b ∨ i = l.length ∧ b = a := by
  by_cases hlt : i < l.length
  · rw [List.getElem?_append_left hlt] at h
    exact .inl h
  · rw [List.getElem?_append_right (not_lt.mp hlt)] at h
    cases hi : i - l.length with
    | zero =>
      rw [hi] at h
      exact .inr ⟨by omega, (Option.some.inj h).symm⟩
    | succ n =>
      rw [hi] at h
      cases h

/-- Where each of the things under way stands for a few items, moving one of them on trades its old
    items for its new ones. -/
theorem flatMap_set_perm {A B : Type} (f : A → List B) : ∀ {l : List A} {i : ℕ} {a : A} (b : A),
    l[i]? = some a → (f a ++ (l.set i b).flatMap f).Perm (f b ++ l.flatMap f)
  | [], _, _, _, h => by simp at h
  | x :: l, 0, a, b, h => by
    rw [List.getElem?_cons_zero] at h
    rw [Option.some.inj h, List.set_cons_zero, List.flatMap_cons, List.flatMap_cons]
    exact List.perm_append_comm_assoc _ _ _
  | x :: l, i + 1, a, b, h => by
    rw [List.getElem?_cons_succ] at h
    rw [List.set_cons_succ, List.flatMap_cons, List.flatMap_cons]
    have hrest := (flatMap_set_perm f b h).append_left (f x)
    exact ((List.perm_append_comm_assoc _ _ _).trans hrest).trans (List.perm_append_comm_assoc _ _ _)

/-- Counting over things under way when one of them moves on. -/
theorem countP_set_add {B : Type} (p : B → Bool) : ∀ {l : List B} {i : ℕ} {b : B} (b' : B),
    l[i]? = some b → (l.set i b').countP p + (p b).toNat = l.countP p + (p b').toNat
  | [], _, _, _, h => by simp at h
  | x :: l, 0, b, b', h => by
    rw [List.getElem?_cons_zero] at h
    rw [Option.some.inj h, List.set_cons_zero, List.countP_cons, List.countP_cons]
    cases p b <;> cases p b' <;> simp
  | x :: l, i + 1, b, b', h => by
    rw [List.getElem?_cons_succ] at h
    rw [List.set_cons_succ, List.countP_cons, List.countP_cons]
    have hrest := countP_set_add p b' h
    omega

/-- Where at most one of the things under way counts, two that count are one. -/
theorem countP_unique {B : Type} {p : B → Bool} {l : List B} (h : l.countP p ≤ 1) {i j : ℕ} {b c : B}
    (hi : l[i]? = some b) (hb : p b = true) (hj : l[j]? = some c) (hc : p c = true) : i = j := by
  have hordered : ∀ {i j : ℕ} {b c : B}, l[i]? = some b → p b = true → l[j]? = some c →
      p c = true → ¬ i < j := by
    intro i j b c hi hb hj hc hlt
    have hbefore : 0 < (l.take j).countP p := by
      refine List.countP_pos_iff.mpr ⟨b, List.mem_of_getElem? (i := i) ?_, hb⟩
      rw [List.getElem?_take_of_lt hlt]
      exact hi
    have hafter : 0 < (l.drop j).countP p := by
      refine List.countP_pos_iff.mpr ⟨c, List.mem_of_getElem? (i := 0) ?_, hc⟩
      rw [List.getElem?_drop, Nat.add_zero]
      exact hj
    rw [← List.take_append_drop j l, List.countP_append] at h
    omega
  rcases Nat.lt_trichotomy i j with hlt | heq | hlt
  · exact absurd hlt (hordered hi hb hj hc)
  · exact heq
  · exact absurd hlt (hordered hj hc hi hb)

/-- Counting over all the others. -/
theorem countP_eraseIdx_add {B : Type} (p : B → Bool) : ∀ {l : List B} {i : ℕ} {b : B},
    l[i]? = some b → (l.eraseIdx i).countP p + (p b).toNat = l.countP p
  | [], _, _, h => by simp at h
  | x :: l, 0, b, h => by
    rw [List.getElem?_cons_zero] at h
    rw [Option.some.inj h, List.eraseIdx_cons_zero, List.countP_cons]
    cases p b <;> simp
  | x :: l, i + 1, b, h => by
    rw [List.getElem?_cons_succ] at h
    rw [List.eraseIdx_cons_succ, List.countP_cons, List.countP_cons]
    have hrest := countP_eraseIdx_add p h
    omega

/-- Adding up over things under way when one of them moves on. -/
theorem sum_map_set {B : Type} (f : B → ℕ) : ∀ {l : List B} {i : ℕ} {b : B} (b' : B),
    l[i]? = some b → ((l.set i b').map f).sum + f b = (l.map f).sum + f b'
  | [], _, _, _, h => by simp at h
  | x :: l, 0, b, b', h => by
    rw [List.getElem?_cons_zero] at h
    rw [Option.some.inj h, List.set_cons_zero, List.map_cons, List.map_cons, List.sum_cons,
      List.sum_cons]
    omega
  | x :: l, i + 1, b, b', h => by
    rw [List.getElem?_cons_succ] at h
    rw [List.set_cons_succ, List.map_cons, List.map_cons, List.sum_cons, List.sum_cons]
    have hrest := sum_map_set f b' h
    omega

/-- What is the same of all things under way as of the one that moved on. -/
theorem map_set_same {A B : Type} (f : A → B) {l : List A} {i : ℕ} {a b : A} (h : l[i]? = some a)
    (hsame : f b = f a) : (l.set i b).map f = l.map f := by
  obtain ⟨hlt, hget⟩ := List.getElem?_eq_some_iff.mp h
  have hlt' : i < (l.map f).length := by rwa [List.length_map]
  have hself : f b = (l.map f)[i] := by rw [hsame, List.getElem_map, hget]
  rw [List.map_set, hself, List.set_getElem_self]

/-- Where only one of the things under way stands for any items, those are all there are. -/
theorem flatMap_alone {A B : Type} {f : A → List B} {l : List A} {i : ℕ} {a : A} (h : l[i]? = some a)
    (halone : ∀ (j : ℕ) (b : A), l[j]? = some b → j ≠ i → f b = []) : l.flatMap f = f a := by
  obtain ⟨hlt, rfl⟩ := List.getElem?_eq_some_iff.mp h
  have hbefore : (l.take i).flatMap f = [] := List.flatMap_eq_nil_iff.mpr fun b hb => by
    obtain ⟨j, hj, rfl⟩ := List.getElem_of_mem hb
    rw [List.length_take] at hj
    rw [List.getElem_take]
    exact halone j _ (List.getElem?_eq_getElem (by omega)) (by omega)
  have hafter : (l.drop (i + 1)).flatMap f = [] := List.flatMap_eq_nil_iff.mpr fun b hb => by
    obtain ⟨j, hj, rfl⟩ := List.getElem_of_mem hb
    rw [List.length_drop] at hj
    rw [List.getElem_drop]
    exact halone (i + 1 + j) _ (List.getElem?_eq_getElem (by omega)) (by omega)
  calc l.flatMap f = (l.take i ++ l[i] :: l.drop (i + 1)).flatMap f := by
        rw [← List.drop_eq_getElem_cons hlt, List.take_append_drop]
    _ = f l[i] := by
        rw [List.flatMap_append, List.flatMap_cons, hbefore, hafter, List.append_nil,
          List.nil_append]

end Schemes
