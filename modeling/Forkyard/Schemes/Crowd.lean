import Forkyard.Schemes.ReadTree
import Forkyard.Schemes.Steps

/-! Requests under way on one shared store. Each is a program that asks the store one question after
    another; whose question is next is up to a scheduler, so that anything may come between two of
    one request, and things happen to the store from outside. Where stores and programs come in
    pairs that cannot be told apart, so do whole runs; a request all of whose questions leave the
    store as good as it was may then as well not be served at all.

        store ──ask of request 2──▶ store ──ask of request 0──▶ store ──outside──▶ store -/

namespace Schemes

variable {Q : Type} {A : Q → Type} {R σ Ev : Type}

/-- A store and every request made of it so far, by what is left of it. -/
structure Crowd (Q : Type) (A : Q → Type) (R σ : Type) where
  store : σ
  requests : List (Tree Q A R)

/-- A request is made, asks its next question, or something happens to the store from outside. -/
inductive CrowdEvent (Q : Type) (A : Q → Type) (R Ev : Type) where
  | request (t : Tree Q A R)
  | move (i : ℕ)
  | outside (e : Ev)

/-- The request that is made, if one is. -/
def CrowdEvent.made : CrowdEvent Q A R Ev → Option (Tree Q A R)
  | .request t => some t
  | _ => none

/-- No question of a request that is to be silent. -/
def CrowdEvent.served (silent : ℕ → Bool) : CrowdEvent Q A R Ev → Bool
  | .move i => !silent i
  | _ => true

namespace Crowd

def start (s : σ) : Crowd Q A R σ := ⟨s, []⟩

variable (h : Handler Q A σ) (outside : Ev → σ → σ)

def step (c : Crowd Q A R σ) : CrowdEvent Q A R Ev → Crowd Q A R σ
  | .request t => { c with requests := c.requests ++ [t] }
  | .move i =>
    match c.requests[i]? with
    | some (.ask q k) =>
      { store := (h q c.store).2, requests := c.requests.set i (k (h q c.store).1) }
    | _ => c
  | .outside e => { c with store := outside e c.store }

def run (c : Crowd Q A R σ) (events : List (CrowdEvent Q A R Ev)) : Crowd Q A R σ :=
  runAll (step h outside) c events

end Crowd

section Runs

variable {h : Handler Q A σ} {outside : Ev → σ → σ} {c : Crowd Q A R σ}

/-- What a step is: a request is made, the `i`-th asks its question, something happens from outside,
    or nothing does. -/
inductive Stepped (h : Handler Q A σ) (outside : Ev → σ → σ) (c : Crowd Q A R σ) :
    CrowdEvent Q A R Ev → Crowd Q A R σ → Prop
  | request (t : Tree Q A R) : Stepped h outside c (.request t) ⟨c.store, c.requests ++ [t]⟩
  | asked {i : ℕ} {q : Q} {k : A q → Tree Q A R} (hi : c.requests[i]? = some (.ask q k)) :
    Stepped h outside c (.move i) ⟨(h q c.store).2, c.requests.set i (k (h q c.store).1)⟩
  | idle {i : ℕ} (hi : ∀ q k, c.requests[i]? ≠ some (.ask q k)) : Stepped h outside c (.move i) c
  | outside (e : Ev) : Stepped h outside c (.outside e) ⟨outside e c.store, c.requests⟩

variable (h outside c) in
theorem step_stepped (event : CrowdEvent Q A R Ev) :
    Stepped h outside c event (c.step h outside event) := by
  cases event with
  | request t => exact .request t
  | outside e => exact .outside e
  | move i =>
    simp only [Crowd.step]
    split
    · rename_i q k hi
      exact .asked hi
    · rename_i hnot
      exact .idle fun q k hi => hnot q k hi

/-- INVARIANT RULE of the store: what every question and everything from outside keeps. -/
theorem store_run {P : σ → Prop} (hask : ∀ q s, P s → P (h q s).2)
    (houtside : ∀ e s, P s → P (outside e s)) (events : List (CrowdEvent Q A R Ev))
    (hc : P c.store) : P (c.run h outside events).store := by
  refine runAll_inv (P := fun c => P c.store) (fun c event hc => ?_) c events hc
  generalize hc' : c.step h outside event = c'
  have hstep := step_stepped h outside c event
  rw [hc'] at hstep
  cases hstep with
  | request t => exact hc
  | asked hi => exact hask _ _ hc
  | idle hi => exact hc
  | outside e => exact houtside e _ hc

/-- RULE OF ONE REQUEST: what its own questions lead to and neither the questions of others nor
    anything from outside disturbs holds as far as it gets. -/
theorem request_run (Stage : σ → Tree Q A R → Prop)
    (hown : ∀ s q k, Stage s (.ask q k) → Stage (h q s).2 (k (h q s).1))
    (hothers : ∀ s q t, Stage s t → Stage (h q s).2 t)
    (houtside : ∀ s e t, Stage s t → Stage (outside e s) t) {i : ℕ}
    (events : List (CrowdEvent Q A R Ev)) (hc : ∃ t, c.requests[i]? = some t ∧ Stage c.store t) :
    ∃ t, (c.run h outside events).requests[i]? = some t ∧
      Stage (c.run h outside events).store t := by
  refine runAll_inv (P := fun c => ∃ t, c.requests[i]? = some t ∧ Stage c.store t)
    (fun c event hc => ?_) c events hc
  obtain ⟨t, ht, hstage⟩ := hc
  generalize hc' : c.step h outside event = c'
  have hstep := step_stepped h outside c event
  rw [hc'] at hstep
  cases hstep with
  | request t' =>
    exact ⟨t, (List.getElem?_append_left (List.getElem?_eq_some_iff.mp ht).1).trans ht, hstage⟩
  | @asked j q k hj =>
    by_cases hij : j = i
    · subst hij
      obtain rfl := Option.some.inj (ht.symm.trans hj)
      exact ⟨_, List.getElem?_set_self (List.getElem?_eq_some_iff.mp ht).1, hown _ q k hstage⟩
    · exact ⟨t, by rw [List.getElem?_set_ne hij]; exact ht, hothers _ q t hstage⟩
  | idle hi => exact ⟨t, ht, hstage⟩
  | outside e => exact ⟨t, ht, houtside _ e t hstage⟩

/-- Whatever a program comes to, it has come to if it gets that far. -/
theorem all_run (h : Handler Q A σ) (outside : Ev → σ → σ) {c : Crowd Q A R σ} {P : R → Prop}
    {i : ℕ} {t : Tree Q A R} (events : List (CrowdEvent Q A R Ev))
    (ht : c.requests[i]? = some t) (hall : t.All P) :
    ∃ t', (c.run h outside events).requests[i]? = some t' ∧ t'.All P :=
  request_run (fun _ t => t.All P) (fun _ _ _ hall => hall _) (fun _ _ _ hall => hall)
    (fun _ _ _ hall => hall) events ⟨t, ht, hall⟩

end Runs

/-! ### Questions in a row -/

/-- Some questions of one program, with nothing in between. -/
inductive Stride (h : Handler Q A σ) : Tree Q A R → σ → Tree Q A R → σ → Prop
  | rest (t : Tree Q A R) (s : σ) : Stride h t s t s
  | ask {q : Q} {k : A q → Tree Q A R} {s s' : σ} {t' : Tree Q A R}
    (hrest : Stride h (k (h q s).1) (h q s).2 t' s') : Stride h (.ask q k) s t' s'

/-- In a crowd they are so many moves of one request. -/
theorem stride_crowd {h : Handler Q A σ} (outside : Ev → σ → σ) {t t' : Tree Q A R} {s s' : σ}
    (hstride : Stride h t s t' s') {requests : List (Tree Q A R)} {i : ℕ}
    (hi : requests[i]? = some t) : ∃ events : List (CrowdEvent Q A R Ev),
      Crowd.run h outside ⟨s, requests⟩ events = ⟨s', requests.set i t'⟩ := by
  induction hstride generalizing requests with
  | rest t s =>
    obtain ⟨hlt, hget⟩ := List.getElem?_eq_some_iff.mp hi
    exact ⟨[], by rw [← hget, List.set_getElem_self]; rfl⟩
  | @ask q k s s' t' _ ih =>
    have hset : (requests.set i (k (h q s).1))[i]? = some (k (h q s).1) :=
      List.getElem?_set_self (List.getElem?_eq_some_iff.mp hi).1
    obtain ⟨events, hrun⟩ := ih hset
    refine ⟨.move i :: events, ?_⟩
    rw [Crowd.run, runAll_cons]
    simp only [Crowd.step, hi]
    rw [Crowd.run, List.set_set] at hrun
    exact hrun

/-! ### Requests that might as well not be served -/

section Silence

variable (QR : Q → Q → Prop) (AR : (q q' : Q) → A q → A q' → Prop)

/-- Programs that cannot be told apart: they ask questions that are related, and go on alike where
    the answers are. -/
inductive Tree.Sim : Tree Q A R → Tree Q A R → Prop
  | ret (r : R) : Sim (.ret r) (.ret r)
  | panic : Sim .panic .panic
  | ask {q q' : Q} {k : A q → Tree Q A R} {k' : A q' → Tree Q A R} (hq : QR q q')
    (hk : ∀ a a', AR q q' a a' → Sim (k a) (k' a')) : Sim (.ask q k) (.ask q' k')

variable (h : Handler Q A σ) (outside : Ev → σ → σ) (P : σ → σ → Prop)

/-- Stores related by `P` answer related questions alike, and stay related. -/
structure Congruent : Prop where
  answers : ∀ q q' s s', QR q q' → P s s' →
    AR q q' (h q s).1 (h q' s').1 ∧ P (h q s).2 (h q' s').2
  outside : ∀ e s s', P s s' → P (outside e s) (outside e s')

/-- Every question of the program leaves the store as good as it was. -/
def Tree.Quiet : Tree Q A R → Prop
  | .ret _ => True
  | .panic => True
  | .ask q k => (∀ s s', P s s' → P (h q s).2 s') ∧ ∀ a, (k a).Quiet

/-- Every question of the program leaves the store as good as it was, unless the program is sure not
    to fail by then. -/
def Tree.Harmless (fails : R → Prop) : Tree Q A R → Prop
  | .ret _ => True
  | .panic => True
  | .ask q k =>
    (∀ s s', P s s' → P (h q s).2 s' ∨ (k (h q s).1).All fun r => ¬ fails r) ∧
      ∀ a, (k a).Harmless fails

/-- The request only looks, or it fails in the end. -/
def Tree.Silent (fails : R → Prop) (t : Tree Q A R) (final : Option (Tree Q A R)) : Prop :=
  t.Quiet h P ∨ (t.Harmless h P fails ∧ ∃ r, final = some (.ret r) ∧ fails r)

end Silence

section Maps

variable {T : Type} {QR : Q → Q → Prop} {AR : (q q' : Q) → A q → A q' → Prop} {h : Handler Q A σ}
  {P : σ → σ → Prop}

theorem sim_map (f : R → T) {t t' : Tree Q A R} (hsim : t.Sim QR AR t') :
    (t.map f).Sim QR AR (t'.map f) := by
  induction hsim with
  | ret r => exact .ret (f r)
  | panic => exact .panic
  | ask hq hk ih => exact .ask hq ih

theorem quiet_map (f : R → T) : ∀ {t : Tree Q A R}, t.Quiet h P → (t.map f).Quiet h P
  | .ret _, _ => trivial
  | .panic, _ => trivial
  | .ask _ _, ⟨hquiet, hrest⟩ => ⟨hquiet, fun a => quiet_map f (hrest a)⟩

theorem harmless_map {fails : R → Prop} {fails' : T → Prop} (f : R → T)
    (hf : ∀ r, fails' (f r) → fails r) :
    ∀ {t : Tree Q A R}, t.Harmless h P fails → (t.map f).Harmless h P fails'
  | .ret _, _ => trivial
  | .panic, _ => trivial
  | .ask _ _, ⟨hharmless, hrest⟩ =>
    ⟨fun s s' hP => (hharmless s s' hP).imp_right (Tree.all_map fun r hr hfails => hr (hf r hfails)),
      fun a => harmless_map f hf (hrest a)⟩

/-- A quiet program is harmless, whatever it comes to. -/
theorem quiet_harmless (fails : R → Prop) :
    ∀ {t : Tree Q A R}, t.Quiet h P → t.Harmless h P fails
  | .ret _, _ => trivial
  | .panic, _ => trivial
  | .ask _ _, ⟨hquiet, hrest⟩ =>
    ⟨fun s s' hP => .inl (hquiet s s' hP), fun a => quiet_harmless fails (hrest a)⟩

/-- So is one that is sure not to fail. -/
theorem all_harmless {fails : R → Prop} : ∀ {t : Tree Q A R}, (t.All fun r => ¬ fails r) →
    t.Harmless h P fails
  | .ret _, _ => trivial
  | .panic, _ => trivial
  | .ask _ _, hall => ⟨fun _ _ _ => .inr (hall _), fun a => all_harmless (hall a)⟩

end Maps

section Unserved

variable {QR : Q → Q → Prop} {AR : (q q' : Q) → A q → A q' → Prop} {h : Handler Q A σ}
  {outside : Ev → σ → σ} {P : σ → σ → Prop} {fails : R → Prop} {silent : ℕ → Bool}

/-- The requests that are served come in pairs. -/
def Paired (QR : Q → Q → Prop) (AR : (q q' : Q) → A q → A q' → Prop) (silent : ℕ → Bool)
    (requests requests' : List (Tree Q A R)) : Prop :=
  requests.length = requests'.length ∧ ∀ i t, silent i = false → requests[i]? = some t →
    ∃ t', requests'[i]? = some t' ∧ t.Sim QR AR t'

theorem paired_set {requests requests' : List (Tree Q A R)}
    (hpaired : Paired QR AR silent requests requests') {i : ℕ} {t t' : Tree Q A R}
    (hsim : silent i = false → t.Sim QR AR t') :
    Paired QR AR silent (requests.set i t) (requests'.set i t') := by
  refine ⟨by rw [List.length_set, List.length_set, hpaired.1], fun j u hj hu => ?_⟩
  by_cases hij : i = j
  · subst hij
    have hlt : i < requests.length := by
      have hlt := (List.getElem?_eq_some_iff.mp hu).1
      rwa [List.length_set] at hlt
    rw [List.getElem?_set_self hlt] at hu
    obtain rfl := Option.some.inj hu
    exact ⟨t', List.getElem?_set_self (hpaired.1 ▸ hlt), hsim hj⟩
  · rw [List.getElem?_set_ne hij] at hu ⊢
    exact hpaired.2 j u hj hu

/-- A silent request's question leaves the store as good as it was, and what is left of the request
    is silent. -/
theorem silent_asked {c : Crowd Q A R σ} {i : ℕ} {q : Q} {k : A q → Tree Q A R}
    {events : List (CrowdEvent Q A R Ev)} {s' : σ} (hi : c.requests[i]? = some (.ask q k))
    (hsilent : (Tree.ask q k).Silent h P fails
      ((c.step h outside (.move i)).run h outside events).requests[i]?) (hP : P c.store s') :
    P (h q c.store).2 s' ∧ (k (h q c.store).1).Silent h P fails
      ((c.step h outside (.move i)).run h outside events).requests[i]? := by
  rcases hsilent with ⟨hquiet, hrest⟩ | ⟨⟨hharmless, hrest⟩, r, hend, hfails⟩
  · exact ⟨hquiet _ _ hP, .inl (hrest _)⟩
  · refine ⟨(hharmless _ _ hP).resolve_right fun hall => ?_, .inr ⟨hrest _, r, hend, hfails⟩⟩
    -- had it been sure not to fail by now, it would not have failed
    have hnext : (c.step h outside (.move i)).requests[i]? = some (k (h q c.store).1) := by
      simp only [Crowd.step, hi]
      exact List.getElem?_set_self (List.getElem?_eq_some_iff.mp hi).1
    obtain ⟨t, ht, hall'⟩ := all_run h outside events hnext hall
    rw [hend] at ht
    obtain rfl := Option.some.inj ht
    exact hall' hfails

/-- INVARIANT of two runs, one that serves everybody and one that serves no silent request, with
    these events still to come. -/
structure Abreast (QR : Q → Q → Prop) (AR : (q q' : Q) → A q → A q' → Prop) (h : Handler Q A σ)
    (outside : Ev → σ → σ) (P : σ → σ → Prop) (fails : R → Prop) (silent : ℕ → Bool)
    (events : List (CrowdEvent Q A R Ev)) (c c' : Crowd Q A R σ) : Prop where
  store : P c.store c'.store
  paired : Paired QR AR silent (c.requests ++ events.filterMap CrowdEvent.made)
    (c'.requests ++ events.filterMap CrowdEvent.made)
  silent : ∀ i t, silent i = true →
    (c.requests ++ events.filterMap CrowdEvent.made)[i]? = some t →
      t.Silent h P fails (c.run h outside events).requests[i]?

theorem set_more {requests : List (Tree Q A R)} {i : ℕ} {t u : Tree Q A R}
    (more : List (Tree Q A R)) (hi : requests[i]? = some t) :
    requests.set i u ++ more = (requests ++ more).set i u :=
  (List.set_append_left _ _ (List.getElem?_eq_some_iff.mp hi).1).symm

theorem get_more {requests : List (Tree Q A R)} {i : ℕ} {t : Tree Q A R}
    (more : List (Tree Q A R)) (hi : requests[i]? = some t) : (requests ++ more)[i]? = some t :=
  (List.getElem?_append_left (List.getElem?_eq_some_iff.mp hi).1).trans hi

section Abreast

variable {events : List (CrowdEvent Q A R Ev)} {c c' : Crowd Q A R σ} {i : ℕ} {q : Q}
  {k : A q → Tree Q A R}

/-- A silent request asks, on one side only. -/
theorem abreast_silent (habreast : Abreast QR AR h outside P fails silent (.move i :: events) c c')
    (hs : silent i = true) (hi : c.requests[i]? = some (.ask q k)) :
    Abreast QR AR h outside P fails silent events
      ⟨(h q c.store).2, c.requests.set i (k (h q c.store).1)⟩ c' := by
  have hstep : c.step h outside (.move i)
      = ⟨(h q c.store).2, c.requests.set i (k (h q c.store).1)⟩ := by
    simp only [Crowd.step, hi]
  have hlast := habreast.silent i _ hs (get_more _ hi)
  simp only [Crowd.run, runAll_cons] at hlast
  obtain ⟨hafter, hrest⟩ := silent_asked hi hlast habreast.store
  rw [hstep] at hrest
  refine ⟨hafter, ?_, fun j t hj ht => ?_⟩
  · dsimp only
    rw [set_more _ hi]
    refine ⟨by rw [List.length_set]; exact habreast.paired.1, fun j t hj ht => ?_⟩
    have hij : i ≠ j := by
      rintro rfl
      rw [hs] at hj
      cases hj
    rw [List.getElem?_set_ne hij] at ht
    exact habreast.paired.2 j t hj ht
  · dsimp only at ht
    rw [set_more _ hi] at ht
    by_cases hij : i = j
    · subst hij
      rw [List.getElem?_set_self (List.getElem?_eq_some_iff.mp (get_more _ hi)).1] at ht
      rw [← Option.some.inj ht]
      exact hrest
    · rw [List.getElem?_set_ne hij] at ht
      have hsilent := habreast.silent j t hj ht
      simp only [Crowd.run, runAll_cons, hstep] at hsilent
      exact hsilent

/-- A request that is served asks, on both sides. -/
theorem abreast_served (hc : Congruent QR AR h outside P)
    (habreast : Abreast QR AR h outside P fails silent (.move i :: events) c c')
    (hs : silent i = false) (hi : c.requests[i]? = some (.ask q k)) :
    Abreast QR AR h outside P fails silent events
      ⟨(h q c.store).2, c.requests.set i (k (h q c.store).1)⟩ (c'.step h outside (.move i)) := by
  have hstep : c.step h outside (.move i)
      = ⟨(h q c.store).2, c.requests.set i (k (h q c.store).1)⟩ := by
    simp only [Crowd.step, hi]
  obtain ⟨t', ht', hsim⟩ := habreast.paired.2 i _ hs (get_more _ hi)
  have hlength := habreast.paired.1
  rw [List.length_append, List.length_append, Nat.add_right_cancel_iff] at hlength
  rw [List.getElem?_append_left (hlength ▸ (List.getElem?_eq_some_iff.mp hi).1)] at ht'
  cases hsim with
  | @ask _ q' _ k' hq hk =>
    obtain ⟨halike, hafter⟩ := hc.answers q q' c.store c'.store hq habreast.store
    simp only [Crowd.step, ht']
    refine ⟨hafter, ?_, fun j t hj ht => ?_⟩
    · dsimp only
      rw [set_more _ hi, set_more _ ht']
      exact paired_set habreast.paired fun _ => hk _ _ halike
    · dsimp only at ht
      have hij : i ≠ j := by
        rintro rfl
        rw [hs] at hj
        cases hj
      rw [set_more _ hi, List.getElem?_set_ne hij] at ht
      have hsilent := habreast.silent j t hj ht
      simp only [Crowd.run, runAll_cons, hstep] at hsilent
      exact hsilent

/-- A request that has nothing to ask any more has nothing to ask on the other side. -/
theorem abreast_idle (habreast : Abreast QR AR h outside P fails silent (.move i :: events) c c')
    (hs : silent i = false) (hi : ∀ q k, c.requests[i]? ≠ some (.ask q k)) :
    c'.step h outside (.move i) = c' := by
  have hlength := habreast.paired.1
  rw [List.length_append, List.length_append, Nat.add_right_cancel_iff] at hlength
  cases ht : c.requests[i]? with
  | none =>
    have hnone : c'.requests[i]? = none :=
      List.getElem?_eq_none (hlength ▸ List.getElem?_eq_none_iff.mp ht)
    simp only [Crowd.step, hnone]
  | some t =>
    obtain ⟨t', ht', hsim⟩ := habreast.paired.2 i _ hs (get_more _ ht)
    rw [List.getElem?_append_left (hlength ▸ (List.getElem?_eq_some_iff.mp ht).1)] at ht'
    cases hsim with
    | ret r => simp only [Crowd.step, ht']
    | panic => simp only [Crowd.step, ht']
    | ask hq hk => exact absurd ht (hi _ _)

/-- STEP LEMMA: the two runs stay abreast. -/
theorem abreast_step (hc : Congruent QR AR h outside P) {event : CrowdEvent Q A R Ev}
    (habreast : Abreast QR AR h outside P fails silent (event :: events) c c') :
    Abreast QR AR h outside P fails silent events (c.step h outside event)
      (if event.served silent then c'.step h outside event else c') := by
  cases event with
  | request t =>
    obtain ⟨hstore, hpaired, hsilent⟩ := habreast
    simp only [List.filterMap_cons, CrowdEvent.made] at hpaired hsilent
    refine ⟨hstore, ?_, ?_⟩
    · simp only [CrowdEvent.served, if_true, Crowd.step, List.append_assoc, List.singleton_append]
      exact hpaired
    · simp only [Crowd.step, List.append_assoc, List.singleton_append]
      exact hsilent
  | outside e =>
    exact ⟨hc.outside e _ _ habreast.store, habreast.paired, habreast.silent⟩
  | move i =>
    have hserved : (CrowdEvent.move i : CrowdEvent Q A R Ev).served silent = !silent i := rfl
    rw [hserved]
    generalize hd : c.step h outside (.move i) = d
    have hstep := step_stepped h outside c (.move i)
    rw [hd] at hstep
    cases hstep with
    | asked hi =>
      cases hs : silent i with
      | true => exact abreast_silent habreast hs hi
      | false => exact abreast_served hc habreast hs hi
    | idle hi =>
      have hsame : (if (!silent i) = true then c'.step h outside (.move i) else c') = c' := by
        cases hs : silent i with
        | true => rfl
        | false => exact abreast_idle habreast hs hi
      rw [hsame]
      refine ⟨habreast.store, habreast.paired, fun j t hj ht => ?_⟩
      have hsilent := habreast.silent j t hj ht
      simp only [Crowd.run, runAll_cons, hd] at hsilent
      exact hsilent

/-- RUN LEMMA: whole runs stay abreast. -/
theorem abreast_run (hc : Congruent QR AR h outside P)
    (habreast : Abreast QR AR h outside P fails silent events c c') :
    Abreast QR AR h outside P fails silent [] (c.run h outside events)
      (c'.run h outside (events.filter (CrowdEvent.served silent))) := by
  induction events generalizing c c' with
  | nil => exact habreast
  | cons event events ih =>
    have hnext := ih (abreast_step hc habreast)
    rw [List.filter_cons]
    split at hnext
    · rename_i hserved
      rw [if_pos hserved]
      exact hnext
    · rename_i hserved
      rw [if_neg hserved]
      exact hnext

end Abreast

variable (fails) in
/-- UNNOTICED: requests that only look or fail in the end may as well not be served. Every other
    request comes to the same end, and the store is as good. -/
theorem silence_unnoticed (hc : Congruent QR AR h outside P)
    {events : List (CrowdEvent Q A R Ev)} {s : σ} (hs : P s s)
    (hkept : ∀ i t, silent i = false → (events.filterMap CrowdEvent.made)[i]? = some t →
      t.Sim QR AR t)
    (hsilent : ∀ i t, silent i = true → (events.filterMap CrowdEvent.made)[i]? = some t →
      t.Silent h P fails ((Crowd.start s).run h outside events).requests[i]?) :
    P ((Crowd.start s).run h outside events).store
        ((Crowd.start s).run h outside (events.filter (CrowdEvent.served silent))).store ∧
      ∀ i r, silent i = false →
        (((Crowd.start s).run h outside events).requests[i]? = some (.ret r) ↔
          ((Crowd.start s).run h outside (events.filter (CrowdEvent.served silent))).requests[i]?
            = some (.ret r)) := by
  have hstart : Abreast QR AR h outside P fails silent events (.start s) (.start s) :=
    ⟨hs, ⟨rfl, fun i t hi ht => ⟨t, ht, hkept i t hi ht⟩⟩, hsilent⟩
  obtain ⟨hstore, ⟨hlength, hpaired⟩, -⟩ := abreast_run hc hstart
  simp only [List.filterMap_nil, List.append_nil] at hlength hpaired
  refine ⟨hstore, fun i r hi => ⟨fun hr => ?_, fun hr => ?_⟩⟩
  · obtain ⟨t', ht', hsim⟩ := hpaired i _ hi hr
    cases hsim with
    | ret => exact ht'
  · obtain ⟨t, ht⟩ : ∃ t, ((Crowd.start s).run h outside events).requests[i]? = some t :=
      ⟨_, List.getElem?_eq_getElem (hlength ▸ (List.getElem?_eq_some_iff.mp hr).1)⟩
    obtain ⟨t', ht', hsim⟩ := hpaired i t hi ht
    obtain rfl := Option.some.inj (hr.symm.trans ht')
    cases hsim with
    | ret => exact ht

end Unserved

/-! ### What a request can rely on -/

section Reliance

/-- Every question the program may come to is one of these. -/
def Tree.Only (p : Q → Prop) : Tree Q A R → Prop
  | .ret _ => True
  | .panic => True
  | .ask q k => p q ∧ ∀ a, (k a).Only p

/-- Every question the program may come to is one of these and every result a good one, as long as it
    is answered fairly. -/
def Tree.Within (fair : (q : Q) → A q → Prop) (p : Q → Prop) (good : R → Prop) : Tree Q A R → Prop
  | .ret r => good r
  | .panic => True
  | .ask q k => p q ∧ ∀ a, fair q a → (k a).Within fair p good

/-- The program is such, and so is whatever may be left of it. -/
def Tree.Always (C : Tree Q A R → Prop) : Tree Q A R → Prop
  | .ret r => C (.ret r)
  | .panic => C .panic
  | .ask q k => C (.ask q k) ∧ ∀ a, (k a).Always C

/-- By the time the program comes to a good result `P` holds, where `I` always does. -/
def Tree.Ensures (h : Handler Q A σ) (I P : σ → Prop) (good : R → Prop) : Tree Q A R → Prop
  | .ret _ => True
  | .panic => True
  | .ask q k =>
    (∀ s r, I s → k (h q s).1 = .ret r → good r → P (h q s).2) ∧
      ∀ a, (k a).Ensures h I P good

/-- One question, answered well where `I` and `P` hold, and nothing else. -/
def Tree.Tells (h : Handler Q A σ) (I P : σ → Prop) (good : R → Prop) : Tree Q A R → Prop
  | .ask q k => ∀ s, I s → P s → ∃ r, k (h q s).1 = .ret r ∧ good r
  | _ => False

theorem only_all {p : Q → Prop} (hp : ∀ q, p q) : ∀ t : Tree Q A R, t.Only p
  | .ret _ => trivial
  | .panic => trivial
  | .ask q k => ⟨hp q, fun a => only_all hp (k a)⟩

theorem within_map {T : Type} {fair : (q : Q) → A q → Prop} {p : Q → Prop} {good : T → Prop}
    (f : R → T) : ∀ {t : Tree Q A R}, t.Within fair p (fun r => good (f r)) →
      (t.map f).Within fair p good
  | .ret _, hgood => hgood
  | .panic, _ => trivial
  | .ask _ _, ⟨hp, hrest⟩ => ⟨hp, fun a ha => within_map f (hrest a ha)⟩

/-- CONSEQUENCE: fewer answers that are fair, for more questions and results. -/
theorem within_mono {fair fair' : (q : Q) → A q → Prop} {p p' : Q → Prop} {good good' : R → Prop}
    (hfair : ∀ q a, fair' q a → fair q a) (hp : ∀ q, p q → p' q) (hgood : ∀ r, good r → good' r) :
    ∀ {t : Tree Q A R}, t.Within fair p good → t.Within fair' p' good'
  | .ret r, h => hgood r h
  | .panic, _ => trivial
  | .ask q _, ⟨hq, hrest⟩ =>
    ⟨hp q hq, fun a ha => within_mono hfair hp hgood (hrest a (hfair q a ha))⟩

theorem within_only {p p' : Q → Prop} {good : R → Prop} (hp : ∀ q, p q → p' q) :
    ∀ {t : Tree Q A R}, t.Within (fun _ _ => True) p good → t.Only p'
  | .ret _, _ => trivial
  | .panic, _ => trivial
  | .ask q _, ⟨hq, hrest⟩ => ⟨hp q hq, fun a => within_only hp (hrest a trivial)⟩

variable {h : Handler Q A σ} {outside : Ev → σ → σ} {V I P : σ → Prop}

theorem ensures_map {T : Type} {good : T → Prop} (f : R → T) :
    ∀ {t : Tree Q A R}, t.Ensures h I P (fun r => good (f r)) → (t.map f).Ensures h I P good
  | .ret _, _ => trivial
  | .panic, _ => trivial
  | .ask q k, ⟨hends, hrest⟩ => by
    refine ⟨fun s r hs hret hgood => ?_, fun a => ensures_map f (hrest a)⟩
    dsimp only at hret
    cases hk : k (h q s).1 with
    | ret r' =>
      rw [hk] at hret
      obtain rfl : f r' = r := Tree.ret.inj hret
      exact hends s r' hs hk hgood
    | panic => rw [hk] at hret; cases hret
    | ask q' k' => rw [hk] at hret; cases hret

theorem tells_map {T : Type} {good : T → Prop} (f : R → T) :
    ∀ {t : Tree Q A R}, t.Tells h I P (fun r => good (f r)) → (t.map f).Tells h I P good
  | .ask q k, htells => fun s hI hP => by
    obtain ⟨r, hr, hgood⟩ := htells s hI hP
    refine ⟨f r, ?_, hgood⟩
    dsimp only
    rw [hr]
    rfl

theorem only_within {fair : (q : Q) → A q → Prop} {p : Q → Prop} :
    ∀ {t : Tree Q A R}, t.Only p → t.Within fair p fun _ => True
  | .ret _, _ => trivial
  | .panic, _ => trivial
  | .ask _ _, ⟨hp, hrest⟩ => ⟨hp, fun a _ => only_within (hrest a)⟩

theorem always_now {C : Tree Q A R → Prop} : ∀ {t : Tree Q A R}, t.Always C → C t
  | .ret _, h => h
  | .panic, h => h
  | .ask _ _, h => h.1

theorem only_always {p : Q → Prop} {C : Tree Q A R → Prop} (hC : ∀ t : Tree Q A R, t.Only p → C t) :
    ∀ {t : Tree Q A R}, t.Only p → t.Always C
  | .ret _, h => hC _ h
  | .panic, h => hC _ h
  | .ask _ _, h => ⟨hC _ h, fun a => only_always hC (h.2 a)⟩

/-- What a step leaves of a request that does not move. -/
theorem step_others {c : Crowd Q A R σ} {i k : ℕ} (hki : k ≠ i) :
    (c.step h outside (.move i)).requests[k]? = c.requests[k]? := by
  generalize hd : c.step h outside (.move i) = d
  have hstep := step_stepped h outside c (.move i)
  rw [hd] at hstep
  cases hstep with
  | asked hi => exact List.getElem?_set_ne hki.symm
  | idle hi => rfl

variable (h outside) in
theorem run_length (c : Crowd Q A R σ) (events : List (CrowdEvent Q A R Ev)) :
    (c.run h outside events).requests.length
      = c.requests.length + (events.filterMap CrowdEvent.made).length := by
  induction events generalizing c with
  | nil => rfl
  | cons event events ih =>
    rw [Crowd.run, runAll_cons]
    refine (ih _).trans ?_
    cases event with
    | request t =>
      simp only [Crowd.step, List.length_append, List.filterMap_cons, CrowdEvent.made,
        List.length_cons, List.length_nil]
      omega
    | outside e => rfl
    | move i =>
      simp only [Crowd.step, List.filterMap_cons, CrowdEvent.made]
      split
      · rw [List.length_set]
      · rfl

/-- RELIANCE RULE: what every request that moves and everything from outside keeps is there for all
    of them, and of each holds what holds as long as that does; unless something has come about that
    nothing undoes. -/
theorem rely_run (hask : ∀ q s, V s → V (h q s).2)
    (houtside : ∀ e s, V s → V (outside e s)) (Stage : ℕ → Tree Q A R → Prop)
    {events : List (CrowdEvent Q A R Ev)} {c : Crowd Q A R σ}
    (hmoves : ∀ i q k s, .move i ∈ events → P s → Stage i (.ask q k) →
      V (h q s).2 ∨ (P (h q s).2 ∧ Stage i (k (h q s).1)))
    (hevents : ∀ e s, .outside e ∈ events → P s → V (outside e s) ∨ P (outside e s))
    (hc : P c.store)
    (hstage : ∀ i t, (c.requests ++ events.filterMap CrowdEvent.made)[i]? = some t → Stage i t) :
    V (c.run h outside events).store ∨ (P (c.run h outside events).store ∧
      ∀ i t, (c.run h outside events).requests[i]? = some t → Stage i t) := by
  induction events generalizing c with
  | nil =>
    refine .inr ⟨hc, fun i t hi => hstage i t ?_⟩
    rw [List.filterMap_nil, List.append_nil]
    exact hi
  | cons event events ih =>
    rw [Crowd.run, runAll_cons]
    have hrest : ∀ {c' : Crowd Q A R σ}, P c'.store →
        (∀ i t, (c'.requests ++ events.filterMap CrowdEvent.made)[i]? = some t → Stage i t) →
        V (c'.run h outside events).store ∨ (P (c'.run h outside events).store ∧
          ∀ i t, (c'.run h outside events).requests[i]? = some t → Stage i t) :=
      ih (fun i q k s hi => hmoves i q k s (List.mem_cons_of_mem event hi))
        (fun e s he => hevents e s (List.mem_cons_of_mem event he))
    have hlost : ∀ {c' : Crowd Q A R σ}, V c'.store → V (c'.run h outside events).store :=
      store_run hask houtside events
    generalize hc' : c.step h outside event = c'
    have hstep := step_stepped h outside c event
    rw [hc'] at hstep
    cases hstep with
    | request t =>
      refine hrest hc fun i u hi => hstage i u ?_
      dsimp only at hi
      rw [List.append_assoc, List.singleton_append] at hi
      exact hi
    | @asked i q k hi =>
      have hown : Stage i (.ask q k) := hstage i _ (get_more _ hi)
      rcases hmoves i q k c.store List.mem_cons_self hc hown with hv | ⟨hP, hnext⟩
      · exact .inl (hlost hv)
      · refine hrest hP fun j u hj => ?_
        dsimp only at hj
        rw [set_more _ hi] at hj
        by_cases hij : i = j
        · subst hij
          rw [List.getElem?_set_self (List.getElem?_eq_some_iff.mp (get_more _ hi)).1] at hj
          exact Option.some.inj hj ▸ hnext
        · rw [List.getElem?_set_ne hij] at hj
          exact hstage j u hj
    | idle hi => exact hrest hc hstage
    | outside e =>
      rcases hevents e c.store List.mem_cons_self hc with hv | hP
      · exact .inl (hlost hv)
      · exact hrest hP hstage

/-- The answer of a request that ensures `P`, the moment it is given. -/
theorem ensured_now {good : R → Prop} {c : Crowd Q A R σ} {i : ℕ} {r : R} (hI : I c.store)
    (hensures : ∀ t, c.requests[i]? = some t → t.Ensures h I P good)
    (hwaits : ∀ r, c.requests[i]? ≠ some (.ret r))
    (hends : (c.step h outside (.move i)).requests[i]? = some (.ret r)) (hr : good r) :
    P (c.step h outside (.move i)).store := by
  generalize hd : c.step h outside (.move i) = d at *
  have hstep := step_stepped h outside c (.move i)
  rw [hd] at hstep
  cases hstep with
  | idle hi => exact absurd hends (hwaits r)
  | @asked _ q k hi =>
    rw [List.getElem?_set_self (List.getElem?_eq_some_iff.mp hi).1] at hends
    exact (hensures _ hi).1 c.store r hI (Option.some.inj hends) hr

/-- What holds, and is disturbed by nothing that moves or comes from outside, a request that is made
    from then on tells. -/
theorem told_run (hask : ∀ q s, V s → V (h q s).2) (houtside : ∀ e s, V s → V (outside e s))
    (hI : ∀ q s, I s → I (h q s).2) (hI' : ∀ e s, I s → I (outside e s))
    (fair : (q : Q) → A q → Prop) {p : Q → Prop} {told : R → Prop}
    {after : List (CrowdEvent Q A R Ev)} {c : Crowd Q A R σ} (hc : I c.store) (hP : P c.store)
    (hp : ∀ q s, p q → I s → P s → V (h q s).2 ∨ (fair q (h q s).1 ∧ P (h q s).2))
    (hmoves : ∀ k t, .move k ∈ after →
      (c.requests ++ after.filterMap CrowdEvent.made)[k]? = some t → t.Within fair p fun _ => True)
    (hevents : ∀ e s, .outside e ∈ after → I s → P s → V (outside e s) ∨ P (outside e s))
    {j : ℕ} {u : Tree Q A R} (hj : (after.filterMap CrowdEvent.made)[j]? = some u)
    (hu : u.Tells h I P told) :
    V (c.run h outside after).store ∨
      ∃ u', (c.run h outside after).requests[c.requests.length + j]? = some u' ∧
        (u' = u ∨ ∃ r, u' = .ret r ∧ told r) := by
  refine (rely_run (P := fun s => I s ∧ P s) hask houtside
    (fun k t => (.move k ∈ after → t.Within fair p fun _ => True) ∧
      (k = c.requests.length + j → t = u ∨ ∃ r, t = .ret r ∧ told r))
    (fun k q next s hk hs hown => ?_) (fun e s he hs => ?_) ⟨hc, hP⟩ fun k t ht => ?_).imp_right ?_
  · obtain ⟨hq, hrest⟩ := hown.1 hk
    refine (hp q s hq hs.1 hs.2).imp_right fun ⟨hfair, hafter⟩ => ⟨⟨hI q s hs.1, hafter⟩,
      fun _ => hrest _ hfair, fun hkj => .inr ?_⟩
    rcases hown.2 hkj with rfl | ⟨r, ⟨⟩, -⟩
    exact hu s hs.1 hs.2
  · exact (hevents e s he hs.1 hs.2).imp_right fun hP => ⟨hI' e s hs.1, hP⟩
  · refine ⟨fun hk => hmoves k t hk ht, ?_⟩
    rintro rfl
    rw [List.getElem?_append_right (Nat.le_add_right _ _), Nat.add_sub_cancel_left, hj] at ht
    exact .inl (Option.some.inj ht).symm
  · rintro ⟨-, hall⟩
    have hlast : c.requests.length + j < (c.run h outside after).requests.length := by
      rw [run_length]
      exact Nat.add_lt_add_left (List.getElem?_eq_some_iff.mp hj).1 _
    exact ⟨_, List.getElem?_eq_getElem hlast, (hall _ _ (List.getElem?_eq_getElem hlast)).2 rfl⟩

/-- READ BACK: what a request has ensured when it is answered, one that is made later tells, where
    nothing that moves or comes from outside in between disturbs it. -/
theorem ensured_read (hask : ∀ q s, V s → V (h q s).2)
    (houtside : ∀ e s, V s → V (outside e s)) (hI : ∀ q s, I s → I (h q s).2)
    (hI' : ∀ e s, I s → I (outside e s)) {p : Q → Prop} {good : R → Prop}
    {told : R → Prop} {before after : List (CrowdEvent Q A R Ev)} {s : σ} (hs : I s)
    {i j : ℕ} {t u : Tree Q A R} {r : R}
    (hi : (before.filterMap CrowdEvent.made ++ after.filterMap CrowdEvent.made)[i]? = some t)
    (ht : t.Ensures h I P good)
    (hwaits : ∀ r, ((Crowd.start s).run h outside before).requests[i]? ≠ some (.ret r))
    (hends : (((Crowd.start s).run h outside before).step h outside (.move i)).requests[i]?
      = some (.ret r)) (hr : good r)
    (hp : ∀ q s, p q → I s → P s → V (h q s).2 ∨ P (h q s).2)
    (hmoves : ∀ k t, .move k ∈ after → k ≠ i →
      (before.filterMap CrowdEvent.made ++ after.filterMap CrowdEvent.made)[k]? = some t → t.Only p)
    (hevents : ∀ e s, .outside e ∈ after → I s → P s → V (outside e s) ∨ P (outside e s))
    (hj : (after.filterMap CrowdEvent.made)[j]? = some u) (hu : u.Tells h I P told) :
    V ((Crowd.start s).run h outside (before ++ .move i :: after)).store ∨
      ∃ u', ((Crowd.start s).run h outside (before ++ .move i :: after)).requests[
          (before.filterMap CrowdEvent.made).length + j]? = some u' ∧
        (u' = u ∨ ∃ r, u' = .ret r ∧ told r) := by
  rw [Crowd.run, runAll_append, runAll_cons, ← Crowd.run, ← Crowd.run]
  -- up to the answer every request is what is left of it: what it ensures or spares, it still does
  obtain ⟨hI₁, hstage₁⟩ := (rely_run (V := fun _ => False) (P := I) (c := Crowd.start s)
    (fun _ _ h => h) (fun _ _ h => h)
    (fun k t => (k = i → t.Ensures h I P good) ∧ (.move k ∈ after → k ≠ i → t.Only p))
    (fun k q next s _ hs hk => .inr ⟨hI q s hs, fun hki => (hk.1 hki).2 _,
      fun hafter hki => (hk.2 hafter hki).2 _⟩)
    (fun e s _ hs => .inr (hI' e s hs)) hs fun k t hk => by
      have hk' := get_more (after.filterMap CrowdEvent.made) hk
      rw [Crowd.start, List.nil_append] at hk'
      refine ⟨?_, fun hafter hki => hmoves k t hafter hki hk'⟩
      rintro rfl
      rw [hi] at hk'
      exact Option.some.inj hk' ▸ ht).resolve_left id
  have hlength : (((Crowd.start s).run h outside before).step h outside (.move i)).requests.length
      = (before.filterMap CrowdEvent.made).length :=
    (run_length h outside _ [.move i]).trans ((run_length h outside _ before).trans (Nat.zero_add _))
  generalize (Crowd.start s).run h outside before = c at *
  have hP₁ := ensured_now hI₁ (fun t ht => (hstage₁ i t ht).1 rfl) hwaits hends hr
  have hstore : I (c.step h outside (.move i)).store := store_run hI hI' [.move i] hI₁
  rw [← hlength]
  -- from then on nothing disturbs it
  refine told_run hask houtside hI hI' (fun _ _ => True) hstore hP₁
    (fun q s hq hs hP => (hp q s hq hs hP).imp_right fun hP => ⟨trivial, hP⟩)
    (fun k t hafter hk => ?_) hevents hj hu
  rcases Nat.lt_or_ge k (c.step h outside (.move i)).requests.length with hlt | hge
  · rw [List.getElem?_append_left hlt] at hk
    by_cases hki : k = i
    · subst hki
      rw [hends] at hk
      exact Option.some.inj hk ▸ trivial
    · rw [step_others hki] at hk
      exact only_within ((hstage₁ k t hk).2 hafter hki)
  · rw [List.getElem?_append_right hge, hlength] at hk
    refine only_within (hmoves k t hafter ?_ ?_)
    · rintro rfl
      exact Nat.lt_irrefl _ (Nat.lt_of_lt_of_le (List.getElem?_eq_some_iff.mp hends).1 hge)
    · rw [List.getElem?_append_right (hlength ▸ hge)]
      exact hk

/-! What one request learns on its way, and goes on to rely on. -/

/-- Neither a question nor anything from outside undoes `P`, short of what nothing undoes. -/
structure Stable (h : Handler Q A σ) (outside : Ev → σ → σ) (V I P : σ → Prop) : Prop where
  asked : ∀ q s, I s → P s → V (h q s).2 ∨ P (h q s).2
  outside : ∀ e s, I s → P s → V (outside e s) ∨ P (outside e s)

/-- From where `P` holds the program comes to nothing but good results, relying at each question on
    what is stable and has come of the one before. -/
def Tree.Leads (h : Handler Q A σ) (outside : Ev → σ → σ) (V I : σ → Prop) (good : R → σ → Prop) :
    Tree Q A R → (σ → Prop) → Prop
  | .ret r, P => ∀ s, P s → good r s
  | .panic, _ => True
  | .ask q k, P => ∀ s, I s → P s → V (h q s).2 ∨ ∃ P', Stable h outside V I P' ∧ P' (h q s).2 ∧
      (k (h q s).1).Leads h outside V I good P'

theorem leads_map {T : Type} {good : T → σ → Prop} (f : R → T) :
    ∀ {t : Tree Q A R} {P : σ → Prop}, t.Leads h outside V I (fun r => good (f r)) P →
      (t.map f).Leads h outside V I good P
  | .ret _, _, hleads => hleads
  | .panic, _, _ => trivial
  | .ask _ _, _, hleads => fun s hI hP => (hleads s hI hP).imp_right
      fun ⟨P', hstable, hP', hrest⟩ => ⟨P', hstable, hP', leads_map f hrest⟩

/-- CONSEQUENCE: relying on more, for less. -/
theorem leads_mono {good good' : R → σ → Prop} {P P' : σ → Prop}
    (hgood : ∀ r s, good r s → good' r s) (hP : ∀ s, P' s → P s) :
    ∀ {t : Tree Q A R}, t.Leads h outside V I good P → t.Leads h outside V I good' P'
  | .ret r, hleads => fun s hs => hgood r s (hleads s (hP s hs))
  | .panic, _ => trivial
  | .ask _ _, hleads => fun s hI hs => (hleads s hI (hP s hs)).imp_right
      fun ⟨P₁, hstable, hP₁, hrest⟩ => ⟨P₁, hstable, hP₁, leads_mono hgood (fun _ h => h) hrest⟩

/-- A question asked where something stable already holds. -/
theorem leads_ask {good : R → σ → Prop} {q : Q} {k : A q → Tree Q A R}
    (hk : ∀ s, I s → P s → ∃ P', Stable h outside V I P' ∧ P' s ∧
      (k (h q s).1).Leads h outside V I good P') :
    (Tree.ask q k).Leads h outside V I good P := fun s hI hP => by
  obtain ⟨P', hstable, hP', hrest⟩ := hk s hI hP
  exact (hstable.asked q s hI hP').imp_right fun hafter => ⟨P', hstable, hafter, hrest⟩

/-- What comes to nothing but good results anyway. -/
theorem leads_all {good : R → σ → Prop} {p : R → Prop} (hgood : ∀ r s, p r → P s → good r s)
    (hP : Stable h outside V I P) :
    ∀ {t : Tree Q A R}, t.All p → t.Leads h outside V I good P
  | .ret r, hall => fun s hs => hgood r s hall hs
  | .panic, _ => trivial
  | .ask _ _, hall => leads_ask fun _ _ hs => ⟨P, hP, hs, leads_all hgood hP (hall _)⟩

/-- RUN LEMMA: however far the request gets, it relies on something stable from there. -/
theorem leads_run (hask : ∀ q s, V s → V (h q s).2) (houtside : ∀ e s, V s → V (outside e s))
    (hI : ∀ q s, I s → I (h q s).2) (hI' : ∀ e s, I s → I (outside e s)) {good : R → σ → Prop}
    {i : ℕ} (events : List (CrowdEvent Q A R Ev)) {c : Crowd Q A R σ} {t : Tree Q A R}
    (hc : I c.store) (ht : (c.requests ++ events.filterMap CrowdEvent.made)[i]? = some t)
    (hstable : Stable h outside V I P) (hP : P c.store) (hleads : t.Leads h outside V I good P) :
    V (c.run h outside events).store ∨ ∃ t' P', (c.run h outside events).requests[i]? = some t' ∧
      Stable h outside V I P' ∧ P' (c.run h outside events).store ∧
        t'.Leads h outside V I good P' := by
  induction events generalizing c t P with
  | nil =>
    rw [List.filterMap_nil, List.append_nil] at ht
    exact .inr ⟨t, P, ht, hstable, hP, hleads⟩
  | cons event events ih =>
    rw [Crowd.run, runAll_cons]
    have hlost : ∀ {c' : Crowd Q A R σ}, V c'.store → V (c'.run h outside events).store :=
      store_run hask houtside events
    generalize hc' : c.step h outside event = c'
    have hstep := step_stepped h outside c event
    rw [hc'] at hstep
    cases hstep with
    | request u =>
      refine ih hc ?_ hstable hP hleads
      dsimp only
      rw [List.append_assoc, List.singleton_append]
      exact ht
    | @asked j q k hj =>
      by_cases hij : j = i
      · subst hij
        obtain rfl := Option.some.inj ((get_more _ hj).symm.trans ht)
        rcases hleads c.store hc hP with hv | ⟨P', hstable', hP', hrest⟩
        · exact .inl (hlost hv)
        · refine ih (hI q c.store hc) ?_ hstable' hP' hrest
          dsimp only
          rw [set_more _ hj]
          exact List.getElem?_set_self (List.getElem?_eq_some_iff.mp (get_more _ hj)).1
      · rcases hstable.asked q c.store hc hP with hv | hP'
        · exact .inl (hlost hv)
        · refine ih (hI q c.store hc) ?_ hstable hP' hleads
          dsimp only
          rw [set_more _ hj, List.getElem?_set_ne hij]
          exact ht
    | idle hj => exact ih hc ht hstable hP hleads
    | outside e =>
      rcases hstable.outside e c.store hc hP with hv | hP'
      · exact .inl (hlost hv)
      · exact ih (hI' e c.store hc) ht hstable hP' hleads

end Reliance

/-! ### Requests that come in pairs -/

section Alongside

variable {R' T T' : Type}

/-- Programs that ask the same, whatever they are answered, and end in results that match. -/
inductive Tree.Alongside (M : R → R' → Prop) : Tree Q A R → Tree Q A R' → Prop
  | ret {r : R} {r' : R'} (h : M r r') : Alongside M (.ret r) (.ret r')
  | panic : Alongside M .panic .panic
  | ask {q : Q} {k : A q → Tree Q A R} {k' : A q → Tree Q A R'}
    (hk : ∀ a, Alongside M (k a) (k' a)) : Alongside M (.ask q k) (.ask q k')

theorem alongside_refl {M : R → R → Prop} (hM : ∀ r, M r r) : ∀ t : Tree Q A R, t.Alongside M t
  | .ret r => .ret (hM r)
  | .panic => .panic
  | .ask _ k => .ask fun a => alongside_refl hM (k a)

theorem alongside_map {M : T → T' → Prop} (f : R → T) (g : R' → T') {t : Tree Q A R}
    {t' : Tree Q A R'} (h : t.Alongside (fun r r' => M (f r) (g r')) t') :
    (t.map f).Alongside M (t'.map g) := by
  induction h with
  | ret h => exact .ret h
  | panic => exact .panic
  | ask _ ih => exact .ask ih

variable {M : R → R → Prop} {h : Handler Q A σ} {outside : Ev → σ → σ} {c c' : Crowd Q A R σ}

/-- Crowds with one store, whose requests come in pairs. -/
structure Crowd.Alongside (M : R → R → Prop) (c c' : Crowd Q A R σ) : Prop where
  store : c.store = c'.store
  requests : ∃ pairs : List (Tree Q A R × Tree Q A R), c.requests = pairs.map Prod.fst ∧
    c'.requests = pairs.map Prod.snd ∧ ∀ p ∈ pairs, p.1.Alongside M p.2

/-- The same event, or requests that come in a pair. -/
inductive CrowdEvent.Alongside (M : R → R → Prop) :
    CrowdEvent Q A R Ev → CrowdEvent Q A R Ev → Prop
  | request {t t' : Tree Q A R} (h : t.Alongside M t') : Alongside M (.request t) (.request t')
  | move (i : ℕ) : Alongside M (.move i) (.move i)
  | outside (e : Ev) : Alongside M (.outside e) (.outside e)

theorem alongside_step (hc : c.Alongside M c') {event event' : CrowdEvent Q A R Ev}
    (hevent : event.Alongside M event') :
    (c.step h outside event).Alongside M (c'.step h outside event') := by
  obtain ⟨hstore, pairs, hleft, hright, hpairs⟩ := hc
  cases hevent with
  | @request t t' ht =>
    refine ⟨hstore, pairs ++ [(t, t')], ?_, ?_, fun p hp => ?_⟩
    · rw [List.map_append, ← hleft]
      rfl
    · rw [List.map_append, ← hright]
      rfl
    · rcases List.mem_append.mp hp with hp | hp
      · exact hpairs p hp
      · obtain rfl := List.mem_singleton.mp hp
        exact ht
  | outside e => exact ⟨congrArg (outside e) hstore, pairs, hleft, hright, hpairs⟩
  | move i =>
    have hi := congrArg (·[i]?) hleft
    have hi' := congrArg (·[i]?) hright
    simp only [List.getElem?_map] at hi hi'
    cases hp : pairs[i]? with
    | none =>
      rw [hp] at hi hi'
      simp only [Crowd.step, hi, hi', Option.map_none]
      exact ⟨hstore, pairs, hleft, hright, hpairs⟩
    | some p =>
      rw [hp] at hi hi'
      simp only [Crowd.step, hi, hi', Option.map_some]
      have hpair := hpairs p (List.mem_of_getElem? hp)
      obtain ⟨t, t'⟩ := p
      cases hpair with
      | ret _ => exact ⟨hstore, pairs, hleft, hright, hpairs⟩
      | panic => exact ⟨hstore, pairs, hleft, hright, hpairs⟩
      | @ask q k k' hk =>
        refine ⟨congrArg (fun s => (h q s).2) hstore,
          pairs.set i (k (h q c.store).1, k' (h q c.store).1), ?_, ?_, fun p hp => ?_⟩
        · rw [List.map_set, ← hleft]
        · rw [List.map_set, ← hright, hstore]
        · rcases List.mem_or_eq_of_mem_set hp with hp | rfl
          · exact hpairs p hp
          · exact hk _

/-- RUN LEMMA: whoever asks the same is answered the same, and so is everybody else. -/
theorem alongside_run {events events' : List (CrowdEvent Q A R Ev)}
    (hevents : List.Forall₂ (CrowdEvent.Alongside M) events events') :
    ∀ {c c' : Crowd Q A R σ}, c.Alongside M c' →
      (c.run h outside events).Alongside M (c'.run h outside events') := by
  induction hevents with
  | nil => exact fun hc => hc
  | cons hevent _ ih => exact fun hc => ih (alongside_step hc hevent)

/-- CONSEQUENCE: requests end in pairs, in results that match. -/
theorem alongside_ends (hc : c.Alongside M c') (i : ℕ) :
    (∀ r, c.requests[i]? = some (.ret r) → ∃ r', c'.requests[i]? = some (.ret r') ∧ M r r') ∧
      ∀ r', c'.requests[i]? = some (.ret r') → ∃ r, c.requests[i]? = some (.ret r) ∧ M r r' := by
  obtain ⟨-, pairs, hleft, hright, hpairs⟩ := hc
  rw [hleft, hright, List.getElem?_map, List.getElem?_map]
  cases hp : pairs[i]? with
  | none => exact ⟨(by rintro r ⟨⟩), by rintro r' ⟨⟩⟩
  | some p =>
    have hpair := hpairs p (List.mem_of_getElem? hp)
    obtain ⟨t, t'⟩ := p
    refine ⟨fun r hr => ?_, fun r' hr' => ?_⟩
    · obtain rfl : t = .ret r := Option.some.inj hr
      cases hpair with
      | ret hM => exact ⟨_, rfl, hM⟩
    · obtain rfl : t' = .ret r' := Option.some.inj hr'
      cases hpair with
      | ret hM => exact ⟨_, rfl, hM⟩

end Alongside

end Schemes
