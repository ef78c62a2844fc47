import Mathlib.Tactic

/-! Adaptive programs that only ask questions: a finite-depth decision tree in which every next
    question may depend on all answers so far, and which ends in a result or in a panic. A handler
    answers questions out of a state it may change. The rules below run a tree against a handler,
    carry an invariant of the handler through a run, and compare runs against two handlers.

        ask q ──▶ handler ──answer──▶ ask q' ──▶ … ──▶ ret r
                                                 └──▶ panic -/

namespace Schemes

/-- A program that asks questions `q : Q`, each answered by a value of type `A q`. -/
inductive Tree (Q : Type) (A : Q → Type) (R : Type) : Type where
  | ret (r : R)
  | panic
  | ask (q : Q) (k : A q → Tree Q A R)

/-- Answers a question out of a state, and the state it leaves. -/
abbrev Handler (Q : Type) (A : Q → Type) (σ : Type) := (q : Q) → σ → A q × σ

namespace Tree

variable {Q : Type} {A : Q → Type} {R S σ τ : Type}

/-- Run one program after another; a panic in the first skips the second. -/
def bind : Tree Q A R → (R → Tree Q A S) → Tree Q A S
  | .ret r, f => f r
  | .panic, _ => .panic
  | .ask q k, f => .ask q fun a => (k a).bind f

def map (f : R → S) (t : Tree Q A R) : Tree Q A S := t.bind fun r => .ret (f r)

/-- One question, its answer the result. -/
def query (q : Q) : Tree Q A (A q) := .ask q .ret

/-- Run a program; `none` is a panic, with the state it unwound from. -/
def run (h : Handler Q A σ) : Tree Q A R → σ → Option R × σ
  | .ret r, s => (some r, s)
  | .panic, s => (none, s)
  | .ask q k, s => (k (h q s).1).run h (h q s).2

/-- Evaluate against fixed answers, with no state at all. -/
def eval (answer : (q : Q) → A q) : Tree Q A R → Option R
  | .ret r => some r
  | .panic => none
  | .ask q k => (k (answer q)).eval answer

/-- The program with everything it was answered beside its result. -/
def traced : Tree Q A R → Tree Q A (R × List (Σ q, A q))
  | .ret r => .ret (r, [])
  | .panic => .panic
  | .ask q k => .ask q fun a => (k a).traced.map fun out => (out.1, ⟨q, a⟩ :: out.2)

/-- Some question the program comes to when answered by `answer` satisfies `P`. -/
def Asks (P : Q → Prop) (answer : (q : Q) → A q) : Tree Q A R → Prop
  | .ret _ => False
  | .panic => False
  | .ask q k => P q ∨ (k (answer q)).Asks P answer

/-- No path of the program, whatever it is answered, ends in a panic. -/
def NoPanic : Tree Q A R → Prop
  | .ret _ => True
  | .panic => False
  | .ask _ k => ∀ a, (k a).NoPanic

/-- Whatever the program is answered, a result it comes to satisfies `P`. -/
def All (P : R → Prop) : Tree Q A R → Prop
  | .ret r => P r
  | .panic => True
  | .ask _ k => ∀ a, (k a).All P

theorem all_true : ∀ t : Tree Q A R, t.All fun _ => True
  | .ret _ => trivial
  | .panic => trivial
  | .ask _ k => fun a => all_true (k a)

theorem all_bind {P : R → Prop} {P' : S → Prop} {f : R → Tree Q A S}
    (hf : ∀ r, P r → (f r).All P') :
    ∀ {t : Tree Q A R}, t.All P → (t.bind f).All P'
  | .ret r, h => hf r h
  | .panic, _ => trivial
  | .ask _ _, h => fun a => all_bind hf (h a)

theorem all_map {P : R → Prop} {P' : S → Prop} {f : R → S} (hf : ∀ r, P r → P' (f r))
    {t : Tree Q A R} (h : t.All P) : (t.map f).All P' :=
  all_bind hf h

theorem all_mono {P P' : R → Prop} (h : ∀ r, P r → P' r) :
    ∀ {t : Tree Q A R}, t.All P → t.All P'
  | .ret r, hall => h r hall
  | .panic, _ => trivial
  | .ask _ _, hall => fun a => all_mono h (hall a)

theorem run_all {P : R → Prop} (h : Handler Q A σ) : ∀ {t : Tree Q A R} {s : σ} {r : R}, t.All P →
    (t.run h s).1 = some r → P r
  | .ret _, _, _, hall, hrun => Option.some.inj hrun ▸ hall
  | .panic, _, _, _, hrun => by cases hrun
  | .ask q _, s, _, hall, hrun => run_all h (hall (h q s).1) hrun

theorem map_map {T : Type} (g : S → T) (f : R → S) : ∀ t : Tree Q A R,
    (t.map f).map g = t.map fun r => g (f r)
  | .ret _ => rfl
  | .panic => rfl
  | .ask q k => congrArg (Tree.ask q) (funext fun a => map_map g f (k a))

/-- Tracing changes nothing but the result's form. -/
theorem traced_map_fst : ∀ t : Tree Q A R, t.traced.map Prod.fst = t
  | .ret _ => rfl
  | .panic => rfl
  | .ask q k => congrArg (Tree.ask q) (funext fun a =>
      (map_map Prod.fst _ (k a).traced).trans (traced_map_fst (k a)))

theorem eval_bind (answer : (q : Q) → A q) (f : R → Tree Q A S) : ∀ t : Tree Q A R,
    (t.bind f).eval answer = (t.eval answer).bind fun r => (f r).eval answer
  | .ret _ => rfl
  | .panic => rfl
  | .ask q k => eval_bind answer f (k (answer q))

theorem eval_map (answer : (q : Q) → A q) (f : R → S) : ∀ t : Tree Q A R,
    (t.map f).eval answer = (t.eval answer).map f
  | .ret _ => rfl
  | .panic => rfl
  | .ask q k => eval_map answer f (k (answer q))

/-- A finished trace holds a question with `P` iff the program asks one. -/
theorem traced_asks {P : Q → Prop} {answer : (q : Q) → A q} : ∀ {t : Tree Q A R} {r : R}
    {reads : List (Σ q, A q)}, t.traced.eval answer = some (r, reads) →
    (∀ read ∈ reads, read.2 = answer read.1) ∧ ((∃ read ∈ reads, P read.1) ↔ t.Asks P answer)
  | .ret _, _, _, h => by
    obtain ⟨-, rfl⟩ := Prod.mk.inj (Option.some.inj h)
    exact ⟨fun _ h => absurd h List.not_mem_nil, by simp [Asks]⟩
  | .ask q k, r, reads, h => by
    simp only [traced, eval, eval_map] at h
    obtain ⟨⟨r', rest⟩, hk, hout⟩ := Option.map_eq_some_iff.mp h
    obtain ⟨rfl, rfl⟩ := Prod.mk.inj hout
    obtain ⟨hanswers, hasks⟩ := traced_asks hk
    refine ⟨fun read hread => ?_, ?_⟩
    · rcases List.mem_cons.mp hread with rfl | hread
      · rfl
      · exact hanswers read hread
    · rw [Asks, ← hasks]
      simp

theorem noPanic_bind {f : R → Tree Q A S} (hf : ∀ r, (f r).NoPanic) : ∀ {t : Tree Q A R},
    t.NoPanic → (t.bind f).NoPanic
  | .ret r, _ => hf r
  | .panic, h => h.elim
  | .ask _ _, h => fun a => noPanic_bind hf (h a)

theorem eval_all {P : R → Prop} (answer : (q : Q) → A q) : ∀ {t : Tree Q A R} {r : R}, t.All P →
    t.eval answer = some r → P r
  | .ret _, _, hall, heval => Option.some.inj heval ▸ hall
  | .panic, _, _, heval => by cases heval
  | .ask q _, _, hall, heval => eval_all answer (hall (answer q)) heval

theorem run_map (h : Handler Q A σ) (f : R → S) : ∀ (t : Tree Q A R) (s : σ),
    (t.map f).run h s = ((t.run h s).1.map f, (t.run h s).2)
  | .ret _, _ => rfl
  | .panic, _ => rfl
  | .ask q k, s => run_map h f (k (h q s).1) (h q s).2

theorem noPanic_map {f : R → S} {t : Tree Q A R} (h : t.NoPanic) : (t.map f).NoPanic :=
  noPanic_bind (f := fun r => .ret (f r)) (fun _ => trivial) h

theorem run_noPanic (h : Handler Q A σ) : ∀ {t : Tree Q A R} (s : σ), t.NoPanic →
    ∃ r, (t.run h s).1 = some r
  | .ret r, _, _ => ⟨r, rfl⟩
  | .panic, _, hn => hn.elim
  | .ask q _, s, hn => run_noPanic h (h q s).2 (hn (h q s).1)

/-- Only a program with a panic in it panics. -/
theorem not_noPanic {h : Handler Q A σ} {t : Tree Q A R} {s s' : σ}
    (hrun : t.run h s = (none, s')) :
    ¬ t.NoPanic := by
  intro hp
  obtain ⟨r, hr⟩ := run_noPanic h s hp
  rw [hrun] at hr
  cases hr

/-- INVARIANT RULE: what every answer keeps, a run keeps. -/
theorem run_inv {h : Handler Q A σ} {P : σ → Prop} (hP : ∀ q s, P s → P (h q s).2) :
    ∀ (t : Tree Q A R) (s : σ), P s → P (t.run h s).2
  | .ret _, _, hs => hs
  | .panic, _, hs => hs
  | .ask q k, s, hs => run_inv hP (k (h q s).1) (h q s).2 (hP q s hs)

/-- SIMULATION RULE: two handlers that answer alike from related states give one result and leave
    related states. -/
theorem run_sim {h : Handler Q A σ} {g : Handler Q A τ} {P : σ → τ → Prop}
    (hP : ∀ q s t, P s t → (h q s).1 = (g q t).1 ∧ P (h q s).2 (g q t).2) :
    ∀ (p : Tree Q A R) (s : σ) (t : τ), P s t →
      (p.run h s).1 = (p.run g t).1 ∧ P (p.run h s).2 (p.run g t).2
  | .ret _, _, _, hs => ⟨rfl, hs⟩
  | .panic, _, _, hs => ⟨rfl, hs⟩
  | .ask q k, s, t, hs => by
    obtain ⟨ha, hs'⟩ := hP q s t hs
    simp only [run]
    rw [ha]
    exact run_sim hP (k (g q t).1) (h q s).2 (g q t).2 hs'

/-- EVALUATION RULE: a handler that always answers as `answer` does is that answer function. -/
theorem run_eval {h : Handler Q A σ} {answer : (q : Q) → A q} {P : σ → Prop}
    (hP : ∀ q s, P s → (h q s).1 = answer q ∧ P (h q s).2) :
    ∀ (p : Tree Q A R) (s : σ), P s → (p.run h s).1 = p.eval answer ∧ P (p.run h s).2
  | .ret _, _, hs => ⟨rfl, hs⟩
  | .panic, _, hs => ⟨rfl, hs⟩
  | .ask q k, s, hs => by
    obtain ⟨ha, hs'⟩ := hP q s hs
    simp only [run, eval]
    rw [ha]
    exact run_eval hP (k (answer q)) (h q s).2 hs'

/-- GUESSING RULE: a handler that may guess. While `h` has made no guess (`clean`) it answers as
    `g` does; once it has guessed it stays so. Then a run of `h` that ends clean is a run of `g`. -/
theorem run_clean {h : Handler Q A σ} {g : Handler Q A τ} {C : σ → Prop} {P : σ → τ → Prop}
    (hstep : ∀ q s t, P s t → C (h q s).2 → (h q s).1 = (g q t).1 ∧ P (h q s).2 (g q t).2)
    (hback : ∀ q s, C (h q s).2 → C s) :
    ∀ (p : Tree Q A R) (s : σ) (t : τ), P s t → C (p.run h s).2 →
      (p.run h s).1 = (p.run g t).1 ∧ P (p.run h s).2 (p.run g t).2
  | .ret _, _, _, hs, _ => ⟨rfl, hs⟩
  | .panic, _, _, hs, _ => ⟨rfl, hs⟩
  | .ask q k, s, t, hs, hc => by
    have hnow : C (h q s).2 := by
      by_contra hn
      have hkeep : ¬ C ((k (h q s).1).run h (h q s).2).2 :=
        run_inv (P := fun s => ¬ C s) (fun q s hs hc => hs (hback q s hc)) _ _ hn
      exact hkeep hc
    obtain ⟨ha, hs'⟩ := hstep q s t hs hnow
    simp only [run] at hc ⊢
    rw [ha] at hc ⊢
    exact run_clean hstep hback (k (g q t).1) (h q s).2 (g q t).2 hs' hc

end Tree

end Schemes
