import Forkyard.Session.Attempt

/-! One job served the worker's way: a speculative pass, and while passes miss, the missing keys
    resolved by some other thread and the job retried, blocking after a failed resolve or once it
    has taken `maxSpeculativeRounds` passes. Between its passes other threads may land whatever they
    read. `retry_refines` says that none of this shows: result, diff and overlay are those of one
    blocking pass.

        pass ──missed──▶ park, resolve ──▶ unblock ──▶ pass …
          └──done──▶ reply, one commit -/

namespace Forkyard

open Schemes

variable {F E R : Type}

/-! ### A job as a read program -/

/-- A job at a given block: what it reads, and from what it read its reply and the diff to
    commit. -/
abbrev Task (E R : Type) := BlockEnv → ReadProg E (R × Option EvmState)

/-- Write a diff, if there is one to write. -/
def Session.write (s : Session F) : Option EvmState → Session F
  | some changes => s.commit changes
  | none => s

/-- One pass of a task, its diff committed only when the pass is done. -/
def Task.pass [DecidableEq F] (up : F → Upstream E) (task : Task E R) (blocking : Bool) :
    Session F × Fetch F → Pass (R × Option EvmState) × (Session F × Fetch F)
  | (s, w) =>
    match attempt up blocking (task s.blockEnv) (s, w) with
    | (.done outcome, s, w) => (.done outcome, s.write outcome.2, w)
    | (.missed keys, s, w) => (.missed keys, s, w)
    | (.panicked, s, w) => (.panicked, s, w)

/-- The task on a session with upstream right below it: nothing shared, nothing speculative. -/
def Task.serve (up : F → Upstream E) (task : Task E R) (s : Session F) :
    Option (R × Option EvmState) × Session F :=
  match (task s.blockEnv).run (Session.answer (Upstream.db up)) (s, ()) with
  | (some outcome, s, _) => (some outcome, s.write outcome.2)
  | (none, s, _) => (none, s)

/-- The task that `execute` performs. -/
def executeTask (evm : Evm E) (tx : TxEnv) (commit disableChecks : Bool) :
    Task E (Except SessionError ExecutionResult) := fun blockEnv =>
  (executePass evm tx disableChecks blockEnv).map fun outcome =>
    (outcome.map Prod.fst, if commit then outcome.toOption.map Prod.snd else none)

theorem attempt_map [DecidableEq F] {S : Type} (up : F → Upstream E) (blocking : Bool) (g : R → S)
    (f : ReadProg E R) (s : Session F) (w : Fetch F) :
    attempt up blocking (f.map g) (s, w)
      = ((attempt up blocking f (s, w)).1.map g, (attempt up blocking f (s, w)).2) := by
  cases blocking with
  | true =>
    simp only [attempt, if_true, Tree.run_map]
    rcases f.run (Session.answer (ReadThrough.db up)) (s, w) with ⟨_ | result, sw⟩ <;> rfl
  | false =>
    simp only [attempt, Bool.false_eq_true, if_false, Fetch.speculate, Tree.run_map]
    rcases f.run (Session.answer (ReadThrough.db up))
      (s.beginSpeculation, { w with misses := some [] }) with ⟨_ | result, s', w'⟩
    · rfl
    · simp only [Option.map_some]
      by_cases hempty : (sortDedup (w'.misses.getD [])).isEmpty = true
      · simp only [if_pos hempty]; rfl
      · simp only [if_neg hempty]; rfl

/-- `execute` is a pass of its task. -/
theorem execute_pass [DecidableEq F] (up : F → Upstream E) (evm : Evm E) (tx : TxEnv)
    (commit disableChecks blocking : Bool) (s : Session F) (w : Fetch F) :
    execute up evm tx commit disableChecks blocking (s, w)
      = (((executeTask evm tx commit disableChecks).pass up blocking (s, w)).1.map Prod.fst,
        ((executeTask evm tx commit disableChecks).pass up blocking (s, w)).2) := by
  simp only [execute, Task.pass, executeTask, attempt_map]
  rcases attempt up blocking (executePass evm tx disableChecks s.blockEnv) (s, w) with
    ⟨⟨e | ⟨result, state⟩⟩ | keys | -, s', w'⟩
  · cases commit <;> rfl
  · cases commit <;> rfl
  · rfl
  · rfl

/-! ### Serving a job -/

/-- Speculative passes one job may take before it is run blocking instead. -/
def maxSpeculativeRounds : ℕ := 16

/-- What other threads land before each of the next reads: always what upstream answered them. -/
abbrev Landed (up : F → Upstream E) :=
  { landed : List (F → ReadCache) // ∀ newer ∈ landed, ∀ f, (newer f).Agrees (up f) }

def Landed.nothing {up : F → Upstream E} : Landed up := ⟨[], fun _ h => absurd h List.not_mem_nil⟩

/-- What comes of a resolve: whether it failed, and what lands, from it or from anyone, during the
    next pass. -/
structure Resolved (up : F → Upstream E) where
  failed : Bool
  landed : Landed up

/-- A job served: the passes it took (`true` a blocking one), every diff it wrote, its result
    (`none` if it panicked), and what it left behind. -/
structure Served (F R : Type) where
  passes : List Bool
  committed : List EvmState
  result : Option R
  state : Session F × Fetch F

section Serving

variable [DecidableEq F]

/-- Serve a job from its next pass on. `rounds` counts the passes that missed; `resolve` is what the
    resolver thread makes of the keys of each. -/
def retry (up : F → Upstream E) (task : Task E R) (resolve : ℕ → List StateKey → Resolved up) :
    ℕ → ℕ → Bool → Session F × Fetch F → Option (Served F R)
  | 0, _, _, _ => none
  | fuel + 1, rounds, blocking, sw =>
    match task.pass up blocking sw with
    | (.done outcome, sw) => some ⟨[blocking], outcome.2.toList, some outcome.1, sw⟩
    | (.panicked, sw) => some ⟨[blocking], [], none, sw⟩
    | (.missed keys, s, w) =>
      -- `park` counts the pass, `unblock` decides how to run the next
      let rounds := rounds + 1
      let resolved := resolve rounds keys
      (retry up task resolve fuel rounds (resolved.failed || decide (maxSpeculativeRounds ≤ rounds))
        (s, { w with landed := resolved.landed.1 })).map fun served =>
          { served with passes := blocking :: served.passes }

/-- A job from its arrival on: one pass more than there may be speculative ones is enough. -/
def serveJob (up : F → Upstream E) (task : Task E R) (resolve : ℕ → List StateKey → Resolved up)
    (sw : Session F × Fetch F) : Option (Served F R) :=
  retry up task resolve (maxSpeculativeRounds + 1) 0 false sw

end Serving

/-! ### One pass -/

variable {up : F → Upstream E} {task : Task E R} {s : Session F} {w : Fetch F}

/-- How a pass can end: as the task is served over upstream, or with the session as it was. -/
inductive Passed (up : F → Upstream E) (task : Task E R) (s : Session F) (blocking : Bool) :
    Pass (R × Option EvmState) → Session F → Prop
  | done {outcome : R × Option EvmState} {s' : Session F}
      (hserve : task.serve up s = (some outcome, s')) :
      Passed up task s blocking (.done outcome) s'
  | missed {keys : List StateKey} (hb : blocking = false) :
      Passed up task s blocking (.missed keys) s
  | unwound (hb : blocking = false) (hp : ¬ (task s.blockEnv).NoPanic) :
      Passed up task s blocking .panicked s
  | panicked {s' : Session F} (hb : blocking = true) (hserve : task.serve up s = (none, s')) :
      Passed up task s blocking .panicked s'

theorem pass_passed [DecidableEq F] (task : Task E R) (blocking : Bool) (hs : s.readLog = none)
    (hw : ReadThrough.Idle up w) :
    Passed up task s blocking (task.pass up blocking (s, w)).1 (task.pass up blocking (s, w)).2.1 ∧
      ReadThrough.Idle up (task.pass up blocking (s, w)).2.2 := by
  have hattempt := attempt_attempted up blocking (task s.blockEnv) hs hw
  rcases h : attempt up blocking (task s.blockEnv) (s, w) with ⟨p, s', w'⟩
  rw [h] at hattempt
  obtain ⟨hended, hidle⟩ := hattempt
  simp only [Task.pass, h]
  cases hended with
  | done hrun => exact ⟨.done (by simp only [Task.serve, hrun]), hidle⟩
  | missed hb => exact ⟨.missed hb, hidle⟩
  | unwound hb hp => exact ⟨.unwound hb hp, hidle⟩
  | panicked hb hrun => exact ⟨.panicked hb (by simp only [Task.serve, hrun]), hidle⟩

/-- A blocking pass is the task served over upstream. -/
theorem pass_blocking {p : Pass (R × Option EvmState)} {s' : Session F}
    (h : Passed up task s true p s') :
    (∃ outcome, p = .done outcome ∧ task.serve up s = (some outcome, s')) ∨
      (p = .panicked ∧ task.serve up s = (none, s')) := by
  cases h with
  | done hserve => exact .inl ⟨_, rfl, hserve⟩
  | missed hb => exact absurd hb (by decide)
  | unwound hb _ => exact absurd hb (by decide)
  | panicked _ hserve => exact .inr ⟨rfl, hserve⟩

/-! ### All passes -/

/-- The passes of a job: at most `limit` speculative ones, then perhaps a blocking one. -/
def WithinRounds (limit : ℕ) (passes : List Bool) : Prop :=
  ∃ k ≤ limit, passes = List.replicate k false ∨ passes = List.replicate k false ++ [true]

/-- What a job served from `s` leaves: what the task over upstream leaves, or, where a speculative
    pass panicked, the session as it was. -/
inductive Ended (up : F → Upstream E) (task : Task E R) (s : Session F) : Served F R → Prop
  | done {passes : List Bool} {outcome : R × Option EvmState} {s' : Session F} {w' : Fetch F}
      (hserve : task.serve up s = (some outcome, s')) :
      Ended up task s ⟨passes, outcome.2.toList, some outcome.1, s', w'⟩
  | unwound {passes : List Bool} {w' : Fetch F} (hp : ¬ (task s.blockEnv).NoPanic) :
      Ended up task s ⟨passes, [], none, s, w'⟩
  | panicked {passes : List Bool} {s' : Session F} {w' : Fetch F}
      (hserve : task.serve up s = (none, s')) : Ended up task s ⟨passes, [], none, s', w'⟩

theorem within_cons {limit : ℕ} {passes : List Bool} (h : WithinRounds limit passes) :
    WithinRounds (limit + 1) (false :: passes) := by
  obtain ⟨k, hk, hpasses⟩ := h
  refine ⟨k + 1, by omega, hpasses.imp (fun h => ?_) fun h => ?_⟩
  · rw [h, List.replicate_succ]
  · rw [h, List.replicate_succ, List.cons_append]

theorem ended_cons {blocking : Bool} {served : Served F R} (h : Ended up task s served) :
    Ended up task s { served with passes := blocking :: served.passes } := by
  cases h with
  | done hserve => exact .done hserve
  | unwound hp => exact .unwound hp
  | panicked hserve => exact .panicked hserve

/-- RUN LEMMA: with one pass of fuel for each round left and one more, a job is served, in no more
    passes than that, and ends as `Ended` says. -/
theorem retry_ended [DecidableEq F] (resolve : ℕ → List StateKey → Resolved up)
    (hs : s.readLog = none) :
    ∀ (left : ℕ) (rounds : ℕ) (blocking : Bool) (w : Fetch F), ReadThrough.Idle up w →
      rounds + left = maxSpeculativeRounds → (blocking = false → 0 < left) →
      ∃ served, retry up task resolve (left + 1) rounds blocking (s, w) = some served ∧
        WithinRounds left served.passes ∧ Ended up task s served ∧
        ReadThrough.Idle up served.state.2 := by
  intro left
  induction left with
  | zero =>
    intro rounds blocking w hw hrounds hleft
    obtain ⟨hpassed, hidle⟩ := pass_passed task blocking hs hw
    rcases hp : task.pass up blocking (s, w) with ⟨p, s', w'⟩
    rw [hp] at hpassed hidle
    have hb : blocking = true := by
      cases blocking with
      | true => rfl
      | false => exact absurd (hleft rfl) (by decide)
    subst hb
    simp only [retry, hp]
    rcases pass_blocking hpassed with ⟨outcome, rfl, hserve⟩ | ⟨rfl, hserve⟩
    · exact ⟨_, rfl, ⟨0, le_refl 0, .inr rfl⟩, .done hserve, hidle⟩
    · exact ⟨_, rfl, ⟨0, le_refl 0, .inr rfl⟩, .panicked hserve, hidle⟩
  | succ left ih =>
    intro rounds blocking w hw hrounds hleft
    obtain ⟨hpassed, hidle⟩ := pass_passed task blocking hs hw
    rcases hp : task.pass up blocking (s, w) with ⟨p, s', w'⟩
    rw [hp] at hpassed hidle
    have hone : WithinRounds (left + 1) [blocking] := by
      cases blocking with
      | true => exact ⟨0, by omega, .inr rfl⟩
      | false => exact ⟨1, by omega, .inl rfl⟩
    rw [retry, hp]
    cases hpassed with
    | done hserve => exact ⟨_, rfl, hone, .done hserve, hidle⟩
    | unwound hb hpanic => exact ⟨_, rfl, hone, .unwound hpanic, hidle⟩
    | panicked hb hserve => exact ⟨_, rfl, hone, .panicked hserve, hidle⟩
    | @missed keys hb =>
      subst hb
      -- the retry starts from the session as it was, with one round less to go
      obtain ⟨served, hretry, hwithin, hended, hidle'⟩ := ih (rounds + 1)
        ((resolve (rounds + 1) keys).failed || decide (maxSpeculativeRounds ≤ rounds + 1))
        { w' with landed := (resolve (rounds + 1) keys).landed.1 }
        ⟨⟨hidle.coherent.caches, (resolve (rounds + 1) keys).landed.2⟩, hidle.misses⟩ (by omega)
        fun h => by simp at h; omega
      simp only [hretry, Option.map_some]
      exact ⟨_, rfl, within_cons hwithin, ended_cons hended, hidle'⟩

/-- A job is always served, whatever the resolver threads do. -/
theorem serveJob_ended [DecidableEq F] (task : Task E R) (resolve : ℕ → List StateKey → Resolved up)
    (hs : s.readLog = none) (hw : ReadThrough.Idle up w) :
    ∃ served, serveJob up task resolve (s, w) = some served ∧
      WithinRounds maxSpeculativeRounds served.passes ∧ Ended up task s served ∧
      ReadThrough.Idle up served.state.2 :=
  retry_ended resolve hs maxSpeculativeRounds 0 false w hw (Nat.zero_add _) fun _ => by decide

/-! ### The main result -/

variable (up) in
theorem serve_noPanic (hp : (task s.blockEnv).NoPanic) :
    ∃ outcome s', task.serve up s = (some outcome, s') := by
  obtain ⟨outcome, hrun⟩ := Tree.run_noPanic (Session.answer (Upstream.db up)) (s, ()) hp
  rcases h : (task s.blockEnv).run (Session.answer (Upstream.db up)) (s, ()) with ⟨o, s', u⟩
  rw [h] at hrun
  simp only at hrun
  subst hrun
  exact ⟨outcome, s'.write outcome.2, by simp only [Task.serve, h]⟩

/-- CORRECT: for any program without a panic, whatever the caches hold at first, whatever lands in
    them and however the resolves go, a job is served in at most `maxSpeculativeRounds` speculative
    passes and one blocking one, with the result, the one committed diff and the session that a
    single blocking pass gives, and no made-up value in a cache. -/
theorem retry_refines [DecidableEq F] (task : Task E R) (resolve : ℕ → List StateKey → Resolved up)
    (hs : s.readLog = none) (hw : ReadThrough.Idle up w) (hp : (task s.blockEnv).NoPanic) :
    ∃ served outcome, serveJob up task resolve (s, w) = some served ∧
      WithinRounds maxSpeculativeRounds served.passes ∧
      (task.pass up true (s, w)).1 = .done outcome ∧
      served.result = some outcome.1 ∧ served.committed = outcome.2.toList ∧
      served.state.1 = (task.pass up true (s, w)).2.1 ∧ served.state.2.Coherent up := by
  obtain ⟨served, hserved, hwithin, hended, hidle⟩ := serveJob_ended task resolve hs hw
  obtain ⟨outcome, s', hserve⟩ := serve_noPanic up hp
  obtain ⟨hpassed, -⟩ := pass_passed task true hs hw
  have hblocking : (task.pass up true (s, w)).1 = .done outcome ∧
      (task.pass up true (s, w)).2.1 = s' := by
    rcases pass_blocking hpassed with ⟨outcome', hdone, hserve'⟩ | ⟨-, hserve'⟩
    · rw [hserve] at hserve'
      obtain ⟨hout, hs'⟩ := Prod.mk.inj hserve'
      exact ⟨hdone.trans (congrArg Pass.done (Option.some.inj hout).symm), hs'.symm⟩
    · rw [hserve] at hserve'
      cases hserve'
  refine ⟨served, outcome, hserved, hwithin, hblocking.1, ?_⟩
  rw [hblocking.2]
  cases hended with
  | done hserve' =>
    rw [hserve] at hserve'
    obtain ⟨hout, hs'⟩ := Prod.mk.inj hserve'
    obtain rfl := Option.some.inj hout
    exact ⟨rfl, rfl, hs'.symm, hidle.coherent⟩
  | unwound hpanic => exact absurd hp hpanic
  | panicked hserve' => rw [hserve] at hserve'; cases hserve'

/-- A slot that upstream has 9 in is read with every resolve failing: the made-up zero of the first
    pass is in no reply and in no cache. -/
theorem retry_refines_failing :
    let up : Unit → Upstream String := fun _ =>
      { Upstream.vacant "missing" with storage := fun _ _ => .ok 9 }
    let task : Task String (Except (SessionDbError String) StorageValue) :=
      fun _ => (ask (.storage 0xa 7)).map fun answer => (answer, none)
    ∃ served,
      serveJob up task (fun _ _ => ⟨true, .nothing⟩) (freshSession, .cold) = some served ∧
      WithinRounds maxSpeculativeRounds served.passes ∧ served.result = some (.ok 9) ∧
      served.committed = [] ∧
      served.state.1 = (task.pass up true (freshSession, .cold)).2.1 ∧
      served.state.2.Coherent up := by
  intro up task
  obtain ⟨served, outcome, hserved, hwithin, hdone, hresult, hcommitted, hstate, hcoherent⟩ :=
    retry_refines task (fun _ _ => ⟨true, .nothing⟩) (rfl : freshSession.readLog = none)
      (ReadThrough.idle_cold up) (Tree.noPanic_map fun _ => trivial)
  have hblocking : (task.pass up true (freshSession, .cold)).1 = .done (.ok 9, none) := rfl
  obtain rfl := Pass.done.inj (hblocking.symm.trans hdone)
  exact ⟨served, hserved, hwithin, hresult, hcommitted, hstate, hcoherent⟩

end Forkyard
