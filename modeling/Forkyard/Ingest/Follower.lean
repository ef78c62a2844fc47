import Forkyard.Session.Manager

/-! `ChainTipFollower::run`, which moves a manager to new blocks. At every tick it polls upstream
    for the latest block and, when that has another number than the last one it installed, forks
    upstream anew and installs whatever block that fork landed on. The two queries are answered one
    after the other, by any node behind the same URL. Sessions go on being opened all the while,
    each at the block env it finds behind the manager's lock.

        sleep ──tick──▶ poll ──Ok, another number──▶ fork ──Ok(fork, env)──▶ refresh_fallback
                         ├──Ok, same number──▶ sleep   └──Err──▶ sleep
                         └──Err──▶ sleep

    The comparison is `==`, of the poll's number alone: the number can go down as well as up. -/

namespace Forkyard

open Schemes

variable {F E : Type}

/-- The follower and the manager it refreshes. -/
structure Following (F : Type) where
  lobby : Lobby F
  /-- `last_seen_number` -/
  lastSeen : U256
  stopped : Bool

/-- A tick with what upstream answers to the poll, and to the re-fork should it come to that; the
    stop signal; a session asked for, or a lock taken, by any thread. -/
inductive TipEvent (F E : Type) where
  | tick (poll : Except E BlockEnv) (refork : Except E (F × BlockEnv))
  | stop
  | fork
  | restore (blockNumber : UInt64) (state : SessionState)
  | access (i : ℕ)

def Call.isRefresh : Call F → Bool
  | .refresh .. => true
  | _ => false

namespace Following

/-- The follower starts on a manager that nothing else refreshes. -/
def start (fallback : F) (base : BaseSnapshot) (blockEnv : BlockEnv) : Following F :=
  ⟨.start fallback base blockEnv, blockEnv.number, false⟩

/-- The loop is at its `select!`: not stopped, and its last `refresh_fallback` has returned. -/
def sleeping (s : Following F) : Bool := !s.stopped && !s.lobby.calls.any Call.isRefresh

/-- One tick of the loop. -/
def tick (s : Following F) (poll : Except E BlockEnv) (refork : Except E (F × BlockEnv)) :
    Following F :=
  match poll with
  | .ok tip =>
    if tip.number = s.lastSeen then s
    else
      match refork with
      | .ok (fork, blockEnv) =>
        { s with lastSeen := blockEnv.number, lobby := s.lobby.step (.refresh fork blockEnv) }
      | .error _ => s
  | .error _ => s

def step (s : Following F) : TipEvent F E → Following F
  | .tick poll refork => if s.sleeping then s.tick poll refork else s
  | .stop => if s.sleeping then { s with stopped := true } else s
  | .fork => { s with lobby := s.lobby.step .fork }
  | .restore blockNumber state => { s with lobby := s.lobby.step (.restore blockNumber state) }
  | .access i => { s with lobby := s.lobby.step (.access i) }

/-- The block numbers installed so far, the manager's initial one first. -/
def numbers (s : Following F) : List ℕ := s.lobby.installed.map fun i => i.blockEnv.number.toNat

/-- The block numbers of the sessions opened so far, in the order they were opened. -/
def openedAt (s : Following F) : List ℕ := s.lobby.opened.map fun t => t.blockEnv.number.toNat

/-- The tip has only moved forward: each installed number is above the ones before it, and no
    session was opened at an older block than an earlier one. -/
structure Forward (s : Following F) : Prop where
  numbers : s.numbers.Pairwise (· < ·)
  openedAt : s.openedAt.Pairwise (· ≤ ·)

/-- Where the poll answers another number than the last one seen, and the re-fork succeeds, it lands
    on a block above it. -/
def Advances (s : Following F) : TipEvent F E → Prop
  | .tick (.ok tip) (.ok (_, blockEnv)) =>
    s.sleeping → tip.number ≠ s.lastSeen → s.lastSeen.toNat < blockEnv.number.toNat
  | _ => True

end Following

/-! ### What one lock does -/

/-- A lock moves the manager's block env only to the one of the refresh that takes it, and opens a
    session only at the block env it finds there. -/
structure Accessed (manager : SessionManager F) (call call' : Call F)
    (manager' : SessionManager F) (opened : List (Session F)) : Prop where
  blockEnv : manager'.blockEnv.value = manager.blockEnv.value ∨
    ∃ writer fallback, call = .refresh writer fallback manager'.blockEnv.value .blockEnv
  refresh : ∀ writer fallback blockEnv next, call' = .refresh writer fallback blockEnv next →
    ∃ next', call = .refresh writer fallback blockEnv next'
  opened : opened = [] ∨ ∃ s, opened = [s] ∧ s.blockEnv = manager.blockEnv.value ∧
    manager' = manager

theorem accessed (manager : SessionManager F) (call : Call F) :
    Accessed manager call (call.access manager).1 (call.access manager).2.1
      (call.access manager).2.2 := by
  cases call with
  | refresh writer fallback blockEnv next =>
    refine ⟨?_, fun _ _ _ _ h => ?_, ?_⟩
    · cases next with
      | blockEnv => exact .inr ⟨_, _, rfl⟩
      | _ => exact .inl rfl
    · cases next <;> cases h
      · exact ⟨_, rfl⟩
      · exact ⟨_, rfl⟩
    · cases next <;> exact .inl rfl
  | restore blockNumber state =>
    refine ⟨.inl rfl, fun _ _ _ _ h => ?_, .inl rfl⟩
    simp only [Call.access] at h
    split at h <;> cases h
  | fork seed next =>
    refine ⟨?_, fun _ _ _ _ h => ?_, ?_⟩
    · cases next <;> exact .inl rfl
    · cases next <;> cases h
    · cases next with
      | blockEnv base fallback =>
        refine .inr ⟨_, rfl, ?_, rfl⟩
        cases seed <;> rfl
      | _ => exact .inl rfl
  | returned =>
    refine ⟨.inl rfl, fun _ _ _ _ h => ?_, .inl rfl⟩
    cases h

/-- Whatever a lock opens is opened at the block it finds. -/
theorem Accessed.openedAt {manager manager' : SessionManager F} {call call' : Call F}
    {opened : List (Session F)} (h : Accessed manager call call' manager' opened) :
    ∀ n ∈ opened.map fun t => t.blockEnv.number.toNat,
      n = manager.blockEnv.value.number.toNat := by
  intro n hn
  rcases h.opened with rfl | ⟨t, rfl, henv, -⟩
  · cases hn
  · rw [List.map_singleton, List.mem_singleton] at hn
    rw [hn, henv]

theorem Accessed.opened_ordered {manager manager' : SessionManager F} {call call' : Call F}
    {opened : List (Session F)} (h : Accessed manager call call' manager' opened) :
    (opened.map fun t => t.blockEnv.number.toNat).Pairwise (· ≤ ·) := by
  rcases h.opened with rfl | ⟨t, rfl, -⟩
  · exact List.Pairwise.nil
  · exact List.pairwise_singleton _ _

/-! ### What one step does -/

namespace Following

/-- A step installs a block, or none: then it leaves the lobby alone, adds a call to it that is no
    refresh, or takes a lock. -/
theorem step_cases (s : Following F) (e : TipEvent F E) :
    (∃ tip fork blockEnv, e = .tick (.ok tip) (.ok (fork, blockEnv)) ∧ s.sleeping = true ∧
      tip.number ≠ s.lastSeen ∧ s.step e
        = { s with lastSeen := blockEnv.number, lobby := s.lobby.step (.refresh fork blockEnv) }) ∨
    (s.Advances e ∧ (s.step e).lastSeen = s.lastSeen ∧
      ((s.step e).lobby = s.lobby ∨
        (∃ call, call.isRefresh = false ∧
          (s.step e).lobby = { s.lobby with calls := s.lobby.calls ++ [call] }) ∨
        ∃ i, (s.step e).lobby = s.lobby.step (.access i))) := by
  cases e with
  | tick poll refork =>
    simp only [step]
    by_cases hs : s.sleeping = true
    · rw [if_pos hs]
      cases poll with
      | error e => exact .inr ⟨trivial, rfl, .inl rfl⟩
      | ok tip =>
        by_cases htip : tip.number = s.lastSeen
        · cases refork with
          | error e => simp [tick, htip, Advances]
          | ok new => simp [tick, htip, Advances]
        · cases refork with
          | error e => simp [tick, htip, Advances]
          | ok new => exact .inl ⟨tip, new.1, new.2, rfl, hs, htip, by simp [tick, htip]⟩
    · rw [if_neg hs]
      refine .inr ⟨?_, rfl, .inl rfl⟩
      cases poll <;> cases refork <;> simp [Advances, hs]
  | stop =>
    simp only [step]
    split <;> exact .inr ⟨trivial, rfl, .inl rfl⟩
  | fork => exact .inr ⟨trivial, rfl, .inr (.inl ⟨.fork none .base, rfl, rfl⟩)⟩
  | restore blockNumber state =>
    exact .inr ⟨trivial, rfl, .inr (.inl ⟨.restore blockNumber state, rfl, rfl⟩)⟩
  | access i => exact .inr ⟨trivial, rfl, .inr (.inr ⟨i, rfl⟩)⟩

theorem access_installed (lobby : Lobby F) (i : ℕ) :
    (lobby.step (.access i)).installed = lobby.installed := by
  simp only [Lobby.step]
  split <;> rfl

/-! ### The installed numbers -/

/-- What ascends goes on ascending exactly by what is above its last. -/
theorem ascending_concat {earlier : List ℕ} {last next : ℕ} :
    ((earlier ++ [last]) ++ [next]).Pairwise (· < ·) ↔
      (earlier ++ [last]).Pairwise (· < ·) ∧ last < next := by
  rw [← List.isChain_iff_pairwise, ← List.isChain_iff_pairwise, List.isChain_append]
  simp

/-- The last number seen is the last one installed. -/
def Seen (s : Following F) : Prop := ∃ earlier, s.numbers = earlier ++ [s.lastSeen.toNat]

/-- STEP LEMMA: the numbers go on ascending exactly where the step advances. -/
theorem step_numbers {s : Following F} (h : s.Seen) (e : TipEvent F E) :
    (s.step e).Seen ∧
      ((s.step e).numbers.Pairwise (· < ·) ↔ s.numbers.Pairwise (· < ·) ∧ s.Advances e) := by
  rcases step_cases s e with ⟨tip, fork, blockEnv, rfl, hs, htip, hstep⟩ | ⟨hadv, hseen, hlobby⟩
  · have hnumbers : (s.step (E := E) (.tick (.ok tip) (.ok (fork, blockEnv)))).numbers
        = s.numbers ++ [blockEnv.number.toNat] := by
      rw [hstep]
      simp [numbers, Lobby.step]
    refine ⟨⟨s.numbers, by rw [hnumbers, hstep]⟩, ?_⟩
    obtain ⟨earlier, hlast⟩ := h
    rw [hnumbers, hlast, ascending_concat]
    exact and_congr_right fun _ => ⟨fun hup _ _ => hup, fun hadv => hadv hs htip⟩
  · have hnumbers : (s.step e).numbers = s.numbers := by
      rcases hlobby with hlobby | ⟨call, -, hlobby⟩ | ⟨i, hlobby⟩
      · rw [numbers, hlobby, numbers]
      · rw [numbers, hlobby, numbers]
      · rw [numbers, hlobby, access_installed, numbers]
    rw [Seen, hnumbers, hseen]
    exact ⟨h, fun hup => ⟨hup, hadv⟩, And.left⟩

/-- RUN LEMMA: the numbers ascend over a whole run exactly where each of its steps advances. -/
theorem run_numbers {s : Following F} (events : List (TipEvent F E)) (h : s.Seen) :
    (runAll step s events).numbers.Pairwise (· < ·) ↔
      s.numbers.Pairwise (· < ·) ∧ Guarded step Advances s events := by
  induction events generalizing s with
  | nil => exact ⟨fun hup => ⟨hup, trivial⟩, And.left⟩
  | cons e events ih =>
    obtain ⟨hseen, hiff⟩ := step_numbers h e
    rw [runAll_cons, ih hseen, hiff, and_assoc, Guarded]

/-! ### The opened sessions -/

/-- INVARIANT: the manager's block env is behind the last number seen at most by the refresh under
    way, which brings it there, and no session is ahead of it. -/
structure Climbing (s : Following F) : Prop where
  below : s.lobby.manager.blockEnv.value.number.toNat ≤ s.lastSeen.toNat
  underWay : ∀ writer fallback blockEnv next,
    .refresh writer fallback blockEnv next ∈ s.lobby.calls → blockEnv.number = s.lastSeen
  behind : ∀ n ∈ s.openedAt, n ≤ s.lobby.manager.blockEnv.value.number.toNat
  ordered : s.openedAt.Pairwise (· ≤ ·)

theorem climbing_start (fallback : F) (base : BaseSnapshot) (blockEnv : BlockEnv) :
    (start fallback base blockEnv).Climbing :=
  ⟨le_refl _, fun _ _ _ _ h => absurd h List.not_mem_nil, fun _ h => absurd h List.not_mem_nil,
    List.Pairwise.nil⟩

/-- A step that leaves the manager and what was opened, and makes no refresh. -/
theorem climbing_same {s s' : Following F} (h : s.Climbing) (hseen : s'.lastSeen = s.lastSeen)
    (hmanager : s'.lobby.manager = s.lobby.manager) (hopened : s'.lobby.opened = s.lobby.opened)
    (hcalls : ∀ call ∈ s'.lobby.calls, call.isRefresh = true → call ∈ s.lobby.calls) :
    s'.Climbing where
  below := by rw [hmanager, hseen]; exact h.below
  underWay writer fallback blockEnv next hmem := by
    rw [hseen]
    exact h.underWay writer fallback blockEnv next (hcalls _ hmem rfl)
  behind := by rw [openedAt, hopened, hmanager]; exact h.behind
  ordered := by rw [openedAt, hopened]; exact h.ordered

/-- A block is installed above the last one. -/
theorem climbing_install {s : Following F} (h : s.Climbing) (hs : s.sleeping = true) (fork : F)
    (blockEnv : BlockEnv) (hup : s.lastSeen.toNat < blockEnv.number.toNat) :
    Climbing { s with
      lastSeen := blockEnv.number, lobby := s.lobby.step (.refresh fork blockEnv) } where
  below := h.below.trans hup.le
  underWay writer fallback blockEnv' next hmem := by
    simp only [Lobby.step, List.mem_append, List.mem_singleton] at hmem
    rcases hmem with hmem | hnew
    · -- the refresh before it has returned
      simp only [sleeping, Bool.and_eq_true, Bool.not_eq_true', List.any_eq_false] at hs
      exact absurd rfl (hs.2 _ hmem)
    · cases hnew
      rfl
  behind := h.behind
  ordered := h.ordered

/-- A lock is taken. -/
theorem climbing_access {s s' : Following F} (h : s.Climbing) (i : ℕ)
    (hseen : s'.lastSeen = s.lastSeen) (hlobby : s'.lobby = s.lobby.step (.access i)) :
    s'.Climbing := by
  cases hi : s.lobby.calls[i]? with
  | none =>
    have hsame : s'.lobby = s.lobby := by simp [hlobby, Lobby.step, hi]
    exact climbing_same h hseen (by rw [hsame]) (by rw [hsame]) fun call hmem _ => hsame ▸ hmem
  | some call =>
    have hmem := List.mem_of_getElem? hi
    have hacc := accessed s.lobby.manager call
    rcases hout : call.access s.lobby.manager with ⟨call', manager', opened⟩
    rw [hout] at hacc
    have hlobby' : s'.lobby = { s.lobby with
        manager := manager', calls := s.lobby.calls.set i call'
        opened := s.lobby.opened ++ opened } := by
      simp only [hlobby, Lobby.step, hi, hout]
    have hup : s.lobby.manager.blockEnv.value.number.toNat ≤ manager'.blockEnv.value.number.toNat ∧
        manager'.blockEnv.value.number.toNat ≤ s.lastSeen.toNat := by
      rcases hacc.blockEnv with hsame | ⟨writer, fallback, rfl⟩
      · rw [hsame]
        exact ⟨le_refl _, h.below⟩
      · rw [h.underWay _ _ _ _ hmem]
        exact ⟨h.below, le_refl _⟩
    have hopened : s'.openedAt
        = s.openedAt ++ opened.map fun t => t.blockEnv.number.toNat := by
      rw [openedAt, hlobby', List.map_append, openedAt]
    refine ⟨?_, ?_, ?_, ?_⟩
    · rw [hlobby', hseen]
      exact hup.2
    · intro writer fallback blockEnv next hcall
      rw [hlobby'] at hcall
      rw [hseen]
      rcases List.mem_or_eq_of_mem_set hcall with hold | hnew
      · exact h.underWay _ _ _ _ hold
      · obtain ⟨next', rfl⟩ := hacc.refresh _ _ _ _ hnew.symm
        exact h.underWay _ _ _ _ hmem
    · intro n hn
      rw [hopened, List.mem_append] at hn
      rw [hlobby']
      rcases hn with hn | hn
      · exact (h.behind n hn).trans hup.1
      · rw [hacc.openedAt n hn]
        exact hup.1
    · rw [hopened, List.pairwise_append]
      refine ⟨h.ordered, hacc.opened_ordered, fun n hn m hm => ?_⟩
      rw [hacc.openedAt m hm]
      exact h.behind n hn

/-- STEP LEMMA: a step that advances keeps the sessions behind the tip. -/
theorem climbing_step {s : Following F} (h : s.Climbing) (e : TipEvent F E) (hadv : s.Advances e) :
    (s.step e).Climbing := by
  rcases step_cases s e with ⟨tip, fork, blockEnv, rfl, hs, htip, hstep⟩ | ⟨-, hseen, hlobby⟩
  · rw [hstep]
    exact climbing_install h hs fork blockEnv (hadv hs htip)
  · rcases hlobby with hlobby | ⟨call, hcall, hlobby⟩ | ⟨i, hlobby⟩
    · exact climbing_same h hseen (by rw [hlobby]) (by rw [hlobby]) fun call hmem _ => hlobby ▸ hmem
    · refine climbing_same h hseen (by rw [hlobby]) (by rw [hlobby]) fun other hmem hother => ?_
      rw [hlobby, List.mem_append, List.mem_singleton] at hmem
      rcases hmem with hmem | rfl
      · exact hmem
      · rw [hcall] at hother
        cases hother
    · exact climbing_access h i hseen hlobby

/-- EXACT: in a run of the follower, whatever upstream answers and whoever opens sessions meanwhile,
    the tip only moves forward iff every re-fork that is installed lands above the block installed
    last. -/
theorem forward_iff (fallback : F) (base : BaseSnapshot) (blockEnv : BlockEnv)
    (events : List (TipEvent F E)) :
    (runAll step (start fallback base blockEnv) events).Forward ↔
      Guarded step Advances (start fallback base blockEnv) events := by
  have hnumbers := run_numbers (s := start fallback base blockEnv) events ⟨[], rfl⟩
  constructor
  · exact fun h => (hnumbers.mp h.numbers).2
  · intro h
    refine ⟨hnumbers.mpr ⟨List.pairwise_singleton _ _, h⟩, ?_⟩
    exact (guarded_inv (P := Climbing) (fun _ e hs => climbing_step hs e) _ events
      (climbing_start fallback base blockEnv) h).ordered

/-- A node that lags a block behind answers a tick's poll and its re-fork; one session is opened
    before, one after. -/
def lagging : List (TipEvent ℕ String) :=
  [.fork, .access 0, .access 0, .access 0, .tick (.ok (blockAt 9)) (.ok (1, blockAt 9)), .access 1,
    .access 1, .access 1, .fork, .access 2, .access 2, .access 2]

/-- The follower takes the lagging node's block for a new one and moves the tip back. -/
theorem lagging_moves_back :
    let s := runAll step (start 0 .empty (blockAt 10)) lagging
    s.numbers = [10, 9] ∧ s.openedAt = [10, 9] ∧ ¬ s.Forward := by
  refine ⟨by decide, by decide, fun h => ?_⟩
  exact absurd h.numbers (by decide)

end Following

end Forkyard
