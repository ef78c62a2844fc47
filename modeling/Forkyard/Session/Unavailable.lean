import Forkyard.Session.Pinned

/-! What a `fork_at_block` that fails leaves behind. The cell is taken before anyone asks whether
    there is a factory, or what it says: the block is in the cache by then, at the fresh end, and what
    was least recently used may be out of it. Where that was a warm block, the sessions opened next at
    it pay for the call that failed.

        [cold, warm, warm] ──get_or_insert, failed──▶ [warm, warm, cold]   spares
        [warm, warm, warm] ──get_or_insert, failed──▶ [warm, warm, cold]   does not -/

namespace Forkyard

open Schemes

variable {F : Type}

/-- A `fork_at_block` on its own, and what the factory would answer it. -/
structure ForkRequest (F : Type) where
  blockNumber : UInt64
  seed : Option SessionState
  answer : Except String (F × BlockEnv)

namespace Pins

/-- The call made, from its first lock to its end. -/
def forkAtBlock (configured : Bool) (p : Pins F) (r : ForkRequest F) : Pins F :=
  runAll (step configured) p [.call r.blockNumber r.seed, .take p.calls.length,
    .enter p.calls.length, .finish p.calls.length r.answer]

/-- It returns an error. -/
def Fails (configured : Bool) (p : Pins F) (r : ForkRequest F) : Prop :=
  ∃ call reason, (p.forkAtBlock configured r).calls[p.calls.length]? = some call ∧
    call.stage = .failed reason

/-- The same blocks are warm, in the same order of eviction, and the same sessions open. -/
structure Unchanged (p q : Pins F) : Prop where
  warm : ∀ blockNumber, q.warm blockNumber = p.warm blockNumber
  order : q.pinned.recency.filter q.warm = p.pinned.recency.filter p.warm
  sessions : q.sessions = p.sessions

/-- A request for the block costs no warm block its place: it is resident, there is room, or what
    goes is cold. -/
def Spares (p : Pins F) (blockNumber : UInt64) : Prop :=
  blockNumber ∈ p.pinned.recency ∨ p.pinned.recency.length < p.pinned.cap ∨
    ∀ oldest, p.pinned.recency.head? = some oldest → p.warm oldest = false

variable {p q : Pins F} {configured : Bool} {r : ForkRequest F}

theorem Unchanged.trans {p' : Pins F} (h : p.Unchanged q) (h' : q.Unchanged p') : p.Unchanged p' where
  warm blockNumber := (h'.warm blockNumber).trans (h.warm blockNumber)
  order := h'.order.trans h.order
  sessions := h'.sessions.trans h.sessions

theorem calls_settle {i : ℕ} {call : Pinning} (h : p.calls[i]? = some call) (call' : Pinning)
    (stage : PinStage) :
    (p.settle i call' stage).calls[i]? = some { call' with stage := stage } :=
  List.getElem?_set_self (List.getElem?_eq_some_iff.mp h).1

/-- Where no one builds, the factory has nothing to answer. -/
theorem step_finish_idle {i : ℕ} {call : Pinning} (h : p.calls[i]? = some call)
    (hidle : ∀ cell, call.stage ≠ .building cell) (answer : Except String (F × BlockEnv)) :
    p.step configured (.finish i answer) = p := by
  simp only [step, h]

/-- A call that holds its cell and fails has found the cell empty, and changed nothing else. -/
theorem entered_failed {i : ℕ} {call : Pinning} {cell : ℕ} {answer : Except String (F × BlockEnv)}
    (hcall : p.calls[i]? = some call) (hstage : call.stage = .held cell)
    (hnever : configured = false → p.value cell = none)
    (hfails : ∃ failed reason, ((p.enter configured i call cell).step configured
      (.finish i answer)).calls[i]? = some failed ∧ failed.stage = .failed reason) :
    p.value cell = none ∧ ∃ calls,
      (p.enter configured i call cell).step configured (.finish i answer)
        = { p with calls := calls } := by
  obtain ⟨failed, reason, hfailed, hreason⟩ := hfails
  by_cases hconfigured : configured = true
  · rw [enter, if_pos hconfigured] at hfailed ⊢
    cases hvalue : p.value cell with
    | some pinned =>
      have hopened : (p.opened i call cell pinned).calls[i]?
          = some { call with stage := .opened cell } := calls_settle hcall call (.opened cell)
      rw [hvalue] at hfailed
      dsimp only at hfailed
      rw [step_finish_idle hopened (by simp)] at hfailed
      obtain rfl := Option.some.inj (hopened.symm.trans hfailed)
      cases hreason
    | none =>
      rw [hvalue] at hfailed
      dsimp only at hfailed ⊢
      by_cases hbusy : p.calls.any fun other => other.stage.builds cell
      · rw [if_pos hbusy, step_finish_idle hcall (by simp [hstage])] at hfailed
        obtain rfl := Option.some.inj (hcall.symm.trans hfailed)
        rw [hstage] at hreason
        cases hreason
      · rw [if_neg hbusy] at hfailed ⊢
        have hbuilding := calls_settle hcall call (.building cell)
        refine ⟨rfl, ?_⟩
        cases answer with
        | error error =>
          simp only [step, hbuilding]
          exact ⟨_, rfl⟩
        | ok built =>
          have hopened : ((p.settle i call (.building cell)).step configured
              (.finish i (.ok built))).calls[i]? = some { call with stage := .opened cell } := by
            simp only [step, hbuilding]
            exact calls_settle (p := { p.settle i call (.building cell) with
              cells := _, successes := _ }) hbuilding _ _
          obtain rfl := Option.some.inj (hopened.symm.trans hfailed)
          cases hreason
  · rw [Bool.not_eq_true] at hconfigured
    refine ⟨hnever hconfigured, ?_⟩
    rw [enter, hconfigured, if_neg (by simp), fail,
      step_finish_idle (calls_settle hcall call _) (by simp)]
    exact ⟨_, rfl⟩

/-- A call that fails has taken the block's cell, found it empty, and done no more. -/
theorem failed_effect (hsharing : p.Sharing configured) (hfails : p.Fails configured r) :
    let handed := p.pinned.getOrInsert p.cells.length r.blockNumber
    (p.forkAtBlock configured r).pinned = handed.2 ∧
      (∀ other, (p.forkAtBlock configured r).value other = p.value other) ∧
      (p.forkAtBlock configured r).sessions = p.sessions ∧ p.value handed.1 = none := by
  set i := p.calls.length with hi
  set call : Pinning := ⟨r.blockNumber, r.seed, 0, .start⟩ with hcalled
  set p₁ : Pins F := { p with calls := p.calls ++ [call] } with hp₁
  have hfirst : p₁.calls[i]? = some call := List.getElem?_concat_length
  set p₂ := p₁.take i call with hp₂
  set cell := (p.pinned.getOrInsert p.cells.length r.blockNumber).1 with hcell
  set held : Pinning := ⟨r.blockNumber, r.seed, p.evictions r.blockNumber, .held cell⟩ with hheld
  have hsecond : p₂.calls[i]? = some held := by
    have hlt : i < p₁.calls.length := by simp [hp₁, hi]
    exact List.getElem?_set_self hlt
  have hvalue : ∀ other, p₂.value other = p.value other := fun other => value_take i call other
  have hrun : p.forkAtBlock configured r
      = ((p₂.step configured (.enter i)).step configured (.finish i r.answer)) := by
    simp only [forkAtBlock, runAll_cons, runAll_nil]
    have htake : p₁.step configured (.take i) = p₂ := by
      simp only [step, hfirst, hp₂]
      rfl
    rw [← htake]
    rfl
  have henter : p₂.step configured (.enter i) = p₂.enter configured i held cell := by
    simp only [step, hsecond, hheld]
  have hfailed : ∃ call reason, ((p₂.enter configured i held cell).step configured
      (.finish i r.answer)).calls[i]? = some call ∧ call.stage = .failed reason := by
    rw [← henter, ← hrun]
    exact hfails
  have hnever : configured = false → p₂.value cell = none := by
    intro hconfigured
    rw [hvalue, hsharing.unconfigured hconfigured]
  obtain ⟨hempty, calls, hafter⟩ := entered_failed hsecond rfl hnever hfailed
  rw [hrun, henter, hafter]
  exact ⟨rfl, hvalue, rfl, hvalue cell ▸ hempty⟩

/-- No block is warm that is not resident. -/
theorem mem_of_warm (hstocked : p.Stocked) {blockNumber : UInt64} (hwarm : p.warm blockNumber = true) :
    blockNumber ∈ p.pinned.recency := by
  refine (hstocked.inStep.keys blockNumber).mpr fun hnone => ?_
  rw [warm, hnone] at hwarm
  cases hwarm

/-- The block asked for was cold and is, and of the others those are as they were that did not fall
    off. -/
theorem warm_failed (hstocked : p.Stocked) (hsharing : p.Sharing configured)
    (hfails : p.Fails configured r) :
    p.warm r.blockNumber = false ∧ ∀ blockNumber,
      (p.forkAtBlock configured r).warm blockNumber
        = (p.warm blockNumber
          && decide (blockNumber ∈ Lru.touch p.pinned.cap p.pinned.recency r.blockNumber)) := by
  obtain ⟨hpinned, hvalues, -, hempty⟩ := failed_effect hsharing hfails
  have hcold : p.warm r.blockNumber = false := by
    rw [warm]
    cases hresident : p.pinned.cells.lookup r.blockNumber with
    | none => rfl
    | some cell =>
      simp only [PinnedBlocks.getOrInsert, hresident, Option.getD_some] at hempty
      rw [Option.bind_some, hempty]
      rfl
  refine ⟨hcold, fun blockNumber => ?_⟩
  have hvalue : (p.forkAtBlock configured r).value = p.value := funext hvalues
  rw [warm, hpinned, hvalue, PinnedBlocks.getOrInsert_cells hstocked.inStep hstocked.cap]
  by_cases hsame : blockNumber = r.blockNumber
  · rw [if_pos hsame, hsame, hcold, Option.bind_some, hempty]
    rfl
  · rw [if_neg hsame]
    by_cases hkept : blockNumber ∈ Lru.touch p.pinned.cap p.pinned.recency r.blockNumber
    · rw [if_pos hkept, decide_eq_true hkept, Bool.and_true]
      rfl
    · rw [if_neg hkept, decide_eq_false hkept, Bool.and_false]
      rfl

/-- EXACT: a call that fails changes nothing just where its request costs no warm block its place. -/
theorem unchanged_iff (hstocked : p.Stocked) (hsharing : p.Sharing configured)
    (hfails : p.Fails configured r) :
    p.Unchanged (p.forkAtBlock configured r) ↔ p.Spares r.blockNumber := by
  obtain ⟨hcold, hwarm⟩ := warm_failed hstocked hsharing hfails
  obtain ⟨hpinned, -, hsessions, -⟩ := failed_effect hsharing hfails
  have hrecency : (p.forkAtBlock configured r).pinned.recency
      = Lru.touch p.pinned.cap p.pinned.recency r.blockNumber := by
    rw [hpinned]
    exact PinnedBlocks.getOrInsert_recency
  have horder : (p.forkAtBlock configured r).pinned.recency.filter (p.forkAtBlock configured r).warm
      = (Lru.touch p.pinned.cap p.pinned.recency r.blockNumber).filter p.warm := by
    rw [hrecency]
    refine List.filter_congr fun blockNumber hmem => ?_
    rw [hwarm, decide_eq_true hmem, Bool.and_true]
  rw [Spares, ← Lru.filter_touch_iff hstocked.cap hstocked.inStep.size hcold]
  constructor
  · intro h
    rw [← horder]
    exact h.order
  · intro hsame
    refine ⟨fun blockNumber => ?_, horder.trans hsame, hsessions⟩
    rw [hwarm]
    cases hwas : p.warm blockNumber with
    | false => rfl
    | true =>
      have hlisted : blockNumber ∈ p.pinned.recency.filter p.warm :=
        List.mem_filter.mpr ⟨mem_of_warm hstocked hwas, hwas⟩
      rw [← hsame] at hlisted
      rw [decide_eq_true (List.mem_filter.mp hlisted).1]
      rfl

/-- STEP LEMMA. -/
theorem sound_forkAtBlock (h : p.Stocked ∧ p.Sharing configured) (r : ForkRequest F) :
    (p.forkAtBlock configured r).Stocked ∧ (p.forkAtBlock configured r).Sharing configured :=
  runAll_inv (P := fun p : Pins F => p.Stocked ∧ p.Sharing configured)
    (fun _ event h => sound_step h event) p _ h

/-- RUN LEMMA: calls that fail change nothing while each costs no warm block its place. -/
theorem unchanged_run (h : p.Stocked ∧ p.Sharing configured) (requests : List (ForkRequest F))
    (hrequests : Guarded (forkAtBlock configured)
      (fun q r => q.Fails configured r ∧ q.Spares r.blockNumber) p requests) :
    p.Unchanged (runAll (forkAtBlock configured) p requests) := by
  have hrun := guarded_inv
    (P := fun q : Pins F => (q.Stocked ∧ q.Sharing configured) ∧ p.Unchanged q)
    (fun q r hq hr => ⟨sound_forkAtBlock hq.1 r,
      hq.2.trans ((unchanged_iff hq.1.1 hq.1.2 hr.1).mpr hr.2)⟩)
    p requests ⟨h, ⟨fun _ => rfl, rfl, rfl⟩⟩ hrequests
  exact hrun.2

end Pins

/-- EXACT: whatever was opened, evicted, answered or given up before, a `fork_at_block` that fails
    leaves the warm blocks, their order and the sessions alone if and only if its block was resident,
    there was room, or the block to go was cold; and while that is so, so do any number of them. -/
theorem failed_fork_unchanged_iff {cap : ℕ} (hcap : 0 < cap) (configured : Bool)
    (events : List (PinsEvent F)) :
    let p := runAll (Pins.step configured) (.start cap) events
    (∀ r, p.Fails configured r →
      (p.Unchanged (p.forkAtBlock configured r) ↔ p.Spares r.blockNumber)) ∧
    ∀ requests, Guarded (Pins.forkAtBlock configured)
      (fun q r => q.Fails configured r ∧ q.Spares r.blockNumber) p requests →
        p.Unchanged (runAll (Pins.forkAtBlock configured) p requests) := by
  have hsound := Pins.sound_run (F := F) hcap configured events
  exact ⟨fun r hfails => Pins.unchanged_iff hsound.1 hsound.2 hfails, Pins.unchanged_run hsound⟩

/-- Block 1 opened, and warm. -/
def openedOne : List (PinsEvent Unit) :=
  [.call 1 none, .take 0, .enter 0, .finish 0 (.ok ((), blockAt 1))]

def oneWarm (cap : ℕ) : Pins Unit := runAll (Pins.step true) (.start cap) openedOne

/-- A block no upstream has. -/
def requestFive : ForkRequest Unit := ⟨5, none, .error "block 5 not found"⟩

/-- Where there is room for two, block 1 stays warm. -/
theorem failed_fork_unchanged_two :
    (oneWarm 2).Unchanged
      (runAll (Pins.forkAtBlock true) (oneWarm 2) [requestFive, requestFive]) := by
  have hcap : 0 < 2 := by decide
  obtain ⟨-, hrun⟩ := failed_fork_unchanged_iff hcap true openedOne
  have hfirst : (oneWarm 2).Fails true requestFive := ⟨_, _, rfl, rfl⟩
  have hsecond : ((oneWarm 2).forkAtBlock true requestFive).Fails true requestFive :=
    ⟨_, _, rfl, rfl⟩
  have hroom : (oneWarm 2).pinned.recency.length < (oneWarm 2).pinned.cap := by decide +kernel
  have hresident : (5 : UInt64) ∈ ((oneWarm 2).forkAtBlock true requestFive).pinned.recency := by
    decide +kernel
  exact hrun [requestFive, requestFive]
    ⟨⟨hfirst, .inr (.inl hroom)⟩, ⟨hsecond, .inl hresident⟩, trivial⟩

/-- Where there is room for one, a request for a block no one has evicts it. -/
theorem warm_block_evicted :
    (oneWarm 1).Fails true requestFive ∧ (oneWarm 1).warm 1 = true ∧
      ((oneWarm 1).forkAtBlock true requestFive).warm 1 = false ∧
      ¬ (oneWarm 1).Unchanged ((oneWarm 1).forkAtBlock true requestFive) := by
  have hbefore : (oneWarm 1).warm 1 = true := by decide +kernel
  have hafter : ((oneWarm 1).forkAtBlock true requestFive).warm 1 = false := by decide +kernel
  refine ⟨⟨_, _, rfl, rfl⟩, hbefore, hafter, fun hsame => ?_⟩
  have hkept := hsame.warm 1
  rw [hbefore, hafter] at hkept
  cases hkept

end Forkyard
