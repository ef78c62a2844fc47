import Forkyard.Schemes.Lru
import Forkyard.Session.Restore

/-! Blocks pinned, shared and evicted. `get_or_insert` keeps two structures in step, the cells by
    block and the blocks by recency, and drops the least recently used beyond the capacity. A
    `fork_at_block` takes its block's cell under one lock and then fills it, or waits for the one who
    does, under none: by the time the factory answers the cell may have been evicted, and another
    made for the same block. Who holds the old one still shares it.

        start ──get_or_insert──▶ held ──cell filled──────────────▶ opened
                                  │  ▲                               ▲
                         no one builds  factory failed               │
                                  ▼  │ (for the next)                │
                                building ──factory answered──────────┘ -/

namespace Forkyard

open Schemes

variable {F : Type}

/-! ### One cache -/

namespace PinnedBlocks

def empty (cap : ℕ) : PinnedBlocks := ⟨∅, [], cap⟩

/-- INVARIANT: both structures hold the same blocks, each once, and no more than `cap`. -/
structure InStep (pinned : PinnedBlocks) : Prop where
  nodup : pinned.recency.Nodup
  keys : ∀ blockNumber, blockNumber ∈ pinned.recency ↔ pinned.cells.lookup blockNumber ≠ none
  size : pinned.recency.length ≤ pinned.cap

theorem inStep_empty (cap : ℕ) : (empty cap).InStep where
  nodup := List.nodup_nil
  keys _ := by simp [empty]
  size := Nat.zero_le cap

end PinnedBlocks

theorem evict_recency (cap : ℕ) : ∀ (recency : List UInt64) (cells : Map UInt64 ℕ),
    (evict cap recency cells).1 = recency.rtake cap
  | [], _ => by simp [evict]
  | evicted :: recency, cells => by
    rw [evict]
    split
    · rename_i hfull
      rw [evict_recency cap recency]
      rw [List.length_cons] at hfull
      exact (Lru.rtake_append [evicted] (by omega)).symm
    · rename_i hfits
      exact (Lru.rtake_of_length_le (not_lt.mp hfits)).symm

/-- Of the listed blocks the last `cap` keep their cells. -/
theorem evict_cells (cap : ℕ) (blockNumber : UInt64) : ∀ {recency : List UInt64}
    {cells : Map UInt64 ℕ}, recency.Nodup →
    (evict cap recency cells).2.lookup blockNumber
      = if blockNumber ∈ recency ∧ blockNumber ∉ recency.rtake cap then none
        else cells.lookup blockNumber
  | [], cells, _ => by simp [evict]
  | evicted :: recency, cells, h => by
    rw [List.nodup_cons] at h
    rw [evict]
    split
    · rename_i hfull
      rw [List.length_cons] at hfull
      have hend : (evicted :: recency).rtake cap = recency.rtake cap :=
        Lru.rtake_append [evicted] (by omega)
      rw [evict_cells cap blockNumber h.2, hend, Map.lookup_erase_eq]
      by_cases hsame : blockNumber = evicted
      · subst hsame
        have hgone : blockNumber ∉ recency.rtake cap := fun hmem => h.1 (Lru.mem_of_mem_rtake hmem)
        simp [h.1, hgone]
      · simp [hsame]
    · rename_i hfits
      have hend : (evicted :: recency).rtake cap = evicted :: recency :=
        Lru.rtake_of_length_le (not_lt.mp hfits)
      rw [hend, if_neg fun hmem => hmem.2 hmem.1]

namespace PinnedBlocks

variable {pinned : PinnedBlocks} {fresh : ℕ} {blockNumber : UInt64}

theorem getOrInsert_cap : (pinned.getOrInsert fresh blockNumber).2.cap = pinned.cap := rfl

theorem getOrInsert_recency : (pinned.getOrInsert fresh blockNumber).2.recency
    = Lru.touch pinned.cap pinned.recency blockNumber := evict_recency _ _ _

theorem mem_touch_self {cap : ℕ} (hcap : 0 < cap) (recency : List UInt64) (blockNumber : UInt64) :
    blockNumber ∈ Lru.touch cap recency blockNumber := by
  obtain ⟨cap, rfl⟩ := Nat.exists_eq_succ_of_ne_zero hcap.ne'
  rw [Lru.touch, List.rtake_concat_succ]
  exact List.mem_append_right _ (List.mem_singleton_self blockNumber)

theorem mem_of_mem_touch {cap : ℕ} {recency : List UInt64} {other : UInt64}
    (h : other ∈ Lru.touch cap recency blockNumber) : other = blockNumber ∨ other ∈ recency := by
  rcases List.mem_append.mp (Lru.mem_of_mem_rtake h) with hmem | hmem
  · exact .inr (List.mem_filter.mp hmem).1
  · exact .inl (List.mem_singleton.mp hmem)

/-- What is resident after a request: the block that was asked for, in the cell handed out, and of
    the others those that are still listed, in the cells they had. -/
theorem getOrInsert_cells (h : pinned.InStep) (hcap : 0 < pinned.cap) (fresh : ℕ)
    (blockNumber other : UInt64) :
    (pinned.getOrInsert fresh blockNumber).2.cells.lookup other
      = if other = blockNumber then some (pinned.getOrInsert fresh blockNumber).1
        else if other ∈ Lru.touch pinned.cap pinned.recency blockNumber then
          pinned.cells.lookup other
        else none := by
  set cell := (pinned.cells.lookup blockNumber).getD fresh with hcell
  have hcells : (pinned.getOrInsert fresh blockNumber).2.cells.lookup other
      = if other ∈ pinned.recency.filter (· ≠ blockNumber) ++ [blockNumber] ∧
          other ∉ Lru.touch pinned.cap pinned.recency blockNumber then none
        else (pinned.cells.insert blockNumber cell).lookup other :=
    evict_cells pinned.cap other (Lru.nodup_filter_concat h.nodup blockNumber)
  rw [hcells, Map.lookup_insert_eq]
  by_cases hsame : other = blockNumber
  · subst hsame
    have hkept := mem_touch_self hcap pinned.recency other
    rw [if_neg fun hmem => hmem.2 hkept, if_pos rfl, if_pos rfl]
    rfl
  · rw [if_neg hsame, if_neg hsame]
    by_cases hkept : other ∈ Lru.touch pinned.cap pinned.recency blockNumber
    · rw [if_neg fun hmem => hmem.2 hkept, if_pos hkept]
    · rw [if_neg hkept]
      by_cases hlisted : other ∈ pinned.recency
      · have hmem : other ∈ pinned.recency.filter (· ≠ blockNumber) ++ [blockNumber] := by
          simp [hlisted, hsame]
        rw [if_pos ⟨hmem, hkept⟩]
      · rw [if_neg fun hmem => by simp [hlisted, hsame] at hmem]
        exact not_not.mp fun hne => hlisted ((h.keys other).mpr hne)

/-- STEP LEMMA: a request keeps the two in step. -/
theorem inStep_getOrInsert (h : pinned.InStep) (hcap : 0 < pinned.cap) :
    (pinned.getOrInsert fresh blockNumber).2.InStep where
  nodup := by
    rw [getOrInsert_recency]
    exact Lru.nodup_touch h.nodup blockNumber
  keys other := by
    rw [getOrInsert_recency, getOrInsert_cells h hcap]
    by_cases hsame : other = blockNumber
    · subst hsame
      simp [mem_touch_self hcap]
    · rw [if_neg hsame]
      by_cases hkept : other ∈ Lru.touch pinned.cap pinned.recency blockNumber
      · have hlisted := (mem_of_mem_touch hkept).resolve_left hsame
        simp [hkept, (h.keys other).mp hlisted]
      · simp [hkept]
  size := by
    rw [getOrInsert_recency, getOrInsert_cap]
    exact Lru.length_rtake_le _ _

end PinnedBlocks

/-! ### Requests, one after another -/

/-- A cache and, of every request made of it, the block and the cell it was handed. -/
structure Requests where
  pinned : PinnedBlocks
  handed : List (UInt64 × ℕ)

namespace Requests

def start (cap : ℕ) : Requests := ⟨.empty cap, []⟩

def step (r : Requests) (blockNumber : UInt64) : Requests :=
  let (cell, pinned) := r.pinned.getOrInsert r.handed.length blockNumber
  ⟨pinned, r.handed ++ [(blockNumber, cell)]⟩

/-- RUN LEMMA: whatever is requested, what is resident is the `cap` blocks requested last, in that
    order. -/
theorem exact_run {cap : ℕ} (hcap : 0 < cap) (requests : List UInt64) :
    let r := runAll step (start cap) requests
    r.pinned.InStep ∧ r.pinned.cap = cap ∧ r.pinned.recency = requests.dedup.rtake cap := by
  rw [← Lru.touch_run]
  induction requests using List.reverseRecOn with
  | nil => exact ⟨PinnedBlocks.inStep_empty cap, rfl, rfl⟩
  | append_singleton requests blockNumber ih =>
    obtain ⟨hinStep, hsize, hrecency⟩ := ih
    rw [runAll_append, runAll_cons, runAll_nil, List.foldl_concat, ← hrecency]
    refine ⟨PinnedBlocks.inStep_getOrInsert hinStep (hcap.trans_eq hsize.symm), hsize, ?_⟩
    rw [step, PinnedBlocks.getOrInsert_recency, hsize]

end Requests

/-! ### Calls under way -/

/-- The once-cell of one stay of a block in the cache, with how often the block had been evicted
    before that stay. What fills it carries the number of the call that made it. -/
structure OnceCell (F : Type) where
  blockNumber : UInt64
  residency : ℕ
  value : Option (Stamped (PinnedBlock F))

inductive PinStage where
  | start
  | held (cell : ℕ)
  /-- The cell's one initialiser, its factory call under way. -/
  | building (cell : ℕ)
  | opened (cell : ℕ)
  | failed (reason : RestoreError)
  | cancelled

/-- The cell a call holds on to. -/
def PinStage.cell : PinStage → Option ℕ
  | .held cell => some cell
  | .building cell => some cell
  | _ => none

def PinStage.builds (cell : ℕ) : PinStage → Bool
  | .building other => other == cell
  | _ => false

/-- A `fork_at_block`, or a resume through it. -/
structure Pinning where
  blockNumber : UInt64
  seed : Option SessionState
  residency : ℕ
  stage : PinStage

/-- A session opened at a pinned block. -/
structure PinnedSession (F : Type) where
  blockNumber : UInt64
  residency : ℕ
  pinned : Stamped (PinnedBlock F)
  session : Session F

/-- The pinned blocks of a manager, every cell ever made, every call, every session opened; and what
    was requested, how often each block was evicted, and how often a factory delivered it. -/
structure Pins (F : Type) where
  pinned : PinnedBlocks
  cells : List (OnceCell F)
  calls : List Pinning
  sessions : List (PinnedSession F)
  requested : List UInt64
  evictions : UInt64 → ℕ
  successes : UInt64 → ℕ

inductive PinsEvent (F : Type) where
  | call (blockNumber : UInt64) (seed : Option SessionState)
  /-- The `i`-th call takes its block's cell. -/
  | take (i : ℕ)
  /-- The `i`-th call looks into its cell. -/
  | enter (i : ℕ)
  /-- The factory answers the `i`-th call. -/
  | finish (i : ℕ) (answer : Except String (F × BlockEnv))
  /-- Whoever made the `i`-th call has gone. -/
  | cancel (i : ℕ)

namespace Pins

def start (cap : ℕ) : Pins F := ⟨.empty cap, [], [], [], [], fun _ => 0, fun _ => 0⟩

def value (p : Pins F) (cell : ℕ) : Option (Stamped (PinnedBlock F)) :=
  p.cells[cell]?.bind OnceCell.value

/-- The block holds an initialised shared base and fallback. -/
def warm (p : Pins F) (blockNumber : UInt64) : Bool :=
  ((p.pinned.cells.lookup blockNumber).bind p.value).isSome

/-- The call is at another stage now. -/
def settle (p : Pins F) (i : ℕ) (call : Pinning) (stage : PinStage) : Pins F :=
  { p with calls := p.calls.set i { call with stage := stage } }

def fail (p : Pins F) (i : ℕ) (call : Pinning) (reason : String) : Pins F :=
  p.settle i call (.failed (.blockUnavailable call.blockNumber reason))

/-- Register a session over what the cell holds. -/
def opened (p : Pins F) (i : ℕ) (call : Pinning) (cell : ℕ) (pinned : Stamped (PinnedBlock F)) :
    Pins F :=
  { p.settle i call (.opened cell) with
    sessions := p.sessions ++ [⟨call.blockNumber, call.residency, pinned,
      openSession pinned.value.base pinned.value.fallback pinned.value.blockEnv call.seed⟩] }

def take (p : Pins F) (i : ℕ) (call : Pinning) : Pins F :=
  let blockNumber := call.blockNumber
  let (cell, pinned) := p.pinned.getOrInsert p.cells.length blockNumber
  { p with
    pinned := pinned
    cells := match p.pinned.cells.lookup blockNumber with
      | some _ => p.cells
      | none => p.cells ++ [⟨blockNumber, p.evictions blockNumber, none⟩]
    calls := p.calls.set i
      { call with residency := p.evictions blockNumber, stage := .held cell }
    requested := p.requested ++ [blockNumber]
    evictions := fun n => p.evictions n
      + if (p.pinned.cells.lookup n).isSome ∧ (pinned.cells.lookup n).isNone then 1 else 0 }

/-- `get_or_try_init`: a filled cell is shared, an empty one has one initialiser at a time. -/
def enter (configured : Bool) (p : Pins F) (i : ℕ) (call : Pinning) (cell : ℕ) : Pins F :=
  if configured then
    match p.value cell with
    | some pinned => p.opened i call cell pinned
    | none =>
      if p.calls.any fun other => other.stage.builds cell then p
      else p.settle i call (.building cell)
  else p.fail i call "this session manager was built without a block-fork factory"

/-- The factory's answer fills the cell, or nothing. -/
def finish (p : Pins F) (i : ℕ) (call : Pinning) (cell : ℕ) :
    Except String (F × BlockEnv) → Pins F
  | .error reason => p.fail i call reason
  | .ok (fallback, blockEnv) =>
    let pinned : Stamped (PinnedBlock F) := ⟨⟨.empty, fallback, blockEnv⟩, i⟩
    { p with
      cells := p.cells.modify cell fun once => { once with value := some pinned }
      successes := Function.update p.successes call.blockNumber (p.successes call.blockNumber + 1)
      }.opened i call cell pinned

def step (configured : Bool) (p : Pins F) : PinsEvent F → Pins F
  | .call blockNumber seed => { p with calls := p.calls ++ [⟨blockNumber, seed, 0, .start⟩] }
  | .take i =>
    match p.calls[i]? with
    | some call =>
      match call.stage with
      | .start => p.take i call
      | _ => p
    | none => p
  | .enter i =>
    match p.calls[i]? with
    | some call =>
      match call.stage with
      | .held cell => p.enter configured i call cell
      | _ => p
    | none => p
  | .finish i answer =>
    match p.calls[i]? with
    | some call =>
      match call.stage with
      | .building cell => p.finish i call cell answer
      | _ => p
    | none => p
  | .cancel i =>
    match p.calls[i]? with
    | some call =>
      match call.stage with
      | .opened _ => p
      | .failed _ => p
      | _ => p.settle i call .cancelled
    | none => p

/-- INVERSION: all that a step can do. -/
theorem step_cases (configured : Bool) (p : Pins F) (event : PinsEvent F) :
    p.step configured event = p ∨
    (∃ blockNumber seed, p.step configured event
      = { p with calls := p.calls ++ [⟨blockNumber, seed, 0, .start⟩] }) ∨
    ∃ i call, p.calls[i]? = some call ∧
      (call.stage = .start ∧ p.step configured event = p.take i call ∨
      (∃ stage, stage.cell = none ∧ p.step configured event = p.settle i call stage) ∨
      ∃ cell, call.stage.cell = some cell ∧
        (configured = true ∧ p.value cell = none ∧
            (∀ other ∈ p.calls, other.stage ≠ .building cell) ∧
            p.step configured event = p.settle i call (.building cell) ∨
        (∃ pinned, configured = true ∧ p.value cell = some pinned ∧
          p.step configured event = p.opened i call cell pinned) ∨
        ∃ fallback blockEnv, call.stage = .building cell ∧
          p.step configured event = p.finish i call cell (.ok (fallback, blockEnv)))) := by
  cases event with
  | call blockNumber seed => exact .inr (.inl ⟨blockNumber, seed, rfl⟩)
  | take i =>
    simp only [step]
    split
    · rename_i call hcall
      split
      · rename_i hstage
        exact .inr (.inr ⟨i, call, hcall, .inl ⟨hstage, rfl⟩⟩)
      · exact .inl rfl
    · exact .inl rfl
  | enter i =>
    simp only [step]
    split
    · rename_i call hcall
      split
      · rename_i cell hstage
        have hcell : call.stage.cell = some cell := by rw [hstage]; rfl
        refine (em (configured = true)).elim (fun hconfigured => ?_) fun hconfigured => ?_
        · rw [enter, if_pos hconfigured]
          split
          · rename_i pinned hvalue
            exact .inr (.inr ⟨i, call, hcall, .inr (.inr ⟨cell, hcell,
              .inr (.inl ⟨pinned, hconfigured, hvalue, rfl⟩)⟩)⟩)
          · rename_i hvalue
            split
            · exact .inl rfl
            · rename_i hnone
              refine .inr (.inr ⟨i, call, hcall, .inr (.inr ⟨cell, hcell,
                .inl ⟨hconfigured, hvalue, fun other hmem hbuilds => hnone ?_, rfl⟩⟩)⟩)
              refine List.any_eq_true.mpr ⟨other, hmem, ?_⟩
              rw [hbuilds]
              exact beq_self_eq_true cell
        · rw [enter, if_neg hconfigured]
          exact .inr (.inr ⟨i, call, hcall, .inr (.inl ⟨_, rfl, rfl⟩)⟩)
      · exact .inl rfl
    · exact .inl rfl
  | finish i answer =>
    simp only [step]
    split
    · rename_i call hcall
      split
      · rename_i cell hstage
        have hcell : call.stage.cell = some cell := by rw [hstage]; rfl
        cases answer with
        | error reason => exact .inr (.inr ⟨i, call, hcall, .inr (.inl ⟨_, rfl, rfl⟩)⟩)
        | ok built =>
          exact .inr (.inr ⟨i, call, hcall, .inr (.inr ⟨cell, hcell,
            .inr (.inr ⟨built.1, built.2, hstage, rfl⟩)⟩)⟩)
      · exact .inl rfl
    · exact .inl rfl
  | cancel i =>
    simp only [step]
    split
    · rename_i call hcall
      split
      · exact .inl rfl
      · exact .inl rfl
      · exact .inr (.inr ⟨i, call, hcall, .inr (.inl ⟨.cancelled, rfl, rfl⟩)⟩)
    · exact .inl rfl

/-! ### The invariants -/

/-- Of every cell ever made, its block and which stay of that block it was for. -/
def stays (p : Pins F) : List (UInt64 × ℕ) :=
  p.cells.map fun once => (once.blockNumber, once.residency)

/-- INVARIANT: the cache holds what was requested last; every stay of a block has one cell, and the
    block's present stay, if it has one, the cell that is resident. -/
structure Stocked (p : Pins F) : Prop where
  inStep : p.pinned.InStep
  cap : 0 < p.pinned.cap
  recent : p.pinned.recency = p.requested.dedup.rtake p.pinned.cap
  resident : ∀ blockNumber cell, p.pinned.cells.lookup blockNumber = some cell →
    p.stays[cell]? = some (blockNumber, p.evictions blockNumber)
  past : ∀ blockNumber residency, (blockNumber, residency) ∈ p.stays →
    residency < p.evictions blockNumber ∨
      residency = p.evictions blockNumber ∧ p.pinned.cells.lookup blockNumber ≠ none
  unique : p.stays.Nodup

/-- INVARIANT: calls hold the cell of the stay they asked in, no two fill one cell, what is filled
    stays, and what was opened shares it. -/
structure Sharing (configured : Bool) (p : Pins F) : Prop where
  holding : ∀ (i : ℕ) (call : Pinning) (cell : ℕ), p.calls[i]? = some call →
    call.stage.cell = some cell → p.stays[cell]? = some (call.blockNumber, call.residency)
  building : ∀ (i : ℕ) (call : Pinning) (cell : ℕ), p.calls[i]? = some call →
    call.stage = .building cell → configured = true ∧ p.value cell = none ∧
      ∀ (j : ℕ) (other : Pinning), p.calls[j]? = some other → other.stage = .building cell → j = i
  shared : ∀ s ∈ p.sessions, (∃ cell, p.stays[cell]? = some (s.blockNumber, s.residency) ∧
    p.value cell = some s.pinned) ∧ s.session.base = s.pinned.value.base ∧
    s.session.fallback = s.pinned.value.fallback
  succeeded : ∀ blockNumber, p.successes blockNumber
    = p.cells.countP fun once => once.blockNumber = blockNumber ∧ once.value.isSome
  unconfigured : configured = false → ∀ cell, p.value cell = none

variable {p : Pins F} {configured : Bool}

theorem stocked_start {cap : ℕ} (hcap : 0 < cap) : (start cap : Pins F).Stocked where
  inStep := PinnedBlocks.inStep_empty cap
  cap := hcap
  recent := by simp [start, PinnedBlocks.empty]
  resident _ _ h := by simp [start, PinnedBlocks.empty] at h
  past _ _ h := by simp [start, stays] at h
  unique := List.nodup_nil

theorem sharing_start (cap : ℕ) : (start cap : Pins F).Sharing configured where
  holding _ _ _ h := by simp [start] at h
  building _ _ _ h := by simp [start] at h
  shared _ h := by simp [start] at h
  succeeded _ := rfl
  unconfigured _ _ := by simp [start, value]

/-! What a request does to the cache, block by block. -/

theorem take_lookup (h : p.Stocked) (i : ℕ) (call : Pinning) (blockNumber : UInt64) :
    (p.take i call).evictions blockNumber = p.evictions blockNumber ∧
        (p.take i call).pinned.cells.lookup blockNumber
          = (if blockNumber = call.blockNumber then
              some (p.pinned.getOrInsert p.cells.length call.blockNumber).1
            else p.pinned.cells.lookup blockNumber) ∨
      blockNumber ≠ call.blockNumber ∧
        (p.take i call).evictions blockNumber = p.evictions blockNumber + 1 ∧
        p.pinned.cells.lookup blockNumber ≠ none ∧
        (p.take i call).pinned.cells.lookup blockNumber = none := by
  have hcells : (p.take i call).pinned.cells.lookup blockNumber = _ :=
    PinnedBlocks.getOrInsert_cells h.inStep h.cap p.cells.length call.blockNumber blockNumber
  have hevictions : (p.take i call).evictions blockNumber = p.evictions blockNumber
      + if (p.pinned.cells.lookup blockNumber).isSome ∧
          ((p.take i call).pinned.cells.lookup blockNumber).isNone then 1 else 0 := rfl
  by_cases hsame : blockNumber = call.blockNumber
  · rw [if_pos hsame] at hcells
    refine .inl ⟨?_, by rw [hcells, if_pos hsame]⟩
    rw [hevictions, hcells, if_neg fun hgone => by cases hgone.2]
    rfl
  rw [if_neg hsame] at hcells
  by_cases hkept : blockNumber ∈ Lru.touch p.pinned.cap p.pinned.recency call.blockNumber
  · rw [if_pos hkept] at hcells
    refine .inl ⟨?_, by rw [hcells, if_neg hsame]⟩
    rw [hevictions, hcells, if_neg fun hgone => ?_]
    · rfl
    · rw [Option.isSome_iff_ne_none, Option.isNone_iff_eq_none] at hgone
      exact hgone.1 hgone.2
  · rw [if_neg hkept] at hcells
    cases hold : p.pinned.cells.lookup blockNumber with
    | none =>
      refine .inl ⟨?_, by rw [hcells, if_neg hsame]⟩
      rw [hevictions, hold]
      rfl
    | some cell =>
      refine .inr ⟨hsame, ?_, Option.some_ne_none cell, hcells⟩
      rw [hevictions, hold, hcells]
      rfl

/-- The cell a request is handed: the resident one, or the next to be made. -/
theorem stays_take (p : Pins F) (i : ℕ) (call : Pinning) :
    (∃ cell, p.pinned.cells.lookup call.blockNumber = some cell ∧
        (p.pinned.getOrInsert p.cells.length call.blockNumber).1 = cell ∧
        (p.take i call).stays = p.stays ∧ (p.take i call).cells = p.cells) ∨
      p.pinned.cells.lookup call.blockNumber = none ∧
        (p.pinned.getOrInsert p.cells.length call.blockNumber).1 = p.stays.length ∧
        (p.take i call).stays = p.stays ++ [(call.blockNumber, p.evictions call.blockNumber)] ∧
        (p.take i call).cells
          = p.cells ++ [⟨call.blockNumber, p.evictions call.blockNumber, none⟩] := by
  cases hresident : p.pinned.cells.lookup call.blockNumber with
  | some cell =>
    refine .inl ⟨cell, rfl, ?_, ?_, ?_⟩
    · rw [PinnedBlocks.getOrInsert, hresident]
      rfl
    · simp only [stays, take, hresident]
    · simp only [take, hresident]
  | none =>
    refine .inr ⟨rfl, ?_, ?_, ?_⟩
    · rw [PinnedBlocks.getOrInsert, hresident, stays, List.length_map]
      rfl
    · simp only [stays, take, hresident, List.map_append, List.map_cons, List.map_nil]
    · simp only [take, hresident]

theorem stays_take_mono {i : ℕ} {call : Pinning} {cell : ℕ} {stay : UInt64 × ℕ}
    (h : p.stays[cell]? = some stay) : (p.take i call).stays[cell]? = some stay := by
  obtain ⟨-, -, -, hstays, -⟩ | ⟨-, -, hstays, -⟩ := p.stays_take i call
  · rwa [hstays]
  · obtain ⟨hlt, -⟩ := List.getElem?_eq_some_iff.mp h
    rwa [hstays, List.getElem?_append_left hlt]

/-- A request fills no cell. -/
theorem value_take (i : ℕ) (call : Pinning) (cell : ℕ) :
    (p.take i call).value cell = p.value cell := by
  unfold value
  obtain ⟨-, -, -, -, hcells⟩ | ⟨-, -, -, hcells⟩ := p.stays_take i call
  · rw [hcells]
  · rw [hcells]
    by_cases hlt : cell < p.cells.length
    · rw [List.getElem?_append_left hlt]
    · have hnone : p.cells[cell]? = none := List.getElem?_eq_none (by omega)
      rw [List.getElem?_append_right (by omega), hnone]
      cases hnew : cell - p.cells.length with
      | zero => rfl
      | succ n => rfl

/-- The cell handed out is the one of the block's present stay. -/
theorem stays_handed (h : p.Stocked) (i : ℕ) (call : Pinning) :
    (p.take i call).stays[(p.pinned.getOrInsert p.cells.length call.blockNumber).1]?
      = some (call.blockNumber, p.evictions call.blockNumber) := by
  obtain ⟨cell, hresident, hcell, hstays, -⟩ | ⟨-, hcell, hstays, -⟩ := p.stays_take i call
  · rw [hstays, hcell]
    exact h.resident call.blockNumber cell hresident
  · rw [hstays, hcell, List.getElem?_append_right le_rfl, Nat.sub_self]
    rfl

/-- STEP LEMMA: a request keeps the cache stocked. -/
theorem stocked_take (h : p.Stocked) (i : ℕ) (call : Pinning) : (p.take i call).Stocked where
  inStep := PinnedBlocks.inStep_getOrInsert h.inStep h.cap
  cap := h.cap
  recent := by
    change (p.pinned.getOrInsert p.cells.length call.blockNumber).2.recency
      = (p.requested ++ [call.blockNumber]).dedup.rtake p.pinned.cap
    rw [PinnedBlocks.getOrInsert_recency, h.recent, Lru.touch_dedup]
  resident blockNumber cell hresident := by
    obtain ⟨hevictions, hlookup⟩ | ⟨-, -, -, hgone⟩ := take_lookup h i call blockNumber
    · rw [hevictions]
      rw [hlookup] at hresident
      split at hresident
      · rename_i hsame
        rw [hsame, ← Option.some.inj hresident]
        exact stays_handed h i call
      · exact stays_take_mono (h.resident blockNumber cell hresident)
    · rw [hgone] at hresident
      cases hresident
  past blockNumber residency hmem := by
    have hold : (blockNumber, residency) ∈ p.stays →
        residency < (p.take i call).evictions blockNumber ∨
          residency = (p.take i call).evictions blockNumber ∧
            (p.take i call).pinned.cells.lookup blockNumber ≠ none := by
      intro hmem
      have hpast := h.past blockNumber residency hmem
      obtain ⟨hevictions, hlookup⟩ | ⟨-, hevictions, -, -⟩ := take_lookup h i call blockNumber
      · rw [hevictions, hlookup]
        refine hpast.imp_right fun hnow => ⟨hnow.1, ?_⟩
        split
        · exact Option.some_ne_none _
        · exact hnow.2
      · omega
    obtain ⟨-, -, -, hstays, -⟩ | ⟨-, -, hstays, -⟩ := p.stays_take i call
    · exact hold (hstays ▸ hmem)
    · rw [hstays] at hmem
      rcases List.mem_append.mp hmem with hmem | hmem
      · exact hold hmem
      · obtain ⟨rfl, rfl⟩ := Prod.mk.inj (List.mem_singleton.mp hmem)
        obtain ⟨hevictions, hlookup⟩ | ⟨hne, -⟩ := take_lookup h i call call.blockNumber
        · refine .inr ⟨hevictions.symm, ?_⟩
          rw [hlookup, if_pos rfl]
          exact Option.some_ne_none _
        · exact absurd rfl hne
  unique := by
    obtain ⟨-, -, -, hstays, -⟩ | ⟨hnone, -, hstays, -⟩ := p.stays_take i call
    · rw [hstays]
      exact h.unique
    · rw [hstays]
      refine List.nodup_append.mpr ⟨h.unique, List.nodup_singleton _, ?_⟩
      rintro stay hmem other hother rfl
      obtain rfl := List.mem_singleton.mp hother
      rcases h.past _ _ hmem with hlt | ⟨-, hnow⟩
      · exact lt_irrefl _ hlt
      · exact hnow hnone

/-! What the steps do to those who share. -/

theorem Sharing.of_calls (h : p.Sharing configured) {calls : List Pinning}
    (hcalls : ∀ (j : ℕ) (call : Pinning) (cell : ℕ), calls[j]? = some call →
      call.stage.cell = some cell → p.calls[j]? = some call) :
    ({ p with calls := calls } : Pins F).Sharing configured where
  holding j call cell hcall hcell := h.holding j call cell (hcalls j call cell hcall hcell) hcell
  building j call cell hcall hstage := by
    have hcell : ∀ {stage : PinStage}, stage = .building cell → stage.cell = some cell := by
      rintro stage rfl
      rfl
    obtain ⟨hconfigured, hvalue, hone⟩ :=
      h.building j call cell (hcalls j call cell hcall (hcell hstage)) hstage
    exact ⟨hconfigured, hvalue, fun k other hother hbuilds =>
      hone k other (hcalls k other cell hother (hcell hbuilds)) hbuilds⟩
  shared := h.shared
  succeeded := h.succeeded
  unconfigured := h.unconfigured

theorem sharing_call (h : p.Sharing configured) (blockNumber : UInt64)
    (seed : Option SessionState) :
    ({ p with calls := p.calls ++ [⟨blockNumber, seed, 0, .start⟩] } : Pins F).Sharing configured := by
  refine h.of_calls fun j call cell hcall hcell => ?_
  rcases getElem?_concat_cases hcall with hold | ⟨-, rfl⟩
  · exact hold
  · cases hcell

theorem sharing_settle (h : p.Sharing configured) (i : ℕ) (call : Pinning) (stage : PinStage)
    (hstage : stage.cell = none) : (p.settle i call stage).Sharing configured := by
  refine h.of_calls fun j other cell hother hcell => ?_
  rcases getElem?_set_cases hother with ⟨-, rfl⟩ | ⟨-, hold⟩
  · rw [hstage] at hcell
    cases hcell
  · exact hold

theorem sharing_build (h : p.Sharing configured) {i : ℕ} {call : Pinning} {cell : ℕ}
    (hcall : p.calls[i]? = some call) (hcell : call.stage.cell = some cell)
    (hconfigured : configured = true) (hvalue : p.value cell = none)
    (hfree : ∀ other ∈ p.calls, other.stage ≠ .building cell) :
    (p.settle i call (.building cell)).Sharing configured where
  holding j other cell' hother hcell' := by
    rcases getElem?_set_cases hother with ⟨rfl, rfl⟩ | ⟨-, hold⟩
    · obtain rfl := Option.some.inj hcell'
      exact h.holding j call cell hcall hcell
    · exact h.holding j other cell' hold hcell'
  building j other cell' hother hbuilds := by
    rcases getElem?_set_cases hother with ⟨rfl, rfl⟩ | ⟨hji, hold⟩
    · cases hbuilds
      refine ⟨hconfigured, hvalue, fun k another hanother hsame => ?_⟩
      rcases getElem?_set_cases hanother with ⟨rfl, -⟩ | ⟨-, hold⟩
      · rfl
      · exact absurd hsame (hfree another (List.mem_of_getElem? hold))
    · obtain ⟨-, hnone, hone⟩ := h.building j other cell' hold hbuilds
      refine ⟨hconfigured, hnone, fun k another hanother hsame => ?_⟩
      rcases getElem?_set_cases hanother with ⟨rfl, rfl⟩ | ⟨-, hold'⟩
      · cases hsame
        exact absurd hbuilds (hfree other (List.mem_of_getElem? hold))
      · exact hone k another hold' hsame
  shared := h.shared
  succeeded := h.succeeded
  unconfigured := h.unconfigured

theorem sharing_opened (h : p.Sharing configured) {i : ℕ} {call : Pinning} {cell : ℕ}
    {pinned : Stamped (PinnedBlock F)}
    (hstay : p.stays[cell]? = some (call.blockNumber, call.residency))
    (hvalue : p.value cell = some pinned) : (p.opened i call cell pinned).Sharing configured where
  holding := (sharing_settle h i call (.opened cell) rfl).holding
  building := (sharing_settle h i call (.opened cell) rfl).building
  shared s hmem := by
    rcases List.mem_append.mp hmem with hold | hnew
    · exact h.shared s hold
    · obtain rfl := List.mem_singleton.mp hnew
      refine ⟨⟨cell, hstay, hvalue⟩, ?_⟩
      cases call.seed <;> exact ⟨rfl, rfl⟩
  succeeded := h.succeeded
  unconfigured := h.unconfigured

theorem sharing_take (h : p.Sharing configured) (hstocked : p.Stocked) (i : ℕ) (call : Pinning) :
    (p.take i call).Sharing configured where
  holding j other cell hother hcell := by
    rcases getElem?_set_cases hother with ⟨-, rfl⟩ | ⟨-, hold⟩
    · obtain rfl := Option.some.inj hcell
      exact stays_handed hstocked i call
    · exact stays_take_mono (h.holding j other cell hold hcell)
  building j other cell hother hbuilds := by
    rcases getElem?_set_cases hother with ⟨-, rfl⟩ | ⟨-, hold⟩
    · cases hbuilds
    · obtain ⟨hconfigured, hvalue, hone⟩ := h.building j other cell hold hbuilds
      refine ⟨hconfigured, by rw [value_take, hvalue], fun k another hanother hsame => ?_⟩
      rcases getElem?_set_cases hanother with ⟨-, rfl⟩ | ⟨-, hold'⟩
      · cases hsame
      · exact hone k another hold' hsame
  shared s hmem := by
    obtain ⟨⟨cell, hstay, hvalue⟩, hopened⟩ := h.shared s hmem
    exact ⟨⟨cell, stays_take_mono hstay, by rw [value_take, hvalue]⟩, hopened⟩
  succeeded blockNumber := by
    refine (h.succeeded blockNumber).trans ?_
    obtain ⟨-, -, -, -, hcells⟩ | ⟨-, -, -, hcells⟩ := p.stays_take i call
    · rw [hcells]
    · rw [hcells, List.countP_append]
      simp
  unconfigured hnone cell := by rw [value_take, h.unconfigured hnone]

section Finish

variable {i : ℕ} {call : Pinning} {cell : ℕ} (fallback : F) (blockEnv : BlockEnv)

/-- Filling a cell makes no stay and ends none. -/
theorem stays_finish : (p.finish i call cell (.ok (fallback, blockEnv))).stays = p.stays := by
  simp only [stays, finish, opened, settle]
  refine List.ext_getElem? fun j => ?_
  rw [List.getElem?_map, List.getElem?_map, List.getElem?_modify]
  cases p.cells[j]? with
  | none => rfl
  | some once => by_cases hj : cell = j <;> simp [hj]

theorem value_finish (other : ℕ) :
    (p.finish i call cell (.ok (fallback, blockEnv))).value other
      = if cell = other ∧ other < p.cells.length then some ⟨⟨.empty, fallback, blockEnv⟩, i⟩
        else p.value other := by
  simp only [value, finish, opened, settle, List.getElem?_modify]
  by_cases hlt : other < p.cells.length
  · rw [List.getElem?_eq_getElem hlt]
    by_cases hsame : cell = other
    · simp [hsame, hlt]
    · simp [hsame]
  · simp [hlt]

/-- Of the cells of a block one more is filled. -/
theorem countP_modify {once : OnceCell F} (hcell : p.cells[cell]? = some once)
    (hempty : once.value = none) (pinned : Stamped (PinnedBlock F)) (blockNumber : UInt64) :
    (p.cells.modify cell fun once => { once with value := some pinned }).countP
        (fun once => once.blockNumber = blockNumber ∧ once.value.isSome)
      = p.cells.countP (fun once => once.blockNumber = blockNumber ∧ once.value.isSome)
        + if blockNumber = once.blockNumber then 1 else 0 := by
  have hset : (p.cells.modify cell fun once => { once with value := some pinned })
      = p.cells.set cell { once with value := some pinned } := by
    refine List.ext_getElem? fun j => ?_
    rw [List.getElem?_modify, List.getElem?_set]
    by_cases hsame : cell = j
    · subst hsame
      obtain ⟨hlt, rfl⟩ := List.getElem?_eq_some_iff.mp hcell
      simp [hlt]
    · simp [hsame]
  have hcount := countP_set_add
    (fun once : OnceCell F => once.blockNumber = blockNumber ∧ once.value.isSome)
    { once with value := some pinned } hcell
  rw [hset]
  simp only [hempty, Option.isSome_none, Bool.false_eq_true, and_false, decide_false, Bool.toNat_false,
    Option.isSome_some, and_true, add_zero] at hcount
  rw [hcount]
  by_cases hblock : blockNumber = once.blockNumber
  · simp [hblock]
  · simp [hblock, Ne.symm hblock]

/-- STEP LEMMA: a factory's answer is shared by those who hold the cell, and by no one else. -/
theorem sharing_finish (h : p.Sharing configured) (hcall : p.calls[i]? = some call)
    (hstage : call.stage = .building cell) :
    (p.finish i call cell (.ok (fallback, blockEnv))).Sharing configured := by
  obtain ⟨hconfigured, hempty, hone⟩ := h.building i call cell hcall hstage
  have hstay : p.stays[cell]? = some (call.blockNumber, call.residency) :=
    h.holding i call cell hcall (by rw [hstage]; rfl)
  have hlt : cell < p.cells.length := by
    obtain ⟨hlt, -⟩ := List.getElem?_eq_some_iff.mp hstay
    rwa [stays, List.length_map] at hlt
  have hvalue : ∀ other, other ≠ cell →
      (p.finish i call cell (.ok (fallback, blockEnv))).value other = p.value other := by
    intro other hne
    rw [value_finish, if_neg fun hsame => hne hsame.1.symm]
  refine ⟨?_, ?_, ?_, ?_, ?_⟩
  · intro j other cell' hother hcell'
    rw [stays_finish]
    rcases getElem?_set_cases hother with ⟨-, rfl⟩ | ⟨-, hold⟩
    · cases hcell'
    · exact h.holding j other cell' hold hcell'
  · intro j other cell' hother hbuilds
    rcases getElem?_set_cases hother with ⟨-, rfl⟩ | ⟨hji, hold⟩
    · cases hbuilds
    · obtain ⟨-, hnone, hone'⟩ := h.building j other cell' hold hbuilds
      have hne : cell' ≠ cell := by
        rintro rfl
        exact hji (hone j other hold hbuilds)
      refine ⟨hconfigured, by rw [hvalue cell' hne, hnone], fun k another hanother hsame => ?_⟩
      rcases getElem?_set_cases hanother with ⟨-, rfl⟩ | ⟨-, hold'⟩
      · cases hsame
      · exact hone' k another hold' hsame
  · intro s hmem
    rw [stays_finish]
    rcases List.mem_append.mp hmem with hold | hnew
    · obtain ⟨⟨cell', hstay', hfilled⟩, hopened⟩ := h.shared s hold
      have hne : cell' ≠ cell := by
        rintro rfl
        rw [hempty] at hfilled
        cases hfilled
      exact ⟨⟨cell', hstay', by rw [hvalue cell' hne, hfilled]⟩, hopened⟩
    · obtain rfl := List.mem_singleton.mp hnew
      refine ⟨⟨cell, hstay, by rw [value_finish, if_pos ⟨rfl, hlt⟩]⟩, ?_⟩
      cases call.seed <;> exact ⟨rfl, rfl⟩
  · intro blockNumber
    have hcell : p.cells[cell]? = some p.cells[cell] := List.getElem?_eq_getElem hlt
    have hblock : p.cells[cell].blockNumber = call.blockNumber := by
      rw [stays, List.getElem?_map, hcell] at hstay
      exact (Prod.mk.inj (Option.some.inj hstay)).1
    have hnone : p.cells[cell].value = none := by
      rw [value, hcell] at hempty
      exact hempty
    refine Eq.trans ?_ (countP_modify hcell hnone _ blockNumber).symm
    rw [hblock, ← h.succeeded blockNumber]
    change Function.update p.successes call.blockNumber (p.successes call.blockNumber + 1) blockNumber
      = _
    by_cases hsame : blockNumber = call.blockNumber
    · rw [hsame, Function.update_self, if_pos rfl]
    · rw [Function.update_of_ne hsame, if_neg hsame, add_zero]
  · intro hnone
    rw [hconfigured] at hnone
    cases hnone

end Finish

/-! What a whole run keeps. -/

theorem Stocked.of_same {q : Pins F} (h : p.Stocked) (hpinned : q.pinned = p.pinned)
    (hstays : q.stays = p.stays) (hevictions : q.evictions = p.evictions)
    (hrequested : q.requested = p.requested) : q.Stocked where
  inStep := hpinned ▸ h.inStep
  cap := hpinned ▸ h.cap
  recent := by rw [hpinned, hrequested, h.recent]
  resident blockNumber cell hresident := by
    rw [hstays, hevictions]
    exact h.resident blockNumber cell (hpinned ▸ hresident)
  past blockNumber residency hmem := by
    rw [hevictions, hpinned]
    exact h.past blockNumber residency (hstays ▸ hmem)
  unique := hstays ▸ h.unique

/-- STEP LEMMA. -/
theorem sound_step (h : p.Stocked ∧ p.Sharing configured) (event : PinsEvent F) :
    (p.step configured event).Stocked ∧ (p.step configured event).Sharing configured := by
  obtain ⟨hstocked, hsharing⟩ := h
  rcases p.step_cases configured event with hsame | ⟨blockNumber, seed, hcalled⟩ | ⟨i, call, hcall,
    ⟨-, htaken⟩ | ⟨stage, hstage, hsettled⟩ | ⟨cell, hcell,
      ⟨hconfigured, hempty, hfree, hbuilding⟩ | ⟨pinned, -, hfilled, hopened⟩ |
      ⟨fallback, blockEnv, hstage, hfinished⟩⟩⟩
  · rw [hsame]
    exact ⟨hstocked, hsharing⟩
  · rw [hcalled]
    exact ⟨hstocked.of_same rfl rfl rfl rfl, sharing_call hsharing blockNumber seed⟩
  · rw [htaken]
    exact ⟨stocked_take hstocked i call, sharing_take hsharing hstocked i call⟩
  · rw [hsettled]
    exact ⟨hstocked.of_same rfl rfl rfl rfl, sharing_settle hsharing i call stage hstage⟩
  · rw [hbuilding]
    exact ⟨hstocked.of_same rfl rfl rfl rfl,
      sharing_build hsharing hcall hcell hconfigured hempty hfree⟩
  · rw [hopened]
    exact ⟨hstocked.of_same rfl rfl rfl rfl,
      sharing_opened hsharing (hsharing.holding i call cell hcall hcell) hfilled⟩
  · rw [hfinished]
    exact ⟨hstocked.of_same rfl (stays_finish fallback blockEnv) rfl rfl,
      sharing_finish fallback blockEnv hsharing hcall hstage⟩

/-- RUN LEMMA. -/
theorem sound_run {cap : ℕ} (hcap : 0 < cap) (configured : Bool) (events : List (PinsEvent F)) :
    (runAll (step configured) (start cap) events).Stocked ∧
      (runAll (step configured) (start cap) events).Sharing configured :=
  runAll_inv (P := fun p : Pins F => p.Stocked ∧ p.Sharing configured)
    (fun _ event h => sound_step h event) (start cap) events
    ⟨stocked_start hcap, sharing_start cap⟩

/-- A block has had one stay more than it was evicted, at most. -/
theorem stays_le (h : p.Stocked) (blockNumber : UInt64) :
    p.stays.countP (·.1 = blockNumber) ≤ 1 + p.evictions blockNumber := by
  have hnodup : ((p.stays.filter (·.1 = blockNumber)).map Prod.snd).Nodup := by
    refine (h.unique.filter _).map_on ?_
    rintro ⟨block, residency⟩ hmem ⟨block', residency'⟩ hmem' rfl
    have hblock : block = blockNumber := by simpa using (List.mem_filter.mp hmem).2
    have hblock' : block' = blockNumber := by simpa using (List.mem_filter.mp hmem').2
    rw [hblock, hblock']
  have hsubset : (p.stays.filter (·.1 = blockNumber)).map Prod.snd
      ⊆ List.range (1 + p.evictions blockNumber) := by
    intro residency hmem
    obtain ⟨⟨block, _⟩, hlisted, rfl⟩ := List.mem_map.mp hmem
    obtain ⟨hstay, hblock⟩ := List.mem_filter.mp hlisted
    obtain rfl : block = blockNumber := by simpa using hblock
    rw [List.mem_range]
    rcases h.past _ _ hstay with hlt | ⟨heq, -⟩ <;> omega
  have hlength := (hnodup.subperm hsubset).length_le
  rw [List.length_map, List.length_range] at hlength
  rwa [List.countP_eq_length_filter]

/-- What a factory delivered for a block, it delivered once for each of its stays at most. -/
theorem successes_le (h : p.Stocked) (hsharing : p.Sharing configured) (blockNumber : UInt64) :
    p.successes blockNumber ≤ 1 + p.evictions blockNumber := by
  refine le_trans ?_ (stays_le h blockNumber)
  rw [hsharing.succeeded, stays, List.countP_map]
  refine List.countP_mono_left fun once _ hfilled => ?_
  simp only [decide_eq_true_eq, Function.comp_apply] at hfilled ⊢
  exact hfilled.1

end Pins

/-- CORRECT: any requests leave resident the `cap` blocks requested last, in that order, each in the
    one cell it is handed out; and whoever opens blocks when, a factory delivers a block once and
    once more for each of its evictions at most, and what is opened from one stay shares one base and
    one fallback. -/
theorem lru_shares {cap : ℕ} (hcap : 0 < cap) :
    (∀ requests : List UInt64,
      let r := runAll Requests.step (.start cap) requests
      r.pinned.InStep ∧ r.pinned.cap = cap ∧ r.pinned.recency = requests.dedup.rtake cap ∧
      ∀ (fresh : ℕ) (blockNumber : UInt64),
        (r.pinned.getOrInsert fresh blockNumber).2.cells.lookup blockNumber
          = some (r.pinned.getOrInsert fresh blockNumber).1 ∧
        ∀ cell, r.pinned.cells.lookup blockNumber = some cell →
          (r.pinned.getOrInsert fresh blockNumber).1 = cell) ∧
    ∀ (configured : Bool) (events : List (PinsEvent F)),
      let p := runAll (Pins.step configured) (.start cap) events
      (∀ blockNumber, p.successes blockNumber ≤ 1 + p.evictions blockNumber) ∧
      ∀ s ∈ p.sessions, ∀ t ∈ p.sessions, s.blockNumber = t.blockNumber →
        s.residency = t.residency → s.pinned = t.pinned ∧ s.session.base = t.session.base ∧
          s.session.fallback = t.session.fallback := by
  refine ⟨fun requests => ?_, fun configured events => ?_⟩
  · obtain ⟨hinStep, hsize, hrecency⟩ := Requests.exact_run hcap requests
    refine ⟨hinStep, hsize, hrecency, fun fresh blockNumber => ⟨?_, fun cell hresident => ?_⟩⟩
    · rw [PinnedBlocks.getOrInsert_cells hinStep (hcap.trans_eq hsize.symm), if_pos rfl]
    · rw [PinnedBlocks.getOrInsert, hresident]
      rfl
  · obtain ⟨hstocked, hsharing⟩ := Pins.sound_run hcap configured events
    refine ⟨Pins.successes_le hstocked hsharing, fun s hs t ht hblock hresidency => ?_⟩
    obtain ⟨⟨cell, hstay, hvalue⟩, hbase, hfallback⟩ := hsharing.shared s hs
    obtain ⟨⟨cell', hstay', hvalue'⟩, hbase', hfallback'⟩ := hsharing.shared t ht
    rw [hblock, hresidency, ← hstay'] at hstay
    obtain ⟨hlt, -⟩ := List.getElem?_eq_some_iff.mp hstay'
    obtain rfl := (List.getElem?_inj hlt hstocked.unique).mp hstay.symm
    have hpinned : s.pinned = t.pinned := Option.some.inj (hvalue.symm.trans hvalue')
    refine ⟨hpinned, ?_, ?_⟩
    · rw [hbase, hbase', hpinned]
    · rw [hfallback, hfallback', hpinned]

theorem lru_shares_two :
    (runAll Requests.step (.start 2) [1, 2, 1, 3]).pinned.recency = [1, 3] := by
  have hcap : 0 < 2 := by decide
  obtain ⟨hrequests, -⟩ := lru_shares (F := Unit) hcap
  rw [(hrequests [1, 2, 1, 3]).2.2.1]
  rfl

end Forkyard
