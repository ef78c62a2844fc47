import Forkyard.Session.Manager
import Forkyard.Session.Resume

/-! Opening a session from a snapshot, among refreshes and forks. `resume` loads the block and the
    state, `restore` compares that block with the manager's own and opens the session on the default
    base if they agree, through the pinned blocks if not. Check and reads each take a lock of their
    own, and refreshes take theirs in between.

        resume ──load──▶ restore ──same block──▶ base ──▶ fallback ──▶ block_env ──▶ session
                            └──another block──▶ pinned cell ──▶ factory ──▶ session -/

namespace Forkyard

open Schemes

variable {F : Type}

/-! ### Pinned blocks -/

/-- One pinned block's shared state. -/
structure PinnedBlock (F : Type) where
  base : BaseSnapshot
  fallback : F
  blockEnv : BlockEnv

/-- A once-cell, made for one block. -/
structure PinnedCell (F : Type) where
  blockNumber : UInt64
  value : Option (PinnedBlock F)

/-- Bounded cache of cells by block, least recently used first in `recency`. -/
structure PinnedBlocks where
  cells : Map UInt64 ℕ
  recency : List UInt64
  cap : ℕ

/-- Drop the least recently used blocks until `cap` are left. -/
def evict (cap : ℕ) : List UInt64 → Map UInt64 ℕ → List UInt64 × Map UInt64 ℕ
  | [], cells => ([], cells)
  | evicted :: recency, cells =>
    if cap < (evicted :: recency).length then evict cap recency (cells.erase evicted)
    else (evicted :: recency, cells)

/-- The cell of a block, `fresh` if it has none, and the block the most recently used. -/
def PinnedBlocks.getOrInsert (pinned : PinnedBlocks) (fresh : ℕ) (blockNumber : UInt64) :
    ℕ × PinnedBlocks :=
  let cell := (pinned.cells.lookup blockNumber).getD fresh
  let (recency, cells) := evict pinned.cap
    (pinned.recency.filter (· ≠ blockNumber) ++ [blockNumber])
    (pinned.cells.insert blockNumber cell)
  (cell, ⟨cells, recency, pinned.cap⟩)

/-! ### Resuming, one lock at a time -/

/-- Why no session was opened. -/
inductive RestoreError where
  | snapshot (reason : CacheError)
  | noSnapshots (reason : String)
  | blockUnavailable (blockNumber : UInt64) (reason : String)

/-- What a manager is built with: its snapshot store on the disk it reads, and a block-fork factory,
    which answers by the number of times it has been asked. -/
structure Setup (F : Type) where
  snapshots : Option SnapshotStore
  json : Json SnapshotFile
  raw : RawCode
  disk : Disk
  blockForks : Option (ℕ → UInt64 → Except String (F × BlockEnv))

/-- The block and state of a snapshot. -/
def Setup.load (setup : Setup F) (snapshotId : String) :
    Except RestoreError (UInt64 × SessionState) :=
  match setup.snapshots with
  | none => .error (.noSnapshots "this session manager was built without a snapshot store")
  | some store => (store.load setup.json setup.raw snapshotId setup.disk).mapError .snapshot

/-- How far a `resume` or a `restore` has come. -/
inductive Resuming (F : Type) where
  | load (snapshotId : String)
  /-- About to compare the manager's block number with this one. -/
  | restore (blockNumber : UInt64) (state : SessionState)
  /-- `fork_seeded`: the blocks agreed. -/
  | seeded (blockNumber : UInt64) (state : SessionState) (next : Forking F)
  /-- `fork_at_block_seeded`, about to take the block's cell. -/
  | pin (blockNumber : UInt64) (state : SessionState)
  | build (blockNumber : UInt64) (state : SessionState) (cell : ℕ)
  | opened (blockNumber : UInt64) (state : SessionState) (session : Session F)
  | failed (reason : RestoreError)

/-- A manager with its pinned blocks, every refresh and fork ever made of it, every cell ever handed
    out, and every `resume` and `restore` with the snapshot id it was given, if any. -/
structure Reception (F : Type) where
  lobby : Lobby F
  pinned : PinnedBlocks
  cells : List (PinnedCell F)
  built : ℕ
  resumes : List (Option String × Resuming F)

def Reception.start (fallback : F) (base : BaseSnapshot) (blockEnv : BlockEnv) (cap : ℕ) :
    Reception F :=
  ⟨.start fallback base blockEnv, ⟨∅, [], cap⟩, [], 0, []⟩

/-- The cell of a block, a new one if it has none. -/
def Reception.getOrInsert (r : Reception F) (blockNumber : UInt64) : ℕ × Reception F :=
  let (cell, pinned) := r.pinned.getOrInsert r.cells.length blockNumber
  let cells :=
    match r.pinned.cells.lookup blockNumber with
    | some _ => r.cells
    | none => r.cells ++ [⟨blockNumber, none⟩]
  (cell, { r with cells := cells, pinned := pinned })

/-- The cell's block, built if no one has built it yet; a failure stores nothing. -/
def Reception.getOrTryInit (setup : Setup F) (r : Reception F) (blockNumber : UInt64) (cell : ℕ) :
    Except RestoreError (PinnedBlock F) × Reception F :=
  match setup.blockForks with
  | none => (.error (.blockUnavailable blockNumber
      "this session manager was built without a block-fork factory"), r)
  | some factory =>
    match r.cells[cell]?.bind PinnedCell.value with
    | some pinned => (.ok pinned, r)
    | none =>
      match factory r.built blockNumber with
      | .error reason =>
        (.error (.blockUnavailable blockNumber reason), { r with built := r.built + 1 })
      | .ok (fallback, blockEnv) =>
        let pinned : PinnedBlock F := ⟨.empty, fallback, blockEnv⟩
        (.ok pinned,
          { r with
            built := r.built + 1
            cells := r.cells.modify cell fun cell => { cell with value := some pinned } })

/-- One `resume` or `restore` goes one lock further. -/
def Resuming.access (setup : Setup F) (r : Reception F) : Resuming F → Resuming F × Reception F
  | .load snapshotId =>
    match setup.load snapshotId with
    | .error reason => (.failed reason, r)
    | .ok (blockNumber, state) => (.restore blockNumber state, r)
  | .restore blockNumber state =>
    (if r.lobby.manager.blockEnv.value.number.toNat = blockNumber.toNat then
      .seeded blockNumber state .base
    else .pin blockNumber state, r)
  | .seeded blockNumber state .base =>
    (.seeded blockNumber state (.fallback r.lobby.manager.base), r)
  | .seeded blockNumber state (.fallback base) =>
    (.seeded blockNumber state (.blockEnv base r.lobby.manager.fallback), r)
  | .seeded blockNumber state (.blockEnv base fallback) =>
    (.opened blockNumber state
      (openSession base.value fallback.value r.lobby.manager.blockEnv.value (some state)), r)
  | .pin blockNumber state =>
    let (cell, r) := r.getOrInsert blockNumber
    (.build blockNumber state cell, r)
  | .build blockNumber state cell =>
    match r.getOrTryInit setup blockNumber cell with
    | (.error reason, r) => (.failed reason, r)
    | (.ok pinned, r) =>
      (.opened blockNumber state
        (openSession pinned.base pinned.fallback pinned.blockEnv (some state)), r)
  | .opened blockNumber state session => (.opened blockNumber state session, r)
  | .failed reason => (.failed reason, r)

inductive ReceptionEvent (F : Type) where
  | refresh (fallback : F) (blockEnv : BlockEnv)
  | fork
  | resume (snapshotId : String)
  | restore (blockNumber : UInt64) (state : SessionState)
  /-- The `i`-th refresh or fork takes its next lock. -/
  | access (i : ℕ)
  /-- The `i`-th `resume` or `restore` goes one lock further. -/
  | advance (i : ℕ)

def Reception.step (setup : Setup F) (r : Reception F) : ReceptionEvent F → Reception F
  | .refresh fallback blockEnv => { r with lobby := r.lobby.step (.refresh fallback blockEnv) }
  | .fork => { r with lobby := r.lobby.step .fork }
  | .resume snapshotId => { r with resumes := r.resumes ++ [(some snapshotId, .load snapshotId)] }
  | .restore blockNumber state =>
    { r with resumes := r.resumes ++ [(none, .restore blockNumber state)] }
  | .access i => { r with lobby := r.lobby.step (.access i) }
  | .advance i =>
    match r.resumes[i]? with
    | none => r
    | some (snapshotId, resuming) =>
      let (resuming, r) := resuming.access setup r
      { r with resumes := r.resumes.set i (snapshotId, resuming) }

/-! ### Sessions at their snapshot's block -/

/-- The fallback was installed with a block env of this number. -/
def FallbackAt (installed : List (Installed F)) (blockNumber : UInt64) (fallback : F) : Prop :=
  ∃ triple ∈ installed, triple.fallback = fallback ∧
    triple.blockEnv.number.toNat = blockNumber.toNat

/-- The base was installed with a block env of this number, or is empty: one for every block. -/
def BaseAt (installed : List (Installed F)) (blockNumber : UInt64) (base : BaseSnapshot) : Prop :=
  base = .empty ∨ ∃ triple ∈ installed, triple.base = base ∧
    triple.blockEnv.number.toNat = blockNumber.toNat

/-- The factory built the fallback for this block. -/
def Setup.Built (setup : Setup F) (blockNumber : UInt64) (fallback : F) : Prop :=
  ∃ factory n blockEnv, setup.blockForks = some factory ∧
    factory n blockNumber = .ok (fallback, blockEnv)

/-- The session is at this block, its fallback and base are ones for it, and over them lies the
    state. -/
structure AtBlock (setup : Setup F) (installed : List (Installed F)) (blockNumber : UInt64)
    (state : SessionState) (s : Session F) : Prop where
  number : s.blockEnv.number.toNat = blockNumber.toNat
  fallback : FallbackAt installed blockNumber s.fallback ∨ setup.Built blockNumber s.fallback
  base : BaseAt installed blockNumber s.base
  laid : s = .restore s.base s.fallback s.blockEnv state

/-- The block env that the `writer`-th refresh installs has this number. -/
def Lobby.WriterAt (lobby : Lobby F) (writer : ℕ) (blockNumber : UInt64) : Prop :=
  ∀ triple, lobby.installed[writer]? = some triple →
    triple.blockEnv.number.toNat = blockNumber.toNat

/-- What keeps a resumed session at its block: when the check passes, the refresh of the manager's
    fallback and that of its base, unless that is empty, were to the same block; and from there to
    its last lock no refresh to another block writes a fallback or a block env it has yet to
    read. -/
def Reception.Undisturbed (r : Reception F) : ReceptionEvent F → Prop
  | .access i =>
    match r.lobby.calls[i]? with
    | some (.refresh _ _ blockEnv .fallback) => ∀ snapshotId blockNumber state next,
      (snapshotId, .seeded blockNumber state next) ∈ r.resumes →
        (∀ base fallback, next ≠ .blockEnv base fallback) →
          blockEnv.number.toNat = blockNumber.toNat
    | some (.refresh _ _ blockEnv .blockEnv) => ∀ snapshotId blockNumber state next,
      (snapshotId, .seeded blockNumber state next) ∈ r.resumes →
        blockEnv.number.toNat = blockNumber.toNat
    | _ => True
  | .advance i =>
    match r.resumes[i]? with
    | some (_, .restore blockNumber _) =>
      r.lobby.manager.blockEnv.value.number.toNat = blockNumber.toNat →
        r.lobby.WriterAt r.lobby.manager.fallback.writer blockNumber ∧
          (r.lobby.manager.base.value = .empty ∨
            r.lobby.WriterAt r.lobby.manager.base.writer blockNumber)
    | _ => True
  | _ => True

/-! ### The invariant of an undisturbed run -/

/-- What one `resume` or `restore` under way relies on. -/
def ResumingOk (setup : Setup F) (manager : SessionManager F) (installed : List (Installed F))
    (cells : List (PinnedCell F)) : Option String × Resuming F → Prop
  | (snapshotId, .load loaded) => snapshotId = some loaded
  | (snapshotId, .restore blockNumber state) | (snapshotId, .pin blockNumber state) =>
    ∀ id ∈ snapshotId, setup.load id = .ok (blockNumber, state)
  | (snapshotId, .seeded blockNumber state next) =>
    (∀ id ∈ snapshotId, setup.load id = .ok (blockNumber, state)) ∧
      manager.blockEnv.value.number.toNat = blockNumber.toNat ∧
      match next with
      | .base => BaseAt installed blockNumber manager.base.value ∧
        FallbackAt installed blockNumber manager.fallback.value
      | .fallback base => BaseAt installed blockNumber base.value ∧
        FallbackAt installed blockNumber manager.fallback.value
      | .blockEnv base fallback => BaseAt installed blockNumber base.value ∧
        FallbackAt installed blockNumber fallback.value
  | (snapshotId, .build blockNumber state cell) =>
    (∀ id ∈ snapshotId, setup.load id = .ok (blockNumber, state)) ∧
      ∃ made, cells[cell]? = some made ∧ made.blockNumber = blockNumber
  | (snapshotId, .opened blockNumber state s) =>
    (∀ id ∈ snapshotId, setup.load id = .ok (blockNumber, state)) ∧
      AtBlock setup installed blockNumber state s
  | (_, .failed _) => True

/-- A cell holds nothing but its own block. -/
def CellOk (setup : Setup F) (cell : PinnedCell F) : Prop :=
  ∀ pinned, cell.value = some pinned → pinned.base = .empty ∧
    pinned.blockEnv.number.toNat = cell.blockNumber.toNat ∧
    setup.Built cell.blockNumber pinned.fallback

structure Reception.Kept (setup : Setup F) (r : Reception F) : Prop where
  fallback : Wrote r.lobby.installed Installed.fallback r.lobby.manager.fallback
  base : Wrote r.lobby.installed Installed.base r.lobby.manager.base
  refreshes : ∀ writer fallback blockEnv next, .refresh writer fallback blockEnv next ∈ r.lobby.calls →
    r.lobby.installed[writer]? = some ⟨fallback, .empty, blockEnv⟩
  pinned : ∀ blockNumber cell, r.pinned.cells.lookup blockNumber = some cell →
    ∃ made, r.cells[cell]? = some made ∧ made.blockNumber = blockNumber
  cells : ∀ cell ∈ r.cells, CellOk setup cell
  resumes : ∀ resuming ∈ r.resumes,
    ResumingOk setup r.lobby.manager r.lobby.installed r.cells resuming

variable {setup : Setup F}

theorem fallbackAt_append {installed : List (Installed F)} {blockNumber : UInt64} {fallback : F}
    (h : FallbackAt installed blockNumber fallback) (more : List (Installed F)) :
    FallbackAt (installed ++ more) blockNumber fallback := by
  obtain ⟨triple, hmem, hrest⟩ := h
  exact ⟨triple, List.mem_append_left more hmem, hrest⟩

theorem baseAt_append {installed : List (Installed F)} {blockNumber : UInt64} {base : BaseSnapshot}
    (h : BaseAt installed blockNumber base) (more : List (Installed F)) :
    BaseAt (installed ++ more) blockNumber base := by
  rcases h with hempty | ⟨triple, hmem, hrest⟩
  · exact .inl hempty
  · exact .inr ⟨triple, List.mem_append_left more hmem, hrest⟩

theorem atBlock_append {installed : List (Installed F)} {blockNumber : UInt64}
    {state : SessionState} {s : Session F} (h : AtBlock setup installed blockNumber state s)
    (more : List (Installed F)) : AtBlock setup (installed ++ more) blockNumber state s :=
  ⟨h.number, h.fallback.imp_left (fallbackAt_append · more), baseAt_append h.base more, h.laid⟩

/-- What a call relies on stays true when more is installed, cells keep their blocks, and the
    manager it is still to read keeps being one of its block. -/
theorem resumingOk_mono {manager : SessionManager F} (manager' : SessionManager F)
    {installed : List (Installed F)} {cells : List (PinnedCell F)}
    {resuming : Option String × Resuming F}
    (h : ResumingOk setup manager installed cells resuming) (more : List (Installed F))
    (cells' : List (PinnedCell F))
    (hcells : ∀ (cell : ℕ) (made : PinnedCell F), cells[cell]? = some made →
      ∃ made', cells'[cell]? = some made' ∧ made'.blockNumber = made.blockNumber)
    (henv : ∀ snapshotId blockNumber state next,
      resuming = (snapshotId, .seeded blockNumber state next) →
        manager.blockEnv.value.number.toNat = blockNumber.toNat →
          manager'.blockEnv.value.number.toNat = blockNumber.toNat)
    (hfallback : ∀ snapshotId blockNumber state next,
      resuming = (snapshotId, .seeded blockNumber state next) →
        (∀ base fallback, next ≠ .blockEnv base fallback) →
          FallbackAt installed blockNumber manager.fallback.value →
            FallbackAt (installed ++ more) blockNumber manager'.fallback.value)
    (hbase : ∀ blockNumber, BaseAt installed blockNumber manager.base.value →
      BaseAt (installed ++ more) blockNumber manager'.base.value) :
    ResumingOk setup manager' (installed ++ more) cells' resuming := by
  obtain ⟨snapshotId, resuming⟩ := resuming
  cases resuming with
  | load loaded => exact h
  | restore blockNumber state => exact h
  | pin blockNumber state => exact h
  | failed reason => exact trivial
  | opened blockNumber state s => exact ⟨h.1, atBlock_append h.2 more⟩
  | build blockNumber state cell =>
    obtain ⟨horigin, made, hmade, hnumber⟩ := h
    obtain ⟨made', hmade', hsame⟩ := hcells cell made hmade
    exact ⟨horigin, made', hmade', hsame.trans hnumber⟩
  | seeded blockNumber state next =>
    obtain ⟨horigin, hnumber, hreads⟩ := h
    refine ⟨horigin, henv _ _ _ _ rfl hnumber, ?_⟩
    cases next with
    | base =>
      exact ⟨hbase blockNumber hreads.1, hfallback _ _ _ _ rfl (by rintro _ _ ⟨⟩) hreads.2⟩
    | fallback base =>
      exact ⟨baseAt_append hreads.1 more, hfallback _ _ _ _ rfl (by rintro _ _ ⟨⟩) hreads.2⟩
    | blockEnv base fallback =>
      exact ⟨baseAt_append hreads.1 more, fallbackAt_append hreads.2 more⟩

/-- A manager that stays as it is unsettles no call. -/
theorem resumingOk_append {manager : SessionManager F} {installed : List (Installed F)}
    {cells : List (PinnedCell F)} {resuming : Option String × Resuming F}
    (h : ResumingOk setup manager installed cells resuming) (more : List (Installed F))
    (cells' : List (PinnedCell F))
    (hcells : ∀ (cell : ℕ) (made : PinnedCell F), cells[cell]? = some made →
      ∃ made', cells'[cell]? = some made' ∧ made'.blockNumber = made.blockNumber) :
    ResumingOk setup manager (installed ++ more) cells' resuming :=
  resumingOk_mono manager h more cells' hcells (fun _ _ _ _ _ => id)
    (fun _ _ _ _ _ _ hfallback => fallbackAt_append hfallback more)
    fun _ hbase => baseAt_append hbase more

theorem kept_start (fallback : F) (base : BaseSnapshot) (blockEnv : BlockEnv) (cap : ℕ) :
    Reception.Kept setup (.start fallback base blockEnv cap) where
  fallback := ⟨_, rfl, rfl⟩
  base := ⟨_, rfl, rfl⟩
  refreshes _ _ _ _ h := by simp [Reception.start, Lobby.start] at h
  pinned _ _ h := by simp [Reception.start] at h
  cells _ h := by simp [Reception.start] at h
  resumes _ h := by simp [Reception.start] at h

/-! ### Steps of the lobby -/

/-- A refresh or a fork is made. -/
theorem kept_call {r : Reception F} (h : r.Kept setup) (call : Call F) (more : List (Installed F))
    (hcall : ∀ writer fallback blockEnv next, call = .refresh writer fallback blockEnv next →
      (r.lobby.installed ++ more)[writer]? = some ⟨fallback, .empty, blockEnv⟩) :
    Reception.Kept setup { r with
      lobby := { r.lobby with
        calls := r.lobby.calls ++ [call], installed := r.lobby.installed ++ more } } := by
  refine ⟨wrote_append h.fallback more, wrote_append h.base more, ?_, h.pinned, h.cells, ?_⟩
  · intro writer fallback blockEnv next hmem
    rcases List.mem_append.mp hmem with hold | hnew
    · have hget := h.refreshes writer fallback blockEnv next hold
      obtain ⟨hlt, -⟩ := List.getElem?_eq_some_iff.mp hget
      rw [List.getElem?_append_left hlt, hget]
    · exact hcall writer fallback blockEnv next (List.mem_singleton.mp hnew).symm
  · intro resuming hmem
    exact resumingOk_append (h.resumes resuming hmem) more r.cells
      fun _ made hmade => ⟨made, hmade, rfl⟩

/-- A refresh or a fork moves on: what it writes is of the block every call is at that has yet to
    read it. -/
theorem kept_move {r : Reception F} (h : r.Kept setup) {i : ℕ} (call' : Call F)
    (manager' : SessionManager F) (opened : List (Session F))
    (hcall : ∀ writer fallback blockEnv next, call' = .refresh writer fallback blockEnv next →
      r.lobby.installed[writer]? = some ⟨fallback, .empty, blockEnv⟩)
    (hwroteFallback : Wrote r.lobby.installed Installed.fallback manager'.fallback)
    (hwroteBase : Wrote r.lobby.installed Installed.base manager'.base)
    (henv : ∀ snapshotId blockNumber state next,
      (snapshotId, .seeded blockNumber state next) ∈ r.resumes →
        r.lobby.manager.blockEnv.value.number.toNat = blockNumber.toNat →
          manager'.blockEnv.value.number.toNat = blockNumber.toNat)
    (hfallback : ∀ snapshotId blockNumber state next,
      (snapshotId, .seeded blockNumber state next) ∈ r.resumes →
        (∀ base fallback, next ≠ .blockEnv base fallback) →
          FallbackAt r.lobby.installed blockNumber r.lobby.manager.fallback.value →
            FallbackAt r.lobby.installed blockNumber manager'.fallback.value)
    (hbase : ∀ blockNumber, BaseAt r.lobby.installed blockNumber r.lobby.manager.base.value →
      BaseAt r.lobby.installed blockNumber manager'.base.value) :
    Reception.Kept setup { r with
      lobby := { r.lobby with
        manager := manager', calls := r.lobby.calls.set i call', opened := opened } } := by
  refine ⟨hwroteFallback, hwroteBase, ?_, h.pinned, h.cells, ?_⟩
  · intro writer fallback blockEnv next hmem
    rcases List.mem_or_eq_of_mem_set hmem with hold | hnew
    · exact h.refreshes writer fallback blockEnv next hold
    · exact hcall writer fallback blockEnv next hnew.symm
  · intro resuming hmem
    have hmono := resumingOk_mono manager' (h.resumes resuming hmem) [] r.cells
      (fun _ made hmade => ⟨made, hmade, rfl⟩)
      (fun snapshotId blockNumber state next heq =>
        henv snapshotId blockNumber state next (heq ▸ hmem))
      (fun snapshotId blockNumber state next heq => by
        rw [List.append_nil]
        exact hfallback snapshotId blockNumber state next (heq ▸ hmem))
      (by rw [List.append_nil]; exact hbase)
    rwa [List.append_nil] at hmono

/-- STEP LEMMA, locks of the lobby: an undisturbed lock access keeps every call at its block. -/
theorem kept_access {r : Reception F} (h : r.Kept setup) {i : ℕ}
    (hguard : r.Undisturbed (.access i)) :
    Reception.Kept setup { r with lobby := r.lobby.step (.access i) } := by
  simp only [Lobby.step]
  simp only [Reception.Undisturbed] at hguard
  split
  · exact h
  rename_i call hi
  rw [hi] at hguard
  have hmem : call ∈ r.lobby.calls := List.mem_of_getElem? hi
  cases call with
  | refresh writer fallback blockEnv next =>
    have hget := h.refreshes writer fallback blockEnv next hmem
    have hinstalled : (⟨fallback, .empty, blockEnv⟩ : Installed F) ∈ r.lobby.installed :=
      List.mem_of_getElem? hget
    simp only [Call.access]
    cases next with
    | fallback =>
      refine kept_move h _ _ _ ?_ ⟨_, hget, rfl⟩ h.base (fun _ _ _ _ _ => id) ?_ fun _ => id
      · rintro _ _ _ _ ⟨⟩
        exact hget
      · intro snapshotId blockNumber state next hresume hnext _
        exact ⟨_, hinstalled, rfl, hguard snapshotId blockNumber state next hresume hnext⟩
    | blockEnv =>
      refine kept_move h _ _ _ ?_ h.fallback h.base ?_ (fun _ _ _ _ _ _ => id) fun _ => id
      · rintro _ _ _ _ ⟨⟩
        exact hget
      · intro snapshotId blockNumber state next hresume _
        exact hguard snapshotId blockNumber state next hresume
    | base =>
      refine kept_move h _ _ _ ?_ h.fallback ⟨_, hget, rfl⟩ (fun _ _ _ _ _ => id)
        (fun _ _ _ _ _ _ => id) fun _ _ => .inl rfl
      rintro _ _ _ _ ⟨⟩
  | restore blockNumber state =>
    refine kept_move h _ _ _ ?_ h.fallback h.base (fun _ _ _ _ _ => id) (fun _ _ _ _ _ _ => id)
      fun _ => id
    simp only [Call.access]
    split <;> rintro _ _ _ _ ⟨⟩
  | fork seed next =>
    cases next <;> refine kept_move h _ _ _ (by rintro _ _ _ _ ⟨⟩) h.fallback h.base
      (fun _ _ _ _ _ => id) (fun _ _ _ _ _ _ => id) fun _ => id
  | returned =>
    exact kept_move h _ _ _ (by rintro _ _ _ _ ⟨⟩) h.fallback h.base
      (fun _ _ _ _ _ => id) (fun _ _ _ _ _ _ => id) fun _ => id

/-! ### Steps of a resume -/

/-- Cells keep the block they were made for. -/
def Extends (cells cells' : List (PinnedCell F)) : Prop :=
  ∀ (cell : ℕ) (made : PinnedCell F), cells[cell]? = some made →
    ∃ made', cells'[cell]? = some made' ∧ made'.blockNumber = made.blockNumber

theorem extends_refl (cells : List (PinnedCell F)) : Extends cells cells :=
  fun _ made hmade => ⟨made, hmade, rfl⟩

/-- Evicting only drops blocks. -/
theorem evict_lookup (cap : ℕ) : ∀ {recency : List UInt64} {cells : Map UInt64 ℕ}
    {blockNumber : UInt64} {cell : ℕ}, (evict cap recency cells).2.lookup blockNumber = some cell →
      cells.lookup blockNumber = some cell
  | [], _, _, _, h => h
  | evicted :: recency, cells, blockNumber, cell, h => by
    simp only [evict] at h
    split at h
    · exact Map.of_lookup_erase (evict_lookup cap h)
    · exact h

/-- At most a cell was made or filled. -/
structure Filled (setup : Setup F) (r r' : Reception F) : Prop where
  lobby : r'.lobby = r.lobby
  resumes : r'.resumes = r.resumes
  extends_cells : Extends r.cells r'.cells
  pinned : ∀ blockNumber cell, r'.pinned.cells.lookup blockNumber = some cell →
    ∃ made, r'.cells[cell]? = some made ∧ made.blockNumber = blockNumber
  cells : ∀ cell ∈ r'.cells, CellOk setup cell

theorem Reception.Kept.unfilled {r : Reception F} (h : r.Kept setup) : Filled setup r r :=
  ⟨rfl, rfl, extends_refl r.cells, h.pinned, h.cells⟩

/-- A resume moves on. -/
theorem kept_set {r r' : Reception F} (h : r.Kept setup) (hfilled : Filled setup r r') (i : ℕ)
    {resuming : Option String × Resuming F}
    (hok : ResumingOk setup r.lobby.manager r.lobby.installed r'.cells resuming) :
    Reception.Kept setup { r' with resumes := r'.resumes.set i resuming } := by
  obtain ⟨hlobby, hresumes, hextends, hpinned, hcells⟩ := hfilled
  refine ⟨by rw [hlobby]; exact h.fallback, by rw [hlobby]; exact h.base,
    by rw [hlobby]; exact h.refreshes, hpinned, hcells, ?_⟩
  rw [hlobby, hresumes]
  intro other hmem
  rcases List.mem_or_eq_of_mem_set hmem with hold | rfl
  · have happend := resumingOk_append (h.resumes other hold) [] r'.cells hextends
    rwa [List.append_nil] at happend
  · exact hok

/-- `get_or_insert` hands out a cell of the block. -/
theorem getOrInsert_spec {r : Reception F} (h : r.Kept setup) (blockNumber : UInt64) :
    Filled setup r (r.getOrInsert blockNumber).2 ∧
      ∃ made, (r.getOrInsert blockNumber).2.cells[(r.getOrInsert blockNumber).1]? = some made ∧
        made.blockNumber = blockNumber := by
  have hkept : ∀ {cells' : List (PinnedCell F)} {cell : ℕ} {made : PinnedCell F},
      Extends r.cells cells' → cells'[cell]? = some made → made.blockNumber = blockNumber →
      ∀ number cell', (evict r.pinned.cap
          (r.pinned.recency.filter (· ≠ blockNumber) ++ [blockNumber])
          (r.pinned.cells.insert blockNumber cell)).2.lookup number = some cell' →
        ∃ made, cells'[cell']? = some made ∧ made.blockNumber = number := by
    intro cells' cell made hextends hmade hnumber number cell' hlookup
    rcases Map.of_lookup_insert (evict_lookup _ hlookup) with ⟨rfl, rfl⟩ | hold
    · exact ⟨made, hmade, hnumber⟩
    · obtain ⟨made₀, hmade₀, hnumber₀⟩ := h.pinned number cell' hold
      obtain ⟨made', hmade', hsame⟩ := hextends cell' made₀ hmade₀
      exact ⟨made', hmade', hsame.trans hnumber₀⟩
  unfold Reception.getOrInsert PinnedBlocks.getOrInsert
  cases hlookup : r.pinned.cells.lookup blockNumber with
  | some cell =>
    obtain ⟨made, hmade, hnumber⟩ := h.pinned blockNumber cell hlookup
    have hextends := extends_refl r.cells
    exact ⟨⟨rfl, rfl, hextends, hkept hextends hmade hnumber, h.cells⟩, made, hmade, hnumber⟩
  | none =>
    have hextends : Extends r.cells (r.cells ++ [⟨blockNumber, none⟩]) := by
      intro cell made hmade
      obtain ⟨hlt, -⟩ := List.getElem?_eq_some_iff.mp hmade
      exact ⟨made, by rw [List.getElem?_append_left hlt, hmade], rfl⟩
    have hmade : (r.cells ++ [⟨blockNumber, none⟩])[r.cells.length]?
        = some ⟨blockNumber, none⟩ := List.getElem?_concat_length
    refine ⟨⟨rfl, rfl, hextends, hkept hextends hmade rfl, ?_⟩, _, hmade, rfl⟩
    intro cell hmem
    rcases List.mem_append.mp hmem with hold | hnew
    · exact h.cells cell hold
    · rw [List.mem_singleton.mp hnew]
      rintro _ ⟨⟩

/-- What the cell of a block is filled with is that block. -/
theorem getOrTryInit_spec (hfactory : ∀ factory ∈ setup.blockForks,
      ∀ n blockNumber fallback blockEnv, factory n blockNumber = .ok (fallback, blockEnv) →
        blockEnv.number.toNat = blockNumber.toNat)
    {r : Reception F} (h : r.Kept setup) {cell : ℕ} {made : PinnedCell F}
    (hmade : r.cells[cell]? = some made) :
    Filled setup r (r.getOrTryInit setup made.blockNumber cell).2 ∧
      ∀ pinned, (r.getOrTryInit setup made.blockNumber cell).1 = .ok pinned →
        pinned.base = .empty ∧ pinned.blockEnv.number.toNat = made.blockNumber.toNat ∧
          setup.Built made.blockNumber pinned.fallback := by
  unfold Reception.getOrTryInit
  cases hforks : setup.blockForks with
  | none => exact ⟨h.unfilled, by rintro _ ⟨⟩⟩
  | some factory =>
    simp only [hmade, Option.bind_some]
    cases hvalue : made.value with
    | some pinned =>
      refine ⟨h.unfilled, ?_⟩
      rintro _ ⟨⟩
      exact h.cells made (List.mem_of_getElem? hmade) pinned hvalue
    | none =>
      cases hanswer : factory r.built made.blockNumber with
      | error reason =>
        exact ⟨⟨rfl, rfl, extends_refl r.cells, h.pinned, h.cells⟩, by rintro _ ⟨⟩⟩
      | ok answer =>
        obtain ⟨fallback, blockEnv⟩ := answer
        have hat : blockEnv.number.toNat = made.blockNumber.toNat :=
          hfactory factory hforks r.built made.blockNumber fallback blockEnv hanswer
        have hbuilt : setup.Built made.blockNumber fallback :=
          ⟨factory, r.built, blockEnv, hforks, hanswer⟩
        have hextends : Extends r.cells (r.cells.modify cell fun made =>
            { made with value := some ⟨.empty, fallback, blockEnv⟩ }) := by
          intro cell' made' hmade'
          rw [List.getElem?_modify, hmade']
          exact ⟨_, rfl, by split <;> rfl⟩
        refine ⟨⟨rfl, rfl, hextends, ?_, ?_⟩, ?_⟩
        · intro number cell' hlookup
          obtain ⟨made₀, hmade₀, hnumber₀⟩ := h.pinned number cell' hlookup
          obtain ⟨made', hmade', hsame⟩ := hextends cell' made₀ hmade₀
          exact ⟨made', hmade', hsame.trans hnumber₀⟩
        · intro other hmem
          obtain ⟨cell', hcell'⟩ := List.mem_iff_getElem?.mp hmem
          simp only [List.getElem?_modify] at hcell'
          obtain ⟨made', hmade', rfl⟩ := Option.map_eq_some_iff.mp hcell'
          split
          · rename_i hsame
            subst hsame
            obtain rfl : made = made' := Option.some.inj (hmade.symm.trans hmade')
            rintro _ ⟨⟩
            exact ⟨rfl, hat, hbuilt⟩
          · exact h.cells made' (List.mem_of_getElem? hmade')
        · rintro _ ⟨⟩
          exact ⟨rfl, hat, hbuilt⟩

/-- STEP LEMMA, locks of a resume: an undisturbed step keeps every call at its block. -/
theorem kept_advance (hfactory : ∀ factory ∈ setup.blockForks,
      ∀ n blockNumber fallback blockEnv, factory n blockNumber = .ok (fallback, blockEnv) →
        blockEnv.number.toNat = blockNumber.toNat)
    {r : Reception F} (h : r.Kept setup) {i : ℕ} (hguard : r.Undisturbed (.advance i)) :
    (r.step setup (.advance i)).Kept setup := by
  simp only [Reception.step]
  simp only [Reception.Undisturbed] at hguard
  split
  · exact h
  rename_i snapshotId resuming hi
  rw [hi] at hguard
  have hok := h.resumes _ (List.mem_of_getElem? hi)
  cases resuming with
  | load loaded =>
    obtain rfl : snapshotId = some loaded := hok
    simp only [Resuming.access]
    cases hload : setup.load loaded with
    | error reason => exact kept_set h h.unfilled i trivial
    | ok snapshot =>
      refine kept_set h h.unfilled i ?_
      rintro id ⟨⟩
      exact hload
  | restore blockNumber state =>
    refine kept_set h h.unfilled i ?_
    dsimp only [Resuming.access]
    split
    · rename_i hsame
      obtain ⟨hfallback, hbase⟩ := hguard hsame
      obtain ⟨triple, hget, hvalue⟩ := h.fallback
      refine ⟨hok, hsame, ?_, triple, List.mem_of_getElem? hget, hvalue, hfallback triple hget⟩
      refine hbase.imp_right fun hwriter => ?_
      obtain ⟨triple, hget, hvalue⟩ := h.base
      exact ⟨triple, List.mem_of_getElem? hget, hvalue, hwriter triple hget⟩
    · exact hok
  | seeded blockNumber state next =>
    obtain ⟨horigin, hnumber, hreads⟩ := hok
    cases next with
    | base => exact kept_set h h.unfilled i ⟨horigin, hnumber, hreads⟩
    | fallback base => exact kept_set h h.unfilled i ⟨horigin, hnumber, hreads⟩
    | blockEnv base fallback =>
      exact kept_set h h.unfilled i ⟨horigin, hnumber, .inl hreads.2, hreads.1, rfl⟩
  | pin blockNumber state =>
    obtain ⟨hfilled, made, hmade, hnumber⟩ := getOrInsert_spec h blockNumber
    exact kept_set h hfilled i ⟨hok, made, hmade, hnumber⟩
  | build blockNumber state cell =>
    obtain ⟨horigin, made, hmade, rfl⟩ := hok
    obtain ⟨hfilled, hpinned⟩ := getOrTryInit_spec hfactory h hmade
    simp only [Resuming.access]
    rcases hbuild : r.getOrTryInit setup made.blockNumber cell with ⟨reason | pinned, r'⟩
    · rw [hbuild] at hfilled
      exact kept_set h hfilled i trivial
    · rw [hbuild] at hfilled hpinned
      obtain ⟨hbase, hnumber, hbuilt⟩ := hpinned pinned rfl
      exact kept_set h hfilled i ⟨horigin, hnumber, .inr hbuilt, .inl hbase, rfl⟩
  | opened blockNumber state s => exact kept_set h h.unfilled i hok
  | failed reason => exact kept_set h h.unfilled i trivial

/-- STEP LEMMA: an undisturbed step keeps every call at its block. -/
theorem kept_step (hfactory : ∀ factory ∈ setup.blockForks,
      ∀ n blockNumber fallback blockEnv, factory n blockNumber = .ok (fallback, blockEnv) →
        blockEnv.number.toNat = blockNumber.toNat)
    {r : Reception F} (h : r.Kept setup) (event : ReceptionEvent F)
    (hguard : r.Undisturbed event) : (r.step setup event).Kept setup := by
  cases event with
  | refresh fallback blockEnv =>
    refine kept_call h _ [⟨fallback, .empty, blockEnv⟩] ?_
    rintro _ _ _ _ ⟨⟩
    exact List.getElem?_concat_length
  | fork =>
    have hcall := kept_call h (.fork none .base) [] (by rintro _ _ _ _ ⟨⟩)
    rwa [List.append_nil] at hcall
  | resume snapshotId =>
    refine ⟨h.fallback, h.base, h.refreshes, h.pinned, h.cells, ?_⟩
    intro resuming hmem
    rcases List.mem_append.mp hmem with hold | hnew
    · exact h.resumes resuming hold
    · rw [List.mem_singleton.mp hnew]
      exact rfl
  | restore blockNumber state =>
    refine ⟨h.fallback, h.base, h.refreshes, h.pinned, h.cells, ?_⟩
    intro resuming hmem
    rcases List.mem_append.mp hmem with hold | hnew
    · exact h.resumes resuming hold
    · rw [List.mem_singleton.mp hnew]
      rintro _ ⟨⟩
  | access i => exact kept_access h hguard
  | advance i => exact kept_advance hfactory h hguard

/-- RUN LEMMA: an undisturbed run keeps every call at its block. -/
theorem kept_run (hfactory : ∀ factory ∈ setup.blockForks,
      ∀ n blockNumber fallback blockEnv, factory n blockNumber = .ok (fallback, blockEnv) →
        blockEnv.number.toNat = blockNumber.toNat)
    (fallback : F) (base : BaseSnapshot) (blockEnv : BlockEnv) (cap : ℕ)
    (events : List (ReceptionEvent F))
    (hundisturbed : Guarded (Reception.step setup) Reception.Undisturbed
      (.start fallback base blockEnv cap) events) :
    (runAll (Reception.step setup) (.start fallback base blockEnv cap) events).Kept setup :=
  guarded_inv (P := Reception.Kept setup) (fun _ event h => kept_step hfactory h event) _ events
    (kept_start fallback base blockEnv cap) hundisturbed

/-- CORRECT: in an undisturbed run every session opened by `resume` or `restore` is at the block it
    was asked for, which is the snapshot's own, and so are its fallback and its base. -/
theorem resumed_at_block (hfactory : ∀ factory ∈ setup.blockForks,
      ∀ n blockNumber fallback blockEnv, factory n blockNumber = .ok (fallback, blockEnv) →
        blockEnv.number.toNat = blockNumber.toNat)
    (fallback : F) (base : BaseSnapshot) (blockEnv : BlockEnv) (cap : ℕ)
    (events : List (ReceptionEvent F))
    (hundisturbed : Guarded (Reception.step setup) Reception.Undisturbed
      (.start fallback base blockEnv cap) events) :
    let r := runAll (Reception.step setup) (.start fallback base blockEnv cap) events
    ∀ snapshotId blockNumber state s, (snapshotId, .opened blockNumber state s) ∈ r.resumes →
      (∀ id ∈ snapshotId, setup.load id = .ok (blockNumber, state)) ∧
        AtBlock setup r.lobby.installed blockNumber state s :=
  fun _ _ _ _ hmem =>
    (kept_run hfactory fallback base blockEnv cap events hundisturbed).resumes _ hmem

/-- The factory of a chain: every block is served, by a fallback of its own. -/
def forkAt (_n : ℕ) (blockNumber : UInt64) : Except String (ℕ × BlockEnv) :=
  .ok (blockNumber.toNat, blockAt (.ofNat 256 blockNumber.toNat))

/-- One resume, a refresh to block 2 and another resume, one after another. -/
def resumedTwice (snapshotId : String) : List (ReceptionEvent ℕ) :=
  [.resume snapshotId, .advance 0, .advance 0, .advance 0, .advance 0, .advance 0,
    .refresh 2 (blockAt 2), .access 0, .access 0, .access 0,
    .resume snapshotId, .advance 1, .advance 1, .advance 1, .advance 1]

theorem resumedTwice_undisturbed {setup : Setup ℕ} (hforks : setup.blockForks = some forkAt)
    {snapshotId : String} {state : SessionState} (hload : setup.load snapshotId = .ok (1, state)) :
    Guarded (Reception.step setup) Reception.Undisturbed (.start 1 seededBase (blockAt 1) 16)
        (resumedTwice snapshotId) ∧
      (runAll (Reception.step setup) (.start 1 seededBase (blockAt 1) 16)
        (resumedTwice snapshotId)).resumes
      = [(some snapshotId, .opened 1 state (.restore seededBase 1 (blockAt 1) state)),
        (some snapshotId, .opened 1 state (.restore .empty 1 (blockAt 1) state))] := by
  constructor
  · simp [resumedTwice, Guarded, Reception.start, Lobby.start, Reception.step, Resuming.access, hload,
      Reception.Undisturbed, Lobby.step, Call.access, blockAt, Lobby.WriterAt,
      Reception.getOrInsert]
  · simp [resumedTwice, Reception.start, Lobby.start, Reception.step, Resuming.access, hload,
      Lobby.step, Call.access, blockAt, Reception.getOrInsert, Reception.getOrTryInit, hforks, forkAt]
    rfl

/-- A contract is snapshotted at block 1 and resumed there once before and once after the manager
    has moved on to block 2. -/
theorem resumed_at_block_twice :
    ∃ info disk' state, twinStore.store (.only (twinFile (some stopCode)) contractText) twinKeccak 1
        ((twin (some stopCode)).state .some) emptyDisk = .ok (info, disk') ∧
      let setup : Setup ℕ := ⟨some twinStore, .only (twinFile (some stopCode)) contractText, twinRaw,
        disk', some forkAt⟩
      let r := runAll (Reception.step setup) (.start 1 seededBase (blockAt 1) 16)
        (resumedTwice info.id)
      AtBlock setup r.lobby.installed 1 state (.restore seededBase 1 (blockAt 1) state) ∧
        AtBlock setup r.lobby.installed 1 state (.restore .empty 1 (blockAt 1) state) := by
  obtain ⟨info, disk', hstore, hload⟩ := twin_stored (some stopCode) contractText
  refine ⟨info, disk', ((twin (some stopCode)).state .some).reloaded, hstore, ?_⟩
  set state := ((twin (some stopCode)).state .some).reloaded
  intro setup r
  have hsetup : setup.load info.id = .ok (1, state) := by
    simp only [setup, Setup.load, hload]
    rfl
  have hfactory : ∀ factory ∈ setup.blockForks, ∀ n blockNumber fallback blockEnv,
      factory n blockNumber = .ok (fallback, blockEnv) →
        blockEnv.number.toNat = blockNumber.toNat := by
    rintro _ ⟨⟩ n blockNumber fallback blockEnv hanswer
    obtain ⟨-, rfl⟩ := Prod.mk.inj (Except.ok.inj hanswer)
    have hlt := blockNumber.toNat_lt
    simp only [blockAt, BitVec.toNat_ofNat]
    omega
  have hforks : setup.blockForks = some forkAt := rfl
  obtain ⟨hundisturbed, hresumes⟩ := resumedTwice_undisturbed hforks hsetup
  have hat := resumed_at_block hfactory 1 seededBase (blockAt 1) 16 (resumedTwice info.id)
    hundisturbed
  simp only [hresumes] at hat
  dsimp only [r]
  exact ⟨(hat _ _ _ _ List.mem_cons_self).2,
    (hat _ _ _ _ (List.mem_cons_of_mem _ List.mem_cons_self)).2⟩

/-- A refresh between the check and the reads lays block 1's state over block 2. -/
theorem refresh_after_check :
    let setup : Setup ℕ := ⟨none, .only (twinFile none) bareText, twinRaw, emptyDisk, none⟩
    let r := runAll (Reception.step setup) (.start 1 .empty (blockAt 1) 16)
      [.restore 1 ⟨[(0xa, .default)], [], []⟩, .advance 0, .refresh 2 (blockAt 2), .access 0, .access 0,
        .access 0, .advance 0, .advance 0, .advance 0]
    ¬ ∀ snapshotId blockNumber state s, (snapshotId, .opened blockNumber state s) ∈ r.resumes →
      (∀ id ∈ snapshotId, setup.load id = .ok (blockNumber, state)) ∧
        AtBlock setup r.lobby.installed blockNumber state s := by
  intro setup r h
  have hopened : r.resumes = [(none, .opened 1 ⟨[(0xa, .default)], [], []⟩
      (.restore .empty 2 (blockAt 2) ⟨[(0xa, .default)], [], []⟩))] := rfl
  obtain ⟨-, hat⟩ := h _ _ _ _ (hopened ▸ List.mem_singleton.mpr rfl)
  exact absurd hat.number (by decide)

end Forkyard
