import Forkyard.Schemes.Steps
import Forkyard.Session.Alike

/-! The HTTP surface's side table: for every session a block counter and the receipts of the
    transactions sent to it, in one map under one lock. A handler alternates between its session's
    worker, which serves jobs one at a time as `Serial` has it, and the table; whatever other
    handlers do falls in between. `past` is no part of the program: it records what was committed on
    a session and what has reached its entry.

        send:     advance ──▶ block env ──▶ enter the receipt
        forkFrom: branch ──▶ adopt ──▶ clone the parent's entry
        discard:  discard ──▶ remove the entry -/

namespace Forkyard

open Schemes

variable {F E : Type}

/-- A signed legacy transaction, its sender recovered. -/
structure LegacyTx where
  hash : B256
  signer : Address
  kind : TxKind
  value : U256
  input : Bytes
  gasLimit : UInt64
  gasPrice : BitVec 128
  nonce : UInt64
  chainId : Option UInt64

/-- What `eth_sendRawTransaction` has a session execute. -/
def LegacyTx.env (tx : LegacyTx) : TxEnv where
  caller := tx.signer
  kind := tx.kind
  value := tx.value
  data := tx.input
  gasLimit := tx.gasLimit
  gasPrice := tx.gasPrice
  nonce := tx.nonce
  chainId := tx.chainId

/-- A receipt, by what its JSON is made of. -/
structure Receipt where
  transactionHash : B256
  sender : Address
  kind : TxKind
  result : ExecutionResult
  blockNumber : UInt64

def buildReceipt (tx : LegacyTx) (result : ExecutionResult) (blockNumber : UInt64) : Receipt :=
  ⟨tx.hash, tx.signer, tx.kind, result, blockNumber⟩

/-- One session's entry of the table. -/
structure SessionRpcState where
  receipts : Map B256 Receipt
  blockNumber : UInt64

def SessionRpcState.default : SessionRpcState := ⟨∅, 0⟩

/-- Count a transaction and keep its receipt. Numbers wrap, as a release build has them. -/
def SessionRpcState.enter (realStart : UInt64) (tx : LegacyTx) (result : ExecutionResult)
    (entry : SessionRpcState) : Receipt × SessionRpcState :=
  let blockNumber := entry.blockNumber + 1
  let receipt := buildReceipt tx result (realStart + blockNumber)
  (receipt, ⟨entry.receipts.insert tx.hash receipt, blockNumber⟩)

/-- `number.to::<u64>()`, which panics on what does not fit. -/
def BlockEnv.height (env : BlockEnv) : Option UInt64 :=
  if env.number.toNat < 2 ^ 64 then some (.ofNat env.number.toNat) else none

theorem BlockEnv.height_eq {env : BlockEnv} {height : UInt64} (h : env.height = some height) :
    height.toNat = env.number.toNat := by
  unfold BlockEnv.height at h
  split at h
  · rename_i hfits
    rw [← Option.some.inj h]
    exact UInt64.toNat_ofNat_of_lt' hfits
  · cases h

/-- A request under way. A send remembers its `turn`, how many sends were committed on its session
    before it; a branch how many were on its parent. -/
inductive Handler (F : Type) where
  | send (id : SessionId) (tx : LegacyTx)
  | executed (id : SessionId) (tx : LegacyTx) (result : ExecutionResult) (turn : ℕ)
  | located (id : SessionId) (tx : LegacyTx) (result : ExecutionResult) (realStart : UInt64)
    (turn : ℕ)
  | sent (id : SessionId) (receipt : Receipt) (turn : ℕ)
  | forkFrom (parent : SessionId)
  | branched (parent : SessionId) (session : Session F) (before : ℕ)
  | adopted (parent child : SessionId) (before : ℕ)
  | forked (parent child : SessionId) (before : ℕ)
  | discard (id : SessionId)
  | discarded (id : SessionId)
  | done
  | failed

/-- What became of a session: the block it was opened at, the entry it started with, the sends
    committed on it, the turns of those that reached its entry, and whether a discard took that. -/
structure Past where
  block : ℕ
  start : SessionRpcState
  commits : List (LegacyTx × ExecutionResult)
  entered : List ℕ
  dropped : Bool

def Past.none : Past := ⟨0, .default, [], [], false⟩

/-- The sessions, one manager, the side table and every request made so far. -/
structure Server (F : Type) where
  sessions : Map SessionId (Session F)
  nextId : ℕ
  blockEnv : BlockEnv
  rpcState : Map SessionId SessionRpcState
  handlers : List (Handler F)
  past : SessionId → Past

def Server.start (blockEnv : BlockEnv) : Server F := ⟨∅, 0, blockEnv, ∅, [], fun _ => .none⟩

/-- A job that neither opens its session nor takes it away. -/
def Job.InPlace : Job F → Prop
  | .command (.fork _ _ _ _ _) => False
  | .command (.adopt _ _) => False
  | .command (.discard _) => False
  | _ => True

/-- A request comes in or moves on by one step; a session is opened, or goes without the table being
    told (its `ttl` is over, or another surface discards it); a job of another surface or of a
    request that leaves the table alone is served; the manager moves on to another block. -/
inductive ServerEvent (F : Type) where
  | send (id : SessionId) (tx : LegacyTx)
  | forkFrom (parent : SessionId)
  | discard (id : SessionId)
  | move (i : ℕ)
  | opened (session : Session F)
  | expire (id : SessionId)
  | other (job : { job : Job F // job.InPlace })
  | refresh (blockEnv : BlockEnv)

namespace Server

/-- The block a session was forked at, the manager's where the session is gone. -/
def sessionBlockEnv (server : Server F) (id : SessionId) : BlockEnv :=
  match server.sessions.lookup id with
  | some s => s.blockEnv
  | none => server.blockEnv

/-- A session's entry, a fresh one where it has none. -/
def entry (server : Server F) (id : SessionId) : SessionRpcState :=
  (server.rpcState.lookup id).getD .default

/-- `eth_blockNumber`: the session's own block and the sends counted so far. -/
def realBlockNumber (server : Server F) (id : SessionId) : Option UInt64 :=
  (server.sessionBlockEnv id).height.map fun height => height + (server.entry id).blockNumber

/-- `eth_getTransactionReceipt`. -/
def transactionReceipt (server : Server F) (id : SessionId) (hash : B256) : Option Receipt :=
  (server.rpcState.lookup id).bind fun entry => entry.receipts.lookup hash

/-- A session under a new id. -/
def register (server : Server F) (session : Session F) : Server F :=
  let id := UInt64.ofNat server.nextId
  { server with
    nextId := server.nextId + 1
    sessions := server.sessions.insert id session
    past := Function.update server.past id
      ⟨session.blockEnv.number.toNat, server.entry id, [], [], false⟩ }

section Steps

variable [ToString E] (up : F → Upstream E) (evm : Evm E) (order : HashOrder)

/-- A job served on its session. -/
def serve (server : Server F) (job : Job F) : Option (Reply F) × Server F :=
  match refStep up evm order job (server.sessions.lookup job.sessionId) with
  | (reply, some s) =>
    (reply, { server with sessions := server.sessions.insert job.sessionId s })
  | (reply, none) => (reply, { server with sessions := server.sessions.erase job.sessionId })

/-- The next step of the `i`-th request. -/
def move (server : Server F) (i : ℕ) : Handler F → Server F
  | .send id tx =>
    match server.serve up evm order (.read id (.advance tx.env)) with
    | (some (.executed (.ok result)), served) =>
      { served with
        handlers := server.handlers.set i
          (.executed id tx result (server.past id).commits.length)
        past := Function.update server.past id
          { server.past id with commits := (server.past id).commits ++ [(tx, result)] } }
    | (_, served) => { served with handlers := server.handlers.set i .failed }
  | .executed id tx result turn =>
    match (server.sessionBlockEnv id).height with
    | some realStart =>
      { server with handlers := server.handlers.set i (.located id tx result realStart turn) }
    | none => { server with handlers := server.handlers.set i .failed }
  | .located id tx result realStart turn =>
    let (receipt, entry) := (server.entry id).enter realStart tx result
    { server with
      rpcState := server.rpcState.insert id entry
      handlers := server.handlers.set i (.sent id receipt turn)
      past := Function.update server.past id
        { server.past id with entered := (server.past id).entered ++ [turn] } }
  | .forkFrom parent =>
    match server.sessions.lookup parent with
    | some s =>
      { server with
        handlers := server.handlers.set i
          (.branched parent s.branch (server.past parent).commits.length) }
    | none => { server with handlers := server.handlers.set i .failed }
  | .branched parent session before =>
    { server.register session with
      handlers := server.handlers.set i (.adopted parent (UInt64.ofNat server.nextId) before) }
  | .adopted parent child before =>
    match server.rpcState.lookup parent with
    | some inherited =>
      { server with
        rpcState := server.rpcState.insert child inherited
        handlers := server.handlers.set i (.forked parent child before)
        past := Function.update server.past child { server.past child with start := inherited } }
    | none => { server with handlers := server.handlers.set i (.forked parent child before) }
  | .discard id =>
    { server with
      sessions := server.sessions.erase id
      handlers := server.handlers.set i (.discarded id) }
  | .discarded id =>
    { server with
      rpcState := server.rpcState.erase id
      handlers := server.handlers.set i .done
      past := Function.update server.past id { server.past id with
        dropped := (server.past id).dropped || (server.rpcState.lookup id).isSome } }
  | .sent _ _ _ | .forked _ _ _ | .done | .failed => server

def step (server : Server F) : ServerEvent F → Server F
  | .send id tx => { server with handlers := server.handlers ++ [.send id tx] }
  | .forkFrom parent => { server with handlers := server.handlers ++ [.forkFrom parent] }
  | .discard id => { server with handlers := server.handlers ++ [.discard id] }
  | .move i =>
    match server.handlers[i]? with
    | some handler => server.move up evm order i handler
    | none => server
  | .opened session => server.register session
  | .expire id => { server with sessions := server.sessions.erase id }
  | .other job => (server.serve up evm order job.1).2
  | .refresh blockEnv => { server with blockEnv := blockEnv }

end Steps

end Server

/-! ### Who is between worker and table -/

/-- The request is a send on `id` that is committed and has not reached the table, at turn `t`. -/
def Handler.pendingAt (id : SessionId) (t : ℕ) : Handler F → Bool
  | .executed id' _ _ turn => decide (id' = id ∧ turn = t)
  | .located id' _ _ _ turn => decide (id' = id ∧ turn = t)
  | _ => false

/-- The request is a send that has been answered. -/
def Handler.isSent : Handler F → Bool
  | .sent _ _ _ => true
  | _ => false

/-- What a request remembers is so. -/
def Handler.Noted (past : SessionId → Past) : Handler F → Prop
  | .executed id tx result turn => (past id).commits[turn]? = some (tx, result)
  | .located id tx result _ turn => (past id).commits[turn]? = some (tx, result)
  | .sent id receipt turn => ∃ tx result, (past id).commits[turn]? = some (tx, result) ∧
    receipt = buildReceipt tx result receipt.blockNumber
  | .branched parent _ before => before ≤ (past parent).commits.length
  | .adopted parent _ before => before ≤ (past parent).commits.length
  | .forked parent _ before => before ≤ (past parent).commits.length
  | _ => True

/-- Nothing goes missing on the way: block numbers fit, ids are not used twice, and where `forkFrom`
    clones an entry nobody has sent anything to the child yet. -/
def Handler.Orderly (server : Server F) : Handler F → Prop
  | .executed id _ _ _ => (server.sessionBlockEnv id).height.isSome = true
  | .branched _ _ _ => server.nextId < 2 ^ 64
  | .adopted parent child _ =>
    server.rpcState.lookup parent = none ∨ (server.past child).commits = []
  | _ => True

def Server.Orderly (server : Server F) : ServerEvent F → Prop
  | .move i => ∀ handler, server.handlers[i]? = some handler → handler.Orderly server
  | .opened _ => server.nextId < 2 ^ 64
  | _ => True

/-- One session's sends: each is on its way at its own turn or has reached the entry, which holds
    what reached it and what it started with, unless a discard has taken it. -/
structure Accounted (server : Server F) (id : SessionId) : Prop where
  turns : ∀ t, server.handlers.countP (Handler.pendingAt id t)
    = if t < (server.past id).commits.length ∧ t ∉ (server.past id).entered then 1 else 0
  within : ∀ t ∈ (server.past id).entered, t < (server.past id).commits.length
  nodup : (server.past id).entered.Nodup
  answered : ∀ t ∈ (server.past id).entered, ∃ receipt, .sent id receipt t ∈ server.handlers
  counter : (server.past id).dropped = false → (server.entry id).blockNumber
    = (server.past id).start.blockNumber + .ofNat (server.past id).entered.length
  receipts : (server.past id).dropped = false → ∀ hash,
    ((server.entry id).receipts.lookup hash).isSome ↔
      ((server.past id).start.receipts.lookup hash).isSome ∨
        ∃ t ∈ (server.past id).entered, ∃ commit, (server.past id).commits[t]? = some commit ∧
          commit.1.hash = hash

/-- INVARIANT of an orderly run. -/
structure Accounts (server : Server F) : Prop where
  accounted : ∀ id, Accounted server id
  noted : ∀ handler ∈ server.handlers, handler.Noted server.past
  fresh : ∀ id : SessionId, server.nextId ≤ id.toNat →
    server.sessions.lookup id = none ∧ (server.past id).commits = []

theorem accounts_start (blockEnv : BlockEnv) : Accounts (Server.start blockEnv : Server F) := by
  refine ⟨fun id => ⟨fun t => rfl, nofun, List.nodup_nil, nofun, fun _ => rfl, fun _ hash => ?_⟩,
    nofun, fun id _ => ⟨rfl, rfl⟩⟩
  simp [Server.entry, Server.start, Past.none, SessionRpcState.default]

/-- What is committed stays committed. -/
theorem noted_mono {past past' : SessionId → Past}
    (h : ∀ id, (past id).commits <+: (past' id).commits)
    {handler : Handler F} (hnoted : handler.Noted past) : handler.Noted past' := by
  have hget : ∀ {id : SessionId} {turn : ℕ} {commit : LegacyTx × ExecutionResult},
      (past id).commits[turn]? = some commit → (past' id).commits[turn]? = some commit := by
    intro id turn commit hcommit
    obtain ⟨more, hmore⟩ := h id
    rw [← hmore, List.getElem?_append_left (List.getElem?_eq_some_iff.mp hcommit).1]
    exact hcommit
  cases handler with
  | executed id tx result turn => exact hget hnoted
  | located id tx result realStart turn => exact hget hnoted
  | sent id receipt turn =>
    obtain ⟨tx, result, hcommit, hreceipt⟩ := hnoted
    exact ⟨tx, result, hget hcommit, hreceipt⟩
  | branched parent session before => exact Nat.le_trans hnoted (h parent).length_le
  | adopted parent child before => exact Nat.le_trans hnoted (h parent).length_le
  | forked parent child before => exact Nat.le_trans hnoted (h parent).length_le
  | send | forkFrom | discard | discarded | done | failed => trivial

variable {server server' : Server F} {id : SessionId}

/-- FRAME: a session sees only its own part of the server. -/
theorem accounted_frame (h : Accounted server id) (hpast : server'.past id = server.past id)
    (hentry : server'.entry id = server.entry id)
    (hcount : ∀ t, server'.handlers.countP (Handler.pendingAt id t)
      = server.handlers.countP (Handler.pendingAt id t))
    (hsent : ∀ receipt t, .sent id receipt t ∈ server.handlers →
      .sent id receipt t ∈ server'.handlers) : Accounted server' id := by
  refine ⟨?_, ?_, ?_, ?_, ?_, ?_⟩
  · rw [hpast]
    exact fun t => (hcount t).trans (h.turns t)
  · rw [hpast]; exact h.within
  · rw [hpast]; exact h.nodup
  · rw [hpast]
    exact fun t ht => (h.answered t ht).imp fun receipt => hsent receipt t
  · rw [hpast, hentry]; exact h.counter
  · rw [hpast, hentry]; exact h.receipts

/-- What a change of one session's past leaves alone is as it was for all. -/
theorem past_same {A : Type} (f : Past → A) {past : SessionId → Past} {id₀ : SessionId} {p : Past}
    (h : f p = f (past id₀)) (id : SessionId) : f (Function.update past id₀ p id) = f (past id) := by
  rw [Function.update_apply]
  split
  · rename_i hid
    rw [hid, h]
  · rfl

/-- A request that has been answered is not moved on. -/
theorem mem_set_of_mem {A : Type} {l : List A} {i : ℕ} {a b c : A} (hi : l[i]? = some a)
    (hmem : c ∈ l) (hne : c ≠ a) : c ∈ l.set i b := by
  obtain ⟨j, hj⟩ := List.mem_iff_getElem?.mp hmem
  refine List.mem_iff_getElem?.mpr ⟨j, ?_⟩
  rw [List.getElem?_set_ne, hj]
  rintro rfl
  exact hne (Option.some.inj (hj.symm.trans hi))

theorem ne_of_unsent {handler : Handler F} (h : handler.isSent = false) (id : SessionId)
    (receipt : Receipt) (t : ℕ) : .sent id receipt t ≠ handler := by
  rintro rfl
  cases h

/-- A request moves on that `id` need not care about. -/
theorem accounted_set {i : ℕ} {handler next : Handler F} (h : Accounted server id)
    (hi : server.handlers[i]? = some handler)
    (hhandlers : server'.handlers = server.handlers.set i next)
    (hpast : server'.past id = server.past id) (hentry : server'.entry id = server.entry id)
    (hpending : ∀ t, next.pendingAt id t = handler.pendingAt id t)
    (hnot : handler.isSent = false) : Accounted server' id := by
  refine accounted_frame h hpast hentry (fun t => ?_) fun receipt t hmem => ?_
  · have hcount := countP_set_add (Handler.pendingAt id t) next hi
    rw [hpending t] at hcount
    rw [hhandlers]
    omega
  · rw [hhandlers]
    exact mem_set_of_mem hi hmem (ne_of_unsent hnot id receipt t)

/-- A send is committed: it is on its way at the next turn. -/
theorem accounted_commit {i : ℕ} {tx : LegacyTx} {result : ExecutionResult}
    (h : Accounted server id)
    (hi : server.handlers[i]? = some (.send id tx))
    (hhandlers : server'.handlers
      = server.handlers.set i (.executed id tx result (server.past id).commits.length))
    (hpast : server'.past id = { server.past id with
      commits := (server.past id).commits ++ [(tx, result)] })
    (hentry : server'.entry id = server.entry id) : Accounted server' id := by
  have hlast : ∀ t ∈ (server.past id).entered,
      ((server.past id).commits ++ [(tx, result)])[t]? = (server.past id).commits[t]? :=
    fun t ht => List.getElem?_append_left (h.within t ht)
  refine ⟨fun t => ?_, ?_, ?_, ?_, ?_, ?_⟩
  · have hcount := countP_set_add (Handler.pendingAt id t)
      (.executed id tx result (server.past id).commits.length) hi
    have hturn := h.turns t
    have hwithin := h.within t
    rw [hhandlers, hpast]
    simp only [Handler.pendingAt, true_and, Bool.toNat_false, Nat.add_zero, List.length_append,
      List.length_singleton] at hcount ⊢
    rw [hcount, hturn]
    by_cases ht : (server.past id).commits.length = t
    · have hnot : t ∉ (server.past id).entered := fun hmem => by have := hwithin hmem; omega
      simp [ht, hnot]
    · by_cases hmem : t ∈ (server.past id).entered
      · simp [ht, hmem]
      · simp only [ht, hmem, decide_false, Bool.toNat_false, Nat.add_zero, not_false_eq_true,
          and_true]
        congr 1
        simp only [eq_iff_iff]
        omega
  · rw [hpast]
    intro t ht
    simp only [List.length_append, List.length_singleton]
    exact Nat.lt_succ_of_lt (h.within t ht)
  · rw [hpast]
    exact h.nodup
  · rw [hpast, hhandlers]
    intro t ht
    obtain ⟨receipt, hmem⟩ := h.answered t ht
    exact ⟨receipt, mem_set_of_mem hi hmem (ne_of_unsent rfl _ _ _)⟩
  · rw [hpast, hentry]
    exact h.counter
  · rw [hpast, hentry]
    intro hdropped hash
    rw [h.receipts hdropped hash]
    refine or_congr_right (exists_congr fun t => and_congr_right fun ht => ?_)
    rw [hlast t ht]

/-- A send reaches the table at its turn. -/
theorem accounted_enter {i : ℕ} {tx : LegacyTx} {result : ExecutionResult} {realStart : UInt64}
    {turn : ℕ} (h : Accounted server id)
    (hi : server.handlers[i]? = some (.located id tx result realStart turn))
    (hcommit : (server.past id).commits[turn]? = some (tx, result))
    (hhandlers : server'.handlers = server.handlers.set i
      (.sent id ((server.entry id).enter realStart tx result).1 turn))
    (hpast : server'.past id = { server.past id with
      entered := (server.past id).entered ++ [turn] })
    (hentry : server'.entry id = ((server.entry id).enter realStart tx result).2) :
    Accounted server' id ∧ turn ∉ (server.past id).entered := by
  have hcount := fun t => countP_set_add (Handler.pendingAt id t)
    (.sent id ((server.entry id).enter realStart tx result).1 turn) hi
  simp only [Handler.pendingAt, true_and, Bool.toNat_false, Nat.add_zero] at hcount
  obtain ⟨hlt, -⟩ := List.getElem?_eq_some_iff.mp hcommit
  have hnot : turn ∉ (server.past id).entered := by
    intro hmem
    have hone := hcount turn
    rw [h.turns turn] at hone
    simp [hmem] at hone
  refine ⟨⟨fun t => ?_, ?_, ?_, ?_, ?_, ?_⟩, hnot⟩
  · have hone := hcount t
    rw [h.turns t] at hone
    rw [hhandlers, hpast]
    by_cases ht : turn = t
    · subst ht
      simp [hlt, hnot] at hone ⊢
      omega
    · simp only [ht, decide_false, Bool.toNat_false, Nat.add_zero] at hone
      rw [hone]
      simp [Ne.symm ht]
  · rw [hpast]
    intro t ht
    rcases List.mem_append.mp ht with hold | hnew
    · exact h.within t hold
    · rw [List.mem_singleton.mp hnew]; exact hlt
  · rw [hpast]
    exact List.nodup_append'.mpr ⟨h.nodup, List.nodup_singleton turn, by simpa using hnot⟩
  · rw [hpast, hhandlers]
    intro t ht
    rcases List.mem_append.mp ht with hold | hnew
    · obtain ⟨receipt, hmem⟩ := h.answered t hold
      exact ⟨receipt, mem_set_of_mem hi hmem (ne_of_unsent rfl _ _ _)⟩
    · rw [List.mem_singleton.mp hnew]
      exact ⟨_, List.mem_set (List.getElem?_eq_some_iff.mp hi).1 _⟩
  · rw [hpast, hentry]
    intro hdropped
    simp only [SessionRpcState.enter, List.length_append, List.length_singleton]
    rw [h.counter hdropped, UInt64.ofNat_add, ← UInt64.add_assoc]
    rfl
  · rw [hpast, hentry]
    intro hdropped hash
    simp only [SessionRpcState.enter, Map.lookup_insert_eq]
    have hold := h.receipts hdropped hash
    by_cases hhash : hash = tx.hash
    · rw [if_pos hhash]
      simp only [Option.isSome_some, true_iff]
      exact .inr ⟨turn, List.mem_append_right _ (List.mem_singleton_self turn), _, hcommit,
        hhash.symm⟩
    · rw [if_neg hhash, hold]
      refine or_congr_right ⟨?_, ?_⟩
      · rintro ⟨t, ht, commit, hget, rfl⟩
        exact ⟨t, List.mem_append_left _ ht, commit, hget, rfl⟩
      · rintro ⟨t, ht, commit, hget, rfl⟩
        rcases List.mem_append.mp ht with hmem | hnew
        · exact ⟨t, hmem, commit, hget, rfl⟩
        · rw [List.mem_singleton.mp hnew, hcommit] at hget
          rw [← Option.some.inj hget] at hhash
          exact absurd rfl hhash

/-! ### One event -/

section Step

variable [ToString E] {up : F → Upstream E} {evm : Evm E} {order : HashOrder}

omit [ToString E] in
/-- A task leaves its session at its block. -/
theorem serve_blockEnv {R : Type} (task : Task E R) (s : Session F) :
    (task.serve up s).2.blockEnv = s.blockEnv := by
  have hrun := run_blockEnv (Upstream.db up) (task s.blockEnv) s ()
  unfold Task.serve
  rcases h : (task s.blockEnv).run (Session.answer (Upstream.db up)) (s, ()) with ⟨o, s', u⟩
  rw [h] at hrun
  cases o with
  | none => exact hrun
  | some outcome =>
    obtain ⟨r, diff⟩ := outcome
    cases diff with
    | none => exact hrun
    | some changes => exact (commit_rest s' changes).1.trans hrun

/-- A job in place leaves a session where one was, at its block. -/
theorem refStep_inPlace {job : Job F} (h : job.InPlace) (slot : Option (Session F)) :
    (refStep up evm order job slot).2.map Session.blockEnv = slot.map Session.blockEnv := by
  cases job with
  | read id request =>
    cases slot with
    | none => rfl
    | some s => exact congrArg some (serve_blockEnv (request.task (F := F) evm) s)
  | command c => cases c <;> first | exact h.elim | (cases slot <;> rfl)

variable (up evm order) in
/-- What serving a job does to the server: the sessions change, and only its own. -/
theorem serve_spec (server : Server F) (job : Job F) :
    (server.serve up evm order job).1
        = (refStep up evm order job (server.sessions.lookup job.sessionId)).1 ∧
      ∃ sessions, (server.serve up evm order job).2 = { server with sessions := sessions } ∧
        ∀ id, sessions.lookup id = if id = job.sessionId
          then (refStep up evm order job (server.sessions.lookup id)).2
          else server.sessions.lookup id := by
  unfold Server.serve
  rcases href : refStep up evm order job (server.sessions.lookup job.sessionId) with ⟨reply, _ | s⟩
  · refine ⟨rfl, _, rfl, fun id => ?_⟩
    rw [Map.lookup_erase_eq]
    split
    · rename_i hid
      rw [hid, href]
    · rfl
  · refine ⟨rfl, _, rfl, fun id => ?_⟩
    rw [Map.lookup_insert_eq]
    split
    · rename_i hid
      rw [hid, href]
    · rfl

variable (up evm order) in
/-- A job in place: no session comes or goes, or changes its block. -/
theorem serve_inPlace (server : Server F) {job : Job F} (h : job.InPlace) :
    ∃ sessions, (server.serve up evm order job).2 = { server with sessions := sessions } ∧
      ∀ id, (sessions.lookup id).map Session.blockEnv
        = (server.sessions.lookup id).map Session.blockEnv := by
  obtain ⟨-, sessions, hserve, hlookup⟩ := serve_spec up evm order server job
  refine ⟨sessions, hserve, fun id => ?_⟩
  rw [hlookup]
  split
  · exact refStep_inPlace h _
  · rfl

theorem toNat_fits {n : ℕ} (h : n < 2 ^ 64) : (UInt64.ofNat n).toNat = n :=
  UInt64.toNat_ofNat_of_lt' h

/-- A request comes in. -/
theorem accounts_request (h : Accounts server) {handler : Handler F}
    (hpending : ∀ id t, handler.pendingAt id t = false) (hnoted : handler.Noted server.past) :
    Accounts { server with handlers := server.handlers ++ [handler] } := by
  refine ⟨fun id => accounted_frame (h.accounted id) rfl rfl (fun t => ?_) fun receipt t hmem =>
    List.mem_append_left _ hmem, fun other hmem => ?_, h.fresh⟩
  · simp [List.countP_append, hpending]
  · rcases List.mem_append.mp hmem with hold | hnew
    · exact h.noted other hold
    · rw [List.mem_singleton.mp hnew]; exact hnoted

/-- A session is registered under a new id. -/
theorem accounts_register (h : Accounts server) (session : Session F)
    (hid : server.nextId < 2 ^ 64) :
    Accounts (server.register session) := by
  have hnew := h.fresh (UInt64.ofNat server.nextId) (Nat.le_of_eq (toNat_fits hid).symm)
  have hpast : ∀ id, (server.register session).past id = if id = UInt64.ofNat server.nextId
      then ⟨session.blockEnv.number.toNat, server.entry id, [], [], false⟩ else server.past id := by
    intro id
    simp only [Server.register, Function.update_apply]
    split
    · rename_i heq
      rw [heq]
    · rfl
  have hcommits : ∀ id, (server.past id).commits <+: ((server.register session).past id).commits := by
    intro id
    rw [hpast]
    split
    · rename_i heq
      rw [heq, hnew.2]
    · exact List.prefix_refl _
  refine ⟨fun id => ?_, fun handler hmem => noted_mono hcommits (h.noted handler hmem),
    fun id hle => ?_⟩
  · by_cases heq : id = UInt64.ofNat server.nextId
    · have hpast' := hpast id
      rw [if_pos heq] at hpast'
      have hturns := (h.accounted id).turns
      rw [heq, hnew.2] at hturns
      refine ⟨fun t => ?_, ?_, ?_, ?_, ?_, ?_⟩ <;> rw [hpast']
      · have hzero := hturns t
        rw [← heq] at hzero
        simpa [Server.register] using hzero
      · exact nofun
      · exact List.nodup_nil
      · exact nofun
      · exact fun _ => (UInt64.add_zero _).symm
      · intro _ hash
        simp [Server.register, Server.entry]
    · have hpast' := hpast id
      rw [if_neg heq] at hpast'
      exact accounted_frame (h.accounted id) hpast' rfl (fun _ => rfl) fun _ _ hmem => hmem
  · have hle' : server.nextId + 1 ≤ id.toNat := hle
    have hne : id ≠ UInt64.ofNat server.nextId := by
      rintro rfl
      rw [toNat_fits hid] at hle'
      omega
    have hold := h.fresh id (by omega)
    rw [hpast, if_neg hne]
    refine ⟨?_, hold.2⟩
    rw [Server.register, Map.lookup_insert_eq, if_neg hne]
    exact hold.1

/-- Sessions change, and none comes that was not registered. -/
theorem accounts_sessions (h : Accounts server) {sessions : Map SessionId (Session F)}
    (hsessions : ∀ id : SessionId, server.nextId ≤ id.toNat → sessions.lookup id = none) :
    Accounts { server with sessions := sessions } :=
  ⟨fun id => accounted_frame (h.accounted id) rfl rfl (fun _ => rfl) fun _ _ hmem => hmem, h.noted,
    fun id hle => ⟨hsessions id hle, (h.fresh id hle).2⟩⟩

/-- A request moves on that no entry need care about. -/
theorem accounts_set (h : Accounts server) {i : ℕ} {handler next : Handler F}
    (hi : server.handlers[i]? = some handler)
    (hpending : ∀ id t, next.pendingAt id t = handler.pendingAt id t)
    (hnot : handler.isSent = false) (hnoted : next.Noted server.past) :
    Accounts { server with handlers := server.handlers.set i next } := by
  refine ⟨fun id => accounted_set (h.accounted id) hi rfl rfl rfl (hpending id) hnot,
    fun other hmem => ?_, h.fresh⟩
  rcases List.mem_or_eq_of_mem_set hmem with hold | rfl
  · exact h.noted other hold
  · exact hnoted

/-- Where the commits of all sessions only grow, what requests remember stays so. -/
theorem noted_set (h : Accounts server) {past : SessionId → Past}
    (hcommits : ∀ id, (server.past id).commits <+: (past id).commits) {i : ℕ} {next : Handler F}
    (hnoted : next.Noted past) :
    ∀ handler ∈ server.handlers.set i next, handler.Noted past := by
  intro handler hmem
  rcases List.mem_or_eq_of_mem_set hmem with hold | rfl
  · exact noted_mono hcommits (h.noted handler hold)
  · exact hnoted

/-- A send is executed: committed, or answered with an error. -/
theorem accounts_send (h : Accounts server) {i : ℕ} {tx : LegacyTx}
    (hi : server.handlers[i]? = some (.send id tx)) :
    Accounts (server.move up evm order i (.send id tx)) := by
  have hplace : (Job.read (F := F) id (.advance tx.env)).InPlace := trivial
  obtain ⟨hreply, sessions, hserve, hlookup⟩ :=
    serve_spec up evm order server (.read id (.advance tx.env))
  obtain ⟨sessions', hserve', hplaces⟩ := serve_inPlace up evm order server hplace
  obtain rfl : sessions = sessions' := by
    rw [hserve] at hserve'
    exact (Server.mk.inj hserve').1
  have hsessions : ∀ id' : SessionId, server.nextId ≤ id'.toNat → sessions.lookup id' = none := by
    intro id' hle
    have hplace' := hplaces id'
    rw [(h.fresh id' hle).1] at hplace'
    exact Option.map_eq_none_iff.mp hplace'
  have hserved := accounts_sessions h hsessions
  rcases hpair : server.serve up evm order (.read id (.advance tx.env)) with ⟨reply, served⟩
  rw [hpair] at hreply hserve
  dsimp only at hreply hserve
  subst hserve
  simp only [Server.move, hpair]
  split
  · rename_i result served heq
    obtain ⟨rfl, rfl⟩ := Prod.mk.inj heq
    refine ⟨fun id' => ?_, noted_set h (fun id' => ?_) ?_, fun id' hle => ⟨hsessions id' hle, ?_⟩⟩
    · by_cases hid : id' = id
      · subst hid
        exact accounted_commit (h.accounted id') hi rfl (Function.update_self ..) rfl
      · refine accounted_set (h.accounted id') hi rfl (Function.update_of_ne hid _ _) rfl (fun t => ?_)
          rfl
        simp [Handler.pendingAt, Ne.symm hid]
    · dsimp only
      rw [Function.update_apply]
      split
      · rename_i hid
        rw [hid]
        exact List.prefix_append _ _
      · exact List.prefix_refl _
    · simp [Handler.Noted]
    · dsimp only
      rw [Function.update_apply]
      split
      · -- an unregistered session has nothing committed
        rename_i hid
        rw [Job.sessionId, ← hid, (h.fresh id' hle).1] at hreply
        cases hreply
      · exact (h.fresh id' hle).2
  · rename_i served hnot heq
    obtain ⟨rfl, rfl⟩ := Prod.mk.inj heq
    exact accounts_set hserved hi (fun _ _ => rfl) rfl trivial

/-- A send reaches the table. -/
theorem accounts_enter (h : Accounts server) {i : ℕ} {tx : LegacyTx} {result : ExecutionResult}
    {realStart : UInt64} {turn : ℕ}
    (hi : server.handlers[i]? = some (.located id tx result realStart turn)) :
    Accounts (server.move up evm order i (.located id tx result realStart turn)) := by
  have hcommit := h.noted _ (List.mem_of_getElem? hi)
  simp only [Server.move]
  have hcommits : ∀ id', (Function.update server.past id { server.past id with
      entered := (server.past id).entered ++ [turn] } id').commits = (server.past id').commits :=
    past_same Past.commits rfl
  refine ⟨fun id' => ?_, noted_set h (fun id' => by rw [hcommits]) ?_, fun id' hle =>
    ⟨(h.fresh id' hle).1, (hcommits id').trans (h.fresh id' hle).2⟩⟩
  · by_cases hid : id' = id
    · subst hid
      refine (accounted_enter (h.accounted id') hi hcommit rfl (Function.update_self ..) ?_).1
      simp [Server.entry, Finmap.lookup_insert]
    · refine accounted_set (h.accounted id') hi rfl (Function.update_of_ne hid _ _) ?_
        (fun t => ?_) rfl
      · simp [Server.entry, Finmap.lookup_insert_of_ne _ hid]
      · simp [Handler.pendingAt, Ne.symm hid]
  · simp only [Handler.Noted, Function.update_self]
    exact ⟨tx, result, hcommit, rfl⟩

/-- A clone of the parent's entry, to a child nobody has sent anything to. -/
theorem accounts_clone (h : Accounts server) {i : ℕ} {parent child : SessionId} {before : ℕ}
    (hi : server.handlers[i]? = some (.adopted parent child before))
    (hunused : server.rpcState.lookup parent = none ∨ (server.past child).commits = []) :
    Accounts (server.move up evm order i (.adopted parent child before)) := by
  have hnoted : before ≤ (server.past parent).commits.length :=
    h.noted _ (List.mem_of_getElem? hi)
  simp only [Server.move]
  cases hparent : server.rpcState.lookup parent with
  | none => exact accounts_set h hi (fun _ _ => rfl) rfl hnoted
  | some inherited =>
    have hnone : (server.past child).commits = [] := by
      rcases hunused with hnone | hnone
      · rw [hparent] at hnone
        cases hnone
      · exact hnone
    have hcommits : ∀ id', (Function.update server.past child
        { server.past child with start := inherited } id').commits = (server.past id').commits :=
      past_same Past.commits rfl
    have hentered : (server.past child).entered = [] := by
      refine List.eq_nil_iff_forall_not_mem.mpr fun t ht => ?_
      have hwithin := (h.accounted child).within t ht
      rw [hnone] at hwithin
      exact Nat.not_lt_zero t hwithin
    refine ⟨fun id' => ?_, noted_set h (fun id' => by rw [hcommits]) ?_, fun id' hle =>
      ⟨(h.fresh id' hle).1, (hcommits id').trans (h.fresh id' hle).2⟩⟩
    · by_cases hid : id' = child
      · subst hid
        have hcount := fun t => countP_set_add (Handler.pendingAt id' t)
          (.forked parent id' before) hi
        have hturns := (h.accounted id').turns
        simp only [Handler.pendingAt, Bool.toNat_false, Nat.add_zero] at hcount
        rw [hnone, hentered] at hturns
        refine ⟨fun t => ?_, ?_, ?_, ?_, ?_, ?_⟩ <;>
          simp only [Function.update_self, hnone, hentered]
        · rw [hcount t, hturns t]
        · exact nofun
        · exact List.nodup_nil
        · exact nofun
        · intro _
          simp [Server.entry, Finmap.lookup_insert]
        · intro _ hash
          simp [Server.entry, Finmap.lookup_insert]
      · refine accounted_set (h.accounted id') hi rfl (Function.update_of_ne hid _ _) ?_ (fun _ => rfl)
          rfl
        simp [Server.entry, Finmap.lookup_insert_of_ne _ hid]
    · simp only [Handler.Noted, hcommits]
      exact hnoted

/-- A discard takes the entry away. -/
theorem accounts_remove (h : Accounts server) {i : ℕ}
    (hi : server.handlers[i]? = some (.discarded id)) :
    Accounts (server.move up evm order i (.discarded id)) := by
  simp only [Server.move]
  have hpast : ∀ id', (Function.update server.past id { server.past id with
      dropped := (server.past id).dropped || (server.rpcState.lookup id).isSome } id').commits
        = (server.past id').commits := past_same Past.commits rfl
  refine ⟨fun id' => ?_, noted_set h (fun id' => by rw [hpast]) trivial, fun id' hle =>
    ⟨(h.fresh id' hle).1, (hpast id').trans (h.fresh id' hle).2⟩⟩
  by_cases hid : id' = id
  · subst hid
    have haccounted := h.accounted id'
    have hcount := fun t => countP_set_add (Handler.pendingAt id' t) (.done : Handler F) hi
    simp only [Handler.pendingAt, Bool.toNat_false, Nat.add_zero] at hcount
    have hkept : ((server.past id').dropped || (server.rpcState.lookup id').isSome) = false →
        (server.past id').dropped = false ∧ (server.rpcState.erase id').lookup id'
          = server.rpcState.lookup id' := by
      intro hdropped
      obtain ⟨hdropped, hnone⟩ := Bool.or_eq_false_iff.mp hdropped
      refine ⟨hdropped, ?_⟩
      rw [Finmap.lookup_erase, Option.isSome_eq_false_iff.mp hnone |> Option.isNone_iff_eq_none.mp]
    refine ⟨fun t => ?_, ?_, ?_, ?_, ?_, ?_⟩ <;> simp only [Function.update_self]
    · rw [hcount t, haccounted.turns t]
    · exact haccounted.within
    · exact haccounted.nodup
    · intro t ht
      obtain ⟨receipt, hmem⟩ := haccounted.answered t ht
      exact ⟨receipt, mem_set_of_mem hi hmem (ne_of_unsent rfl _ _ _)⟩
    · intro hdropped
      obtain ⟨hdropped, hlookup⟩ := hkept hdropped
      simp only [Server.entry, hlookup]
      exact haccounted.counter hdropped
    · intro hdropped
      obtain ⟨hdropped, hlookup⟩ := hkept hdropped
      simp only [Server.entry, hlookup]
      exact haccounted.receipts hdropped
  · refine accounted_set (h.accounted id') hi rfl (Function.update_of_ne hid _ _) ?_
      (fun _ => rfl) rfl
    simp [Server.entry, Finmap.lookup_erase_ne hid]

/-- STEP LEMMA. -/
theorem accounts_step (h : Accounts server) (event : ServerEvent F)
    (hguard : server.Orderly event) :
    Accounts (server.step up evm order event) := by
  cases event with
  | send id tx => exact accounts_request h (fun _ _ => rfl) trivial
  | forkFrom parent => exact accounts_request h (fun _ _ => rfl) trivial
  | discard id => exact accounts_request h (fun _ _ => rfl) trivial
  | opened session => exact accounts_register h session hguard
  | expire id =>
    refine accounts_sessions h fun id' hle => ?_
    rw [Map.lookup_erase_eq, (h.fresh id' hle).1, ite_self]
  | other job =>
    obtain ⟨sessions, hserve, hplaces⟩ := serve_inPlace up evm order server job.2
    simp only [Server.step, hserve]
    refine accounts_sessions h fun id hle => ?_
    have hplace := hplaces id
    rw [(h.fresh id hle).1] at hplace
    exact Option.map_eq_none_iff.mp hplace
  | refresh blockEnv =>
    exact ⟨fun id => accounted_frame (h.accounted id) rfl rfl (fun _ => rfl) fun _ _ hmem => hmem,
      h.noted, h.fresh⟩
  | move i =>
    simp only [Server.step]
    cases hi : server.handlers[i]? with
    | none => exact h
    | some handler =>
      have hnoted := h.noted handler (List.mem_of_getElem? hi)
      have horderly := hguard handler hi
      cases handler with
      | send id tx => exact accounts_send h hi
      | executed id tx result turn =>
        obtain ⟨height, hsome⟩ := Option.isSome_iff_exists.mp horderly
        simp only [Server.move, hsome]
        exact accounts_set h hi (fun _ _ => rfl) rfl hnoted
      | located id tx result realStart turn => exact accounts_enter h hi
      | forkFrom parent =>
        simp only [Server.move]
        split
        · exact accounts_set h hi (fun _ _ => rfl) rfl (Nat.le_refl _)
        · exact accounts_set h hi (fun _ _ => rfl) rfl trivial
      | branched parent session before =>
        have hregister := accounts_register h session horderly
        have hadopted := hregister.noted _ (List.mem_of_getElem? hi)
        exact accounts_set hregister hi (fun _ _ => rfl) rfl hadopted
      | adopted parent child before => exact accounts_clone h hi horderly
      | discard id =>
        have hsettled : Accounts { server with handlers := server.handlers.set i (.discarded id) } :=
          accounts_set h hi (fun _ _ => rfl) rfl trivial
        refine accounts_sessions hsettled fun id' hle => ?_
        rw [Map.lookup_erase_eq, (h.fresh id' hle).1, ite_self]
      | discarded id => exact accounts_remove h hi
      | sent | forked | done | failed => exact h

end Step

/-! ### A small server -/

/-- An EVM every transaction succeeds on. -/
def obliging : Evm String := fun _ _ _ => .ret (.ok (.success 21000 [], ⟨[], List.nodup_nil⟩))

/-- A transaction of 0xa's with a given nonce. -/
def nthTx (n : UInt64) : LegacyTx := ⟨n.toNat, 0xa, .call 0xb, 0, [], 21000, 0, n, none⟩

end Forkyard
