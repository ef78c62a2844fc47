import Forkyard.Api.SideTable

/-! Receipts in commit order. A session executes the transactions sent to it one after another, but
    their receipts are numbered later, under the table's lock, by whichever handler gets there
    first. Where the sends of a session reach the table in the order they were committed, and
    neither the session nor its entry goes in between, the `k`-th of them is in the `k`-th block
    after the one its entry started at.

        committed:  tx₀   tx₁   tx₂        (the worker's order)
        entered:    n+1   n+2   n+3        (the lock's order) -/

namespace Forkyard

open Schemes

variable {F E : Type}

/-- The entry after some transactions, numbered in their order. -/
def SessionRpcState.after (block : UInt64) (start : SessionRpcState)
    (commits : List (LegacyTx × ExecutionResult)) : SessionRpcState :=
  commits.foldl (fun entry commit => (entry.enter block commit.1 commit.2).2) start

/-- No send on `id` is between its commit and the table. -/
def Server.Settled (server : Server F) (id : SessionId) : Prop :=
  ∀ handler ∈ server.handlers, ∀ t, handler.pendingAt id t = false

/-- A send finds its session's own block, and at the table every send committed on its session
    before it and room for its number; a discard takes an entry away only when the session is gone
    and no send on it is under way. -/
def Handler.InTurn (server : Server F) : Handler F → Prop
  | .executed id _ _ _ =>
    (server.sessionBlockEnv id).height.map UInt64.toNat = some (server.past id).block
  | .located id _ _ realStart turn =>
    (∀ handler ∈ server.handlers, ∀ t < turn, handler.pendingAt id t = false) ∧
      realStart.toNat + ((server.entry id).blockNumber.toNat + 1) < 2 ^ 64
  | .discarded id => server.rpcState.lookup id = none ∨
    (server.sessions.lookup id = none ∧ server.Settled id)
  | _ => True

def Server.InTurn (server : Server F) (event : ServerEvent F) : Prop :=
  server.Orderly event ∧ ∀ i, event = .move i → ∀ handler, server.handlers[i]? = some handler →
    handler.InTurn server

/-- What a session's senders are told: the `k`-th transaction's receipt is in the `k`-th block after
    the one the session started at; once all of them are answered `eth_blockNumber` has counted
    them, if what it started from is a number at all; and until the session is discarded a hash
    resolves to the receipt of the last transaction with it. -/
structure Receipted (server : Server F) (id : SessionId) : Prop where
  numbered : ∀ receipt turn, .sent id receipt turn ∈ server.handlers →
    ∃ tx result blockNumber, (server.past id).commits[turn]? = some (tx, result) ∧
      receipt = buildReceipt tx result blockNumber ∧ blockNumber.toNat
        = (server.past id).block + ((server.past id).start.blockNumber.toNat + (turn + 1))
  answered : server.Settled id → ∀ turn < (server.past id).commits.length,
    ∃ receipt, .sent id receipt turn ∈ server.handlers
  counted : server.Settled id → ∀ s height, server.sessions.lookup id = some s →
    s.blockEnv.height = some height → height.toNat = (server.past id).block ∧
      ((server.past id).block + (server.past id).start.blockNumber.toNat < 2 ^ 64 →
        ∃ blockNumber, server.realBlockNumber id = some blockNumber ∧ blockNumber.toNat
          = (server.past id).block +
            ((server.past id).start.blockNumber.toNat + (server.past id).commits.length))
  resolves : (server.past id).dropped = false → ∀ receipt turn,
    .sent id receipt turn ∈ server.handlers →
      (∀ turn' commit, turn < turn' → (server.past id).commits[turn']? = some commit →
        commit.1.hash ≠ receipt.transactionHash) →
      server.transactionReceipt id receipt.transactionHash = some receipt

/-! ### Entries in order -/

theorem after_snoc (block : UInt64) (start : SessionRpcState)
    (commits : List (LegacyTx × ExecutionResult)) (commit : LegacyTx × ExecutionResult) :
    start.after block (commits ++ [commit])
      = ((start.after block commits).enter block commit.1 commit.2).2 := by
  rw [SessionRpcState.after, List.foldl_append]
  rfl

theorem after_blockNumber (block : UInt64) (start : SessionRpcState)
    (commits : List (LegacyTx × ExecutionResult)) :
    (start.after block commits).blockNumber = start.blockNumber + .ofNat commits.length := by
  induction commits using List.reverseRecOn with
  | nil => exact (UInt64.add_zero _).symm
  | append_singleton commits commit ih =>
    rw [after_snoc, List.length_append, List.length_singleton, UInt64.ofNat_add, ← UInt64.add_assoc,
      ← ih]
    rfl

/-- Where it fits, a number is counted in ℕ. -/
theorem toNat_numbered {block start : UInt64} {n : ℕ} (h : block.toNat + (start.toNat + n) < 2 ^ 64) :
    (block + (start + .ofNat n)).toNat = block.toNat + (start.toNat + n) := by
  have hn : (UInt64.ofNat n).toNat = n := toNat_fits (by omega)
  have hstart : (start + .ofNat n).toNat = start.toNat + n := by
    rw [UInt64.toNat_add, hn, Nat.mod_eq_of_lt (by omega)]
  rw [UInt64.toNat_add, hstart, Nat.mod_eq_of_lt h]

/-- A hash resolves to the receipt of the last transaction with it. -/
theorem after_lookup (block : UInt64) (start : SessionRpcState) {tx : LegacyTx}
    {result : ExecutionResult} {turn : ℕ} (commits : List (LegacyTx × ExecutionResult))
    (hturn : commits[turn]? = some (tx, result))
    (hlast : ∀ turn' commit, turn < turn' → commits[turn']? = some commit →
      commit.1.hash ≠ tx.hash) :
    (start.after block commits).receipts.lookup tx.hash
      = some (buildReceipt tx result (block + (start.blockNumber + .ofNat (turn + 1)))) := by
  induction commits using List.reverseRecOn with
  | nil => cases hturn
  | append_singleton commits commit ih =>
    rw [after_snoc]
    simp only [SessionRpcState.enter, Map.lookup_insert_eq]
    by_cases hlt : turn < commits.length
    · have hne : tx.hash ≠ commit.1.hash := by
        refine Ne.symm (hlast commits.length commit hlt ?_)
        rw [List.getElem?_append_right (Nat.le_refl _), Nat.sub_self]
        rfl
      rw [if_neg hne]
      refine ih ?_ fun turn' commit' hturn' hget => ?_
      · rwa [List.getElem?_append_left hlt] at hturn
      · refine hlast turn' commit' hturn' ?_
        rw [List.getElem?_append_left (List.getElem?_eq_some_iff.mp hget).1]
        exact hget
    · obtain ⟨hbound, -⟩ := List.getElem?_eq_some_iff.mp hturn
      rw [List.length_append, List.length_singleton] at hbound
      obtain rfl : turn = commits.length := by omega
      rw [List.getElem?_append_right (Nat.le_refl _), Nat.sub_self] at hturn
      obtain rfl := Option.some.inj hturn
      rw [if_pos rfl, after_blockNumber, UInt64.ofNat_add, ← UInt64.add_assoc start.blockNumber]
      rfl

variable {server server' : Server F} {id : SessionId}

theorem transactionReceipt_entry (server : Server F) (id : SessionId) (hash : B256) :
    server.transactionReceipt id hash = (server.entry id).receipts.lookup hash := by
  unfold Server.transactionReceipt Server.entry
  cases server.rpcState.lookup id with
  | none => simp [SessionRpcState.default]
  | some entry => rfl

/-! ### The invariant -/

/-- The request is a send on `id` that was committed. -/
def Handler.concerns (id : SessionId) : Handler F → Bool
  | .executed id' _ _ _ => decide (id' = id)
  | .located id' _ _ _ _ => decide (id' = id)
  | .sent id' _ _ => decide (id' = id)
  | _ => false

theorem Handler.concerns_of_pendingAt {handler : Handler F} {id : SessionId} {t : ℕ}
    (h : handler.pendingAt id t = true) : handler.concerns id = true := by
  unfold Handler.pendingAt at h
  split at h
  · exact decide_eq_true (of_decide_eq_true h).1
  · exact decide_eq_true (of_decide_eq_true h).1
  · cases h

/-- INVARIANT: a session's sends reach the table in the order of their turns. -/
structure Numbered (server : Server F) (id : SessionId) : Prop where
  inOrder : (server.past id).entered = List.range (server.past id).entered.length
  entry : (server.past id).dropped = false → server.entry id
    = (server.past id).start.after (.ofNat (server.past id).block)
      ((server.past id).commits.take (server.past id).entered.length)
  fits : ∀ turn ∈ (server.past id).entered, (server.past id).block +
    ((server.past id).start.blockNumber.toNat + (turn + 1)) < 2 ^ 64
  located : ∀ tx result realStart turn, .located id tx result realStart turn ∈ server.handlers →
    realStart.toNat = (server.past id).block
  sent : ∀ receipt turn, .sent id receipt turn ∈ server.handlers →
    turn ∈ (server.past id).entered ∧ receipt.blockNumber
      = .ofNat (server.past id).block + ((server.past id).start.blockNumber + .ofNat (turn + 1))
  gone : (server.past id).dropped = true →
    server.sessions.lookup id = none ∧ server.Settled id
  block : ∀ s, server.sessions.lookup id = some s →
    s.blockEnv.number.toNat = (server.past id).block

/-- INVARIANT of a run in turn. -/
structure InLedger (server : Server F) : Prop where
  accounts : Accounts server
  numbered : ∀ id, Numbered server id

theorem numbered_frame (h : Numbered server id) (hpast : server'.past id = server.past id)
    (hentry : server'.entry id = server.entry id)
    (hhandlers : ∀ handler ∈ server'.handlers, handler.concerns id = true →
      handler ∈ server.handlers)
    (hsessions : ∀ s, server'.sessions.lookup id = some s → ∃ s',
      server.sessions.lookup id = some s' ∧ s'.blockEnv = s.blockEnv) : Numbered server' id := by
  have hsome : server.sessions.lookup id = none → server'.sessions.lookup id = none := by
    intro hnone
    cases hs : server'.sessions.lookup id with
    | none => rfl
    | some s =>
      obtain ⟨s', hs', -⟩ := hsessions s hs
      rw [hnone] at hs'
      cases hs'
  have hsettled : server.Settled id → server'.Settled id := by
    intro hall handler hmem t
    cases hpending : handler.pendingAt id t with
    | false => rfl
    | true =>
      have hconcerns := Handler.concerns_of_pendingAt hpending
      have hold := hall handler (hhandlers handler hmem hconcerns) t
      rw [hpending] at hold
      cases hold
  refine ⟨?_, ?_, ?_, ?_, ?_, ?_, ?_⟩ <;> rw [hpast]
  · exact h.inOrder
  · rw [hentry]
    exact h.entry
  · exact h.fits
  · intro tx result realStart turn hmem
    exact h.located tx result realStart turn (hhandlers _ hmem (decide_eq_true rfl))
  · intro receipt turn hmem
    exact h.sent receipt turn (hhandlers _ hmem (decide_eq_true rfl))
  · intro hdropped
    obtain ⟨hnone, hall⟩ := h.gone hdropped
    exact ⟨hsome hnone, hsettled hall⟩
  · intro s hs
    obtain ⟨s', hs', henv⟩ := hsessions s hs
    rw [← henv]
    exact h.block s' hs'

/-- A request moves on that was no committed send, and is none. -/
theorem concerns_set {i : ℕ} {next : Handler F} (hnext : next.concerns id = false) :
    ∀ handler ∈ server.handlers.set i next, handler.concerns id = true →
      handler ∈ server.handlers := by
  intro handler hmem hconcerns
  rcases List.mem_or_eq_of_mem_set hmem with hold | rfl
  · exact hold
  · rw [hnext] at hconcerns
    cases hconcerns

/-- Where nothing is committed no request is a committed send. -/
theorem unconcerned (h : Accounts server) (hnone : (server.past id).commits = []) :
    ∀ handler ∈ server.handlers, handler.concerns id = false := by
  intro handler hmem
  have hnoted := h.noted handler hmem
  cases handler with
  | executed id' tx result turn =>
    refine decide_eq_false ?_
    rintro rfl
    simp [Handler.Noted, hnone] at hnoted
  | located id' tx result realStart turn =>
    refine decide_eq_false ?_
    rintro rfl
    simp [Handler.Noted, hnone] at hnoted
  | sent id' receipt turn =>
    refine decide_eq_false ?_
    rintro rfl
    simp [Handler.Noted, hnone] at hnoted
  | send | forkFrom | branched | adopted | forked | discard | discarded | done | failed => rfl

theorem settled_of_unconcerned
    (h : ∀ handler ∈ server.handlers, handler.concerns id = false) : server.Settled id := by
  intro handler hmem t
  refine Bool.eq_false_iff.mpr fun hpending => ?_
  have hnot := (Handler.concerns_of_pendingAt hpending).symm.trans (h handler hmem)
  cases hnot

/-- A session under a new id starts with what the table holds for it. -/
theorem numbered_register (h : InLedger server) (session : Session F)
    (hid : server.nextId < 2 ^ 64) (id : SessionId) : Numbered (server.register session) id := by
  by_cases heq : id = UInt64.ofNat server.nextId
  · have hnone := (h.accounts.fresh id (by rw [heq, toNat_fits hid])).2
    have hnobody := unconcerned h.accounts hnone
    have hpast : (server.register session).past id
        = ⟨session.blockEnv.number.toNat, server.entry id, [], [], false⟩ := by
      simp only [Server.register, heq, Function.update_self]
    refine ⟨?_, ?_, ?_, ?_, ?_, ?_, ?_⟩ <;> rw [hpast]
    · rfl
    · exact fun _ => rfl
    · exact fun turn hmem => absurd hmem List.not_mem_nil
    · intro tx result realStart turn hmem
      have hnot := hnobody _ hmem
      simp [Handler.concerns] at hnot
    · intro receipt turn hmem
      have hnot := hnobody _ hmem
      simp [Handler.concerns] at hnot
    · intro hdropped
      cases hdropped
    · intro s hs
      simp only [Server.register, ← heq, Finmap.lookup_insert] at hs
      rw [Option.some.inj hs]
  · refine numbered_frame (h.numbered id) ?_ rfl (fun handler hmem _ => hmem) fun s hs => ?_
    · simp only [Server.register, Function.update_of_ne heq]
    · simp only [Server.register, Finmap.lookup_insert_of_ne _ heq] at hs
      exact ⟨s, hs, rfl⟩

section Step

variable [ToString E] {up : F → Upstream E} {evm : Evm E} {order : HashOrder}

/-- A transaction is committed at the next turn. -/
theorem numbered_send (h : InLedger server) {i : ℕ} {id₀ : SessionId} {tx : LegacyTx}
    (hi : server.handlers[i]? = some (.send id₀ tx)) (id : SessionId) :
    Numbered (server.move up evm order i (.send id₀ tx)) id := by
  have hplace : (Job.read (F := F) id₀ (.advance tx.env)).InPlace := trivial
  obtain ⟨sessions, hserve, hplaces⟩ := serve_inPlace up evm order server hplace
  obtain ⟨hreply, -⟩ := serve_spec up evm order server (.read id₀ (.advance tx.env))
  have hsessions : ∀ s, sessions.lookup id = some s → ∃ s',
      server.sessions.lookup id = some s' ∧ s'.blockEnv = s.blockEnv := by
    intro s hs
    have hplace' := hplaces id
    rw [hs] at hplace'
    exact Option.map_eq_some_iff.mp hplace'.symm
  rcases hpair : server.serve up evm order (.read id₀ (.advance tx.env)) with ⟨reply, served⟩
  rw [hpair] at hreply hserve
  dsimp only at hreply hserve
  subst hserve
  simp only [Server.move, hpair]
  split
  · rename_i result served heq
    obtain ⟨rfl, rfl⟩ := Prod.mk.inj heq
    by_cases hid : id = id₀
    · subst hid
      have hold := h.numbered id
      have hlive : (server.past id).dropped = false := by
        cases hdropped : (server.past id).dropped with
        | false => rfl
        | true =>
          rw [Job.sessionId, (hold.gone hdropped).1] at hreply
          cases hreply
      have hlength : (server.past id).entered.length ≤ (server.past id).commits.length := by
        have hwithin := (h.accounts.accounted id).within
        rw [hold.inOrder] at hwithin
        by_contra hlt
        exact Nat.lt_irrefl _ (hwithin _ (List.mem_range.mpr (Nat.lt_of_not_le hlt)))
      refine ⟨?_, ?_, ?_, ?_, ?_, ?_, ?_⟩ <;> simp only [Function.update_self]
      · exact hold.inOrder
      · intro hdropped
        rw [List.take_append_of_le_length hlength]
        exact hold.entry hdropped
      · exact hold.fits
      · intro tx' result' realStart turn hmem
        rcases List.mem_or_eq_of_mem_set hmem with hmem | hnew
        · exact hold.located tx' result' realStart turn hmem
        · cases hnew
      · intro receipt turn hmem
        rcases List.mem_or_eq_of_mem_set hmem with hmem | hnew
        · exact hold.sent receipt turn hmem
        · cases hnew
      · intro hdropped
        rw [hlive] at hdropped
        cases hdropped
      · intro s hs
        obtain ⟨s', hs', henv⟩ := hsessions s hs
        rw [← henv]
        exact hold.block s' hs'
    · refine numbered_frame (h.numbered id) (Function.update_of_ne hid _ _) rfl
        (concerns_set ?_) hsessions
      simp [Handler.concerns, Ne.symm hid]
  · rename_i served hnot heq
    obtain ⟨rfl, rfl⟩ := Prod.mk.inj heq
    exact numbered_frame (h.numbered id) rfl rfl (concerns_set rfl) hsessions

/-- A send that is on its way is not one of a session whose entry was taken away. -/
theorem undropped (h : Numbered server id) {handler : Handler F} (hmem : handler ∈ server.handlers)
    {t : ℕ} (hpending : handler.pendingAt id t = true) : (server.past id).dropped = false := by
  cases hdropped : (server.past id).dropped with
  | false => rfl
  | true =>
    have hsettled := (h.gone hdropped).2 handler hmem t
    rw [hpending] at hsettled
    cases hsettled

/-- A send finds its session's own block. -/
theorem numbered_locate (h : InLedger server) {i : ℕ} {id₀ : SessionId} {tx : LegacyTx}
    {result : ExecutionResult} {turn : ℕ}
    (hi : server.handlers[i]? = some (.executed id₀ tx result turn))
    (hheight : (server.sessionBlockEnv id₀).height.map UInt64.toNat = some (server.past id₀).block)
    (id : SessionId) :
    Numbered (server.move up evm order i (.executed id₀ tx result turn)) id := by
  obtain ⟨height, hheight, hblock⟩ := Option.map_eq_some_iff.mp hheight
  simp only [Server.move, hheight]
  by_cases hid : id = id₀
  · subst hid
    have hold := h.numbered id
    have hlive := undropped (t := turn) hold (List.mem_of_getElem? hi) (by simp [Handler.pendingAt])
    refine ⟨hold.inOrder, hold.entry, hold.fits, ?_, ?_, ?_, hold.block⟩
    · intro tx' result' realStart turn' hmem
      rcases List.mem_or_eq_of_mem_set hmem with hmem | hnew
      · exact hold.located tx' result' realStart turn' hmem
      · cases hnew
        exact hblock
    · intro receipt turn' hmem
      rcases List.mem_or_eq_of_mem_set hmem with hmem | hnew
      · exact hold.sent receipt turn' hmem
      · cases hnew
    · intro hdropped
      rw [hlive] at hdropped
      cases hdropped
  · refine numbered_frame (h.numbered id) rfl rfl (concerns_set ?_) fun s hs => ⟨s, hs, rfl⟩
    simp [Handler.concerns, Ne.symm hid]

/-- The next send to reach the table is the next that was committed. -/
theorem turn_next (h : InLedger server) {i : ℕ} {tx : LegacyTx} {result : ExecutionResult}
    {realStart : UInt64} {turn : ℕ}
    (hi : server.handlers[i]? = some (.located id tx result realStart turn))
    (hearlier : ∀ handler ∈ server.handlers, ∀ t < turn, handler.pendingAt id t = false) :
    turn = (server.past id).entered.length := by
  have hinOrder := (h.numbered id).inOrder
  have haccounted := h.accounts.accounted id
  obtain ⟨hlt, -⟩ := List.getElem?_eq_some_iff.mp (h.accounts.noted _ (List.mem_of_getElem? hi))
  set m := (server.past id).entered.length
  have hmem : ∀ t, t ∈ (server.past id).entered ↔ t < m := fun t => by
    rw [hinOrder, List.mem_range]
  have hge : m ≤ turn := by
    by_contra hless
    have hzero := haccounted.turns turn
    rw [if_neg fun hand => hand.2 ((hmem turn).mpr (Nat.lt_of_not_le hless))] at hzero
    have hnot := List.countP_eq_zero.mp hzero _ (List.mem_of_getElem? hi)
    simp [Handler.pendingAt] at hnot
  by_contra hne
  have hm : m < turn := by omega
  have hone := haccounted.turns m
  rw [if_pos ⟨Nat.lt_trans hm hlt, fun hin => Nat.lt_irrefl m ((hmem m).mp hin)⟩] at hone
  have hzero : server.handlers.countP (Handler.pendingAt id m) = 0 := by
    rw [List.countP_eq_zero]
    intro handler hhandler
    rw [hearlier handler hhandler m hm]
    exact Bool.false_ne_true
  omega

/-- As long as it is there, an entry has counted what reached it. -/
theorem numbered_counter (haccounted : Accounted server id) (h : Numbered server id)
    (hlive : (server.past id).dropped = false) : (server.entry id).blockNumber.toNat
      = (server.past id).start.blockNumber.toNat + (server.past id).entered.length := by
  rw [haccounted.counter hlive]
  cases hentered : (server.past id).entered.length with
  | zero => exact congrArg UInt64.toNat (UInt64.add_zero _)
  | succ m =>
    have hlast : m ∈ (server.past id).entered := by
      rw [h.inOrder, hentered]
      exact List.mem_range.mpr m.lt_succ_self
    have hfits := h.fits m hlast
    have hm : (UInt64.ofNat (m + 1)).toNat = m + 1 := toNat_fits (by omega)
    rw [UInt64.toNat_add, hm, Nat.mod_eq_of_lt (by omega)]

/-- A send reaches the table in its turn, and is numbered by it. -/
theorem numbered_enter (h : InLedger server) {i : ℕ} {id₀ : SessionId} {tx : LegacyTx}
    {result : ExecutionResult} {realStart : UInt64} {turn : ℕ}
    (hi : server.handlers[i]? = some (.located id₀ tx result realStart turn))
    (hearlier : ∀ handler ∈ server.handlers, ∀ t < turn, handler.pendingAt id₀ t = false)
    (hfits : realStart.toNat + ((server.entry id₀).blockNumber.toNat + 1) < 2 ^ 64)
    (id : SessionId) :
    Numbered (server.move up evm order i (.located id₀ tx result realStart turn)) id := by
  simp only [Server.move]
  by_cases hid : id = id₀
  · subst hid
    have hold := h.numbered id
    have hlive := undropped (t := turn) hold (List.mem_of_getElem? hi) (by simp [Handler.pendingAt])
    have hcommit := h.accounts.noted _ (List.mem_of_getElem? hi)
    have hturn := turn_next h hi hearlier
    have hstart := hold.located tx result realStart turn (List.mem_of_getElem? hi)
    have hlength := (List.getElem?_eq_some_iff.mp hcommit).1
    have hentry := hold.entry hlive
    have hblock : realStart = .ofNat (server.past id).block := by
      rw [← hstart, UInt64.ofNat_toNat]
    have haccounted := h.accounts.accounted id
    refine ⟨?_, ?_, ?_, ?_, ?_, ?_, ?_⟩ <;> simp only [Function.update_self]
    · rw [List.length_append, List.length_singleton, List.range_succ, ← hold.inOrder, ← hturn]
    · intro _
      rw [List.length_append, List.length_singleton, ← hturn, List.take_add_one, hcommit,
        Option.toList_some, after_snoc]
      rw [← hturn] at hentry
      simp only [Server.entry, Finmap.lookup_insert, Option.getD_some]
      rw [← hentry, hblock]
      rfl
    · intro turn' hmem
      rcases List.mem_append.mp hmem with hmem | hnew
      · exact hold.fits turn' hmem
      · rw [numbered_counter haccounted hold hlive, ← hturn, hstart] at hfits
        rw [List.mem_singleton.mp hnew]
        omega
    · intro tx' result' realStart' turn' hmem
      rcases List.mem_or_eq_of_mem_set hmem with hmem | hnew
      · exact hold.located tx' result' realStart' turn' hmem
      · cases hnew
    · intro receipt turn' hmem
      rcases List.mem_or_eq_of_mem_set hmem with hmem | hnew
      · obtain ⟨hentered, hnumber⟩ := hold.sent receipt turn' hmem
        exact ⟨List.mem_append_left _ hentered, hnumber⟩
      · obtain ⟨-, rfl, rfl⟩ := Handler.sent.inj hnew
        refine ⟨List.mem_append_right _ (List.mem_singleton_self _), ?_⟩
        have hcount := haccounted.counter hlive
        rw [← hturn] at hcount
        simp only [SessionRpcState.enter, buildReceipt, hblock, hcount]
        rw [UInt64.ofNat_add, ← UInt64.add_assoc (server.past id).start.blockNumber]
        rfl
    · intro hdropped
      rw [hlive] at hdropped
      cases hdropped
    · exact hold.block
  · refine numbered_frame (h.numbered id) (Function.update_of_ne hid _ _) ?_ (concerns_set ?_)
      fun s hs => ⟨s, hs, rfl⟩
    · simp [Server.entry, Finmap.lookup_insert_of_ne _ hid]
    · simp [Handler.concerns, Ne.symm hid]

/-- A child starts with the entry it is given. -/
theorem numbered_clone (h : InLedger server) {i : ℕ} {parent child : SessionId} {before : ℕ}
    (hunused : server.rpcState.lookup parent = none ∨ (server.past child).commits = [])
    (id : SessionId) :
    Numbered (server.move up evm order i (.adopted parent child before)) id := by
  simp only [Server.move]
  cases hparent : server.rpcState.lookup parent with
  | none => exact numbered_frame (h.numbered id) rfl rfl (concerns_set rfl) fun s hs => ⟨s, hs, rfl⟩
  | some inherited =>
    by_cases hid : id = child
    · subst hid
      have hold := h.numbered id
      have hnone : (server.past id).commits = [] := by
        rcases hunused with hnone | hnone
        · rw [hparent] at hnone
          cases hnone
        · exact hnone
      have hnobody := unconcerned h.accounts hnone
      have hset : ∀ handler ∈ server.handlers.set i (.forked parent id before),
          handler.concerns id = false := by
        intro handler hmem
        rcases List.mem_or_eq_of_mem_set hmem with hmem | rfl
        · exact hnobody handler hmem
        · rfl
      have hentered : (server.past id).entered = [] := by
        refine List.eq_nil_iff_forall_not_mem.mpr fun t ht => ?_
        have hwithin := (h.accounts.accounted id).within t ht
        rw [hnone] at hwithin
        exact Nat.not_lt_zero t hwithin
      refine ⟨?_, ?_, ?_, ?_, ?_, ?_, ?_⟩ <;> simp only [Function.update_self]
      · exact hold.inOrder
      · intro _
        simp only [hnone, List.take_nil, SessionRpcState.after, List.foldl_nil, Server.entry,
          Finmap.lookup_insert, Option.getD_some]
      · rw [hentered]
        exact fun turn hmem => absurd hmem List.not_mem_nil
      · intro tx result realStart turn hmem
        have hnot := hset _ hmem
        simp [Handler.concerns] at hnot
      · intro receipt turn hmem
        have hnot := hset _ hmem
        simp [Handler.concerns] at hnot
      · exact fun hdropped => ⟨(hold.gone hdropped).1, settled_of_unconcerned hset⟩
      · exact hold.block
    · refine numbered_frame (h.numbered id) (Function.update_of_ne hid _ _) ?_ (concerns_set rfl)
        fun s hs => ⟨s, hs, rfl⟩
      simp [Server.entry, Finmap.lookup_insert_of_ne _ hid]

/-- A discard takes an entry away that nobody is on the way to. -/
theorem numbered_remove (h : InLedger server) {i : ℕ} {id₀ : SessionId}
    (hgone : server.rpcState.lookup id₀ = none ∨
      (server.sessions.lookup id₀ = none ∧ server.Settled id₀)) (id : SessionId) :
    Numbered (server.move up evm order i (.discarded id₀)) id := by
  simp only [Server.move]
  by_cases hid : id = id₀
  · subst hid
    have hold := h.numbered id
    have hset : server.Settled id →
        Server.Settled { server with handlers := server.handlers.set i .done } id := by
      intro hsettled handler hmem t
      rcases List.mem_or_eq_of_mem_set hmem with hmem | rfl
      · exact hsettled handler hmem t
      · rfl
    refine ⟨?_, ?_, ?_, ?_, ?_, ?_, ?_⟩ <;> simp only [Function.update_self]
    · exact hold.inOrder
    · intro hdropped
      obtain ⟨hdropped, hnone⟩ := Bool.or_eq_false_iff.mp hdropped
      have hentry := hold.entry hdropped
      simp only [Server.entry, Option.isSome_eq_false_iff.mp hnone
        |> Option.isNone_iff_eq_none.mp] at hentry
      simp only [Server.entry, Finmap.lookup_erase]
      exact hentry
    · exact hold.fits
    · intro tx result realStart turn hmem
      rcases List.mem_or_eq_of_mem_set hmem with hmem | hnew
      · exact hold.located tx result realStart turn hmem
      · cases hnew
    · intro receipt turn hmem
      rcases List.mem_or_eq_of_mem_set hmem with hmem | hnew
      · exact hold.sent receipt turn hmem
      · cases hnew
    · intro hdropped
      rcases Bool.or_eq_true_iff.mp hdropped with hdropped | hsome
      · exact ⟨(hold.gone hdropped).1, hset (hold.gone hdropped).2⟩
      · rcases hgone with hnone | ⟨hnone, hsettled⟩
        · rw [hnone] at hsome
          cases hsome
        · exact ⟨hnone, hset hsettled⟩
    · exact hold.block
  · refine numbered_frame (h.numbered id) (Function.update_of_ne hid _ _) ?_ (concerns_set rfl)
      fun s hs => ⟨s, hs, rfl⟩
    simp [Server.entry, Finmap.lookup_erase_ne hid]

/-- STEP LEMMA. -/
theorem inLedger_step (h : InLedger server) (event : ServerEvent F) (hguard : server.InTurn event) :
    InLedger (server.step up evm order event) := by
  refine ⟨accounts_step h.accounts event hguard.1, fun id => ?_⟩
  have happend : ∀ {handler : Handler F}, (∀ id, handler.concerns id = false) →
      Numbered { server with handlers := server.handlers ++ [handler] } id := by
    intro handler hnot
    refine numbered_frame (h.numbered id) rfl rfl (fun other hmem hconcerns => ?_)
      fun s hs => ⟨s, hs, rfl⟩
    rcases List.mem_append.mp hmem with hold | hnew
    · exact hold
    · rw [List.mem_singleton.mp hnew, hnot] at hconcerns
      cases hconcerns
  obtain ⟨horderly, hturn⟩ := hguard
  cases event with
  | send id' tx => exact happend fun _ => rfl
  | forkFrom parent => exact happend fun _ => rfl
  | discard id' => exact happend fun _ => rfl
  | opened session => exact numbered_register h session horderly id
  | expire id' =>
    refine numbered_frame (h.numbered id) rfl rfl (fun _ hmem _ => hmem) fun s hs => ?_
    exact ⟨s, Map.of_lookup_erase hs, rfl⟩
  | other job =>
    obtain ⟨sessions, hserve, hplaces⟩ := serve_inPlace up evm order server job.2
    simp only [Server.step, hserve]
    refine numbered_frame (h.numbered id) rfl rfl (fun _ hmem _ => hmem) fun s hs => ?_
    have hplace := hplaces id
    rw [hs] at hplace
    exact Option.map_eq_some_iff.mp hplace.symm
  | refresh blockEnv =>
    exact numbered_frame (h.numbered id) rfl rfl (fun _ hmem _ => hmem) fun s hs => ⟨s, hs, rfl⟩
  | move i =>
    simp only [Server.step]
    cases hi : server.handlers[i]? with
    | none => exact h.numbered id
    | some handler =>
      have hregular := horderly handler hi
      have hinTurn := hturn i rfl handler hi
      cases handler with
      | send id' tx => exact numbered_send h hi id
      | executed id' tx result turn =>
        exact numbered_locate h hi hinTurn id
      | located id' tx result realStart turn =>
        exact numbered_enter h hi hinTurn.1 hinTurn.2 id
      | forkFrom parent =>
        simp only [Server.move]
        split <;>
          exact numbered_frame (h.numbered id) rfl rfl (concerns_set rfl) fun s hs => ⟨s, hs, rfl⟩
      | branched parent session before =>
        exact numbered_frame
          (numbered_register h session hregular id) rfl rfl
          (concerns_set rfl) fun s hs => ⟨s, hs, rfl⟩
      | adopted parent child before =>
        exact numbered_clone h hregular id
      | discard id' =>
        refine numbered_frame (h.numbered id) rfl rfl (concerns_set rfl) fun s hs => ?_
        exact ⟨s, Map.of_lookup_erase hs, rfl⟩
      | discarded id' => exact numbered_remove h hinTurn id
      | sent | forked | done | failed => exact h.numbered id

theorem inLedger_start (blockEnv : BlockEnv) : InLedger (Server.start blockEnv : Server F) := by
  refine ⟨accounts_start blockEnv, fun id => ⟨rfl, fun _ => rfl, nofun, nofun, nofun, nofun,
    fun s hs => ?_⟩⟩
  simp [Server.start] at hs

end Step

/-! ### The main result -/

theorem inLedger_receipted (h : InLedger server) (id : SessionId) : Receipted server id := by
  have hnumbered := h.numbered id
  have haccounted := h.accounts.accounted id
  have hall : server.Settled id → ∀ turn < (server.past id).commits.length,
      turn ∈ (server.past id).entered := by
    intro hsettled turn hlt
    by_contra hnot
    have hone := haccounted.turns turn
    rw [if_pos ⟨hlt, hnot⟩] at hone
    have hzero : server.handlers.countP (Handler.pendingAt id turn) = 0 := by
      rw [List.countP_eq_zero]
      intro handler hmem
      rw [hsettled handler hmem turn]
      exact Bool.false_ne_true
    omega
  have hsent : ∀ receipt turn, .sent id receipt turn ∈ server.handlers →
      ∃ tx result, (server.past id).commits[turn]? = some (tx, result) ∧
        receipt = buildReceipt tx result (.ofNat (server.past id).block +
          ((server.past id).start.blockNumber + .ofNat (turn + 1))) := by
    intro receipt turn hmem
    obtain ⟨tx, result, hcommit, hreceipt⟩ := h.accounts.noted _ hmem
    rw [(hnumbered.sent receipt turn hmem).2] at hreceipt
    exact ⟨tx, result, hcommit, hreceipt⟩
  refine ⟨?_, fun hsettled turn hlt => haccounted.answered turn (hall hsettled turn hlt), ?_, ?_⟩
  · intro receipt turn hmem
    obtain ⟨tx, result, hcommit, hreceipt⟩ := hsent receipt turn hmem
    have hfits := hnumbered.fits turn (hnumbered.sent receipt turn hmem).1
    have hblock : (UInt64.ofNat (server.past id).block).toNat = (server.past id).block :=
      toNat_fits (by omega)
    refine ⟨tx, result, _, hcommit, hreceipt, ?_⟩
    rw [toNat_numbered (by rwa [hblock]), hblock]
  · intro hsettled s height hs hheight
    have hlive : (server.past id).dropped = false := by
      cases hdropped : (server.past id).dropped with
      | false => rfl
      | true =>
        rw [(hnumbered.gone hdropped).1] at hs
        cases hs
    have hblock : height.toNat = (server.past id).block :=
      (BlockEnv.height_eq hheight).trans (hnumbered.block s hs)
    have hcount : (server.past id).entered.length = (server.past id).commits.length := by
      have hle : ∀ turn, turn ∈ (server.past id).entered ↔
          turn ∈ List.range (server.past id).commits.length := fun turn => by
        rw [List.mem_range]
        exact ⟨haccounted.within turn, hall hsettled turn⟩
      have hperm := (List.perm_ext_iff_of_nodup haccounted.nodup List.nodup_range).mpr hle
      rw [hperm.length_eq, List.length_range]
    have hfits : (server.past id).block + (server.past id).start.blockNumber.toNat < 2 ^ 64 →
        (server.past id).block + ((server.past id).start.blockNumber.toNat +
          (server.past id).commits.length) < 2 ^ 64 := by
      -- without a send it is the start itself, else the last one's number
      intro hstart
      cases hlength : (server.past id).commits.length with
      | zero => exact hstart
      | succ m => exact hnumbered.fits m (hall hsettled m (by omega))
    refine ⟨hblock, fun hstart => ⟨height + ((server.past id).start.blockNumber +
      .ofNat (server.past id).commits.length), ?_, ?_⟩⟩
    · rw [Server.realBlockNumber, Server.sessionBlockEnv, hs]
      simp only [hheight, Option.map_some]
      rw [haccounted.counter hlive, hcount]
    · rw [toNat_numbered (by rw [hblock]; exact hfits hstart), hblock]
  · intro hlive receipt turn hmem hlast
    obtain ⟨hentered, -⟩ := hnumbered.sent receipt turn hmem
    obtain ⟨tx, result, hcommit, rfl⟩ := hsent receipt turn hmem
    have hlt : turn < (server.past id).entered.length := by
      rw [hnumbered.inOrder, List.mem_range] at hentered
      exact hentered
    rw [transactionReceipt_entry, hnumbered.entry hlive]
    refine after_lookup _ _ _ ?_ fun turn' commit hturn' hget => ?_
    · rw [List.getElem?_take_of_lt hlt]
      exact hcommit
    · refine hlast turn' commit hturn' ?_
      rw [List.getElem?_take] at hget
      split at hget
      · exact hget
      · cases hget

/-- EXACT: in every run in which sends find their session's block and reach the table in the order
    they were committed, and no discard falls on a send that is under way, receipts follow commit
    order. -/
theorem receipts_in_order [ToString E] {up : F → Upstream E} {evm : Evm E} {order : HashOrder}
    (blockEnv : BlockEnv) (events : List (ServerEvent F))
    (hguard : Guarded (Server.step up evm order) Server.InTurn (.start blockEnv) events)
    (id : SessionId) :
    Receipted (runAll (Server.step up evm order) (.start blockEnv) events) id :=
  inLedger_receipted (guarded_inv (P := InLedger)
    (fun _ event h hturn => inLedger_step h event hturn) _ events (inLedger_start blockEnv) hguard) id

/-- Two transactions sent to a session by two handlers that take turns. -/
def takingTurns : List (ServerEvent Unit) :=
  [.opened freshSession, .send 0 (nthTx 0), .send 0 (nthTx 1), .move 0, .move 1, .move 0, .move 1,
    .move 0, .move 1]

theorem receipts_in_order_two :
    Receipted (runAll (Server.step (fun _ => .vacant "missing") obliging .some)
      (.start ⟨1, 0, 0, 30000000⟩) takingTurns) 0 := by
  refine receipts_in_order ⟨1, 0, 0, 30000000⟩ takingTurns ⟨⟨Nat.two_pow_pos 64, nofun⟩,
    ⟨trivial, nofun⟩, ⟨trivial, nofun⟩, ⟨?_, ?_⟩, ⟨?_, ?_⟩, ⟨?_, ?_⟩, ⟨?_, ?_⟩, ⟨?_, ?_⟩, ⟨?_, ?_⟩,
    trivial⟩ 0
  · rintro _ ⟨⟩; exact trivial
  · rintro _ ⟨⟩ _ ⟨⟩; exact trivial
  · rintro _ ⟨⟩; exact trivial
  · rintro _ ⟨⟩ _ ⟨⟩; exact trivial
  · rintro _ ⟨⟩; exact rfl
  · rintro _ ⟨⟩ _ ⟨⟩; exact rfl
  · rintro _ ⟨⟩; exact rfl
  · rintro _ ⟨⟩ _ ⟨⟩; exact rfl
  · rintro _ ⟨⟩; exact trivial
  · rintro _ ⟨⟩ _ ⟨⟩
    exact ⟨fun handler hmem t ht => absurd ht (Nat.not_lt_zero t), by decide +kernel⟩
  · rintro _ ⟨⟩; exact trivial
  · -- the second is at the table once the first is answered
    rintro _ ⟨⟩ _ ⟨⟩
    exact ⟨by decide +kernel, by decide +kernel⟩

/-- Two transactions, committed one after the other; the second one's handler is at the table
    first. -/
def overtaking : List (ServerEvent Unit) :=
  [.opened freshSession, .send 0 (nthTx 0), .send 0 (nthTx 1), .move 0, .move 1, .move 0, .move 1,
    .move 1, .move 0]

/-- The first transaction's receipt is in the second block. -/
theorem overtaken_receipt :
    ¬ Receipted (runAll (Server.step (fun _ => .vacant "missing") obliging .some)
      (.start ⟨1, 0, 0, 30000000⟩) overtaking) 0 := by
  intro h
  obtain ⟨tx, result, blockNumber, -, hreceipt, hnumber⟩ :=
    h.numbered (buildReceipt (nthTx 0) (.success 21000 []) 3) 0 List.mem_cons_self
  obtain rfl : 3 = blockNumber := congrArg Receipt.blockNumber hreceipt
  cases hnumber

end Forkyard
