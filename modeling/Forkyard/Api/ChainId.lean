import Forkyard.Api.Call

/-! One chain id, or two. The server reports the chain id it was started with and puts it into the
    calls it builds; a transaction that is sent brings its own, and an estimate has the builder's.
    The EVM that all of them end up in is configured for mainnet, whatever the server was started
    with.

        FORKYARD_CHAIN_ID ──▶ eth_chainId, eth_call ─┐
        signed transaction ──▶ its own               ├──▶ EVM: 1
        builder's default ──▶ eth_estimateGas ───────┘ -/

namespace Forkyard

open Schemes

variable {F E : Type}

/-- The EVM under other executions. An execution sees the chain id it is configured with. -/
def Revm.executing (r : Revm E)
    (execution : CfgEnv → BlockEnv → TxEnv → ReadProg E (Except String (ExecutionResult × EvmState))) :
    Revm E := { r with execution := execution }

/-- One chain id on a session: a transaction signed for the server's chain is not rejected for its
    chain id, one signed for another is never executed, calls and estimates are not rejected for
    theirs, and what is executed sees no other chain id than the one `eth_chainId` reports: nothing
    depends on what executions do under another. -/
structure OneChain [ToString E] (up : F → Upstream E) (r : Revm E) (order : HashOrder)
    (hex : HexParser) (state : AppState F) (id : SessionId) : Prop where
  own : ∀ tx : LegacyTx, tx.chainId = some state.chainId →
    ¬ Rejects r .chainId (state.advance up r.evm order id tx).1
  others : ∀ (tx : LegacyTx) (chainId : UInt64), tx.chainId = some chainId → chainId ≠ state.chainId →
    ∀ result, (state.advance up r.evm order id tx).1 ≠ .ok result
  calls : ∀ params, ¬ Rejects r .chainId (state.ethCall up r.evm order hex id params).1
  estimates : ∀ params meanwhile,
    ¬ Rejects r .chainId (state.ethEstimateGas up r.evm order hex id params meanwhile).1
  seen : ∀ execution, (∀ cfg, cfg.chainId = state.ethChainId → execution cfg = r.execution cfg) →
    (∀ tx, state.advance up (r.executing execution).evm order id tx
      = state.advance up r.evm order id tx) ∧
    (∀ params, state.ethCall up (r.executing execution).evm order hex id params
      = state.ethCall up r.evm order hex id params) ∧
    ∀ params meanwhile,
      state.ethEstimateGas up (r.executing execution).evm order hex id params meanwhile
        = state.ethEstimateGas up r.evm order hex id params meanwhile

/-! ### What the transactions carry -/

variable {hex : HexParser}

/-- An estimate's transaction has the builder's chain id. -/
theorem ethEstimateGasTx_chainId {params : Option CallObject} {tx : TxEnv}
    (h : hex.ethEstimateGasTx params = .ok tx) : tx.chainId = some 1 := by
  cases params with
  | none => cases h
  | some call =>
    obtain ⟨_, _, _, _, -, -, -, -, rfl⟩ := ethEstimateGasTx_iff.mp h
    rfl

section Paths

variable [ToString E] {up : F → Upstream E} {r : Revm E} {order : HashOrder} {state : AppState F}
  {id : SessionId}

/-- A dry run is rejected for its chain id only where that is not mainnet's. -/
theorem dryRun_chain (hr : r.Documented) {tx : TxEnv}
    (h : Rejects r .chainId (state.dryRun up r.evm order id tx).1) :
    ∃ chainId, tx.chainId = some chainId ∧ chainId ≠ 1 := by
  cases hs : state.server.sessions.lookup id with
  | none =>
    obtain ⟨reason, hreason, -⟩ := h
    rw [dryRun_unknown hs] at hreason
    cases hreason
  | some s =>
    rw [dryRun_result hs] at h
    obtain ⟨reason, heval, hground⟩ := rejects_execution.mp h
    have hgrounded := Revm.rejected_grounded hr heval
    rw [hground] at hgrounded
    exact hgrounded

/-- A meant transaction is rejected for its chain id only where that is not mainnet's. -/
theorem advance_chain (hr : r.Documented) {tx : LegacyTx}
    (h : Rejects r .chainId (state.advance up r.evm order id tx).1) :
    ∃ chainId, tx.chainId = some chainId ∧ chainId ≠ 1 := by
  cases hs : state.server.sessions.lookup id with
  | none =>
    obtain ⟨reason, hreason, -⟩ := h
    rw [advance_unknown hs] at hreason
    cases hreason
  | some s =>
    rw [advance_result hs] at h
    obtain ⟨reason, heval, hground⟩ := rejects_execution.mp h
    have hgrounded := Revm.rejected_grounded hr heval
    rw [hground] at hgrounded
    exact hgrounded

/-- A meant transaction for another chain than mainnet is rejected for that. -/
theorem advance_rejected (hr : r.Documented) {s : Session F}
    (hs : state.server.sessions.lookup id = some s) {tx : LegacyTx} {chainId : UInt64}
    (htx : tx.chainId = some chainId) (hne : chainId ≠ 1) :
    Rejects r .chainId (state.advance up r.evm order id tx).1 := by
  rw [advance_result hs]
  have hrejected : ∃ reason, r.ground reason = .chainId ∧
      (r.evm .mainnet s.blockEnv tx.env).eval (s.view up).answer
        = some (.error (.transaction reason)) := Revm.rejected_chain hr htx hne
  obtain ⟨reason, hground, heval⟩ := hrejected
  exact rejects_execution.mpr ⟨reason, heval, hground⟩

/-- Reading a nonce is not validating anything. -/
theorem repliedNonce_ne {evm : Evm E} (address : Address) (reason : InvalidTransaction) :
    repliedNonce (state.server.serve up evm order (.read id (.basic address))).1
      ≠ .error (.session (.invalidTransaction reason)) := by
  rw [(serve_spec up evm order state.server (.read id (.basic address))).1, Job.sessionId]
  cases state.server.sessions.lookup id with
  | none =>
    intro h
    cases h
  | some s =>
    have hreply : (refStep up evm order (.read id (.basic address)) (some s)).1
        = some (.basic (displayed ((s.view up).answer (.basic address)))) := by
      simp only [refStep, serve_eval, Request.task, Task.answering, readTask, basicOf, ask,
        Tree.eval_map, Tree.query, Tree.eval, Option.map_some]
    rw [hreply]
    intro h
    cases hanswer : (s.view up).answer (.basic address) with
    | error e => rw [hanswer] at h; cases h
    | ok account => rw [hanswer] at h; cases h

/-- An estimate is never rejected for its chain id, whatever the server was started with. -/
theorem estimate_unchained (hr : r.Documented) (params : Option CallObject)
    (meanwhile : AppState F → AppState F) :
    ¬ Rejects r .chainId (state.ethEstimateGas up r.evm order hex id params meanwhile).1 := by
  intro h
  unfold AppState.ethEstimateGas at h
  cases htx : hex.ethEstimateGasTx params with
  | error e =>
    rw [htx] at h
    obtain ⟨message, rfl⟩ := ethEstimateGasTx_error htx
    obtain ⟨reason, hreason, -⟩ := h
    cases hreason
  | ok tx =>
    rw [htx] at h
    dsimp only at h
    split at h
    · rename_i e hnonce
      obtain ⟨reason, hreason, -⟩ := h
      exact repliedNonce_ne tx.caller reason (hnonce.trans hreason)
    · rename_i nonce hnonce
      obtain ⟨chainId, hchain, hne⟩ := dryRun_chain hr ((rejects_bind estimateOutput_ne _).mp h)
      rw [ethEstimateGasTx_chainId htx] at hchain
      exact hne (Option.some.inj hchain).symm

/-! ### What an execution sees -/

omit [ToString E] in
/-- Executions that agree under chain id 1 make one EVM under both configurations there are. -/
theorem executing_evm {execution : CfgEnv → BlockEnv → TxEnv →
      ReadProg E (Except String (ExecutionResult × EvmState))}
    (h : ∀ cfg, cfg.chainId = 1 → execution cfg = r.execution cfg) (disableChecks : Bool) :
    (r.executing execution).evm (if disableChecks then .dryRun else .mainnet)
      = r.evm (if disableChecks then .dryRun else .mainnet) := by
  have hsame : execution (if disableChecks then .dryRun else .mainnet)
      = r.execution (if disableChecks then .dryRun else .mainnet) := by
    cases disableChecks <;> exact h _ rfl
  unfold Revm.evm Revm.executing
  simp only [hsame]

omit [ToString E] in
/-- A transaction's task depends on the EVM under its own configuration. -/
theorem executeTask_congr {evm evm' : Evm E} (tx : TxEnv) (commit disableChecks : Bool)
    (h : evm (if disableChecks then .dryRun else .mainnet)
      = evm' (if disableChecks then .dryRun else .mainnet)) :
    executeTask evm tx commit disableChecks = executeTask evm' tx commit disableChecks := by
  have htransact : ∀ blockEnv, transact evm tx disableChecks blockEnv
      = transact evm' tx disableChecks blockEnv := by
    intro blockEnv
    change (evm (if disableChecks then .dryRun else .mainnet) blockEnv tx).map _
      = (evm' (if disableChecks then .dryRun else .mainnet) blockEnv tx).map _
    rw [h]
  funext blockEnv
  simp only [executeTask, executePass, htransact]

/-- Every request is served the same by EVMs that are the same under the two configurations. -/
theorem serve_congr {evm evm' : Evm E} (h : ∀ disableChecks : Bool,
      evm (if disableChecks then .dryRun else .mainnet)
        = evm' (if disableChecks then .dryRun else .mainnet))
    (server : Server F) (id : SessionId) (request : Request) :
    server.serve up evm order (.read id request) = server.serve up evm' order (.read id request) := by
  have htask : request.task (F := F) evm = request.task evm' := by
    cases request with
    | simulate tx disableChecks =>
      simp only [Request.task, executeTask_congr tx false disableChecks (h disableChecks)]
    | advance tx => simp only [Request.task, executeTask_congr tx true false (h false)]
    | storage | code | basic => rfl
  have hstep : ∀ slot, refStep up evm order (.read id request) slot
      = refStep up evm' order (.read id request) slot := by
    intro slot
    cases slot with
    | none => rfl
    | some s => simp only [refStep, htask]
  simp only [Server.serve, hstep]

end Paths

/-! ### The main result -/

section Main

variable [ToString E] {up : F → Upstream E} {r : Revm E} {order : HashOrder} {state : AppState F}
  {id : SessionId}

/-- EXACT: there is one chain id on a session if and only if the server was started with 1. -/
theorem one_chain_iff (hr : r.Documented) {s : Session F}
    (hs : state.server.sessions.lookup id = some s) :
    OneChain up r order hex state id ↔ state.chainId = 1 := by
  refine ⟨fun h => ?_, fun hone => ⟨?_, ?_, ?_, ?_, ?_⟩⟩
  · by_contra hne
    let tx : LegacyTx := ⟨0, 0, .create, 0, [], 0, 0, 0, some state.chainId⟩
    exact h.own tx rfl (advance_rejected hr hs rfl hne)
  · intro tx htx hrejects
    obtain ⟨chainId, hchain, hne⟩ := advance_chain hr hrejects
    rw [htx] at hchain
    exact hne ((Option.some.inj hchain).symm.trans hone)
  · intro tx chainId htx hne result hok
    rw [hone] at hne
    have hrejected : Rejects r .chainId (state.advance up r.evm order id tx).1 :=
      advance_rejected hr hs htx hne
    obtain ⟨reason, hreason, -⟩ := hrejected
    rw [hok] at hreason
    cases hreason
  · intro params hrejects
    unfold AppState.ethCall at hrejects
    cases htx : hex.ethCallTx state.chainId params with
    | error e =>
      rw [htx] at hrejects
      obtain ⟨message, rfl⟩ := ethCallTx_error htx
      obtain ⟨reason, hreason, -⟩ := hrejects
      cases hreason
    | ok tx =>
      rw [htx] at hrejects
      obtain ⟨chainId, hchain, hne⟩ := dryRun_chain hr ((rejects_bind callOutput_ne _).mp hrejects)
      rw [(ethCallTx_nonce htx).2] at hchain
      exact hne ((Option.some.inj hchain).symm.trans hone)
  · exact fun params meanwhile => estimate_unchained hr params meanwhile
  · intro execution hsame
    have hserve : ∀ (server : Server F) (id : SessionId) (request : Request),
        server.serve up (r.executing execution).evm order (.read id request)
          = server.serve up r.evm order (.read id request) :=
      serve_congr (executing_evm fun cfg hcfg => hsame cfg (hcfg.trans hone.symm))
    refine ⟨fun tx => ?_, fun params => ?_, fun params meanwhile => ?_⟩
    · simp only [AppState.advance, hserve]
    · simp only [AppState.ethCall, AppState.dryRun, hserve]
    · simp only [AppState.ethEstimateGas, AppState.dryRun, hserve]

end Main

/-- A server for mainnet with a fresh session. -/
theorem one_chain_mainnet :
    OneChain (fun _ => .vacant "missing") plainRevm .some oneAddress (stateAfter .some []) 0 :=
  (one_chain_iff plainRevm_documented rfl).mpr rfl

/-- A server for chain 10 with a fresh session: a transaction signed for it is rejected. -/
theorem own_chain_rejected :
    ¬ OneChain (fun _ => .vacant "missing") plainRevm .some oneAddress
      { stateAfter .some [] with chainId := 10 } 0 := fun h =>
  h.own { nthTx 0 with chainId := some 10 } rfl ⟨.other "invalid chain ID", rfl, rfl⟩

end Forkyard
