import Forkyard.Session.Serial

/-! revm, which is no part of this program, by the phases a transaction goes through and what is
    documented of each: which checks come before it is executed, and what each of them looks at. A
    session runs a transaction under one of two configurations, revm's own for mainnet and a dry
    run's, in which two of the checks are switched off.

        environment ──▶ caller ──▶ nonce ──▶ balance ──▶ execution
             │            │          │          │
             └────────────┴─ rejected┴──────────┘ -/

namespace Forkyard

open Schemes

variable {F E : Type}

/-- What a rejection is on account of. -/
inductive Ground where
  | chainId
  | baseFee
  | nonce
  | balance
  | other
  deriving DecidableEq

/-- revm by its phases: the checks that read no account, the caller as it is loaded (with the check
    that it is no contract), the two checks of the caller, and the execution. -/
structure Revm (E : Type) where
  validateEnv : CfgEnv → BlockEnv → TxEnv → Option InvalidTransaction
  loadCaller : CfgEnv → TxEnv → ReadProg E (Except EVMError AccountInfo)
  validateNonce : TxEnv → AccountInfo → Option InvalidTransaction
  validateBalance : CfgEnv → TxEnv → AccountInfo → Option InvalidTransaction
  execution : CfgEnv → BlockEnv → TxEnv → ReadProg E (Except String (ExecutionResult × EvmState))
  ground : InvalidTransaction → Ground

/-- The configuration of a dry run. -/
def CfgEnv.dryRun : CfgEnv :=
  { CfgEnv.mainnet with disableBalanceCheck := true, disableBaseFee := true }

namespace Revm

/-- The phases one after another. -/
def evm (r : Revm E) : Evm E := fun cfg blockEnv tx =>
  match r.validateEnv cfg blockEnv tx with
  | some reason => .ret (.error (.transaction reason))
  | none => (r.loadCaller cfg tx).bind fun
    | .error e => .ret (.error e)
    | .ok caller =>
      match r.validateNonce tx caller with
      | some reason => .ret (.error (.transaction reason))
      | none =>
        match r.validateBalance cfg tx caller with
        | some reason => .ret (.error (.transaction reason))
        | none => (r.execution cfg blockEnv tx).map fun outcome => outcome.mapError .other

/-- What is documented of the checks. A chain id that is not the configured one is turned away first
    of all; the base fee and the balance are looked at unless that is switched off; the nonce has to
    be the one of the caller's account in the database, always. -/
structure Documented (r : Revm E) : Prop where
  named : r.ground .gasPriceLessThanBasefee = .baseFee ∧
    ∀ fee balance, r.ground (.lackOfFundForMaxFee fee balance) = .balance
  chain : ∀ cfg blockEnv tx,
    (∃ reason, r.validateEnv cfg blockEnv tx = some reason ∧ r.ground reason = .chainId) ↔
      ∃ chainId, tx.chainId = some chainId ∧ chainId ≠ cfg.chainId
  fee : ∀ cfg blockEnv tx reason, r.validateEnv cfg blockEnv tx = some reason →
    r.ground reason = .baseFee → cfg.disableBaseFee = false
  env : ∀ cfg blockEnv tx reason, r.validateEnv cfg blockEnv tx = some reason →
    r.ground reason ≠ .nonce ∧ r.ground reason ≠ .balance
  caller : ∀ cfg tx, (r.loadCaller cfg tx).All fun loaded =>
    ∀ reason, loaded = .error (.transaction reason) → r.ground reason = .other
  account : ∀ cfg tx (answer : (q : Query) → Answer E q) info,
    (r.loadCaller cfg tx).eval answer = some (.ok info) →
      ∃ account, answer (.basic tx.caller) = .ok account ∧ info.nonce = (account.getD .default).nonce
  nonce : ∀ tx info, r.validateNonce tx info = none ↔ tx.nonce = info.nonce
  nonceGround : ∀ tx info reason, r.validateNonce tx info = some reason → r.ground reason = .nonce
  balance : ∀ cfg tx info reason, r.validateBalance cfg tx info = some reason →
    r.ground reason = .balance ∧ cfg.disableBalanceCheck = false

/-- The transaction passes every check there is but the nonce and the balance. -/
def Admits (r : Revm E) (answer : (q : Query) → Answer E q) (cfg : CfgEnv) (blockEnv : BlockEnv)
    (tx : TxEnv) : Prop :=
  r.validateEnv cfg blockEnv tx = none ∧
    ∃ info, (r.loadCaller cfg tx).eval answer = some (.ok info)

/-- What is so where a transaction is rejected on account of something. -/
def Grounded (r : Revm E) (answer : (q : Query) → Answer E q) (cfg : CfgEnv) (blockEnv : BlockEnv)
    (tx : TxEnv) : Ground → Prop
  | .chainId => ∃ chainId, tx.chainId = some chainId ∧ chainId ≠ cfg.chainId
  | .baseFee => cfg.disableBaseFee = false
  | .nonce => r.Admits answer cfg blockEnv tx ∧ ∃ account,
    answer (.basic tx.caller) = .ok account ∧ tx.nonce ≠ (account.getD .default).nonce
  | .balance => cfg.disableBalanceCheck = false
  | .other => True

variable {r : Revm E} {answer : (q : Query) → Answer E q} {cfg : CfgEnv} {blockEnv : BlockEnv}
  {tx : TxEnv}

/-- How far a transaction gets, and what comes of it. -/
inductive Course (r : Revm E) (answer : (q : Query) → Answer E q) (cfg : CfgEnv)
    (blockEnv : BlockEnv) (tx : TxEnv) :
    Option (Except EVMError (ExecutionResult × EvmState)) → Prop
  | env {reason : InvalidTransaction} (h : r.validateEnv cfg blockEnv tx = some reason) :
    Course r answer cfg blockEnv tx (some (.error (.transaction reason)))
  | panicked (henv : r.validateEnv cfg blockEnv tx = none)
    (h : (r.loadCaller cfg tx).eval answer = none) : Course r answer cfg blockEnv tx none
  | caller {e : EVMError} (henv : r.validateEnv cfg blockEnv tx = none)
    (h : (r.loadCaller cfg tx).eval answer = some (.error e)) :
    Course r answer cfg blockEnv tx (some (.error e))
  | nonce {info : AccountInfo} {reason : InvalidTransaction}
    (henv : r.validateEnv cfg blockEnv tx = none)
    (hload : (r.loadCaller cfg tx).eval answer = some (.ok info))
    (h : r.validateNonce tx info = some reason) :
    Course r answer cfg blockEnv tx (some (.error (.transaction reason)))
  | balance {info : AccountInfo} {reason : InvalidTransaction}
    (henv : r.validateEnv cfg blockEnv tx = none)
    (hload : (r.loadCaller cfg tx).eval answer = some (.ok info))
    (hnonce : r.validateNonce tx info = none) (h : r.validateBalance cfg tx info = some reason) :
    Course r answer cfg blockEnv tx (some (.error (.transaction reason)))
  | executed {info : AccountInfo} (henv : r.validateEnv cfg blockEnv tx = none)
    (hload : (r.loadCaller cfg tx).eval answer = some (.ok info))
    (hnonce : r.validateNonce tx info = none) (hbalance : r.validateBalance cfg tx info = none) :
    Course r answer cfg blockEnv tx
      (((r.execution cfg blockEnv tx).eval answer).map fun outcome => outcome.mapError .other)

theorem evm_course (r : Revm E) (answer : (q : Query) → Answer E q) (cfg : CfgEnv)
    (blockEnv : BlockEnv) (tx : TxEnv) :
    Course r answer cfg blockEnv tx ((r.evm cfg blockEnv tx).eval answer) := by
  unfold evm
  cases henv : r.validateEnv cfg blockEnv tx with
  | some reason => exact .env henv
  | none =>
    simp only [Tree.eval_bind]
    rcases hload : (r.loadCaller cfg tx).eval answer with _ | e | info
    · exact .panicked henv hload
    · exact .caller henv hload
    · simp only [Option.bind_some]
      cases hnonce : r.validateNonce tx info with
      | some reason => exact .nonce henv hload hnonce
      | none =>
        cases hbalance : r.validateBalance cfg tx info with
        | some reason => exact .balance henv hload hnonce hbalance
        | none =>
          simp only [Tree.eval_map]
          exact .executed henv hload hnonce hbalance

/-- A rejection has its ground. -/
theorem rejected_grounded (hr : r.Documented) {reason : InvalidTransaction}
    (h : (r.evm cfg blockEnv tx).eval answer = some (.error (.transaction reason))) :
    r.Grounded answer cfg blockEnv tx (r.ground reason) := by
  have hcourse := evm_course r answer cfg blockEnv tx
  rw [h] at hcourse
  generalize hout : some (Except.error (EVMError.transaction reason)) = out at hcourse
  cases hcourse with
  | env henv =>
    cases hout
    cases hground : r.ground reason with
    | chainId => exact (hr.chain cfg blockEnv tx).mp ⟨reason, henv, hground⟩
    | baseFee => exact hr.fee cfg blockEnv tx reason henv hground
    | nonce => exact absurd hground (hr.env cfg blockEnv tx reason henv).1
    | balance => exact absurd hground (hr.env cfg blockEnv tx reason henv).2
    | other => exact trivial
  | panicked => cases hout
  | caller henv hload =>
    cases hout
    rw [Tree.eval_all answer (hr.caller cfg tx) hload reason rfl]
    exact trivial
  | @nonce info reason' henv hload hnonce =>
    cases hout
    rw [hr.nonceGround tx info reason hnonce]
    obtain ⟨account, haccount, hsame⟩ := hr.account cfg tx answer info hload
    refine ⟨⟨henv, info, hload⟩, account, haccount, fun heq => ?_⟩
    rw [(hr.nonce tx info).mpr (heq.trans hsame.symm)] at hnonce
    cases hnonce
  | @balance info reason' henv hload hnonce hbalance =>
    cases hout
    rw [(hr.balance cfg tx info reason hbalance).1]
    exact (hr.balance cfg tx info reason hbalance).2
  | executed =>
    -- an execution does not reject
    obtain ⟨outcome, -, hmap⟩ := Option.map_eq_some_iff.mp hout.symm
    cases outcome <;> cases hmap

/-- A transaction for another chain is rejected for that. -/
theorem rejected_chain (hr : r.Documented) {chainId : UInt64} (htx : tx.chainId = some chainId)
    (hne : chainId ≠ cfg.chainId) : ∃ reason, r.ground reason = .chainId ∧
      (r.evm cfg blockEnv tx).eval answer = some (.error (.transaction reason)) := by
  obtain ⟨reason, henv, hground⟩ := (hr.chain cfg blockEnv tx).mpr ⟨chainId, htx, hne⟩
  refine ⟨reason, hground, ?_⟩
  simp only [evm, henv, Tree.eval]

/-- A transaction that is otherwise admitted is rejected for a nonce that is not its caller's. -/
theorem rejected_nonce (hr : r.Documented) (hadmits : r.Admits answer cfg blockEnv tx)
    {account : Option AccountInfo} (haccount : answer (.basic tx.caller) = .ok account)
    (hne : tx.nonce ≠ (account.getD .default).nonce) : ∃ reason, r.ground reason = .nonce ∧
      (r.evm cfg blockEnv tx).eval answer = some (.error (.transaction reason)) := by
  obtain ⟨henv, info, hload⟩ := hadmits
  obtain ⟨account', haccount', hsame⟩ := hr.account cfg tx answer info hload
  rw [haccount] at haccount'
  obtain rfl := Except.ok.inj haccount'
  cases hnonce : r.validateNonce tx info with
  | none => exact absurd (((hr.nonce tx info).mp hnonce).trans hsame) hne
  | some reason =>
    refine ⟨reason, hr.nonceGround tx info reason hnonce, ?_⟩
    simp only [evm, henv, Tree.eval_bind, hload, Option.bind_some, hnonce, Tree.eval]

/-- A transaction that is otherwise admitted is executed under its caller's nonce, when balances are
    not looked at. -/
theorem admitted_executed (hr : r.Documented) (hadmits : r.Admits answer cfg blockEnv tx)
    (hcfg : cfg.disableBalanceCheck = true) {account : Option AccountInfo}
    (haccount : answer (.basic tx.caller) = .ok account)
    (hnonce : tx.nonce = (account.getD .default).nonce) :
    (r.evm cfg blockEnv tx).eval answer
      = ((r.execution cfg blockEnv tx).eval answer).map fun outcome => outcome.mapError .other := by
  obtain ⟨henv, info, hload⟩ := hadmits
  obtain ⟨account', haccount', hsame⟩ := hr.account cfg tx answer info hload
  rw [haccount] at haccount'
  obtain rfl := Except.ok.inj haccount'
  have hvalid := (hr.nonce tx info).mpr (hnonce.trans hsame.symm)
  cases hbalance : r.validateBalance cfg tx info with
  | some reason =>
    have hoff := (hr.balance cfg tx info reason hbalance).2
    rw [hcfg] at hoff
    cases hoff
  | none =>
    simp only [evm, henv, Tree.eval_bind, hload, Option.bind_some, hvalid, hbalance, Tree.eval_map]

end Revm

/-! ### What a session answers -/

section Serve

variable [ToString E] (up : F → Upstream E) (evm : Evm E) (order : HashOrder)

/-- What a run of the EVM is to its caller. -/
def executedReply (outcome : Except EVMError (ExecutionResult × EvmState)) : Reply F :=
  .executed ((outcome.mapError executionError).map Prod.fst)

omit [ToString E] in
/-- Touching sender and recipient first changes nothing about the outcome. -/
theorem executePass_eval (answer : (q : Query) → Answer E q) (tx : TxEnv)
    (disableChecks : Bool) (blockEnv : BlockEnv) :
    (executePass evm tx disableChecks blockEnv).eval answer
      = ((evm (if disableChecks then .dryRun else .mainnet) blockEnv tx).eval answer).map
          fun outcome => outcome.mapError executionError := by
  have htransact : (transact evm tx disableChecks blockEnv).eval answer
      = ((evm (if disableChecks then .dryRun else .mainnet) blockEnv tx).eval answer).map
          fun outcome => outcome.mapError executionError := Tree.eval_map answer _ _
  unfold executePass
  rw [Tree.eval_bind]
  cases tx.kind with
  | create => exact htransact
  | call recipient => exact htransact

omit [ToString E] in
/-- A task's reply is what it evaluates to on the session's view. -/
theorem serve_eval {R : Type} (task : Task E R) (s : Session F) :
    (task.serve up s).1 = (task s.blockEnv).eval (s.view up).answer := by
  have hrun := (Session.run_view (Session.faithful_upstream up) (task s.blockEnv) s () trivial).1
  unfold Task.serve
  rcases h : (task s.blockEnv).run (Session.answer (Upstream.db up)) (s, ()) with ⟨o, s', u⟩
  rw [h] at hrun
  cases o <;> exact hrun

/-- A dry run. -/
theorem simulate_reply (id : SessionId) (tx : TxEnv) (s : Session F) :
    (refStep up evm order (.read id (.simulate tx true)) (some s)).1
      = ((evm .dryRun s.blockEnv tx).eval (s.view up).answer).map executedReply := by
  simp only [refStep, serve_eval, Request.task, Task.answering, executeTask, Tree.eval_map,
    executePass_eval, Option.map_map, if_true]
  rfl

/-- A transaction that is meant. -/
theorem advance_reply (id : SessionId) (tx : TxEnv) (s : Session F) :
    (refStep up evm order (.read id (.advance tx)) (some s)).1
      = ((evm .mainnet s.blockEnv tx).eval (s.view up).answer).map executedReply := by
  simp only [refStep, serve_eval, Request.task, Task.answering, executeTask, Tree.eval_map,
    executePass_eval, Option.map_map, Bool.false_eq_true, if_false]
  rfl

end Serve

/-! ### A small revm -/

/-- The checks that a plain transfer may fail, and an execution that counts the caller's nonce
    up. -/
def plainRevm : Revm String where
  validateEnv cfg blockEnv tx :=
    if tx.chainId.any (· != cfg.chainId) then some (.other "invalid chain ID")
    else if 16777216 < tx.gasLimit then some (.other "gas limit above the cap")
    else if cfg.disableBaseFee = false ∧ tx.gasPrice.toNat < blockEnv.basefee.toNat then
      some .gasPriceLessThanBasefee
    else if blockEnv.gasLimit < tx.gasLimit then some (.other "gas limit above the block's")
    else none
  loadCaller _ tx := (ask (.basic tx.caller)).map fun
    | .error _ => .error (.other "database")
    | .ok account => .ok (account.getD .default)
  validateNonce tx info := if tx.nonce = info.nonce then none else some (.other "wrong nonce")
  validateBalance cfg tx info :=
    let fee := tx.value.toNat + tx.gasLimit.toNat * tx.gasPrice.toNat
    if cfg.disableBalanceCheck = true ∨ fee ≤ info.balance.toNat then none
    else some (.lackOfFundForMaxFee (BitVec.ofNat 256 fee) info.balance)
  execution _ _ tx := (ask (.basic tx.caller)).map fun
    | .error _ => .error "database"
    | .ok account =>
      let info := account.getD .default
      .ok (.success 21000 [], ⟨[(tx.caller, ⟨{ info with nonce := info.nonce + 1 }, [], false, false,
        List.nodup_nil⟩)], List.nodup_singleton _⟩)
  ground
    | .gasPriceLessThanBasefee => .baseFee
    | .lackOfFundForMaxFee _ _ => .balance
    | .other text =>
      if text = "invalid chain ID" then .chainId else if text = "wrong nonce" then .nonce else .other

theorem plainRevm_documented : plainRevm.Documented where
  named := ⟨rfl, fun _ _ => rfl⟩
  chain cfg blockEnv tx := by
    have hother : (∃ chainId, tx.chainId = some chainId ∧ chainId ≠ cfg.chainId) ↔
        tx.chainId.any (· != cfg.chainId) = true := by
      cases tx.chainId <;> simp
    rw [hother]
    simp only [plainRevm]
    refine ⟨fun h => ?_, fun h => ⟨.other "invalid chain ID", if_pos h, rfl⟩⟩
    obtain ⟨reason, henv, hground⟩ := h
    repeat' split at henv
    all_goals first | assumption | cases henv <;> cases hground
  fee cfg blockEnv tx reason henv hground := by
    simp only [plainRevm] at henv hground
    repeat' split at henv
    all_goals first | exact And.left ‹_› | cases henv <;> cases hground
  env cfg blockEnv tx reason henv := by
    simp only [plainRevm] at henv
    repeat' split at henv
    all_goals cases henv <;> exact ⟨nofun, nofun⟩
  caller cfg tx answer reason h := by
    cases answer <;> cases h
  account cfg tx answer info h := by
    simp only [plainRevm, Tree.eval_map] at h
    obtain ⟨loaded, hloaded, heq⟩ := Option.map_eq_some_iff.mp h
    obtain rfl := Option.some.inj hloaded
    cases hanswer : answer (.basic tx.caller) with
    | error e => rw [hanswer] at heq; cases heq
    | ok account =>
      rw [hanswer] at heq
      exact ⟨account, rfl, congrArg AccountInfo.nonce (Except.ok.inj heq).symm⟩
  nonce tx info := by simp [plainRevm]
  nonceGround tx info reason h := by
    simp only [plainRevm] at h
    split at h <;> cases h
    rfl
  balance cfg tx info reason h := by
    simp only [plainRevm] at h
    split at h
    · cases h
    · rename_i hnot
      cases h
      exact ⟨rfl, Bool.eq_false_iff.mpr fun hoff => hnot (.inl hoff)⟩

end Forkyard
