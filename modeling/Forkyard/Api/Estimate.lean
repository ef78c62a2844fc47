import Forkyard.Schemes.Gas
import Forkyard.Api.Call

/-! `eth_estimateGas` answers with what one dry run at a generous gas limit reports as used: what it
    spent, less its refund. Whether that is enough to run the call again is another matter: a refund
    is granted at the end only, a call lends no more than 63 of 64 parts, and some steps want more
    to be left than they take.

        estimate:  dry run at 16777216 ──success──▶ spent − refund
        again:     dry run at spent − refund ──?──▶ success -/

namespace Forkyard

open Schemes

variable {F E : Type}

/-- What is documented of revm's gas: each execution is a program metered as `code` says, which a
    smaller gas limit does not change, and one that succeeds reports what that program spends, less
    the refund it is granted. -/
structure MeteredBy (evm : Evm E)
    (code : CfgEnv → BlockEnv → TxEnv → ((q : Query) → Answer E q) → Metered) : Prop where
  reports : ∀ {cfg blockEnv tx answer gasUsed output diff},
    (evm cfg blockEnv tx).eval answer = some (.ok (.success gasUsed output, diff)) →
      (code cfg blockEnv tx answer).Succeeds tx.gasLimit.toNat ∧
        gasUsed.toNat = (code cfg blockEnv tx answer).used tx.gasLimit.toNat
  lower : ∀ {cfg blockEnv tx answer gasUsed output diff},
    (evm cfg blockEnv tx).eval answer = some (.ok (.success gasUsed output, diff)) →
      ∀ gasLimit : UInt64, gasLimit.toNat ≤ tx.gasLimit.toNat →
        ((∃ gasUsed output diff, (evm cfg blockEnv { tx with gasLimit := gasLimit }).eval answer
          = some (.ok (.success gasUsed output, diff))) ↔
            (code cfg blockEnv tx answer).Succeeds gasLimit.toNat)

namespace AppState

variable [ToString E] (up : F → Upstream E) (evm : Evm E) (order : HashOrder) (hex : HexParser)

/-- The state in which an `eth_estimateGas` makes its dry run, and the transaction of that. -/
def estimated (state : AppState F) (id : SessionId) (params : Option CallObject)
    (meanwhile : AppState F → AppState F) : Except RpcError (AppState F × TxEnv) :=
  match hex.ethEstimateGasTx params with
  | .error e => .error e
  | .ok tx =>
    let (reply, server) := state.server.serve up evm order (.read id (.basic tx.caller))
    match repliedNonce reply with
    | .error e => .error e
    | .ok nonce => .ok (meanwhile { state with server := server }, { tx with nonce := nonce })

/-- Dry run with this gas limit the transaction succeeds. -/
def SucceedsOn (state : AppState F) (id : SessionId) (tx : TxEnv) (gasLimit : UInt64) : Prop :=
  ∃ gasUsed output, (state.dryRun up evm order id { tx with gasLimit := gasLimit }).1
    = .ok (.success gasUsed output)

variable {up evm order hex}

theorem ethEstimateGas_eq (state : AppState F) (id : SessionId) (params : Option CallObject)
    (meanwhile : AppState F → AppState F) :
    (state.ethEstimateGas up evm order hex id params meanwhile).1
      = (state.estimated up evm order hex id params meanwhile).bind fun dry =>
          (dry.1.dryRun up evm order id dry.2).1.bind estimateOutput := by
  simp only [ethEstimateGas, estimated]
  cases hex.ethEstimateGasTx params with
  | error e => rfl
  | ok tx =>
    simp only
    rcases state.server.serve up evm order (.read id (.basic tx.caller)) with ⟨reply, server⟩
    simp only
    cases repliedNonce reply <;> rfl

theorem ethEstimateGasTx_gasLimit {params : Option CallObject} {tx : TxEnv}
    (h : hex.ethEstimateGasTx params = .ok tx) : tx.gasLimit = estimateGasLimit := by
  cases params with
  | none => cases h
  | some call =>
    obtain ⟨_, _, _, _, -, -, -, -, rfl⟩ := ethEstimateGasTx_iff.mp h
    rfl

/-- Every estimate is made at the one limit. -/
theorem estimated_gasLimit {state : AppState F} {id : SessionId} {params : Option CallObject}
    {meanwhile : AppState F → AppState F} {dry : AppState F × TxEnv}
    (h : state.estimated up evm order hex id params meanwhile = .ok dry) :
    dry.2.gasLimit = estimateGasLimit := by
  unfold estimated at h
  cases htx : hex.ethEstimateGasTx params with
  | error e =>
    rw [htx] at h
    cases h
  | ok tx =>
    simp only [htx] at h
    cases hnonce : repliedNonce
        (state.server.serve up evm order (.read id (.basic tx.caller))).1 with
    | error e =>
      rw [hnonce] at h
      cases h
    | ok nonce =>
      rw [hnonce] at h
      have hlimit : tx.gasLimit = estimateGasLimit := ethEstimateGasTx_gasLimit htx
      rw [← Except.ok.inj h]
      exact hlimit

/-- A dry run that comes to a result is one of a session there is. -/
theorem dryRun_session {state : AppState F} {id : SessionId} {tx : TxEnv} {result : ExecutionResult}
    (h : (state.dryRun up evm order id tx).1 = .ok result) :
    ∃ s, state.server.sessions.lookup id = some s := by
  cases hs : state.server.sessions.lookup id with
  | some s => exact ⟨s, rfl⟩
  | none =>
    rw [dryRun_unknown hs] at h
    cases h

/-- A dry run's result is what the EVM comes to on the session's view. -/
theorem dryRun_ok_iff {state : AppState F} {id : SessionId} {s : Session F}
    (hs : state.server.sessions.lookup id = some s) (tx : TxEnv) (result : ExecutionResult) :
    (state.dryRun up evm order id tx).1 = .ok result ↔ ∃ diff,
      (evm .dryRun s.blockEnv tx).eval (s.view up).answer = some (.ok (result, diff)) := by
  rw [dryRun_result hs]
  rcases (evm .dryRun s.blockEnv tx).eval (s.view up).answer with _ | e | ⟨result', diff⟩
  · simp [executionOf]
  · simp [executionOf, executedReply, Except.mapError, Except.map]
  · constructor
    · intro h
      cases h
      exact ⟨diff, rfl⟩
    · rintro ⟨diff', h⟩
      cases h
      rfl

end AppState

/-! ### Estimated, and run again -/

section Again

variable [ToString E] {up : F → Upstream E} {evm : Evm E} {order : HashOrder} {hex : HexParser}
  {code : CfgEnv → BlockEnv → TxEnv → ((q : Query) → Answer E q) → Metered}

/-- EXACT: where `eth_estimateGas` answers `g`, the same call, in the same state and through the
    same dry run, succeeds with gas limit `g` if and only if what it reported was enough: no refund
    was granted and the call goes the same way on just what it spent, or it goes another way on `g`
    that ends well. For a call that never looks at its gas and fails when a call of its own does,
    that is if and only if no refund was granted and it needs no more than it spends. -/
theorem estimate_suffices_iff (hm : MeteredBy evm code) {state : AppState F} {id : SessionId}
    {params : Option CallObject} {meanwhile : AppState F → AppState F} {g : UInt64}
    (hg : (state.ethEstimateGas up evm order hex id params meanwhile).1 = .ok g) :
    ∃ dry tx s, state.estimated up evm order hex id params meanwhile = .ok (dry, tx) ∧
      dry.server.sessions.lookup id = some s ∧
      let p := code .dryRun s.blockEnv tx (s.view up).answer
      let cap := estimateGasLimit.toNat
      (dry.SucceedsOn up evm order id tx g ↔ p.Enough cap) ∧
      (p.Steady → (dry.SucceedsOn up evm order id tx g ↔
        p.granted cap = 0 ∧ p.need = some (p.spent cap))) := by
  rw [AppState.ethEstimateGas_eq] at hg
  cases hest : state.estimated up evm order hex id params meanwhile with
  | error e =>
    rw [hest] at hg
    cases hg
  | ok est =>
    obtain ⟨dry, tx⟩ := est
    rw [hest] at hg
    simp only [Except.bind] at hg
    have hlimit : tx.gasLimit = estimateGasLimit := AppState.estimated_gasLimit hest
    cases hrun : (dry.dryRun up evm order id tx).1 with
    | error e =>
      rw [hrun] at hg
      cases hg
    | ok result =>
      rw [hrun] at hg
      cases result with
      | revert gasUsed output => cases hg
      | halt gasUsed reason => cases hg
      | success gasUsed output =>
        cases hg
        obtain ⟨s, hs⟩ := AppState.dryRun_session hrun
        obtain ⟨diff, heval⟩ := (AppState.dryRun_ok_iff hs tx _).mp hrun
        obtain ⟨hsucceeds, hused⟩ := hm.reports heval
        have hle : g.toNat ≤ tx.gasLimit.toNat := by
          rw [hused]
          exact (Nat.sub_le _ _).trans (Nat.sub_le _ _)
        have hagain : dry.SucceedsOn up evm order id tx g ↔
            (code .dryRun s.blockEnv tx (s.view up).answer).Enough estimateGasLimit.toNat := by
          rw [← hlimit, ← Metered.succeeds_used_iff hsucceeds, ← hused, ← hm.lower heval _ hle]
          simp only [AppState.SucceedsOn, AppState.dryRun_ok_iff hs]
        refine ⟨dry, tx, s, rfl, hs, hagain, fun hsteady => ?_⟩
        rw [hagain]
        rw [hlimit] at hsucceeds
        exact Metered.enough_steady hsteady hsucceeds

end Again

/-! ### A small metered EVM -/

/-- An EVM that finds out what program a transaction is, and runs it on the transaction's gas. -/
def metering (program : TxEnv → ReadProg E (Except EVMError (Metered × EvmState))) : Evm E :=
  fun _ _ tx => (program tx).map fun
    | .error e => .error e
    | .ok (p, diff) =>
      if p.Succeeds tx.gasLimit.toNat then
        .ok (.success (UInt64.ofNat (p.used tx.gasLimit.toNat)) [], diff)
      else .ok (.halt tx.gasLimit "OutOfGas", ⟨[], List.nodup_nil⟩)

/-- The program it finds. -/
def programOf (program : TxEnv → ReadProg E (Except EVMError (Metered × EvmState))) :
    CfgEnv → BlockEnv → TxEnv → ((q : Query) → Answer E q) → Metered := fun _ _ tx answer =>
  match (program tx).eval answer with
  | some (.ok (p, _)) => p
  | _ => .halt

theorem metering_eval {program : TxEnv → ReadProg E (Except EVMError (Metered × EvmState))}
    {cfg : CfgEnv} {blockEnv : BlockEnv} {tx : TxEnv} {answer : (q : Query) → Answer E q}
    {gasUsed : UInt64} {output : Bytes} {diff : EvmState} :
    (metering program cfg blockEnv tx).eval answer = some (.ok (.success gasUsed output, diff)) ↔
      ∃ p, (program tx).eval answer = some (.ok (p, diff)) ∧ p.Succeeds tx.gasLimit.toNat ∧
        gasUsed = UInt64.ofNat (p.used tx.gasLimit.toNat) ∧ output = [] := by
  rw [metering, Tree.eval_map]
  rcases (program tx).eval answer with _ | e | ⟨p, diff'⟩
  · simp
  · simp
  · simp only [Option.map_some, Option.some.injEq]
    split
    · rename_i hsucceeds
      constructor
      · intro h
        cases h
        exact ⟨p, rfl, hsucceeds, rfl, rfl⟩
      · rintro ⟨p', h, -, rfl, rfl⟩
        cases h
        rfl
    · rename_i hfails
      constructor
      · intro h
        cases h
      · rintro ⟨p', h, hsucceeds, -⟩
        cases h
        exact absurd hsucceeds hfails

/-- Found out without a look at the gas limit, it meters the EVM. -/
theorem metering_meteredBy {program : TxEnv → ReadProg E (Except EVMError (Metered × EvmState))}
    (hlimit : ∀ tx gasLimit, program { tx with gasLimit := gasLimit } = program tx) :
    MeteredBy (metering program) (programOf program) where
  reports {cfg blockEnv tx answer gasUsed output diff} heval := by
    obtain ⟨p, hp, hsucceeds, rfl, -⟩ := metering_eval.mp heval
    simp only [programOf, hp]
    refine ⟨hsucceeds, UInt64.toNat_ofNat_of_lt' ?_⟩
    exact ((Nat.sub_le _ _).trans (Nat.sub_le _ _)).trans_lt tx.gasLimit.toNat_lt
  lower {cfg blockEnv tx answer gasUsed output diff} heval gasLimit _ := by
    obtain ⟨p, hp, -⟩ := metering_eval.mp heval
    simp only [programOf, hp, metering_eval, hlimit]
    constructor
    · rintro ⟨_, _, _, p', hp', hsucceeds, -⟩
      cases hp'
      exact hsucceeds
    · exact fun hsucceeds => ⟨_, _, _, p, rfl, hsucceeds, rfl, rfl⟩

/-- `PUSH0 PUSH0 SSTORE STOP`: sets slot 0 to zero. -/
def clearer : Bytes := [0x5f, 0x5f, 0x55, 0x00]

/-- Its keccak. -/
def clearerHash : B256 := 0xb0b7eb204c6fadf444869accff97a1207fdea71ac2225ea1be155a84276bbe93#256

/-- The gas of a call to it: the transaction, the two pushes, and the store, which wants more than
    2300 to be left and earns a refund where there is something to clear. -/
def clearing (value : StorageValue) : Metered :=
  .charge 0 21000 (.charge 0 2 (.charge 0 2
    (if value = 0 then .charge 2301 2200 .stop else .charge 2301 5000 (.refund 4800 .stop))))

/-- What a call comes to on a chain of plain accounts and such contracts. -/
def clearerCall (recipient : Address) : ReadProg String (Except EVMError (Metered × EvmState)) :=
  (ask (.basic recipient)).bind fun
    | .error _ => .ret (.error (.other "database"))
    | .ok account =>
      let info := account.getD .default
      if info.code = some ⟨clearer⟩ then (ask (.storage recipient 0)).map fun
        | .error _ => .error (.other "database")
        | .ok value =>
          let store : Account := ⟨info, [(0, ⟨value, 0⟩)], false, false, List.nodup_singleton _⟩
          .ok (clearing value, ⟨[(recipient, store)], List.nodup_singleton _⟩)
      else .ret (.ok (.charge 0 21000 .stop, ⟨[], List.nodup_nil⟩))

/-- A transaction there, its nonce checked first. -/
def clearerTx (caller : Address) (nonce : UInt64) (kind : TxKind) :
    ReadProg String (Except EVMError (Metered × EvmState)) :=
  (ask (.basic caller)).bind fun
    | .error _ => .ret (.error (.other "database"))
    | .ok account =>
      if nonce ≠ (account.getD .default).nonce then
        .ret (.error (.transaction (.other "wrong nonce")))
      else
        match kind with
        | .create => .ret (.ok (.charge 0 53000 .stop, ⟨[], List.nodup_nil⟩))
        | .call recipient => clearerCall recipient

def clearerProgram (tx : TxEnv) : ReadProg String (Except EVMError (Metered × EvmState)) :=
  clearerTx tx.caller tx.nonce tx.kind

theorem clearer_meteredBy : MeteredBy (metering clearerProgram) (programOf clearerProgram) :=
  metering_meteredBy fun _ _ => rfl

/-- A chain with one contract on it, whose slot 0 holds 1. -/
def clearerChain : Upstream String where
  basic address := .ok (if address = 0xc1ea then some ⟨0, 1, clearerHash, some ⟨clearer⟩⟩ else none)
  codeByHash _ := .error "missing"
  storage address index := .ok (if address = 0xc1ea ∧ index = 0 then 1 else 0)
  blockHash _ := .error "missing"

/-- A server with one session open on that chain. -/
def clearerState : AppState Unit :=
  ⟨Server.start ⟨1, 0, 0, 30000000⟩ |>.register freshSession, 1⟩

/-- A call object with only a recipient, -/
def callTo : CallObject :=
  ⟨none, some "0x000000000000000000000000000000000000c1ea", none, none, none, none⟩

/-- and a parser that knows one address. -/
def knowing (address : Address) : HexParser := ⟨fun _ => .ok address, .error, .error⟩

/-- The estimate of a plain transfer is enough. -/
theorem transfer_estimate_suffices :
    ∃ dry tx, clearerState.estimated (fun _ => clearerChain) (metering clearerProgram) .some
        (knowing 0xbeef) 0 (some callTo) id = .ok (dry, tx) ∧
      dry.SucceedsOn (fun _ => clearerChain) (metering clearerProgram) .some 0 tx 21000 := by
  have hestimate : (clearerState.ethEstimateGas (fun _ => clearerChain) (metering clearerProgram)
      .some (knowing 0xbeef) 0 (some callTo) id).1 = .ok 21000 := rfl
  obtain ⟨dry, tx, s, hest, hs, hiff, -⟩ := estimate_suffices_iff clearer_meteredBy hestimate
  refine ⟨dry, tx, hest, hiff.mpr ?_⟩
  cases hest
  cases hs
  change Metered.Enough (.charge 0 21000 .stop) 16777216
  exact .inl ⟨rfl, ⟨by decide, trivial⟩⟩

/-- A call that clears a slot is estimated at what it spends less the refund, 26004 less 4800, and
    run again on that it runs out of gas. -/
theorem clearer_estimate_fails :
    (clearerState.ethEstimateGas (fun _ => clearerChain) (metering clearerProgram) .some
        (knowing 0xc1ea) 0 (some callTo) id).1 = .ok 21204 ∧
      ∃ dry tx, clearerState.estimated (fun _ => clearerChain) (metering clearerProgram) .some
          (knowing 0xc1ea) 0 (some callTo) id = .ok (dry, tx) ∧
        ¬ dry.SucceedsOn (fun _ => clearerChain) (metering clearerProgram) .some 0 tx 21204 := by
  refine ⟨rfl, _, _, rfl, ?_⟩
  rintro ⟨gasUsed, output, hagain⟩
  cases hagain

end Forkyard
