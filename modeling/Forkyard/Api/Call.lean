import Forkyard.Session.Validation
import Forkyard.Api.SideTable

/-! `eth_call` and `eth_estimateGas`: how a call object becomes a transaction, and what becomes of
    the dry run it is given. Parsing hex is other people's code and a parameter. What `eth_call`
    builds has no nonce of its own, so it has the builder's; the dry run turns off two checks, and
    not that of the nonce.

        params ──parse──▶ transaction ──dry run──▶ result ──▶ return data
                  └─ invalid params      └─ session error └─ reverted, halted -/

namespace Forkyard

open Schemes

variable {F E : Type}

/-! ### The surface -/

/-- The fields of a call object (`from`, `to`, `value`, `data`, `input`, `gas`), each where it is
    there as a string. -/
structure CallObject where
  caller : Option String
  recipient : Option String
  value : Option String
  data : Option String
  input : Option String
  gas : Option String

/-- How addresses, words in base 16 and bytes are read from a string. -/
structure HexParser where
  address : String → Except String Address
  u256 : String → Except String U256
  bytes : String → Except String Bytes

/-- An error of the surface, by what its text is made of. -/
inductive RpcError where
  | invalidParams (message : String)
  | session (error : SessionError)
  | workerGone
  | reverted (output : Bytes)
  | halted (reason : String)
  | wouldFail (halts : Bool)
  deriving DecidableEq

/-- The server's state, with the chain id it was started with. -/
structure AppState (F : Type) where
  server : Server F
  chainId : UInt64

/-- revm's transaction builder before anything is set. -/
def TxEnv.builder : TxEnv where
  caller := 0
  kind := .call 0
  value := 0
  data := []
  gasLimit := 30000000
  gasPrice := 0
  nonce := 0
  chainId := some 1

def estimateGasLimit : UInt64 := 16777216

/-- `trim_start_matches("0x")`. -/
def trimHex (s : String) : String := String.ofList (trim s.toList)
where
  trim : List Char → List Char
    | '0' :: 'x' :: rest => trim rest
    | chars => chars

/-- `saturating_to::<u64>()`. -/
def saturatingToU64 (g : U256) : UInt64 := UInt64.ofNat (min g.toNat (2 ^ 64 - 1))

namespace HexParser

variable (hex : HexParser)

def parseU256HexStr (s : String) : Except String U256 := hex.u256 (trimHex s)

/-- An optional field: absent, or parsed. -/
def field {A : Type} (parse : String → Except String A) :
    Option String → Except RpcError (Option A)
  | none => .ok none
  | some s =>
    match parse s with
    | .ok a => .ok (some a)
    | .error message => .error (.invalidParams message)

/-- The call target: a call where there is one, else a creation. -/
def kind : Option Address → TxKind
  | some recipient => .call recipient
  | none => .create

/-- The transaction `eth_call` runs. -/
def ethCallTx (chainId : UInt64) : Option CallObject → Except RpcError TxEnv
  | none => .error (.invalidParams "missing call object")
  | some call => do
    let caller ← field hex.address call.caller
    let recipient ← field hex.address call.recipient
    let value ← field hex.parseU256HexStr call.value
    let data ← field (fun s => hex.bytes (trimHex s)) (call.data.or call.input)
    let gas ← field hex.parseU256HexStr call.gas
    return { TxEnv.builder with
      caller := caller.getD 0
      kind := kind recipient
      value := value.getD 0
      data := data.getD []
      gasLimit := (gas.map saturatingToU64).getD estimateGasLimit
      gasPrice := 0
      chainId := some chainId }

/-- The transaction `eth_estimateGas` runs, but for its nonce. -/
def ethEstimateGasTx : Option CallObject → Except RpcError TxEnv
  | none => .error (.invalidParams "missing call object")
  | some call => do
    let caller ← field hex.address call.caller
    let recipient ← field hex.address call.recipient
    let value ← field hex.parseU256HexStr call.value
    let data ← field hex.bytes call.data
    return { TxEnv.builder with
      caller := caller.getD 0
      kind := kind recipient
      value := value.getD 0
      data := data.getD []
      gasLimit := estimateGasLimit
      gasPrice := 0 }

end HexParser

/-- The result of a run, or the error that came instead; a job that panicked answers nobody. -/
def executionOf : Option (Reply F) → Except RpcError ExecutionResult
  | some (.executed (.ok result)) => .ok result
  | some (.executed (.error e)) => .error (.session e)
  | _ => .error .workerGone

/-- What `eth_call` answers for a result. -/
def callOutput : ExecutionResult → Except RpcError Bytes
  | .success _ output => .ok output
  | .revert _ output => .error (.reverted output)
  | .halt _ reason => .error (.halted reason)

/-- What `eth_estimateGas` answers for a result. -/
def estimateOutput : ExecutionResult → Except RpcError UInt64
  | .success gasUsed _ => .ok gasUsed
  | .revert _ _ => .error (.wouldFail false)
  | .halt _ _ => .error (.wouldFail true)

/-- The nonce `eth_estimateGas` goes by. -/
def repliedNonce : Option (Reply F) → Except RpcError UInt64
  | some (.basic (.ok info)) => .ok ((info.map AccountInfo.nonce).getD 0)
  | some (.basic (.error e)) => .error (.session e)
  | _ => .error .workerGone

namespace AppState

/-- `eth_chainId`. -/
def ethChainId (state : AppState F) : UInt64 := state.chainId

section Handlers

variable [ToString E] (up : F → Upstream E) (evm : Evm E) (order : HashOrder) (hex : HexParser)

/-- A dry run with the balance and base-fee checks off: `call`, and `estimate_gas`. -/
def dryRun (state : AppState F) (id : SessionId) (tx : TxEnv) :
    Except RpcError ExecutionResult × AppState F :=
  let (reply, server) := state.server.serve up evm order (.read id (.simulate tx true))
  (executionOf reply, { state with server := server })

/-- The transaction of an `eth_sendRawTransaction`, run and kept. -/
def advance (state : AppState F) (id : SessionId) (tx : LegacyTx) :
    Except RpcError ExecutionResult × AppState F :=
  let (reply, server) := state.server.serve up evm order (.read id (.advance tx.env))
  (executionOf reply, { state with server := server })

def ethCall (state : AppState F) (id : SessionId) (params : Option CallObject) :
    Except RpcError Bytes × AppState F :=
  match hex.ethCallTx state.chainId params with
  | .error e => (.error e, state)
  | .ok tx =>
    let (result, state) := state.dryRun up evm order id tx
    (result.bind callOutput, state)

/-- The nonce is read in a job of its own; `meanwhile` is what others do before the dry run. -/
def ethEstimateGas (state : AppState F) (id : SessionId) (params : Option CallObject)
    (meanwhile : AppState F → AppState F) : Except RpcError UInt64 × AppState F :=
  match hex.ethEstimateGasTx params with
  | .error e => (.error e, state)
  | .ok tx =>
    let (reply, server) := state.server.serve up evm order (.read id (.basic tx.caller))
    let state := { state with server := server }
    match repliedNonce reply with
    | .error e => (.error e, state)
    | .ok nonce =>
      let (result, state) := (meanwhile state).dryRun up evm order id { tx with nonce := nonce }
      (result.bind estimateOutput, state)

end Handlers

end AppState

/-! ### What the transactions carry -/

section Decoding

variable {hex : HexParser}

/-- What a call's transaction is built of, -/
theorem ethCallTx_iff {chainId : UInt64} {call : CallObject} {tx : TxEnv} :
    hex.ethCallTx chainId (some call) = .ok tx ↔
      ∃ caller recipient value data gas, HexParser.field hex.address call.caller = .ok caller ∧
        HexParser.field hex.address call.recipient = .ok recipient ∧
        HexParser.field hex.parseU256HexStr call.value = .ok value ∧
        HexParser.field (fun s => hex.bytes (trimHex s)) (call.data.or call.input) = .ok data ∧
        HexParser.field hex.parseU256HexStr call.gas = .ok gas ∧
        tx = { TxEnv.builder with
          caller := caller.getD 0
          kind := HexParser.kind recipient
          value := value.getD 0
          data := data.getD []
          gasLimit := (gas.map saturatingToU64).getD estimateGasLimit
          gasPrice := 0
          chainId := some chainId } := by
  simp only [HexParser.ethCallTx, bind, Except.bind, pure, Except.pure]
  cases HexParser.field hex.address call.caller with
  | error e => simp
  | ok caller =>
  cases HexParser.field hex.address call.recipient with
  | error e => simp
  | ok recipient =>
  cases HexParser.field hex.parseU256HexStr call.value with
  | error e => simp
  | ok value =>
  cases HexParser.field (fun s => hex.bytes (trimHex s)) (call.data.or call.input) with
  | error e => simp
  | ok data =>
  cases HexParser.field hex.parseU256HexStr call.gas with
  | error e => simp
  | ok gas => simp [eq_comm]

/-- and an estimate's. -/
theorem ethEstimateGasTx_iff {call : CallObject} {tx : TxEnv} :
    hex.ethEstimateGasTx (some call) = .ok tx ↔
      ∃ caller recipient value data, HexParser.field hex.address call.caller = .ok caller ∧
        HexParser.field hex.address call.recipient = .ok recipient ∧
        HexParser.field hex.parseU256HexStr call.value = .ok value ∧
        HexParser.field hex.bytes call.data = .ok data ∧
        tx = { TxEnv.builder with
          caller := caller.getD 0
          kind := HexParser.kind recipient
          value := value.getD 0
          data := data.getD []
          gasLimit := estimateGasLimit
          gasPrice := 0 } := by
  simp only [HexParser.ethEstimateGasTx, bind, Except.bind, pure, Except.pure]
  cases HexParser.field hex.address call.caller with
  | error e => simp
  | ok caller =>
  cases HexParser.field hex.address call.recipient with
  | error e => simp
  | ok recipient =>
  cases HexParser.field hex.parseU256HexStr call.value with
  | error e => simp
  | ok value =>
  cases HexParser.field hex.bytes call.data with
  | error e => simp
  | ok data => simp [eq_comm]

theorem field_error {A : Type} {parse : String → Except String A} {value : Option String}
    {e : RpcError} (h : HexParser.field parse value = .error e) :
    ∃ message, e = .invalidParams message := by
  cases value with
  | none => cases h
  | some s =>
    simp only [HexParser.field] at h
    split at h
    · cases h
    · rename_i message _
      exact ⟨message, (Except.error.inj h).symm⟩

theorem ethCallTx_error {chainId : UInt64} {params : Option CallObject} {e : RpcError}
    (h : hex.ethCallTx chainId params = .error e) : ∃ message, e = .invalidParams message := by
  cases params with
  | none => exact ⟨_, (Except.error.inj h).symm⟩
  | some call =>
    simp only [HexParser.ethCallTx, bind, Except.bind] at h
    repeat' split at h
    all_goals first | exact Except.error.inj h ▸ field_error ‹_› | cases h

theorem ethEstimateGasTx_error {params : Option CallObject} {e : RpcError}
    (h : hex.ethEstimateGasTx params = .error e) : ∃ message, e = .invalidParams message := by
  cases params with
  | none => exact ⟨_, (Except.error.inj h).symm⟩
  | some call =>
    simp only [HexParser.ethEstimateGasTx, bind, Except.bind] at h
    repeat' split at h
    all_goals first | exact Except.error.inj h ▸ field_error ‹_› | cases h

end Decoding

/-! ### Rejections -/

/-- The request was rejected in validation on account of something. -/
def Rejects {A : Type} (r : Revm E) (ground : Ground) (answer : Except RpcError A) : Prop :=
  ∃ reason, answer = .error (.session (.invalidTransaction reason)) ∧ r.ground reason = ground

/-- What the surface makes of a result is no rejection. -/
theorem rejects_bind {A B : Type} {r : Revm E} {ground : Ground} {f : A → Except RpcError B}
    (hf : ∀ a e, f a ≠ .error (.session e)) (result : Except RpcError A) :
    Rejects r ground (result.bind f) ↔ Rejects r ground result := by
  cases result with
  | error e =>
    refine exists_congr fun reason => and_congr_left fun _ => ⟨fun h => ?_, fun h => ?_⟩
    · rw [Except.error.inj h]
    · rw [Except.error.inj h]
      rfl
  | ok a =>
    refine ⟨?_, ?_⟩
    · rintro ⟨reason, h, -⟩
      exact absurd h (hf a _)
    · rintro ⟨reason, h, -⟩
      cases h

theorem callOutput_ne (result : ExecutionResult) (e : SessionError) :
    callOutput result ≠ .error (.session e) := by
  cases result <;> exact nofun

theorem estimateOutput_ne (result : ExecutionResult) (e : SessionError) :
    estimateOutput result ≠ .error (.session e) := by
  cases result <;> exact nofun

/-- A run is rejected where the EVM rejects. -/
theorem rejects_execution {r : Revm E} {ground : Ground}
    {outcome : Option (Except EVMError (ExecutionResult × EvmState))} :
    Rejects r ground (executionOf (outcome.map (executedReply (F := F)))) ↔
      ∃ reason, outcome = some (.error (.transaction reason)) ∧ r.ground reason = ground := by
  refine exists_congr fun reason => and_congr_left fun _ => ?_
  rcases outcome with _ | e | ⟨result, diff⟩
  · exact ⟨nofun, nofun⟩
  · cases e with
    | transaction reason' =>
      refine ⟨fun h => ?_, fun h => ?_⟩
      · cases h
        rfl
      · cases h
        rfl
    | other debug => exact ⟨nofun, nofun⟩
  · exact ⟨nofun, nofun⟩

section Runs

variable [ToString E] {up : F → Upstream E} {evm : Evm E} {order : HashOrder} {state : AppState F}
  {id : SessionId} {s : Session F}

theorem dryRun_result (hs : state.server.sessions.lookup id = some s) (tx : TxEnv) :
    (state.dryRun up evm order id tx).1 = executionOf
      (((evm .dryRun s.blockEnv tx).eval (s.view up).answer).map (executedReply (F := F))) := by
  have hreply := (serve_spec up evm order state.server (.read id (.simulate tx true))).1
  rw [Job.sessionId, hs, simulate_reply] at hreply
  rw [← hreply]
  rfl

theorem advance_result (hs : state.server.sessions.lookup id = some s) (tx : LegacyTx) :
    (state.advance up evm order id tx).1 = executionOf
      (((evm .mainnet s.blockEnv tx.env).eval (s.view up).answer).map (executedReply (F := F))) := by
  have hreply := (serve_spec up evm order state.server (.read id (.advance tx.env))).1
  rw [Job.sessionId, hs, advance_reply] at hreply
  rw [← hreply]
  rfl

/-- Nothing runs in a session there is not. -/
theorem dryRun_unknown (hs : state.server.sessions.lookup id = none) (tx : TxEnv) :
    (state.dryRun up evm order id tx).1 = .error (.session (.unknown id)) := by
  have hreply := (serve_spec up evm order state.server (.read id (.simulate tx true))).1
  rw [Job.sessionId, hs] at hreply
  simp only [AppState.dryRun, hreply]
  rfl

theorem advance_unknown (hs : state.server.sessions.lookup id = none) (tx : LegacyTx) :
    (state.advance up evm order id tx).1 = .error (.session (.unknown id)) := by
  have hreply := (serve_spec up evm order state.server (.read id (.advance tx.env))).1
  rw [Job.sessionId, hs] at hreply
  simp only [AppState.advance, hreply]
  rfl

end Runs

/-! ### Who calls -/

/-- An account's nonce as the session has it, where upstream gives the account at all. -/
def Session.nonce (up : F → Upstream E) (s : Session F) (address : Address) : Option UInt64 :=
  ((s.view up).basic address).toOption.map fun info => (info.getD .default).nonce

/-- A call's answer does not depend on who calls: it is not rejected for the caller's nonce or
    balance or for the base fee, and where nothing else is wrong with it the answer is what the
    execution came to. -/
structure Indifferent (up : F → Upstream E) (r : Revm E) (s : Session F) (tx : TxEnv)
    (answer : Except RpcError Bytes) : Prop where
  unhindered : ∀ ground, ground = .nonce ∨ ground = .balance ∨ ground = .baseFee →
    ¬ Rejects r ground answer
  executed : r.Admits (s.view up).answer .dryRun s.blockEnv tx → answer = (executionOf
    (((r.execution .dryRun s.blockEnv tx).eval (s.view up).answer).map fun outcome =>
      executedReply (F := F) (outcome.mapError .other))).bind callOutput

theorem ethCallTx_nonce {hex : HexParser} {chainId : UInt64} {params : Option CallObject}
    {tx : TxEnv} (h : hex.ethCallTx chainId params = .ok tx) :
    tx.nonce = 0 ∧ tx.chainId = some chainId := by
  cases params with
  | none => cases h
  | some call =>
    obtain ⟨_, _, _, _, _, -, -, -, -, -, rfl⟩ := ethCallTx_iff.mp h
    exact ⟨rfl, rfl⟩

section Callers

variable [ToString E] {up : F → Upstream E} {r : Revm E} {order : HashOrder} {hex : HexParser}
  {state : AppState F} {id : SessionId} {s : Session F} {params : Option CallObject} {tx : TxEnv}

/-- An `eth_call` is answered as its dry run is. -/
theorem ethCall_result {evm : Evm E} (hs : state.server.sessions.lookup id = some s)
    (htx : hex.ethCallTx state.chainId params = .ok tx) :
    (state.ethCall up evm order hex id params).1 = (executionOf
      (((evm .dryRun s.blockEnv tx).eval (s.view up).answer).map
        (executedReply (F := F)))).bind callOutput := by
  have hrun : (state.dryRun up evm order id tx).1 = executionOf (((evm .dryRun s.blockEnv tx).eval
      (s.view up).answer).map (executedReply (F := F))) := dryRun_result hs tx
  rw [← hrun]
  simp only [AppState.ethCall, htx]

omit [ToString E] in
/-- The nonce of an account as the session has it is the one the EVM is answered. -/
theorem nonce_answer {address : Address} {nonce : UInt64} :
    s.nonce up address = some nonce ↔ ∃ account,
      (s.view up).answer (.basic address) = .ok account ∧ (account.getD .default).nonce = nonce := by
  rw [Session.nonce, FullMap.answer]
  cases (s.view up).basic address with
  | error e => simp [Except.toOption, Except.mapError]
  | ok account => simp [Except.toOption, Except.mapError]

/-- EXACT: an `eth_call` answers whoever calls if and only if the caller's nonce is zero in the
    session, or it does not get as far as the check of the nonce for another reason. -/
theorem call_indifferent_iff (hr : r.Documented) (hs : state.server.sessions.lookup id = some s)
    (htx : hex.ethCallTx state.chainId params = .ok tx) :
    Indifferent up r s tx (state.ethCall up r.evm order hex id params).1 ↔
      s.nonce up tx.caller = some 0 ∨ ¬ r.Admits (s.view up).answer .dryRun s.blockEnv tx := by
  have hnonce := (ethCallTx_nonce htx).1
  rw [ethCall_result hs htx]
  refine ⟨fun h => ?_, fun h => ⟨fun ground hground hrejects => ?_, fun hadmits => ?_⟩⟩
  · by_cases hadmits : r.Admits (s.view up).answer .dryRun s.blockEnv tx
    · refine .inl (nonce_answer.mpr ?_)
      obtain ⟨henv, info, hload⟩ := hadmits
      obtain ⟨account, haccount, -⟩ := hr.account _ _ _ _ hload
      refine ⟨account, haccount, ?_⟩
      by_contra hne
      obtain ⟨reason, hground, heval⟩ := Revm.rejected_nonce hr ⟨henv, info, hload⟩ haccount
        (by rw [hnonce]; exact Ne.symm hne)
      refine h.unhindered .nonce (.inl rfl) ((rejects_bind callOutput_ne _).mpr ?_)
      exact rejects_execution.mpr ⟨reason, heval, hground⟩
    · exact .inr hadmits
  · obtain ⟨reason, heval, hreason⟩ :=
      rejects_execution.mp ((rejects_bind callOutput_ne _).mp hrejects)
    have hgrounded := Revm.rejected_grounded hr heval
    rw [hreason] at hgrounded
    rcases hground with rfl | rfl | rfl
    · obtain ⟨hadmits, account, haccount, hne⟩ := hgrounded
      obtain ⟨account', haccount', hsame⟩ :=
        nonce_answer.mp (h.resolve_right (not_not_intro hadmits))
      rw [haccount] at haccount'
      obtain rfl := Except.ok.inj haccount'
      exact hne (hnonce.trans hsame.symm)
    · cases hgrounded
    · cases hgrounded
  · obtain ⟨account, haccount, hsame⟩ := nonce_answer.mp (h.resolve_right (not_not_intro hadmits))
    rw [Revm.admitted_executed hr hadmits rfl haccount (hnonce.trans hsame.symm), Option.map_map]
    rfl

end Callers

/-- A call object with only a caller: the account 0xa. -/
def ownCall : CallObject :=
  ⟨some "0x000000000000000000000000000000000000000a", none, none, none, none, none⟩

/-- A parser that knows that address. -/
def oneAddress : HexParser := ⟨fun _ => .ok 0xa, .error, .error⟩

/-- The transaction `ownCall` is. -/
def ownTx : TxEnv := ⟨0xa, .create, 0, [], 16777216, 0, 0, some 1⟩

/-- A server on which a session has been opened and these events have happened. -/
def stateAfter (order : HashOrder) (events : List (ServerEvent Unit)) : AppState Unit :=
  ⟨runAll (Server.step (fun _ => .vacant "missing") plainRevm.evm order)
    (.start ⟨1, 0, 0, 30000000⟩) (.opened freshSession :: events), 1⟩

/-- On a fresh session the call is answered. -/
theorem call_indifferent_fresh :
    Indifferent (fun _ => .vacant "missing") plainRevm freshSession ownTx
      ((stateAfter .some []).ethCall (fun _ => .vacant "missing") plainRevm.evm .some oneAddress 0
        (some ownCall)).1 :=
  (call_indifferent_iff plainRevm_documented rfl rfl).mpr (.inl rfl)

/-- Once the caller has sent a transaction of its own, the call is rejected for its nonce. -/
theorem sender_cannot_call :
    ∃ s, (stateAfter .some [.send 0 (nthTx 0), .move 0]).server.sessions.lookup 0 = some s ∧
      ¬ Indifferent (fun _ => .vacant "missing") plainRevm s ownTx
        ((stateAfter .some [.send 0 (nthTx 0), .move 0]).ethCall (fun _ => .vacant "missing")
          plainRevm.evm .some oneAddress 0 (some ownCall)).1 := by
  refine ⟨_, rfl, fun h => h.unhindered .nonce (.inl rfl) ⟨.other "wrong nonce", rfl, rfl⟩⟩

end Forkyard
