import Forkyard.Api.Dispatch

/-! The MCP surface: its tools, each a program over the same manager. `simulate` and `advance` are one
    program, which prices a transaction without a price at its session's own basefee and turns the
    two fee rejections into advice.

        args ──parse──▶ basefee of the session, if no price ──▶ simulate, advance ──▶ result
           └─ invalid params                                        └─ advice, internal error -/

namespace Forkyard

open Schemes

variable {F : Type}

/-- An error of the surface, by what its text is made of. -/
inductive ErrorData where
  | badAddress (e : String)
  | badHexData (e : String)
  | badHexValue (e : String)
  | underpriced (gasPrice basefee : UInt64)
  | unfunded (caller : Address) (gasPrice gasLimit : UInt64) (fee balance : U256)
  | internal (e : ManagerError)
  deriving DecidableEq

/-- Gas at this price, as a u128. -/
def gasCost (gasLimit gasPrice : UInt64) : BitVec 128 :=
  BitVec.ofNat 128 gasLimit.toNat * BitVec.ofNat 128 gasPrice.toNat

def ErrorData.message (shown : InvalidTransaction → String) : ErrorData → String
  | .badAddress e => s!"bad address: {e}"
  | .badHexData e => s!"bad hex data: {e}"
  | .badHexValue e => s!"bad hex value: {e}"
  | .underpriced gasPrice basefee =>
    s!"gas_price {gasPrice} is below this fork's basefee of {basefee} - pass gas_price of at least " ++
      s!"{basefee}, or omit gas_price entirely to price at the basefee automatically"
  | .unfunded caller gasPrice gasLimit fee balance =>
    "sender " ++ String.ofList ('0' :: 'x' :: hexAlphabet.padded 40 caller.toNat) ++
      s!" holds {balance.toNat} wei, but this transaction needs {fee.toNat} wei in total: " ++
      s!"gas_limit * gas_price = {gasLimit} * {gasPrice} = {(gasCost gasLimit gasPrice).toNat} wei " ++
      "of gas, plus the value sent; fund it with set_balance, or lower gas_limit"
  | .internal e => e.display shown

/-- What a tool answers: its text, or what the text of an execution is made of. -/
inductive ToolAnswer where
  | text (s : String)
  | executed (result : ExecutionResult)

/-- A tool call, or what is left of it. -/
abbrev Tool (F : Type) := Program F (Except ErrorData ToolAnswer)

structure TransferArgs where
  sessionId : SessionId
  caller : String
  recipient : Option String
  value : String
  gasLimit : UInt64 := 21000
  gasPrice : Option UInt64 := none
  nonce : UInt64 := 0
  data : Option String := none

/-- The tools with their arguments. -/
inductive ToolCall where
  | fork
  | getBalance (sessionId : SessionId) (address : String)
  | setBalance (sessionId : SessionId) (address balance : String)
  | setStorage (sessionId : SessionId) (address slot value : String)
  | getStorage (sessionId : SessionId) (address slot : String)
  | getCode (sessionId : SessionId) (address : String)
  | simulate (args : TransferArgs)
  | advance (args : TransferArgs)
  | snapshot (sessionId : SessionId)
  | discard (sessionId : SessionId)

/-- `{"balance":"0x…","nonce":…}`. -/
def balanceText (info : AccountInfo) : String :=
  "\x7b\"balance\":\"" ++ hexText info.balance.toNat ++ s!"\",\"nonce\":{info.nonce}" ++ "\x7d"

/-- The text of a snapshot's info. -/
def snapshotText (info : SnapshotInfo) : String :=
  "\x7b\"snapshot_id\":\"" ++ info.id ++ s!"\",\"block_number\":{info.blockNumber}," ++
    s!"\"accounts\":{info.accounts},\"storage_slots\":{info.storageSlots}," ++
    s!"\"contracts\":{info.contracts},\"bytes\":{info.bytes}" ++ "\x7d"

namespace Wire

variable (w : Wire)

/-- `strip_prefix("0x")`, once. -/
def stripHex (s : String) : String :=
  match s.toList with
  | '0' :: 'x' :: rest => .ofList rest
  | _ => s

def toolAddress (s : String) : Except ErrorData Address := (w.hex.address s).mapError .badAddress

def parseBytesHex (s : String) : Except ErrorData Bytes :=
  (w.hex.bytes (stripHex s)).mapError .badHexData

def parseU256Hex (s : String) : Except ErrorData U256 :=
  (w.hex.parseU256HexStr s).mapError .badHexValue

def fork : Tool F :=
  .ask .base fun base =>
  .ask .fallback fun fallback =>
  .ask .blockEnv fun blockEnv =>
  register (.fork base fallback blockEnv none) fun id =>
  .ret (.ok (.text (toString id)))

def getBalance (id : SessionId) (address : String) : Tool F :=
  proceed (w.toolAddress address) fun address =>
  request ⟨.read id (.basic address), @rfl Bool false⟩ gotBasic ErrorData.internal fun info =>
  .ret (.ok (.text (balanceText (info.getD .default))))

def setBalance (id : SessionId) (address balance : String) : Tool F :=
  proceed (w.toolAddress address) fun address =>
  proceed (w.parseU256Hex balance) fun balance =>
  request ⟨.read id (.basic address), @rfl Bool false⟩ gotBasic ErrorData.internal fun info =>
  request ⟨.command (.setAccount id address { info.getD .default with balance := balance }),
    @rfl Bool false⟩ gotWritten ErrorData.internal fun _ =>
  .ret (.ok (.text "true"))

def setStorage (id : SessionId) (address slot value : String) : Tool F :=
  proceed (w.toolAddress address) fun address =>
  proceed (w.parseU256Hex slot) fun slot =>
  proceed (w.parseU256Hex value) fun value =>
  request ⟨.command (.setStorage id address slot value), @rfl Bool false⟩ gotWritten
    ErrorData.internal fun _ =>
  .ret (.ok (.text "true"))

def getStorage (id : SessionId) (address slot : String) : Tool F :=
  proceed (w.toolAddress address) fun address =>
  proceed (w.parseU256Hex slot) fun slot =>
  request ⟨.read id (.storage address slot), @rfl Bool false⟩ gotStorage
    ErrorData.internal fun value =>
  .ret (.ok (.text (wordText value.toNat)))

def getCode (id : SessionId) (address : String) : Tool F :=
  proceed (w.toolAddress address) fun address =>
  request ⟨.read id (.code address), @rfl Bool false⟩ gotCode ErrorData.internal fun code =>
  .ret (.ok (.text (bytesText code)))

/-- `basefee_of`: the basefee of one session. -/
def basefeeOf (id : SessionId) (k : UInt64 → Tool F) : Tool F :=
  request ⟨.command (.blockEnvOf id), @rfl Bool false⟩ gotBlockEnv
    ErrorData.internal fun env => k env.basefee

/-- An underpriced transaction is told its session's basefee, zero where the session is gone. -/
def explainFeeError (id : SessionId) (caller : Address) (gasPrice gasLimit : UInt64) :
    ManagerError → Tool F
  | .session (.invalidTransaction .gasPriceLessThanBasefee) =>
    .ask (.job ⟨.command (.blockEnvOf id), @rfl Bool false⟩) fun reply =>
    .ret (.error (.underpriced gasPrice
      (((gotBlockEnv reply).toOption.map BlockEnv.basefee).getD 0)))
  | .session (.invalidTransaction (.lackOfFundForMaxFee fee balance)) =>
    .ret (.error (.unfunded caller gasPrice gasLimit fee balance))
  | e => .ret (.error (.internal e))

/-- The transaction of the arguments, at a price. -/
def transferTx (args : TransferArgs) (caller : Address) (kind : TxKind) (value : U256)
    (data : Bytes) (gasPrice : UInt64) : TxEnv :=
  { TxEnv.builder with
    caller := caller
    kind := kind
    value := value
    gasLimit := args.gasLimit
    gasPrice := BitVec.ofNat 128 gasPrice.toNat
    nonce := args.nonce
    data := data }

/-- The job that runs it: to keep what it does, or not. -/
def transferJob (id : SessionId) (commit : Bool) (tx : TxEnv) :
    { job : Job F // job.opens = false } :=
  if commit then ⟨.read id (.advance tx), @rfl Bool false⟩ else ⟨.read id (.simulate tx false), @rfl Bool false⟩

/-- The execution at a price, and what is answered. -/
def runPriced (args : TransferArgs) (commit : Bool) (caller : Address) (kind : TxKind) (value : U256)
    (data : Bytes) (gasPrice : UInt64) : Tool F :=
  .ask (.job (transferJob args.sessionId commit (transferTx args caller kind value data gasPrice)))
    fun reply =>
  match gotExecuted reply with
  | .ok result => .ret (.ok (.executed result))
  | .error e => explainFeeError args.sessionId caller gasPrice args.gasLimit e

def runTransfer (args : TransferArgs) (commit : Bool) : Tool F :=
  proceed (w.toolAddress args.caller) fun caller =>
  proceed (match args.recipient with
    | some recipient => (w.toolAddress recipient).map TxKind.call
    | none => .ok .create) fun kind =>
  proceed (w.parseU256Hex args.value) fun value =>
  proceed (match args.data with
    | some data => w.parseBytesHex data
    | none => .ok []) fun data =>
  match args.gasPrice with
  | some gasPrice => runPriced args commit caller kind value data gasPrice
  | none => basefeeOf args.sessionId fun gasPrice =>
      runPriced args commit caller kind value data gasPrice

def snapshot (id : SessionId) : Tool F :=
  proceed (if w.snapshots then .ok () else .error (ErrorData.internal
    (.snapshot "this session manager was built without a snapshot store"))) fun _ =>
  request ⟨.command (.state id), @rfl Bool false⟩ gotState ErrorData.internal fun state =>
  .ask (.store state.2 state.1) fun stored =>
  proceed (stored.mapError fun reason => ErrorData.internal (.snapshot reason)) fun info =>
  .ret (.ok (.text (snapshotText info)))

def discard (id : SessionId) : Tool F :=
  request ⟨.command (.discard id), @rfl Bool false⟩ gotAck ErrorData.internal fun _ =>
  .ret (.ok (.text "true"))

/-- The program of a tool call. -/
def tool : ToolCall → Tool F
  | .fork => fork
  | .getBalance id address => w.getBalance id address
  | .setBalance id address balance => w.setBalance id address balance
  | .setStorage id address slot value => w.setStorage id address slot value
  | .getStorage id address slot => w.getStorage id address slot
  | .getCode id address => w.getCode id address
  | .simulate args => w.runTransfer args false
  | .advance args => w.runTransfer args true
  | .snapshot id => w.snapshot id
  | .discard id => discard id

end Wire

end Forkyard
