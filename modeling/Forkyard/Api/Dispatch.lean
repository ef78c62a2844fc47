import Forkyard.Schemes.Numeral
import Forkyard.Api.Decoders
import Forkyard.Api.Surface

/-! The JSON-RPC surface: `dispatch` with every method it knows, each a program of jobs and looks at
    the side table, from the JSON it is given to the text it answers. Parameters are read before
    anything is asked of anyone.

        method ──parse──▶ params ──parse──▶ jobs, table ──▶ result
           └─ -32601         └─ -32602          └─ -32001, -32000 -/

namespace Forkyard

open Schemes

variable {F : Type}

/-! ### Texts -/

/-- Sixteen digits, written in lower case and read in either. -/
def hexAlphabet : Alphabet where
  base := 16
  one_lt := by decide
  digit := hexDigit
  value := hexValue
  value_digit := by decide

/-- `0x{:x}`. -/
def hexText (n : ℕ) : String := .ofList ('0' :: 'x' :: hexAlphabet.numeral n)

/-- `0x{:064x}`, which is also how a hash is shown. -/
def wordText (n : ℕ) : String := .ofList ('0' :: 'x' :: hexAlphabet.padded 64 n)

def bytesText (bytes : Bytes) : String := "0x" ++ hexEncode bytes

/-- The hash that is shown as this text, if one is. -/
def hashOf (s : String) : Option B256 :=
  match hexAlphabet.read (s.toList.drop 2) 0 with
  | some n => if n < 2 ^ 256 ∧ wordText n = s then some (.ofNat 256 n) else none
  | none => none

/-! ### JSON -/

inductive Value where
  | null
  | bool (b : Bool)
  | number (text : String)
  | string (s : String)
  | array (items : List Value)
  | object (fields : List (String × Value))

namespace Value

def asStr : Value → Option String
  | string s => some s
  | _ => none

def get (key : String) : Value → Option Value
  | object fields => (fields.find? fun field => field.1 = key).map Prod.snd
  | _ => none

end Value

def fieldStr (call : Value) (key : String) : Option String := (call.get key).bind Value.asStr

def callObject (call : Value) : CallObject where
  caller := fieldStr call "from"
  recipient := fieldStr call "to"
  value := fieldStr call "value"
  data := fieldStr call "data"
  input := fieldStr call "input"
  gas := fieldStr call "gas"

/-! ### Errors -/

/-- What a method of the manager may come to. -/
inductive ManagerError where
  | session (e : SessionError)
  | workerGone
  | snapshot (reason : String)
  deriving DecidableEq

structure RpcErrorObj where
  code : ℤ
  message : String
  deriving DecidableEq

namespace RpcErrorObj

def invalidParams (message : String) : RpcErrorObj := ⟨-32602, message⟩

def methodNotFound (method : String) : RpcErrorObj := ⟨-32601, s!"method not found: {method}"⟩

def execution (message : String) : RpcErrorObj := ⟨-32000, message⟩

end RpcErrorObj

/-- A transaction out of its raw bytes: a legacy one, but for the sender that is recovered from its
    signature, or one of another type. -/
inductive TxEnvelope where
  | legacy (signed : Address → LegacyTx) (recovered : Except String Address)
  | typed

/-- What the surfaces leave to other people's code: reading hex and raw transactions, and revm's
    wording of a rejection. Also whether the manager has a snapshot store. -/
structure Wire where
  hex : HexParser
  decode2718 : Bytes → Except String TxEnvelope
  shown : InvalidTransaction → String
  snapshots : Bool

def ManagerError.display (shown : InvalidTransaction → String) : ManagerError → String
  | .session (.unknown id) => s!"unknown or expired session {id}"
  | .session (.execution msg) => s!"execution error: {msg}"
  | .session (.invalidTransaction reason) => s!"invalid transaction: {shown reason}"
  | .workerGone => "worker thread is gone"
  | .snapshot reason => s!"snapshot: {reason}"

/-- The two fee rejections say what to do about them. -/
def ManagerError.rpc (shown : InvalidTransaction → String) : ManagerError → RpcErrorObj
  | .session (.unknown id) => ⟨-32001, s!"unknown or expired session {id}"⟩
  | .session (.invalidTransaction .gasPriceLessThanBasefee) =>
    .execution (s!"invalid transaction: {shown .gasPriceLessThanBasefee} - read eth_gasPrice for a " ++
      "valid price on this fork (it includes a priority-fee margin over the basefee) and re-sign " ++
      "at that price")
  | .session (.invalidTransaction (.lackOfFundForMaxFee fee balance)) =>
    .execution (s!"sender holds {balance.toNat} wei but this transaction needs {fee.toNat} wei in " ++
      "total - the value sent plus gas_limit * gas_price; fund it with forkyard_setBalance, or " ++
      "lower the gas limit or price")
  | e => .execution (e.display shown)

/-- The errors of calls and estimates, as they are sent. -/
def RpcError.obj (shown : InvalidTransaction → String) : RpcError → RpcErrorObj
  | .invalidParams message => .invalidParams message
  | .session e => (ManagerError.session e).rpc shown
  | .workerGone => ManagerError.workerGone.rpc shown
  | .reverted output => .execution ("execution reverted: " ++ bytesText output)
  | .halted reason => .execution s!"execution halted: {reason}"
  | .wouldFail true => .execution "call would fail: halted"
  | .wouldFail false => .execution "call would fail: reverted"

/-! ### Methods of the manager -/

section Replies

/-- What the receiving end makes of a reply: of one of its own kind what it says, of none at all that
    the worker is gone. -/
def gotBasic : Option (Reply F) → Except ManagerError (Option AccountInfo)
  | some (.basic result) => result.mapError .session
  | _ => .error .workerGone

def gotStorage : Option (Reply F) → Except ManagerError StorageValue
  | some (.storage result) => result.mapError .session
  | _ => .error .workerGone

def gotCode : Option (Reply F) → Except ManagerError Bytes
  | some (.code result) => result.mapError .session
  | _ => .error .workerGone

def gotExecuted : Option (Reply F) → Except ManagerError ExecutionResult
  | some (.executed result) => result.mapError .session
  | _ => .error .workerGone

def gotWritten : Option (Reply F) → Except ManagerError Unit
  | some (.written result) => result.mapError .session
  | _ => .error .workerGone

def gotBlockEnv : Option (Reply F) → Except ManagerError BlockEnv
  | some (.blockEnv result) => result.mapError .session
  | _ => .error .workerGone

def gotAck : Option (Reply F) → Except ManagerError Unit
  | some .ack => .ok ()
  | _ => .error .workerGone

def gotState : Option (Reply F) → Except ManagerError (SessionState × UInt64)
  | some (.state result) => result.mapError .session
  | _ => .error .workerGone

theorem readLog_none (s : Session F) : ({ s with readLog := none } : Session F).readLog = none := rfl

/-- A branch logs no reads. -/
def gotBranch : Option (Reply F) → Except ManagerError { s : Session F // s.readLog = none }
  | some (.branch (.ok s)) => .ok ⟨{ s with readLog := none }, readLog_none s⟩
  | some (.branch (.error e)) => .error (.session e)
  | _ => .error .workerGone

end Replies

/-- `?`. -/
def proceed {ε A R : Type} (e : Except ε A) (k : A → Program F (Except ε R)) :
    Program F (Except ε R) :=
  match e with
  | .error e => .ret (.error e)
  | .ok a => k a

/-- Send a job, wait for its reply and go on with that. -/
def request {ε A R : Type} (job : { job : Job F // job.opens = false })
    (receive : Option (Reply F) → Except ManagerError A) (tell : ManagerError → ε)
    (k : A → Program F (Except ε R)) : Program F (Except ε R) :=
  .ask (.job job) fun reply => proceed ((receive reply).mapError tell) k

/-- A session's block, the manager's where the session is gone. -/
def sessionBlockEnv {R : Type} (id : SessionId) (k : BlockEnv → Program F R) : Program F R :=
  .ask (.job ⟨.command (.blockEnvOf id), rfl⟩) fun reply =>
    match gotBlockEnv reply with
    | .ok env => k env
    | .error _ => .ask .blockEnv k

/-! ### The methods -/

inductive RpcMethod where
  | ethChainId
  | ethBlockNumber
  | ethGasPrice
  | ethGetBalance
  | ethGetTransactionCount
  | ethCall
  | ethGetStorageAt
  | ethGetCode
  | ethSendRawTransaction
  | ethSendRawTransactionSync
  | ethGetTransactionReceipt
  | ethEstimateGas
  | forkyardSetBalance
  | forkyardSetStorageAt
  | forkyardForkFrom
  | forkyardSnapshot
  | forkyardDiscard
  deriving DecidableEq

def RpcMethod.parse : String → Option RpcMethod
  | "eth_chainId" => some .ethChainId
  | "eth_blockNumber" => some .ethBlockNumber
  | "eth_gasPrice" => some .ethGasPrice
  | "eth_getBalance" => some .ethGetBalance
  | "eth_getTransactionCount" => some .ethGetTransactionCount
  | "eth_call" => some .ethCall
  | "eth_getStorageAt" => some .ethGetStorageAt
  | "eth_getCode" => some .ethGetCode
  | "eth_sendRawTransaction" => some .ethSendRawTransaction
  | "eth_sendRawTransactionSync" => some .ethSendRawTransactionSync
  | "eth_getTransactionReceipt" => some .ethGetTransactionReceipt
  | "eth_estimateGas" => some .ethEstimateGas
  | "forkyard_setBalance" => some .forkyardSetBalance
  | "forkyard_setStorageAt" => some .forkyardSetStorageAt
  | "forkyard_forkFrom" => some .forkyardForkFrom
  | "forkyard_snapshot" => some .forkyardSnapshot
  | "forkyard_discard" => some .forkyardDiscard
  | _ => none

/-- What a method answers, by what its JSON is made of. -/
inductive Answered where
  | text (s : String)
  | truth
  | session (id : SessionId)
  | receipt (receipt : Option Receipt)
  | snapshot (info : SnapshotInfo)

/-- A JSON-RPC request, or what is left of it. -/
abbrev Rpc (F : Type) := Program F (Except RpcErrorObj Answered)

def priorityFeeWei : UInt64 := 1500000000

namespace Wire

variable (w : Wire) (chainId : UInt64) (id : SessionId) (params : List Value)

def paramStr (params : List Value) (idx : ℕ) : Except RpcErrorObj String :=
  match params[idx]?.bind Value.asStr with
  | some s => .ok s
  | none => .error (.invalidParams s!"missing/invalid params[{idx}]")

/-- A parameter read as something. -/
def param {A : Type} (parse : String → Except String A) (idx : ℕ) : Except RpcErrorObj A :=
  (paramStr params idx).bind fun s => (parse s).mapError .invalidParams

def parseAddress (idx : ℕ) : Except RpcErrorObj Address := param params w.hex.address idx

def parseU256 (idx : ℕ) : Except RpcErrorObj U256 := param params w.hex.parseU256HexStr idx

def parseRawTx (idx : ℕ) : Except RpcErrorObj Bytes := param params w.hex.bytes idx

/-- What the manager's errors are told as. -/
def tell (e : ManagerError) : RpcErrorObj := e.rpc w.shown

def ethChainId : Rpc F := .ret (.ok (.text (hexText chainId.toNat)))

/-- A block number that does not fit a u64 panics; the sum wraps. -/
def ethBlockNumber : Rpc F :=
  .ask (.sends id) fun (sends : UInt64) =>
  sessionBlockEnv id fun env =>
  match env.height with
  | some height => .ret (.ok (.text (hexText (height + sends).toNat)))
  | none => .panic

/-- The sum wraps. -/
def ethGasPrice : Rpc F :=
  sessionBlockEnv id fun env => .ret (.ok (.text (hexText (env.basefee + priorityFeeWei).toNat)))

def ethGetBalance : Rpc F :=
  proceed (w.parseAddress params 0) fun address =>
  request ⟨.read id (.basic address), rfl⟩ gotBasic w.tell fun info =>
  .ret (.ok (.text (hexText ((info.map AccountInfo.balance).getD 0).toNat)))

def ethGetTransactionCount : Rpc F :=
  proceed (w.parseAddress params 0) fun address =>
  request ⟨.read id (.basic address), rfl⟩ gotBasic w.tell fun info =>
  .ret (.ok (.text (hexText ((info.map AccountInfo.nonce).getD 0).toNat)))

def forkyardSetBalance : Rpc F :=
  proceed (w.parseAddress params 0) fun address =>
  proceed (w.parseU256 params 1) fun balance =>
  request ⟨.read id (.basic address), rfl⟩ gotBasic w.tell fun info =>
  request ⟨.command (.setAccount id address { info.getD .default with balance := balance }), rfl⟩
    gotWritten w.tell fun _ =>
  .ret (.ok .truth)

def forkyardSetStorageAt : Rpc F :=
  proceed (w.parseAddress params 0) fun address =>
  proceed (w.parseU256 params 1) fun key =>
  proceed (w.parseU256 params 2) fun value =>
  request ⟨.command (.setStorage id address key value), rfl⟩ gotWritten w.tell fun _ =>
  .ret (.ok .truth)

def forkyardForkFrom : Rpc F :=
  request ⟨.command (.branch id), rfl⟩ gotBranch w.tell fun session =>
  register (.adopt session) fun child =>
  .ask (.inherit id child) fun _ =>
  .ret (.ok (.session child))

def forkyardSnapshot : Rpc F :=
  proceed (if w.snapshots then .ok () else
    .error (w.tell (.snapshot "this session manager was built without a snapshot store"))) fun _ =>
  request ⟨.command (.state id), rfl⟩ gotState w.tell fun state =>
  .ask (.store state.2 state.1) fun stored =>
  proceed (stored.mapError fun reason => w.tell (.snapshot reason)) fun info =>
  .ret (.ok (.snapshot info))

def forkyardDiscard : Rpc F :=
  request ⟨.command (.discard id), rfl⟩ gotAck w.tell fun _ =>
  .ask (.remove id) fun _ =>
  .ret (.ok .truth)

/-- The signed transaction, its sender recovered. -/
def signedTx : Except RpcErrorObj LegacyTx :=
  (w.parseRawTx params 0).bind fun raw =>
  ((w.decode2718 raw).mapError .invalidParams).bind fun envelope =>
  match envelope with
  | .typed => .error (.invalidParams "only legacy transactions are supported for now")
  | .legacy signed recovered => (recovered.map signed).mapError fun e =>
      .invalidParams s!"could not recover sender: {e}"

/-- A committed transaction is counted and its receipt kept; `sync` answers with the receipt
    itself. -/
def sent (tx : LegacyTx) (result : ExecutionResult) (sync : Bool) : Rpc F :=
  sessionBlockEnv id fun env =>
  match env.height with
  | some realStart =>
    .ask (.enter id realStart tx result) fun receipt =>
    .ret (.ok (if sync then .receipt (some receipt) else .text (wordText tx.hash.toNat)))
  | none => .panic

def ethSendRawTransaction (sync : Bool) : Rpc F :=
  proceed (w.signedTx params) fun tx =>
  request ⟨.read id (.advance tx.env), rfl⟩ gotExecuted w.tell fun result =>
  sent id tx result sync

/-- A text that shows no hash is no key. Only letters of hashes matter, so lowering those will do. -/
def ethGetTransactionReceipt : Rpc F :=
  proceed (paramStr params 0) fun s =>
  match hashOf s.toLower with
  | some hash => .ask (.receipt id hash) fun receipt => .ret (.ok (.receipt receipt))
  | none => .ret (.ok (.receipt none))

def ethCall : Rpc F :=
  proceed ((w.hex.ethCallTx chainId (params.head?.map callObject)).mapError (RpcError.obj w.shown))
    fun tx =>
  request ⟨.read id (.simulate tx true), rfl⟩ gotExecuted w.tell fun result =>
  .ret (((callOutput result).mapError (RpcError.obj w.shown)).map fun output =>
    .text (bytesText output))

def ethGetStorageAt : Rpc F :=
  proceed (w.parseAddress params 0) fun address =>
  proceed (w.parseU256 params 1) fun slot =>
  request ⟨.read id (.storage address slot), rfl⟩ gotStorage w.tell fun value =>
  .ret (.ok (.text (wordText value.toNat)))

def ethGetCode : Rpc F :=
  proceed (w.parseAddress params 0) fun address =>
  request ⟨.read id (.code address), rfl⟩ gotCode w.tell fun code =>
  .ret (.ok (.text (bytesText code)))

def ethEstimateGas : Rpc F :=
  proceed ((w.hex.ethEstimateGasTx (params.head?.map callObject)).mapError (RpcError.obj w.shown))
    fun tx =>
  request ⟨.read id (.basic tx.caller), rfl⟩ gotBasic w.tell fun info =>
  request ⟨.read id (.simulate { tx with nonce := (info.map AccountInfo.nonce).getD 0 } true), rfl⟩
    gotExecuted w.tell fun result =>
  .ret (((estimateOutput result).mapError (RpcError.obj w.shown)).map fun gas =>
    .text (hexText gas.toNat))

def handle : RpcMethod → Rpc F
  | .ethChainId => ethChainId chainId
  | .ethBlockNumber => ethBlockNumber id
  | .ethGasPrice => ethGasPrice id
  | .ethGetBalance => w.ethGetBalance id params
  | .ethGetTransactionCount => w.ethGetTransactionCount id params
  | .ethCall => w.ethCall chainId id params
  | .ethGetStorageAt => w.ethGetStorageAt id params
  | .ethGetCode => w.ethGetCode id params
  | .ethSendRawTransaction => w.ethSendRawTransaction id params false
  | .ethSendRawTransactionSync => w.ethSendRawTransaction id params true
  | .ethGetTransactionReceipt => ethGetTransactionReceipt id params
  | .ethEstimateGas => w.ethEstimateGas id params
  | .forkyardSetBalance => w.forkyardSetBalance id params
  | .forkyardSetStorageAt => w.forkyardSetStorageAt id params
  | .forkyardForkFrom => w.forkyardForkFrom id
  | .forkyardSnapshot => w.forkyardSnapshot id
  | .forkyardDiscard => w.forkyardDiscard id

def dispatch (method : String) : Rpc F :=
  match RpcMethod.parse method with
  | none => .ret (.error (.methodNotFound method))
  | some method => w.handle chainId id params method

end Wire

end Forkyard
