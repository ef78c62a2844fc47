import Forkyard.Api.Unnoticed

/-! What a request may ask, and what it may answer. Of the jobs that change a session a request asks
    those of the one it names, where it is one to change it. Of the side table a send asks that its
    transaction be entered, a branch that its child be handed the entry of its parent, a discard that
    an entry be removed, and nothing else asks anything of the kind. A receipt is answered by the send
    that waits for it, and by a poll.

        send ────▶ enter     sendSync ──▶ receipt
        branch ──▶ inherit   poll ──────▶ receipt
        discard ─▶ remove    -/

namespace Forkyard

open Schemes

variable {F E : Type}

/-! ### Which session a request may change -/

/-- The method may change its session. -/
def RpcMethod.writes : RpcMethod → Bool
  | .ethSendRawTransaction | .ethSendRawTransactionSync => true
  | .forkyardSetBalance | .forkyardSetStorageAt | .forkyardDiscard => true
  | _ => false

/-- The session the tool may change. -/
def ToolCall.target : ToolCall → Option SessionId
  | .setBalance id _ _ => some id
  | .setStorage id _ _ _ => some id
  | .advance args => some args.sessionId
  | .discard id => some id
  | _ => none

namespace SurfaceCall

def target : SurfaceCall → Option SessionId
  | .rpc id method _ => if ((RpcMethod.parse method).map RpcMethod.writes).getD false then some id
      else none
  | .tool call => call.target

/-! ### What it may do to the side table -/

/-- The request is to commit the transaction on the session, and to count it. -/
inductive Sends (w : Wire) (id : SessionId) (tx : LegacyTx) : SurfaceCall → Prop
  | send {params : List Value} (h : w.signedTx params = .ok tx) :
    Sends w id tx (.rpc id "eth_sendRawTransaction" params)
  | sendSync {params : List Value} (h : w.signedTx params = .ok tx) :
    Sends w id tx (.rpc id "eth_sendRawTransactionSync" params)

/-- The request is for the receipt of that hash, in whatever case it is written. -/
inductive Polls (id : SessionId) (hash : B256) : SurfaceCall → Prop
  | poll {params : List Value} {s : String} (h : Wire.paramStr params 0 = .ok s)
    (hhash : hashOf s.toLower = some hash) :
    Polls id hash (.rpc id "eth_getTransactionReceipt" params)

/-- The request is to branch the session. -/
inductive Branches (parent : SessionId) : SurfaceCall → Prop
  | forkFrom (params : List Value) : Branches parent (.rpc parent "forkyard_forkFrom" params)

/-- The request is to discard the session, and its entry with it. -/
inductive Discards (id : SessionId) : SurfaceCall → Prop
  | discard (params : List Value) : Discards id (.rpc id "forkyard_discard" params)

/-- What a request may ask. -/
def Asks (w : Wire) (call : SurfaceCall) : Hop F → Prop
  | .job job => job.1.writes = true → call.target = some job.1.sessionId
  | .receipt id hash => call.Polls id hash
  | .enter id _ tx _ => call.Sends w id tx
  | .inherit parent _ => call.Branches parent
  | .remove id => call.Discards id
  | _ => True

/-- What a request may answer. -/
def Answers (w : Wire) (call : SurfaceCall) : SurfaceReply → Prop
  | .rpc (.ok (.receipt (some _))) => (∃ id tx, call.Sends w id tx) ∨ ∃ id hash, call.Polls id hash
  | _ => True

end SurfaceCall

section Within

variable {ε A R : Type} {fair : (hop : Hop F) → hop.Answer → Prop} {p : Hop F → Prop}

theorem within_proceed {good : Except ε R → Prop} (herror : ∀ x, good (.error x)) {e : Except ε A}
    {k : A → Program F (Except ε R)} (hk : ∀ a, e = .ok a → (k a).Within fair p good) :
    (proceed e k).Within fair p good := by
  cases e with
  | error x => exact herror x
  | ok a => exact hk a rfl

theorem within_request {good : Except ε R → Prop} (herror : ∀ x, good (.error x))
    {job : { job : Job F // job.opens = false }} (hjob : p (.job job))
    {receive : Option (Reply F) → Except ManagerError A} {tell : ManagerError → ε}
    {k : A → Program F (Except ε R)} (hk : ∀ a, (k a).Within fair p good) :
    (request job receive tell k).Within fair p good :=
  ⟨hjob, fun _ _ => within_proceed herror fun a _ => hk a⟩

theorem within_sessionBlockEnv {good : R → Prop} {id : SessionId}
    (hjob : p (.job ⟨.command (.blockEnvOf id), rfl⟩)) (hblock : p .blockEnv)
    {k : BlockEnv → Program F R} (hk : ∀ env, (k env).Within fair p good) :
    (sessionBlockEnv id k).Within fair p good := by
  refine ⟨hjob, fun reply _ => ?_⟩
  dsimp only
  split
  · exact hk _
  · exact ⟨hblock, fun env _ => hk env⟩

end Within

section Requests

variable (w : Wire) (chainId : UInt64) (id : SessionId) (params : List Value)

/-- What a method asks and answers, under each of its names. -/
abbrev RpcWithin (method : String) (t : Rpc F) : Prop :=
  t.Within (fun _ _ => True) ((SurfaceCall.rpc id method params).Asks w)
    fun r => (SurfaceCall.rpc id method params).Answers w (.rpc r)

/-- What is left of a send that has been committed. -/
theorem sent_within {name : String} {tx : LegacyTx}
    (hsends : (SurfaceCall.rpc id name params).Sends w id tx) (result : ExecutionResult)
    (sync : Bool) :
    RpcWithin w id params name (Wire.sent id tx result sync : Rpc F) := by
  refine within_sessionBlockEnv (by rintro ⟨⟩) trivial fun env => ?_
  split
  · refine ⟨hsends, fun receipt _ => ?_⟩
    cases sync with
    | true => exact .inl ⟨id, tx, hsends⟩
    | false => exact trivial
  · exact trivial

theorem send_within {name : String} (sync : Bool)
    (htarget : (SurfaceCall.rpc id name params).target = some id)
    (hsends : ∀ tx, w.signedTx params = .ok tx → (SurfaceCall.rpc id name params).Sends w id tx) :
    RpcWithin w id params name (w.ethSendRawTransaction id params sync : Rpc F) :=
  within_proceed (fun _ => trivial) fun tx htx => within_request (fun _ => trivial)
    (fun _ => htarget) fun result => sent_within w id params (hsends tx htx) result sync

/-- What a method is called. -/
def RpcMethod.name : RpcMethod → String
  | .ethChainId => "eth_chainId"
  | .ethBlockNumber => "eth_blockNumber"
  | .ethGasPrice => "eth_gasPrice"
  | .ethGetBalance => "eth_getBalance"
  | .ethGetTransactionCount => "eth_getTransactionCount"
  | .ethCall => "eth_call"
  | .ethGetStorageAt => "eth_getStorageAt"
  | .ethGetCode => "eth_getCode"
  | .ethSendRawTransaction => "eth_sendRawTransaction"
  | .ethSendRawTransactionSync => "eth_sendRawTransactionSync"
  | .ethGetTransactionReceipt => "eth_getTransactionReceipt"
  | .ethEstimateGas => "eth_estimateGas"
  | .forkyardSetBalance => "forkyard_setBalance"
  | .forkyardSetStorageAt => "forkyard_setStorageAt"
  | .forkyardForkFrom => "forkyard_forkFrom"
  | .forkyardSnapshot => "forkyard_snapshot"
  | .forkyardDiscard => "forkyard_discard"

theorem parse_name {name : String} {method : RpcMethod} (h : RpcMethod.parse name = some method) :
    name = method.name := by
  unfold RpcMethod.parse at h
  split at h <;> cases h <;> rfl

theorem handle_within (method : RpcMethod) :
    RpcWithin w id params method.name (w.handle chainId id params method : Rpc F) := by
  have herror : ∀ e : RpcErrorObj,
      (SurfaceCall.rpc id method.name params).Answers w (.rpc (.error e)) := fun _ => trivial
  cases method with
  | ethChainId => exact trivial
  | ethBlockNumber =>
    refine ⟨trivial, fun sends _ => within_sessionBlockEnv (by rintro ⟨⟩) trivial fun env => ?_⟩
    split <;> exact trivial
  | ethGasPrice => exact within_sessionBlockEnv (by rintro ⟨⟩) trivial fun env => trivial
  | ethGetBalance =>
    exact within_proceed herror fun _ _ => within_request herror (by rintro ⟨⟩) fun _ => trivial
  | ethGetTransactionCount =>
    exact within_proceed herror fun _ _ => within_request herror (by rintro ⟨⟩) fun _ => trivial
  | ethCall =>
    refine within_proceed herror fun _ _ => within_request herror (by rintro ⟨⟩) fun result => ?_
    cases callOutput result <;> exact trivial
  | ethGetStorageAt =>
    exact within_proceed herror fun _ _ => within_proceed herror fun _ _ =>
      within_request herror (by rintro ⟨⟩) fun _ => trivial
  | ethGetCode =>
    exact within_proceed herror fun _ _ => within_request herror (by rintro ⟨⟩) fun _ => trivial
  | ethSendRawTransaction => exact send_within w id params false rfl fun _ => .send
  | ethSendRawTransactionSync => exact send_within w id params true rfl fun _ => .sendSync
  | ethGetTransactionReceipt =>
    refine within_proceed herror fun s hs => ?_
    split
    · rename_i hash hhash
      refine ⟨.poll hs hhash, fun receipt _ => ?_⟩
      cases receipt with
      | none => exact trivial
      | some receipt => exact .inr ⟨id, hash, .poll hs hhash⟩
    · exact trivial
  | ethEstimateGas =>
    refine within_proceed herror fun _ _ => within_request herror (by rintro ⟨⟩) fun _ =>
      within_request herror (by rintro ⟨⟩) fun result => ?_
    cases estimateOutput result <;> exact trivial
  | forkyardSetBalance =>
    exact within_proceed herror fun _ _ => within_proceed herror fun _ _ =>
      within_request herror (by rintro ⟨⟩) fun _ =>
        within_request herror (fun _ => rfl) fun _ => trivial
  | forkyardSetStorageAt =>
    exact within_proceed herror fun _ _ => within_proceed herror fun _ _ =>
      within_proceed herror fun _ _ => within_request herror (fun _ => rfl) fun _ => trivial
  | forkyardForkFrom =>
    exact within_request herror (by rintro ⟨⟩) fun _ => ⟨trivial, fun _ _ => ⟨trivial, fun _ _ =>
      ⟨.forkFrom params, fun _ _ => trivial⟩⟩⟩
  | forkyardSnapshot =>
    exact within_proceed herror fun _ _ => within_request herror (by rintro ⟨⟩) fun _ =>
      ⟨trivial, fun _ _ => within_proceed herror fun _ _ => trivial⟩
  | forkyardDiscard =>
    exact within_request herror (fun _ => rfl) fun _ => ⟨.discard params, fun _ _ => trivial⟩

/-- What a tool asks and answers. -/
abbrev ToolWithin (call : ToolCall) (t : Tool F) : Prop :=
  t.Within (fun _ _ => True) ((SurfaceCall.tool call).Asks w)
    fun r => (SurfaceCall.tool call).Answers w (.tool r)

theorem transfer_within {call : ToolCall} (args : TransferArgs) (commit : Bool)
    (htarget : commit = true → call.target = some args.sessionId) :
    ToolWithin w call (w.runTransfer args commit : Tool F) := by
  have herror : ∀ e : ErrorData, (SurfaceCall.tool call).Answers w (.tool (.error e)) :=
    fun _ => trivial
  have hpriced : ∀ caller kind value data gasPrice, ToolWithin w call
      (Wire.runPriced args commit caller kind value data gasPrice : Tool F) := by
    intro caller kind value data gasPrice
    refine ⟨?_, fun reply _ => ?_⟩
    · cases commit with
      | false => rintro ⟨⟩
      | true => exact fun _ => htarget rfl
    · dsimp only
      split
      · exact trivial
      · unfold Wire.explainFeeError
        split
        · exact ⟨by rintro ⟨⟩, fun _ _ => trivial⟩
        · exact trivial
        · exact trivial
  refine within_proceed herror fun caller _ => within_proceed herror fun kind _ =>
    within_proceed herror fun value _ => within_proceed herror fun data _ => ?_
  split
  · exact hpriced _ _ _ _ _
  · exact within_request herror (by rintro ⟨⟩) fun env => hpriced _ _ _ _ _

theorem tool_within (call : ToolCall) : ToolWithin w call (w.tool call : Tool F) := by
  have herror : ∀ e : ErrorData, (SurfaceCall.tool call).Answers w (.tool (.error e)) :=
    fun _ => trivial
  cases call with
  | fork =>
    exact ⟨trivial, fun _ _ => ⟨trivial, fun _ _ => ⟨trivial, fun _ _ => ⟨trivial, fun _ _ =>
      ⟨trivial, fun _ _ => trivial⟩⟩⟩⟩⟩
  | getBalance id address =>
    exact within_proceed herror fun _ _ => within_request herror (by rintro ⟨⟩) fun _ => trivial
  | setBalance id address balance =>
    exact within_proceed herror fun _ _ => within_proceed herror fun _ _ =>
      within_request herror (by rintro ⟨⟩) fun _ =>
        within_request herror (fun _ => rfl) fun _ => trivial
  | setStorage id address slot value =>
    exact within_proceed herror fun _ _ => within_proceed herror fun _ _ =>
      within_proceed herror fun _ _ => within_request herror (fun _ => rfl) fun _ => trivial
  | getStorage id address slot =>
    exact within_proceed herror fun _ _ => within_proceed herror fun _ _ =>
      within_request herror (by rintro ⟨⟩) fun _ => trivial
  | getCode id address =>
    exact within_proceed herror fun _ _ => within_request herror (by rintro ⟨⟩) fun _ => trivial
  | simulate args => exact transfer_within w args false (by rintro ⟨⟩)
  | advance args => exact transfer_within w args true fun _ => rfl
  | snapshot id =>
    exact within_proceed herror fun _ _ => within_request herror (by rintro ⟨⟩) fun _ =>
      ⟨trivial, fun _ _ => within_proceed herror fun _ _ => trivial⟩
  | discard id => exact within_request herror (fun _ => rfl) fun _ => trivial

/-- FOOTPRINT: whatever a request is answered on its way, it asks what it may and answers what it
    may. -/
theorem program_within (call : SurfaceCall) :
    (call.program w chainId : Program F SurfaceReply).Within (fun _ _ => True) (call.Asks w)
      (call.Answers w) := by
  cases call with
  | tool call => exact within_map SurfaceReply.tool (tool_within w call)
  | rpc id name params =>
    refine within_map SurfaceReply.rpc ?_
    unfold Wire.dispatch
    split
    · exact trivial
    · rename_i method hparse
      obtain rfl := parse_name hparse
      exact handle_within w chainId id params method

end Requests

end Forkyard
