import Forkyard.Api.Polling

/-! Where receipts come from. Nobody is answered a receipt that was not sent for: it is the very one
    that was built of what a commit came to, on the session that is asked about or on one that this
    was branched from, by the time the branch was handed its entry.

        send ──commit──▶ result ──enter──▶ receipt ──inherit──▶ receipt of the child ──poll──▶ -/

namespace Forkyard

open Schemes

variable {F E : Type}

/-! ### What a request passes on -/

/-- The receipts that the step finds out are known, and the transactions it commits are done. -/
def Hop.Relays (known : Receipt → Prop) (done : SessionId → TxEnv → ExecutionResult → Prop) :
    (hop : Hop F) → hop.Answer → Prop
  | .job asked, (reply : Option (Reply F)) => ∀ id tx result,
    asked.1 = .read id (.advance tx) → gotExecuted reply = .ok result → done id tx result
  | .receipt _ _, (found : Option Receipt) => ∀ r, found = some r → known r
  | .enter _ _ _ _, (built : Receipt) => known built
  | _, _ => True

/-- What is entered was done. -/
def Hop.Due (done : SessionId → TxEnv → ExecutionResult → Prop) : Hop F → Prop
  | .enter id _ tx result => done id tx.env result
  | _ => True

/-- The receipt that is answered, if one is, is known. -/
def SurfaceReply.Known (known : Receipt → Prop) (r : SurfaceReply) : Prop :=
  ∀ receipt, r = .rpc (.ok (.receipt (some receipt))) → known receipt

section Programs

variable {w : Wire} {chainId : UInt64} {id : SessionId} {hash : B256} {call : SurfaceCall}
  (known : Receipt → Prop) (done : SessionId → TxEnv → ExecutionResult → Prop)

/-- What is asked may be asked, what is entered was done, and what is answered is known. -/
abbrev Program.Honest (w : Wire) (call : SurfaceCall) (t : Program F SurfaceReply) : Prop :=
  t.Within (Hop.Relays known done) (fun hop => call.Asks w hop ∧ hop.Due done)
    (SurfaceReply.Known known)

theorem send_honest {tx : LegacyTx} (h : call.Sends w id tx) :
    Program.Honest known done w call (call.program w chainId : Program F SurfaceReply) := by
  have htarget : call.target = some id := by cases h <;> rfl
  obtain ⟨sync, hprogram⟩ := send_program F chainId h
  rw [Program.Honest, hprogram]
  refine within_map SurfaceReply.rpc ⟨⟨fun _ => htarget, trivial⟩, fun reply hdone => ?_⟩
  dsimp only
  cases hresult : gotExecuted reply with
  | error e => rintro receipt ⟨⟩
  | ok result =>
    refine within_sessionBlockEnv ⟨by rintro ⟨⟩, trivial⟩ ⟨trivial, trivial⟩ fun env => ?_
    split
    · refine ⟨⟨h, hdone id tx.env result rfl hresult⟩, fun receipt hknown => ?_⟩
      cases sync with
      | true =>
        rintro _ ⟨⟩
        exact hknown
      | false => rintro _ ⟨⟩
    · exact trivial

theorem poll_honest (h : call.Polls id hash) :
    Program.Honest known done w call (call.program w chainId : Program F SurfaceReply) := by
  cases h with
  | poll hs hhash =>
    rw [Program.Honest, SurfaceCall.program, dispatch_handle .ethGetTransactionReceipt rfl]
    simp only [Wire.handle, Wire.ethGetTransactionReceipt, hs, proceed, hhash]
    refine ⟨⟨.poll hs hhash, trivial⟩, fun found hknown => ?_⟩
    rintro receipt ⟨⟩
    exact hknown receipt rfl

variable (chainId call) in
/-- A request answers no receipt but one it was told on its way, and enters no transaction but one
    it was told is committed. -/
theorem program_honest :
    Program.Honest known done w call (call.program w chainId : Program F SurfaceReply) := by
  by_cases hsends : ∃ id tx, call.Sends w id tx
  · obtain ⟨id, tx, h⟩ := hsends
    exact send_honest known done h
  · by_cases hpolls : ∃ id hash, call.Polls id hash
    · obtain ⟨id, hash, h⟩ := hpolls
      exact poll_honest known done h
    · refine within_mono (fun _ _ _ => trivial) ?asks ?answers (program_within w chainId call)
      case asks =>
        intro hop hasks
        refine ⟨hasks, ?_⟩
        cases hop with
        | enter id realStart tx result => exact absurd ⟨id, tx, hasks⟩ hsends
        | _ => exact trivial
      case answers =>
        rintro _ hanswers receipt rfl
        exact (hanswers.elim hsends hpolls).elim

end Programs

/-! ### Where a receipt comes from -/

/-- The request is to send a transaction of that hash to the session, or asks for its receipt. -/
def SurfaceCall.Concerns (w : Wire) (id : SessionId) (hash : B256) (call : SurfaceCall) : Prop :=
  (∃ tx, call.Sends w id tx ∧ tx.hash = hash) ∨ call.Polls id hash

section Runs

variable [ToString E] (up : F → Upstream E) (evm : Evm E) (order : HashOrder)
  (stored : UInt64 → SessionState → Except String SnapshotInfo) (w : Wire) (chainId : UInt64)
  (b : Backend F)

/-- The request has been told that the transaction is committed on the session, with that result. -/
def Committed (events : List (SurfaceEvent F)) (k : ℕ) (id : SessionId) (tx : TxEnv)
    (result : ExecutionResult) : Prop :=
  ∃ earlier later rest, events = earlier ++ .move k :: later ∧
    (surfaces up evm order stored w chainId b earlier).requests[k]?
      = some (.ask (.job ⟨.read id (.advance tx), rfl⟩) rest) ∧
    gotExecuted (Backend.answer up evm order stored (.job ⟨.read id (.advance tx), rfl⟩)
      (surfaces up evm order stored w chainId b earlier).store).1 = .ok result

/-- How the session has come by the receipt: it was built when a transaction that was sent to the
    session and committed there was counted, or its parent had come by it when a branch handed the
    entry on. -/
inductive Origin (receipt : Receipt) : List (SurfaceEvent F) → SessionId → Prop
  | entered {events : List (SurfaceEvent F)} {k : ℕ} {call : SurfaceCall} {id : SessionId}
      {realStart : UInt64} {tx : LegacyTx} {result : ExecutionResult}
      {rest : Receipt → Program F SurfaceReply}
      (hcall : (events.filterMap SurfaceEvent.made)[k]? = some call) (hsends : call.Sends w id tx)
      (hhop : (surfaces up evm order stored w chainId b events).requests[k]?
        = some (.ask (.enter id realStart tx result) rest))
      (hdone : Committed up evm order stored w chainId b events k id tx.env result)
      (hbuilt : (((surfaces up evm order stored w chainId b events).store.entry id).enter realStart
        tx result).1 = receipt) :
    Origin receipt (events ++ [.move k]) id
  | inherited {events : List (SurfaceEvent F)} {k : ℕ} {call : SurfaceCall}
      {parent child : SessionId} {rest : Unit → Program F SurfaceReply}
      (hcall : (events.filterMap SurfaceEvent.made)[k]? = some call)
      (hbranches : call.Branches parent)
      (hhop : (surfaces up evm order stored w chainId b events).requests[k]?
        = some (.ask (.inherit parent child) rest))
      (hparent : Origin receipt events parent) :
    Origin receipt (events ++ [.move k]) child
  | later {events : List (SurfaceEvent F)} {id : SessionId} (event : SurfaceEvent F)
      (h : Origin receipt events id) :
    Origin receipt (events ++ [event]) id

/-- The receipts that the request may answer. -/
def Answerable (events : List (SurfaceEvent F)) (call : SurfaceCall) (receipt : Receipt) : Prop :=
  ∃ id, call.Concerns w id receipt.transactionHash ∧
    Origin up evm order stored w chainId b receipt events id

/-- INVARIANT of any run of the surfaces. -/
structure Traced (events : List (SurfaceEvent F)) : Prop where
  table : ∀ id hash receipt,
    receiptOf (surfaces up evm order stored w chainId b events).store.rpcState id hash
        = some receipt →
      receipt.transactionHash = hash ∧ Origin up evm order stored w chainId b receipt events id
  left : ∀ (k : ℕ) call t, (events.filterMap SurfaceEvent.made)[k]? = some call →
    (surfaces up evm order stored w chainId b events).requests[k]? = some t →
      ∀ known done,
        (∀ receipt,
          Answerable up evm order stored w chainId b events call receipt → known receipt) →
        (∀ id tx result,
          Committed up evm order stored w chainId b events k id tx result → done id tx result) →
          Program.Honest known done w call t

variable {up evm order stored w chainId b} {events : List (SurfaceEvent F)}

theorem committed_later (event : SurfaceEvent F) {k : ℕ} {id : SessionId} {tx : TxEnv}
    {result : ExecutionResult}
    (h : Committed up evm order stored w chainId b events k id tx result) :
    Committed up evm order stored w chainId b (events ++ [event]) k id tx result := by
  obtain ⟨earlier, later, rest, rfl, hrest⟩ := h
  exact ⟨earlier, later ++ [event], rest, List.append_assoc _ _ _, hrest⟩

/-- What is left of a request is as well traced after an event that leaves it alone. -/
theorem left_later (h : Traced up evm order stored w chainId b events) (event : SurfaceEvent F)
    {k : ℕ} {call : SurfaceCall} {t : Program F SurfaceReply}
    (hcall : (events.filterMap SurfaceEvent.made)[k]? = some call)
    (ht : (surfaces up evm order stored w chainId b events).requests[k]? = some t)
    {known : Receipt → Prop} {done : SessionId → TxEnv → ExecutionResult → Prop}
    (hknown : ∀ receipt,
      Answerable up evm order stored w chainId b (events ++ [event]) call receipt → known receipt)
    (hdone : ∀ id tx result, Committed up evm order stored w chainId b (events ++ [event]) k id tx
      result → done id tx result) : Program.Honest known done w call t :=
  h.left k call t hcall ht known done
    (fun receipt ⟨id, hconcerns, horigin⟩ => hknown receipt ⟨id, hconcerns, .later event horigin⟩)
    fun id tx result hcommitted => hdone id tx result (committed_later event hcommitted)

theorem table_later (h : Traced up evm order stored w chainId b events) (event : SurfaceEvent F)
    {id : SessionId} {hash : B256} {receipt : Receipt}
    (hreceipt : receiptOf (surfaces up evm order stored w chainId b events).store.rpcState id hash
      = some receipt) :
    receipt.transactionHash = hash ∧
      Origin up evm order stored w chainId b receipt (events ++ [event]) id :=
  (h.table id hash receipt hreceipt).imp_right (.later event)

section Moved

variable {k : ℕ} {call : SurfaceCall} {hop : Hop F} {rest : hop.Answer → Program F SurfaceReply}

/-- The table, after one step of a request. -/
theorem table_moved (h : Traced up evm order stored w chainId b events)
    (hcall : (events.filterMap SurfaceEvent.made)[k]? = some call)
    (hhop : (surfaces up evm order stored w chainId b events).requests[k]? = some (.ask hop rest))
    (hasks : call.Asks w hop)
    (hdue : hop.Due (Committed up evm order stored w chainId b events k)) {id : SessionId}
    {hash : B256} {receipt : Receipt}
    (hreceipt : receiptOf (hop.table
      (surfaces up evm order stored w chainId b events).store.rpcState) id hash = some receipt) :
    receipt.transactionHash = hash ∧
      Origin up evm order stored w chainId b receipt (events ++ [.move k]) id := by
  cases hop with
  | enter id' realStart tx result =>
    rw [receipt_enter] at hreceipt
    split at hreceipt
    · rename_i hown
      obtain ⟨rfl, rfl⟩ := hown
      obtain rfl := Option.some.inj hreceipt
      exact ⟨rfl, .entered hcall hasks hhop hdue rfl⟩
    · exact table_later h _ hreceipt
  | inherit parent child =>
    rw [receipt_inherit] at hreceipt
    split at hreceipt
    · rename_i hown
      obtain ⟨rfl, -⟩ := hown
      exact (h.table parent hash receipt hreceipt).imp_right (.inherited hcall hasks hhop)
    · exact table_later h _ hreceipt
  | remove id' =>
    rw [receipt_remove] at hreceipt
    split at hreceipt
    · cases hreceipt
    · exact table_later h _ hreceipt
  | _ => exact table_later h _ hreceipt

/-- What a step of a request finds out it may answer. -/
theorem relays_moved (h : Traced up evm order stored w chainId b events)
    (hcall : (events.filterMap SurfaceEvent.made)[k]? = some call)
    (hhop : (surfaces up evm order stored w chainId b events).requests[k]? = some (.ask hop rest))
    (hasks : call.Asks w hop)
    (hdue : hop.Due (Committed up evm order stored w chainId b events k)) {known : Receipt → Prop}
    {done : SessionId → TxEnv → ExecutionResult → Prop}
    (hknown : ∀ receipt,
      Answerable up evm order stored w chainId b (events ++ [.move k]) call receipt →
        known receipt)
    (hdone : ∀ id tx result, Committed up evm order stored w chainId b (events ++ [.move k]) k id tx
      result → done id tx result) :
    hop.Relays known done (Backend.answer up evm order stored hop
      (surfaces up evm order stored w chainId b events).store).1 := by
  cases hop with
  | enter id realStart tx result =>
    exact hknown _ ⟨id, .inl ⟨tx, hasks, rfl⟩, .entered hcall hasks hhop hdue rfl⟩
  | job job =>
    rintro id tx result hjob hresult
    obtain rfl : job = ⟨.read id (.advance tx), rfl⟩ := Subtype.ext hjob
    exact hdone id tx result ⟨events, [], rest, rfl, hhop, hresult⟩
  | receipt id hash =>
    intro receipt hreceipt
    obtain ⟨rfl, horigin⟩ := table_later h (.move k) hreceipt
    exact hknown receipt ⟨id, .inr hasks, horigin⟩
  | _ => exact trivial

end Moved

/-- FRAME: an event that makes no request and moves none, and leaves the table as it is. -/
theorem traced_frame (h : Traced up evm order stored w chainId b events) {event : SurfaceEvent F}
    (hmade : event.made = none)
    (htable : (surfaces up evm order stored w chainId b (events ++ [event])).store.rpcState
      = (surfaces up evm order stored w chainId b events).store.rpcState)
    (hleft : (surfaces up evm order stored w chainId b (events ++ [event])).requests
      = (surfaces up evm order stored w chainId b events).requests) :
    Traced up evm order stored w chainId b (events ++ [event]) := by
  refine ⟨fun id hash receipt hreceipt => ?_, fun k call t hcall ht known done hknown hdone => ?_⟩
  · rw [htable] at hreceipt
    exact table_later h _ hreceipt
  · rw [made_unmade events hmade] at hcall
    rw [hleft] at ht
    exact left_later h _ hcall ht hknown hdone

theorem traced_call (h : Traced up evm order stored w chainId b events) (c : SurfaceCall) :
    Traced up evm order stored w chainId b (events ++ [.call c]) := by
  have hlength := surfaces_length up evm order stored w chainId b events
  have hrun : surfaces up evm order stored w chainId b (events ++ [.call c])
      = ⟨(surfaces up evm order stored w chainId b events).store,
        (surfaces up evm order stored w chainId b events).requests ++ [c.program w chainId]⟩ :=
    surfaces_append up evm order stored w chainId b events [.call c]
  refine ⟨fun id hash receipt hreceipt => ?_, fun k call t hcall ht known done hknown hdone => ?_⟩
  · rw [hrun] at hreceipt
    exact table_later h _ hreceipt
  · rw [hrun] at ht
    rw [List.filterMap_append] at hcall
    rcases Nat.lt_or_ge k (events.filterMap SurfaceEvent.made).length with hlt | hge
    · rw [List.getElem?_append_left hlt] at hcall
      rw [List.getElem?_append_left (hlength ▸ hlt)] at ht
      exact left_later h _ hcall ht hknown hdone
    · rw [List.getElem?_append_right hge] at hcall
      rw [List.getElem?_append_right (hlength ▸ hge), hlength] at ht
      cases hk : k - (events.filterMap SurfaceEvent.made).length with
      | zero =>
        rw [hk] at hcall ht
        obtain rfl : c = call := Option.some.inj hcall
        obtain rfl : c.program w chainId = t := Option.some.inj ht
        exact program_honest chainId c known done
      | succ n =>
        rw [hk] at ht
        cases ht

theorem traced_asked (h : Traced up evm order stored w chainId b events) {i : ℕ} {hop : Hop F}
    {rest : hop.Answer → Program F SurfaceReply}
    (hhop : (surfaces up evm order stored w chainId b events).requests[i]?
      = some (.ask hop rest)) :
    Traced up evm order stored w chainId b (events ++ [.move i]) := by
  have hlt := (List.getElem?_eq_some_iff.mp hhop).1
  have hmoved := surfaces_move up evm order stored w chainId b events i
  simp only [Crowd.step, hhop] at hmoved
  obtain ⟨call, hcall⟩ : ∃ call, (events.filterMap SurfaceEvent.made)[i]? = some call :=
    ⟨_, List.getElem?_eq_getElem (surfaces_length up evm order stored w chainId b events ▸ hlt)⟩
  obtain ⟨hasks, hdue⟩ := (h.left i call _ hcall hhop (fun _ => True)
    (Committed up evm order stored w chainId b events i) (fun _ _ => trivial) fun _ _ _ h => h).1
  refine ⟨fun id hash receipt hreceipt => ?_, fun k call' t hcall' ht known done hknown hdone => ?_⟩
  · simp only [hmoved, answer_table] at hreceipt
    exact table_moved h hcall hhop hasks hdue hreceipt
  · rw [made_unmade events rfl] at hcall'
    rw [hmoved] at ht
    by_cases hki : k = i
    · subst hki
      obtain rfl := Option.some.inj (hcall.symm.trans hcall')
      rw [List.getElem?_set_self hlt] at ht
      obtain rfl := Option.some.inj ht
      exact (left_later h _ hcall hhop hknown hdone).2 _
        (relays_moved h hcall hhop hasks hdue hknown hdone)
    · rw [List.getElem?_set_ne (Ne.symm hki)] at ht
      exact left_later h _ hcall' ht hknown hdone

/-- STEP LEMMA: receipts stay traced. -/
theorem traced_step (h : Traced up evm order stored w chainId b events) (event : SurfaceEvent F) :
    Traced up evm order stored w chainId b (events ++ [event]) := by
  have hrun := surfaces_append up evm order stored w chainId b events [event]
  cases event with
  | call c => exact traced_call h c
  | happen e =>
    refine traced_frame h rfl ?_ ?_
    · rw [hrun]
      exact happen_table up evm order e _
    · rw [hrun]
      rfl
  | move i =>
    by_cases hasked : ∃ hop rest,
      (surfaces up evm order stored w chainId b events).requests[i]? = some (.ask hop rest)
    · obtain ⟨hop, rest, hhop⟩ := hasked
      exact traced_asked h hhop
    · have hidle : surfaces up evm order stored w chainId b (events ++ [.move i])
          = surfaces up evm order stored w chainId b events := by
        rw [surfaces_move]
        simp only [Crowd.step]
        split
        · rename_i hop rest hhop
          exact absurd ⟨hop, rest, hhop⟩ hasked
        · rfl
      exact traced_frame h rfl (congrArg (·.store.rpcState) hidle) (congrArg (·.requests) hidle)

variable (up evm order stored w chainId) in
theorem traced_run (fallback : F) (blockEnv : BlockEnv) (events : List (SurfaceEvent F)) :
    Traced up evm order stored w chainId (.start fallback blockEnv) events := by
  induction events using List.reverseRecOn with
  | nil =>
    refine ⟨fun id hash receipt hreceipt => ?_, fun k call t hcall => ?_⟩
    · cases hreceipt
    · cases hcall
  | append_singleton events event ih => exact traced_step ih event

/-- NO RECEIPT OUT OF NOWHERE: whoever is answered a receipt has sent for it or asked for it by its
    hash, and it is the very one that was built of what the commit of a transaction came to on that
    session, or on the one that this was branched from before it was handed the entry, and so on. -/
theorem receipt_origin {fallback : F} {blockEnv : BlockEnv} {i : ℕ} {call : SurfaceCall}
    {receipt : Receipt} (hcall : (events.filterMap SurfaceEvent.made)[i]? = some call)
    (hanswer : (surfaces up evm order stored w chainId (.start fallback blockEnv)
      events).requests[i]? = some (.ret (.rpc (.ok (.receipt (some receipt)))))) :
    ∃ id, call.Concerns w id receipt.transactionHash ∧
      Origin up evm order stored w chainId (.start fallback blockEnv) receipt events id :=
  (traced_run up evm order stored w chainId fallback blockEnv events).left i call _ hcall hanswer
    (Answerable up evm order stored w chainId (.start fallback blockEnv) events call)
    (fun _ _ _ => True) (fun _ h => h) (fun _ _ _ _ => trivial) receipt rfl

end Runs

/-- The payment is sent and its receipt asked for at once. -/
def payingSync : List (SurfaceEvent Unit) :=
  opening ++
    [.call (.rpc 0 "eth_sendRawTransactionSync" [.string paymentText]), .move 1, .move 1, .move 1]

def paymentReceipt : Receipt := buildReceipt payment (.success 21000 []) 2

set_option maxRecDepth 10000 in
theorem receipt_origin_payment :
    ∃ id, SurfaceCall.Concerns paymentWire id paymentReceipt.transactionHash
        (.rpc 0 "eth_sendRawTransactionSync" [.string paymentText]) ∧
      Origin emptyUpstream obliging .some (fun _ _ => .error "no store") paymentWire 1 idleBackend
        paymentReceipt payingSync id := by
  have hcall : (payingSync.filterMap SurfaceEvent.made)[1]?
      = some (.rpc 0 "eth_sendRawTransactionSync" [.string paymentText]) := rfl
  have hanswer : (surfaces emptyUpstream obliging .some (fun _ _ => .error "no store") paymentWire 1
      (.start () ⟨1, 0, 0, 30000000⟩) payingSync).requests[1]?
        = some (.ret (.rpc (.ok (.receipt (some paymentReceipt))))) := by rfl
  exact receipt_origin hcall hanswer

end Forkyard
