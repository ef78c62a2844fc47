import Forkyard.Api.Fees

/-! Receipts that are polled for. A send that is answered has entered its receipt under the hash of its
    transaction, and there it stays: whoever asks for that hash from then on, in whatever case it is
    written, is answered a receipt of it, even when the session itself is gone, until the session is
    discarded over the same surface. A branch takes the receipts of its parent with it, so one that
    has drawn an id and is yet to hand it the entry may still write over what is there.

        send ──commit──▶ enter ──answered──▶ poll ──▶ receipt -/

namespace Forkyard

open Schemes

variable {F E : Type}

/-! ### The side table -/

abbrev SideTable := Map SessionId SessionRpcState

/-- `eth_getTransactionReceipt`. -/
def receiptOf (table : SideTable) (id : SessionId) (hash : B256) : Option Receipt :=
  (table.lookup id).bind fun entry => entry.receipts.lookup hash

/-- What a step of a request makes of the side table. -/
def Hop.table (table : SideTable) : Hop F → SideTable
  | .enter id realStart tx result =>
    table.insert id (((table.lookup id).getD .default).enter realStart tx result).2
  | .inherit parent child =>
    match table.lookup parent with
    | some inherited => table.insert child inherited
    | none => table
  | .remove id => table.erase id
  | _ => table

section Spec

variable [ToString E] (up : F → Upstream E) (evm : Evm E) (order : HashOrder)
  (stored : UInt64 → SessionState → Except String SnapshotInfo)

theorem send_table (b : Backend F) (id : SessionId) (opening : Opening F) :
    (b.send up evm order id opening).rpcState = b.rpcState := by
  by_cases hid : id ∈ b.unsent
  · obtain ⟨sessions, hsend, -⟩ := send_spec up evm order b id opening hid
    rw [hsend]
  · rw [Backend.send, if_neg hid]

/-- SPEC of the side table. -/
theorem answer_table (hop : Hop F) (b : Backend F) :
    (Backend.answer up evm order stored hop b).2.rpcState = hop.table b.rpcState := by
  cases hop with
  | job job =>
    obtain ⟨-, sessions, hserve, -⟩ := Backend.serve_spec up evm order b job.1
    simp only [Backend.answer, hserve, Hop.table]
  | send id opening => exact send_table up evm order b id opening
  | inherit parent child =>
    simp only [Backend.answer, Hop.table]
    cases b.rpcState.lookup parent <;> rfl
  | _ => rfl

theorem happen_table (happening : Happening F) (b : Backend F) :
    (b.happen up evm order happening).rpcState = b.rpcState := by
  cases happening with
  | send id opening => exact send_table up evm order b id opening
  | _ => rfl

end Spec

section Table

variable (F) (table : SideTable) (id : SessionId) (hash : B256)

/-- A receipt that is entered is there, and every other that was. -/
theorem receipt_enter (id' : SessionId) (realStart : UInt64) (tx : LegacyTx)
    (result : ExecutionResult) :
    receiptOf (Hop.table table (.enter id' realStart tx result : Hop F)) id hash
      = if id = id' ∧ hash = tx.hash
        then some (((table.lookup id').getD .default).enter realStart tx result).1
        else receiptOf table id hash := by
  rw [receiptOf, Hop.table, Map.lookup_insert_eq]
  by_cases hid : id = id'
  · subst hid
    simp only [if_true, Option.bind_some, SessionRpcState.enter, true_and]
    rw [Map.lookup_insert_eq]
    split
    · rfl
    · rw [receiptOf]
      cases table.lookup id with
      | none => rfl
      | some entry => rfl
  · rw [if_neg hid, if_neg fun h => hid h.1]
    rfl

theorem receipt_inherit (parent child : SessionId) :
    receiptOf (Hop.table table (.inherit parent child : Hop F)) id hash
      = if id = child ∧ (table.lookup parent).isSome then receiptOf table parent hash
        else receiptOf table id hash := by
  rw [Hop.table]
  cases hparent : table.lookup parent with
  | none => simp
  | some inherited =>
    dsimp only
    rw [receiptOf, Map.lookup_insert_eq]
    by_cases hid : id = child
    · simp [hid, receiptOf, hparent]
    · simp [hid, receiptOf]

theorem receipt_remove (id' : SessionId) :
    receiptOf (Hop.table table (.remove id' : Hop F)) id hash
      = if id = id' then none else receiptOf table id hash := by
  rw [receiptOf, Hop.table, Map.lookup_erase_eq]
  split <;> rfl

end Table

/-! ### What is kept -/

/-- The side table has a receipt of that hash for the session, and unless it may have been entered
    again it is such a one. -/
def Backend.Receipted (id : SessionId) (hash : B256) (again : Prop) (Φ : Receipt → Prop)
    (b : Backend F) : Prop :=
  ∃ receipt, receiptOf b.rpcState id hash = some receipt ∧ receipt.transactionHash = hash ∧
    (again ∨ Φ receipt)

/-- The step takes no receipt of that hash away from the session. -/
def Hop.Keeps (id : SessionId) (hash : B256) (again : Prop) : Hop F → Prop
  | .enter id' _ tx _ => id' = id → tx.hash = hash → again
  | .inherit _ child => child ≠ id
  | .remove id' => id' ≠ id
  | _ => True

/-- The session's id is not drawn anew. -/
def Hop.Spent (id : SessionId) : (hop : Hop F) → hop.Answer → Prop
  | .draw, (id' : SessionId) => id' ≠ id
  | _, _ => True

section Kept

variable {id : SessionId} {hash : B256} {again : Prop} {Φ : Receipt → Prop}

/-- STEP LEMMA: a receipt that is there stays there. -/
theorem receipted_table {b b' : Backend F} {hop : Hop F} (hkeeps : hop.Keeps id hash again)
    (h : b.Receipted id hash again Φ) (htable : b'.rpcState = hop.table b.rpcState) :
    b'.Receipted id hash again Φ := by
  obtain ⟨receipt, hreceipt, hhash, hΦ⟩ := h
  have hsame : receiptOf (hop.table b.rpcState) id hash = receiptOf b.rpcState id hash →
      b'.Receipted id hash again Φ := fun heq =>
    ⟨receipt, by rw [htable, heq, hreceipt], hhash, hΦ⟩
  cases hop with
  | enter id' realStart tx result =>
    have hentered := receipt_enter F b.rpcState id hash id' realStart tx result
    by_cases hown : id = id' ∧ hash = tx.hash
    · rw [if_pos hown, ← htable] at hentered
      exact ⟨_, hentered, hown.2.symm, .inl (hkeeps hown.1.symm hown.2.symm)⟩
    · exact hsame (hentered.trans (if_neg hown))
  | inherit parent child =>
    refine hsame ((receipt_inherit F b.rpcState id hash parent child).trans (if_neg ?_))
    exact fun h => hkeeps h.1.symm
  | remove id' =>
    exact hsame ((receipt_remove F b.rpcState id hash id').trans (if_neg (Ne.symm hkeeps)))
  | _ => exact hsame rfl

variable [ToString E] {up : F → Upstream E} {evm : Evm E} {order : HashOrder}
  {stored : UInt64 → SessionState → Except String SnapshotInfo} {b : Backend F}

/-- An id that is in use is not drawn before ids start over. -/
theorem spent_answer {Ψ : BlockEnv → Prop} (h : b.At id Ψ) (hop : Hop F) :
    (Backend.answer up evm order stored hop b).2.Worn ∨
      hop.Spent id (Backend.answer up evm order stored hop b).1 := by
  cases hop with
  | draw =>
    by_cases hagain : UInt64.ofNat b.nextId = id
    · left
      rcases h.opened with hworn | ⟨hid, -⟩
      · exact worn_answer .draw b hworn
      · exact Nat.lt_succ_of_le (drawn_once hid hagain.symm)
    · exact .inr hagain
  | _ => exact .inr trivial

/-- STEP LEMMA: neither is the receipt taken away nor the id drawn anew. -/
theorem kept_answer {hop : Hop F} (hkeeps : hop.Keeps id hash again)
    (h : b.At id (fun _ => True) ∧ b.Receipted id hash again Φ) :
    (Backend.answer up evm order stored hop b).2.Worn ∨
      (hop.Spent id (Backend.answer up evm order stored hop b).1 ∧
        (Backend.answer up evm order stored hop b).2.At id (fun _ => True) ∧
          (Backend.answer up evm order stored hop b).2.Receipted id hash again Φ) := by
  rcases at_befell h.1 (answer_befell up evm order stored hop id b) with hworn | hat
  · exact .inl hworn
  · exact (spent_answer h.1 hop).imp_right fun hspent =>
      ⟨hspent, hat, receipted_table hkeeps h.2 (answer_table up evm order stored hop b)⟩

theorem kept_happen (happening : Happening F)
    (h : b.At id (fun _ => True) ∧ b.Receipted id hash again Φ) :
    (b.happen up evm order happening).Worn ∨
      ((b.happen up evm order happening).At id (fun _ => True) ∧
        (b.happen up evm order happening).Receipted id hash again Φ) := by
  refine (at_befell h.1 (happen_befell up evm order happening id b)).imp_right fun hat =>
    ⟨hat, ?_⟩
  obtain ⟨receipt, hreceipt, hrest⟩ := h.2
  exact ⟨receipt, by rw [happen_table]; exact hreceipt, hrest⟩

end Kept

/-! ### What a send ensures and a poll is told -/

/-- The answer names the transaction by its hash, or is the receipt itself. -/
inductive SurfaceReply.Gives (tx : LegacyTx) (receipt : Receipt) : SurfaceReply → Prop
  | hash : Gives tx receipt (.rpc (.ok (.text (wordText tx.hash.toNat))))
  | receipt : Gives tx receipt (.rpc (.ok (.receipt (some receipt))))

/-- The answer is a receipt of that hash, and unless it may have been entered again such a one. -/
def SurfaceReply.Finds (hash : B256) (again : Prop) (Φ : Receipt → Prop) (r : SurfaceReply) : Prop :=
  ∃ receipt, r = .rpc (.ok (.receipt (some receipt))) ∧ receipt.transactionHash = hash ∧
    (again ∨ Φ receipt)

/-- What is left of a branch that has drawn the id: its session is yet to be sent for, or to be handed
    the entry of its parent. -/
def Program.Bequeaths {R : Type} (id : SessionId) : Program F R → Prop
  | .ask (.send child _) _ => child = id
  | .ask (.inherit _ child) _ => child = id
  | _ => False

section Programs

variable [ToString E] {up : F → Upstream E} {evm : Evm E} {order : HashOrder}
  {stored : UInt64 → SessionState → Except String SnapshotInfo} {w : Wire} {chainId : UInt64}
  {id : SessionId} {hash : B256} {again : Prop} {Φ : Receipt → Prop} {call : SurfaceCall}

/-- A poll is answered in one step, and told of a receipt that is there. -/
theorem poll_tells (h : call.Polls id hash) :
    (call.program w chainId : Program F SurfaceReply).Tells (Backend.answer up evm order stored)
      Backend.Sound (fun b => b.At id (fun _ => True) ∧ b.Receipted id hash again Φ)
      (SurfaceReply.Finds hash again Φ) := by
  cases h with
  | poll hs hhash =>
    refine tells_map SurfaceReply.rpc ?_
    rw [dispatch_handle .ethGetTransactionReceipt rfl]
    simp only [Wire.handle, Wire.ethGetTransactionReceipt, hs, proceed, hhash]
    rintro b - ⟨-, receipt, hreceipt, hfound⟩
    refine ⟨_, ?_, receipt, rfl, hfound⟩
    exact congrArg (fun receipt => Tree.ret (Except.ok (Answered.receipt receipt))) hreceipt

variable (id hash again) in
/-- What is left of the request takes no receipt away from the session, or has drawn its id. -/
def Program.Spares (t : Program F SurfaceReply) : Prop :=
  t.Within (Hop.Spent id) (Hop.Keeps id hash again) (fun _ => True) ∨ Program.Bequeaths id t

omit [ToString E] in
/-- A branch, to begin with and whatever is left of it. -/
theorem branch_spares {parent : SessionId} (h : call.Branches parent) :
    (call.program w chainId : Program F SurfaceReply).Within (Hop.Spent id) (Hop.Keeps id hash again)
        (fun _ => True) ∧
      (call.program w chainId : Program F SurfaceReply).Always (Program.Spares id hash again) := by
  cases h with
  | forkFrom params =>
    rw [SurfaceCall.program, dispatch_handle .forkyardForkFrom rfl]
    simp only [Wire.handle, Wire.forkyardForkFrom, request]
    refine ⟨?within, .inl ?within, fun reply => ?_⟩
    case within =>
      refine ⟨trivial, fun reply _ => ?_⟩
      dsimp only
      cases gotBranch reply with
      | error e => exact trivial
      | ok s =>
        exact ⟨trivial, fun child hspent => ⟨trivial, fun _ _ => ⟨hspent, fun _ _ => trivial⟩⟩⟩
    · dsimp only
      cases gotBranch reply with
      | error e => exact .inl trivial
      | ok s =>
        refine ⟨.inl ⟨trivial, fun child hspent => ⟨trivial, fun _ _ =>
          ⟨hspent, fun _ _ => trivial⟩⟩⟩, fun (child : SessionId) => ?_⟩
        by_cases hown : child = id
        · exact ⟨.inr hown, fun _ => ⟨.inr hown, fun _ => .inl trivial⟩⟩
        · exact ⟨.inl ⟨trivial, fun _ _ => ⟨hown, fun _ _ => trivial⟩⟩, fun _ =>
            ⟨.inl ⟨hown, fun _ _ => trivial⟩, fun _ => .inl trivial⟩⟩

omit [ToString E] in
/-- A request takes no receipt away from the session, unless it is to discard it, nor does whatever is
    left of it, unless it has drawn its id. -/
theorem program_spares (hdiscards : ¬ call.Discards id)
    (hsends : ∀ tx, call.Sends w id tx → tx.hash = hash → again) :
    (call.program w chainId : Program F SurfaceReply).Within (Hop.Spent id) (Hop.Keeps id hash again)
        (fun _ => True) ∧
      (call.program w chainId : Program F SurfaceReply).Always (Program.Spares id hash again) := by
  by_cases hbranches : ∃ parent, call.Branches parent
  · obtain ⟨parent, hparent⟩ := hbranches
    exact branch_spares hparent
  · have honly : (call.program w chainId : Program F SurfaceReply).Only (Hop.Keeps id hash again) := by
      refine within_only (fun hop hasks => ?_) (program_within w chainId call)
      cases hop with
      | enter id' realStart tx result =>
        rintro rfl
        exact hsends tx hasks
      | inherit parent child => exact absurd ⟨parent, hasks⟩ hbranches
      | remove id' =>
        rintro rfl
        exact hdiscards hasks
      | _ => exact trivial
    exact ⟨only_within honly, only_always (fun t ht => .inl (only_within ht)) honly⟩

variable (F chainId) in
omit [ToString E] in
/-- Every send comes down to a commit and what is left of it. -/
theorem send_program {tx : LegacyTx} (h : call.Sends w id tx) :
    ∃ sync, (call.program w chainId : Program F SurfaceReply)
      = (request ⟨.read id (.advance tx.env), rfl⟩ gotExecuted w.tell fun result =>
          Wire.sent id tx result sync : Rpc F).map SurfaceReply.rpc := by
  cases h with
  | send htx =>
    refine ⟨false, ?_⟩
    rw [SurfaceCall.program, dispatch_handle .ethSendRawTransaction rfl]
    simp only [Wire.handle, Wire.ethSendRawTransaction, htx, proceed]
  | sendSync htx =>
    refine ⟨true, ?_⟩
    rw [SurfaceCall.program, dispatch_handle .ethSendRawTransactionSync rfl]
    simp only [Wire.handle, Wire.ethSendRawTransaction, htx, proceed]

/-- A send that is answered has found its session there. -/
theorem send_leads {tx : LegacyTx} (h : call.Sends w id tx) :
    (call.program w chainId : Program F SurfaceReply).Leads up evm order stored
      (fun r b => ¬ r.Failed → b.At id fun _ => True) fun _ => True := by
  obtain ⟨sync, hprogram⟩ := send_program F chainId h
  rw [hprogram]
  refine leads_map SurfaceReply.rpc (leads_ask fun b hb _ => ?_)
  have hreply := (serve_own up evm order id b (.read id (.advance tx.env)) rfl).1
  simp only [Backend.answer]
  cases hs : b.sessions.lookup id with
  | none =>
    rw [hreply, hs]
    exact ⟨_, true_stable up evm order stored, trivial, fun b _ hok => absurd ⟨_, rfl⟩ hok⟩
  | some s =>
    refine ⟨_, at_stable up evm order stored id fun _ => True, at_session hb hs trivial, ?_⟩
    cases gotExecuted (b.serve up evm order (.read id (.advance tx.env))).1 with
    | error e => exact fun b _ hok => absurd ⟨_, rfl⟩ hok
    | ok result =>
      have hgood : ∀ (r : Except RpcErrorObj Answered) (b : Backend F), ¬ Failed r →
          b.At id (fun _ => True) → ¬ (SurfaceReply.rpc r).Failed → b.At id fun _ => True :=
        fun _ _ _ hat _ => hat
      exact leads_all hgood (at_stable up evm order stored id fun _ => True)
        (sent_all id tx result sync)

theorem ensures_sessionBlockEnv {R : Type} {P : Backend F → Prop} {good : R → Prop}
    {k : BlockEnv → Program F R} (hends : ∀ env r, k env ≠ .ret r)
    (hk : ∀ env, (k env).Ensures (Backend.answer up evm order stored) Backend.Sound P good) :
    (sessionBlockEnv id k).Ensures (Backend.answer up evm order stored) Backend.Sound P good := by
  have hblock : ∀ b r, Backend.Sound b →
      k (Backend.answer up evm order stored .blockEnv b).1 = .ret r → good r →
        P (Backend.answer up evm order stored .blockEnv b).2 := fun b r _ hret =>
    absurd hret (hends _ r)
  refine ⟨fun b r _ hret => ?_, fun reply => ?_⟩
  · dsimp only at hret
    split at hret
    · exact absurd hret (hends _ r)
    · cases hret
  · dsimp only
    split
    · exact hk _
    · exact ⟨hblock, hk⟩

/-- A send that is answered has entered its receipt, and answers with it or with its hash. -/
theorem send_ensures {tx : LegacyTx} (h : call.Sends w id tx) (r : SurfaceReply) :
    (call.program w chainId : Program F SurfaceReply).Ensures (Backend.answer up evm order stored)
      Backend.Sound (Backend.Receipted id tx.hash again fun receipt => r.Gives tx receipt)
      fun r' => r' = r ∧ ¬ r'.Failed := by
  obtain ⟨sync, hprogram⟩ := send_program F chainId h
  rw [hprogram]
  refine ensures_map SurfaceReply.rpc (ensures_request (fun e h => h.2 ⟨e, rfl⟩)
    (by rintro _ _ _ _ ⟨⟩) fun result => ensures_sessionBlockEnv (fun env r => ?_) fun env => ?_)
  · split <;> rintro ⟨⟩
  · split
    · rename_i realStart hheight
      refine ⟨fun b r' _ hret hgood => ?_, fun _ => trivial⟩
      have hentered := (receipt_enter F b.rpcState id tx.hash id realStart tx result).trans
        (if_pos ⟨rfl, rfl⟩)
      rw [← answer_table up evm order stored] at hentered
      refine ⟨_, hentered, rfl, .inr ?_⟩
      obtain ⟨rfl, -⟩ := hgood
      obtain rfl := Tree.ret.inj hret
      cases sync with
      | true => exact .receipt
      | false => exact .hash
    · exact trivial

section Runs

variable {b : Backend F} {before after : List (SurfaceEvent F)}

omit [ToString E] in
/-- An event that makes no request. -/
theorem made_unmade (events : List (SurfaceEvent F)) {event : SurfaceEvent F}
    (h : event.made = none) :
    (events ++ [event]).filterMap SurfaceEvent.made = events.filterMap SurfaceEvent.made := by
  rw [List.filterMap_append, List.filterMap_cons_none h]
  exact List.append_nil _

variable (up evm order stored w chainId b before) in
theorem surfaces_move (i : ℕ) :
    surfaces up evm order stored w chainId b (before ++ [.move i])
      = (surfaces up evm order stored w chainId b before).step (Backend.answer up evm order stored)
          (fun e b => b.happen up evm order e) (.move i) :=
  surfaces_append up evm order stored w chainId b before [.move i]

variable (up evm order stored w chainId) in
/-- What one answer after another keeps of a request holds of what is left of it. -/
theorem surfaces_stage (hb : b.Sound) (Stage : ℕ → Program F SurfaceReply → Prop)
    (hasked : ∀ k hop rest (b : Backend F), Stage k (.ask hop rest) →
      Stage k (rest (Backend.answer up evm order stored hop b).1))
    (hmade : ∀ k call, (before.filterMap SurfaceEvent.made)[k]? = some call →
      Stage k (call.program w chainId)) :
    (surfaces up evm order stored w chainId b before).store.Sound ∧
      ∀ k t, (surfaces up evm order stored w chainId b before).requests[k]? = some t →
        Stage k t := by
  refine (rely_run (V := fun _ => False) (P := Backend.Sound) (fun _ _ h => h) (fun _ _ h => h) Stage
    (fun k hop rest b _ hb hk => .inr ⟨sound_answer hop b hb, hasked k hop rest b hk⟩)
    (fun e b _ hb => .inr (sound_happen e b hb)) hb fun k t ht => ?_).resolve_left id
  rw [Crowd.start, List.nil_append, made_events, List.getElem?_map, Option.map_eq_some_iff] at ht
  obtain ⟨call, hcall, rfl⟩ := ht
  exact hmade k call hcall

/-- A send has been answered: its session is there or gone, its receipt is entered, and of whatever is
    under way nothing that moves on takes it away. -/
theorem send_answered (hb : b.Sound) {i : ℕ} {send : SurfaceCall} {tx : LegacyTx} {r : SurfaceReply}
    (hsend : (before.filterMap SurfaceEvent.made)[i]? = some send) (hsends : send.Sends w id tx)
    (hwaits : ∀ r, (surfaces up evm order stored w chainId b before).requests[i]? ≠ some (.ret r))
    (hends : (surfaces up evm order stored w chainId b (before ++ [.move i])).requests[i]?
      = some (.ret r)) (hok : ¬ r.Failed)
    (hspared : ∀ k call, .move k ∈ after → k ≠ i →
      (before.filterMap SurfaceEvent.made)[k]? = some call →
        (call.program w chainId : Program F SurfaceReply).Always (Program.Spares id tx.hash again))
    (hsettled : ∀ k t, .move k ∈ after →
      (surfaces up evm order stored w chainId b before).requests[k]? = some t →
        ¬ Program.Bequeaths id t) :
    (surfaces up evm order stored w chainId b (before ++ [.move i])).store.Worn ∨
      ((surfaces up evm order stored w chainId b (before ++ [.move i])).store.At id (fun _ => True) ∧
        (surfaces up evm order stored w chainId b (before ++ [.move i])).store.Receipted id tx.hash
          again fun receipt => r.Gives tx receipt) ∧
      ∀ k t, .move k ∈ after →
        (surfaces up evm order stored w chainId b (before ++ [.move i])).requests[k]? = some t →
          t.Within (Hop.Spent id) (Hop.Keeps id tx.hash again) fun _ => True := by
  have hcall : ((before ++ [(.move i : SurfaceEvent F)]).filterMap SurfaceEvent.made)[i]?
      = some send := by
    rw [List.filterMap_append, List.getElem?_append_left (List.getElem?_eq_some_iff.mp hsend).1,
      hsend]
  have hat := surfaces_leads hb hcall (send_leads hsends) hends
  -- what is left of every request, just before the send is answered
  obtain ⟨hsound, hstage⟩ := surfaces_stage up evm order stored w chainId hb
    (fun k t => (k = i → t.Ensures (Backend.answer up evm order stored) Backend.Sound
        (Backend.Receipted id tx.hash again fun receipt => r.Gives tx receipt)
        fun r' => r' = r ∧ ¬ r'.Failed) ∧
      (.move k ∈ after → k ≠ i → t.Always (Program.Spares id tx.hash again)))
    (fun k hop rest b hk =>
      ⟨fun hki => (hk.1 hki).2 _, fun hafter hki => (hk.2 hafter hki).2 _⟩)
    fun k call hk => by
      refine ⟨?_, fun hafter hki => hspared k call hafter hki hk⟩
      rintro rfl
      obtain rfl := Option.some.inj (hsend.symm.trans hk)
      exact send_ensures hsends r
  rw [surfaces_move] at hends hat ⊢
  refine hat.imp_right fun hat => ⟨⟨hat hok, ?_⟩, fun k t hafter hk => ?_⟩
  · exact ensured_now hsound (fun t ht => (hstage i t ht).1 rfl) hwaits hends ⟨rfl, hok⟩
  · by_cases hki : k = i
    · subst hki
      rw [hends] at hk
      exact Option.some.inj hk ▸ trivial
    · have hleft := (step_others hki).symm.trans hk
      exact (always_now ((hstage k t hleft).2 hafter hki)).resolve_right
        (hsettled k t hafter hleft)

end Runs

/-- The transaction may have been committed on the session once more. -/
def Resent (w : Wire) (id : SessionId) (hash : B256) (i : ℕ) (calls : List SurfaceCall)
    (after : List (SurfaceEvent F)) : Prop :=
  ∃ k call tx, .move k ∈ after ∧ k ≠ i ∧ calls[k]? = some call ∧ call.Sends w id tx ∧ tx.hash = hash

/-- READ BACK: from when a send is answered until a discard of its session moves, whoever polls for
    its transaction is told a receipt of it, and where it is not sent again the very one that the send
    has answered with; unless the send was told of an id that a branch under way had yet to use. -/
theorem receipt_read_back {b : Backend F} (hb : b.Sound) {before after : List (SurfaceEvent F)}
    {i j : ℕ} {send poll : SurfaceCall} {tx : LegacyTx} {r : SurfaceReply}
    (hsend : (before.filterMap SurfaceEvent.made)[i]? = some send) (hsends : send.Sends w id tx)
    (hwaits : ∀ r, (surfaces up evm order stored w chainId b before).requests[i]? ≠ some (.ret r))
    (hends : (surfaces up evm order stored w chainId b (before ++ [.move i])).requests[i]?
      = some (.ret r)) (hok : ¬ r.Failed)
    (hspared : ∀ k call, .move k ∈ after →
      (before.filterMap SurfaceEvent.made ++ after.filterMap SurfaceEvent.made)[k]? = some call →
        ¬ call.Discards id)
    (hsettled : ∀ k t, .move k ∈ after →
      (surfaces up evm order stored w chainId b before).requests[k]? = some t →
        ¬ Program.Bequeaths id t)
    (hpoll : (after.filterMap SurfaceEvent.made)[j]? = some poll) (hpolls : poll.Polls id tx.hash)
    (hids : (surfaces up evm order stored w chainId b (before ++ .move i :: after)).store.nextId
      ≤ 2 ^ 64) :
    ∃ t, (surfaces up evm order stored w chainId b (before ++ .move i :: after)).requests[
        (before.filterMap SurfaceEvent.made).length + j]? = some t ∧
      (t = poll.program w chainId ∨ ∃ r', t = .ret r' ∧ r'.Finds tx.hash
        (Resent w id tx.hash i
          (before.filterMap SurfaceEvent.made ++ after.filterMap SurfaceEvent.made) after)
        fun receipt => r.Gives tx receipt) := by
  have hspares : ∀ k call, .move k ∈ after → k ≠ i →
      (before.filterMap SurfaceEvent.made ++ after.filterMap SurfaceEvent.made)[k]? = some call →
      (call.program w chainId : Program F SurfaceReply).Within (Hop.Spent id) (Hop.Keeps id tx.hash
          (Resent w id tx.hash i
            (before.filterMap SurfaceEvent.made ++ after.filterMap SurfaceEvent.made) after))
          (fun _ => True) ∧
        (call.program w chainId : Program F SurfaceReply).Always (Program.Spares id tx.hash
          (Resent w id tx.hash i
            (before.filterMap SurfaceEvent.made ++ after.filterMap SurfaceEvent.made) after)) :=
    fun k call hafter hki hcall => program_spares (hspared k call hafter hcall)
      fun tx' hsends' hhash => ⟨k, call, tx', hafter, hki, hcall, hsends', hhash⟩
  have hanswered := send_answered hb hsend hsends hwaits hends hok
    (fun k call hafter hki hcall => (hspares k call hafter hki
      ((List.getElem?_append_left (List.getElem?_eq_some_iff.mp hcall).1).trans hcall)).2) hsettled
  have hsound : (surfaces up evm order stored w chainId b (before ++ [.move i])).store.Sound :=
    store_run sound_answer sound_happen _ hb
  have hlength := surfaces_length up evm order stored w chainId b (before ++ [.move i])
  rw [made_unmade before rfl] at hlength
  rw [List.append_cons, surfaces_append] at hids ⊢
  rw [← hlength]
  rcases hanswered with hworn | ⟨hkept, hleft⟩
  · exact absurd (store_run worn_answer worn_happen _ hworn) (Nat.not_lt.mpr hids)
  refine (told_run worn_answer worn_happen sound_answer sound_happen (Hop.Spent id) hsound hkept
    (fun hop b hkeeps _ h => kept_answer hkeeps h) (fun k t hafter hk => ?_)
    (fun e b _ _ h => kept_happen e h) ?_ (poll_tells hpolls)).resolve_left (Nat.not_lt.mpr hids)
  · rcases Nat.lt_or_ge k
      (surfaces up evm order stored w chainId b (before ++ [.move i])).requests.length with hlt | hge
    · rw [List.getElem?_append_left hlt] at hk
      exact hleft k t (moved_events hafter) hk
    · rw [List.getElem?_append_right hge, made_events, List.getElem?_map,
        Option.map_eq_some_iff] at hk
      obtain ⟨call, hcall, rfl⟩ := hk
      rw [hlength] at hcall hge
      refine (hspares k call (moved_events hafter) ?_ ?_).1
      · rintro rfl
        exact absurd (List.getElem?_eq_some_iff.mp hsend).1 (Nat.not_lt.mpr hge)
      · rw [List.getElem?_append_right hge]
        exact hcall
  · rw [made_events, List.getElem?_map, hpoll, Option.map_some]

end Programs

/-- A payment of one ether, signed for chain 1. -/
def payment : LegacyTx where
  hash := 0x33469b22e9f636356c4160a87eb19df52b7412e8eac32a4a55ffe88ea8350788
  signer := 0x9d8a62f656a8d1615c1294fd71e9cfb3e4855a4f
  kind := .call 0x3535353535353535353535353535353535353535
  value := 1000000000000000000
  input := []
  gasLimit := 21000
  gasPrice := 20000000000
  nonce := 9
  chainId := some 1

def paymentText : String :=
  "0xf86c098504a817c800825208943535353535353535353535353535353535353535880de0b6b3a76400008025a0" ++
    "28ef61340bd939bc2195fe537567866003e1a15d3c71ff63e1590620aa636276a0" ++
    "67cbe9d8997f761aecb703304b3800ccf555c9f3dc64214b297fb1966a3b6d83"

def paymentRaw : Bytes :=
  [0xf8, 0x6c, 0x09, 0x85, 0x04, 0xa8, 0x17, 0xc8, 0x00, 0x82, 0x52, 0x08, 0x94, 0x35, 0x35, 0x35,
    0x35, 0x35, 0x35, 0x35, 0x35, 0x35, 0x35, 0x35, 0x35, 0x35, 0x35, 0x35, 0x35, 0x35, 0x35, 0x35,
    0x35, 0x88, 0x0d, 0xe0, 0xb6, 0xb3, 0xa7, 0x64, 0x00, 0x00, 0x80, 0x25, 0xa0, 0x28, 0xef, 0x61,
    0x34, 0x0b, 0xd9, 0x39, 0xbc, 0x21, 0x95, 0xfe, 0x53, 0x75, 0x67, 0x86, 0x60, 0x03, 0xe1, 0xa1,
    0x5d, 0x3c, 0x71, 0xff, 0x63, 0xe1, 0x59, 0x06, 0x20, 0xaa, 0x63, 0x62, 0x76, 0xa0, 0x67, 0xcb,
    0xe9, 0xd8, 0x99, 0x7f, 0x76, 0x1a, 0xec, 0xb7, 0x03, 0x30, 0x4b, 0x38, 0x00, 0xcc, 0xf5, 0x55,
    0xc9, 0xf3, 0xdc, 0x64, 0x21, 0x4b, 0x29, 0x7f, 0xb1, 0x96, 0x6a, 0x3b, 0x6d, 0x83]

/-- The payment is the one text it reads, and the one legacy transaction. -/
def paymentWire : Wire :=
  { numeralWire with
    hex := { numeralHex with
      bytes := fun s => if s = paymentText then .ok paymentRaw else .error "invalid character" }
    decode2718 := fun raw =>
      match raw with
      | [] => .error "input too short"
      | byte :: _ =>
        if byte ≤ 0x7f then .ok .typed
        else .ok (.legacy (fun signer => { payment with signer }) (.ok payment.signer)) }

def capitalHash : String := "0x33469B22E9F636356C4160A87EB19DF52B7412E8EAC32A4A55FFE88EA8350788"

theorem capitalHash_read : hashOf capitalHash.toLower = some payment.hash := by decide +kernel

set_option maxRecDepth 10000 in
theorem payment_signed : paymentWire.signedTx [.string paymentText] = .ok payment := by rfl

/-- The payment is sent, but for the entry of its receipt. -/
def paying : List (SurfaceEvent Unit) :=
  opening ++ [.call (.rpc 0 "eth_sendRawTransaction" [.string paymentText]), .move 1, .move 1]

/-- It is polled for in capitals, while its session is being branched. -/
def polling : List (SurfaceEvent Unit) :=
  [.call (.rpc 0 "forkyard_forkFrom" []), .move 2, .move 2,
    .call (.rpc 0 "eth_getTransactionReceipt" [.string capitalHash]), .move 3]

set_option maxRecDepth 10000 in
theorem receipt_read_back_capitals :
    ∃ t, (surfaces emptyUpstream obliging .some (fun _ _ => .error "no store") paymentWire 1
        idleBackend (paying ++ .move 1 :: polling)).requests[
          (paying.filterMap SurfaceEvent.made).length + 1]? = some t ∧
      (t = SurfaceCall.program paymentWire 1
          (.rpc 0 "eth_getTransactionReceipt" [.string capitalHash]) ∨
        ∃ r', t = .ret r' ∧ r'.Finds payment.hash
          (Resent paymentWire 0 payment.hash 1
            (paying.filterMap SurfaceEvent.made ++ polling.filterMap SurfaceEvent.made) polling)
          fun receipt =>
            (SurfaceReply.rpc (.ok (.text (wordText payment.hash.toNat)))).Gives payment receipt) := by
  have hwaits : ∀ r, (surfaces emptyUpstream obliging .some (fun _ _ => .error "no store")
      paymentWire 1 idleBackend paying).requests[1]? ≠ some (.ret r) := by
    intro r h
    cases h
  have hends : (surfaces emptyUpstream obliging .some (fun _ _ => .error "no store") paymentWire 1
      idleBackend (paying ++ [.move 1])).requests[1]?
        = some (.ret (.rpc (.ok (.text (wordText payment.hash.toNat))))) := by rfl
  have hcalls : paying.filterMap SurfaceEvent.made ++ polling.filterMap SurfaceEvent.made
      = [.tool .fork, .rpc 0 "eth_sendRawTransaction" [.string paymentText],
        .rpc 0 "forkyard_forkFrom" [],
        .rpc 0 "eth_getTransactionReceipt" [.string capitalHash]] := rfl
  have hmoved : ∀ k, (.move k : SurfaceEvent Unit) ∈ polling → k = 2 ∨ k = 3 := by
    intro k hk
    simpa [polling] using hk
  have hids : (surfaces emptyUpstream obliging .some (fun _ _ => .error "no store") paymentWire 1
      idleBackend (paying ++ .move 1 :: polling)).store.nextId ≤ 2 ^ 64 := by decide +kernel
  refine receipt_read_back (i := 1) (start_sound () ⟨1, 0, 0, 30000000⟩) rfl (.send payment_signed)
    hwaits hends (fun hfailed => ?_) (fun k call hk hcall hdiscards => ?_) (fun k t hk ht => ?_) rfl
    (.poll rfl capitalHash_read) hids
  · obtain ⟨e, h⟩ := hfailed
    cases h
  · cases hdiscards
    rw [hcalls] at hcall
    rcases hmoved k hk with rfl | rfl <;> simp at hcall
  · rcases hmoved k hk with rfl | rfl <;> cases ht

end Forkyard
