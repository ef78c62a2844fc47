import Forkyard.Session.Validation
import Forkyard.Api.ReadBack

/-! What a transaction must pay. A session stays at its block for as long as it lives, and its id is
    not given to another, so a price that suffices for it once suffices for it ever after: the
    basefee a transfer without a price is run at, the one an underpriced transfer is told, and the
    margin over it that `eth_gasPrice` answers, whatever happens between the answer and the
    transaction. Only a sum that wraps quotes too little.

        eth_gasPrice ──▶ basefee + margin ─┐
        underpriced ──▶ basefee ───────────┴──▶ transaction at that price ──▶ not refused for it -/

namespace Forkyard

open Schemes

variable {F E : Type}

/-! ### Prices that are refused -/

/-- A transaction is turned away for its price only below the basefee of its block. -/
def Revm.Priced (r : Revm E) : Prop :=
  ∀ cfg blockEnv tx, r.validateEnv cfg blockEnv tx = some .gasPriceLessThanBasefee →
    tx.gasPrice.toNat < blockEnv.basefee.toNat

/-- A run that comes to that rejection came to it by its price. -/
theorem Revm.underpriced_below {r : Revm E} (hr : r.Documented) (hpriced : r.Priced)
    {answer : (q : Query) → Answer E q} {cfg : CfgEnv} {blockEnv : BlockEnv} {tx : TxEnv}
    (h : (r.evm cfg blockEnv tx).eval answer
      = some (.error (.transaction .gasPriceLessThanBasefee))) :
    tx.gasPrice.toNat < blockEnv.basefee.toNat := by
  have hcourse := r.evm_course answer cfg blockEnv tx
  rw [h] at hcourse
  have hground := hr.named.1
  generalize hout : some (Except.error (EVMError.transaction .gasPriceLessThanBasefee)) = out
    at hcourse
  cases hcourse with
  | env henv =>
    cases hout
    exact hpriced cfg blockEnv tx henv
  | panicked => cases hout
  | caller henv hload =>
    cases hout
    rw [Tree.eval_all answer (hr.caller cfg tx) hload _ rfl] at hground
    cases hground
  | nonce henv hload hnonce =>
    cases hout
    rw [hr.nonceGround tx _ _ hnonce] at hground
    cases hground
  | balance henv hload hnonce hbalance =>
    cases hout
    rw [(hr.balance cfg tx _ _ hbalance).1] at hground
    cases hground
  | executed =>
    obtain ⟨outcome, -, hmap⟩ := Option.map_eq_some_iff.mp hout.symm
    cases outcome <;> cases hmap

section Jobs

variable [ToString E] {up : F → Upstream E} {order : HashOrder}

variable (up order) in
/-- A transfer, to be kept or not, is run as it is meant. -/
theorem transferJob_reply (evm : Evm E) (id : SessionId) (commit : Bool) (tx : TxEnv)
    (s : Session F) : (refStep up evm order (Wire.transferJob id commit tx).1 (some s)).1
      = ((evm .mainnet s.blockEnv tx).eval (s.view up).answer).map executedReply := by
  cases commit with
  | true => exact advance_reply up evm order id tx s
  | false =>
    simp only [Wire.transferJob, Bool.false_eq_true, if_false, refStep, serve_eval, Request.task,
      Task.answering, executeTask, Tree.eval_map, executePass_eval, Option.map_map]
    rfl

/-- A transfer that is refused for its price is below the basefee of its session. -/
theorem transfer_refused {r : Revm E} (hr : r.Documented) (hpriced : r.Priced) {id : SessionId}
    {commit : Bool} {tx : TxEnv} {slot : Option (Session F)}
    (h : gotExecuted (refStep up r.evm order (Wire.transferJob id commit tx).1 slot).1
      = .error (.session (.invalidTransaction .gasPriceLessThanBasefee))) :
    ∃ s, slot = some s ∧ tx.gasPrice.toNat < s.blockEnv.basefee.toNat := by
  cases slot with
  | none =>
    cases commit <;> cases h
  | some s =>
    refine ⟨s, rfl, ?_⟩
    rw [transferJob_reply] at h
    rcases heval : (r.evm .mainnet s.blockEnv tx).eval (s.view up).answer with _ | e | outcome
    · rw [heval] at h
      cases h
    · rw [heval] at h
      cases e with
      | other debug => cases h
      | transaction reason =>
        cases h
        exact Revm.underpriced_below hr hpriced heval
    · rw [heval] at h
      cases h

end Jobs

/-! ### Where a session is -/

/-- The id has been drawn and its session sent for. -/
def Backend.Opened (id : SessionId) (b : Backend F) : Prop := id.toNat < b.nextId ∧ id ∉ b.unsent

/-- The id's session has been sent for, and while it is there it is at such a block. -/
structure Backend.At (id : SessionId) (Φ : BlockEnv → Prop) (b : Backend F) : Prop where
  opened : b.Worn ∨ b.Opened id
  block : ∀ s, b.sessions.lookup id = some s → Φ s.blockEnv

section At

variable [ToString E] {up : F → Upstream E} {evm : Evm E} {order : HashOrder}
  {stored : UInt64 → SessionState → Except String SnapshotInfo} {b b' : Backend F}
  {id : SessionId} {Φ Ψ : BlockEnv → Prop}

omit [ToString E] in
theorem at_mono (hΦ : ∀ env, Φ env → Ψ env) (h : b.At id Φ) : b.At id Ψ :=
  ⟨h.opened, fun s hs => hΦ _ (h.block s hs)⟩

omit [ToString E] in
/-- A session that is there is where it is. -/
theorem at_session (hb : b.Sound) {s : Session F} (hs : b.sessions.lookup id = some s)
    (hΦ : Φ s.blockEnv) : b.At id Φ := by
  refine ⟨or_iff_not_imp_left.mpr fun hworn => ⟨(hb.sessions id s hs).1, fun hid => ?_⟩,
    fun s' hs' => ?_⟩
  · rw [(hb.unsent hworn id hid).2] at hs
    cases hs
  · rw [hs] at hs'
    exact Option.some.inj hs' ▸ hΦ

omit [ToString E] in
/-- One that is gone is anywhere. -/
theorem at_gone (h : b.At id Ψ) (hgone : b.sessions.lookup id = none) : b.At id Φ := by
  refine ⟨h.opened, fun s hs => ?_⟩
  rw [hgone] at hs
  cases hs

/-- No job but one that opens a session moves one to another block. -/
theorem refStep_block {job : Job F} (hopens : job.opens = false) {slot : Option (Session F)}
    {s' : Session F} (hs' : (refStep up evm order job slot).2 = some s') :
    ∃ s, slot = some s ∧ s'.blockEnv = s.blockEnv := by
  by_cases hplace : job.InPlace
  · have hblock : (refStep up evm order job slot).2.map Session.blockEnv
        = slot.map Session.blockEnv := refStep_inPlace hplace slot
    rw [hs'] at hblock
    obtain ⟨s, hs, heq⟩ := Option.map_eq_some_iff.mp hblock.symm
    exact ⟨s, hs, heq.symm⟩
  · cases job with
    | read id request => exact absurd trivial hplace
    | command c =>
      cases c with
      | discard id => cases hs'
      | fork id base fallback blockEnv seed => cases hopens
      | adopt id session => cases hopens
      | _ => exact absurd trivial hplace

/-- STEP LEMMA: a session stays where it is, and its id is not given to another. -/
theorem at_befell {served : Job F → Prop} (h : b.At id Φ)
    (hbefell : Befell up evm order served id b b') : b'.Worn ∨ b'.At id Φ := by
  rcases h.opened with hworn | ⟨hid, hsent⟩
  · exact .inl (by_contra fun h' => unworn_befell hbefell h' hworn)
  cases hbefell with
  | nothing hslot hnext hunsent =>
    exact .inr ⟨.inr ⟨hnext ▸ hid, fun hmem => hsent (hunsent.subset hmem)⟩,
      fun s hs => h.block s (hslot ▸ hs)⟩
  | drawn hslot hnext hunsent =>
    by_cases hagain : id = UInt64.ofNat b.nextId
    · have hworn := drawn_once hid hagain
      exact .inl (by unfold Backend.Worn; omega)
    · refine .inr ⟨.inr ⟨hnext ▸ Nat.lt_succ_of_lt hid, fun hmem => ?_⟩,
        fun s hs => h.block s (hslot ▸ hs)⟩
      rw [hunsent] at hmem
      exact (List.mem_append.mp hmem).elim hsent fun hnew => hagain (List.mem_singleton.mp hnew)
  | served job hjob hopens hsession hslot hnext hunsent =>
    refine .inr ⟨.inr ⟨hnext ▸ hid, hunsent ▸ hsent⟩, fun s' hs' => ?_⟩
    rw [hslot] at hs'
    obtain ⟨s, hs, heq⟩ := refStep_block hopens hs'
    exact heq ▸ h.block s hs
  | opened opening hmem hslot hnext hunsent => exact absurd hmem hsent

variable (up evm order stored id Φ) in
theorem at_stable : Stable (Backend.answer up evm order stored)
    (fun e b => b.happen up evm order e) Backend.Worn Backend.Sound (Backend.At id Φ) where
  asked hop b _ h := at_befell h (answer_befell up evm order stored hop id b)
  outside e b _ h := at_befell h (happen_befell up evm order e id b)

end At

/-! ### What is quoted, and what is accepted -/

section Programs

variable [ToString E] {ε A R : Type}

/-- The program comes to nothing but good results, relying on what sessions are at. -/
abbrev Program.Leads (up : F → Upstream E) (evm : Evm E) (order : HashOrder)
    (stored : UInt64 → SessionState → Except String SnapshotInfo) (good : R → Backend F → Prop)
    (t : Program F R) (P : Backend F → Prop) : Prop :=
  Tree.Leads (Backend.answer up evm order stored) (fun e b => b.happen up evm order e) Backend.Worn
    Backend.Sound good t P

variable {up : F → Upstream E} {evm : Evm E} {order : HashOrder}
  {stored : UInt64 → SessionState → Except String SnapshotInfo} {w : Wire} {chainId : UInt64}
  {id : SessionId} {P : Backend F → Prop} {good : Except ε R → Backend F → Prop}

theorem leads_proceed {e : Except ε A} {k : A → Program F (Except ε R)}
    (herror : ∀ x, e = .error x → ∀ b, good (.error x) b)
    (hk : ∀ a, (k a).Leads up evm order stored good P) :
    (proceed e k).Leads up evm order stored good P := by
  cases e with
  | error x => exact fun b _ => herror x rfl b
  | ok a => exact hk a

variable (up evm order stored) in
/-- Nothing is always stable. -/
theorem true_stable : Stable (Backend.answer up evm order stored)
    (fun e b => b.happen up evm order e) Backend.Worn Backend.Sound fun _ => True :=
  ⟨fun _ _ _ _ => .inr trivial, fun _ _ _ _ => .inr trivial⟩

/-- A session is asked for its block: it is there and at it, or it is missing. -/
theorem leads_blockEnvOf {good : R → Backend F → Prop} {k : Option (Reply F) → Program F R}
    {M : Backend F → Prop} (hM : Stable (Backend.answer up evm order stored)
      (fun e b => b.happen up evm order e) Backend.Worn Backend.Sound M)
    (hmissing : ∀ b, P b → b.sessions.lookup id = none → M b)
    (hthere : ∀ env : BlockEnv, (k (some (.blockEnv (.ok env)))).Leads up evm order stored good
      (Backend.At id (· = env)))
    (hnone : (k (some (.blockEnv (.error (.unknown id))))).Leads up evm order stored good M) :
    Program.Leads up evm order stored good
      (.ask (.job ⟨.command (.blockEnvOf id), rfl⟩) k) P := by
  refine leads_ask fun b hb hP => ?_
  have hreply := (serve_own up evm order id b (.command (.blockEnvOf id)) rfl).1
  cases hs : b.sessions.lookup id with
  | some s =>
    rw [hs] at hreply
    refine ⟨_, at_stable up evm order stored id (· = s.blockEnv), at_session hb hs rfl, ?_⟩
    simp only [Backend.answer, hreply]
    exact hthere s.blockEnv
  | none =>
    rw [hs] at hreply
    refine ⟨M, hM, hmissing b hP hs, ?_⟩
    simp only [Backend.answer, hreply]
    exact hnone

/-! ### Transfers -/

/-- A tool's answer that does not refuse the price. -/
def NotUnderpriced (r : Except ErrorData ToolAnswer) : Prop :=
  ∀ gasPrice basefee, r ≠ .error (.underpriced gasPrice basefee)

theorem notUnderpriced_ok (answer : ToolAnswer) : NotUnderpriced (.ok answer) := by
  rintro _ _ ⟨⟩

theorem notUnderpriced_internal (e : ManagerError) : NotUnderpriced (.error (.internal e)) := by
  rintro _ _ ⟨⟩

variable (F) in
theorem explain_otherwise (id : SessionId) (caller : Address) (gasPrice gasLimit : UInt64)
    {e : ManagerError} (h : e ≠ .session (.invalidTransaction .gasPriceLessThanBasefee)) :
    ∃ r, (Wire.explainFeeError id caller gasPrice gasLimit e : Tool F) = .ret r ∧
      NotUnderpriced r := by
  unfold Wire.explainFeeError
  split
  · exact absurd rfl h
  · exact ⟨_, rfl, by rintro _ _ ⟨⟩⟩
  · exact ⟨_, rfl, notUnderpriced_internal _⟩

section Transfers

variable {r : Revm E} {args : TransferArgs} {commit : Bool} {caller : Address} {kind : TxKind}
  {value : U256} {data : Bytes} {gasPrice : UInt64}

variable (up order) in
/-- A transfer served, as its session sees it. -/
theorem serve_transfer (evm : Evm E) (b : Backend F) (tx : TxEnv) :
    (b.serve up evm order (Wire.transferJob id commit tx).1).1
      = (refStep up evm order (Wire.transferJob id commit tx).1 (b.sessions.lookup id)).1 := by
  cases commit with
  | true => exact (serve_own up evm order id b _ rfl).1
  | false => exact (serve_own up evm order id b _ rfl).1

theorem price_toNat (gasPrice : UInt64) :
    (BitVec.ofNat 128 gasPrice.toNat).toNat = gasPrice.toNat := by
  rw [BitVec.toNat_ofNat]
  exact Nat.mod_eq_of_lt (Nat.lt_trans gasPrice.toNat_lt (by decide))

variable (up order commit) in
/-- A session is not below its basefee at that basefee or above. -/
theorem accepted_at (hr : r.Documented) (hpriced : r.Priced) {b : Backend F} {tx : TxEnv}
    (hat : b.At id (·.basefee.toNat ≤ tx.gasPrice.toNat)) :
    gotExecuted (b.serve up r.evm order (Wire.transferJob id commit tx).1).1
      ≠ .error (.session (.invalidTransaction .gasPriceLessThanBasefee)) := by
  intro h
  rw [serve_transfer] at h
  obtain ⟨s, hs, hlt⟩ := transfer_refused hr hpriced h
  exact Nat.not_lt.mpr (hat.block s hs) hlt

/-- ACCEPTED: at the basefee or above. -/
theorem priced_accepted (hr : r.Documented) (hpriced : r.Priced) :
    Program.Leads up r.evm order stored (fun r _ => NotUnderpriced r)
      (Wire.runPriced args commit caller kind value data gasPrice : Tool F)
      (Backend.At args.sessionId (·.basefee.toNat ≤ gasPrice.toNat)) := by
  refine leads_ask fun b hb hat => ⟨_, at_stable up r.evm order stored _ _, hat, ?_⟩
  have hprice : b.At args.sessionId (·.basefee.toNat
      ≤ (Wire.transferTx args caller kind value data gasPrice).gasPrice.toNat) := by
    rw [Wire.transferTx, price_toNat]
    exact hat
  have haccepted := accepted_at up order commit hr hpriced hprice
  simp only [Backend.answer]
  split
  · exact fun b _ => notUnderpriced_ok _
  · rename_i e he
    obtain ⟨answer, hret, hgood⟩ := explain_otherwise F args.sessionId caller gasPrice args.gasLimit
      fun h : e = _ => haccepted (h ▸ he)
    rw [hret]
    exact fun b _ => hgood

/-- ADVISED: a transfer that is refused for its price is told the basefee of its session. -/
theorem priced_advised (hr : r.Documented) (hpriced : r.Priced) :
    Program.Leads up r.evm order stored
      (fun r b => ∀ p basefee, r = .error (.underpriced p basefee) →
        b.At args.sessionId (·.basefee = basefee))
      (Wire.runPriced args commit caller kind value data gasPrice : Tool F) fun _ => True := by
  refine leads_ask fun b hb _ => ?_
  simp only [Backend.answer]
  split
  · exact ⟨_, true_stable up r.evm order stored, trivial, by rintro b - _ _ ⟨⟩⟩
  · rename_i e he
    by_cases hprice : e = .session (.invalidTransaction .gasPriceLessThanBasefee)
    · subst hprice
      rw [serve_transfer] at he
      obtain ⟨s, hs, -⟩ := transfer_refused hr hpriced he
      refine ⟨_, at_stable up r.evm order stored args.sessionId fun _ => True,
        at_session hb hs trivial, ?_⟩
      refine leads_blockEnvOf (at_stable up r.evm order stored args.sessionId fun _ => False)
        (fun b hat hgone => at_gone hat hgone) (fun env => ?_) ?_
      · rintro b hat p _ ⟨⟩
        exact at_mono (fun env' henv => congrArg BlockEnv.basefee henv) hat
      · rintro b hat p _ ⟨⟩
        exact at_mono (fun _ h => h.elim) hat
    · obtain ⟨answer, hret, hgood⟩ := explain_otherwise F args.sessionId caller gasPrice
        args.gasLimit hprice
      rw [hret]
      exact ⟨_, true_stable up r.evm order stored, trivial, fun b _ p q h => absurd h (hgood p q)⟩

/-- No error of the parameters is about a price. -/
def Unpriced {A : Type} (e : Except ErrorData A) : Prop :=
  ∀ x, e = .error x → ∀ gasPrice basefee, x ≠ .underpriced gasPrice basefee

theorem unpriced_parse {A : Type} (e : Except String A) {f : String → ErrorData}
    (hf : ∀ message gasPrice basefee, f message ≠ .underpriced gasPrice basefee) :
    Unpriced (e.mapError f) := by
  cases e with
  | ok a => rintro _ ⟨⟩
  | error message =>
    rintro _ ⟨⟩
    exact hf message

theorem unpriced_map {A B : Type} {e : Except ErrorData A} (h : Unpriced e) (f : A → B) :
    Unpriced (e.map f) := by
  cases e with
  | ok a => rintro _ ⟨⟩
  | error x =>
    rintro _ ⟨⟩
    exact h x rfl

/-- A transfer comes down to what its arguments are run as. -/
theorem transfer_leads {good : Except ErrorData ToolAnswer → Backend F → Prop}
    (hgood : ∀ r b, NotUnderpriced r → good r b)
    (hrun : ∀ caller kind value data, Program.Leads up evm order stored good
      (match args.gasPrice with
        | some gasPrice => Wire.runPriced args commit caller kind value data gasPrice
        | none => Wire.basefeeOf args.sessionId fun gasPrice =>
            Wire.runPriced args commit caller kind value data gasPrice) P) :
    (w.runTransfer args commit : Tool F).Leads up evm order stored good P := by
  have hclean : ∀ {A : Type} {e : Except ErrorData A}, Unpriced e →
      ∀ x, e = .error x → ∀ b, good (.error x) b := by
    intro A e he x hx b
    refine hgood _ b fun gasPrice basefee heq => he x hx gasPrice basefee ?_
    exact Except.error.inj heq
  refine leads_proceed (hclean (unpriced_parse _ (by rintro _ _ _ ⟨⟩))) fun caller =>
    leads_proceed (hclean ?_) fun kind =>
    leads_proceed (hclean (unpriced_parse _ (by rintro _ _ _ ⟨⟩))) fun value =>
    leads_proceed (hclean ?_) fun data => hrun caller kind value data
  · split
    · exact unpriced_map (unpriced_parse _ (by rintro _ _ _ ⟨⟩)) _
    · rintro _ ⟨⟩
  · split
    · exact unpriced_parse _ (by rintro _ _ _ ⟨⟩)
    · rintro _ ⟨⟩

/-- ACCEPTED: a transfer at the basefee or above. -/
theorem transfer_accepted (hr : r.Documented) (hpriced : r.Priced)
    (hprice : args.gasPrice = some gasPrice) :
    (w.runTransfer args commit : Tool F).Leads up r.evm order stored (fun r _ => NotUnderpriced r)
      (Backend.At args.sessionId (·.basefee.toNat ≤ gasPrice.toNat)) := by
  refine transfer_leads (fun _ _ h => h) fun caller kind value data => ?_
  rw [hprice]
  exact priced_accepted hr hpriced

/-- ACCEPTED: a transfer without a price. It is run at the basefee its session was at, and the session
    is at that basefee still or gone. -/
theorem transfer_unpriced (hr : r.Documented) (hpriced : r.Priced) (hprice : args.gasPrice = none) :
    (w.runTransfer args commit : Tool F).Leads up r.evm order stored (fun r _ => NotUnderpriced r)
      fun _ => True := by
  refine transfer_leads (fun _ _ h => h) fun caller kind value data => ?_
  rw [hprice]
  refine leads_blockEnvOf (true_stable up r.evm order stored) (fun _ _ _ => trivial) (fun env => ?_)
    fun _ _ => notUnderpriced_internal _
  refine leads_mono (fun _ _ h => h) (fun b hat => ?_) (priced_accepted hr hpriced)
  exact at_mono (fun _ henv => Nat.le_of_eq (congrArg (·.basefee.toNat) henv)) hat

/-- ADVISED: a transfer that is refused for its price is told the basefee of its session. -/
theorem transfer_advised (hr : r.Documented) (hpriced : r.Priced) :
    (w.runTransfer args commit : Tool F).Leads up r.evm order stored
      (fun r b => ∀ p basefee, r = .error (.underpriced p basefee) →
        b.At args.sessionId (·.basefee = basefee)) fun _ => True := by
  refine transfer_leads (fun r b h p basefee hr => absurd hr (h p basefee))
    fun caller kind value data => ?_
  split
  · exact priced_advised hr hpriced
  · refine leads_blockEnvOf (true_stable up r.evm order stored) (fun _ _ _ => trivial)
      (fun env => ?_) (by rintro _ - _ _ ⟨⟩)
    exact leads_mono (fun _ _ h => h) (fun _ _ => trivial) (priced_advised hr hpriced)

end Transfers

/-! ### The JSON-RPC methods -/

/-- QUOTED: the basefee of the session, with the margin. -/
theorem gasPrice_quotes : (Wire.ethGasPrice id : Rpc F).Leads up evm order stored
    (fun r b => ∀ text, r = .ok (.text text) → ∃ basefee : UInt64,
      text = hexText (basefee + priorityFeeWei).toNat ∧ b.At id (·.basefee = basefee))
    (Backend.At id fun _ => True) := by
  refine leads_blockEnvOf (at_stable up evm order stored id fun _ => False)
    (fun b hat hgone => at_gone hat hgone) (fun env => ?_) ?_
  · intro b hat text htext
    exact ⟨env.basefee, (Answered.text.inj (Except.ok.inj htext)).symm,
      at_mono (fun _ henv => congrArg BlockEnv.basefee henv) hat⟩
  · refine leads_ask fun b hb hat => ⟨_, at_stable up evm order stored id fun _ => False, hat, ?_⟩
    intro b' hat' text htext
    exact ⟨b.blockEnv.basefee, (Answered.text.inj (Except.ok.inj htext)).symm,
      at_mono (fun _ h => h.elim) hat'⟩

/-- ACCEPTED: a signed transaction at the basefee or above. -/
theorem send_accepted {r : Revm E} (hr : r.Documented) (hpriced : r.Priced) {params : List Value}
    {tx : LegacyTx} (htx : w.signedTx params = .ok tx) (sync : Bool) :
    (w.ethSendRawTransaction id params sync : Rpc F).Leads up r.evm order stored
      (fun r _ => ∀ e, r = .error e → ∃ cause, e = w.tell cause ∧
        cause ≠ .session (.invalidTransaction .gasPriceLessThanBasefee))
      (Backend.At id (·.basefee.toNat ≤ tx.gasPrice.toNat)) := by
  simp only [Wire.ethSendRawTransaction, htx, proceed]
  refine leads_ask fun b hb hat => ⟨_, at_stable up r.evm order stored id _, hat, ?_⟩
  have hprice : b.At id (·.basefee.toNat ≤ tx.env.gasPrice.toNat) := hat
  have haccepted := accepted_at up order true hr hpriced hprice
  simp only [Wire.transferJob, if_true] at haccepted
  simp only [Backend.answer]
  cases hreply : gotExecuted (b.serve up r.evm order (.read id (.advance tx.env))).1 with
  | error cause =>
    rintro b' - _ ⟨⟩
    exact ⟨cause, rfl, fun h => haccepted (h ▸ hreply)⟩
  | ok result =>
    refine leads_all (fun r _ hr _ e he => absurd ⟨e, he⟩ hr)
      (at_stable up r.evm order stored id _) (sent_all id tx result sync)

end Programs

/-! ### Both surfaces -/

/-- The request may be told what the session would accept. -/
inductive SurfaceCall.Prices (id : SessionId) : SurfaceCall → Prop
  | gasPrice (params : List Value) : Prices id (.rpc id "eth_gasPrice" params)
  | simulate {args : TransferArgs} (h : args.sessionId = id) : Prices id (.tool (.simulate args))
  | advance {args : TransferArgs} (h : args.sessionId = id) : Prices id (.tool (.advance args))

/-- The answer names a price; the sum that was answered, if one was, did not wrap. -/
inductive SurfaceReply.Quotes (w : Wire) : ℕ → SurfaceReply → Prop
  | underpriced (gasPrice basefee : UInt64) :
    Quotes w basefee.toNat (.tool (.error (.underpriced gasPrice basefee)))
  | gasPrice {text : String} {n : U256} (hread : w.hex.parseU256HexStr text = .ok n)
    (hsum : priorityFeeWei.toNat ≤ n.toNat) : Quotes w n.toNat (.rpc (.ok (.text text)))

/-- The request is to run a transaction of the session at this price. -/
inductive SurfaceCall.Offers (w : Wire) (id : SessionId) : ℕ → SurfaceCall → Prop
  | simulate {args : TransferArgs} {gasPrice : UInt64} (h : args.sessionId = id)
    (hprice : args.gasPrice = some gasPrice) : Offers w id gasPrice.toNat (.tool (.simulate args))
  | advance {args : TransferArgs} {gasPrice : UInt64} (h : args.sessionId = id)
    (hprice : args.gasPrice = some gasPrice) : Offers w id gasPrice.toNat (.tool (.advance args))
  | send {params : List Value} {tx : LegacyTx} (h : w.signedTx params = .ok tx) :
    Offers w id tx.gasPrice.toNat (.rpc id "eth_sendRawTransaction" params)
  | sendSync {params : List Value} {tx : LegacyTx} (h : w.signedTx params = .ok tx) :
    Offers w id tx.gasPrice.toNat (.rpc id "eth_sendRawTransactionSync" params)

/-- The request is a transfer of which no price is named. -/
inductive SurfaceCall.Unpriced : SurfaceCall → Prop
  | simulate {args : TransferArgs} (h : args.gasPrice = none) : Unpriced (.tool (.simulate args))
  | advance {args : TransferArgs} (h : args.gasPrice = none) : Unpriced (.tool (.advance args))

/-- The answer does not refuse the price. -/
inductive SurfaceReply.Accepted (w : Wire) : SurfaceReply → Prop
  | tool {r : Except ErrorData ToolAnswer} (h : NotUnderpriced r) : Accepted w (.tool r)
  | answered (answer : Answered) : Accepted w (.rpc (.ok answer))
  | refused {cause : ManagerError}
    (h : cause ≠ .session (.invalidTransaction .gasPriceLessThanBasefee)) :
    Accepted w (.rpc (.error (w.tell cause)))

section Surfaces

variable [ToString E] {up : F → Upstream E} {r : Revm E} {order : HashOrder}
  {stored : UInt64 → SessionState → Except String SnapshotInfo} {w : Wire} {chainId : UInt64}
  {id : SessionId}

/-- A sum that did not wrap is no less than the basefee in it. -/
theorem hexText_quotes (hhex : w.hex.Numeric) {basefee : UInt64} {n : U256}
    (hread : w.hex.parseU256HexStr (hexText (basefee + priorityFeeWei).toNat) = .ok n)
    (hsum : priorityFeeWei.toNat ≤ n.toNat) : basefee.toNat ≤ n.toNat := by
  have hfits : (basefee + priorityFeeWei).toNat < 2 ^ 256 :=
    Nat.lt_trans (UInt64.toNat_lt _) (by decide)
  have hword : (BitVec.ofNat 256 (basefee + priorityFeeWei).toNat).toNat
      = (basefee + priorityFeeWei).toNat := by
    rw [BitVec.toNat_ofNat]
    exact Nat.mod_eq_of_lt hfits
  rw [← hword, parse_hexText hhex] at hread
  rw [← Except.ok.inj hread, hword, UInt64.toNat_add] at hsum ⊢
  have hlt := basefee.toNat_lt
  have hfee : priorityFeeWei.toNat < 2 ^ 64 := UInt64.toNat_lt _
  omega

/-- QUOTED: where the session is drawn, it is at no more than what is quoted. -/
theorem program_quotes (hr : r.Documented) (hpriced : r.Priced) (hhex : w.hex.Numeric)
    {call : SurfaceCall} (h : call.Prices id) :
    Program.Leads up r.evm order stored
      (fun answer b => ∀ n, answer.Quotes w n → b.At id (·.basefee.toNat ≤ n))
      (call.program w chainId : Program F SurfaceReply) (Backend.At id fun _ => True) := by
  have htool : ∀ args commit, args.sessionId = id → Program.Leads up r.evm order stored
      (fun answer b => ∀ n, answer.Quotes w n → b.At id (·.basefee.toNat ≤ n))
      ((w.runTransfer args commit : Tool F).map SurfaceReply.tool) (Backend.At id fun _ => True) := by
    rintro args commit rfl
    refine leads_map SurfaceReply.tool (leads_mono (fun answer b hadvised n hquotes => ?_)
      (fun _ _ => trivial) (transfer_advised hr hpriced))
    cases hquotes with
    | underpriced gasPrice basefee =>
      exact at_mono (fun _ henv => Nat.le_of_eq (congrArg UInt64.toNat henv))
        (hadvised gasPrice basefee rfl)
  cases h with
  | simulate hid => exact htool _ false hid
  | advance hid => exact htool _ true hid
  | gasPrice params =>
    refine leads_map SurfaceReply.rpc ?_
    rw [dispatch_handle .ethGasPrice rfl]
    refine leads_mono (fun answer b hquoted n hquotes => ?_) (fun _ h => h) gasPrice_quotes
    cases hquotes with
    | gasPrice hread hsum =>
      obtain ⟨basefee, rfl, hat⟩ := hquoted _ rfl
      refine at_mono (fun env (henv : env.basefee = basefee) => ?_) hat
      rw [henv]
      exact hexText_quotes hhex hread hsum

/-- ACCEPTED: at what is quoted or above. -/
theorem program_accepts (hr : r.Documented) (hpriced : r.Priced) {call : SurfaceCall} {n : ℕ}
    (h : call.Offers w id n) :
    Program.Leads up r.evm order stored (fun answer _ => answer.Accepted w)
      (call.program w chainId : Program F SurfaceReply) (Backend.At id (·.basefee.toNat ≤ n)) := by
  have hsend : ∀ params sync (tx : LegacyTx), w.signedTx params = .ok tx →
      Program.Leads up r.evm order stored (fun answer _ => answer.Accepted w)
        ((w.ethSendRawTransaction id params sync : Rpc F).map SurfaceReply.rpc)
        (Backend.At id (·.basefee.toNat ≤ tx.gasPrice.toNat)) := by
    intro params sync tx htx
    refine leads_map SurfaceReply.rpc (leads_mono (fun answer b haccepted => ?_) (fun _ h => h)
      (send_accepted hr hpriced htx sync))
    cases answer with
    | ok answer => exact .answered answer
    | error e =>
      obtain ⟨cause, rfl, hcause⟩ := haccepted e rfl
      exact .refused hcause
  cases h with
  | simulate hid hprice =>
    subst hid
    exact leads_map SurfaceReply.tool
      (leads_mono (fun _ _ h => .tool h) (fun _ h => h) (transfer_accepted hr hpriced hprice))
  | advance hid hprice =>
    subst hid
    exact leads_map SurfaceReply.tool
      (leads_mono (fun _ _ h => .tool h) (fun _ h => h) (transfer_accepted hr hpriced hprice))
  | send htx =>
    rw [SurfaceCall.program, dispatch_handle .ethSendRawTransaction rfl]
    exact hsend _ false _ htx
  | sendSync htx =>
    rw [SurfaceCall.program, dispatch_handle .ethSendRawTransactionSync rfl]
    exact hsend _ true _ htx

/-- ACCEPTED: a transfer of which no price is named. -/
theorem program_unpriced (hr : r.Documented) (hpriced : r.Priced) {call : SurfaceCall}
    (h : call.Unpriced) :
    Program.Leads up r.evm order stored (fun answer _ => answer.Accepted w)
      (call.program w chainId : Program F SurfaceReply) fun _ => True := by
  cases h with
  | simulate hprice =>
    exact leads_map SurfaceReply.tool
      (leads_mono (fun _ _ h => .tool h) (fun _ h => h) (transfer_unpriced hr hpriced hprice))
  | advance hprice =>
    exact leads_map SurfaceReply.tool
      (leads_mono (fun _ _ h => .tool h) (fun _ h => h) (transfer_unpriced hr hpriced hprice))

/-- What a request leads to wherever it starts from is so when it is answered. -/
theorem surfaces_leads {evm : Evm E} {good : SurfaceReply → Backend F → Prop} {b : Backend F}
    (hb : b.Sound) {events : List (SurfaceEvent F)} {i : ℕ} {call : SurfaceCall}
    (hcall : (events.filterMap SurfaceEvent.made)[i]? = some call)
    (hleads : (call.program w chainId : Program F SurfaceReply).Leads up evm order stored good
      fun _ => True) {answer : SurfaceReply}
    (hanswer : (surfaces up evm order stored w chainId b events).requests[i]?
      = some (.ret answer)) :
    (surfaces up evm order stored w chainId b events).store.Worn ∨
      good answer (surfaces up evm order stored w chainId b events).store := by
  rcases leads_run worn_answer worn_happen sound_answer sound_happen
    (events.map (SurfaceEvent.event w chainId)) (c := Crowd.start b) (i := i)
    (t := call.program w chainId) hb (by
      rw [made_events, Crowd.start, List.nil_append, List.getElem?_map, hcall, Option.map_some])
    (true_stable up evm order stored) trivial hleads with hworn | ⟨t, P, ht, -, hP, hrest⟩
  · exact .inl hworn
  · obtain rfl := Option.some.inj (ht.symm.trans hanswer)
    exact .inr (hrest _ hP)

/-- UNPRICED: a transfer of which no price is named is never refused for its price, whatever comes
    between the look at the basefee and the run at it. -/
theorem unpriced_accepted (hr : r.Documented) (hpriced : r.Priced) {b : Backend F} (hb : b.Sound)
    {events : List (SurfaceEvent F)} {i : ℕ} {call : SurfaceCall}
    (hcall : (events.filterMap SurfaceEvent.made)[i]? = some call) (hunpriced : call.Unpriced)
    (hids : (surfaces up r.evm order stored w chainId b events).store.nextId ≤ 2 ^ 64)
    {answer : SurfaceReply} (hanswer : (surfaces up r.evm order stored w chainId b events).requests[i]?
      = some (.ret answer)) : answer.Accepted w :=
  (surfaces_leads hb hcall (program_unpriced hr hpriced hunpriced) hanswer).resolve_left
    (Nat.not_lt.mpr hids)

/-- QUOTED AND ACCEPTED: a price that is quoted for a session suffices for it ever after. -/
theorem quote_accepted (hr : r.Documented) (hpriced : r.Priced) (hhex : w.hex.Numeric)
    {b : Backend F} (hb : b.Sound) {opened before after : List (SurfaceEvent F)} {i j n q : ℕ}
    {asking offering : SurfaceCall} {quote answer : SurfaceReply}
    (hopened : (surfaces up r.evm order stored w chainId b opened).store.Opened id)
    (hasking : (before.filterMap SurfaceEvent.made)[i]? = some asking) (hprices : asking.Prices id)
    (hquote : (surfaces up r.evm order stored w chainId b (opened ++ before)).requests[
      (opened.filterMap SurfaceEvent.made).length + i]? = some (.ret quote))
    (hquotes : quote.Quotes w n)
    (hoffering : (after.filterMap SurfaceEvent.made)[j]? = some offering)
    (hoffers : offering.Offers w id q) (hle : n ≤ q)
    (hids : (surfaces up r.evm order stored w chainId b (opened ++ before ++ after)).store.nextId
      ≤ 2 ^ 64)
    (hanswer : (surfaces up r.evm order stored w chainId b (opened ++ before ++ after)).requests[
      ((opened ++ before).filterMap SurfaceEvent.made).length + j]? = some (.ret answer)) :
    answer.Accepted w := by
  have hsound : ∀ events, (surfaces up r.evm order stored w chainId b events).store.Sound :=
    fun events => store_run sound_answer sound_happen _ hb
  have hnext := surfaces_next up r.evm order stored w chainId b opened hasking
  have hlast := surfaces_next up r.evm order stored w chainId b (opened ++ before) hoffering
  rw [surfaces_append up r.evm order stored w chainId b (opened ++ before) after] at hids hanswer
  have hstep := leads_run worn_answer worn_happen sound_answer sound_happen
    (before.map (SurfaceEvent.event w chainId)) (hsound opened) hnext
    (at_stable up r.evm order stored id fun _ => True) ⟨.inr hopened, fun _ _ => trivial⟩
    (program_quotes hr hpriced hhex hprices)
  rw [← surfaces_append] at hstep
  have hat : (surfaces up r.evm order stored w chainId b (opened ++ before)).store.At id
      (·.basefee.toNat ≤ q) := by
    rcases hstep with hworn | ⟨t, P, ht, -, hP, hleads⟩
    · exact absurd (store_run worn_answer worn_happen _ hworn) (Nat.not_lt.mpr hids)
    · obtain rfl := Option.some.inj (ht.symm.trans hquote)
      exact at_mono (fun _ henv => Nat.le_trans henv hle) (hleads _ hP n hquotes)
  obtain ⟨t, P, ht, -, hP, hleads⟩ := (leads_run worn_answer worn_happen sound_answer sound_happen
    (after.map (SurfaceEvent.event w chainId)) (hsound (opened ++ before)) hlast
    (at_stable up r.evm order stored id (·.basefee.toNat ≤ q)) hat
    (program_accepts hr hpriced hoffers)).resolve_left (Nat.not_lt.mpr hids)
  obtain rfl := Option.some.inj (ht.symm.trans hanswer)
  exact hleads _ hP

end Surfaces

theorem plainRevm_priced : plainRevm.Priced := by
  intro cfg blockEnv tx h
  simp only [plainRevm] at h
  split at h
  · cases h
  · split at h
    · cases h
    · split at h
      · exact And.right ‹_›
      · split at h <;> cases h

/-- A manager whose default block has a basefee of seven. -/
def sevenBackend : Backend Unit := .start () ⟨1, 0, 7, 30000000⟩

def opening : List (SurfaceEvent Unit) :=
  [.call (.tool .fork), .move 0, .move 0, .move 0, .move 0, .move 0]

/-- A transfer of the first session, of which this price is named. -/
def transferAt (gasPrice : Option UInt64) : TransferArgs where
  sessionId := 0
  caller := "0x000000000000000000000000000000000000000a"
  recipient := some "0x000000000000000000000000000000000000000b"
  value := "0x0"
  gasPrice := gasPrice

/-- A transfer without a price. -/
def transferring : List (SurfaceEvent Unit) :=
  opening ++ [.call (.tool (.advance (transferAt none))), .move 1, .move 1]

/-- Seven it is, which the sender cannot pay. -/
theorem unpriced_accepted_poor :
    SurfaceReply.Accepted numeralWire (.tool (.error (.unfunded 0xa 7 21000 147000 0))) := by
  have hanswer : (surfaces emptyUpstream plainRevm.evm .some (fun _ _ => .error "no store")
      numeralWire 1 sevenBackend transferring).requests[1]?
        = some (.ret (.tool (.error (.unfunded 0xa 7 21000 147000 0)))) := by rfl
  have hcall : (transferring.filterMap SurfaceEvent.made)[1]?
      = some (.tool (.advance (transferAt none))) := rfl
  exact unpriced_accepted plainRevm_documented plainRevm_priced
    (start_sound () ⟨1, 0, 7, 30000000⟩) hcall (.advance rfl) (by decide) hanswer

/-- A transfer at five, and once that is refused one at seven. -/
def refused : List (SurfaceEvent Unit) :=
  [.call (.tool (.advance (transferAt (some 5)))), .move 1, .move 1]

def repriced : List (SurfaceEvent Unit) :=
  [.call (.tool (.advance (transferAt (some 7)))), .move 2]

theorem quote_accepted_seven :
    SurfaceReply.Accepted numeralWire (.tool (.error (.unfunded 0xa 7 21000 147000 0))) := by
  have hquote : (surfaces emptyUpstream plainRevm.evm .some (fun _ _ => .error "no store")
      numeralWire 1 sevenBackend (opening ++ refused)).requests[
        (opening.filterMap SurfaceEvent.made).length + 0]?
        = some (.ret (.tool (.error (.underpriced 5 7)))) := by rfl
  have hanswer : (surfaces emptyUpstream plainRevm.evm .some (fun _ _ => .error "no store")
      numeralWire 1 sevenBackend (opening ++ refused ++ repriced)).requests[
        ((opening ++ refused).filterMap SurfaceEvent.made).length + 0]?
        = some (.ret (.tool (.error (.unfunded 0xa 7 21000 147000 0)))) := by rfl
  have hasking : (refused.filterMap SurfaceEvent.made)[0]?
      = some (.tool (.advance (transferAt (some 5)))) := rfl
  have hoffering : (repriced.filterMap SurfaceEvent.made)[0]?
      = some (.tool (.advance (transferAt (some 7)))) := rfl
  exact quote_accepted plainRevm_documented plainRevm_priced numeralHex_numeric
    (start_sound () ⟨1, 0, 7, 30000000⟩) ⟨by decide, by decide⟩ hasking (.advance rfl) hquote
    (.underpriced 5 7) hoffering (.advance rfl rfl) (Nat.le_refl _) (by decide) hanswer

end Forkyard
