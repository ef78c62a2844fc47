import Forkyard.Api.Mcp

/-! Requests nobody notices. A request of either surface that only looks, and one that fails in the
    end, leave every session showing what it showed and the side table as it was, whatever comes
    between two steps of it. So in any run they may as well not be served: every other request is
    answered the same. The one thing a look does leave behind, upstream values kept by the session it
    looked at, is seen by a snapshot only, which is itself a look.

        run:      get ▸ send ▸ call ▸ get ▸ failed send ▸ get
        the same:       send                                    -/

namespace Forkyard

open Schemes

variable {F E : Type}

/-! ### Jobs that change nothing -/

/-- The job may change what its session shows. -/
def Job.writes : Job F → Bool
  | .command (.state _) => false
  | .command (.branch _) => false
  | .command (.blockEnvOf _) => false
  | .command _ => true
  | .read _ (.advance _) => true
  | .read _ _ => false

/-- The reply to a job that has changed what its session shows. -/
def Job.Done : Job F → Reply F → Prop
  | .command (.discard _), reply => reply = .ack
  | .command _, reply => reply = .written (.ok ())
  | .read _ _, reply => ∃ result, reply = .executed (.ok result)

section Jobs

variable [ToString E] {up : F → Upstream E} {evm : Evm E} {order : HashOrder}

omit [ToString E] in
/-- A task that comes to no diff leaves its session the same. -/
theorem serve_undone {R : Type} (task : Task E R) {s : Session F} (hs : s.readLog = none)
    (hnone : ∀ outcome, (task.serve up s).1 = some outcome → outcome.2 = none) :
    Same up (task.serve up s).2 s := by
  have hsame := same_run up (task s.blockEnv) hs
  unfold Task.serve at hnone ⊢
  rcases hr : (task s.blockEnv).run (Session.answer (Upstream.db up)) (s, ()) with
    ⟨_ | outcome, s', u⟩
  · rw [hr] at hsame
    exact hsame
  · rw [hr] at hsame hnone
    have hdiff := hnone outcome rfl
    dsimp only at hdiff ⊢
    rw [hdiff]
    exact hsame

omit [ToString E] in
theorem serve_all {R : Type} {P : R × Option EvmState → Prop} {task : Task E R} {s : Session F}
    (hall : (task s.blockEnv).All P) {outcome : R × Option EvmState}
    (h : (task.serve up s).1 = some outcome) : P outcome := by
  unfold Task.serve at h
  rcases hr : (task s.blockEnv).run (Session.answer (Upstream.db up)) (s, ()) with
    ⟨_ | outcome', s', u⟩
  · rw [hr] at h
    cases h
  · rw [hr] at h
    obtain rfl := Option.some.inj h
    exact Tree.run_all (Session.answer (Upstream.db up)) hall (by rw [hr])

omit [ToString E] in
/-- What only reads comes to no diff. -/
theorem readTask_diff {R : Type} (f : R → Reply F) (reads : ReadProg E R) (blockEnv : BlockEnv) :
    ((readTask reads).answering f blockEnv).All fun outcome => outcome.2 = none := by
  have hread : (readTask reads blockEnv).All fun outcome => outcome.2 = none := by
    refine Tree.all_map (fun r _ => ?_) (Tree.all_true reads)
    rfl
  refine Tree.all_map (fun outcome h => ?_) hread
  exact h

/-- Only an advance that succeeds has a diff. -/
theorem request_diff (evm : Evm E) (id : SessionId) (request : Request) (blockEnv : BlockEnv) :
    ((request.task (F := F) evm) blockEnv).All fun outcome =>
      outcome.2 = none ∨ (Job.read (F := F) id request).writes = true ∧
        ∃ result, outcome.1 = .executed (.ok result) := by
  have hexecute : ∀ tx commit disableChecks,
      (executeTask evm tx commit disableChecks blockEnv).All fun outcome =>
        outcome.2 = none ∨ commit = true ∧ ∃ result, outcome.1 = .ok result := by
    intro tx commit disableChecks
    refine Tree.all_map (fun outcome _ => ?_) (Tree.all_true _)
    cases commit with
    | false => exact .inl rfl
    | true =>
      cases outcome with
      | error e => exact .inl rfl
      | ok outcome => exact .inr ⟨rfl, outcome.1, rfl⟩
  cases request with
  | simulate tx disableChecks =>
    refine Tree.all_map (fun outcome h => ?_) (hexecute tx false disableChecks)
    exact h.imp_right fun hcommit => Bool.false_ne_true.elim hcommit.1
  | advance tx =>
    refine Tree.all_map (fun outcome h => ?_) (hexecute tx true false)
    exact h.imp_right fun ⟨_, result, hresult⟩ => ⟨rfl, result, by rw [hresult]⟩
  | storage address key =>
    exact Tree.all_mono (fun _ h => .inl h) (readTask_diff .storage (storageOf address key) blockEnv)
  | code address =>
    exact Tree.all_mono (fun _ h => .inl h) (readTask_diff .code (codeOf address) blockEnv)
  | basic address =>
    exact Tree.all_mono (fun _ h => .inl h) (readTask_diff .basic (basicOf address) blockEnv)

variable (up evm order) in
/-- ONE JOB that opens no session leaves its session the same, or it may write and is answered that
    it has. -/
theorem refStep_mild {job : Job F} (hopens : job.opens = false) {slot : Option (Session F)}
    (hslot : ∀ s, slot = some s → s.readLog = none) :
    SameSlot up (refStep up evm order job slot).2 slot ∨
      (job.writes = true ∧ ∃ reply, (refStep up evm order job slot).1 = some reply ∧
        job.Done reply) := by
  have hself : SameSlot up slot slot := sameSlot_refl hslot
  cases job with
  | command c =>
    cases c with
    | fork id base fallback blockEnv seed => cases hopens
    | adopt id session => cases hopens
    | discard id => exact .inr ⟨rfl, _, rfl, rfl⟩
    | state id => cases slot <;> exact .inl hself
    | branch parent => cases slot <;> exact .inl hself
    | blockEnvOf id => cases slot <;> exact .inl hself
    | setAccount id address info =>
      cases slot with
      | none => exact .inl hself
      | some s => exact .inr ⟨rfl, _, rfl, rfl⟩
    | setStorage id address key value =>
      cases slot with
      | none => exact .inl hself
      | some s => exact .inr ⟨rfl, _, rfl, rfl⟩
  | read id request =>
    cases slot with
    | none => exact .inl hself
    | some s =>
      by_cases hnone : ∀ outcome, ((request.task (F := F) evm).serve up s).1 = some outcome →
          outcome.2 = none
      · exact .inl (serve_undone _ (hslot s rfl) hnone)
      · push Not at hnone
        obtain ⟨outcome, houtcome, hdiff⟩ := hnone
        rcases serve_all (request_diff evm id request s.blockEnv) houtcome with
          hno | ⟨hwrites, hresult⟩
        · exact absurd hno hdiff
        · refine .inr ⟨hwrites, outcome.1, ?_, hresult⟩
          rw [refStep, houtcome, Option.map_some]

end Jobs

/-! ### Steps that change nothing -/

section Steps

variable [ToString E] {up : F → Upstream E} {evm : Evm E} {order : HashOrder}
  {stored : UInt64 → SessionState → Except String SnapshotInfo} {b b' : Backend F}

omit [ToString E] in
theorem alike_quiet (h : b.Alike up b') (id : SessionId) :
    ∀ s, b.sessions.lookup id = some s → s.readLog = none := by
  intro s hs
  have hsame := h.sessions id
  rw [hs] at hsame
  cases ht : b'.sessions.lookup id with
  | none =>
    rw [ht] at hsame
    exact hsame.elim
  | some t =>
    rw [ht] at hsame
    exact hsame.left

/-- A job that opens no session leaves its backend as good as it was, or it may write and is answered
    that it has. -/
theorem serve_mild {job : Job F} (hopens : job.opens = false) (h : b.Alike up b') :
    (b.serve up evm order job).2.Alike up b' ∨
      (job.writes = true ∧ ∃ reply, (b.serve up evm order job).1 = some reply ∧ job.Done reply) := by
  obtain ⟨hreply, sessions, hserve, hlookup⟩ := Backend.serve_spec up evm order b job
  rw [hreply, hserve]
  refine (refStep_mild up evm order hopens (alike_quiet h job.sessionId)).imp_left fun hsame => ?_
  refine ⟨fun id => ?_, h.nextId, h.unsent, h.base, h.fallback, h.blockEnv, h.rpcState⟩
  dsimp only
  rw [hlookup]
  split
  · rename_i hid
    rw [hid]
    exact sameSlot_trans hsame (h.sessions _)
  · exact h.sessions id

end Steps

/-! ### Programs -/

section Programs

variable [ToString E] {ε A R : Type}

/-- Only what is common to alike replies is received. -/
def Blind (up : F → Upstream E) (order : HashOrder)
    (receive : Option (Reply F) → Except ManagerError A) : Prop :=
  ∀ reply reply', reply.Alike up order reply' → receive (some reply) = receive (some reply')

variable {up : F → Upstream E} {evm : Evm E} {order : HashOrder}
  {stored : UInt64 → SessionState → Except String SnapshotInfo}

omit [ToString E] in
theorem blind_gotBasic : Blind up order (gotBasic (F := F)) := by
  rintro _ _ (_ | _ | _) <;> rfl

omit [ToString E] in
theorem blind_gotStorage : Blind up order (gotStorage (F := F)) := by
  rintro _ _ (_ | _ | _) <;> rfl

omit [ToString E] in
theorem blind_gotCode : Blind up order (gotCode (F := F)) := by
  rintro _ _ (_ | _ | _) <;> rfl

omit [ToString E] in
theorem blind_gotExecuted : Blind up order (gotExecuted (F := F)) := by
  rintro _ _ (_ | _ | _) <;> rfl

omit [ToString E] in
theorem blind_gotWritten : Blind up order (gotWritten (F := F)) := by
  rintro _ _ (_ | _ | _) <;> rfl

omit [ToString E] in
theorem blind_gotBlockEnv : Blind up order (gotBlockEnv (F := F)) := by
  rintro _ _ (_ | _ | _) <;> rfl

omit [ToString E] in
theorem blind_gotAck : Blind up order (gotAck (F := F)) := by
  rintro _ _ (_ | _ | _) <;> rfl

variable (up order) in
/-- Programs that cannot be told apart, on backends that are alike. -/
abbrev Program.Sim : Program F R → Program F R → Prop :=
  Tree.Sim (Hop.Alike up) (Hop.Agree up order)

variable (up evm order stored) in
abbrev Program.Quiet : Program F R → Prop :=
  Tree.Quiet (Backend.answer up evm order stored) (Backend.Alike up)

variable (up evm order stored) in
abbrev Program.Harmless (fails : R → Prop) : Program F R → Prop :=
  Tree.Harmless (Backend.answer up evm order stored) (Backend.Alike up) fails

omit [ToString E] in
theorem sim_proceed {e : Except ε A} {k : A → Program F (Except ε R)}
    (hk : ∀ a, Program.Sim up order (k a) (k a)) :
    Program.Sim up order (proceed e k) (proceed e k) := by
  cases e with
  | error e => exact .ret _
  | ok a => exact hk a

omit [ToString E] in
/-- A job is answered alike, and what is received is the same. -/
theorem sim_job {job : { job : Job F // job.opens = false }} {k : Option (Reply F) → Program F R}
    (hnone : Program.Sim up order (k none) (k none))
    (hk : ∀ reply reply', reply.Alike up order reply' →
      Program.Sim up order (k (some reply)) (k (some reply'))) :
    Program.Sim up order (.ask (.job job) k) (.ask (.job job) k) := by
  refine .ask (.refl _) fun a a' hagree => ?_
  match a, a', hagree with
  | none, none, _ => exact hnone
  | some reply, some reply', h => exact hk reply reply' h

omit [ToString E] in
theorem sim_request {job : { job : Job F // job.opens = false }}
    {receive : Option (Reply F) → Except ManagerError A} (hblind : Blind up order receive)
    {tell : ManagerError → ε} {k : A → Program F (Except ε R)}
    (hk : ∀ a, Program.Sim up order (k a) (k a)) :
    Program.Sim up order (request job receive tell k) (request job receive tell k) := by
  refine sim_job (sim_proceed hk) fun reply reply' halike => ?_
  rw [hblind reply reply' halike]
  exact sim_proceed hk

omit [ToString E] in
/-- A step whose answers are equal where they agree. -/
theorem sim_ask {hop : Hop F} (heq : ∀ a a', Hop.Agree up order hop hop a a' → a = a')
    {k : hop.Answer → Program F R} (hk : ∀ a, Program.Sim up order (k a) (k a)) :
    Program.Sim up order (.ask hop k) (.ask hop k) :=
  .ask (.refl hop) fun a a' hagree => by
    rw [heq a a' hagree]
    exact hk a'

omit [ToString E] in
theorem sim_sessionBlockEnv {id : SessionId} {k : BlockEnv → Program F R}
    (hk : ∀ env, Program.Sim up order (k env) (k env)) :
    Program.Sim up order (sessionBlockEnv id k) (sessionBlockEnv id k) := by
  have hrest : Program.Sim up order (.ask .blockEnv k) (.ask .blockEnv k) :=
    sim_ask (by exact fun _ _ h => h) hk
  refine sim_job hrest fun reply reply' halike => ?_
  rw [blind_gotBlockEnv reply reply' halike]
  split
  · exact hk _
  · exact hrest

/-- A job that may not write is quiet. -/
theorem quiet_job {job : { job : Job F // job.opens = false }} (hwrites : job.1.writes = false)
    {k : Option (Reply F) → Program F R} (hk : ∀ a, (k a).Quiet up evm order stored) :
    Program.Quiet up evm order stored (.ask (.job job) k) := by
  refine ⟨fun b b' h => ?_, hk⟩
  refine (serve_mild job.2 h).resolve_right ?_
  rintro ⟨hwrites', -⟩
  rw [hwrites] at hwrites'
  cases hwrites'

theorem quiet_proceed {e : Except ε A} {k : A → Program F (Except ε R)}
    (hk : ∀ a, (k a).Quiet up evm order stored) :
    Program.Quiet up evm order stored (proceed e k) := by
  cases e with
  | error e => exact trivial
  | ok a => exact hk a

theorem quiet_request {job : { job : Job F // job.opens = false }} (hwrites : job.1.writes = false)
    {receive : Option (Reply F) → Except ManagerError A} {tell : ManagerError → ε}
    {k : A → Program F (Except ε R)} (hk : ∀ a, (k a).Quiet up evm order stored) :
    Program.Quiet up evm order stored (request job receive tell k) :=
  quiet_job hwrites fun _ => quiet_proceed hk

theorem quiet_sessionBlockEnv {id : SessionId} {k : BlockEnv → Program F R}
    (hk : ∀ env, (k env).Quiet up evm order stored) :
    Program.Quiet up evm order stored (sessionBlockEnv id k) := by
  refine quiet_job rfl fun reply => ?_
  split
  · exact hk _
  · exact ⟨fun b b' h => h, hk⟩

theorem harmless_proceed {fails : Except ε R → Prop} {e : Except ε A}
    {k : A → Program F (Except ε R)} (hk : ∀ a, (k a).Harmless up evm order stored fails) :
    Program.Harmless up evm order stored fails (proceed e k) := by
  cases e with
  | error e => exact trivial
  | ok a => exact hk a

/-- A job that may write: once it has, the program is sure not to fail. -/
theorem harmless_request {fails : Except ε R → Prop} {job : { job : Job F // job.opens = false }}
    {receive : Option (Reply F) → Except ManagerError A} {tell : ManagerError → ε}
    {k : A → Program F (Except ε R)}
    (hdone : job.1.writes = true → ∀ reply, job.1.Done reply →
      ∃ a, receive (some reply) = .ok a ∧ (k a).All fun r => ¬ fails r)
    (hk : ∀ a, (k a).Harmless up evm order stored fails) :
    Program.Harmless up evm order stored fails (request job receive tell k) := by
  refine ⟨fun b b' h => ?_, fun reply => harmless_proceed hk⟩
  refine (serve_mild job.2 h).imp_right ?_
  rintro ⟨hwrites, reply, hreply, hmeant⟩
  obtain ⟨a, hreceive, hall⟩ := hdone hwrites reply hmeant
  simp only [Backend.answer, hreply, hreceive, Except.mapError, proceed]
  exact hall

omit [ToString E] in
theorem all_sessionBlockEnv {P : R → Prop} {id : SessionId} {k : BlockEnv → Program F R}
    (hk : ∀ env, (k env).All P) : (sessionBlockEnv id k).All P := by
  intro reply
  dsimp only
  split
  · exact hk _
  · exact hk

end Programs

/-! ### The JSON-RPC methods -/

/-- The request came to an error. -/
def Failed {ε R : Type} (r : Except ε R) : Prop := ∃ e, r = .error e

theorem not_failed {ε R : Type} (a : R) : ¬ Failed (.ok a : Except ε R) := by
  rintro ⟨e, ⟨⟩⟩

/-- The method only looks. -/
def RpcMethod.reads : RpcMethod → Bool
  | .ethSendRawTransaction | .ethSendRawTransactionSync => false
  | .forkyardSetBalance | .forkyardSetStorageAt | .forkyardForkFrom | .forkyardDiscard => false
  | _ => true

section Methods

variable [ToString E] {up : F → Upstream E} {evm : Evm E} {order : HashOrder}
  {stored : UInt64 → SessionState → Except String SnapshotInfo} (w : Wire) (chainId : UInt64)
  (id : SessionId) (params : List Value)

omit [ToString E] in
/-- No method but a snapshot can tell backends apart that are alike. -/
theorem handle_sim {method : RpcMethod} (h : method ≠ .forkyardSnapshot) :
    Program.Sim up order (w.handle chainId id params method : Rpc F)
      (w.handle chainId id params method) := by
  cases method with
  | ethChainId => exact .ret _
  | ethBlockNumber =>
    refine sim_ask (by exact fun _ _ h => h) fun sends => sim_sessionBlockEnv fun env => ?_
    split
    · exact .ret _
    · exact .panic
  | ethGasPrice => exact sim_sessionBlockEnv fun env => .ret _
  | ethGetBalance => exact sim_proceed fun _ => sim_request blind_gotBasic fun _ => .ret _
  | ethGetTransactionCount => exact sim_proceed fun _ => sim_request blind_gotBasic fun _ => .ret _
  | ethCall => exact sim_proceed fun _ => sim_request blind_gotExecuted fun _ => .ret _
  | ethGetStorageAt =>
    exact sim_proceed fun _ => sim_proceed fun _ => sim_request blind_gotStorage fun _ => .ret _
  | ethGetCode => exact sim_proceed fun _ => sim_request blind_gotCode fun _ => .ret _
  | ethSendRawTransaction | ethSendRawTransactionSync =>
    refine sim_proceed fun tx => sim_request blind_gotExecuted fun result =>
      sim_sessionBlockEnv fun env => ?_
    split
    · exact sim_ask (by exact fun _ _ h => h) fun _ => .ret _
    · exact .panic
  | ethGetTransactionReceipt =>
    refine sim_proceed fun s => ?_
    split
    · exact sim_ask (by exact fun _ _ h => h) fun _ => .ret _
    · exact .ret _
  | ethEstimateGas =>
    exact sim_proceed fun _ => sim_request blind_gotBasic fun _ =>
      sim_request blind_gotExecuted fun _ => .ret _
  | forkyardSetBalance =>
    exact sim_proceed fun _ => sim_proceed fun _ => sim_request blind_gotBasic fun _ =>
      sim_request blind_gotWritten fun _ => .ret _
  | forkyardSetStorageAt =>
    exact sim_proceed fun _ => sim_proceed fun _ => sim_proceed fun _ =>
      sim_request blind_gotWritten fun _ => .ret _
  | forkyardForkFrom =>
    refine sim_job (.ret _) fun reply reply' halike => ?_
    have hadopt : ∀ {s t : { s : Session F // s.readLog = none }}, Same up s.1 t.1 →
        Program.Sim up order
          (register (.adopt s) fun child => .ask (.inherit id child) fun _ =>
            .ret (.ok (.session child)) : Rpc F)
          (register (.adopt t) fun child => .ask (.inherit id child) fun _ =>
            .ret (.ok (.session child))) := by
      intro s t hsame
      refine .ask (.refl .draw) fun child child' hagree => ?_
      obtain rfl : child = child' := hagree
      refine .ask (.adopt child hsame) fun _ _ _ => ?_
      exact sim_ask (by exact fun _ _ h => h) fun _ => .ret _
    cases halike with
    | refl =>
      refine sim_proceed fun s => hadopt (same_refl s.2)
    | state hsame => exact .ret _
    | @branch s t hsame =>
      have hs : ({ s with readLog := none } : Session F) = s := by
        rw [← hsame.left]
      have ht : ({ t with readLog := none } : Session F) = t := by
        rw [← hsame.right]
      have hsame' : Same up ({ s with readLog := none } : Session F)
          ({ t with readLog := none } : Session F) := by
        rw [hs, ht]
        exact hsame
      exact hadopt (s := ⟨{ s with readLog := none }, rfl⟩) (t := ⟨{ t with readLog := none }, rfl⟩)
        hsame'
  | forkyardSnapshot => exact absurd rfl h
  | forkyardDiscard =>
    exact sim_request blind_gotAck fun _ => sim_ask (by exact fun _ _ h => h) fun _ => .ret _

/-- A method that only looks asks nothing that changes anything. -/
theorem handle_quiet {method : RpcMethod} (h : method.reads = true) :
    Program.Quiet up evm order stored (w.handle chainId id params method : Rpc F) := by
  cases method with
  | ethChainId => exact trivial
  | ethBlockNumber =>
    refine ⟨fun b b' h => h, fun sends => quiet_sessionBlockEnv fun env => ?_⟩
    split <;> exact trivial
  | ethGasPrice => exact quiet_sessionBlockEnv fun env => trivial
  | ethGetBalance => exact quiet_proceed fun _ => quiet_request rfl fun _ => trivial
  | ethGetTransactionCount => exact quiet_proceed fun _ => quiet_request rfl fun _ => trivial
  | ethCall => exact quiet_proceed fun _ => quiet_request rfl fun _ => trivial
  | ethGetStorageAt =>
    exact quiet_proceed fun _ => quiet_proceed fun _ => quiet_request rfl fun _ => trivial
  | ethGetCode => exact quiet_proceed fun _ => quiet_request rfl fun _ => trivial
  | ethGetTransactionReceipt =>
    refine quiet_proceed fun s => ?_
    split
    · exact ⟨fun b b' h => h, fun _ => trivial⟩
    · exact trivial
  | ethEstimateGas =>
    exact quiet_proceed fun _ => quiet_request rfl fun _ => quiet_request rfl fun _ => trivial
  | forkyardSnapshot =>
    exact quiet_proceed fun _ => quiet_request rfl fun _ =>
      ⟨fun b b' h => h, fun _ => quiet_proceed fun _ => trivial⟩
  | ethSendRawTransaction => cases h
  | ethSendRawTransactionSync => cases h
  | forkyardSetBalance => cases h
  | forkyardSetStorageAt => cases h
  | forkyardForkFrom => cases h
  | forkyardDiscard => cases h

/-- What is left of a send that has been committed does not fail. -/
theorem sent_all (tx : LegacyTx) (result : ExecutionResult) (sync : Bool) :
    (Wire.sent id tx result sync : Rpc F).All fun r => ¬ Failed r := by
  refine all_sessionBlockEnv fun env => ?_
  split
  · exact fun receipt => not_failed _
  · exact trivial

/-- A method that has changed anything does not fail. -/
theorem handle_harmless (method : RpcMethod) :
    Program.Harmless up evm order stored Failed (w.handle chainId id params method : Rpc F) := by
  have hsend : ∀ sync, Program.Harmless up evm order stored Failed
      (w.ethSendRawTransaction id params sync : Rpc F) := fun sync =>
    harmless_proceed fun tx => harmless_request
      (by rintro - _ ⟨result, rfl⟩; exact ⟨result, rfl, sent_all id tx result sync⟩)
      fun result => all_harmless (sent_all id tx result sync)
  cases method with
  | ethSendRawTransaction => exact hsend false
  | ethSendRawTransactionSync => exact hsend true
  | forkyardSetBalance =>
    refine harmless_proceed fun address => harmless_proceed fun balance =>
      harmless_request (by rintro ⟨⟩) fun info => harmless_request ?_ fun _ => trivial
    rintro - _ rfl
    exact ⟨(), rfl, not_failed _⟩
  | forkyardSetStorageAt =>
    refine harmless_proceed fun address => harmless_proceed fun key => harmless_proceed fun value =>
      harmless_request ?_ fun _ => trivial
    rintro - _ rfl
    exact ⟨(), rfl, not_failed _⟩
  | forkyardForkFrom =>
    exact harmless_request (by rintro ⟨⟩) fun s =>
      all_harmless fun child _ _ => not_failed (Answered.session child)
  | forkyardDiscard =>
    refine harmless_request ?_ fun _ => all_harmless fun _ => not_failed Answered.truth
    rintro - _ rfl
    exact ⟨(), rfl, fun _ => not_failed _⟩
  | _ => exact quiet_harmless Failed (handle_quiet w chainId id params rfl)

end Methods

/-! ### The tools -/

/-- The tool only looks. -/
def ToolCall.reads : ToolCall → Bool
  | .fork | .setBalance _ _ _ | .setStorage _ _ _ _ | .advance _ | .discard _ => false
  | _ => true

def ToolCall.snapshots : ToolCall → Bool
  | .snapshot _ => true
  | _ => false

section Tools

variable [ToString E] {up : F → Upstream E} {evm : Evm E} {order : HashOrder}
  {stored : UInt64 → SessionState → Except String SnapshotInfo} (w : Wire)

omit [ToString E] in
theorem explain_sim (id : SessionId) (caller : Address) (gasPrice gasLimit : UInt64)
    (e : ManagerError) :
    Program.Sim up order (Wire.explainFeeError id caller gasPrice gasLimit e : Tool F)
      (Wire.explainFeeError id caller gasPrice gasLimit e) := by
  unfold Wire.explainFeeError
  split
  · refine sim_job (.ret _) fun reply reply' halike => ?_
    rw [blind_gotBlockEnv reply reply' halike]
    exact .ret _
  · exact .ret _
  · exact .ret _

omit [ToString E] in
theorem transfer_sim (args : TransferArgs) (commit : Bool) :
    Program.Sim up order (w.runTransfer args commit : Tool F) (w.runTransfer args commit) := by
  have hpriced : ∀ caller kind value data gasPrice, Program.Sim up order
      (Wire.runPriced args commit caller kind value data gasPrice : Tool F)
      (Wire.runPriced args commit caller kind value data gasPrice) := by
    intro caller kind value data gasPrice
    refine sim_job (explain_sim _ _ _ _ _) fun reply reply' halike => ?_
    rw [blind_gotExecuted reply reply' halike]
    split
    · exact .ret _
    · exact explain_sim _ _ _ _ _
  refine sim_proceed fun caller => sim_proceed fun kind => sim_proceed fun value =>
    sim_proceed fun data => ?_
  split
  · exact hpriced _ _ _ _ _
  · exact sim_request blind_gotBlockEnv fun env => hpriced _ _ _ _ _

omit [ToString E] in
/-- No tool but a snapshot can tell backends apart that are alike. -/
theorem tool_sim {call : ToolCall} (h : call.snapshots = false) :
    Program.Sim up order (w.tool call : Tool F) (w.tool call) := by
  cases call with
  | fork =>
    exact sim_ask (by exact fun _ _ h => h) fun _ => sim_ask (by exact fun _ _ h => h) fun _ =>
      sim_ask (by exact fun _ _ h => h) fun _ => sim_ask (by exact fun _ _ h => h) fun _ =>
        sim_ask (by exact fun _ _ h => h) fun _ => .ret _
  | getBalance id address =>
    exact sim_proceed fun _ => sim_request blind_gotBasic fun _ => .ret _
  | setBalance id address balance =>
    exact sim_proceed fun _ => sim_proceed fun _ => sim_request blind_gotBasic fun _ =>
      sim_request blind_gotWritten fun _ => .ret _
  | setStorage id address slot value =>
    exact sim_proceed fun _ => sim_proceed fun _ => sim_proceed fun _ =>
      sim_request blind_gotWritten fun _ => .ret _
  | getStorage id address slot =>
    exact sim_proceed fun _ => sim_proceed fun _ => sim_request blind_gotStorage fun _ => .ret _
  | getCode id address =>
    exact sim_proceed fun _ => sim_request blind_gotCode fun _ => .ret _
  | simulate args => exact transfer_sim w args false
  | advance args => exact transfer_sim w args true
  | snapshot id => cases h
  | discard id => exact sim_request blind_gotAck fun _ => .ret _

theorem explain_quiet (id : SessionId) (caller : Address) (gasPrice gasLimit : UInt64)
    (e : ManagerError) : Program.Quiet up evm order stored
      (Wire.explainFeeError id caller gasPrice gasLimit e : Tool F) := by
  unfold Wire.explainFeeError
  split
  · exact quiet_job rfl fun _ => trivial
  · exact trivial
  · exact trivial

/-- A tool that only looks asks nothing that changes anything. -/
theorem tool_quiet {call : ToolCall} (h : call.reads = true) :
    Program.Quiet up evm order stored (w.tool call : Tool F) := by
  cases call with
  | getBalance id address => exact quiet_proceed fun _ => quiet_request rfl fun _ => trivial
  | getStorage id address slot =>
    exact quiet_proceed fun _ => quiet_proceed fun _ => quiet_request rfl fun _ => trivial
  | getCode id address => exact quiet_proceed fun _ => quiet_request rfl fun _ => trivial
  | simulate args =>
    have hpriced : ∀ caller kind value data gasPrice, Program.Quiet up evm order stored
        (Wire.runPriced args false caller kind value data gasPrice : Tool F) := by
      intro caller kind value data gasPrice
      refine quiet_job rfl fun reply => ?_
      split
      · exact trivial
      · exact explain_quiet _ _ _ _ _
    refine quiet_proceed fun caller => quiet_proceed fun kind => quiet_proceed fun value =>
      quiet_proceed fun data => ?_
    split
    · exact hpriced _ _ _ _ _
    · exact quiet_request rfl fun env => hpriced _ _ _ _ _
  | snapshot id =>
    exact quiet_proceed fun _ => quiet_request rfl fun _ =>
      ⟨fun b b' h => h, fun _ => quiet_proceed fun _ => trivial⟩
  | fork => cases h
  | setBalance id address balance => cases h
  | setStorage id address slot value => cases h
  | advance args => cases h
  | discard id => cases h

/-- A tool that has changed anything does not fail. -/
theorem tool_harmless (call : ToolCall) :
    Program.Harmless up evm order stored Failed (w.tool call : Tool F) := by
  cases call with
  | fork =>
    exact ⟨fun b b' h => .inl h, fun _ => ⟨fun b b' h => .inl h, fun _ =>
      ⟨fun b b' h => .inl h, fun _ => all_harmless fun id _ => not_failed _⟩⟩⟩
  | setBalance id address balance =>
    refine harmless_proceed fun address => harmless_proceed fun balance =>
      harmless_request (by rintro ⟨⟩) fun info => harmless_request ?_ fun _ => trivial
    rintro - _ rfl
    exact ⟨(), rfl, not_failed _⟩
  | setStorage id address slot value =>
    refine harmless_proceed fun address => harmless_proceed fun slot => harmless_proceed fun value =>
      harmless_request ?_ fun _ => trivial
    rintro - _ rfl
    exact ⟨(), rfl, not_failed _⟩
  | advance args =>
    have hpriced : ∀ caller kind value data gasPrice, Program.Harmless up evm order stored Failed
        (Wire.runPriced args true caller kind value data gasPrice : Tool F) := by
      intro caller kind value data gasPrice
      refine ⟨fun b b' h => (serve_mild (Wire.transferJob _ _ _).2 h).imp_right ?_, fun reply => ?_⟩
      · rintro ⟨-, reply, hreply, result, rfl⟩
        simp only [Backend.answer, hreply]
        exact not_failed _
      · dsimp only
        split
        · exact trivial
        · exact quiet_harmless Failed (explain_quiet _ _ _ _ _)
    refine harmless_proceed fun caller => harmless_proceed fun kind => harmless_proceed fun value =>
      harmless_proceed fun data => ?_
    split
    · exact hpriced _ _ _ _ _
    · exact harmless_request (by rintro ⟨⟩) fun env => hpriced _ _ _ _ _
  | discard id =>
    refine harmless_request ?_ fun _ => trivial
    rintro - _ rfl
    exact ⟨(), rfl, not_failed _⟩
  | _ => exact quiet_harmless Failed (tool_quiet w rfl)

end Tools

/-! ### Both surfaces -/

/-- A request of either surface. -/
inductive SurfaceCall where
  | rpc (id : SessionId) (method : String) (params : List Value)
  | tool (call : ToolCall)

/-- What it is answered. -/
inductive SurfaceReply where
  | rpc (r : Except RpcErrorObj Answered)
  | tool (r : Except ErrorData ToolAnswer)

def SurfaceReply.Failed : SurfaceReply → Prop
  | .rpc r => Forkyard.Failed r
  | .tool r => Forkyard.Failed r

namespace SurfaceCall

def program (w : Wire) (chainId : UInt64) : SurfaceCall → Program F SurfaceReply
  | .rpc id method params => (w.dispatch chainId id params method).map .rpc
  | .tool call => (w.tool call).map .tool

/-- A method nobody knows does not even look. -/
def reads : SurfaceCall → Bool
  | .rpc _ method _ => ((RpcMethod.parse method).map RpcMethod.reads).getD true
  | .tool call => call.reads

def snapshots : SurfaceCall → Bool
  | .rpc _ method _ => decide (RpcMethod.parse method = some .forkyardSnapshot)
  | .tool call => call.snapshots

end SurfaceCall

/-- A request comes in on either surface, takes its next step, or something befalls the manager from
    elsewhere. -/
inductive SurfaceEvent (F : Type) where
  | call (call : SurfaceCall)
  | move (i : ℕ)
  | happen (happening : Happening F)

namespace SurfaceEvent

def made : SurfaceEvent F → Option SurfaceCall
  | .call c => some c
  | _ => none

def served (silent : ℕ → Bool) : SurfaceEvent F → Bool
  | .move i => !silent i
  | _ => true

def event (w : Wire) (chainId : UInt64) :
    SurfaceEvent F → CrowdEvent (Hop F) Hop.Answer SurfaceReply (Happening F)
  | .call c => .request (c.program w chainId)
  | .move i => .move i
  | .happen happening => .outside happening

end SurfaceEvent

section Surfaces

variable [ToString E] (up : F → Upstream E) (evm : Evm E) (order : HashOrder)
  (stored : UInt64 → SessionState → Except String SnapshotInfo) (w : Wire) (chainId : UInt64)

/-- Both surfaces in front of one backend, after these events. -/
def surfaces (b : Backend F) (events : List (SurfaceEvent F)) :
    Crowd (Hop F) Hop.Answer SurfaceReply (Backend F) :=
  (Crowd.start b).run (Backend.answer up evm order stored) (fun e b => b.happen up evm order e)
    (events.map (SurfaceEvent.event w chainId))

variable {up evm order stored w chainId}

omit [ToString E] in
theorem program_sim {call : SurfaceCall} (h : call.snapshots = false) :
    Program.Sim up order (call.program w chainId : Program F SurfaceReply)
      (call.program w chainId) := by
  cases call with
  | tool call => exact sim_map _ (tool_sim w h)
  | rpc id method params =>
    refine sim_map _ ?_
    unfold Wire.dispatch
    split
    · exact .ret _
    · rename_i method' hparse
      refine handle_sim w chainId id params ?_
      rintro rfl
      exact absurd hparse (of_decide_eq_false h)

theorem program_quiet {call : SurfaceCall} (h : call.reads = true) :
    Program.Quiet up evm order stored (call.program w chainId : Program F SurfaceReply) := by
  cases call with
  | tool call => exact quiet_map _ (tool_quiet w h)
  | rpc id method params =>
    refine quiet_map _ ?_
    unfold Wire.dispatch
    split
    · exact trivial
    · rename_i method' hparse
      refine handle_quiet w chainId id params ?_
      simpa [SurfaceCall.reads, hparse] using h

theorem program_harmless (call : SurfaceCall) :
    Program.Harmless up evm order stored SurfaceReply.Failed
      (call.program w chainId : Program F SurfaceReply) := by
  cases call with
  | tool call => exact harmless_map SurfaceReply.tool (fun _ h => h) (tool_harmless w call)
  | rpc id method params =>
    refine harmless_map SurfaceReply.rpc (fun _ h => h) ?_
    unfold Wire.dispatch
    split
    · exact trivial
    · exact handle_harmless w chainId id params _

omit [ToString E] in
/-- The programs of a run are those of its calls. -/
theorem made_events (events : List (SurfaceEvent F)) :
    (events.map (SurfaceEvent.event w chainId)).filterMap CrowdEvent.made
      = (events.filterMap SurfaceEvent.made).map fun call => call.program w chainId := by
  rw [List.filterMap_map, List.map_filterMap]
  refine List.filterMap_congr fun event _ => ?_
  cases event <;> rfl

omit [ToString E] in
theorem moved_events {k : ℕ} {events : List (SurfaceEvent F)} :
    .move k ∈ events.map (SurfaceEvent.event w chainId) → .move k ∈ events := by
  intro h
  obtain ⟨event, hevent, hmoved⟩ := List.mem_map.mp h
  cases event with
  | call c => cases hmoved
  | happen e => cases hmoved
  | move k' => exact CrowdEvent.move.inj hmoved ▸ hevent

omit [ToString E] in
theorem happened_events {e : Happening F} {events : List (SurfaceEvent F)} :
    .outside e ∈ events.map (SurfaceEvent.event w chainId) → .happen e ∈ events := by
  intro h
  obtain ⟨event, hevent, hcame⟩ := List.mem_map.mp h
  cases event with
  | call c => cases hcame
  | move k => cases hcame
  | happen e' => exact CrowdEvent.outside.inj hcame ▸ hevent

variable (up evm order stored w chainId) in
/-- A run goes on where it left off. -/
theorem surfaces_append (b : Backend F) (events more : List (SurfaceEvent F)) :
    surfaces up evm order stored w chainId b (events ++ more)
      = (surfaces up evm order stored w chainId b events).run (Backend.answer up evm order stored)
          (fun e b => b.happen up evm order e) (more.map (SurfaceEvent.event w chainId)) := by
  simp only [surfaces, List.map_append, Crowd.run, runAll_append]

variable (up evm order stored w chainId) in
/-- The requests of a run are as many as its calls. -/
theorem surfaces_length (b : Backend F) (events : List (SurfaceEvent F)) :
    (surfaces up evm order stored w chainId b events).requests.length
      = (events.filterMap SurfaceEvent.made).length := by
  rw [surfaces, run_length, made_events, List.length_map]
  exact Nat.zero_add _

variable (up evm order stored w chainId) in
/-- The calls of what comes next come after those. -/
theorem surfaces_next (b : Backend F) (events : List (SurfaceEvent F)) {more : List (SurfaceEvent F)}
    {i : ℕ} {call : SurfaceCall} (hcall : (more.filterMap SurfaceEvent.made)[i]? = some call) :
    ((surfaces up evm order stored w chainId b events).requests ++
        (more.map (SurfaceEvent.event w chainId)).filterMap CrowdEvent.made)[
          (events.filterMap SurfaceEvent.made).length + i]? = some (call.program w chainId) := by
  have hlength := surfaces_length up evm order stored w chainId b events
  rw [List.getElem?_append_right (hlength ▸ Nat.le_add_right _ _), hlength,
    Nat.add_sub_cancel_left, made_events, List.getElem?_map, hcall, Option.map_some]

theorem served_events (silent : ℕ → Bool) (events : List (SurfaceEvent F)) :
    (events.map (SurfaceEvent.event w chainId)).filter (CrowdEvent.served silent)
      = (events.filter (SurfaceEvent.served silent)).map (SurfaceEvent.event w chainId) := by
  rw [List.filter_map]
  refine congrArg _ (List.filter_congr fun event _ => ?_)
  cases event <;> rfl

/-- UNNOTICED: whatever requests that only look or fail in the end are left out of a run, all others
    are answered as they were, and every session shows what it showed. -/
theorem looks_unnoticed {b : Backend F}
    (hquiet : ∀ id s, b.sessions.lookup id = some s → s.readLog = none)
    {events : List (SurfaceEvent F)} {silent : ℕ → Bool}
    (hsilent : ∀ i call, (events.filterMap SurfaceEvent.made)[i]? = some call →
      if silent i then call.reads = true ∨ ∃ r,
          (surfaces up evm order stored w chainId b events).requests[i]? = some (.ret r) ∧ r.Failed
      else call.snapshots = false) :
    (surfaces up evm order stored w chainId b events).store.Alike up
        (surfaces up evm order stored w chainId b
          (events.filter (SurfaceEvent.served silent))).store ∧
      ∀ i r, silent i = false →
        ((surfaces up evm order stored w chainId b events).requests[i]? = some (.ret r) ↔
          (surfaces up evm order stored w chainId b
            (events.filter (SurfaceEvent.served silent))).requests[i]? = some (.ret r)) := by
  have hcall : ∀ {i : ℕ} {t : Program F SurfaceReply},
      ((events.map (SurfaceEvent.event w chainId)).filterMap CrowdEvent.made)[i]? = some t →
      ∃ call, (events.filterMap SurfaceEvent.made)[i]? = some call ∧
        t = call.program w chainId := by
    intro i t ht
    rw [made_events, List.getElem?_map, Option.map_eq_some_iff] at ht
    obtain ⟨call, hcall, rfl⟩ := ht
    exact ⟨call, hcall, rfl⟩
  have hstart : b.Alike up b :=
    ⟨fun id => sameSlot_refl (hquiet id), rfl, rfl, rfl, rfl, rfl, rfl⟩
  simp only [surfaces] at hsilent ⊢
  rw [← served_events]
  refine silence_unnoticed SurfaceReply.Failed (backend_congruent up evm order stored) hstart
    (fun i t hi ht => ?_) fun i t hi ht => ?_
  · obtain ⟨call, hcall, rfl⟩ := hcall ht
    have hkept := hsilent i call hcall
    rw [hi] at hkept
    exact program_sim hkept
  · obtain ⟨call, hcall, rfl⟩ := hcall ht
    have hreads := hsilent i call hcall
    rw [hi, if_pos rfl] at hreads
    exact hreads.imp program_quiet fun hfailed => ⟨program_harmless call, hfailed⟩

end Surfaces

/-- A parser of full addresses, of numerals that fit and of bytes. -/
def numeralHex : HexParser where
  address s :=
    match hexAlphabet.read (s.toList.drop 2) 0 with
    | some n => if s.toList.length = 42 then .ok (.ofNat 160 n) else .error "invalid string length"
    | none => .error "invalid character"
  u256 s :=
    match hexAlphabet.read s.toList 0 with
    | some n => if n < 2 ^ 256 then .ok (.ofNat 256 n) else .error "number too large"
    | none => .error "invalid digit"
  bytes := hexDecode

def numeralWire : Wire := ⟨numeralHex, fun _ => .error "unexpected list", fun _ => "rejected", false⟩

/-- The address `0xa`. -/
def addressA : Value := .string "0x000000000000000000000000000000000000000a"

/-- A session is opened, and while one slot of it is set another is looked at, and a slot of a session
    that is not there is to be set. -/
def busy : List (SurfaceEvent Unit) :=
  [.call (.tool .fork), .move 0, .move 0, .move 0, .move 0, .move 0,
    .call (.rpc 0 "forkyard_setStorageAt" [addressA, .string "0x7", .string "0x2a"]),
    .call (.rpc 0 "eth_getStorageAt" [addressA, .string "0x7"]),
    .call (.rpc 9 "forkyard_setStorageAt" [addressA, .string "0x7", .string "0x1"]),
    .move 2, .move 3, .move 1]

def idleBackend : Backend Unit := .start () ⟨1, 0, 0, 30000000⟩

/-- The look and the failure are left out. -/
theorem looks_unnoticed_busy :
    (surfaces emptyUpstream inert .some (fun _ _ => .error "no store") numeralWire 1 idleBackend
        busy).store.Alike emptyUpstream
      (surfaces emptyUpstream inert .some (fun _ _ => .error "no store") numeralWire 1 idleBackend
        (busy.filter (SurfaceEvent.served fun i => decide (2 ≤ i)))).store ∧
    ∀ i r, decide (2 ≤ i) = false →
      ((surfaces emptyUpstream inert .some (fun _ _ => .error "no store") numeralWire 1 idleBackend
          busy).requests[i]? = some (.ret r) ↔
        (surfaces emptyUpstream inert .some (fun _ _ => .error "no store") numeralWire 1 idleBackend
          (busy.filter (SurfaceEvent.served fun i => decide (2 ≤ i)))).requests[i]?
            = some (.ret r)) := by
  refine looks_unnoticed (fun id s hs => ?_) fun i call hcall => ?_
  · simp [idleBackend, Backend.start] at hs
  · match i, hcall with
    | 0, hcall => exact Option.some.inj hcall ▸ rfl
    | 1, hcall => exact Option.some.inj hcall ▸ rfl
    | 2, hcall => exact Option.some.inj hcall ▸ .inl rfl
    | 3, hcall => exact .inr ⟨.rpc (.error ⟨-32001, "unknown or expired session 9"⟩), by rfl, _, rfl⟩

end Forkyard
