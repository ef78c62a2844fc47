import Forkyard.Session.Sharded
import Forkyard.Api.Unnoticed

/-! Both surfaces in front of the worker pool. A request sends each of its jobs to the worker of the
    job's session and waits for the reply there, while other requests go on and the workers take
    their messages in whatever order they come to them. To whoever is answered this is the one
    backend that serves each job whole, at the moment it is sent: every run of the site is a run of
    the backend, step for step less the waiting.

        site:     ─ send job ──▶ queue ─▶ pass ─▶ resolve ─▶ pass ─▶ reply ──▶ go on
        backend:  ─ serve job ─▶ go on -/

namespace Forkyard

open Schemes

variable {F E : Type}

/-! ### The site -/

/-- A request: what is left of it, or the job it waits for and what it goes on with. -/
inductive Underway (F R : Type) where
  | running (t : Program F R)
  | waiting (posted : Posted F) (k : Option (Reply F) → Program F R)

/-- The pool, with what both surfaces share besides. `elsewhere` is every id that has been drawn to
    register a session at another block or from a snapshot and is yet to be sent for. -/
structure Site (F : Type) where
  pool : Pool F
  elsewhere : List SessionId
  base : BaseSnapshot
  fallback : F
  blockEnv : BlockEnv
  rpcState : Map SessionId SessionRpcState
  requests : List (Underway F SurfaceReply)

/-- A surface does something, or on some worker a message is taken, a resolver ends or a second has
    gone by without a message. -/
inductive SiteEvent (up : F → Upstream E) where
  | surface (event : SurfaceEvent F)
  | work (w : ℕ) (now : Instant) (landed : Landed up) (spawns : Bool)
  | resolved (w : ℕ) (i : ℕ) (failed : Bool)
  | timeout (w : ℕ) (now : Instant)

def Pool.drawId (pool : Pool F) : Pool F :=
  { pool with nextId := pool.nextId + 1, drawn := pool.drawn ++ [pool.nextId] }

namespace Site

def start (fetch : Fetch F) (numWorkers : ℕ) (fallback : F) (blockEnv : BlockEnv) : Site F :=
  ⟨.start fetch numWorkers, [], .empty, fallback, blockEnv, ∅, []⟩

def setRequest (site : Site F) (i : ℕ) (request : Underway F SurfaceReply) : Site F :=
  { site with requests := site.requests.set i request }

/-- The defaults and the side table: a backend without a session. -/
def desk (site : Site F) : Backend F :=
  { Backend.start site.fallback site.blockEnv with base := site.base, rpcState := site.rpcState }

section Steps

variable [ToString E] [DecidableEq F] (up : F → Upstream E) (evm : Evm E) (order : HashOrder)
  (stored : UInt64 → SessionState → Except String SnapshotInfo) (w : Wire) (chainId : UInt64)
  (ttl : ℕ)

/-- The next step of the `i`-th request. -/
def move (site : Site F) (i : ℕ) : Underway F SurfaceReply → Site F
  | .running (.ask (.job job) k) =>
    { site.setRequest i (.waiting ⟨job.1, site.pool.channels⟩ k) with pool := site.pool.post job.1 }
  | .running (.ask (.send id opening) k) =>
    { site.setRequest i (.waiting ⟨.command (opening.command id), site.pool.channels⟩ fun _ => k ()) with
      pool := site.pool.post (.command (opening.command id)) }
  | .running (.ask .draw k) =>
    { site.setRequest i (.running (k site.pool.nextId)) with pool := site.pool.drawId }
  -- all else takes no session
  | .running (.ask hop k) =>
    let (a, desk) := Backend.answer up evm order stored hop site.desk
    { site.setRequest i (.running (k a)) with rpcState := desk.rpcState }
  | .running (.ret _) => site
  | .running .panic => site
  | .waiting posted k =>
    match site.pool.receive posted with
    | .pending => site
    | .reply reply => site.setRequest i (.running (k (some reply)))
    | .lost => site.setRequest i (.running (k none))

/-- What is up to a surface or to the manager. Sessions are reaped by the workers alone. -/
def happen (site : Site F) : Happening F → Site F
  | .expire _ => site
  | .draw =>
    { site with pool := site.pool.drawId, elsewhere := site.elsewhere ++ [site.pool.nextId] }
  | .send id opening =>
    if id ∈ site.elsewhere then
      { site with
        pool := site.pool.post (.command (opening.command id))
        elsewhere := site.elsewhere.erase id }
    else site
  | .setBase base => { site with base := base }
  | .setFallback fallback => { site with fallback := fallback }
  | .setBlockEnv blockEnv => { site with blockEnv := blockEnv }

def step (site : Site F) : SiteEvent up → Site F
  | .surface (.call c) =>
    { site with requests := site.requests ++ [.running (c.program w chainId)] }
  | .surface (.move i) =>
    match site.requests[i]? with
    | some request => site.move up evm order stored i request
    | none => site
  | .surface (.happen happening) => site.happen happening
  | .work v now landed spawns =>
    { site with pool := site.pool.step up evm order ttl (.work v now landed spawns) }
  | .resolved v i failed =>
    { site with pool := site.pool.step up evm order ttl (.resolved v i failed) }
  | .timeout v now => { site with pool := site.pool.step up evm order ttl (.timeout v now) }

/-- What a step of the site is to the backend: nothing while a request waits, or where the workers
    are at it among themselves. -/
def sees (site : Site F) : SiteEvent up → Option (SurfaceEvent F)
  | .surface (.move i) =>
    match site.requests[i]? with
    | some (.running _) => some (.move i)
    | _ => none
  | .surface (.happen (.expire _)) => none
  | .surface (.happen (.send id opening)) =>
    if id ∈ site.elsewhere then some (.happen (.send id opening)) else none
  | .surface event => some event
  | .work _ _ _ _ => none
  | .resolved _ _ _ => none
  | .timeout _ _ => none

end Steps

end Site

/-! ### A pool with jobs of any sender -/

section Pools

variable [ToString E] {up : F → Upstream E} {evm : Evm E} {order : HashOrder} {pool pool' : Pool F}
  {ttl : ℕ}

variable (up evm order) in
/-- INVARIANT of the pool behind a site: the requests hold what its calls would. -/
structure Pool.Manned (pool : Pool F) : Prop where
  wired : pool.Wired
  steady : ∀ (v : ℕ) wk, pool.workers[v]? = some wk → Steady up evm order wk
  calls : pool.calls = []

omit [ToString E] in
/-- Only its own worker takes notice of a job that is sent. -/
theorem post_workers {job : Job F} {v : ℕ} {wk' : Worker F}
    (h : (pool.post job).workers[v]? = some wk') : ∃ wk, pool.workers[v]? = some wk ∧
      (pool.shard job.sessionId = v ∧ wk' = { wk with
          inbox := wk.inbox ++ [.job ⟨job, pool.channels⟩]
          arrived := wk.arrived ++ [⟨job, pool.channels⟩] } ∨
        pool.shard job.sessionId ≠ v ∧ wk' = wk) := by
  rw [Pool.post, List.getElem?_modify, Option.map_eq_map, Option.map_eq_some_iff] at h
  obtain ⟨wk, hwk, rfl⟩ := h
  refine ⟨wk, hwk, ?_⟩
  split
  · rename_i hv
    exact .inl ⟨hv, rfl⟩
  · rename_i hv
    exact .inr ⟨hv, rfl⟩

/-- STEP LEMMA: a job is sent. -/
theorem manned_post (h : pool.Manned up evm order) {job : Job F} (hcalm : job.Calm evm) :
    (pool.post job).Manned up evm order := by
  have hlength : (pool.post job).workers.length = pool.workers.length := List.length_modify ..
  refine ⟨⟨hlength ▸ h.wired.pos, fun v wk' hwk' => ?_, ?_, ?_⟩, fun v wk' hwk' => ?_, h.calls⟩
  · obtain ⟨wk, hwk, ⟨hv, rfl⟩ | ⟨hv, rfl⟩⟩ := post_workers hwk'
    · exact wiredAt_post (h.wired.workers v wk hwk) hv hlength rfl
    · obtain ⟨hlines, hrouted, hfresh, hnodup, hanswered⟩ := h.wired.workers v _ hwk
      exact ⟨hlines, fun posted hp => (post_shard job _).trans (hrouted posted hp),
        fun posted hp => Nat.lt_succ_of_lt (hfresh posted hp), hnodup, hanswered⟩
  · intro call hcall
    rw [Pool.post, h.calls] at hcall
    cases hcall
  · intro posted reply hcall
    rw [Pool.post, h.calls] at hcall
    cases hcall
  · obtain ⟨wk, hwk, ⟨hv, rfl⟩ | ⟨hv, rfl⟩⟩ := post_workers hwk'
    · exact steady_post (h.steady v wk hwk) hcalm
    · exact h.steady v _ hwk

/-- STEP LEMMA: an id is drawn. -/
theorem manned_drawId (h : pool.Manned up evm order) : pool.drawId.Manned up evm order := by
  refine ⟨⟨h.wired.pos, fun v wk hwk => ?_, ?_, ?_⟩, h.steady, h.calls⟩
  · obtain ⟨hlines, hrouted, hfresh, hnodup, hanswered⟩ := h.wired.workers v wk hwk
    exact ⟨hlines, hrouted, hfresh, hnodup, hanswered⟩
  · intro call hcall
    rw [Pool.drawId, h.calls] at hcall
    cases hcall
  · intro posted reply hcall
    rw [Pool.drawId, h.calls] at hcall
    cases hcall

/-- Pools whose workers have received the same. -/
theorem arrivedOf_same (h : pool.Manned up evm order) (h' : pool'.Manned up evm order)
    (hlength : pool'.workers.length = pool.workers.length)
    (hworkers : ∀ (v : ℕ) wk', pool'.workers[v]? = some wk' →
      ∃ wk, pool.workers[v]? = some wk ∧ wk'.arrived = wk.arrived) (id : SessionId) :
    pool'.arrivedOf id = pool.arrivedOf id := by
  obtain ⟨wk, hwk, harrived, -⟩ := wired_alone h.wired id
  obtain ⟨wk', hwk', harrived', -⟩ := wired_alone h'.wired id
  obtain ⟨wk₀, hwk₀, hsame⟩ := hworkers _ wk' hwk'
  rw [Pool.shard, hlength, ← Pool.shard, hwk] at hwk₀
  obtain rfl := Option.some.inj hwk₀
  rw [harrived, harrived', Worker.arrivedOf, hsame, Worker.arrivedOf]

/-- A job that is sent arrives last, and at its own session. -/
theorem arrivedOf_post (h : pool.Manned up evm order) {job : Job F} (hcalm : job.Calm evm)
    (id : SessionId) : (pool.post job).arrivedOf id = if id = job.sessionId
      then pool.arrivedOf id ++ [⟨job, pool.channels⟩] else pool.arrivedOf id := by
  obtain ⟨wk, hwk, harrived, -⟩ := wired_alone h.wired id
  obtain ⟨wk', hwk', harrived', -⟩ := wired_alone (manned_post h hcalm).wired id
  rw [post_shard] at hwk'
  rw [harrived, harrived']
  obtain ⟨wk₀, hwk₀, ⟨hv, rfl⟩ | ⟨hv, rfl⟩⟩ := post_workers hwk'
  · obtain rfl := Option.some.inj (hwk.symm.trans hwk₀)
    simp only [Worker.arrivedOf, List.filter_append, List.filter_cons, List.filter_nil]
    by_cases hid : id = job.sessionId
    · rw [if_pos hid, if_pos (decide_eq_true hid.symm)]
    · rw [if_neg hid, if_neg (by simpa using Ne.symm hid), List.append_nil]
  · obtain rfl := Option.some.inj (hwk.symm.trans hwk₀)
    exact (if_neg fun hid => hv (by rw [hid])).symm

/-- RECEIVED: the reply to a job is the reference's, where the job stands among its session's, and as
    long as it is not there it is still to come. -/
theorem manned_receive (h : pool.Manned up evm order) {posted : Posted F}
    {before after : List (Posted F)}
    (harrived : pool.arrivedOf posted.job.sessionId = before ++ posted :: after) :
    pool.receive posted = .pending ∨ ∃ reply, pool.receive posted = .reply reply ∧
      (refStep up evm order posted.job (reference up evm order before).2).1 = some reply := by
  obtain ⟨wk, hwk, hhome, hanswers, -⟩ := steady_alone h.wired h.steady posted.job.sessionId
  have hmem : posted ∈ wk.arrivedOf posted.job.sessionId := by
    rw [← hhome, harrived]
    exact List.mem_append_right _ List.mem_cons_self
  cases hreceive : pool.receive posted with
  | pending => exact .inl rfl
  | reply reply =>
    refine .inr ⟨reply, rfl, ?_⟩
    have htold := receive_told h.wired ⟨wk, hwk, (List.mem_filter.mp hmem).1⟩ hreceive
    obtain ⟨before', after', hsplit, hreply⟩ := told_referred h.wired h.steady htold
    -- a job stands in one place only
    have hnodup : (pool.arrivedOf posted.job.sessionId).Nodup := by
      rw [hhome]
      exact (List.Nodup.of_map Posted.reply (h.wired.workers _ wk hwk).nodup).filter _
    rw [harrived] at hsplit hnodup
    obtain ⟨hleft, hright, hapart⟩ := List.nodup_append.mp hnodup
    have hbefore : posted ∉ before := fun hp => hapart posted hp posted List.mem_cons_self rfl
    have hafter : posted ∉ after := (List.nodup_cons.mp hright).1
    obtain ⟨rfl, -, -⟩ := (List.append_cons_inj_of_notMem hbefore hafter).mp hsplit
    exact hreply
  | lost =>
    exfalso
    obtain ⟨done, hsplit, href, -⟩ := (steady_serial (h.steady _ wk hwk) _).inOrder
    simp only [Pool.receive, hwk, Worker.receive] at hreceive
    split at hreceive
    · cases hreceive
    · rename_i hfind
      split at hreceive
      · cases hreceive
      · rename_i hany
        rw [hsplit] at hmem
        rcases List.mem_append.mp hmem with hdone | hwaits
        · -- what is done is answered
          rw [← reference_jobs up evm order done, ← href, List.map_map] at hdone
          obtain ⟨a, ha, rfl⟩ := List.mem_map.mp hdone
          exact List.find?_eq_none.mp hfind a (List.mem_filter.mp ha).1 (decide_eq_true rfl)
        · exact hany (List.any_eq_true.mpr ⟨posted, hwaits, decide_eq_true rfl⟩)

variable [DecidableEq F]

/-- STEP LEMMA: on some worker something goes on, and nobody sends anything. -/
theorem manned_worked (h : pool.Manned up evm order) {event : PoolEvent up}
    (hsilent : ∀ i, event ≠ .turn i) (hcalls : (pool.step up evm order ttl event).calls = [])
    (hfresh : pool.Unreaped ttl event) :
    (pool.step up evm order ttl event).Manned up evm order ∧
      ∀ id, (pool.step up evm order ttl event).arrivedOf id = pool.arrivedOf id := by
  have hnobody : ∀ call ∈ pool.calls, ∀ job, call.job = some job → job.Calm evm := by
    rw [h.calls]
    rintro call ⟨⟩
  have hafter : (pool.step up evm order ttl event).Manned up evm order := by
    refine ⟨wired_step h.wired event, fun v wk' hwk' => ?_, hcalls⟩
    obtain ⟨wk, hwk, hmoved⟩ := step_moved event hwk'
    exact steady_moved (h.steady v wk hwk) hwk hnobody hfresh hmoved
  refine ⟨hafter, arrivedOf_same h hafter (step_length up evm order ttl pool event)
    fun v wk' hwk' => ?_⟩
  obtain ⟨wk, hwk, hmoved⟩ := step_moved event hwk'
  refine ⟨wk, hwk, ?_⟩
  cases hmoved with
  | idle => rfl
  | sweep hevent hinbox => rfl
  | work hevent => exact (work_logs up evm order _ _ _ wk).1
  | resolved hevent => exact (resolved_logs up evm order _ _ wk).1
  | post hevent hcall hjob hw => exact absurd hevent (hsilent _)

end Pools

/-! ### What a request holds -/

/-- The step takes no session. -/
def Hop.Aside : Hop F → Prop
  | .job _ | .draw | .send _ _ => False
  | _ => True

/-- No EVM run of the step panics. -/
def Hop.Calm [ToString E] (evm : Evm E) : Hop F → Prop
  | .job j => j.1.Calm evm
  | _ => True

/-- A program draws an id only to send for a session under it next, and it sends for none but that of
    the id it holds. -/
def Program.Holds {R : Type} : Program F R → Option SessionId → Prop
  | .ret _, held => held = none
  | .panic, held => held = none
  | .ask (.send id _) k, held => held = some id ∧ Program.Holds (k ()) none
  | .ask .draw k, held => held = none ∧ ∀ id, Program.Holds (k id) (some id)
  | .ask _ k, held => held = none ∧ ∀ a, Program.Holds (k a) none

section Requests

variable {R : Type}

/-- The id a request holds. -/
def Underway.held : Underway F R → List SessionId
  | .running (.ask (.send id _) _) => [id]
  | _ => []

theorem holds_held {t : Program F R} {held : Option SessionId} (h : t.Holds held) :
    (Underway.running t).held = held.toList := by
  match t, h with
  | .ret _, h => rw [show held = none from h]; rfl
  | .panic, h => rw [show held = none from h]; rfl
  | .ask hop k, h => cases hop <;> rw [h.1] <;> rfl

theorem holds_map {T : Type} (f : R → T) {t : Program F R} {held : Option SessionId}
    (h : t.Holds held) : Program.Holds (t.map f) held := by
  induction t generalizing held with
  | ret r => exact h
  | panic => exact h
  | ask hop k ih =>
    cases hop with
    | draw => exact ⟨h.1, fun id => ih id (h.2 id)⟩
    | send id opening => exact ⟨h.1, ih () h.2⟩
    | _ => exact ⟨h.1, fun a => ih a (h.2 a)⟩

theorem holds_proceed {ε A : Type} {e : Except ε A} {k : A → Program F (Except ε R)}
    (hk : ∀ a, (k a).Holds none) : (proceed e k).Holds none := by
  cases e with
  | error e => exact rfl
  | ok a => exact hk a

theorem holds_request {ε A : Type} {job : { job : Job F // job.opens = false }}
    {receive : Option (Reply F) → Except ManagerError A} {tell : ManagerError → ε}
    {k : A → Program F (Except ε R)} (hk : ∀ a, (k a).Holds none) :
    (request job receive tell k).Holds none :=
  ⟨rfl, fun _ => holds_proceed hk⟩

theorem holds_sessionBlockEnv {id : SessionId} {k : BlockEnv → Program F R}
    (hk : ∀ env, (k env).Holds none) : (sessionBlockEnv id k).Holds none := by
  refine ⟨rfl, fun reply => ?_⟩
  dsimp only
  split
  · exact hk _
  · exact ⟨rfl, hk⟩

theorem holds_register {opening : Opening F} {k : SessionId → Program F R}
    (hk : ∀ id, (k id).Holds none) : (register opening k).Holds none :=
  ⟨rfl, fun id => ⟨rfl, hk id⟩⟩

variable (F) (w : Wire)

theorem handle_holds (chainId : UInt64) (id : SessionId) (params : List Value) (method : RpcMethod) :
    (w.handle chainId id params method : Rpc F).Holds none := by
  have hsend : ∀ sync, (w.ethSendRawTransaction id params sync : Rpc F).Holds none := by
    intro sync
    refine holds_proceed fun tx => holds_request fun result => holds_sessionBlockEnv fun env => ?_
    split
    · exact ⟨rfl, fun _ => rfl⟩
    · exact rfl
  cases method with
  | ethChainId => exact rfl
  | ethBlockNumber =>
    refine ⟨rfl, fun sends => holds_sessionBlockEnv fun env => ?_⟩
    split <;> exact rfl
  | ethGasPrice => exact holds_sessionBlockEnv fun env => rfl
  | ethGetBalance => exact holds_proceed fun _ => holds_request fun _ => rfl
  | ethGetTransactionCount => exact holds_proceed fun _ => holds_request fun _ => rfl
  | ethCall => exact holds_proceed fun _ => holds_request fun _ => rfl
  | ethGetStorageAt => exact holds_proceed fun _ => holds_proceed fun _ => holds_request fun _ => rfl
  | ethGetCode => exact holds_proceed fun _ => holds_request fun _ => rfl
  | ethSendRawTransaction => exact hsend false
  | ethSendRawTransactionSync => exact hsend true
  | ethGetTransactionReceipt =>
    refine holds_proceed fun s => ?_
    split
    · exact ⟨rfl, fun _ => rfl⟩
    · exact rfl
  | ethEstimateGas =>
    exact holds_proceed fun _ => holds_request fun _ => holds_request fun _ => rfl
  | forkyardSetBalance =>
    exact holds_proceed fun _ => holds_proceed fun _ => holds_request fun _ =>
      holds_request fun _ => rfl
  | forkyardSetStorageAt =>
    exact holds_proceed fun _ => holds_proceed fun _ => holds_proceed fun _ =>
      holds_request fun _ => rfl
  | forkyardForkFrom =>
    exact holds_request fun _ => holds_register fun _ => ⟨rfl, fun _ => rfl⟩
  | forkyardSnapshot =>
    exact holds_proceed fun _ => holds_request fun _ => ⟨rfl, fun _ => holds_proceed fun _ => rfl⟩
  | forkyardDiscard => exact holds_request fun _ => ⟨rfl, fun _ => rfl⟩

theorem transfer_holds (args : TransferArgs) (commit : Bool) :
    (w.runTransfer args commit : Tool F).Holds none := by
  have hpriced : ∀ caller kind value data gasPrice,
      (Wire.runPriced args commit caller kind value data gasPrice : Tool F).Holds none := by
    intro caller kind value data gasPrice
    refine ⟨rfl, fun reply => ?_⟩
    dsimp only
    split
    · exact rfl
    · unfold Wire.explainFeeError
      split
      · exact ⟨rfl, fun _ => rfl⟩
      · exact rfl
      · exact rfl
  refine holds_proceed fun caller => holds_proceed fun kind => holds_proceed fun value =>
    holds_proceed fun data => ?_
  split
  · exact hpriced _ _ _ _ _
  · exact holds_request fun env => hpriced _ _ _ _ _

theorem tool_holds (call : ToolCall) : (w.tool call : Tool F).Holds none := by
  cases call with
  | fork => exact ⟨rfl, fun _ => ⟨rfl, fun _ => ⟨rfl, fun _ => holds_register fun _ => rfl⟩⟩⟩
  | getBalance id address => exact holds_proceed fun _ => holds_request fun _ => rfl
  | setBalance id address balance =>
    exact holds_proceed fun _ => holds_proceed fun _ => holds_request fun _ =>
      holds_request fun _ => rfl
  | setStorage id address slot value =>
    exact holds_proceed fun _ => holds_proceed fun _ => holds_proceed fun _ =>
      holds_request fun _ => rfl
  | getStorage id address slot =>
    exact holds_proceed fun _ => holds_proceed fun _ => holds_request fun _ => rfl
  | getCode id address => exact holds_proceed fun _ => holds_request fun _ => rfl
  | simulate args => exact transfer_holds F w args false
  | advance args => exact transfer_holds F w args true
  | snapshot id =>
    exact holds_proceed fun _ => holds_request fun _ => ⟨rfl, fun _ => holds_proceed fun _ => rfl⟩
  | discard id => exact holds_request fun _ => rfl

/-- No request of either surface comes by an id but by drawing it, and none keeps one. -/
theorem program_holds (chainId : UInt64) (call : SurfaceCall) :
    (call.program w chainId : Program F SurfaceReply).Holds none := by
  cases call with
  | tool call => exact holds_map SurfaceReply.tool (tool_holds F w call)
  | rpc id method params =>
    refine holds_map SurfaceReply.rpc ?_
    unfold Wire.dispatch
    split
    · exact rfl
    · exact handle_holds F w chainId id params _

end Requests

/-! ### In step -/

section InStep

variable [ToString E] (up : F → Upstream E) (evm : Evm E) (order : HashOrder) {R : Type}

/-- What is left of the request is the same there, or it waits here for the reply it has there. -/
def Underway.Meets (pool : Pool F) : Underway F R → Program F R → Prop
  | .running t, t' => t' = t
  | .waiting posted k, t' => ∃ before after,
    pool.arrivedOf posted.job.sessionId = before ++ posted :: after ∧
      t' = k (refStep up evm order posted.job (reference up evm order before).2).1

/-- What is left of the request asks for calm jobs only, and holds at most the id it sends next. -/
def Underway.Sane : Underway F R → Prop
  | .running t => t.Only (Hop.Calm evm) ∧ ∃ held, t.Holds held
  | .waiting _ k => ∀ a, (k a).Only (Hop.Calm evm) ∧ Program.Holds (k a) none

/-- The backend is what the site comes to once all jobs that have been sent are served, and every
    request is there what it is here, or what it will be as soon as it is replied to. -/
structure Site.Mirrors (site : Site F) (c : Crowd (Hop F) Hop.Answer SurfaceReply (Backend F)) :
    Prop where
  sessions : ∀ id, c.store.sessions.lookup id
    = (reference up evm order (site.pool.arrivedOf id)).2
  nextId : site.pool.nextId = UInt64.ofNat c.store.nextId
  base : c.store.base = site.base
  fallback : c.store.fallback = site.fallback
  blockEnv : c.store.blockEnv = site.blockEnv
  rpcState : c.store.rpcState = site.rpcState
  length : c.requests.length = site.requests.length
  requests : ∀ (i : ℕ) u, site.requests[i]? = some u →
    ∃ t, c.requests[i]? = some t ∧ u.Meets up evm order site.pool t

/-- INVARIANT of a site without panics in which no session is reaped, and of the backend. -/
structure Site.InStep (site : Site F) (c : Crowd (Hop F) Hop.Answer SurfaceReply (Backend F)) :
    Prop where
  manned : site.pool.Manned up evm order
  mirrors : site.Mirrors up evm order c
  unsent : c.store.unsent.Perm (site.elsewhere ++ site.requests.flatMap Underway.held)
  sane : ∀ u ∈ site.requests, u.Sane evm

variable {up evm order} {site : Site F} {c : Crowd (Hop F) Hop.Answer SurfaceReply (Backend F)}
  {stored : UInt64 → SessionState → Except String SnapshotInfo}

/-- Jobs sent later do not matter to a request that waits. -/
theorem meets_mono {pool pool' : Pool F} (hpool : ∀ id, pool.arrivedOf id <+: pool'.arrivedOf id)
    {u : Underway F R} {t : Program F R} (h : u.Meets up evm order pool t) :
    u.Meets up evm order pool' t := by
  cases u with
  | running t₀ => exact h
  | waiting posted k =>
    obtain ⟨before, after, harrived, ht⟩ := h
    obtain ⟨more, hmore⟩ := hpool posted.job.sessionId
    rw [harrived, List.append_assoc, List.cons_append] at hmore
    exact ⟨before, after ++ more, hmore.symm, ht⟩

/-- ONE REQUEST moves, here and there. -/
theorem meets_set (h : site.Mirrors up evm order c) {pool' : Pool F}
    (hpool : ∀ id, site.pool.arrivedOf id <+: pool'.arrivedOf id) {i : ℕ}
    {u₀ u : Underway F SurfaceReply} (hi : site.requests[i]? = some u₀) {t : Program F SurfaceReply}
    (hmeets : u.Meets up evm order pool' t) (j : ℕ) {u' : Underway F SurfaceReply}
    (hj : (site.requests.set i u)[j]? = some u') :
    ∃ t', (c.requests.set i t)[j]? = some t' ∧ u'.Meets up evm order pool' t' := by
  rcases getElem?_set_cases hj with ⟨rfl, rfl⟩ | ⟨hne, hj⟩
  · refine ⟨t, List.getElem?_set_self ?_, hmeets⟩
    rw [h.length]
    exact (List.getElem?_eq_some_iff.mp hi).1
  · obtain ⟨t', ht', hmeets'⟩ := h.requests j u' hj
    exact ⟨t', by rw [List.getElem?_set_ne hne.symm]; exact ht', meets_mono hpool hmeets'⟩

/-- Among sane requests one of which moves on to something sane, all are. -/
theorem sane_set {requests : List (Underway F R)} (h : ∀ u ∈ requests, u.Sane evm) {i : ℕ}
    {u : Underway F R} (hu : u.Sane evm) : ∀ u' ∈ requests.set i u, u'.Sane evm := by
  intro u' hu'
  rcases List.mem_or_eq_of_mem_set hu' with hu' | rfl
  · exact h u' hu'
  · exact hu

/-- A request that moves on without drawing an id or sending for one. -/
theorem held_set {requests : List (Underway F R)} {i : ℕ} {u₀ u : Underway F R}
    (hi : requests[i]? = some u₀) (hsame : u.held = u₀.held) :
    ((requests.set i u).flatMap Underway.held).Perm (requests.flatMap Underway.held) := by
  have hheld := flatMap_set_perm Underway.held u hi
  rw [hsame] at hheld
  exact (List.perm_append_left_iff _).mp hheld

/-- A job served there is one sent here. -/
theorem sessions_post (h : site.InStep up evm order c) {job : Job F} (hcalm : job.Calm evm)
    {sessions : Map SessionId (Session F)} (hlookup : ∀ id, sessions.lookup id
      = if id = job.sessionId then (refStep up evm order job (c.store.sessions.lookup id)).2
        else c.store.sessions.lookup id) (id : SessionId) :
    sessions.lookup id = (reference up evm order ((site.pool.post job).arrivedOf id)).2 := by
  rw [hlookup, arrivedOf_post h.manned hcalm, h.mirrors.sessions]
  split
  · rw [reference_snoc]
  · rfl

/-- A request that has just sent its job waits for the reply it has there. -/
theorem meets_post (h : site.InStep up evm order c) {job : Job F} (hcalm : job.Calm evm)
    (k : Option (Reply F) → Program F R) :
    (Underway.waiting ⟨job, site.pool.channels⟩ k).Meets up evm order (site.pool.post job)
      (k (refStep up evm order job (c.store.sessions.lookup job.sessionId)).1) := by
  refine ⟨site.pool.arrivedOf job.sessionId, [], ?_, ?_⟩
  · rw [arrivedOf_post h.manned hcalm, if_pos rfl]
  · rw [h.mirrors.sessions]

theorem prefix_post (h : site.InStep up evm order c) {job : Job F} (hcalm : job.Calm evm)
    (id : SessionId) : site.pool.arrivedOf id <+: (site.pool.post job).arrivedOf id := by
  rw [arrivedOf_post h.manned hcalm]
  split
  · exact List.prefix_append _ _
  · exact List.prefix_rfl

/-- STEP LEMMA: a request sends a job. -/
theorem inStep_job (h : site.InStep up evm order c) {i : ℕ}
    {job : { job : Job F // job.opens = false }} {k : Option (Reply F) → Program F SurfaceReply}
    (hi : site.requests[i]? = some (.running (.ask (.job job) k))) :
    Site.InStep up evm order
      { site.setRequest i (.waiting ⟨job.1, site.pool.channels⟩ k) with
        pool := site.pool.post job.1 }
      ⟨(c.store.serve up evm order job.1).2,
        c.requests.set i (k (c.store.serve up evm order job.1).1)⟩ := by
  obtain ⟨hcalm, held, hholds⟩ := h.sane _ (List.mem_of_getElem? hi)
  obtain ⟨hreply, sessions, hserve, hlookup⟩ := Backend.serve_spec up evm order c.store job.1
  rw [hreply, hserve]
  refine ⟨manned_post h.manned hcalm.1, ⟨sessions_post h hcalm.1 hlookup, h.mirrors.nextId,
    h.mirrors.base, h.mirrors.fallback, h.mirrors.blockEnv, h.mirrors.rpcState, ?_, ?_⟩, ?_,
    sane_set h.sane fun a => ⟨hcalm.2 a, hholds.2 a⟩⟩
  · rw [Site.setRequest, List.length_set, List.length_set, h.mirrors.length]
  · exact fun j u hj => meets_set h.mirrors (prefix_post h hcalm.1) hi (meets_post h hcalm.1 k) j hj
  · exact h.unsent.trans ((held_set hi (u := .waiting _ k) rfl).symm.append_left site.elsewhere)

/-- STEP LEMMA: a request sends for a session. -/
theorem inStep_send (h : site.InStep up evm order c) {i : ℕ} {id : SessionId}
    {opening : Opening F} {k : Unit → Program F SurfaceReply}
    (hi : site.requests[i]? = some (.running (.ask (.send id opening) k))) :
    Site.InStep up evm order
      { site.setRequest i (.waiting ⟨.command (opening.command id), site.pool.channels⟩
          fun _ => k ()) with
        pool := site.pool.post (.command (opening.command id)) }
      ⟨c.store.send up evm order id opening, c.requests.set i (k ())⟩ := by
  obtain ⟨honly, held, -, hrest⟩ := h.sane _ (List.mem_of_getElem? hi)
  have hcalm : (Job.command (opening.command id)).Calm evm := trivial
  -- of all the ids that are drawn and not sent for, one is the request's
  have hheld := flatMap_set_perm Underway.held
    (.waiting ⟨.command (opening.command id), site.pool.channels⟩ fun _ => k ()) hi
  have hunsent : c.store.unsent.Perm (id :: (site.elsewhere ++
      (site.requests.set i (.waiting ⟨.command (opening.command id), site.pool.channels⟩
        fun _ => k ())).flatMap Underway.held)) :=
    (h.unsent.trans (hheld.symm.append_left site.elsewhere)).trans List.perm_middle
  have hmem : id ∈ c.store.unsent := hunsent.mem_iff.mpr List.mem_cons_self
  obtain ⟨sessions, hsend, hlookup⟩ := send_spec up evm order c.store id opening hmem
  rw [hsend]
  refine ⟨manned_post h.manned hcalm, ⟨sessions_post h hcalm ?_, h.mirrors.nextId,
    h.mirrors.base, h.mirrors.fallback, h.mirrors.blockEnv, h.mirrors.rpcState, ?_, ?_⟩, ?_,
    sane_set h.sane fun _ => ⟨honly.2 (), hrest⟩⟩
  · rw [opening_sessionId]
    exact hlookup
  · rw [Site.setRequest, List.length_set, List.length_set, h.mirrors.length]
  · exact fun j u hj => meets_set h.mirrors (prefix_post h hcalm) hi
      (meets_post h hcalm fun _ => k ()) j hj
  · have herased := hunsent.erase id
    rw [List.erase_cons_head] at herased
    exact herased

/-- STEP LEMMA: a request draws an id. -/
theorem inStep_draw (h : site.InStep up evm order c) {i : ℕ}
    {k : SessionId → Program F SurfaceReply}
    (hi : site.requests[i]? = some (.running (.ask .draw k))) :
    Site.InStep up evm order
      { site.setRequest i (.running (k site.pool.nextId)) with pool := site.pool.drawId }
      ⟨c.store.draw, c.requests.set i (k (UInt64.ofNat c.store.nextId))⟩ := by
  obtain ⟨honly, held, -, hrest⟩ := h.sane _ (List.mem_of_getElem? hi)
  rw [← h.mirrors.nextId]
  refine ⟨manned_drawId h.manned, ⟨h.mirrors.sessions, ?_, h.mirrors.base, h.mirrors.fallback,
    h.mirrors.blockEnv, h.mirrors.rpcState, ?_, ?_⟩, ?_,
    sane_set h.sane ⟨honly.2 site.pool.nextId, _, hrest site.pool.nextId⟩⟩
  · rw [Pool.drawId, h.mirrors.nextId, Backend.draw, UInt64.ofNat_add]
    rfl
  · rw [Site.setRequest, List.length_set, List.length_set, h.mirrors.length]
  · exact fun j u hj => meets_set h.mirrors (fun _ => List.prefix_rfl) hi (by exact rfl) j hj
  · -- the id that is drawn is the one the request holds now
    have hheld := flatMap_set_perm Underway.held (.running (k site.pool.nextId)) hi
    rw [holds_held (hrest site.pool.nextId)] at hheld
    rw [Backend.draw, ← h.mirrors.nextId]
    calc (c.store.unsent ++ [site.pool.nextId]).Perm
          (site.elsewhere ++ site.requests.flatMap Underway.held ++ [site.pool.nextId]) :=
        h.unsent.append_right _
      _ = site.elsewhere ++ (site.requests.flatMap Underway.held ++ [site.pool.nextId]) :=
        List.append_assoc ..
      List.Perm _ (site.elsewhere ++ ([site.pool.nextId] ++ site.requests.flatMap Underway.held)) :=
        List.perm_append_comm.append_left _
      List.Perm _ _ := hheld.symm.append_left site.elsewhere

variable (up evm order stored) in
/-- A step that takes no session is answered by the defaults and the side table. -/
theorem answer_aside {hop : Hop F} (haside : hop.Aside) {b : Backend F} (b' : Backend F)
    (hbase : b.base = b'.base) (hfallback : b.fallback = b'.fallback)
    (hblockEnv : b.blockEnv = b'.blockEnv) (hrpc : b.rpcState = b'.rpcState) :
    (Backend.answer up evm order stored hop b).1 = (Backend.answer up evm order stored hop b').1 ∧
      (Backend.answer up evm order stored hop b).2
        = { b with rpcState := (Backend.answer up evm order stored hop b').2.rpcState } := by
  have hentry : ∀ id, b.entry id = b'.entry id := fun id => by
    rw [Backend.entry, hrpc, Backend.entry]
  cases hop with
  | job job => exact haside.elim
  | draw => exact haside.elim
  | send id opening => exact haside.elim
  | base => exact ⟨hbase, by rw [Backend.answer, Backend.answer, ← hrpc]⟩
  | fallback => exact ⟨hfallback, by rw [Backend.answer, Backend.answer, ← hrpc]⟩
  | blockEnv => exact ⟨hblockEnv, by rw [Backend.answer, Backend.answer, ← hrpc]⟩
  | sends id =>
    exact ⟨congrArg SessionRpcState.blockNumber (hentry id),
      by rw [Backend.answer, Backend.answer, ← hrpc]⟩
  | receipt id hash =>
    simp only [Backend.answer, ← hrpc]
    exact ⟨rfl, trivial⟩
  | enter id realStart tx result =>
    simp only [Backend.answer, hentry, hrpc]
    exact ⟨rfl, trivial⟩
  | inherit parent child =>
    simp only [Backend.answer, hrpc]
    cases b'.rpcState.lookup parent with
    | none => exact ⟨rfl, by rw [← hrpc]⟩
    | some inherited => exact ⟨rfl, rfl⟩
  | remove id =>
    simp only [Backend.answer, hrpc]
    exact ⟨rfl, trivial⟩
  | store blockNumber state => exact ⟨rfl, by rw [Backend.answer, Backend.answer, ← hrpc]⟩

/-- STEP LEMMA: a request takes a step that no session has a part in. -/
theorem inStep_aside (h : site.InStep up evm order c) {i : ℕ} {hop : Hop F}
    {k : hop.Answer → Program F SurfaceReply}
    (hi : site.requests[i]? = some (.running (.ask hop k))) (haside : hop.Aside) :
    Site.InStep up evm order
      { site.setRequest i (.running (k (Backend.answer up evm order stored hop site.desk).1)) with
        rpcState := (Backend.answer up evm order stored hop site.desk).2.rpcState }
      ⟨(Backend.answer up evm order stored hop c.store).2,
        c.requests.set i (k (Backend.answer up evm order stored hop c.store).1)⟩ := by
  obtain ⟨honly, held, hholds⟩ := h.sane _ (List.mem_of_getElem? hi)
  obtain ⟨hanswer, hstore⟩ := answer_aside up evm order stored haside (b := c.store) site.desk
    h.mirrors.base h.mirrors.fallback h.mirrors.blockEnv h.mirrors.rpcState
  rw [hanswer, hstore]
  generalize (Backend.answer up evm order stored hop site.desk).1 = a at *
  have hrest : Program.Holds (k a) none ∧ (Underway.running (.ask hop k)).held = [] := by
    cases hop with
    | job job => exact haside.elim
    | draw => exact haside.elim
    | send id opening => exact haside.elim
    | _ => exact ⟨hholds.2 a, rfl⟩
  refine ⟨h.manned, ⟨h.mirrors.sessions, h.mirrors.nextId, h.mirrors.base, h.mirrors.fallback,
    h.mirrors.blockEnv, rfl, ?_, ?_⟩, ?_, sane_set h.sane ⟨honly.2 a, none, hrest.1⟩⟩
  · rw [Site.setRequest, List.length_set, List.length_set, h.mirrors.length]
  · exact fun j u hj => meets_set h.mirrors (fun _ => List.prefix_rfl) hi (by exact rfl) j hj
  · refine h.unsent.trans ((held_set hi (u := .running (k a)) ?_).symm.append_left site.elsewhere)
    rw [holds_held hrest.1, hrest.2]
    rfl

variable (stored) in
/-- STEP LEMMA: a request takes its next step, here and there, or it waits, and nothing comes of it
    there. -/
theorem inStep_move (h : site.InStep up evm order c) {i : ℕ} {u : Underway F SurfaceReply}
    (hi : site.requests[i]? = some u) :
    (site.move up evm order stored i u).InStep up evm order
      (match u with
        | .running _ => c.step (Backend.answer up evm order stored)
            (fun e b => b.happen up evm order e) (.move i)
        | .waiting _ _ => c) := by
  obtain ⟨t, ht, hmeets⟩ := h.mirrors.requests i u hi
  cases u with
  | running t₀ =>
    obtain rfl : t = t₀ := hmeets
    simp only [Crowd.step, ht]
    cases t with
    | ret r => exact h
    | panic => exact h
    | ask hop k =>
      cases hop with
      | job job => exact inStep_job h hi
      | draw => exact inStep_draw h hi
      | send id opening => exact inStep_send h hi
      | _ => exact inStep_aside h hi trivial
  | waiting posted k =>
    obtain ⟨before, after, harrived, rfl⟩ := hmeets
    have hsane := h.sane _ (List.mem_of_getElem? hi)
    simp only [Site.move]
    rcases manned_receive h.manned harrived with hpending | ⟨reply, hreceive, hreply⟩
    · rw [hpending]
      exact h
    · rw [hreply] at ht
      rw [hreceive]
      dsimp only
      refine ⟨h.manned, ⟨h.mirrors.sessions, h.mirrors.nextId, h.mirrors.base, h.mirrors.fallback,
        h.mirrors.blockEnv, h.mirrors.rpcState, ?_, ?_⟩, ?_,
        sane_set h.sane ⟨(hsane (some reply)).1, none, (hsane (some reply)).2⟩⟩
      · rw [Site.setRequest, List.length_set, h.mirrors.length]
      · intro j u' hj
        rcases getElem?_set_cases hj with ⟨rfl, rfl⟩ | ⟨hne, hj⟩
        · exact ⟨_, ht, rfl⟩
        · exact h.mirrors.requests j u' hj
      · refine h.unsent.trans ((held_set hi (u := .running (k (some reply))) ?_).symm.append_left
          site.elsewhere)
        rw [holds_held (hsane (some reply)).2]
        rfl

/-- STEP LEMMA: something befalls the manager. -/
theorem inStep_happen (h : site.InStep up evm order c) (happening : Happening F)
    (hkept : ∀ id, happening ≠ .expire id)
    (hheld : ∀ id opening, happening = .send id opening → id ∈ site.elsewhere) :
    (site.happen happening).InStep up evm order
      { c with store := c.store.happen up evm order happening } := by
  have hm := h.mirrors
  cases happening with
  | expire id => exact absurd rfl (hkept id)
  | setBase base =>
    exact ⟨h.manned, ⟨hm.sessions, hm.nextId, rfl, hm.fallback, hm.blockEnv, hm.rpcState, hm.length,
      hm.requests⟩, h.unsent, h.sane⟩
  | setFallback fallback =>
    exact ⟨h.manned, ⟨hm.sessions, hm.nextId, hm.base, rfl, hm.blockEnv, hm.rpcState, hm.length,
      hm.requests⟩, h.unsent, h.sane⟩
  | setBlockEnv blockEnv =>
    exact ⟨h.manned, ⟨hm.sessions, hm.nextId, hm.base, hm.fallback, rfl, hm.rpcState, hm.length,
      hm.requests⟩, h.unsent, h.sane⟩
  | draw =>
    refine ⟨manned_drawId h.manned, ⟨hm.sessions, ?_, hm.base, hm.fallback, hm.blockEnv, hm.rpcState,
      hm.length, hm.requests⟩, ?_, h.sane⟩
    · simp only [Site.happen, Pool.drawId, Backend.happen, Backend.draw, hm.nextId,
        UInt64.ofNat_add]
      rfl
    · simp only [Site.happen, Backend.happen, Backend.draw, ← hm.nextId]
      calc (c.store.unsent ++ [site.pool.nextId]).Perm
            (site.elsewhere ++ site.requests.flatMap Underway.held ++ [site.pool.nextId]) :=
          h.unsent.append_right _
        _ = site.elsewhere ++ (site.requests.flatMap Underway.held ++ [site.pool.nextId]) :=
          List.append_assoc ..
        List.Perm _ (site.elsewhere ++ ([site.pool.nextId] ++ site.requests.flatMap Underway.held)) :=
          List.perm_append_comm.append_left _
        _ = site.elsewhere ++ [site.pool.nextId] ++ site.requests.flatMap Underway.held :=
          (List.append_assoc ..).symm
  | send id opening =>
    have hid := hheld id opening rfl
    have hcalm : (Job.command (opening.command id)).Calm evm := trivial
    have hmem : id ∈ c.store.unsent := h.unsent.mem_iff.mpr (List.mem_append_left _ hid)
    obtain ⟨sessions, hsend, hlookup⟩ := send_spec up evm order c.store id opening hmem
    simp only [Site.happen, if_pos hid, Backend.happen, hsend]
    refine ⟨manned_post h.manned hcalm, ⟨sessions_post h hcalm ?_, hm.nextId, hm.base, hm.fallback,
      hm.blockEnv, hm.rpcState, hm.length, fun i u hi => ?_⟩, ?_, h.sane⟩
    · rw [opening_sessionId]
      exact hlookup
    · obtain ⟨t, ht, hmeets⟩ := hm.requests i u hi
      exact ⟨t, ht, meets_mono (prefix_post h hcalm) hmeets⟩
    · have herased := h.unsent.erase id
      rw [List.erase_append_left _ hid] at herased
      exact herased

/-- STEP LEMMA: a request is made. -/
theorem inStep_call (h : site.InStep up evm order c) {t : Program F SurfaceReply}
    (hcalm : t.Only (Hop.Calm evm)) (hholds : t.Holds none) :
    Site.InStep up evm order { site with requests := site.requests ++ [.running t] }
      ⟨c.store, c.requests ++ [t]⟩ := by
  have hm := h.mirrors
  refine ⟨h.manned, ⟨hm.sessions, hm.nextId, hm.base, hm.fallback, hm.blockEnv, hm.rpcState, ?_,
    fun i u hi => ?_⟩, ?_, fun u hu => ?_⟩
  · rw [List.length_append, List.length_append, hm.length]
    rfl
  · rcases getElem?_concat_cases hi with hi | ⟨rfl, rfl⟩
    · obtain ⟨t', ht', hmeets⟩ := hm.requests i u hi
      exact ⟨t', (List.getElem?_append_left (List.getElem?_eq_some_iff.mp ht').1).trans ht', hmeets⟩
    · refine ⟨t, ?_, rfl⟩
      rw [← hm.length, List.getElem?_append_right le_rfl, Nat.sub_self]
      rfl
  · rw [List.flatMap_append, List.flatMap_cons, holds_held hholds]
    simpa using h.unsent
  · rcases List.mem_append.mp hu with hu | hu
    · exact h.sane u hu
    · rw [List.mem_singleton.mp hu]
      exact ⟨hcalm, none, hholds⟩

/-- Whatever goes on among the workers, the site is what it was. -/
theorem inStep_worked (h : site.InStep up evm order c) {pool : Pool F}
    (hmanned : pool.Manned up evm order) (harrived : ∀ id, pool.arrivedOf id = site.pool.arrivedOf id)
    (hnext : pool.nextId = site.pool.nextId) :
    Site.InStep up evm order { site with pool := pool } c := by
  have hm := h.mirrors
  refine ⟨hmanned, ⟨fun id => ?_, hnext.trans hm.nextId, hm.base, hm.fallback, hm.blockEnv,
    hm.rpcState, hm.length, fun i u hi => ?_⟩, h.unsent, h.sane⟩
  · rw [harrived]
    exact hm.sessions id
  · obtain ⟨t, ht, hmeets⟩ := hm.requests i u hi
    exact ⟨t, ht, meets_mono (fun id => by rw [harrived]) hmeets⟩

end InStep

/-! ### The main result -/

section Runs

variable [ToString E] [DecidableEq F] {up : F → Upstream E} {evm : Evm E} {order : HashOrder}
  {stored : UInt64 → SessionState → Except String SnapshotInfo} {w : Wire} {chainId : UInt64}
  {ttl : ℕ}

/-- No session the sweep looks at is older than `ttl`. -/
def Site.Unreaped (ttl : ℕ) (site : Site F) : SiteEvent up → Prop
  | .timeout v now => site.pool.Unreaped ttl (.timeout v now : PoolEvent up)
  | _ => True

/-- No EVM run of the request panics. -/
def SurfaceCall.Calm (F : Type) (evm : Evm E) (w : Wire) (chainId : UInt64) (call : SurfaceCall) :
    Prop :=
  (call.program w chainId : Program F SurfaceReply).Only (Hop.Calm evm)

/-- What an event is to the surfaces. -/
def SiteEvent.seen : SiteEvent up → Option (SurfaceEvent F)
  | .surface event => some event
  | _ => none

/-- STEP LEMMA: every step keeps site and backend in step. -/
theorem inStep_step {site : Site F} {c : Crowd (Hop F) Hop.Answer SurfaceReply (Backend F)}
    (event : SiteEvent up) (h : site.InStep up evm order c)
    (hguard : site.Unreaped ttl event ∧
      ∀ call, event = .surface (.call call) → call.Calm F evm w chainId) :
    (site.step up evm order stored w chainId ttl event).InStep up evm order
      (runAll (fun c event => c.step (Backend.answer up evm order stored)
        (fun e b => b.happen up evm order e) (SurfaceEvent.event w chainId event)) c
        (site.sees up event).toList) := by
  have hworked : ∀ event : PoolEvent up, (∀ i, event ≠ .turn i) →
      (site.pool.step up evm order ttl event).calls = site.pool.calls →
      (site.pool.step up evm order ttl event).nextId = site.pool.nextId →
      site.pool.Unreaped ttl event → Site.InStep up evm order
        { site with pool := site.pool.step up evm order ttl event } c := by
    intro event hsilent hcalls hnext hfresh
    obtain ⟨hmanned, harrived⟩ := manned_worked h.manned hsilent
      (hcalls.trans h.manned.calls) hfresh
    exact inStep_worked h hmanned harrived hnext
  cases event with
  | work v now landed spawns => exact hworked _ (by rintro i ⟨⟩) rfl rfl trivial
  | resolved v i failed => exact hworked _ (by rintro i ⟨⟩) rfl rfl trivial
  | timeout v now => exact hworked _ (by rintro i ⟨⟩) rfl rfl hguard.1
  | surface event =>
    cases event with
    | call call => exact inStep_call h (hguard.2 call rfl) (program_holds F w chainId call)
    | move i =>
      simp only [Site.step, Site.sees]
      cases hi : site.requests[i]? with
      | none => exact h
      | some u =>
        have hmoved := inStep_move stored h hi
        cases u with
        | running t => exact hmoved
        | waiting posted k => exact hmoved
    | happen happening =>
      cases happening with
      | expire id => exact h
      | send id opening =>
        by_cases hid : id ∈ site.elsewhere
        · simp only [Site.sees, if_pos hid]
          refine inStep_happen h (.send id opening) (by rintro _ ⟨⟩) ?_
          rintro _ _ ⟨⟩
          exact hid
        · simp only [Site.sees, if_neg hid, Site.step, Site.happen]
          exact h
      | draw => exact inStep_happen h .draw (by rintro _ ⟨⟩) (by rintro _ _ ⟨⟩)
      | setBase base => exact inStep_happen h (.setBase base) (by rintro _ ⟨⟩) (by rintro _ _ ⟨⟩)
      | setFallback fallback =>
        exact inStep_happen h (.setFallback fallback) (by rintro _ ⟨⟩) (by rintro _ _ ⟨⟩)
      | setBlockEnv blockEnv =>
        exact inStep_happen h (.setBlockEnv blockEnv) (by rintro _ ⟨⟩) (by rintro _ _ ⟨⟩)

omit [DecidableEq F] in
variable (evm order) in
theorem inStep_start {fetch : Fetch F} (hidle : ReadThrough.Idle up fetch) (numWorkers : ℕ)
    (fallback : F) (blockEnv : BlockEnv) :
    (Site.start fetch numWorkers fallback blockEnv).InStep up evm order
      (Crowd.start (Backend.start fallback blockEnv)) := by
  have hnobody : ∀ id, (Pool.start fetch numWorkers).arrivedOf id = [] := by
    intro id
    simp [Pool.start, Pool.arrivedOf, Worker.arrivedOf, Worker.start]
  refine ⟨⟨wired_start fetch numWorkers, fun v wk hwk => ?_, rfl⟩,
    ⟨fun id => ?_, rfl, rfl, rfl, rfl, rfl, rfl, ?_⟩, List.Perm.refl _, ?_⟩
  · rw [start_worker hwk]
    exact steady_start order hidle
  · simp only [Site.start, hnobody, Crowd.start, Backend.start, Finmap.lookup_empty]
    rfl
  · rintro i u ⟨⟩
  · rintro u ⟨⟩

omit [ToString E] [DecidableEq F] in
/-- No step is anything to the surfaces but what it is. -/
theorem sees_seen (site : Site F) (event : SiteEvent up) (event' : SurfaceEvent F)
    (h : site.sees up event = some event') : event.seen = some event' := by
  cases event with
  | surface event =>
    cases event with
    | call call => exact h
    | move i =>
      simp only [Site.sees] at h
      split at h
      · exact h
      · cases h
    | happen happening =>
      cases happening with
      | expire id => cases h
      | send id opening =>
        simp only [Site.sees] at h
        split at h
        · exact h
        · cases h
      | _ => exact h
  | _ => cases h

omit [ToString E] [DecidableEq F] in
/-- Every request is made in both. -/
theorem sees_made (site : Site F) (event : SiteEvent up) :
    (site.sees up event).bind SurfaceEvent.made = event.seen.bind SurfaceEvent.made := by
  cases event with
  | surface event =>
    cases event with
    | call call => rfl
    | move i =>
      simp only [Site.sees]
      split <;> rfl
    | happen happening =>
      cases happening with
      | send id opening =>
        simp only [Site.sees]
        split <;> rfl
      | _ => rfl
  | _ => rfl

omit [DecidableEq F] in
theorem surfaces_steps (b : Backend F) (events : List (SurfaceEvent F)) :
    surfaces up evm order stored w chainId b events
      = runAll (fun c event => c.step (Backend.answer up evm order stored)
          (fun e b => b.happen up evm order e) (SurfaceEvent.event w chainId event))
        (Crowd.start b) events := by
  rw [surfaces, Crowd.run, runAll, List.foldl_map, runAll]

variable (up evm order stored w chainId ttl) in
/-- What a run of the site is to the surfaces. -/
def Site.trace (site : Site F) (events : List (SiteEvent up)) : List (SurfaceEvent F) :=
  shadow (Site.step up evm order stored w chainId ttl) (Site.sees up) site events

/-- REFINED: without a panicking job and with no session reaped, every run of both surfaces in front
    of the pool, however many workers it has and whenever they get to their messages, is one in front
    of the backend: of the same requests, step for step less the waiting, so that whoever is answered
    in the one is answered the same in the other. -/
theorem site_refined {fetch : Fetch F} (hidle : ReadThrough.Idle up fetch) (numWorkers : ℕ)
    (fallback : F) (blockEnv : BlockEnv) (events : List (SiteEvent up))
    (hcalm : ∀ call, .surface (.call call) ∈ events → call.Calm F evm w chainId)
    (hfresh : Guarded (Site.step up evm order stored w chainId ttl) (Site.Unreaped ttl)
      (.start fetch numWorkers fallback blockEnv) events) :
    let site := runAll (Site.step up evm order stored w chainId ttl)
      (.start fetch numWorkers fallback blockEnv) events
    let trace := Site.trace up evm order stored w chainId ttl
      (.start fetch numWorkers fallback blockEnv) events
    trace.Sublist (events.filterMap SiteEvent.seen) ∧
      trace.filterMap SurfaceEvent.made
        = (events.filterMap SiteEvent.seen).filterMap SurfaceEvent.made ∧
      site.Mirrors up evm order
        (surfaces up evm order stored w chainId (.start fallback blockEnv) trace) := by
  have hknown : ∀ event ∈ events, ∀ call, event = .surface (.call call) →
      call.Calm F evm w chainId := by
    rintro event hmem call rfl
    exact hcalm call hmem
  have hrun := shadow_run (R := Site.InStep up evm order)
    (fun site c event h hguard => inStep_step event h hguard) _ _ events
    (inStep_start evm order hidle numWorkers fallback blockEnv) (guarded_and hfresh hknown)
  refine ⟨shadow_sublist sees_seen _ events, ?_, ?_⟩
  · rw [List.filterMap_filterMap]
    exact shadow_calls sees_made _ events
  · rw [surfaces_steps]
    exact hrun.mirrors

omit [DecidableEq F] in
/-- Where the EVM never panics, every job is calm, -/
theorem evm_calm (hevm : ∀ cfg blockEnv tx, (evm cfg blockEnv tx).NoPanic) (job : Job F) :
    job.Calm evm := by
  cases job with
  | command c => exact trivial
  | read id request =>
    intro blockEnv
    have htransact : ∀ tx disableChecks, (executePass evm tx disableChecks blockEnv).NoPanic := by
      intro tx disableChecks account
      unfold transact
      cases tx.kind with
      | create => exact Tree.noPanic_map (hevm _ _ _)
      | call recipient => exact fun _ => Tree.noPanic_map (hevm _ _ _)
    cases request with
    | simulate tx disableChecks =>
      exact Tree.noPanic_map (Tree.noPanic_map (htransact tx disableChecks))
    | advance tx => exact Tree.noPanic_map (Tree.noPanic_map (htransact tx false))
    | storage address key =>
      exact Tree.noPanic_map (Tree.noPanic_map (Tree.noPanic_map fun _ => trivial))
    | basic address => exact Tree.noPanic_map (Tree.noPanic_map (Tree.noPanic_map fun _ => trivial))
    | code address =>
      refine Tree.noPanic_map (Tree.noPanic_map (Tree.noPanic_bind (fun account => ?_) fun _ =>
        trivial))
      split
      · exact trivial
      · dsimp only
        split
        · exact trivial
        · split
          · exact trivial
          · exact Tree.noPanic_map fun _ => trivial

omit [DecidableEq F] in
/-- and so is every request. -/
theorem call_calm (hevm : ∀ cfg blockEnv tx, (evm cfg blockEnv tx).NoPanic) (call : SurfaceCall) :
    call.Calm F evm w chainId :=
  only_all (fun hop => by cases hop <;> first | exact evm_calm hevm _ | exact trivial) _

end Runs

/-- An EVM that halts before it has read anything. -/
def halting : Evm String := fun _ _ _ => .ret (.error (.other "halted"))

theorem halting_noPanic (cfg : CfgEnv) (blockEnv : BlockEnv) (tx : TxEnv) :
    (halting cfg blockEnv tx).NoPanic := trivial

/-- A session is opened on the first of two workers and a slot of it looked at while the second
    worker is told to discard one; the look waits for the worker, and that for the upstream. -/
def visiting : List (SiteEvent emptyUpstream) :=
  [.surface (.call (.tool .fork)), .surface (.move 0), .surface (.move 0), .surface (.move 0),
    .surface (.move 0), .surface (.move 0), .surface (.move 0), .work 0 0 .nothing true,
    .surface (.move 0), .surface (.call (.rpc 0 "eth_getStorageAt" [addressA, .string "0x7"])),
    .surface (.call (.tool (.discard 1))), .surface (.move 1), .surface (.move 2),
    .work 0 1 .nothing true, .surface (.move 1), .work 1 2 .nothing true, .resolved 0 0 true,
    .surface (.move 2), .work 0 3 .nothing true, .surface (.move 1)]

/-- The slot is found empty, here as there. -/
theorem site_refined_visiting :
    (surfaces emptyUpstream halting .some (fun _ _ => .error "no store") numeralWire 1 idleBackend
      (Site.trace emptyUpstream halting .some (fun _ _ => .error "no store") numeralWire 1 60
        (.start .cold 2 () ⟨1, 0, 0, 30000000⟩) visiting)).requests[1]?
          = some (.ret (.rpc (.ok (.text (wordText 0))))) := by
  have hanswered : (runAll (Site.step emptyUpstream halting .some (fun _ _ => .error "no store")
      numeralWire 1 60) (.start .cold 2 () ⟨1, 0, 0, 30000000⟩) visiting).requests[1]?
        = some (.running (.ret (.rpc (.ok (.text (wordText 0)))))) := by rfl
  have hfresh : Guarded (Site.step emptyUpstream halting .some (fun _ _ => .error "no store")
      numeralWire 1 60) (Site.Unreaped 60) (.start .cold 2 () ⟨1, 0, 0, 30000000⟩) visiting := by
    simp only [visiting, Guarded, Site.Unreaped, and_self]
  obtain ⟨-, -, hmirrors⟩ := site_refined (ReadThrough.idle_cold emptyUpstream) 2 ()
    ⟨1, 0, 0, 30000000⟩ visiting (fun call _ => call_calm halting_noPanic call) hfresh
  obtain ⟨t, ht, rfl⟩ := hmirrors.requests 1 _ hanswered
  exact ht

end Forkyard
