import Forkyard.Session.Expiry

/-! The pool behind a `SessionManager`. Sessions are sharded over a fixed number of workers by their
    id, and any number of method calls are under way at once: each sends a job to the worker its
    session belongs to and waits at the receiving end of a oneshot channel. Opening a session takes
    an id first, and branching one takes two hops, for parent and child live on workers of their own.

        ask:       ──job──▶ worker (id % n) ──▶ reply
        register:  draw id ──Fork──▶ worker (id % n) ──▶ id
        fork_from: ──Branch──▶ worker (parent % n) ──child──▶ draw id ──Adopt──▶ worker (id % n) ──▶ id -/

namespace Forkyard

open Schemes

variable {F E : Type}

/-! ### Method calls -/

/-- The job opens a session. -/
def Job.opens : Job F → Bool
  | .command (.fork _ _ _ _ _) => true
  | .command (.adopt _ _) => true
  | _ => false

/-- What a session is opened with: the arguments of `register`, or the child of a branch. -/
inductive Opening (F : Type) where
  | fork (base : BaseSnapshot) (fallback : F) (blockEnv : BlockEnv) (seed : Option SessionState)
  | adopt (session : { s : Session F // s.readLog = none })

def Opening.command (id : SessionId) : Opening F → Command F
  | .fork base fallback blockEnv seed => .fork id base fallback blockEnv seed
  | .adopt session => .adopt id session

/-- A method of the manager: `register`, which all of `fork`, `fork_at_block` and `restore` come to,
    `fork_from`, or one that sends its job and waits for the reply. -/
inductive Method (F : Type) where
  | ask (job : { job : Job F // job.opens = false })
  | register (base : BaseSnapshot) (fallback : F) (blockEnv : BlockEnv)
      (seed : Option SessionState)
  | forkFrom (parent : SessionId)

/-- A call of a method: what it does next, what it waits for, or how it has ended. -/
inductive ManagerCall (F : Type) where
  | ask (job : { job : Job F // job.opens = false })
  | asked (posted : Posted F)
  | forkFrom (parent : SessionId)
  | branching (posted : Posted F)
  | draw (opening : Opening F)
  | send (id : SessionId) (opening : Opening F)
  | registering (posted : Posted F)
  | replied (posted : Posted F) (reply : Reply F)
  | opened (id : SessionId)
  | workerGone
  | dropped

def Method.start : Method F → ManagerCall F
  | .ask job => .ask job
  | .register base fallback blockEnv seed => .draw (.fork base fallback blockEnv seed)
  | .forkFrom parent => .forkFrom parent

/-- What a receiver finds: its sender still with the worker, the reply, or nothing any more, for the
    job went down in a panic and its sender with it. -/
inductive Received (F : Type) where
  | pending
  | reply (reply : Reply F)
  | lost

/-- The receiving end of the channel a job was posted with. -/
def Worker.receive (wk : Worker F) (posted : Posted F) : Received F :=
  match wk.answers.find? fun a => decide (a.1.reply = posted.reply) with
  | some a => .reply a.2
  | none =>
    if (wk.queued posted.job.sessionId ++ wk.waiting posted.job.sessionId).any
      fun p => decide (p.reply = posted.reply) then .pending
    else .lost

/-! ### The pool -/

/-- `channels` counts the oneshot channels made so far, and `drawn` is every id drawn, in order. -/
structure Pool (F : Type) where
  workers : List (Worker F)
  nextId : SessionId
  channels : ℕ
  calls : List (ManagerCall F)
  drawn : List SessionId

/-- One worker at least, next to whatever is cached already. -/
def Pool.start (fetch : Fetch F) (numWorkers : ℕ) : Pool F :=
  ⟨List.replicate (max numWorkers 1) (.start fetch), 0, 0, [], []⟩

/-- A call is made, takes its next step or is dropped by its caller while it waits; or on some
    worker a message is taken, a resolver ends or a second has gone by without a message. -/
inductive PoolEvent (up : F → Upstream E) where
  | call (method : Method F)
  | turn (i : ℕ)
  | drop (i : ℕ)
  | work (w : ℕ) (now : Instant) (landed : Landed up) (spawns : Bool)
  | resolved (w : ℕ) (i : ℕ) (failed : Bool)
  | timeout (w : ℕ) (now : Instant)

namespace Pool

/-- `worker_for`: the worker a session belongs to. -/
def shard (pool : Pool F) (id : SessionId) : ℕ := id.toNat % pool.workers.length

/-- Send a job to its worker, on a fresh channel. -/
def post (pool : Pool F) (job : Job F) : Pool F :=
  { pool with
    workers := pool.workers.modify (pool.shard job.sessionId) fun wk => { wk with
      inbox := wk.inbox ++ [.job ⟨job, pool.channels⟩]
      arrived := wk.arrived ++ [⟨job, pool.channels⟩] }
    channels := pool.channels + 1 }

def setCall (pool : Pool F) (i : ℕ) (call : ManagerCall F) : Pool F :=
  { pool with calls := pool.calls.set i call }

/-- The receiving end of the channel a call waits at. -/
def receive (pool : Pool F) (posted : Posted F) : Received F :=
  match pool.workers[pool.shard posted.job.sessionId]? with
  | some wk => wk.receive posted
  | none => .lost

/-- The next step of the `i`-th call. -/
def move (pool : Pool F) (i : ℕ) : ManagerCall F → Pool F
  | .ask job => (pool.post job.1).setCall i (.asked ⟨job.1, pool.channels⟩)
  | .asked posted =>
    match pool.receive posted with
    | .pending => pool
    | .reply reply => pool.setCall i (.replied posted reply)
    | .lost => pool.setCall i .workerGone
  | .forkFrom parent =>
    (pool.post (.command (.branch parent))).setCall i
      (.branching ⟨.command (.branch parent), pool.channels⟩)
  | .branching posted =>
    match pool.receive posted with
    | .pending => pool
    -- a branch logs no reads
    | .reply (.branch (.ok s)) => pool.setCall i (.draw (.adopt ⟨{ s with readLog := none }, rfl⟩))
    | .reply reply => pool.setCall i (.replied posted reply)
    | .lost => pool.setCall i .workerGone
  | .draw opening =>
    { pool.setCall i (.send pool.nextId opening) with
      nextId := pool.nextId + 1, drawn := pool.drawn ++ [pool.nextId] }
  | .send id opening =>
    (pool.post (.command (opening.command id))).setCall i
      (.registering ⟨.command (opening.command id), pool.channels⟩)
  | .registering posted =>
    match pool.receive posted with
    | .pending => pool
    | .reply _ => pool.setCall i (.opened posted.job.sessionId)
    | .lost => pool.setCall i .workerGone
  | .replied _ _ | .opened _ | .workerGone | .dropped => pool

section Steps

variable [ToString E] [DecidableEq F] (up : F → Upstream E) (evm : Evm E) (order : HashOrder)
  (ttl : ℕ)

def step (pool : Pool F) : PoolEvent up → Pool F
  | .call method => { pool with calls := pool.calls ++ [method.start] }
  | .turn i =>
    match pool.calls[i]? with
    | some call => pool.move i call
    | none => pool
  | .drop i =>
    match pool.calls[i]? with
    | some (.asked _) | some (.branching _) | some (.registering _) => pool.setCall i .dropped
    | _ => pool
  | .work w now landed spawns =>
    { pool with workers :=
        pool.workers.modify w (Worker.step up evm order (.work now landed spawns)) }
  | .resolved w i failed =>
    { pool with workers :=
        pool.workers.modify w (Worker.step up evm order (.resolved i failed)) }
  | .timeout w now =>
    { pool with workers := pool.workers.modify w fun wk =>
        match wk.inbox with
        | [] => wk.sweep ttl now
        | _ :: _ => wk }

end Steps

end Pool

namespace Pool

/-- Every job for `id` that arrived anywhere in the pool. -/
def arrivedOf (pool : Pool F) (id : SessionId) : List (Posted F) :=
  pool.workers.flatMap fun wk => wk.arrivedOf id

/-- Every answer given anywhere in the pool to a job for `id`. -/
def answersOf (pool : Pool F) (id : SessionId) : List (Posted F × Reply F) :=
  pool.workers.flatMap fun wk => wk.answersOf id

/-- The job has arrived at the worker of its session. -/
def Sent (pool : Pool F) (posted : Posted F) : Prop :=
  ∃ wk, pool.workers[pool.shard posted.job.sessionId]? = some wk ∧ posted ∈ wk.arrived

/-- The worker of the job's session has given it this reply. -/
def Told (pool : Pool F) (posted : Posted F) (reply : Reply F) : Prop :=
  ∃ wk, pool.workers[pool.shard posted.job.sessionId]? = some wk ∧ (posted, reply) ∈ wk.answers

end Pool

/-! ### What a step can do -/

/-- The job a call sends next. -/
def ManagerCall.job : ManagerCall F → Option (Job F)
  | .ask job => some job.1
  | .forkFrom parent => some (.command (.branch parent))
  | .send id opening => some (.command (opening.command id))
  | _ => none

/-- The job a call waits for. -/
def ManagerCall.awaits : ManagerCall F → Option (Posted F)
  | .asked posted => some posted
  | .branching posted => some posted
  | .registering posted => some posted
  | _ => none

/-- The turns a call may still take. -/
def ManagerCall.hops : ManagerCall F → ℕ
  | .forkFrom _ => 5
  | .branching _ => 4
  | .draw _ => 3
  | .send _ _ | .ask _ => 2
  | .asked _ | .registering _ => 1
  | .replied _ _ | .opened _ | .workerGone | .dropped => 0

/-- The call has ended, or what it waits for is not there yet. -/
def Pool.Idle (pool : Pool F) (call : ManagerCall F) : Prop :=
  call.hops = 0 ∨ ∃ posted, call.awaits = some posted ∧ pool.receive posted = .pending

/-- An upstream with no account in it, -/
def emptyUpstream : Unit → Upstream String := fun _ => .vacant "missing"

/-- and an EVM nobody is to run. -/
def inert : Evm String := fun _ _ _ => .panic

variable {up : F → Upstream E} {evm : Evm E} {order : HashOrder} {ttl : ℕ} {pool : Pool F}

/-- What the turn of the `i`-th call makes of it, and of the pool. -/
inductive Pool.Turned (pool : Pool F) (i : ℕ) : ManagerCall F → ManagerCall F → Pool F → Prop
  | idle {call : ManagerCall F} (hjob : call.job = none) (hidle : pool.Idle call) :
    Turned pool i call call pool
  | ask (job : { job : Job F // job.opens = false }) :
    Turned pool i (.ask job) (.asked ⟨job.1, pool.channels⟩)
      ((pool.post job.1).setCall i (.asked ⟨job.1, pool.channels⟩))
  | forkFrom (parent : SessionId) :
    Turned pool i (.forkFrom parent) (.branching ⟨.command (.branch parent), pool.channels⟩)
      ((pool.post (.command (.branch parent))).setCall i
        (.branching ⟨.command (.branch parent), pool.channels⟩))
  | send (id : SessionId) (opening : Opening F) :
    Turned pool i (.send id opening) (.registering ⟨.command (opening.command id), pool.channels⟩)
      ((pool.post (.command (opening.command id))).setCall i
        (.registering ⟨.command (opening.command id), pool.channels⟩))
  | draw (opening : Opening F) :
    Turned pool i (.draw opening) (.send pool.nextId opening)
      { pool.setCall i (.send pool.nextId opening) with
        nextId := pool.nextId + 1, drawn := pool.drawn ++ [pool.nextId] }
  | branched {posted : Posted F} {s : Session F}
    (h : pool.receive posted = .reply (.branch (.ok s))) :
    Turned pool i (.branching posted) (.draw (.adopt ⟨{ s with readLog := none }, rfl⟩))
      (pool.setCall i (.draw (.adopt ⟨{ s with readLog := none }, rfl⟩)))
  | replied {call : ManagerCall F} {posted : Posted F} {reply : Reply F}
    (hcall : call.awaits = some posted) (h : pool.receive posted = .reply reply) :
    Turned pool i call (.replied posted reply) (pool.setCall i (.replied posted reply))
  | opened {posted : Posted F} {reply : Reply F} (h : pool.receive posted = .reply reply) :
    Turned pool i (.registering posted) (.opened posted.job.sessionId)
      (pool.setCall i (.opened posted.job.sessionId))
  | gone {call : ManagerCall F} {posted : Posted F} (hcall : call.awaits = some posted)
    (h : pool.receive posted = .lost) : Turned pool i call .workerGone (pool.setCall i .workerGone)

theorem move_turned (pool : Pool F) (i : ℕ) (call : ManagerCall F) :
    ∃ call', pool.Turned i call call' (pool.move i call) := by
  cases call with
  | ask job => exact ⟨_, .ask job⟩
  | forkFrom parent => exact ⟨_, .forkFrom parent⟩
  | draw opening => exact ⟨_, .draw opening⟩
  | send id opening => exact ⟨_, .send id opening⟩
  | asked posted =>
    simp only [Pool.move]
    cases h : pool.receive posted with
    | pending => exact ⟨_, .idle rfl (.inr ⟨posted, rfl, h⟩)⟩
    | reply reply => exact ⟨_, .replied rfl h⟩
    | lost => exact ⟨_, .gone rfl h⟩
  | branching posted =>
    simp only [Pool.move]
    cases h : pool.receive posted with
    | pending => exact ⟨_, .idle rfl (.inr ⟨posted, rfl, h⟩)⟩
    | reply reply =>
      cases reply with
      | branch result =>
        cases result with
        | ok s => exact ⟨_, .branched h⟩
        | error e => exact ⟨_, .replied rfl h⟩
      | _ => exact ⟨_, .replied rfl h⟩
    | lost => exact ⟨_, .gone rfl h⟩
  | registering posted =>
    simp only [Pool.move]
    cases h : pool.receive posted with
    | pending => exact ⟨_, .idle rfl (.inr ⟨posted, rfl, h⟩)⟩
    | reply reply => exact ⟨_, .opened h⟩
    | lost => exact ⟨_, .gone rfl h⟩
  | replied posted reply => exact ⟨_, .idle rfl (.inl rfl)⟩
  | opened id => exact ⟨_, .idle rfl (.inl rfl)⟩
  | workerGone => exact ⟨_, .idle rfl (.inl rfl)⟩
  | dropped => exact ⟨_, .idle rfl (.inl rfl)⟩

/-- A turn is one call's own. -/
theorem turned_calls {i : ℕ} {call call' : ManagerCall F} {pool' : Pool F}
    (h : pool.Turned i call call' pool') (hcall : pool.calls[i]? = some call) :
    pool'.calls = pool.calls.set i call' := by
  cases h with
  | idle hjob hidle =>
    obtain ⟨hlt, rfl⟩ := List.getElem?_eq_some_iff.mp hcall
    exact (List.set_getElem_self hlt).symm
  | _ => rfl

section Steps

variable [ToString E] [DecidableEq F]

variable (up evm order ttl) in
/-- What an event of the pool is to its `w`-th worker. -/
inductive Pool.Moved (pool : Pool F) (event : PoolEvent up) (w : ℕ) : Worker F → Worker F → Prop
  | idle (wk : Worker F) : Moved pool event w wk wk
  | post {wk : Worker F} {i : ℕ} {call : ManagerCall F} {job : Job F} (hevent : event = .turn i)
    (hcall : pool.calls[i]? = some call) (hjob : call.job = some job)
    (hw : pool.shard job.sessionId = w) :
    Moved pool event w wk (Worker.step up evm order (.post ⟨job, pool.channels⟩) wk)
  | work {wk : Worker F} {now : Instant} {landed : Landed up} {spawns : Bool}
    (hevent : event = .work w now landed spawns) :
    Moved pool event w wk (Worker.step up evm order (.work now landed spawns) wk)
  | resolved {wk : Worker F} {i : ℕ} {failed : Bool} (hevent : event = .resolved w i failed) :
    Moved pool event w wk (Worker.step up evm order (.resolved i failed) wk)
  | sweep {wk : Worker F} {now : Instant} (hevent : event = .timeout w now)
    (hinbox : wk.inbox = []) : Moved pool event w wk (wk.sweep ttl now)

/-- A worker is touched alone. -/
theorem modify_moved {f : Worker F → Worker F} {event : PoolEvent up} {v w : ℕ} {wk' : Worker F}
    (h : (pool.workers.modify v f)[w]? = some wk')
    (hf : ∀ wk, v = w → pool.Moved up evm order ttl event w wk (f wk)) :
    ∃ wk, pool.workers[w]? = some wk ∧ pool.Moved up evm order ttl event w wk wk' := by
  rw [List.getElem?_modify, Option.map_eq_map, Option.map_eq_some_iff] at h
  obtain ⟨wk, hwk, rfl⟩ := h
  refine ⟨wk, hwk, ?_⟩
  split
  · rename_i hv
    exact hf wk hv
  · exact .idle wk

/-- Every worker of the pool after an event is one of before, moved. -/
theorem step_moved (event : PoolEvent up) {w : ℕ} {wk' : Worker F}
    (h : (pool.step up evm order ttl event).workers[w]? = some wk') :
    ∃ wk, pool.workers[w]? = some wk ∧ pool.Moved up evm order ttl event w wk wk' := by
  have hidle : ∀ {pool' : Pool F}, pool'.workers = pool.workers →
      pool'.workers[w]? = some wk' →
      ∃ wk, pool.workers[w]? = some wk ∧ pool.Moved up evm order ttl event w wk wk' := by
    intro pool' heq hwk
    rw [heq] at hwk
    exact ⟨wk', hwk, .idle wk'⟩
  cases event with
  | call method => exact hidle rfl h
  | turn i =>
    simp only [Pool.step] at h
    cases hcall : pool.calls[i]? with
    | none =>
      rw [hcall] at h
      exact hidle rfl h
    | some call =>
      rw [hcall] at h
      dsimp only at h
      have hpost : ∀ {job : Job F}, call.job = some job → (pool.post job).workers[w]? = some wk' →
          ∃ wk, pool.workers[w]? = some wk ∧
            pool.Moved up evm order ttl (.turn i) w wk wk' := fun hjob hwk =>
        modify_moved hwk fun _ hw => .post rfl hcall hjob hw
      obtain ⟨call', hturned⟩ := move_turned pool i call
      generalize pool.move i call = pool' at h hturned
      cases hturned with
      | ask job => exact hpost rfl h
      | forkFrom parent => exact hpost rfl h
      | send id opening => exact hpost rfl h
      | _ => exact hidle rfl h
  | drop i =>
    simp only [Pool.step] at h
    split at h <;> exact hidle rfl h
  | work v now landed spawns => exact modify_moved h fun wk hv => .work (by rw [hv])
  | resolved v i failed => exact modify_moved h fun wk hv => .resolved (by rw [hv])
  | timeout v now =>
    refine modify_moved h fun wk hv => ?_
    split
    · rename_i hinbox
      exact .sweep (by rw [hv]) hinbox
    · exact .idle wk

/-! ### Who is where -/

variable (up evm order) in
/-- Draining a queue posts nothing and takes no answer back. -/
theorem drain_logs (now : Instant) (spawns : Bool) (queue : List (Posted F)) (rounds : ℕ)
    (blocking : Bool) (wk : Worker F) :
    (Worker.drain up evm order now spawns queue rounds blocking wk).arrived = wk.arrived ∧
      wk.answers <+: (Worker.drain up evm order now spawns queue rounds blocking wk).answers := by
  induction queue generalizing rounds blocking wk with
  | nil => exact ⟨rfl, List.prefix_rfl⟩
  | cons posted queue ih =>
    simp only [Worker.drain]
    rcases handle up evm order now blocking posted.job (wk.sessions, wk.fetch) with
      ⟨reply | keys | -, sessions, fetch⟩
    · obtain ⟨harrived, hanswers⟩ := ih 0 false { wk with
        sessions := sessions, fetch := fetch, answers := wk.answers ++ [(posted, reply)] }
      exact ⟨harrived, (List.prefix_append _ _).trans hanswers⟩
    · cases spawns <;> exact ⟨rfl, List.prefix_rfl⟩
    · exact ⟨rfl, List.prefix_rfl⟩

variable (up evm order) in
/-- Taking a message posts nothing and takes no answer back. -/
theorem work_logs (now : Instant) (landed : Landed up) (spawns : Bool) (wk : Worker F) :
    (Worker.step up evm order (.work now landed spawns) wk).arrived = wk.arrived ∧
      wk.answers <+: (Worker.step up evm order (.work now landed spawns) wk).answers := by
  have hdrain : ∀ queue rounds blocking (wk₁ : Worker F), wk₁.arrived = wk.arrived →
      wk₁.answers = wk.answers →
      (Worker.drain up evm order now spawns queue rounds blocking wk₁).arrived = wk.arrived ∧
        wk.answers <+: (Worker.drain up evm order now spawns queue rounds blocking wk₁).answers := by
    intro queue rounds blocking wk₁ harrived hanswers
    obtain ⟨h, h'⟩ := drain_logs up evm order now spawns queue rounds blocking wk₁
    exact ⟨h.trans harrived, by rw [← hanswers]; exact h'⟩
  cases hinbox : wk.inbox with
  | nil => simp only [Worker.step, hinbox, List.prefix_rfl, and_self]
  | cons message inbox =>
    simp only [Worker.step, hinbox]
    cases message with
    | job posted =>
      cases hb : wk.blocked.lookup posted.job.sessionId with
      | none =>
        have haccept := accept_job up evm order (wk.take inbox landed) now spawns hb
        simp only [Worker.take] at haccept
        rw [haccept]
        exact hdrain _ _ _ _ rfl rfl
      | some blocked =>
        simp only [Worker.accept, hb]
        exact ⟨trivial, List.prefix_rfl⟩
    | unblock id failed =>
      simp only [Worker.accept, Worker.unblock]
      split
      · exact ⟨rfl, List.prefix_rfl⟩
      · exact hdrain _ _ _ _ rfl rfl

variable (up evm order) in
theorem resolved_logs (i : ℕ) (failed : Bool) (wk : Worker F) :
    (Worker.step up evm order (.resolved i failed) wk).arrived = wk.arrived ∧
      (Worker.step up evm order (.resolved i failed) wk).answers = wk.answers := by
  simp only [Worker.step]
  split <;> exact ⟨rfl, rfl⟩

/-- What a worker of the pool has received and answered stays so. -/
theorem moved_logs {event : PoolEvent up} {w : ℕ} {wk wk' : Worker F}
    (h : pool.Moved up evm order ttl event w wk wk') :
    wk.arrived <+: wk'.arrived ∧ wk.answers <+: wk'.answers := by
  cases h with
  | idle => exact ⟨List.prefix_rfl, List.prefix_rfl⟩
  | sweep hevent hinbox => exact ⟨List.prefix_rfl, List.prefix_rfl⟩
  | post hevent hcall hjob hw => exact ⟨List.prefix_append _ _, List.prefix_rfl⟩
  | work hevent =>
    obtain ⟨harrived, hanswers⟩ := work_logs up evm order _ _ _ wk
    exact ⟨by rw [harrived], hanswers⟩
  | resolved hevent =>
    obtain ⟨harrived, hanswers⟩ := resolved_logs up evm order _ _ wk
    exact ⟨by rw [harrived], by rw [hanswers]⟩

variable (up evm order ttl) in
theorem step_length (pool : Pool F) (event : PoolEvent up) :
    (pool.step up evm order ttl event).workers.length = pool.workers.length := by
  cases event with
  | turn i =>
    simp only [Pool.step]
    split
    · rename_i call hcall
      obtain ⟨call', hturned⟩ := move_turned pool i call
      generalize pool.move i call = pool' at hturned
      cases hturned <;> simp [Pool.setCall, Pool.post]
    · rfl
  | drop i =>
    simp only [Pool.step]
    split <;> rfl
  | _ => simp [Pool.step]

/-- A session belongs to one worker for good. -/
theorem step_shard (event : PoolEvent up) (id : SessionId) :
    (pool.step up evm order ttl event).shard id = pool.shard id := by
  rw [Pool.shard, step_length, Pool.shard]

/-- Every worker is there after an event. -/
theorem worker_after (event : PoolEvent up) {w : ℕ} {wk : Worker F}
    (h : pool.workers[w]? = some wk) :
    ∃ wk', (pool.step up evm order ttl event).workers[w]? = some wk' ∧
      pool.Moved up evm order ttl event w wk wk' := by
  obtain ⟨hlt, -⟩ := List.getElem?_eq_some_iff.mp h
  rw [← step_length up evm order ttl pool event] at hlt
  obtain ⟨wk', hwk'⟩ : ∃ wk', (pool.step up evm order ttl event).workers[w]? = some wk' :=
    ⟨_, List.getElem?_eq_some_iff.mpr ⟨hlt, rfl⟩⟩
  obtain ⟨wk₀, hwk₀, hmoved⟩ := step_moved event hwk'
  obtain rfl := Option.some.inj (h.symm.trans hwk₀)
  exact ⟨wk', hwk', hmoved⟩

/-- A call that sends its job uses up one channel, and no event gives any back. -/
theorem turn_channels {i : ℕ} {call : ManagerCall F} {job : Job F}
    (hcall : pool.calls[i]? = some call) (hjob : call.job = some job) :
    (pool.step up evm order ttl (.turn i)).channels = pool.channels + 1 := by
  simp only [Pool.step, hcall]
  cases call <;> cases hjob <;> rfl

theorem step_channels (event : PoolEvent up) :
    pool.channels ≤ (pool.step up evm order ttl event).channels := by
  cases event with
  | turn i =>
    simp only [Pool.step]
    split
    · rename_i call hcall
      obtain ⟨call', hturned⟩ := move_turned pool i call
      generalize pool.move i call = pool' at hturned
      cases hturned <;> simp [Pool.setCall, Pool.post]
    · rfl
  | drop i =>
    simp only [Pool.step]
    split <;> rfl
  | _ => rfl

/-! ### Who is answered -/

/-- No job that is answered still waits, and nothing is answered that was not sent. -/
def Worker.Answered (wk : Worker F) (hand : SessionId → List (Posted F)) : Prop :=
  ∀ a ∈ wk.answers, a.1 ∈ wk.arrived ∧ a.1 ∉ hand a.1.job.sessionId ++
    wk.queued a.1.job.sessionId ++ wk.waiting a.1.job.sessionId

variable (up evm order) in
/-- DRAINING: the first jobs of the queue are answered, and what is left of it, if anything, is
    parked. -/
theorem drain_splits (now : Instant) (spawns : Bool) {id : SessionId} (queue : List (Posted F))
    (rounds : ℕ) (blocking : Bool) (wk : Worker F)
    (hid : ∀ posted ∈ queue, posted.job.sessionId = id) (hnone : wk.blocked.lookup id = none) :
    ∃ served rest, queue = served ++ rest ∧
      (∀ a ∈ (Worker.drain up evm order now spawns queue rounds blocking wk).answers,
        a ∈ wk.answers ∨ a.1 ∈ served) ∧
      ((Worker.drain up evm order now spawns queue rounds blocking wk).queued id).Sublist rest ∧
      ∀ id', (Worker.drain up evm order now spawns queue rounds blocking wk).waiting id'
        = wk.waiting id' := by
  induction queue generalizing rounds blocking wk with
  | nil =>
    refine ⟨[], [], rfl, fun a ha => .inl ha, ?_, fun _ => rfl⟩
    rw [Worker.drain, Worker.queued, hnone]
  | cons posted queue ih =>
    have hown : posted.job.sessionId = id := hid posted List.mem_cons_self
    simp only [Worker.drain]
    rcases handle up evm order now blocking posted.job (wk.sessions, wk.fetch) with
      ⟨reply | keys | -, sessions, fetch⟩
    · obtain ⟨served, rest, rfl, hanswers, hqueued, hwaiting⟩ := ih 0 false { wk with
          sessions := sessions, fetch := fetch, answers := wk.answers ++ [(posted, reply)] }
        (fun p hp => hid p (List.mem_cons_of_mem posted hp)) hnone
      refine ⟨posted :: served, rest, rfl, fun a ha => ?_, hqueued, hwaiting⟩
      rcases hanswers a ha with ha | ha
      · rcases List.mem_append.mp ha with ha | ha
        · exact .inl ha
        · rw [List.mem_singleton.mp ha]
          exact .inr List.mem_cons_self
      · exact .inr (List.mem_cons_of_mem posted ha)
    · refine ⟨[], posted :: queue, rfl, fun a ha => .inl ?_, ?_, fun id' => ?_⟩
      · cases spawns <;> exact ha
      · cases spawns <;>
          simp [Worker.park, Worker.queued, hown, Finmap.lookup_insert]
      · cases spawns <;>
          simp [Worker.park, Worker.waiting, List.filterMap_append, jobFor_unblock]
    · refine ⟨[], posted :: queue, rfl, fun a ha => .inl ha, ?_, fun _ => rfl⟩
      rw [Worker.queued, hnone]
      exact List.nil_sublist _

/-- What one worker answers of a queue put into its hands waits no longer. -/
theorem answered_drain {wk : Worker F} {id : SessionId} {queue done : List (Posted F)}
    (hline : InLine wk id queue done) (hnone : wk.blocked.lookup id = none)
    (hnodup : wk.arrived.Nodup)
    (h : wk.Answered fun id' => if id' = id then queue else []) (now : Instant) (spawns : Bool)
    {rounds : ℕ} {blocking : Bool} (hrounds : blocking = false → rounds < maxSpeculativeRounds)
    (hqueue : queue ≠ []) :
    (Worker.drain up evm order now spawns queue rounds blocking wk).Answered fun _ => [] := by
  have hmem : ∀ posted ∈ queue, posted.job.sessionId = id ∧ posted ∈ wk.arrived := fun posted hp =>
    inLine_mem hline (List.mem_append_left _ hp)
  obtain ⟨served, rest, hsplit, hanswers, hqueued, hwaiting⟩ := drain_splits up evm order now spawns
    queue rounds blocking wk (fun posted hp => (hmem posted hp).1) hnone
  obtain ⟨hdrained, -, -⟩ := drain_inLine up evm order now spawns queue rounds blocking wk done hline
    hnone hrounds fun hnil => absurd hnil hqueue
  have harrived := (drain_logs up evm order now spawns queue rounds blocking wk).1
  intro a ha
  rw [harrived, List.nil_append, hwaiting]
  rcases hanswers a ha with ha | ha
  · obtain ⟨hold, hout⟩ := h a ha
    refine ⟨hold, fun hin => hout ?_⟩
    dsimp only
    by_cases hid : a.1.job.sessionId = id
    · rw [if_pos hid, hid, hsplit]
      rw [hid] at hin
      rcases List.mem_append.mp hin with hin | hin
      · exact List.mem_append_left _ (List.mem_append_left _
          (List.mem_append_right _ (hqueued.subset hin)))
      · exact List.mem_append_right _ hin
    · rw [if_neg hid, List.nil_append, Worker.queued, ← hdrained.blocked _ hid]
      exact hin
  · have hown : a.1 ∈ queue := by rw [hsplit]; exact List.mem_append_left _ ha
    obtain ⟨hid, hold⟩ := hmem a.1 hown
    refine ⟨hold, fun hin => ?_⟩
    -- the line has each job once
    have hline' : (done ++ (served ++ rest ++ wk.queued id ++ wk.waiting id)).Nodup := by
      rw [← hsplit, ← hline.split]
      exact hnodup.filter _
    rw [hid] at hin
    have hrest := (List.nodup_append.mp hline').2.1
    rw [List.append_assoc, List.append_assoc] at hrest
    refine (List.nodup_append.mp hrest).2.2 a.1 ha a.1 ?_ rfl
    rcases List.mem_append.mp hin with hin | hin
    · exact List.mem_append_left _ (hqueued.subset hin)
    · exact List.mem_append_right _ (List.mem_append_right _ hin)

omit [ToString E] [DecidableEq F] in
/-- FRAME: where nothing is answered and nobody leaves the line, the same jobs wait. -/
theorem answered_frame {wk wk' : Worker F} {hand : SessionId → List (Posted F)}
    (h : wk.Answered fun _ => []) (harrived : wk'.arrived = wk.arrived)
    (hanswers : wk'.answers = wk.answers)
    (hlines : ∀ id, ∃ done, InLine wk id [] done ∧ InLine wk' id (hand id) done) :
    wk'.Answered hand := by
  intro a ha
  rw [hanswers] at ha
  obtain ⟨done, hline, hline'⟩ := hlines a.1.job.sessionId
  have hsame : wk'.arrivedOf a.1.job.sessionId = wk.arrivedOf a.1.job.sessionId := by
    rw [Worker.arrivedOf, Worker.arrivedOf, harrived]
  rw [hline.split, hline'.split] at hsame
  rw [harrived, List.append_cancel_left hsame]
  exact h a ha

variable (up evm order) in
/-- Taking a message answers no job that goes on waiting. -/
theorem answered_work {wk : Worker F} (hlines : wk.Lines) (hnodup : wk.arrived.Nodup)
    (h : wk.Answered fun _ => []) (now : Instant) (landed : Landed up) (spawns : Bool) :
    (Worker.step up evm order (.work now landed spawns) wk).Answered fun _ => [] := by
  simp only [Worker.step]
  cases hinbox : wk.inbox with
  | nil => exact h
  | cons message inbox =>
    dsimp only
    cases message with
    | job posted =>
      obtain ⟨done, hline⟩ := hlines posted.job.sessionId
      cases hb : wk.blocked.lookup posted.job.sessionId with
      | none =>
        have haccept := accept_job up evm order (wk.take inbox landed) now spawns hb
        simp only [Worker.take] at haccept
        rw [haccept]
        have hhand := inLine_take_job hinbox hb landed hline
        rw [if_pos rfl] at hhand
        have htaken : (wk.take inbox landed).Answered fun id' =>
            if id' = posted.job.sessionId then [posted] else [] :=
          answered_frame h rfl rfl fun id' => by
            obtain ⟨done', hline'⟩ := hlines id'
            exact ⟨done', hline', inLine_take_job hinbox hb landed hline'⟩
        exact answered_drain hhand hb hnodup htaken now spawns (fun _ => by decide)
          (List.cons_ne_nil posted [])
      | some blocked =>
        simp only [Worker.accept, hb]
        refine answered_frame h rfl rfl fun id' => ?_
        obtain ⟨done', hline'⟩ := hlines id'
        exact ⟨done', hline', inLine_enqueue hinbox hb landed hline'⟩
    | unblock id failed =>
      obtain ⟨done, hline⟩ := hlines id
      obtain ⟨blocked, hb⟩ := unblock_parked hinbox hline
      simp only [Worker.accept, Worker.unblock, hb]
      have hhand := inLine_unblock hinbox hb landed hline
      rw [if_pos rfl] at hhand
      have htaken : Worker.Answered { wk.take inbox landed with blocked := wk.blocked.erase id }
          fun id' => if id' = id then blocked.queue else [] :=
        answered_frame h rfl rfl fun id' => by
          obtain ⟨done', hline'⟩ := hlines id'
          exact ⟨done', hline', inLine_unblock hinbox hb landed hline'⟩
      exact answered_drain hhand (Finmap.lookup_erase ..) hnodup htaken now spawns rounds_left
        (hline.parked blocked hb).1

/-- INVARIANT of one worker in any run: its jobs stand in line, all of them are for sessions of its
    own, no two share a channel, and none is answered while it waits. -/
structure Pool.WiredAt (pool : Pool F) (w : ℕ) (wk : Worker F) : Prop where
  lines : wk.Lines
  routed : ∀ posted ∈ wk.arrived, pool.shard posted.job.sessionId = w
  fresh : ∀ posted ∈ wk.arrived, posted.reply < pool.channels
  nodup : (wk.arrived.map Posted.reply).Nodup
  answered : wk.Answered fun _ => []

/-- INVARIANT of the pool in any run, whatever panics, is swept or is dropped. -/
structure Pool.Wired (pool : Pool F) : Prop where
  pos : 0 < pool.workers.length
  workers : ∀ w wk, pool.workers[w]? = some wk → pool.WiredAt w wk
  awaited : ∀ call ∈ pool.calls, ∀ posted, call.awaits = some posted → pool.Sent posted
  told : ∀ posted reply, .replied posted reply ∈ pool.calls → pool.Told posted reply

omit [ToString E] [DecidableEq F] in
/-- A worker that is sent a job on a fresh channel stays wired. -/
theorem wiredAt_post {pool' : Pool F} {w : ℕ} {wk : Worker F} {job : Job F} (h : pool.WiredAt w wk)
    (hw : pool.shard job.sessionId = w) (hlength : pool'.workers.length = pool.workers.length)
    (hchannels : pool'.channels = pool.channels + 1) :
    pool'.WiredAt w { wk with
      inbox := wk.inbox ++ [.job ⟨job, pool.channels⟩]
      arrived := wk.arrived ++ [⟨job, pool.channels⟩] } := by
  have hshard : ∀ id, pool'.shard id = pool.shard id := fun id => by
    rw [Pool.shard, hlength, Pool.shard]
  refine ⟨lines_post h.lines _, fun posted hp => ?_, fun posted hp => ?_, ?_, fun a ha => ?_⟩
  · rw [hshard]
    rcases List.mem_append.mp hp with hp | hp
    · exact h.routed posted hp
    · rw [List.mem_singleton.mp hp]
      exact hw
  · rw [hchannels]
    rcases List.mem_append.mp hp with hp | hp
    · exact (h.fresh posted hp).trans (Nat.lt_succ_self _)
    · rw [List.mem_singleton.mp hp]
      exact Nat.lt_succ_self _
  · simp only [List.map_append, List.map_cons, List.map_nil]
    refine List.nodup_append.mpr ⟨h.nodup, List.nodup_singleton _, ?_⟩
    intro a ha b hb hab
    obtain ⟨posted, hp, rfl⟩ := List.mem_map.mp ha
    have hlt := h.fresh posted hp
    rw [hab, List.mem_singleton.mp hb] at hlt
    exact absurd hlt (Nat.lt_irrefl _)
  · obtain ⟨hold, hout⟩ := h.answered a ha
    refine ⟨List.mem_append_left _ hold, fun hin => hout ?_⟩
    have hne : a.1 ≠ ⟨job, pool.channels⟩ := fun heq => by
      have hlt := h.fresh a.1 hold
      rw [heq] at hlt
      exact absurd hlt (Nat.lt_irrefl _)
    rcases List.mem_append.mp hin with hin | hin
    · exact List.mem_append_left _ hin
    · refine List.mem_append_right _ ?_
      simp only [Worker.waiting, List.filterMap_append, List.mem_append] at hin
      refine hin.resolve_right fun hnew => hne ?_
      simp only [List.filterMap_cons, List.filterMap_nil, Message.jobFor] at hnew
      split at hnew
      · cases hnew
      · rename_i posted hposted
        split at hposted
        · rw [List.mem_singleton.mp hnew, ← Option.some.inj hposted]
        · cases hposted

/-- ONE WORKER stays wired, whatever happens on it. -/
theorem wiredAt_moved {event : PoolEvent up} {w : ℕ} {wk wk' : Worker F} (h : pool.WiredAt w wk)
    (hmoved : pool.Moved up evm order ttl event w wk wk') :
    (pool.step up evm order ttl event).WiredAt w wk' := by
  have hnodup : wk.arrived.Nodup := List.Nodup.of_map Posted.reply h.nodup
  have hsame : ∀ {wk₁ : Worker F}, wk₁.Lines → wk₁.arrived = wk.arrived →
      (wk₁.Answered fun _ => []) → (pool.step up evm order ttl event).WiredAt w wk₁ := by
    intro wk₁ hlines harrived hanswered
    refine ⟨hlines, fun posted hp => ?_, fun posted hp => ?_, by rw [harrived]; exact h.nodup,
      hanswered⟩
    · rw [harrived] at hp
      rw [step_shard]
      exact h.routed posted hp
    · rw [harrived] at hp
      exact (h.fresh posted hp).trans_le (step_channels event)
  cases hmoved with
  | idle => exact hsame h.lines rfl h.answered
  | sweep hevent hinbox => exact hsame (Loop.lines_sweep h.lines _) rfl h.answered
  | work hevent =>
    exact hsame (work_worked up evm order h.lines _ _ _).lines (work_logs up evm order _ _ _ wk).1
      (answered_work up evm order h.lines hnodup h.answered _ _ _)
  | @resolved i failed hevent =>
    obtain ⟨harrived, hanswers⟩ := resolved_logs up evm order i failed wk
    refine hsame (lines_resolved up evm order h.lines i failed) harrived
      (answered_frame h.answered harrived hanswers fun id => ?_)
    obtain ⟨done, hline⟩ := h.lines id
    refine ⟨done, hline, ?_⟩
    simp only [Worker.step]
    split
    · exact hline
    · rename_i hi
      exact inLine_resolved hi _ hline
  | @post i call job hevent hcall hjob hw =>
    subst hevent
    exact wiredAt_post h hw (step_length up evm order ttl pool _) (turn_channels hcall hjob)

omit [DecidableEq F] [ToString E] in
/-- A job sent moves no session to another worker. -/
theorem post_shard (job : Job F) (id : SessionId) : (pool.post job).shard id = pool.shard id := by
  rw [Pool.shard, Pool.post, List.length_modify, Pool.shard]

omit [DecidableEq F] [ToString E] in
/-- A job just sent is with its worker. -/
theorem post_home (hpos : 0 < pool.workers.length) (job : Job F) :
    (pool.post job).Sent ⟨job, pool.channels⟩ := by
  have hlt : pool.shard job.sessionId < pool.workers.length := Nat.mod_lt _ hpos
  have hget : (pool.post job).workers[pool.shard job.sessionId]?
      = some { pool.workers[pool.shard job.sessionId] with
        inbox := pool.workers[pool.shard job.sessionId].inbox ++ [.job ⟨job, pool.channels⟩]
        arrived := pool.workers[pool.shard job.sessionId].arrived ++ [⟨job, pool.channels⟩] } := by
    rw [Pool.post, List.getElem?_modify_eq, List.getElem?_eq_getElem hlt, Option.map_eq_map,
      Option.map_some]
  exact ⟨_, by rw [post_shard]; exact hget, List.mem_append_right _ (List.mem_singleton_self _)⟩

/-- What every event makes of the calls: each is one of before, has just been made, dropped or
    turned. -/
theorem calls_cases {event : PoolEvent up} {call : ManagerCall F}
    (h : call ∈ (pool.step up evm order ttl event).calls) :
    call ∈ pool.calls ∨ (∃ method, event = .call method ∧ call = method.start) ∨
      call = .dropped ∨ ∃ i call₀, event = .turn i ∧ pool.calls[i]? = some call₀ ∧
        pool.Turned i call₀ call (pool.step up evm order ttl event) := by
  cases event with
  | call method =>
    rcases List.mem_append.mp h with h | h
    · exact .inl h
    · exact .inr (.inl ⟨method, rfl, List.mem_singleton.mp h⟩)
  | turn i =>
    simp only [Pool.step] at h ⊢
    cases hcall : pool.calls[i]? with
    | none =>
      rw [hcall] at h
      exact .inl h
    | some call₀ =>
      rw [hcall] at h
      obtain ⟨call', hturned⟩ := move_turned pool i call₀
      dsimp only at h ⊢
      rw [turned_calls hturned hcall] at h
      refine (List.mem_or_eq_of_mem_set h).imp_right fun heq => .inr (.inr ⟨i, call₀, rfl, hcall, ?_⟩)
      rw [heq]
      exact hturned
  | drop i =>
    simp only [Pool.step] at h ⊢
    split at h
    · exact (List.mem_or_eq_of_mem_set h).imp_right fun h => .inr (.inl h)
    · exact (List.mem_or_eq_of_mem_set h).imp_right fun h => .inr (.inl h)
    · exact (List.mem_or_eq_of_mem_set h).imp_right fun h => .inr (.inl h)
    · exact .inl h
  | work w now landed spawns => exact .inl h
  | resolved w i failed => exact .inl h
  | timeout w now => exact .inl h

omit [ToString E] [DecidableEq F] in
/-- A session's jobs are all with its own worker. -/
theorem wired_alone (h : pool.Wired) (id : SessionId) :
    ∃ wk, pool.workers[pool.shard id]? = some wk ∧ pool.arrivedOf id = wk.arrivedOf id ∧
      ∀ (w : ℕ) wk', pool.workers[w]? = some wk' → w ≠ pool.shard id → wk'.arrivedOf id = [] := by
  have hwk := List.getElem?_eq_getElem (l := pool.workers) (Nat.mod_lt id.toNat h.pos)
  have hnone : ∀ (w : ℕ) wk', pool.workers[w]? = some wk' → w ≠ pool.shard id →
      wk'.arrivedOf id = [] := by
    intro w wk' hwk' hw
    refine List.filter_eq_nil_iff.mpr fun posted hp hid => hw ?_
    rw [← (h.workers w wk' hwk').routed posted hp, of_decide_eq_true hid]
  exact ⟨_, hwk, flatMap_alone hwk hnone, hnone⟩

omit [ToString E] [DecidableEq F] in
/-- What is received is the reply to the job that was sent. -/
theorem receive_told (h : pool.Wired) {posted : Posted F} (hsent : pool.Sent posted)
    {reply : Reply F} (hreceive : pool.receive posted = .reply reply) :
    pool.Told posted reply := by
  obtain ⟨wk, hwk, harrived⟩ := hsent
  have hwired := h.workers _ wk hwk
  simp only [Pool.receive, hwk, Worker.receive] at hreceive
  split at hreceive
  · rename_i a hfind
    have hmem := List.mem_of_find?_eq_some hfind
    have hchannel : a.1.reply = posted.reply := by simpa using List.find?_some hfind
    have hsame : a.1 = posted := List.inj_on_of_nodup_map hwired.nodup
      (hwired.answered a hmem).1 harrived hchannel
    obtain rfl : a.2 = reply := by simpa using hreceive
    exact ⟨wk, hwk, by rw [← hsame]; exact hmem⟩
  · split at hreceive <;> cases hreceive

/-- A job that has arrived has done so for good. -/
theorem sent_after {posted : Posted F} (h : pool.Sent posted) (event : PoolEvent up) :
    (pool.step up evm order ttl event).Sent posted := by
  obtain ⟨wk, hwk, hp⟩ := h
  obtain ⟨wk', hwk', hmoved⟩ := worker_after event hwk
  exact ⟨wk', by rw [step_shard]; exact hwk', (moved_logs hmoved).1.subset hp⟩

/-- A reply given stays given. -/
theorem told_after {posted : Posted F} {reply : Reply F} (h : pool.Told posted reply)
    (event : PoolEvent up) : (pool.step up evm order ttl event).Told posted reply := by
  obtain ⟨wk, hwk, hmem⟩ := h
  obtain ⟨wk', hwk', hmoved⟩ := worker_after event hwk
  exact ⟨wk', by rw [step_shard]; exact hwk', (moved_logs hmoved).2.subset hmem⟩

/-- STEP LEMMA: the pool stays wired. -/
theorem wired_step (h : pool.Wired) (event : PoolEvent up) :
    (pool.step up evm order ttl event).Wired := by
  have hstays : ∀ posted : Posted F, pool.Sent posted →
      (pool.step up evm order ttl event).Sent posted := fun _ hsent => sent_after hsent event
  refine ⟨by rw [step_length]; exact h.pos, fun w wk' hwk' => ?_, fun call hcall posted hp => ?_,
    fun posted reply hcall => ?_⟩
  · obtain ⟨wk, hwk, hmoved⟩ := step_moved event hwk'
    exact wiredAt_moved (h.workers w wk hwk) hmoved
  · rcases calls_cases hcall with hold | ⟨method, -, rfl⟩ | rfl | ⟨i, call₀, -, hcall₀, hturned⟩
    · exact hstays posted (h.awaited call hold posted hp)
    · cases method <;> cases hp
    · cases hp
    · have hmem := List.mem_of_getElem? hcall₀
      generalize pool.step up evm order ttl event = pool' at hturned hstays
      cases hturned with
      | idle hjob => exact hstays posted (h.awaited call hmem posted hp)
      | ask job =>
        obtain rfl := Option.some.inj hp
        exact post_home h.pos job.1
      | forkFrom parent =>
        obtain rfl := Option.some.inj hp
        exact post_home h.pos _
      | send id opening =>
        obtain rfl := Option.some.inj hp
        exact post_home h.pos _
      | _ => cases hp
  · rcases calls_cases hcall with hold | ⟨method, -, heq⟩ | heq | ⟨i, call₀, -, hcall₀, hturned⟩
    · exact told_after (h.told posted reply hold) event
    · cases method <;> cases heq
    · cases heq
    · have hmem := List.mem_of_getElem? hcall₀
      have hafter : pool.Told posted reply → (pool.step up evm order ttl event).Told posted reply :=
        fun htold => told_after htold event
      generalize pool.step up evm order ttl event = pool' at hturned hafter
      cases hturned with
      | idle hjob => exact hafter (h.told posted reply hmem)
      | replied hawaits hreceive => exact hafter (receive_told h (h.awaited _ hmem _ hawaits) hreceive)

omit [ToString E] [DecidableEq F] in
theorem start_worker {fetch : Fetch F} {numWorkers w : ℕ} {wk : Worker F}
    (h : (Pool.start fetch numWorkers).workers[w]? = some wk) : wk = .start fetch := by
  rw [Pool.start, List.getElem?_replicate] at h
  split at h
  · exact (Option.some.inj h).symm
  · cases h

omit [ToString E] [DecidableEq F] in
theorem wired_start (fetch : Fetch F) (numWorkers : ℕ) :
    (Pool.start fetch numWorkers).Wired := by
  refine ⟨by simp [Pool.start], fun w wk hwk => ?_, by simp [Pool.start], by simp [Pool.start]⟩
  obtain rfl := start_worker hwk
  exact ⟨lines_start fetch, by simp [Worker.start], by simp [Worker.start], by simp [Worker.start],
    by simp [Worker.Answered, Worker.start]⟩

end Steps

end Forkyard
