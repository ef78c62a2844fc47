import Forkyard.Session.Request

/-! One worker thread: its sessions, its inbox, the jobs it has parked and the resolver threads that
    owe it an `unblock`. A job that misses upstream state is parked at the front of its session's
    queue, later jobs for that session line up behind it, and the worker goes on to other sessions.
    A panic unwinds to the worker's loop: whatever the worker held in its hands is gone.

        inbox ──job──▶ blocked? ──yes──▶ its queue
                           └──no──▶ handle ──done──▶ answered
                                           ──deferred──▶ park ──▶ resolver ──unblock──▶ inbox
        inbox ──unblock──▶ drain the queue from its front -/

namespace Forkyard

open Schemes

variable {F E : Type}

/-! ### Jobs -/

abbrev Instant := ℕ

/-- A job that never reads upstream state. An adopted session is one a branch has just built. -/
inductive Command (F : Type) where
  | fork (id : SessionId) (base : BaseSnapshot) (fallback : F) (blockEnv : BlockEnv)
      (seed : Option SessionState)
  | state (id : SessionId)
  | branch (parent : SessionId)
  | adopt (id : SessionId) (session : { s : Session F // s.readLog = none })
  | discard (id : SessionId)
  | blockEnvOf (id : SessionId)
  | setAccount (id : SessionId) (address : Address) (info : AccountInfo)
  | setStorage (id : SessionId) (address : Address) (key : StorageKey) (value : StorageValue)

inductive Job (F : Type) where
  | command (c : Command F)
  | read (id : SessionId) (request : Request)

def Command.sessionId : Command F → SessionId
  | .fork id _ _ _ _ => id
  | .state id => id
  | .branch parent => parent
  | .adopt id _ => id
  | .discard id => id
  | .blockEnvOf id => id
  | .setAccount id _ _ => id
  | .setStorage id _ _ _ => id

/-- The session whose order this job must keep. -/
def Job.sessionId : Job F → SessionId
  | .command c => c.sessionId
  | .read id _ => id

/-- A job with the channel its reply goes to. -/
structure Posted (F : Type) where
  job : Job F
  reply : ℕ

abbrev Sessions (F : Type) := Map SessionId (Session F × Instant)

/-- Look a session up, stamp it as used and run `f` on it, or answer that it is not there. -/
def touch (now : Instant) (id : SessionId) (missing : Reply F)
    (f : Session F → Reply F × Session F) (sessions : Sessions F) : Reply F × Sessions F :=
  match sessions.lookup id with
  | some (s, _) => ((f s).1, sessions.insert id ((f s).2, now))
  | none => (missing, sessions)

/-- `State`'s reply: the session's own state, at its block's number if that fits a u64. -/
def stateReply (order : HashOrder) (s : Session F) : Reply F :=
  .state <|
    if s.blockEnv.number.toNat < 2 ^ 64 then
      .ok (s.state order, UInt64.ofNat s.blockEnv.number.toNat)
    else .error (.execution "block number does not fit a u64")

/-- Every job that never reads upstream state, so never defers. -/
def handleJob (order : HashOrder) (now : Instant) : Command F → Sessions F → Reply F × Sessions F
  | .fork id base fallback blockEnv seed, sessions =>
    let session := match seed with
      | some state => .restore base fallback blockEnv state
      | none => .fork base fallback blockEnv
    (.ack, sessions.insert id (session, now))
  | .state id, sessions =>
    touch now id (.state (.error (.unknown id))) (fun s => (stateReply order s, s)) sessions
  | .branch parent, sessions =>
    touch now parent (.branch (.error (.unknown parent))) (fun s => (.branch (.ok s.branch), s))
      sessions
  | .adopt id session, sessions => (.ack, sessions.insert id (session.1, now))
  | .discard id, sessions => (.ack, sessions.erase id)
  | .blockEnvOf id, sessions =>
    touch now id (.blockEnv (.error (.unknown id))) (fun s => (.blockEnv (.ok s.blockEnv), s))
      sessions
  | .setAccount id address info, sessions =>
    touch now id (.written (.error (.unknown id)))
      (fun s => (.written (.ok ()), s.setAccount address info)) sessions
  | .setStorage id address key value, sessions =>
    touch now id (.written (.error (.unknown id)))
      (fun s => (.written (.ok ()), s.setStorage address key value)) sessions

inductive Outcome (F : Type) where
  | done (reply : Reply F)
  | deferred (keys : List StateKey)
  | panicked

/-- What a pass comes to for its job. -/
def Pass.outcome : Pass (Reply F) → Outcome F
  | .done reply => .done reply
  | .missed keys => .deferred keys
  | .panicked => .panicked

theorem outcome_deferred {p : Pass (Reply F)} {keys : List StateKey}
    (h : p.outcome = .deferred keys) : p = .missed keys := by
  cases p <;> cases h
  rfl

/-! ### The worker -/

/-- A parked job with every later job for its session behind it, and the passes it has taken. -/
structure Blocked (F : Type) where
  queue : List (Posted F)
  rounds : ℕ

inductive Message (F : Type) where
  | job (posted : Posted F)
  | unblock (id : SessionId) (failed : Bool)

/-- A resolver thread at work: what it resolves, through which fallback, for which session. -/
structure Resolving (F : Type) where
  id : SessionId
  fallback : Option F
  keys : List StateKey

/-- A worker with all that is under way around it. `answers` is every reply sent, with the job it
    answers, and `arrived` every job ever posted, both in order. -/
structure Worker (F : Type) where
  sessions : Sessions F
  blocked : Map SessionId (Blocked F)
  fetch : Fetch F
  inbox : List (Message F)
  resolving : List (Resolving F)
  answers : List (Posted F × Reply F)
  arrived : List (Posted F)

/-- A worker with nothing to do yet, next to whatever is cached already. -/
def Worker.start (fetch : Fetch F) : Worker F := ⟨∅, ∅, fetch, [], [], [], []⟩

section Steps

variable [ToString E] [DecidableEq F] (up : F → Upstream E) (evm : Evm E) (order : HashOrder)

/-- Run one job. With `blocking` false, a job that reads upstream state comes back deferred instead
    of waiting for it. -/
def handle (now : Instant) (blocking : Bool) : Job F → Sessions F × Fetch F →
    Outcome F × (Sessions F × Fetch F)
  | .read id request, (sessions, fetch) =>
    match sessions.lookup id with
    | none => (.done (request.unknown id), sessions, fetch)
    | some (s, _) =>
      match request.pass up evm blocking (s, fetch) with
      | (.done reply, s, fetch) => (.done reply, sessions.insert id (s, now), fetch)
      | (.missed keys, s, fetch) => (.deferred keys, sessions.insert id (s, now), fetch)
      | (.panicked, s, fetch) => (.panicked, sessions.insert id (s, now), fetch)
  | .command c, (sessions, fetch) =>
    (.done (handleJob order now c sessions).1, (handleJob order now c sessions).2, fetch)

variable {up evm order}

/-- A read that finds no session, -/
theorem handle_absent {now : Instant} {blocking : Bool} {id : SessionId} {request : Request}
    {sessions : Sessions F} {fetch : Fetch F} (h : sessions.lookup id = none) :
    handle up evm order now blocking (.read id request) (sessions, fetch)
      = (.done (request.unknown id), sessions, fetch) := by
  simp only [handle, h]

/-- and one that finds its own. -/
theorem handle_present {now touched : Instant} {blocking : Bool} {id : SessionId}
    {request : Request} {sessions : Sessions F} {fetch : Fetch F} {s : Session F}
    (h : sessions.lookup id = some (s, touched)) :
    handle up evm order now blocking (.read id request) (sessions, fetch)
      = ((request.pass up evm blocking (s, fetch)).1.outcome,
        sessions.insert id ((request.pass up evm blocking (s, fetch)).2.1, now),
        (request.pass up evm blocking (s, fetch)).2.2) := by
  simp only [handle, h]
  rcases request.pass up evm blocking (s, fetch) with ⟨reply | keys | -, s', fetch'⟩ <;> rfl

variable (up evm order)

namespace Worker

/-- Put a job at the front of its session's queue and resolve its keys on a thread of its own; where
    no thread can be spawned, post a failed `unblock` right away. -/
def park (spawns : Bool) (posted : Posted F) (keys : List StateKey) (blocked : Blocked F)
    (wk : Worker F) : Worker F :=
  let id := posted.job.sessionId
  let wk := { wk with
    blocked := wk.blocked.insert id ⟨posted :: blocked.queue, blocked.rounds + 1⟩ }
  if spawns then
    { wk with resolving :=
        wk.resolving ++ [⟨id, (wk.sessions.lookup id).map fun st => st.1.fallback, keys⟩] }
  else { wk with inbox := wk.inbox ++ [.unblock id true] }

/-- Run a session's queue from the front until it is empty or a job misses again. -/
def drain (now : Instant) (spawns : Bool) : List (Posted F) → ℕ → Bool → Worker F → Worker F
  | [], _, _, wk => wk
  | posted :: queue, rounds, blocking, wk =>
    match handle up evm order now blocking posted.job (wk.sessions, wk.fetch) with
    | (.done reply, sessions, fetch) =>
      drain now spawns queue 0 false { wk with
        sessions := sessions, fetch := fetch, answers := wk.answers ++ [(posted, reply)] }
    | (.deferred keys, sessions, fetch) =>
      park spawns posted keys ⟨queue, rounds⟩ { wk with sessions := sessions, fetch := fetch }
    -- the panic unwinds through `unblock`, and the rest of the queue with it
    | (.panicked, sessions, fetch) => { wk with sessions := sessions, fetch := fetch }

def unblock (now : Instant) (spawns : Bool) (id : SessionId) (failed : Bool) (wk : Worker F) :
    Worker F :=
  match wk.blocked.lookup id with
  | none => wk
  | some blocked =>
    drain up evm order now spawns blocked.queue blocked.rounds
      (failed || decide (maxSpeculativeRounds ≤ blocked.rounds))
      { wk with blocked := wk.blocked.erase id }

def accept (now : Instant) (spawns : Bool) : Message F → Worker F → Worker F
  | .unblock id failed, wk => unblock up evm order now spawns id failed wk
  | .job posted, wk =>
    match wk.blocked.lookup posted.job.sessionId with
    | some blocked =>
      { wk with blocked :=
          wk.blocked.insert posted.job.sessionId ⟨blocked.queue ++ [posted], blocked.rounds⟩ }
    | none =>
      match handle up evm order now false posted.job (wk.sessions, wk.fetch) with
      | (.done reply, sessions, fetch) =>
        { wk with sessions := sessions, fetch := fetch, answers := wk.answers ++ [(posted, reply)] }
      | (.deferred keys, sessions, fetch) =>
        park spawns posted keys ⟨[], 0⟩ { wk with sessions := sessions, fetch := fetch }
      | (.panicked, sessions, fetch) => { wk with sessions := sessions, fetch := fetch }

end Worker

/-- What may happen next around a worker: a job is posted, the worker takes its next message (while
    other threads land reads, and a resolver thread can or cannot be spawned), or the `i`-th running
    resolver ends. -/
inductive Event (up : F → Upstream E) where
  | post (posted : Posted F)
  | work (now : Instant) (landed : Landed up) (spawns : Bool)
  | resolved (i : ℕ) (failed : Bool)

namespace Worker

def step : Event up → Worker F → Worker F
  | .post posted, wk =>
    { wk with inbox := wk.inbox ++ [.job posted], arrived := wk.arrived ++ [posted] }
  | .work now landed spawns, wk =>
    match wk.inbox with
    | [] => wk
    | message :: inbox =>
      accept up evm order now spawns message
        { wk with inbox := inbox, fetch := { wk.fetch with landed := landed.1 } }
  | .resolved i failed, wk =>
    match wk.resolving[i]? with
    | none => wk
    | some resolver =>
      -- without a session to read through, the resolve has failed
      { wk with
        resolving := wk.resolving.eraseIdx i
        inbox := wk.inbox ++ [.unblock resolver.id (resolver.fallback.isNone || failed)] }

def run (events : List (Event up)) (wk : Worker F) : Worker F :=
  events.foldl (fun wk event => step up evm order event wk) wk

end Worker

end Steps

end Forkyard
