import Forkyard.Session.Serial

/-! `worker_loop`, with a clock. The worker waits at its inbox for one second at most; a message
    that comes is handled, and after a second without one every session that was last touched `ttl`
    ago or earlier is reaped. So sessions are swept only by a worker that has nothing to do, and the
    sweep looks at nothing but the stamps.

        receiving ──message──▶ handling ──done──▶ receiving
            │  ▲
            └──┘ a second without a message: sweep -/

namespace Forkyard

open Schemes

variable {F E : Type}

/-- The loop's patience, in the nanoseconds instants are counted in. -/
def SECOND : ℕ := 1000000000

/-- A worker in its loop: the time, and since when it waits for a message, if it does. -/
structure Loop (F : Type) where
  worker : Worker F
  now : ℕ
  since : Option ℕ

def Loop.start (fetch : Fetch F) : Loop F := ⟨.start fetch, 0, some 0⟩

/-- What may happen next: a job is posted, a resolver thread ends, time passes, the worker takes the
    message it waited for, or it is done with the one it took. -/
inductive LoopEvent (up : F → Upstream E) where
  | post (posted : Posted F)
  | resolved (i : ℕ) (failed : Bool)
  | elapse (d : ℕ)
  | take (landed : Landed up) (spawns : Bool)
  | finish

/-- The sweep keeps what was touched less than `ttl` ago. -/
def Worker.sweep (ttl now : ℕ) (wk : Worker F) : Worker F :=
  { wk with sessions := Map.retain (fun st => decide (now - st.2 < ttl)) wk.sessions }

section Steps

variable [ToString E] [DecidableEq F] (up : F → Upstream E) (evm : Evm E) (order : HashOrder)
  (ttl : ℕ)

/-- A worker that waits in vain is swept when its second is over, so time passes up to there; a
    message is handled at the instant it is taken, and the time that takes passes until `finish`. -/
def Loop.step (l : Loop F) : LoopEvent up → Loop F
  | .post posted => { l with worker := Worker.step up evm order (.post posted) l.worker }
  | .resolved i failed => { l with worker := Worker.step up evm order (.resolved i failed) l.worker }
  | .elapse d =>
    match l.since, l.worker.inbox with
    | some t, [] =>
      if l.now + d < t + SECOND then { l with now := l.now + d }
      else ⟨l.worker.sweep ttl (t + SECOND), t + SECOND, some (t + SECOND)⟩
    | _, _ => { l with now := l.now + d }
  | .take landed spawns =>
    match l.since, l.worker.inbox with
    | some _, _ :: _ => ⟨Worker.step up evm order (.work l.now landed spawns) l.worker, l.now, none⟩
    | _, _ => l
  | .finish =>
    match l.since with
    | none => { l with since := some l.now }
    | some _ => l

end Steps

/-! ### Replies to an unknown session -/

def Reply.error : Reply F → Option SessionError
  | .executed (.error e) => some e
  | .storage (.error e) => some e
  | .code (.error e) => some e
  | .basic (.error e) => some e
  | .state (.error e) => some e
  | .branch (.error e) => some e
  | .blockEnv (.error e) => some e
  | .written (.error e) => some e
  | _ => none

def SessionError.isUnknown : SessionError → Bool
  | .unknown _ => true
  | _ => false

/-- The reply is `Unknown`. -/
def Reply.isUnknown (reply : Reply F) : Bool := (reply.error.map SessionError.isUnknown).getD false

/-- What a job is answered whose session is not there, if it needs one. -/
def Job.unknown : Job F → Option (Reply F)
  | .read id request => some (request.unknown id)
  | .command (.state id) => some (.state (.error (.unknown id)))
  | .command (.branch parent) => some (.branch (.error (.unknown parent)))
  | .command (.blockEnvOf id) => some (.blockEnv (.error (.unknown id)))
  | .command (.setAccount id _ _) => some (.written (.error (.unknown id)))
  | .command (.setStorage id _ _ _) => some (.written (.error (.unknown id)))
  | .command _ => none

theorem stateReply_known (order : HashOrder) (s : Session F) :
    (stateReply order s).isUnknown = false := by
  unfold stateReply
  split <;> rfl

section Replies

variable [ToString E] {up : F → Upstream E} {evm : Evm E} {order : HashOrder}

/-- No result of a request is `Unknown`: that comes of a missing session only. -/
theorem task_known (evm : Evm E) (request : Request) (blockEnv : BlockEnv) :
    ((request.task (F := F) evm) blockEnv).All fun outcome => outcome.1.isUnknown = false := by
  have hdisplayed : ∀ {V : Type} (r : Except (SessionDbError E) V) (e : SessionError),
      displayed r = .error e → e.isUnknown = false := by
    rintro V (e | v) e' h <;> cases h
    rfl
  have hexecuted : ∀ tx disableChecks, (executePass evm tx disableChecks blockEnv).All
      fun result => ∀ e, result = .error e → e.isUnknown = false := by
    intro tx disableChecks
    have htransact : (transact evm tx disableChecks blockEnv).All
        fun result => ∀ e, result = .error e → e.isUnknown = false := by
      refine Tree.all_map (fun result _ => ?_) (Tree.all_true _)
      rintro e h
      rcases result with (reason | debug) | outcome <;> cases h <;> rfl
    intro a
    simp only [Tree.bind]
    split
    · exact fun _ => htransact
    · exact htransact
  have hwritten : ∀ tx commit disableChecks,
      (((executeTask evm tx commit disableChecks).answering (Reply.executed (F := F))) blockEnv).All
        fun outcome => outcome.1.isUnknown = false := by
    intro tx commit disableChecks
    have htask : ((executeTask evm tx commit disableChecks) blockEnv).All
        fun outcome => ∀ e, outcome.1 = .error e → e.isUnknown = false := by
      refine Tree.all_map (fun result h => ?_) (hexecuted tx disableChecks)
      rintro e he
      rcases result with e' | outcome <;> cases he
      exact h e rfl
    refine Tree.all_map (fun outcome h => ?_) htask
    rcases outcome with ⟨e | result, diff⟩
    · exact h e rfl
    · rfl
  cases request with
  | simulate tx disableChecks => exact hwritten tx false disableChecks
  | advance tx => exact hwritten tx true false
  | storage address key =>
    intro a
    rcases a with e | value <;> rfl
  | basic address =>
    intro a
    rcases a with e | value <;> rfl
  | code address =>
    intro a
    rcases a with e | info
    · rfl
    · simp only [displayed, Except.mapError, Tree.bind]
      split
      · rfl
      split
      · rfl
      · intro code
        rcases code with e | code <;> rfl

variable [DecidableEq F]

omit [ToString E] in
/-- A pass is done with a result the program can come to. -/
theorem attempt_all {R : Type} {P : R → Prop} {f : ReadProg E R} (h : f.All P) {blocking : Bool}
    {s s' : Session F} {w w' : Fetch F} {result : R}
    (hdone : attempt up blocking f (s, w) = (.done result, s', w')) : P result := by
  cases blocking with
  | true =>
    simp only [attempt, if_true] at hdone
    rcases hrun : f.run (Session.answer (ReadThrough.db up)) (s, w) with ⟨_ | r, sw⟩ <;>
      rw [hrun] at hdone
    · cases hdone
    · cases hdone
      exact Tree.run_all _ h (congrArg Prod.fst hrun)
  | false =>
    simp only [attempt, Bool.false_eq_true, if_false, Fetch.speculate] at hdone
    rcases hrun : f.run (Session.answer (ReadThrough.db up))
      (s.beginSpeculation, { w with misses := some [] }) with ⟨_ | r, s'', w''⟩ <;>
      rw [hrun] at hdone
    · cases hdone
    · dsimp only at hdone
      split at hdone
      · cases hdone
        exact Tree.run_all _ h (congrArg Prod.fst hrun)
      · cases hdone

theorem pass_known {request : Request} {blocking : Bool} {s s' : Session F} {w w' : Fetch F}
    {reply : Reply F} (h : request.pass up evm blocking (s, w) = (.done reply, s', w')) :
    reply.isUnknown = false := by
  rw [request_pass, Task.pass] at h
  rcases hattempt : attempt up blocking ((request.task (F := F) evm) s.blockEnv) (s, w) with
    ⟨outcome | keys | -, s'', w''⟩ <;> rw [hattempt] at h
  · cases h
    exact attempt_all (task_known evm request s.blockEnv) hattempt
  · cases h
  · cases h

/-- A job that finds its session is not answered `Unknown`. -/
theorem handle_known {now : Instant} {blocking : Bool} {job : Job F}
    {sessions sessions' : Sessions F}
    {fetch fetch' : Fetch F} {reply : Reply F}
    (hsome : (sessions.lookup job.sessionId).isSome = true)
    (h : handle up evm order now blocking job (sessions, fetch) = (.done reply, sessions', fetch')) :
    reply.isUnknown = false := by
  obtain ⟨st, hs⟩ := Option.isSome_iff_exists.mp hsome
  cases job with
  | read id request =>
    rw [Job.sessionId] at hs
    rw [handle_present hs] at h
    rcases hpass : request.pass up evm blocking (st.1, fetch) with ⟨reply' | keys | -, s', w'⟩ <;>
      rw [hpass] at h <;> cases h
    exact pass_known hpass
  | command c =>
    obtain rfl : (handleJob order now c sessions).1 = reply := Outcome.done.inj (Prod.mk.inj h).1
    cases c with
    | fork id base fallback blockEnv seed => rfl
    | adopt id session => rfl
    | discard id => rfl
    | state id =>
      simp only [Job.sessionId, Command.sessionId] at hs
      simp only [handleJob, touch, hs]
      exact stateReply_known order st.1
    | branch parent =>
      simp only [Job.sessionId, Command.sessionId] at hs
      simp only [handleJob, touch, hs]
      rfl
    | blockEnvOf id =>
      simp only [Job.sessionId, Command.sessionId] at hs
      simp only [handleJob, touch, hs]
      rfl
    | setAccount id address info =>
      simp only [Job.sessionId, Command.sessionId] at hs
      simp only [handleJob, touch, hs]
      rfl
    | setStorage id address key value =>
      simp only [Job.sessionId, Command.sessionId] at hs
      simp only [handleJob, touch, hs]
      rfl

variable (up evm order) in
/-- A job that needs a session that is not there is answered `Unknown`. -/
theorem handle_unknown (now : Instant) (blocking : Bool) {job : Job F} {sessions : Sessions F}
    (fetch : Fetch F) {reply : Reply F} (hnone : sessions.lookup job.sessionId = none)
    (hreply : job.unknown = some reply) :
    handle up evm order now blocking job (sessions, fetch) = (.done reply, sessions, fetch) := by
  cases job with
  | read id request =>
    simp only [Job.sessionId] at hnone
    rw [handle_absent hnone, Option.some.inj hreply]
  | command c =>
    cases c <;> cases hreply <;> simp only [Job.sessionId, Command.sessionId] at hnone <;>
      simp only [handle, handleJob, touch, hnone]

/-- DRAINING: with the session there, and nobody about to discard it, no job of its queue is
    answered `Unknown`. -/
theorem drain_known (now : Instant) (spawns : Bool) {id : SessionId} : ∀ (queue : List (Posted F))
    (rounds : ℕ) (blocking : Bool) (wk : Worker F), (∀ posted ∈ queue, posted.job.sessionId = id) →
    (∀ posted ∈ queue, posted.job.discards = false) → (wk.sessions.lookup id).isSome = true →
    ∃ more, (Worker.drain up evm order now spawns queue rounds blocking wk).answers
        = wk.answers ++ more ∧ ∀ a ∈ more, a.2.isUnknown = false
  | [], _, _, wk, _, _, _ => ⟨[], (List.append_nil _).symm, by rintro _ ⟨⟩⟩
  | posted :: queue, rounds, blocking, wk, hid, hkeep, hsome => by
    have hown : posted.job.sessionId = id := hid posted List.mem_cons_self
    rcases hout : handle up evm order now blocking posted.job (wk.sessions, wk.fetch) with
      ⟨out, sessions, fetch⟩
    have htouched := (handle_touched order now blocking posted.job wk.sessions wk.fetch hout).1
    rw [hown, hkeep posted List.mem_cons_self] at htouched
    cases out with
    | done reply =>
      have hreply := handle_known (by rw [hown]; exact hsome) hout
      simp only [Worker.drain, hout]
      obtain ⟨more, hmore, hknown⟩ := drain_known now spawns queue 0 false { wk with
          sessions := sessions, fetch := fetch, answers := wk.answers ++ [(posted, reply)] }
        (fun p hp => hid p (List.mem_cons_of_mem posted hp))
        (fun p hp => hkeep p (List.mem_cons_of_mem posted hp)) (htouched.kept rfl hsome)
      refine ⟨(posted, reply) :: more, by rw [hmore]; simp, fun a ha => ?_⟩
      rcases List.mem_cons.mp ha with rfl | ha
      · exact hreply
      · exact hknown a ha
    | deferred keys =>
      simp only [Worker.drain, hout]
      refine ⟨[], ?_, by rintro _ ⟨⟩⟩
      cases spawns <;> simp [Worker.park]
    | panicked =>
      simp only [Worker.drain, hout]
      exact ⟨[], (List.append_nil _).symm, by rintro _ ⟨⟩⟩

end Replies

end Forkyard
