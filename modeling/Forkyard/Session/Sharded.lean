import Forkyard.Session.Pool
import Forkyard.Session.Alike

/-! What sharding leaves of a session. Jobs and answers of a session are found on one worker of the
    pool and nowhere else, so to each session the whole pool is the reference machine it would be
    served by alone, however many workers there are and however the calls interleave; a call returns
    what that machine answers its job. And a child that `fork_from` opens is the branch of what its
    parent was at the place of the branch in the parent's own order, though the two hops are taken
    on two workers.

        parent's line:  job ─ job ─ Branch ─ job …         child's line:  … Adopt(s.branch) ─ job …
                                      └── s, after the jobs before it ──────────▲ -/

namespace Forkyard

open Schemes

variable {F E : Type}

/-- The session came in the reply to a branch. -/
def Pool.Born (pool : Pool F) (session : Session F) : Prop :=
  ∃ posted parent s, posted.job = .command (.branch parent) ∧
    pool.Told posted (.branch (.ok s)) ∧ session = { s with readLog := none }

section Calm

variable [ToString E] (evm : Evm E)

/-- No EVM run of the method's job panics. -/
def Method.Calm : Method F → Prop
  | .ask job => job.1.Calm evm
  | _ => True

end Calm

/-- No session the sweep looks at is older than `ttl`. -/
def Pool.Unreaped {up : F → Upstream E} (ttl : ℕ) (pool : Pool F) : PoolEvent up → Prop
  | .timeout w now => ∀ wk, pool.workers[w]? = some wk → ∀ id st,
    wk.sessions.lookup id = some st → now - st.2 < ttl
  | _ => True

section Results

variable [ToString E] (up : F → Upstream E) (evm : Evm E) (order : HashOrder)

/-- The reply is the reference machine's to this job, where it stands among its session's. -/
def Pool.Referred (pool : Pool F) (posted : Posted F) (reply : Reply F) : Prop :=
  ∃ before after, pool.arrivedOf posted.job.sessionId = before ++ posted :: after ∧
    (refStep up evm order posted.job (reference up evm order before).2).1 = some reply

/-- To session `id` the pool is one machine: a worker of its own serves it as the reference does, no
    other knows of it, and every call that has returned a reply of it returned the reference's. -/
structure Pool.Serves (pool : Pool F) (id : SessionId) : Prop where
  home : ∃ wk, pool.workers[pool.shard id]? = some wk ∧ Serial up evm order wk id ∧
    pool.arrivedOf id = wk.arrivedOf id ∧ pool.answersOf id = wk.answersOf id
  elsewhere : ∀ (w : ℕ) wk, pool.workers[w]? = some wk → w ≠ pool.shard id →
    wk.sessions.lookup id = none ∧ wk.blocked.lookup id = none
  replied : ∀ posted reply, posted.job.sessionId = id → .replied posted reply ∈ pool.calls →
    pool.Referred up evm order posted reply

/-- The child is the branch of what its parent was when it was branched, and a read it is sent first
    is answered as its parent would have answered it then. -/
def Pool.Descends (pool : Pool F) (child : Session F) : Prop :=
  ∃ parent hop before after s, hop.job = .command (.branch parent) ∧
    pool.arrivedOf parent = before ++ hop :: after ∧
    (reference up evm order before).2 = some s ∧ child = s.branch ∧
    ∀ id request, (refStep up evm order (.read id request) (some child)).1
      = (refStep up evm order (.read id request) (some s)).1

end Results

/-! ### One worker -/

section Worker

variable [ToString E] {up : F → Upstream E} {evm : Evm E} {order : HashOrder} {wk : Worker F}

variable (up evm order) in
/-- A reply of the reference stands where its job does. -/
theorem reference_place {jobs : List (Posted F)} {posted : Posted F} {reply : Option (Reply F)}
    (h : (posted, reply) ∈ (reference up evm order jobs).1) :
    ∃ before after, jobs = before ++ posted :: after ∧
      reply = (refStep up evm order posted.job (reference up evm order before).2).1 := by
  induction jobs using List.reverseRecOn with
  | nil => cases h
  | append_singleton jobs last ih =>
    rw [reference_snoc] at h
    rcases List.mem_append.mp h with h | h
    · obtain ⟨before, after, rfl, hreply⟩ := ih h
      exact ⟨before, after ++ [last], by rw [List.append_assoc, List.cons_append], hreply⟩
    · obtain ⟨rfl, rfl⟩ := Prod.mk.inj (List.mem_singleton.mp h)
      exact ⟨jobs, [], rfl, rfl⟩

/-- What a steady worker has answered is the reference's reply, where the job stands. -/
theorem steady_answer (h : Steady up evm order wk) {posted : Posted F} {reply : Reply F}
    (hmem : (posted, reply) ∈ wk.answers) :
    ∃ before after, wk.arrivedOf posted.job.sessionId = before ++ posted :: after ∧
      (refStep up evm order posted.job (reference up evm order before).2).1 = some reply := by
  obtain ⟨done, hsplit, href, -⟩ := (steady_serial h posted.job.sessionId).inOrder
  have hanswer : (posted, some reply) ∈ (reference up evm order done).1 := by
    rw [← href]
    exact List.mem_map.mpr ⟨(posted, reply), List.mem_filter.mpr ⟨hmem, by simp⟩, rfl⟩
  obtain ⟨before, after, hdone, hreply⟩ := reference_place up evm order hanswer
  exact ⟨before, after ++ (wk.queued posted.job.sessionId ++ wk.waiting posted.job.sessionId),
    by rw [hsplit, hdone, List.append_assoc, List.cons_append], hreply.symm⟩

/-- A worker knows nothing of a session it was sent no job for. -/
theorem steady_stranger (h : Steady up evm order wk) {id : SessionId} (hnone : wk.arrivedOf id = []) :
    wk.answersOf id = [] ∧ wk.sessions.lookup id = none ∧ wk.blocked.lookup id = none := by
  have hserial := steady_serial h id
  obtain ⟨done, hsplit, href, hslot⟩ := hserial.inOrder
  rw [hnone] at hsplit
  obtain ⟨rfl, hrest⟩ := List.append_eq_nil_iff.mp hsplit.symm
  obtain ⟨hqueued, -⟩ := List.append_eq_nil_iff.mp hrest
  refine ⟨List.map_eq_nil_iff.mp href, Option.map_eq_none_iff.mp hslot, ?_⟩
  cases hb : wk.blocked.lookup id with
  | none => rfl
  | some blocked =>
    rw [Worker.queued, hb] at hqueued
    exact absurd hqueued (hserial.rounds_le blocked hb).1

omit [ToString E] in
/-- A sweep that finds no old session changes nothing. -/
theorem sweep_unreaped {ttl : ℕ} {now : Instant}
    (h : ∀ id st, wk.sessions.lookup id = some st → now - st.2 < ttl) : wk.sweep ttl now = wk := by
  have hsessions : Map.retain (fun st => decide (now - st.2 < ttl)) wk.sessions = wk.sessions := by
    refine Finmap.ext_lookup fun id => ?_
    rw [Map.lookup_retain]
    cases hst : wk.sessions.lookup id with
    | none => rfl
    | some st => exact Option.filter_eq_some_iff.mpr ⟨rfl, decide_eq_true (h id st hst)⟩
  rw [Worker.sweep, hsessions]

end Worker

/-! ### The reference does not look at channels -/

section Blind

variable [ToString E] (up : F → Upstream E) (evm : Evm E) (order : HashOrder)

/-- A job with its reply, whatever channel it came by. -/
def answered {R : Type} (a : Posted F × R) : Job F × R := (a.1.job, a.2)

theorem reference_blind {jobs jobs' : List (Posted F)}
    (h : jobs.map Posted.job = jobs'.map Posted.job) :
    (reference up evm order jobs).1.map answered = (reference up evm order jobs').1.map answered ∧
      (reference up evm order jobs).2 = (reference up evm order jobs').2 := by
  induction jobs using List.reverseRecOn generalizing jobs' with
  | nil =>
    obtain rfl : jobs' = [] := List.map_eq_nil_iff.mp h.symm
    exact ⟨rfl, rfl⟩
  | append_singleton jobs last ih =>
    rw [List.map_append] at h
    obtain ⟨jobs₁, more, rfl, hjobs, hmore⟩ := List.map_eq_append_iff.mp h.symm
    obtain ⟨last', rfl, hlast⟩ := List.map_eq_singleton_iff.mp hmore
    obtain ⟨hreplies, hslot⟩ := ih hjobs.symm
    rw [reference_snoc, reference_snoc, hslot, hlast]
    refine ⟨?_, rfl⟩
    rw [List.map_append, List.map_append, hreplies]
    simp only [answered, List.map_cons, List.map_nil, hlast]

/-- No job leaves a session in the middle of a speculative pass. -/
theorem reference_quiet (jobs : List (Posted F)) :
    ∀ s, (reference up evm order jobs).2 = some s → s.readLog = none := by
  induction jobs using List.reverseRecOn with
  | nil => rintro s ⟨⟩
  | append_singleton jobs last ih =>
    intro s hs
    rw [reference_snoc] at hs
    have hself : SameSlot up (reference up evm order jobs).2 (reference up evm order jobs).2 :=
      sameSlot_refl ih
    have hsame := (refStep_alike evm order last.job hself).2
    rw [hs] at hsame
    exact hsame.left

theorem reference_mono {jobs jobs' : List (Posted F)}
    (h : jobs.map Posted.job <+: jobs'.map Posted.job) :
    (reference up evm order jobs).1.map answered <+:
      (reference up evm order jobs').1.map answered := by
  obtain ⟨rest, hrest⟩ := h
  obtain ⟨jobs₁, more, rfl, hjobs, -⟩ := List.map_eq_append_iff.mp hrest.symm
  rw [(reference_blind up evm order hjobs.symm).1]
  exact (reference_append up evm order jobs₁ more).map answered

end Blind

/-! ### The pool -/

section Served

variable [ToString E] [DecidableEq F] {up : F → Upstream E} {evm : Evm E} {order : HashOrder}
  {ttl : ℕ} {pool : Pool F}

variable (up evm order) in
/-- INVARIANT of a run without panics in which no session is reaped. -/
structure Pool.Served (pool : Pool F) : Prop where
  wired : pool.Wired
  steady : ∀ (w : ℕ) wk, pool.workers[w]? = some wk → Steady up evm order wk
  calm : ∀ call ∈ pool.calls, ∀ job, call.job = some job → job.Calm evm
  branching : ∀ posted, .branching posted ∈ pool.calls →
    ∃ parent, posted.job = .command (.branch parent)
  drawing : ∀ session, .draw (.adopt session) ∈ pool.calls → pool.Born session.1
  sending : ∀ id session, .send id (.adopt session) ∈ pool.calls → pool.Born session.1
  adopted : ∀ (w : ℕ) wk, pool.workers[w]? = some wk → ∀ posted ∈ wk.arrived, ∀ id session,
    posted.job = .command (.adopt id session) → pool.Born session.1

/-- ONE WORKER of the pool stays steady. -/
theorem steady_moved {event : PoolEvent up} {w : ℕ} {wk wk' : Worker F}
    (h : Steady up evm order wk) (hwk : pool.workers[w]? = some wk)
    (hcalm : ∀ call ∈ pool.calls, ∀ job, call.job = some job → job.Calm evm)
    (hfresh : pool.Unreaped ttl event) (hmoved : pool.Moved up evm order ttl event w wk wk') :
    Steady up evm order wk' := by
  cases hmoved with
  | idle => exact h
  | post hevent hcall hjob hw =>
    refine steady_step h _ ?_
    rintro posted ⟨⟩
    exact hcalm _ (List.mem_of_getElem? hcall) _ hjob
  | work hevent => exact steady_step h _ (by rintro posted ⟨⟩)
  | resolved hevent => exact steady_step h _ (by rintro posted ⟨⟩)
  | sweep hevent hinbox =>
    subst hevent
    rw [sweep_unreaped (hfresh wk hwk)]
    exact h

theorem born_after {session : Session F} (h : pool.Born session) (event : PoolEvent up) :
    (pool.step up evm order ttl event).Born session := by
  obtain ⟨posted, parent, s, hjob, htold, hsession⟩ := h
  exact ⟨posted, parent, s, hjob, told_after htold event, hsession⟩

/-- A job new on a worker is the one a call has just sent. -/
theorem moved_arrived {event : PoolEvent up} {w : ℕ} {wk wk' : Worker F} {posted : Posted F}
    (hmoved : pool.Moved up evm order ttl event w wk wk') (hmem : posted ∈ wk'.arrived) :
    posted ∈ wk.arrived ∨ ∃ call ∈ pool.calls, call.job = some posted.job := by
  cases hmoved with
  | idle => exact .inl hmem
  | sweep hevent hinbox => exact .inl hmem
  | work hevent =>
    rw [(work_logs up evm order _ _ _ wk).1] at hmem
    exact .inl hmem
  | resolved hevent =>
    rw [(resolved_logs up evm order _ _ wk).1] at hmem
    exact .inl hmem
  | post hevent hcall hjob hw =>
    refine (List.mem_append.mp hmem).imp_right fun hnew => ⟨_, List.mem_of_getElem? hcall, ?_⟩
    rw [List.mem_singleton.mp hnew]
    exact hjob

/-- What a call holds is true of the pool. -/
structure Pool.Holds (evm : Evm E) (pool : Pool F) (call : ManagerCall F) : Prop where
  calm : ∀ job, call.job = some job → job.Calm evm
  branching : ∀ posted, call = .branching posted → ∃ parent, posted.job = .command (.branch parent)
  drawing : ∀ session, call = .draw (.adopt session) → pool.Born session.1
  sending : ∀ id session, call = .send id (.adopt session) → pool.Born session.1

/-- ONE CALL: whatever an event makes of it, what it holds is true. -/
theorem holds_step (h : pool.Served up evm order) (event : PoolEvent up)
    (hmethod : ∀ method, event = .call method → method.Calm evm) {call : ManagerCall F}
    (hcall : call ∈ (pool.step up evm order ttl event).calls) :
    (pool.step up evm order ttl event).Holds evm call := by
  have hborn : ∀ session, pool.Born session → (pool.step up evm order ttl event).Born session :=
    fun _ h => born_after h event
  have hold : ∀ call ∈ pool.calls, (pool.step up evm order ttl event).Holds evm call := by
    intro call hmem
    refine ⟨h.calm call hmem, ?_, ?_, ?_⟩
    · rintro posted rfl
      exact h.branching posted hmem
    · rintro session rfl
      exact hborn _ (h.drawing session hmem)
    · rintro id session rfl
      exact hborn _ (h.sending id session hmem)
  rcases calls_cases hcall with hmem | ⟨method, hevent, rfl⟩ | rfl | ⟨i, call₀, -, hcall₀, hturned⟩
  · exact hold call hmem
  · have hcalm := hmethod method hevent
    cases method with
    | ask job =>
      refine ⟨?_, by rintro _ ⟨⟩, by rintro _ ⟨⟩, by rintro _ _ ⟨⟩⟩
      rintro job' ⟨⟩
      exact hcalm
    | register base fallback blockEnv seed =>
      exact ⟨by rintro _ ⟨⟩, by rintro _ ⟨⟩, by rintro _ ⟨⟩, by rintro _ _ ⟨⟩⟩
    | forkFrom parent =>
      refine ⟨?_, by rintro _ ⟨⟩, by rintro _ ⟨⟩, by rintro _ _ ⟨⟩⟩
      rintro job' ⟨⟩
      exact trivial
  · exact ⟨by rintro _ ⟨⟩, by rintro _ ⟨⟩, by rintro _ ⟨⟩, by rintro _ _ ⟨⟩⟩
  · have hmem := List.mem_of_getElem? hcall₀
    generalize pool.step up evm order ttl event = pool' at hturned hold hborn
    cases hturned with
    | idle hjob => exact hold call hmem
    | forkFrom parent =>
      refine ⟨by rintro _ ⟨⟩, ?_, by rintro _ ⟨⟩, by rintro _ _ ⟨⟩⟩
      rintro posted ⟨⟩
      exact ⟨parent, rfl⟩
    | draw opening =>
      refine ⟨?_, by rintro _ ⟨⟩, by rintro _ ⟨⟩, ?_⟩
      · rintro job ⟨⟩
        cases opening <;> exact trivial
      · rintro id session ⟨⟩
        exact hborn _ (h.drawing session hmem)
    | @branched posted s hreceive =>
      obtain ⟨parent, hjob⟩ := h.branching posted hmem
      refine ⟨by rintro _ ⟨⟩, by rintro _ ⟨⟩, ?_, by rintro _ _ ⟨⟩⟩
      rintro session ⟨⟩
      have htold := receive_told h.wired (h.wired.awaited _ hmem _ rfl) hreceive
      exact hborn _ ⟨posted, parent, s, hjob, htold, rfl⟩
    | _ => exact ⟨by rintro _ ⟨⟩, by rintro _ ⟨⟩, by rintro _ ⟨⟩, by rintro _ _ ⟨⟩⟩

/-- STEP LEMMA: every event keeps the pool served. -/
theorem served_step (h : pool.Served up evm order) (event : PoolEvent up)
    (hfresh : pool.Unreaped ttl event)
    (hmethod : ∀ method, event = .call method → method.Calm evm) :
    (pool.step up evm order ttl event).Served up evm order := by
  have hcalls : ∀ {call}, call ∈ (pool.step up evm order ttl event).calls →
      (pool.step up evm order ttl event).Holds evm call := holds_step h event hmethod
  refine ⟨wired_step h.wired event, fun w wk' hwk' => ?_, fun call hcall => (hcalls hcall).calm,
    fun posted hcall => (hcalls hcall).branching posted rfl,
    fun session hcall => (hcalls hcall).drawing session rfl,
    fun id session hcall => (hcalls hcall).sending id session rfl, ?_⟩
  · obtain ⟨wk, hwk, hmoved⟩ := step_moved event hwk'
    exact steady_moved (h.steady w wk hwk) hwk h.calm hfresh hmoved
  · intro w wk' hwk' posted hp id session hjob
    obtain ⟨wk, hwk, hmoved⟩ := step_moved event hwk'
    rcases moved_arrived hmoved hp with hp | ⟨call, hcall, hsent⟩
    · exact born_after (h.adopted w wk hwk posted hp id session hjob) event
    · refine born_after ?_ event
      rw [hjob] at hsent
      cases call with
      | ask job =>
        have hopens := job.2
        rw [Option.some.inj hsent] at hopens
        cases hopens
      | send id' opening =>
        cases opening with
        | fork base fallback blockEnv seed => cases hsent
        | adopt session' =>
          cases hsent
          exact h.sending id session hcall
      | _ => cases hsent

variable (evm order) in
omit [DecidableEq F] in
theorem served_start {fetch : Fetch F} (hidle : ReadThrough.Idle up fetch) (numWorkers : ℕ) :
    (Pool.start fetch numWorkers).Served up evm order := by
  refine ⟨wired_start fetch numWorkers, fun w wk hwk => ?_, by simp [Pool.start], by
    simp [Pool.start], by simp [Pool.start], by simp [Pool.start], ?_⟩
  · rw [start_worker hwk]
    exact steady_start order hidle
  · intro w wk hwk posted hp
    rw [start_worker hwk] at hp
    cases hp

/-- RUN LEMMA: without panics and with no session reaped, the pool is served all along. -/
theorem served_run (h : pool.Served up evm order) {events : List (PoolEvent up)}
    (hmethod : ∀ method, .call method ∈ events → method.Calm evm)
    (hfresh : Guarded (Pool.step up evm order ttl) (Pool.Unreaped ttl) pool events) :
    (runAll (Pool.step up evm order ttl) pool events).Served up evm order := by
  have hknown : ∀ event ∈ events, ∀ method, event = .call method → method.Calm evm := by
    rintro event hmem method rfl
    exact hmethod method hmem
  exact guarded_inv (P := Pool.Served up evm order)
    (fun _ event h hg => served_step h event hg.1 hg.2) pool events h (guarded_and hfresh hknown)

/-! ### The main results -/

omit [DecidableEq F] in
/-- A session's jobs and answers are all with its own worker. -/
theorem steady_alone (hwired : pool.Wired)
    (hsteady : ∀ (w : ℕ) wk, pool.workers[w]? = some wk → Steady up evm order wk) (id : SessionId) :
    ∃ wk, pool.workers[pool.shard id]? = some wk ∧ pool.arrivedOf id = wk.arrivedOf id ∧
      pool.answersOf id = wk.answersOf id ∧ ∀ (w : ℕ) wk', pool.workers[w]? = some wk' →
        w ≠ pool.shard id → wk'.arrivedOf id = [] := by
  obtain ⟨wk, hwk, harrived, hnone⟩ := wired_alone hwired id
  exact ⟨wk, hwk, harrived, flatMap_alone hwk fun w wk' hwk' hw =>
    (steady_stranger (hsteady w wk' hwk') (hnone w wk' hwk' hw)).1, hnone⟩

omit [DecidableEq F] in
theorem told_referred (hwired : pool.Wired)
    (hsteady : ∀ (w : ℕ) wk, pool.workers[w]? = some wk → Steady up evm order wk)
    {posted : Posted F} {reply : Reply F} (htold : pool.Told posted reply) :
    pool.Referred up evm order posted reply := by
  obtain ⟨wk, hwk, hmem⟩ := htold
  obtain ⟨wk', hwk', harrived, -⟩ := steady_alone hwired hsteady posted.job.sessionId
  obtain rfl := Option.some.inj (hwk.symm.trans hwk')
  obtain ⟨before, after, hsplit, hreply⟩ := steady_answer (hsteady _ wk hwk) hmem
  exact ⟨before, after, harrived.trans hsplit, hreply⟩

omit [DecidableEq F] in
theorem served_serves (h : pool.Served up evm order) (id : SessionId) :
    pool.Serves up evm order id := by
  obtain ⟨wk, hwk, harrived, hanswers, hnone⟩ := steady_alone h.wired h.steady id
  refine ⟨⟨wk, hwk, steady_serial (h.steady _ wk hwk) id, harrived, hanswers⟩,
    fun w wk' hwk' hw => ?_, fun posted reply _ hcall =>
      told_referred h.wired h.steady (h.wired.told posted reply hcall)⟩
  exact (steady_stranger (h.steady w wk' hwk') (hnone w wk' hwk' hw)).2

omit [DecidableEq F] in
/-- What two pools answer a session that was sent the same jobs differs in length only. -/
theorem served_compatible {pool' : Pool F} (h : pool.Served up evm order)
    (h' : pool'.Served up evm order) {id : SessionId}
    (hsame : (pool'.arrivedOf id).map Posted.job = (pool.arrivedOf id).map Posted.job) :
    (pool.answersOf id).map answered <+: (pool'.answersOf id).map answered ∨
      (pool'.answersOf id).map answered <+: (pool.answersOf id).map answered := by
  -- what is answered is the reference's for a first part of the jobs that arrived
  have hdone : ∀ {pool : Pool F}, pool.Served up evm order → ∃ done : List (Posted F),
      done.map Posted.job <+: (pool.arrivedOf id).map Posted.job ∧
        ((pool.answersOf id).map answered).map (fun a => (a.1, some a.2))
          = (reference up evm order done).1.map answered := by
    intro pool h
    obtain ⟨wk, hwk, harrived, hanswers, -⟩ := steady_alone h.wired h.steady id
    obtain ⟨done, hsplit, href, -⟩ := (steady_serial (h.steady _ wk hwk) id).inOrder
    refine ⟨done, ?_, ?_⟩
    · rw [harrived, hsplit, List.map_append]
      exact List.prefix_append _ _
    · rw [hanswers, ← href, List.map_map, List.map_map]
      rfl
  have hinj : Function.Injective fun a : Job F × Reply F => (a.1, some a.2) := by
    rintro ⟨job, reply⟩ ⟨job', reply'⟩ heq
    obtain ⟨hjob, hreply⟩ := Prod.mk.inj heq
    exact Prod.ext hjob (Option.some.inj hreply)
  obtain ⟨done, hpre, href⟩ := hdone h
  obtain ⟨done', hpre', href'⟩ := hdone h'
  rw [hsame] at hpre'
  rcases List.prefix_or_prefix_of_prefix hpre hpre' with hle | hle
  · refine .inl ((List.prefix_map_iff_of_injective hinj).mp ?_)
    rw [href, href']
    exact reference_mono up evm order hle
  · refine .inr ((List.prefix_map_iff_of_injective hinj).mp ?_)
    rw [href, href']
    exact reference_mono up evm order hle

omit [DecidableEq F] in
/-- A child is the branch of what its parent was at the branch. -/
theorem born_descends (h : pool.Served up evm order) {session : Session F}
    (hborn : pool.Born session) : pool.Descends up evm order session := by
  obtain ⟨hop, parent, s, hjob, htold, rfl⟩ := hborn
  obtain ⟨before, after, hsplit, hreply⟩ := told_referred h.wired h.steady htold
  rw [hjob, Job.sessionId, Command.sessionId] at hsplit
  simp only [hjob, refStep, refCommand] at hreply
  cases hslot : (reference up evm order before).2 with
  | none =>
    rw [hslot] at hreply
    cases hreply
  | some p =>
    rw [hslot] at hreply
    cases hreply
    refine ⟨parent, hop, before, after, p, hjob, hsplit, hslot, rfl, fun id request => ?_⟩
    have hquiet : p.readLog = none := reference_quiet up evm order before p hslot
    have hsame : Same up p.branch p := ⟨Session.view_branch up p, rfl, rfl, hquiet⟩
    simp only [refStep]
    rw [← (serve_same (request.task (F := F) evm) hsame).1]
    rfl

/-- CORRECT: however many workers there are and however the calls interleave, without a panicking
    job and with no session reaped the pool is to each session the reference machine it would be
    served by alone; and any other pool that was sent the same jobs for it, in any other run and of
    any other size, gives it the same replies. -/
theorem pool_serves {fetch fetch' : Fetch F} (hidle : ReadThrough.Idle up fetch)
    (hidle' : ReadThrough.Idle up fetch') (numWorkers numWorkers' : ℕ)
    (events events' : List (PoolEvent up))
    (hcalm : ∀ method, .call method ∈ events → method.Calm evm)
    (hcalm' : ∀ method, .call method ∈ events' → method.Calm evm)
    (hfresh : Guarded (Pool.step up evm order ttl) (Pool.Unreaped ttl) (.start fetch numWorkers)
      events)
    (hfresh' : Guarded (Pool.step up evm order ttl) (Pool.Unreaped ttl) (.start fetch' numWorkers')
      events') (id : SessionId) :
    let pool := runAll (Pool.step up evm order ttl) (.start fetch numWorkers) events
    let pool' := runAll (Pool.step up evm order ttl) (.start fetch' numWorkers') events'
    pool.Serves up evm order id ∧
      ((pool'.arrivedOf id).map Posted.job = (pool.arrivedOf id).map Posted.job →
        (pool.answersOf id).map answered <+: (pool'.answersOf id).map answered ∨
          (pool'.answersOf id).map answered <+: (pool.answersOf id).map answered) := by
  have h := served_run (served_start evm order hidle numWorkers) hcalm hfresh
  have h' := served_run (served_start evm order hidle' numWorkers') hcalm' hfresh'
  exact ⟨served_serves h id, served_compatible h h'⟩

end Served

/-- A session is opened on the first worker and branched, and the child, which lives on worker `w`, is
    read. -/
def family (w : ℕ) : List (PoolEvent emptyUpstream) :=
  [.call (.register .empty () ⟨1, 0, 0, 30000000⟩ none), .turn 0, .turn 0,
    .work 0 0 .nothing true, .turn 0, .call (.forkFrom 0), .turn 1, .work 0 1 .nothing true, .turn 1,
    .turn 1, .turn 1, .work w 2 .nothing true, .turn 1, .call (.ask ⟨.read 1 (.storage 0xa 7), rfl⟩),
    .turn 2, .work w 3 .nothing true, .resolved w 0 true, .work w 4 .nothing true, .turn 2]

def familyChild : { s : Session Unit // s.readLog = none } :=
  ⟨(Session.fork .empty () ⟨1, 0, 0, 30000000⟩).branch, rfl⟩

theorem family_calm (evm : Evm String) (w : ℕ) {method : Method Unit}
    (h : .call method ∈ family w) : method.Calm evm := by
  simp only [family, List.mem_cons, List.not_mem_nil, reduceCtorEq, PoolEvent.call.injEq, or_false,
    false_or] at h
  rcases h with rfl | rfl | rfl
  · exact trivial
  · exact trivial
  · exact fun _ => Tree.noPanic_map (Tree.noPanic_map (Tree.noPanic_map fun _ => trivial))

theorem family_unreaped (evm : Evm String) (ttl w : ℕ) (pool : Pool Unit) :
    Guarded (Pool.step _ evm .some ttl) (Pool.Unreaped ttl) pool (family w) := by
  simp only [family, Guarded, Pool.Unreaped, and_self]

/-- The child is adopted and read, with two workers as with one. -/
theorem family_two : ((runAll (Pool.step emptyUpstream inert .some 60) (.start .cold 2)
    (family 1)).arrivedOf 1).map Posted.job
      = [.command (.adopt 1 familyChild), .read 1 (.storage 0xa 7)] := by rfl

theorem family_one : ((runAll (Pool.step emptyUpstream inert .some 60) (.start .cold 1)
    (family 0)).arrivedOf 1).map Posted.job
      = [.command (.adopt 1 familyChild), .read 1 (.storage 0xa 7)] := by rfl

theorem pool_serves_family :
    let pool := runAll (Pool.step emptyUpstream inert .some 60) (.start .cold 2) (family 1)
    let pool' := runAll (Pool.step emptyUpstream inert .some 60) (.start .cold 1) (family 0)
    pool.Serves emptyUpstream inert .some 1 ∧
      ((pool.answersOf 1).map answered <+: (pool'.answersOf 1).map answered ∨
        (pool'.answersOf 1).map answered <+: (pool.answersOf 1).map answered) := by
  obtain ⟨hserves, hsame⟩ := pool_serves (ReadThrough.idle_cold emptyUpstream)
    (ReadThrough.idle_cold emptyUpstream) 2 1 (family 1) (family 0)
    (fun _ => family_calm inert 1) (fun _ => family_calm inert 0)
    (family_unreaped inert 60 1 _) (family_unreaped inert 60 0 _) 1
  exact ⟨hserves, hsame (family_one.trans family_two.symm)⟩

section Served

variable [ToString E] [DecidableEq F] {up : F → Upstream E} {evm : Evm E} {order : HashOrder}
  {ttl : ℕ}

/-- CORRECT: every session `fork_from` has opened, in any such run of the pool, is the branch of what
    its parent was in its own order, wherever the two live. -/
theorem pool_branches {fetch : Fetch F} (hidle : ReadThrough.Idle up fetch) (numWorkers : ℕ)
    (events : List (PoolEvent up)) (hcalm : ∀ method, .call method ∈ events → method.Calm evm)
    (hfresh : Guarded (Pool.step up evm order ttl) (Pool.Unreaped ttl) (.start fetch numWorkers)
      events) (child : SessionId) {session : { s : Session F // s.readLog = none }}
    (hmem : .command (.adopt child session) ∈
      ((runAll (Pool.step up evm order ttl) (.start fetch numWorkers) events).arrivedOf child).map
        Posted.job) :
    (runAll (Pool.step up evm order ttl) (.start fetch numWorkers) events).Descends up evm order
      session.1 := by
  have h := served_run (served_start evm order hidle numWorkers) hcalm hfresh
  obtain ⟨wk, hwk, harrived, -⟩ := steady_alone h.wired h.steady child
  rw [harrived] at hmem
  obtain ⟨posted, hp, hjob⟩ := List.mem_map.mp hmem
  exact born_descends h (h.adopted _ wk hwk posted (List.mem_filter.mp hp).1 child session hjob)

end Served

theorem pool_branches_family :
    (runAll (Pool.step emptyUpstream inert .some 60) (.start .cold 2) (family 1)).Descends
      emptyUpstream inert .some familyChild.1 := by
  refine pool_branches (ReadThrough.idle_cold emptyUpstream) 2 (family 1)
    (fun _ => family_calm inert 1) (family_unreaped inert 60 1 _) 1 ?_
  rw [family_two]
  exact List.mem_cons_self

end Forkyard
