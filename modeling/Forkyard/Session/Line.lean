import Forkyard.Session.Worker

/-! Standing in line. What a worker does to the jobs of one session, whatever comes of them: they
    are seen to in the order they arrived, and one that is parked stands in front of all later ones
    until the one `unblock` it is owed arrives.

        arrived = done ++ in hand ++ queue of a parked job ++ still in the inbox
        parked ⟺ exactly one `unblock` owed, by a running resolver or in the inbox -/

namespace Forkyard

open Schemes

variable {F E : Type}

/-- The job of a message, if it is one for `id`. -/
def Message.jobFor (id : SessionId) : Message F → Option (Posted F)
  | .job posted => if posted.job.sessionId = id then some posted else none
  | .unblock _ _ => none

theorem jobFor_unblock (id id' : SessionId) (failed : Bool) :
    [(Message.unblock id' failed : Message F)].filterMap (Message.jobFor id) = [] := rfl

/-- The message is an `unblock` of `id`. -/
def Message.unblocks (id : SessionId) : Message F → Bool
  | .job _ => false
  | .unblock id' _ => decide (id' = id)

namespace Worker

variable (wk : Worker F) (id : SessionId)

def arrivedOf : List (Posted F) := wk.arrived.filter fun posted => posted.job.sessionId = id

def answersOf : List (Posted F × Reply F) := wk.answers.filter fun a => a.1.job.sessionId = id

/-- The session's queue behind its parked job, that job first. -/
def queued : List (Posted F) :=
  match wk.blocked.lookup id with
  | some blocked => blocked.queue
  | none => []

/-- The session's jobs still in the inbox. -/
def waiting : List (Posted F) := wk.inbox.filterMap (Message.jobFor id)

/-- Every `unblock` the session is owed: by a running resolver, or waiting in the inbox. -/
def owed : ℕ := wk.resolving.countP (fun r => r.id = id) + wk.inbox.countP (Message.unblocks id)

end Worker

/-- Taking the next message out of the inbox, with whatever other threads land meanwhile. -/
def Worker.take {up : F → Upstream E} (wk : Worker F) (inbox : List (Message F))
    (landed : Landed up) : Worker F :=
  { wk with inbox := inbox, fetch := { wk.fetch with landed := landed.1 } }

/-! ### One job, whatever comes of it -/

/-- What one job does to the sessions: it sees to its own and no other, stamps it, and where it
    `stays` leaves it there. -/
structure Touched (now : Instant) (id : SessionId) (stays : Bool)
    (sessions sessions' : Sessions F) :
    Prop where
  frame : ∀ id', id' ≠ id → sessions'.lookup id' = sessions.lookup id'
  stamp : ∀ st, sessions'.lookup id = some st → st.2 = now
  kept : stays = true → (sessions.lookup id).isSome = true → (sessions'.lookup id).isSome = true

theorem insert_touched (now : Instant) (id : SessionId) (s : Session F) (sessions : Sessions F) :
    Touched now id true sessions (sessions.insert id (s, now)) := by
  refine ⟨fun id' hid => Finmap.lookup_insert_of_ne sessions hid, fun st hst => ?_, fun _ _ => ?_⟩
  · rw [Finmap.lookup_insert] at hst
    rw [← Option.some.inj hst]
  · rw [Finmap.lookup_insert]
    rfl

theorem absent_touched (now : Instant) {id : SessionId} {sessions : Sessions F}
    (h : sessions.lookup id = none) : Touched now id true sessions sessions := by
  refine ⟨fun _ _ => rfl, fun st hst => ?_, fun _ hsome => hsome⟩
  rw [h] at hst
  cases hst

theorem touch_touched (now : Instant) (id : SessionId) (missing : Reply F)
    (f : Session F → Reply F × Session F) (sessions : Sessions F) :
    Touched now id true sessions (touch now id missing f sessions).2 := by
  unfold touch
  split
  · exact insert_touched now id _ sessions
  · rename_i hs
    exact absent_touched now hs

/-- The job takes its session away. -/
def Job.discards : Job F → Bool
  | .command (.discard _) => true
  | _ => false

theorem handleJob_touched (order : HashOrder) (now : Instant) (c : Command F)
    (sessions : Sessions F) :
    Touched now c.sessionId (!(Job.command c).discards) sessions
      (handleJob order now c sessions).2 := by
  cases c with
  | fork id base fallback blockEnv seed => exact insert_touched now id _ sessions
  | adopt id session => exact insert_touched now id _ sessions
  | discard id =>
    refine ⟨fun id' hid => Finmap.lookup_erase_ne hid, fun st hst => ?_, by rintro ⟨⟩⟩
    rw [Command.sessionId, handleJob, Finmap.lookup_erase] at hst
    cases hst
  | state id => exact touch_touched now id _ _ sessions
  | branch parent => exact touch_touched now parent _ _ sessions
  | blockEnvOf id => exact touch_touched now id _ _ sessions
  | setAccount id address info => exact touch_touched now id _ _ sessions
  | setStorage id address key value => exact touch_touched now id _ _ sessions

section Handle

variable [ToString E] [DecidableEq F] {up : F → Upstream E} {evm : Evm E}

/-- A blocking pass never misses. -/
theorem pass_never_misses (up : F → Upstream E) (evm : Evm E) (request : Request) (s : Session F)
    (w : Fetch F) (keys : List StateKey) :
    (request.pass up evm true (s, w)).1 ≠ .missed keys := by
  have hattempt : ∀ {R : Type} (f : ReadProg E R),
      (attempt up true f (s, w)).1 ≠ .missed keys := by
    intro R f
    simp only [attempt, if_true]
    rcases f.run (Session.answer (ReadThrough.db up)) (s, w) with ⟨_ | result, sw⟩ <;> rintro ⟨⟩
  have hmiss := hattempt ((request.task (F := F) evm) s.blockEnv)
  rw [request_pass, Task.pass]
  rcases hpass : attempt up true ((request.task (F := F) evm) s.blockEnv) (s, w) with
    ⟨outcome | keys' | -, s', w'⟩ <;> rw [hpass] at hmiss
  · rintro ⟨⟩
  · rintro ⟨⟩
    exact hmiss rfl
  · rintro ⟨⟩

/-- ONE JOB: it stamps its own session, and comes back deferred only if it was not run blocking and
    found its session. -/
theorem handle_touched (order : HashOrder) (now : Instant) (blocking : Bool) (job : Job F)
    (sessions : Sessions F) (fetch : Fetch F) {out : Outcome F} {sessions' : Sessions F}
    {fetch' : Fetch F}
    (hout : handle up evm order now blocking job (sessions, fetch) = (out, sessions', fetch')) :
    Touched now job.sessionId (!job.discards) sessions sessions' ∧
      ∀ keys, out = .deferred keys →
        blocking = false ∧ (sessions'.lookup job.sessionId).isSome = true := by
  cases job with
  | command c =>
    obtain ⟨rfl, hrest⟩ := Prod.mk.inj hout
    obtain ⟨rfl, rfl⟩ := Prod.mk.inj hrest
    exact ⟨handleJob_touched order now c sessions, by rintro _ ⟨⟩⟩
  | read id request =>
    cases hs : sessions.lookup id with
    | none =>
      rw [handle_absent hs] at hout
      obtain ⟨rfl, hrest⟩ := Prod.mk.inj hout
      obtain ⟨rfl, rfl⟩ := Prod.mk.inj hrest
      exact ⟨absent_touched now hs, by rintro _ ⟨⟩⟩
    | some st =>
      obtain ⟨s, touched⟩ := st
      rw [handle_present hs] at hout
      obtain ⟨rfl, hrest⟩ := Prod.mk.inj hout
      obtain ⟨rfl, rfl⟩ := Prod.mk.inj hrest
      refine ⟨insert_touched now id _ sessions, fun keys hkeys => ⟨?_, ?_⟩⟩
      · have hmissed := outcome_deferred hkeys
        cases blocking with
        | false => rfl
        | true => exact absurd hmissed (pass_never_misses up evm request s fetch keys)
      · rw [Job.sessionId, Finmap.lookup_insert]
        rfl

end Handle

/-- A job taken for a session that is not parked is run as a queue of one. -/
theorem accept_job [ToString E] [DecidableEq F] (up : F → Upstream E) (evm : Evm E)
    (order : HashOrder) (wk : Worker F) (now : Instant) (spawns : Bool) {posted : Posted F}
    (hnone : wk.blocked.lookup posted.job.sessionId = none) :
    Worker.accept up evm order now spawns (.job posted) wk
      = Worker.drain up evm order now spawns [posted] 0 false wk := by
  simp only [Worker.accept, hnone, Worker.drain]

/-! ### One session's line -/

/-- The line of one session: the jobs of it that are done with, those the worker holds in its hands,
    and the rest. -/
structure InLine (wk : Worker F) (id : SessionId) (hand done : List (Posted F)) : Prop where
  split : wk.arrivedOf id = done ++ (hand ++ wk.queued id ++ wk.waiting id)
  owed : wk.owed id = if (wk.blocked.lookup id).isSome then 1 else 0
  parked : ∀ blocked, wk.blocked.lookup id = some blocked →
    blocked.queue ≠ [] ∧ 1 ≤ blocked.rounds ∧ blocked.rounds ≤ maxSpeculativeRounds

variable {up : F → Upstream E} {wk wk' : Worker F} {id : SessionId} {hand done : List (Posted F)}

theorem inLine_start (fetch : Fetch F) (id : SessionId) : InLine (.start fetch) id [] [] :=
  ⟨rfl, rfl, fun blocked h => by simp [Worker.start] at h⟩

/-- FRAME: a session sees only its own part of the worker. -/
theorem inLine_frame (h : InLine wk id hand done) (harrived : wk'.arrivedOf id = wk.arrivedOf id)
    (hblocked : wk'.blocked.lookup id = wk.blocked.lookup id)
    (hwaiting : wk'.waiting id = wk.waiting id) (howed : wk'.owed id = wk.owed id) :
    InLine wk' id hand done := by
  refine ⟨?_, by rw [howed, hblocked, h.owed], by rw [hblocked]; exact h.parked⟩
  rw [harrived, h.split, hwaiting, Worker.queued, Worker.queued, hblocked]

/-- What is in hand or queued is for this session, and has arrived. -/
theorem inLine_mem (h : InLine wk id hand done) {posted : Posted F}
    (hmem : posted ∈ hand ++ wk.queued id) :
    posted.job.sessionId = id ∧ posted ∈ wk.arrived := by
  have harrived : posted ∈ wk.arrivedOf id := by
    rw [h.split]
    exact List.mem_append_right _ (List.mem_append_left _ hmem)
  obtain ⟨hall, hid⟩ := List.mem_filter.mp harrived
  exact ⟨of_decide_eq_true hid, hall⟩

/-- The worker is done with the first few jobs in its hands. -/
theorem inLine_done (now : List (Posted F)) (h : InLine wk id (now ++ hand) done) :
    InLine wk id hand (done ++ now) :=
  ⟨by rw [h.split]; simp only [List.append_assoc], h.owed, h.parked⟩

/-- A pass that may miss has a round left. -/
theorem rounds_left {failed : Bool} {rounds : ℕ}
    (h : (failed || decide (maxSpeculativeRounds ≤ rounds)) = false) :
    rounds < maxSpeculativeRounds := by
  simp only [Bool.or_eq_false_iff, decide_eq_false_iff_not] at h
  omega

/-- Parking the job in hand, the others behind it, owes the session one `unblock`. -/
theorem inLine_park {posted : Posted F} (h : InLine wk id (posted :: hand) done)
    (hnone : wk.blocked.lookup id = none) {rounds : ℕ} (hrounds : rounds < maxSpeculativeRounds)
    (spawns : Bool) (keys : List StateKey) :
    InLine (wk.park spawns posted keys ⟨hand, rounds⟩) id [] done := by
  have hid : posted.job.sessionId = id := (inLine_mem h List.mem_cons_self).1
  have howed : wk.owed id = 0 := by rw [h.owed, hnone]; rfl
  have hblocked : (wk.park spawns posted keys ⟨hand, rounds⟩).blocked.lookup id
      = some ⟨posted :: hand, rounds + 1⟩ := by
    cases spawns <;> simp [Worker.park, hid, Finmap.lookup_insert]
  refine ⟨?_, ?_, fun blocked hb => ?_⟩
  · have hsplit := h.split
    rw [Worker.queued, hblocked]
    rw [Worker.queued, hnone] at hsplit
    cases spawns <;>
      simpa [Worker.park, Worker.arrivedOf, Worker.waiting, List.filterMap_append,
        jobFor_unblock] using hsplit
  · rw [hblocked, Option.isSome_some, if_pos rfl]
    unfold Worker.owed at howed ⊢
    cases spawns <;>
      simp [Worker.park, List.countP_append, Message.unblocks, hid] <;> omega
  · rw [hblocked] at hb
    obtain rfl := Option.some.inj hb
    exact ⟨List.cons_ne_nil _ _, Nat.le_add_left 1 rounds, hrounds⟩

/-- Parking a job of another session is none of this session's business. -/
theorem inLine_park_other (h : InLine wk id hand done) {posted : Posted F}
    (hid : id ≠ posted.job.sessionId) (spawns : Bool) (keys : List StateKey) (blocked : Blocked F) :
    InLine (wk.park spawns posted keys blocked) id hand done := by
  refine inLine_frame h ?_ ?_ ?_ ?_ <;> cases spawns <;>
    simp [Worker.park, Worker.arrivedOf, Worker.waiting, Worker.owed, List.filterMap_append,
      List.countP_append, jobFor_unblock, Message.unblocks, Finmap.lookup_insert_of_ne _ hid,
      Ne.symm hid]

/-! ### Messages -/

/-- A job posted stands last among those waiting. -/
theorem inLine_post (h : InLine wk id [] done) (posted : Posted F) :
    InLine { wk with inbox := wk.inbox ++ [.job posted], arrived := wk.arrived ++ [posted] } id []
      done := by
  refine ⟨?_, ?_, h.parked⟩
  · have hsplit := h.split
    simp only [Worker.arrivedOf, Worker.waiting, Worker.queued, List.filter_append,
      List.filterMap_append] at hsplit ⊢
    rw [hsplit]
    by_cases hid : posted.job.sessionId = id <;> simp [Message.jobFor, hid]
  · simpa [Worker.owed, List.countP_append, Message.unblocks] using h.owed

theorem take_job {posted : Posted F} {inbox : List (Message F)}
    (hinbox : wk.inbox = .job posted :: inbox) (landed : Landed up) (id : SessionId) :
    wk.waiting id = (if posted.job.sessionId = id then [posted] else []) ++
        (wk.take inbox landed).waiting id ∧
      (wk.take inbox landed).owed id = wk.owed id := by
  constructor
  · by_cases hid : posted.job.sessionId = id <;>
      simp [Worker.waiting, hinbox, Worker.take, Message.jobFor, hid]
  · simp [Worker.owed, hinbox, Worker.take, Message.unblocks]

/-- A job taken for a session that is not parked is in hand. -/
theorem inLine_take_job {posted : Posted F} {inbox : List (Message F)}
    (hinbox : wk.inbox = .job posted :: inbox)
    (hnone : wk.blocked.lookup posted.job.sessionId = none) (landed : Landed up)
    (h : InLine wk id [] done) :
    InLine (wk.take inbox landed) id (if id = posted.job.sessionId then [posted] else []) done := by
  obtain ⟨hwaiting, howed⟩ := take_job hinbox landed id
  have hsplit := h.split
  rw [hwaiting] at hsplit
  refine ⟨?_, howed.trans h.owed, h.parked⟩
  by_cases hid : posted.job.sessionId = id
  · subst hid
    rw [Worker.queued, hnone, if_pos rfl] at hsplit
    rw [if_pos rfl, Worker.queued]
    simpa [Worker.take, hnone, Worker.arrivedOf] using hsplit
  · rw [if_neg hid] at hsplit
    rw [if_neg (Ne.symm hid)]
    exact hsplit

/-- A job taken for a session that is parked stands at the end of its queue. -/
theorem inLine_enqueue {posted : Posted F} {inbox : List (Message F)} {blocked : Blocked F}
    (hinbox : wk.inbox = .job posted :: inbox)
    (hb : wk.blocked.lookup posted.job.sessionId = some blocked) (landed : Landed up)
    (h : InLine wk id [] done) :
    InLine { wk.take inbox landed with
      blocked := wk.blocked.insert posted.job.sessionId
        ⟨blocked.queue ++ [posted], blocked.rounds⟩ } id [] done := by
  obtain ⟨hwaiting, howed⟩ := take_job hinbox landed id
  have hsplit := h.split
  rw [hwaiting] at hsplit
  by_cases hid : posted.job.sessionId = id
  · subst hid
    refine ⟨?_, ?_, fun b hb' => ?_⟩
    · rw [Worker.queued, hb, if_pos rfl] at hsplit
      rw [Worker.queued]
      simpa [Worker.arrivedOf, Worker.take, Worker.waiting, Finmap.lookup_insert] using hsplit
    · have howed' := h.owed
      rw [hb, Option.isSome_some] at howed'
      rw [Finmap.lookup_insert, Option.isSome_some]
      exact howed.trans howed'
    · obtain ⟨hne, hone, hmax⟩ := h.parked blocked hb
      rw [Finmap.lookup_insert] at hb'
      obtain rfl := Option.some.inj hb'
      exact ⟨fun hnil => by simp at hnil, hone, hmax⟩
  · have hne : ((wk.blocked.insert posted.job.sessionId
        ⟨blocked.queue ++ [posted], blocked.rounds⟩).lookup id) = wk.blocked.lookup id :=
      Finmap.lookup_insert_of_ne _ (Ne.symm hid)
    rw [if_neg hid] at hsplit
    refine ⟨?_, ?_, ?_⟩
    · rw [Worker.queued] at hsplit
      rw [Worker.queued, hne]
      exact hsplit
    · rw [hne]; exact howed.trans h.owed
    · rw [hne]; exact h.parked

theorem take_unblock {failed : Bool} {inbox : List (Message F)}
    (hinbox : wk.inbox = .unblock id failed :: inbox) (landed : Landed up) (id' : SessionId) :
    (wk.take inbox landed).waiting id' = wk.waiting id' ∧
      wk.owed id' = (wk.take inbox landed).owed id' + if id = id' then 1 else 0 := by
  constructor
  · rw [Worker.waiting, Worker.waiting, hinbox]
    rfl
  · by_cases hid : id = id' <;> simp [Worker.owed, hinbox, Worker.take, Message.unblocks, hid]
    omega

/-- An `unblock` that arrives is the one its session is owed, -/
theorem unblock_parked {failed : Bool} {inbox : List (Message F)}
    (hinbox : wk.inbox = .unblock id failed :: inbox) (h : InLine wk id hand done) :
    ∃ blocked, wk.blocked.lookup id = some blocked := by
  have howed := h.owed
  rw [Worker.owed, hinbox, List.countP_cons] at howed
  cases hb : wk.blocked.lookup id with
  | none =>
    rw [hb] at howed
    simp [Message.unblocks] at howed
  | some blocked => exact ⟨blocked, rfl⟩

/-- and puts its queue into the worker's hands. -/
theorem inLine_unblock {failed : Bool} {inbox : List (Message F)} {blocked : Blocked F}
    (hinbox : wk.inbox = .unblock id failed :: inbox) (hb : wk.blocked.lookup id = some blocked)
    (landed : Landed up) {id' : SessionId} (h : InLine wk id' [] done) :
    InLine { wk.take inbox landed with blocked := wk.blocked.erase id } id'
      (if id' = id then blocked.queue else []) done := by
  obtain ⟨hwaiting, howed⟩ := take_unblock hinbox landed id'
  have hsplit := h.split
  rw [← hwaiting] at hsplit
  by_cases hid' : id' = id
  · subst hid'
    refine ⟨?_, ?_, fun b hb' => ?_⟩
    · rw [Worker.queued, hb] at hsplit
      rw [if_pos rfl, Worker.queued, Finmap.lookup_erase]
      simpa [Worker.arrivedOf, Worker.take, Worker.waiting] using hsplit
    · have howed' := h.owed
      rw [hb, Option.isSome_some, if_pos rfl, howed, if_pos rfl] at howed'
      rw [Finmap.lookup_erase]
      have hzero : (wk.take inbox landed).owed id' = 0 := by omega
      exact hzero
    · rw [Finmap.lookup_erase] at hb'; cases hb'
  · have hne : (wk.blocked.erase id).lookup id' = wk.blocked.lookup id' :=
      Finmap.lookup_erase_ne hid'
    rw [if_neg (Ne.symm hid'), Nat.add_zero] at howed
    refine ⟨?_, ?_, ?_⟩
    · rw [Worker.queued] at hsplit
      rw [if_neg hid', Worker.queued, hne]
      exact hsplit
    · rw [hne]; exact howed.symm.trans h.owed
    · rw [hne]; exact h.parked

/-- A resolver that ends passes on the `unblock` it owed. -/
theorem inLine_resolved {i : ℕ} {resolver : Resolving F} (hi : wk.resolving[i]? = some resolver)
    (failed : Bool) (h : InLine wk id [] done) :
    InLine { wk with
      resolving := wk.resolving.eraseIdx i
      inbox := wk.inbox ++ [.unblock resolver.id failed] } id [] done := by
  refine inLine_frame h rfl rfl ?_ ?_
  · simp only [Worker.waiting, List.filterMap_append, jobFor_unblock, List.append_nil]
  · obtain ⟨hlt, rfl⟩ := List.getElem?_eq_some_iff.mp hi
    have hperm := (List.getElem_cons_eraseIdx_perm hlt).countP_eq (fun r => decide (r.id = id))
    rw [List.countP_cons] at hperm
    simp only [Worker.owed, List.countP_append, List.countP_cons, List.countP_nil, Message.unblocks]
    by_cases hid : (wk.resolving[i]).id = id
    · simp only [hid, decide_true, if_true] at hperm ⊢
      omega
    · simp only [hid, decide_false, Bool.false_eq_true, if_false] at hperm ⊢
      omega

/-! ### Draining, and any event, whatever comes of the jobs -/

/-- What draining a session's queue does to the sessions and to who is parked: other sessions are as
    they were, this one is stamped, and if it is parked again it is there. -/
structure Drained (now : Instant) (id : SessionId) (wk wk' : Worker F) : Prop where
  sessions : ∀ id', id' ≠ id → wk'.sessions.lookup id' = wk.sessions.lookup id'
  blocked : ∀ id', id' ≠ id → wk'.blocked.lookup id' = wk.blocked.lookup id'
  stamp : ∀ st, wk'.sessions.lookup id = some st → st.2 = now
  parked : (wk'.blocked.lookup id).isSome = true → (wk'.sessions.lookup id).isSome = true

theorem drained_trans {now : Instant} (wk' : Worker F) {wk'' : Worker F}
    (hsessions : ∀ id', id' ≠ id → wk'.sessions.lookup id' = wk.sessions.lookup id')
    (hblocked : wk'.blocked = wk.blocked) (h : Drained now id wk' wk'') : Drained now id wk wk'' :=
  ⟨fun id' hid => (h.sessions id' hid).trans (hsessions id' hid),
    fun id' hid => by rw [h.blocked id' hid, hblocked], h.stamp, h.parked⟩

theorem park_drained {now : Instant} {posted : Posted F} (hid : posted.job.sessionId = id)
    (hstamp : ∀ st, wk.sessions.lookup id = some st → st.2 = now)
    (hsome : (wk.sessions.lookup id).isSome = true) (spawns : Bool) (keys : List StateKey)
    (blocked : Blocked F) : Drained now id wk (wk.park spawns posted keys blocked) := by
  subst hid
  cases spawns <;>
    exact ⟨fun _ _ => rfl, fun id' hne => Finmap.lookup_insert_of_ne _ hne, hstamp, fun _ => hsome⟩

section Drain

variable [ToString E] [DecidableEq F] (up : F → Upstream E) (evm : Evm E) (order : HashOrder)

/-- DRAINING: whatever comes of the jobs of a queue, the worker ends with nothing in its hands. -/
theorem drain_inLine (now : Instant) (spawns : Bool) : ∀ (queue : List (Posted F)) (rounds : ℕ)
    (blocking : Bool) (wk : Worker F) (done : List (Posted F)), InLine wk id queue done →
    wk.blocked.lookup id = none → (blocking = false → rounds < maxSpeculativeRounds) →
    (queue = [] → ∀ st, wk.sessions.lookup id = some st → st.2 = now) →
    Drained now id wk (Worker.drain up evm order now spawns queue rounds blocking wk) ∧
      (∃ done', InLine (Worker.drain up evm order now spawns queue rounds blocking wk) id [] done') ∧
      ∀ id' done', id' ≠ id → InLine wk id' [] done' →
        InLine (Worker.drain up evm order now spawns queue rounds blocking wk) id' [] done'
  | [], _, _, wk, done, hline, hnone, _, hstamp =>
    ⟨⟨fun _ _ => rfl, fun _ _ => rfl, hstamp rfl, fun h => by
      rw [Worker.drain, hnone] at h
      cases h⟩, ⟨done, hline⟩, fun _ _ _ hother => hother⟩
  | posted :: queue, rounds, blocking, wk, done, hline, hnone, hrounds, _ => by
    have hid : posted.job.sessionId = id := (inLine_mem hline List.mem_cons_self).1
    rcases hout : handle up evm order now blocking posted.job (wk.sessions, wk.fetch) with
      ⟨out, sessions, fetch⟩
    obtain ⟨htouched, hdeferred⟩ :=
      handle_touched order now blocking posted.job wk.sessions wk.fetch hout
    rw [hid] at htouched hdeferred
    cases out with
    | done reply =>
      simp only [Worker.drain, hout]
      have hnext := inLine_done [posted] hline
      set wk₁ : Worker F := { wk with
        sessions := sessions, fetch := fetch, answers := wk.answers ++ [(posted, reply)] }
      have hline₁ : InLine wk₁ id queue (done ++ [posted]) := ⟨hnext.split, hnext.owed, hnext.parked⟩
      obtain ⟨hdrained, hthis, hothers⟩ := drain_inLine now spawns queue 0 false wk₁ _ hline₁ hnone
        (fun _ => by decide) fun _ => htouched.stamp
      exact ⟨drained_trans wk₁ htouched.frame rfl hdrained, hthis, fun id' done' hne h =>
        hothers id' done' hne ⟨h.split, h.owed, h.parked⟩⟩
    | deferred keys =>
      simp only [Worker.drain, hout]
      obtain ⟨hb, hsome⟩ := hdeferred keys rfl
      set wk₁ : Worker F := { wk with sessions := sessions, fetch := fetch }
      have hline₁ : InLine wk₁ id (posted :: queue) done := ⟨hline.split, hline.owed, hline.parked⟩
      refine ⟨drained_trans wk₁ htouched.frame rfl
        (park_drained hid htouched.stamp hsome spawns keys _),
        ⟨done, inLine_park hline₁ hnone (hrounds hb) spawns keys⟩, fun id' done' hne h => ?_⟩
      have h₁ : InLine wk₁ id' [] done' := ⟨h.split, h.owed, h.parked⟩
      exact inLine_park_other h₁ (hid ▸ hne) spawns keys _
    | panicked =>
      simp only [Worker.drain, hout]
      refine ⟨⟨htouched.frame, fun _ _ => rfl, htouched.stamp, fun h => ?_⟩,
        ⟨done ++ posted :: queue, ?_⟩,
        fun id' done' hne h => ⟨h.split, h.owed, h.parked⟩⟩
      · rw [hnone] at h
        cases h
      · -- the panic takes the rest of the queue with it
        rw [← List.append_nil (posted :: queue)] at hline
        have hall := inLine_done (posted :: queue) hline
        exact ⟨hall.split, hall.owed, hall.parked⟩

end Drain

/-- INVARIANT of any run, whatever comes of the jobs: every session's jobs stand in line. -/
def Worker.Lines (wk : Worker F) : Prop := ∀ id, ∃ done, InLine wk id [] done

theorem lines_start (fetch : Fetch F) : (Worker.start fetch).Lines := fun id =>
  ⟨[], inLine_start fetch id⟩

/-- What taking a message does to a session that is not parked then: it is stamped, or as it was. -/
structure Worked (now : Instant) (wk wk' : Worker F) : Prop where
  lines : wk'.Lines
  stamp : ∀ id st, wk'.blocked.lookup id = none → wk'.sessions.lookup id = some st →
    st.2 = now ∨ (wk.blocked.lookup id = none ∧ wk.sessions.lookup id = some st)
  parked : (∀ id, (wk.blocked.lookup id).isSome = true → (wk.sessions.lookup id).isSome = true) →
    ∀ id, (wk'.blocked.lookup id).isSome = true → (wk'.sessions.lookup id).isSome = true

section Step

variable [ToString E] [DecidableEq F] (up : F → Upstream E) (evm : Evm E) (order : HashOrder)

/-- A queue put into the worker's hands. -/
theorem worked_drain (wk wk₁ : Worker F) {queue : List (Posted F)} {rounds : ℕ} {blocking : Bool}
    (hlines : ∀ id', ∃ done, InLine wk₁ id' (if id' = id then queue else []) done)
    (hsessions : wk₁.sessions = wk.sessions)
    (hblocked : ∀ id', id' ≠ id → wk₁.blocked.lookup id' = wk.blocked.lookup id')
    (hnone : wk₁.blocked.lookup id = none) (hqueue : queue ≠ [])
    (hrounds : blocking = false → rounds < maxSpeculativeRounds) (now : Instant) (spawns : Bool) :
    Worked now wk (Worker.drain up evm order now spawns queue rounds blocking wk₁) := by
  obtain ⟨done, hline⟩ := hlines id
  rw [if_pos rfl] at hline
  obtain ⟨hdrained, hthis, hothers⟩ := drain_inLine up evm order now spawns queue rounds
    blocking wk₁ done hline hnone hrounds fun h => absurd h hqueue
  refine ⟨fun id' => ?_, fun id' st hb hst => ?_, fun hparked id' hb => ?_⟩
  · by_cases hid : id' = id
    · rw [hid]
      exact hthis
    · obtain ⟨done', hline'⟩ := hlines id'
      rw [if_neg hid] at hline'
      exact ⟨done', hothers id' done' hid hline'⟩
  · by_cases hid : id' = id
    · rw [hid] at hst
      exact .inl (hdrained.stamp st hst)
    · rw [hdrained.blocked id' hid, hblocked id' hid] at hb
      rw [hdrained.sessions id' hid, hsessions] at hst
      exact .inr ⟨hb, hst⟩
  · by_cases hid : id' = id
    · rw [hid] at hb ⊢
      exact hdrained.parked hb
    · rw [hdrained.blocked id' hid, hblocked id' hid] at hb
      rw [hdrained.sessions id' hid, hsessions]
      exact hparked id' hb

/-- STEP LEMMA: a message taken, whatever comes of it. -/
theorem work_worked (h : wk.Lines) (now : Instant) (landed : Landed up) (spawns : Bool) :
    Worked now wk (Worker.step up evm order (.work now landed spawns) wk) := by
  simp only [Worker.step]
  cases hinbox : wk.inbox with
  | nil => exact ⟨h, fun id st hb hst => .inr ⟨hb, hst⟩, fun hparked => hparked⟩
  | cons message inbox =>
    dsimp only
    cases message with
    | job posted =>
      cases hb : wk.blocked.lookup posted.job.sessionId with
      | none =>
        have haccept := accept_job up evm order (wk.take inbox landed) now spawns hb
        simp only [Worker.take] at haccept
        rw [haccept]
        have hlines : ∀ id, ∃ done, InLine (wk.take inbox landed) id
            (if id = posted.job.sessionId then [posted] else []) done := by
          intro id
          obtain ⟨done, hline⟩ := h id
          exact ⟨done, inLine_take_job hinbox hb landed hline⟩
        have hworked : Worked now wk (Worker.drain up evm order now spawns [posted] 0 false
            (wk.take inbox landed)) :=
          worked_drain up evm order wk (wk.take inbox landed) hlines rfl (fun _ _ => rfl) hb
            (List.cons_ne_nil posted []) (fun _ => by decide) now spawns
        exact hworked
      | some blocked =>
        simp only [Worker.accept, hb]
        refine ⟨fun id => ?_, fun id st hb' hst => .inr ⟨?_, hst⟩, fun hparked id hb' => ?_⟩
        · obtain ⟨done, hline⟩ := h id
          exact ⟨done, inLine_enqueue hinbox hb landed hline⟩
        · rw [Map.lookup_insert_eq] at hb'
          split at hb'
          · cases hb'
          · exact hb'
        · rw [Map.lookup_insert_eq] at hb'
          split at hb'
          · rename_i hid
            rw [hid]
            exact hparked _ (by rw [hb]; rfl)
          · exact hparked id hb'
    | unblock id failed =>
      obtain ⟨done, hline⟩ := h id
      obtain ⟨blocked, hb⟩ := unblock_parked hinbox hline
      obtain ⟨hqueue, -, hmax⟩ := hline.parked blocked hb
      simp only [Worker.accept, Worker.unblock, hb]
      set wk₁ : Worker F := { wk.take inbox landed with blocked := wk.blocked.erase id }
      have hlines : ∀ id', ∃ done, InLine wk₁ id' (if id' = id then blocked.queue else []) done := by
        intro id'
        obtain ⟨done', hline'⟩ := h id'
        exact ⟨done', inLine_unblock hinbox hb landed hline'⟩
      have hworked : Worked now wk (Worker.drain up evm order now spawns blocked.queue blocked.rounds
          (failed || decide (maxSpeculativeRounds ≤ blocked.rounds)) wk₁) :=
        worked_drain up evm order wk wk₁ hlines rfl (fun id' hid => Finmap.lookup_erase_ne hid)
          (Finmap.lookup_erase ..) hqueue rounds_left now spawns
      exact hworked

omit [DecidableEq F] in
theorem lines_post (h : wk.Lines) (posted : Posted F) :
    Worker.Lines { wk with
      inbox := wk.inbox ++ [.job posted], arrived := wk.arrived ++ [posted] } := fun id => by
  obtain ⟨done, hline⟩ := h id
  exact ⟨done, inLine_post hline posted⟩

theorem lines_resolved (h : wk.Lines) (i : ℕ) (failed : Bool) :
    (Worker.step up evm order (.resolved i failed) wk).Lines := by
  simp only [Worker.step]
  split
  · exact h
  · rename_i hi
    intro id
    obtain ⟨done, hline⟩ := h id
    exact ⟨done, inLine_resolved hi _ hline⟩

end Step

end Forkyard
