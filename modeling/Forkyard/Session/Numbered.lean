import Forkyard.Session.Pool

/-! Session ids. `next_id` is one atomic counter for all calls: an id is drawn, a job that opens a
    session under it is sent, and the caller is told the id. As long as the counter has not gone
    round, no id is drawn twice, so no two callers are told the same id, a session is opened at most
    once, and one that is gone, discarded or expired, never comes back: whoever still holds its id
    is answered `Unknown` for good. -/

namespace Forkyard

open Schemes

variable {F E : Type}

/-- The call has drawn `id`, and has not lost it. -/
def ManagerCall.holds (id : SessionId) : ManagerCall F → Bool
  | .send id' _ => decide (id' = id)
  | .registering posted => decide (posted.job.sessionId = id)
  | .opened id' => decide (id' = id)
  | _ => false

/-- The call is about to send the job that opens `id`. -/
def ManagerCall.sends (id : SessionId) : ManagerCall F → Bool
  | .send id' _ => decide (id' = id)
  | _ => false

/-- The job opens `id`. -/
def Posted.opens (id : SessionId) (posted : Posted F) : Bool :=
  posted.job.opens && decide (posted.job.sessionId = id)

/-- INVARIANT of any run: ids are drawn in order, each is held by at most one call and opened by at
    most one job for each time it was drawn. -/
structure Pool.Numbered (pool : Pool F) : Prop where
  next : pool.nextId = UInt64.ofNat pool.drawn.length
  drawn : pool.drawn = (List.range pool.drawn.length).map UInt64.ofNat
  held : ∀ id, pool.calls.countP (ManagerCall.holds id) ≤ pool.drawn.count id
  once : ∀ id wk, pool.workers[pool.shard id]? = some wk →
    pool.calls.countP (ManagerCall.sends id) + wk.arrived.countP (Posted.opens id)
      ≤ pool.drawn.count id

variable {pool : Pool F}

theorem numbered_start (fetch : Fetch F) (numWorkers : ℕ) :
    (Pool.start fetch numWorkers).Numbered := by
  refine ⟨rfl, rfl, fun id => Nat.le_refl 0, fun id wk hwk => ?_⟩
  rw [start_worker hwk]
  exact Nat.le_refl 0

/-- Until the counter goes round no id is drawn twice. -/
theorem drawn_nodup (h : pool.Numbered) (hbound : pool.drawn.length ≤ 2 ^ 64) :
    pool.drawn.Nodup := by
  rw [h.drawn]
  refine List.Nodup.map_on (fun a ha b hb hab => ?_) List.nodup_range
  have hlt : ∀ {c : ℕ}, c ∈ List.range pool.drawn.length → c < 2 ^ 64 := fun hc =>
    (List.mem_range.mp hc).trans_le hbound
  have hmod := congrArg UInt64.toNat hab
  rwa [UInt64.toNat_ofNat', UInt64.toNat_ofNat', Nat.mod_eq_of_lt (hlt ha),
    Nat.mod_eq_of_lt (hlt hb)] at hmod

/-! ### One step -/

/-- What a turn makes of the ids: one more may be drawn, and a call that sends its opening job no
    longer is about to. -/
structure Counted (pool pool' : Pool F) (call : ManagerCall F) : Prop where
  next : pool'.nextId = UInt64.ofNat pool'.drawn.length
  drawn : pool'.drawn = (List.range pool'.drawn.length).map UInt64.ofNat
  held : ∀ id, pool'.calls.countP (ManagerCall.holds id) + pool.drawn.count id
    ≤ pool.calls.countP (ManagerCall.holds id) + pool'.drawn.count id
  sent : ∀ id, pool'.calls.countP (ManagerCall.sends id) + (call.sends id).toNat
    + pool.drawn.count id ≤ pool.calls.countP (ManagerCall.sends id) + pool'.drawn.count id

theorem counted_turn (h : pool.Numbered) {i : ℕ} {call call' : ManagerCall F} {pool' : Pool F}
    (hcall : pool.calls[i]? = some call) (hturned : pool.Turned i call call' pool') :
    Counted pool pool' call := by
  -- a call that moves on with no id drawn, and holds and sends no more than before
  have hset : ∀ {pool' : Pool F} (call' : ManagerCall F), pool'.nextId = pool.nextId →
      pool'.drawn = pool.drawn → pool'.calls = pool.calls.set i call' →
      (∀ id, call'.holds id = true → call.holds id = true) → (∀ id, call'.sends id = false) →
      Counted pool pool' call := by
    intro pool' call' hnext hdrawn hcalls hholds hsends
    refine ⟨by rw [hnext, hdrawn, h.next], by rw [hdrawn]; exact h.drawn, fun id => ?_, fun id => ?_⟩
    · have hcount := countP_set_add (ManagerCall.holds id) call' hcall
      have hle : (call'.holds id).toNat ≤ (call.holds id).toNat := by
        cases hc : call'.holds id with
        | false => exact Nat.zero_le _
        | true => rw [hholds id hc]
      rw [hcalls, hdrawn]
      omega
    · have hcount := countP_set_add (ManagerCall.sends id) call' hcall
      rw [hsends id, Bool.toNat_false] at hcount
      rw [hcalls, hdrawn]
      omega
  cases hturned with
  | idle hjob =>
    refine ⟨h.next, h.drawn, fun id => Nat.le_refl _, fun id => ?_⟩
    cases call with
    | send id' opening => cases hjob
    | _ => exact Nat.le_refl _
  | ask job => exact hset _ rfl rfl rfl (fun _ => id) fun _ => rfl
  | forkFrom parent => exact hset _ rfl rfl rfl (fun _ => id) fun _ => rfl
  | send id opening =>
    refine hset _ rfl rfl rfl (fun id' hid => ?_) fun _ => rfl
    cases opening <;> exact hid
  | branched hreceive => exact hset _ rfl rfl rfl (fun _ hid => by cases hid) fun _ => rfl
  | replied hawaits hreceive => exact hset _ rfl rfl rfl (fun _ hid => by cases hid) fun _ => rfl
  | opened hreceive => exact hset _ rfl rfl rfl (fun _ => id) fun _ => rfl
  | gone hawaits hreceive => exact hset _ rfl rfl rfl (fun _ hid => by cases hid) fun _ => rfl
  | draw opening =>
    have hone : ∀ id, (pool.drawn ++ [pool.nextId]).count id
        = pool.drawn.count id + (decide (pool.nextId = id)).toNat := by
      intro id
      rw [List.count_append, List.count_singleton]
      by_cases hid : pool.nextId = id <;> simp [hid]
    have hholds := fun id => countP_set_add (ManagerCall.holds id) (.send pool.nextId opening) hcall
    have hsends := fun id => countP_set_add (ManagerCall.sends id) (.send pool.nextId opening) hcall
    have hrange : pool.drawn ++ [pool.nextId]
        = (List.range (pool.drawn.length + 1)).map UInt64.ofNat := by
      rw [List.range_succ, List.map_append, ← h.drawn, h.next]
      rfl
    refine ⟨?_, ?_, fun id => ?_, fun id => ?_⟩
    · rw [List.length_append, List.length_singleton, h.next]
      exact (UInt64.ofNat_add _ _).symm
    · rw [List.length_append, List.length_singleton]
      exact hrange
    · have hcount := hholds id
      simp only [ManagerCall.holds, Bool.toNat_false] at hcount
      rw [hone]
      simp only [Pool.setCall]
      omega
    · have hcount := hsends id
      simp only [ManagerCall.sends, Bool.toNat_false] at hcount ⊢
      rw [hone]
      simp only [Pool.setCall]
      omega

section Steps

variable [ToString E] [DecidableEq F] {up : F → Upstream E} {evm : Evm E} {order : HashOrder}
  {ttl : ℕ}

/-- A job that opens a session comes of a call about to send it. -/
theorem moved_opens {event : PoolEvent up} {w : ℕ} {wk wk' : Worker F}
    (hmoved : pool.Moved up evm order ttl event w wk wk') (id : SessionId) :
    wk'.arrived.countP (Posted.opens id) = wk.arrived.countP (Posted.opens id) ∨
      ∃ i call, event = .turn i ∧ pool.calls[i]? = some call ∧ call.sends id = true ∧
        wk'.arrived.countP (Posted.opens id) = wk.arrived.countP (Posted.opens id) + 1 := by
  cases hmoved with
  | idle => exact .inl rfl
  | sweep hevent hinbox => exact .inl rfl
  | work hevent => exact .inl (by rw [(work_logs up evm order _ _ _ wk).1])
  | resolved hevent => exact .inl (by rw [(resolved_logs up evm order _ _ wk).1])
  | @post i call job hevent hcall hjob hw =>
    have hcount : (Worker.step up evm order (.post ⟨job, pool.channels⟩) wk).arrived.countP
        (Posted.opens id) = wk.arrived.countP (Posted.opens id)
          + (Posted.opens id ⟨job, pool.channels⟩).toNat := by
      rw [Worker.step, List.countP_append, List.countP_singleton]
      cases Posted.opens id (⟨job, pool.channels⟩ : Posted F) <;> rfl
    cases hopens : Posted.opens id (⟨job, pool.channels⟩ : Posted F) with
    | false =>
      rw [hopens] at hcount
      exact .inl hcount
    | true =>
      rw [hopens] at hcount
      refine .inr ⟨i, call, hevent, hcall, ?_, hcount⟩
      rw [Posted.opens, Bool.and_eq_true] at hopens
      cases call with
      | ask ask =>
        have hask := ask.2
        rw [Option.some.inj hjob, hopens.1] at hask
        cases hask
      | forkFrom parent =>
        cases hjob
        cases hopens.1
      | send id' opening =>
        cases hjob
        cases opening <;> exact hopens.2
      | _ => cases hjob

/-- The worker a session lives on, before an event and after. -/
theorem step_home (event : PoolEvent up) {id : SessionId} {wk' : Worker F}
    (hwk' : (pool.step up evm order ttl event).workers[
      (pool.step up evm order ttl event).shard id]? = some wk') :
    ∃ wk, pool.workers[pool.shard id]? = some wk ∧
      pool.Moved up evm order ttl event (pool.shard id) wk wk' := by
  rw [step_shard] at hwk'
  exact step_moved event hwk'

/-- An event that is nobody's turn draws no id and opens no session. -/
theorem numbered_quiet (h : pool.Numbered) {event : PoolEvent up} (hturn : ∀ i, event ≠ .turn i)
    (hnext : (pool.step up evm order ttl event).nextId = pool.nextId)
    (hdrawn : (pool.step up evm order ttl event).drawn = pool.drawn)
    (hcalls : ∀ p : ManagerCall F → Bool, p .dropped = false →
      (∀ method : Method F, p method.start = false) →
        (pool.step up evm order ttl event).calls.countP p ≤ pool.calls.countP p) :
    (pool.step up evm order ttl event).Numbered := by
  have hstart : ∀ id (method : Method F), (ManagerCall.holds id method.start) = false ∧
      (ManagerCall.sends id method.start) = false := by
    rintro id (job | _ | _) <;> exact ⟨rfl, rfl⟩
  refine ⟨by rw [hnext, hdrawn, h.next], by rw [hdrawn]; exact h.drawn, fun id => ?_,
    fun id wk' hwk' => ?_⟩
  · rw [hdrawn]
    exact (hcalls _ rfl fun method => (hstart id method).1).trans (h.held id)
  · obtain ⟨wk, hwk, hmoved⟩ := step_home event hwk'
    have hle := hcalls _ rfl fun method => (hstart id method).2
    rcases moved_opens hmoved id with hsame | ⟨i, -, hevent, -⟩
    · rw [hdrawn, hsame]
      exact (Nat.add_le_add_right hle _).trans (h.once id wk hwk)
    · exact absurd hevent (hturn i)

/-- A turn draws an id that no call holds, or has the one call that holds it send its job. -/
theorem numbered_turn (h : pool.Numbered) (i : ℕ) :
    (pool.step up evm order ttl (.turn i)).Numbered := by
  cases hcall : pool.calls[i]? with
  | none =>
    have hidle : pool.step up evm order ttl (.turn i) = pool := by simp only [Pool.step, hcall]
    rw [hidle]
    exact h
  | some call =>
    have hmove : pool.step up evm order ttl (.turn i) = pool.move i call := by
      simp only [Pool.step, hcall]
    obtain ⟨call', hturned⟩ := move_turned pool i call
    have hcounted := counted_turn h hcall hturned
    rw [← hmove] at hcounted
    refine ⟨hcounted.next, hcounted.drawn, fun id => ?_, fun id wk' hwk' => ?_⟩
    · have hheld := hcounted.held id
      have hbound := h.held id
      omega
    · obtain ⟨wk, hwk, hmoved⟩ := step_home (.turn i) hwk'
      have hsent := hcounted.sent id
      have hbound := h.once id wk hwk
      rcases moved_opens hmoved id with hsame | ⟨j, call₁, hevent, hcall₁, hsends, hone⟩
      · omega
      · obtain rfl : i = j := PoolEvent.turn.inj hevent
        obtain rfl := Option.some.inj (hcall.symm.trans hcall₁)
        rw [hsends, Bool.toNat_true] at hsent
        omega

/-- STEP LEMMA: ids stay numbered, whatever happens. -/
theorem numbered_step (h : pool.Numbered) (event : PoolEvent up) :
    (pool.step up evm order ttl event).Numbered := by
  cases event with
  | call method =>
    refine numbered_quiet h (by rintro i ⟨⟩) rfl rfl fun p _ hstart => ?_
    simp only [Pool.step, List.countP_append, List.countP_singleton, hstart, Bool.false_eq_true,
      if_false, Nat.add_zero, le_refl]
  | turn i => exact numbered_turn h i
  | drop i =>
    refine numbered_quiet h (by rintro j ⟨⟩) ?_ ?_ fun p hdropped _ => ?_
    · simp only [Pool.step]
      split <;> rfl
    · simp only [Pool.step]
      split <;> rfl
    · simp only [Pool.step]
      split
      all_goals first
        | exact Nat.le_refl _
        | (rename_i hcall
           have hcount := countP_set_add p ManagerCall.dropped hcall
           rw [hdropped, Bool.toNat_false] at hcount
           simp only [Pool.setCall]
           omega)
  | work w now landed spawns =>
    exact numbered_quiet h (by rintro i ⟨⟩) rfl rfl fun _ _ _ => Nat.le_refl _
  | resolved w i failed =>
    exact numbered_quiet h (by rintro i ⟨⟩) rfl rfl fun _ _ _ => Nat.le_refl _
  | timeout w now => exact numbered_quiet h (by rintro i ⟨⟩) rfl rfl fun _ _ _ => Nat.le_refl _

/-! ### Sessions that are gone -/

/-- The answer tells of a session that is not there, or is to a discard of it. -/
def Reply.Gone (a : Posted F × Reply F) : Prop := a.2.isUnknown = true ∨ a.1.job.discards = true

variable (up evm order) in
/-- ONE JOB: a session that is gone stays so unless the job opens it, and the job is told so. -/
theorem handle_gone (now : Instant) (blocking : Bool) {posted : Posted F} {sessions : Sessions F}
    (fetch : Fetch F) {id : SessionId} (hnone : sessions.lookup id = none)
    (hopens : posted.opens id = false) :
    (handle up evm order now blocking posted.job (sessions, fetch)).2.1.lookup id = none ∧
      (posted.job.sessionId = id → ∃ reply,
        (handle up evm order now blocking posted.job (sessions, fetch)).1 = .done reply ∧
          Reply.Gone (posted, reply)) := by
  by_cases hid : posted.job.sessionId = id
  · subst hid
    rw [Posted.opens, decide_eq_true rfl, Bool.and_true] at hopens
    cases hreply : posted.job.unknown with
    | some reply =>
      rw [handle_unknown up evm order now blocking fetch hnone hreply]
      refine ⟨hnone, fun _ => ⟨reply, rfl, .inl ?_⟩⟩
      obtain ⟨job, channel⟩ := posted
      cases job with
      | read id request => cases request <;> cases hreply <;> rfl
      | command c => cases c <;> cases hreply <;> rfl
    | none =>
      obtain ⟨job, channel⟩ := posted
      cases job with
      | read id request => cases hreply
      | command c =>
        cases c with
        | discard id =>
          exact ⟨Finmap.lookup_erase .., fun _ => ⟨_, rfl, .inr rfl⟩⟩
        | fork id base fallback blockEnv seed => cases hopens
        | adopt id session => cases hopens
        | _ => cases hreply
  · rcases hout : handle up evm order now blocking posted.job (sessions, fetch) with
      ⟨out, sessions', fetch'⟩
    have htouched := (handle_touched order now blocking posted.job sessions fetch hout).1
    exact ⟨(htouched.frame id (Ne.symm hid)).trans hnone, fun h => absurd h hid⟩

variable (up evm order) in
/-- DRAINING a queue in which nothing opens a session that is gone. -/
theorem drain_gone (now : Instant) (spawns : Bool) {id : SessionId} (queue : List (Posted F))
    (rounds : ℕ) (blocking : Bool) (wk : Worker F)
    (hopens : ∀ posted ∈ queue, posted.opens id = false) (hnone : wk.sessions.lookup id = none) :
    (Worker.drain up evm order now spawns queue rounds blocking wk).sessions.lookup id = none ∧
      ∀ a ∈ (Worker.drain up evm order now spawns queue rounds blocking wk).answers,
        a.1.job.sessionId = id → a ∈ wk.answers ∨ Reply.Gone a := by
  induction queue generalizing rounds blocking wk with
  | nil => exact ⟨hnone, fun a ha _ => .inl ha⟩
  | cons posted queue ih =>
    obtain ⟨hgone, htold⟩ := handle_gone up evm order now blocking wk.fetch hnone
      (hopens posted List.mem_cons_self)
    simp only [Worker.drain]
    rcases hout : handle up evm order now blocking posted.job (wk.sessions, wk.fetch) with
      ⟨reply | keys | -, sessions, fetch⟩ <;> rw [hout] at hgone htold
    · obtain ⟨hgone', htold'⟩ := ih 0 false { wk with
          sessions := sessions, fetch := fetch, answers := wk.answers ++ [(posted, reply)] }
        (fun p hp => hopens p (List.mem_cons_of_mem posted hp)) hgone
      refine ⟨hgone', fun a ha hid => ?_⟩
      rcases htold' a ha hid with ha | ha
      · refine (List.mem_append.mp ha).imp_right fun hnew => ?_
        obtain rfl := List.mem_singleton.mp hnew
        obtain ⟨reply', hreply, hgone⟩ := htold hid
        rw [Outcome.done.inj hreply]
        exact hgone
      · exact .inr ha
    · cases spawns <;> exact ⟨hgone, fun a ha _ => .inl ha⟩
    · exact ⟨hgone, fun a ha _ => .inl ha⟩

variable (up evm order) in
/-- Taking a message where no waiting job opens a session that is gone. -/
theorem work_gone {wk : Worker F} {id : SessionId} (hlines : wk.Lines)
    (hopens : ∀ posted ∈ wk.queued id ++ wk.waiting id, posted.opens id = false)
    (hnone : wk.sessions.lookup id = none) (now : Instant) (landed : Landed up) (spawns : Bool) :
    (Worker.step up evm order (.work now landed spawns) wk).sessions.lookup id = none ∧
      ∀ a ∈ (Worker.step up evm order (.work now landed spawns) wk).answers,
        a.1.job.sessionId = id → a ∈ wk.answers ∨ Reply.Gone a := by
  have hother : ∀ posted : Posted F, posted.job.sessionId ≠ id → posted.opens id = false := by
    intro posted hne
    rw [Posted.opens, decide_eq_false hne, Bool.and_false]
  simp only [Worker.step]
  cases hinbox : wk.inbox with
  | nil => exact ⟨hnone, fun a ha _ => .inl ha⟩
  | cons message inbox =>
    dsimp only
    cases message with
    | job posted =>
      cases hb : wk.blocked.lookup posted.job.sessionId with
      | none =>
        have haccept := accept_job up evm order (wk.take inbox landed) now spawns hb
        simp only [Worker.take] at haccept
        rw [haccept]
        refine drain_gone up evm order now spawns [posted] 0 false (wk.take inbox landed)
          (fun p hp => ?_) hnone
        rw [List.mem_singleton.mp hp]
        by_cases hid : posted.job.sessionId = id
        · refine hopens posted (List.mem_append_right _ ?_)
          rw [(take_job hinbox landed id).1, if_pos hid]
          exact List.mem_cons_self
        · exact hother posted hid
      | some blocked =>
        simp only [Worker.accept, hb]
        exact ⟨hnone, fun a ha _ => .inl ha⟩
    | unblock id' failed =>
      obtain ⟨done, hline⟩ := hlines id'
      obtain ⟨blocked, hb⟩ := unblock_parked hinbox hline
      simp only [Worker.accept, Worker.unblock, hb]
      refine drain_gone up evm order now spawns blocked.queue _ _
        { wk.take inbox landed with blocked := wk.blocked.erase id' } (fun p hp => ?_) hnone
      have hqueued : p ∈ wk.queued id' := by
        rw [Worker.queued, hb]
        exact hp
      have hown : p.job.sessionId = id' := (inLine_mem hline hqueued).1
      by_cases hid : p.job.sessionId = id
      · refine hopens p (List.mem_append_left _ ?_)
        rw [← hid, hown]
        exact hqueued
      · exact hother p hid

/-! ### Who was opened -/

/-- INVARIANT of any run: whoever is told an id has had it opened, and whoever lives was opened. -/
structure Pool.Opened (pool : Pool F) : Prop where
  registering : ∀ posted, .registering posted ∈ pool.calls → posted.job.opens = true
  opened : ∀ id, .opened id ∈ pool.calls →
    ∃ posted reply, posted.opens id = true ∧ pool.Told posted reply
  alive : ∀ (w : ℕ) wk, pool.workers[w]? = some wk → ∀ id,
    (∀ posted ∈ wk.arrived, posted.opens id = false) → wk.sessions.lookup id = none

omit [ToString E] [DecidableEq F] in
theorem opened_start (fetch : Fetch F) (numWorkers : ℕ) : (Pool.start fetch numWorkers).Opened := by
  refine ⟨by simp [Pool.start], by simp [Pool.start], fun w wk hwk id _ => ?_⟩
  rw [start_worker hwk]
  rfl

omit [ToString E] [DecidableEq F] in
/-- What waits has arrived. -/
theorem waiting_arrived {wk : Worker F} (hlines : wk.Lines) {id : SessionId} {posted : Posted F}
    (h : posted ∈ wk.queued id ++ wk.waiting id) : posted ∈ wk.arrived := by
  obtain ⟨done, hline⟩ := hlines id
  have harrived : posted ∈ wk.arrivedOf id := by
    rw [hline.split]
    exact List.mem_append_right _ h
  exact (List.mem_filter.mp harrived).1

/-- ONE WORKER: a session that is gone and that no waiting job opens stays gone, and whoever asks is
    told so. -/
theorem moved_gone {event : PoolEvent up} {w : ℕ} {wk wk' : Worker F} (hlines : wk.Lines)
    (hmoved : pool.Moved up evm order ttl event w wk wk') {id : SessionId}
    (hopens : ∀ posted ∈ wk.queued id ++ wk.waiting id, posted.opens id = false)
    (hnone : wk.sessions.lookup id = none) :
    wk'.sessions.lookup id = none ∧
      ∀ a ∈ wk'.answers, a.1.job.sessionId = id → a ∈ wk.answers ∨ Reply.Gone a := by
  cases hmoved with
  | idle => exact ⟨hnone, fun a ha _ => .inl ha⟩
  | post hevent hcall hjob hw => exact ⟨hnone, fun a ha _ => .inl ha⟩
  | work hevent => exact work_gone up evm order hlines hopens hnone _ _ _
  | resolved hevent =>
    simp only [Worker.step]
    split <;> exact ⟨hnone, fun a ha _ => .inl ha⟩
  | sweep hevent hinbox =>
    refine ⟨?_, fun a ha _ => .inl ha⟩
    rw [Worker.sweep, Map.lookup_retain, hnone, Option.filter_none]

theorem opened_step (hwired : pool.Wired) (h : pool.Opened) (event : PoolEvent up) :
    (pool.step up evm order ttl event).Opened := by
  have htold : ∀ id, (∃ posted reply, posted.opens id = true ∧ pool.Told posted reply) →
      ∃ posted reply, posted.opens id = true ∧
        (pool.step up evm order ttl event).Told posted reply := by
    rintro id ⟨posted, reply, hopens, htold⟩
    exact ⟨posted, reply, hopens, told_after htold event⟩
  have hcalls : ∀ call ∈ (pool.step up evm order ttl event).calls,
      (∀ posted, call = .registering posted → posted.job.opens = true) ∧
        ∀ id, call = .opened id → ∃ posted reply, posted.opens id = true ∧
          (pool.step up evm order ttl event).Told posted reply := by
    intro call hcall
    have hold : ∀ call ∈ pool.calls,
        (∀ posted, call = .registering posted → posted.job.opens = true) ∧
          ∀ id, call = .opened id → ∃ posted reply, posted.opens id = true ∧
            (pool.step up evm order ttl event).Told posted reply := by
      intro call hmem
      refine ⟨?_, ?_⟩
      · rintro posted rfl
        exact h.registering posted hmem
      · rintro id rfl
        exact htold id (h.opened id hmem)
    rcases calls_cases hcall with hmem | ⟨method, -, rfl⟩ | rfl | ⟨i, call₀, -, hcall₀, hturned⟩
    · exact hold call hmem
    · cases method <;> exact ⟨by rintro _ ⟨⟩, by rintro _ ⟨⟩⟩
    · exact ⟨by rintro _ ⟨⟩, by rintro _ ⟨⟩⟩
    · have hmem := List.mem_of_getElem? hcall₀
      generalize pool.step up evm order ttl event = pool' at hturned hold htold
      cases hturned with
      | idle hjob => exact hold call hmem
      | send id opening =>
        refine ⟨?_, by rintro _ ⟨⟩⟩
        rintro posted ⟨⟩
        cases opening <;> rfl
      | @opened posted reply hreceive =>
        refine ⟨by rintro _ ⟨⟩, ?_⟩
        rintro id ⟨⟩
        refine htold _ ⟨posted, reply, ?_, receive_told hwired (hwired.awaited _ hmem _ rfl) hreceive⟩
        rw [Posted.opens, h.registering posted hmem, decide_eq_true rfl, Bool.and_true]
      | _ => exact ⟨by rintro _ ⟨⟩, by rintro _ ⟨⟩⟩
  refine ⟨fun posted hmem => (hcalls _ hmem).1 posted rfl,
    fun id hmem => (hcalls _ hmem).2 id rfl, fun w wk' hwk' id hopens => ?_⟩
  obtain ⟨wk, hwk, hmoved⟩ := step_moved event hwk'
  have hlines := (hwired.workers w wk hwk).lines
  have hbefore : ∀ posted ∈ wk.arrived, posted.opens id = false := fun posted hp =>
    hopens posted ((moved_logs hmoved).1.subset hp)
  exact (moved_gone hlines hmoved (fun posted hp => hbefore posted (waiting_arrived hlines hp))
    (h.alive w wk hwk id hbefore)).1

/-! ### The main results -/

/-- INVARIANT of any run of a pool. -/
structure Pool.Registered (pool : Pool F) : Prop where
  wired : pool.Wired
  numbered : pool.Numbered
  opened : pool.Opened

omit [ToString E] [DecidableEq F] in
theorem registered_start (fetch : Fetch F) (numWorkers : ℕ) :
    (Pool.start fetch numWorkers).Registered :=
  ⟨wired_start fetch numWorkers, numbered_start fetch numWorkers, opened_start fetch numWorkers⟩

theorem registered_step (h : pool.Registered) (event : PoolEvent up) :
    (pool.step up evm order ttl event).Registered :=
  ⟨wired_step h.wired event, numbered_step h.numbered event, opened_step h.wired h.opened event⟩

theorem registered_run (h : pool.Registered) (events : List (PoolEvent up)) :
    (runAll (Pool.step up evm order ttl) pool events).Registered :=
  runAll_inv (P := Pool.Registered) (fun _ event h => registered_step h event) pool events h

/-- CORRECT: whatever panics, expires or is dropped, until the counter has gone round no two calls
    are told the same id, a session is opened by one job at most, and a session that lives was drawn
    and lives on its own worker. -/
theorem pool_ids (fetch : Fetch F) (numWorkers : ℕ) (events : List (PoolEvent up))
    (hbound : (runAll (Pool.step up evm order ttl) (.start fetch numWorkers) events).drawn.length
      ≤ 2 ^ 64) :
    let pool := runAll (Pool.step up evm order ttl) (.start fetch numWorkers) events
    (∀ (i j : ℕ) (a b : SessionId), i ≠ j → pool.calls[i]? = some (.opened a) →
        pool.calls[j]? = some (.opened b) → a ≠ b) ∧
      ∀ id, (pool.arrivedOf id).countP (fun posted => posted.job.opens) ≤ 1 ∧
        ∀ (w : ℕ) wk, pool.workers[w]? = some wk → (wk.sessions.lookup id).isSome = true →
          w = pool.shard id ∧ id ∈ pool.drawn := by
  intro pool
  have h : pool.Registered := registered_run (registered_start fetch numWorkers) events
  have hnodup : ∀ id, pool.drawn.count id ≤ 1 := fun id =>
    List.nodup_iff_count_le_one.mp (drawn_nodup h.numbered hbound) id
  refine ⟨fun i j a b hij hi hj hab => hij ?_, fun id => ⟨?_, fun w wk hwk halive => ?_⟩⟩
  · subst hab
    exact countP_unique ((h.numbered.held a).trans (hnodup a)) hi (decide_eq_true rfl) hj
      (decide_eq_true rfl)
  · obtain ⟨wk, hwk, harrived, -⟩ := wired_alone h.wired id
    rw [harrived, Worker.arrivedOf, List.countP_filter]
    exact (Nat.le_add_left _ _).trans ((h.numbered.once id wk hwk).trans (hnodup id))
  · obtain ⟨posted, hp, hopens⟩ : ∃ posted ∈ wk.arrived, posted.opens id = true := by
      by_contra hnone
      rw [h.opened.alive w wk hwk id fun posted hp => Bool.eq_false_iff.mpr fun hopens =>
        hnone ⟨posted, hp, hopens⟩] at halive
      cases halive
    have hid : posted.job.sessionId = id := by
      rw [Posted.opens, Bool.and_eq_true] at hopens
      exact of_decide_eq_true hopens.2
    have hw : w = pool.shard id := by
      rw [← (h.wired.workers w wk hwk).routed posted hp, hid]
    refine ⟨hw, List.count_pos_iff.mp ?_⟩
    rw [hw] at hwk
    have hcount : 0 < wk.arrived.countP (Posted.opens id) :=
      List.countP_pos_iff.mpr ⟨posted, hp, hopens⟩
    exact hcount.trans_le ((Nat.le_add_left _ _).trans (h.numbered.once id wk hwk))

end Steps

theorem pool_ids_two :
    let pool := runAll (Pool.step emptyUpstream inert .some 60) (.start .cold 2)
      [.call (.register .empty () ⟨1, 0, 0, 30000000⟩ none),
        .call (.register .empty () ⟨1, 0, 0, 30000000⟩ none), .turn 1, .turn 0, .turn 0, .turn 1,
        .work 0 0 .nothing true, .work 1 1 .nothing true, .turn 0, .turn 1]
    (∀ (i j : ℕ) (a b : SessionId), i ≠ j → pool.calls[i]? = some (.opened a) →
        pool.calls[j]? = some (.opened b) → a ≠ b) ∧
      ∀ id, (pool.arrivedOf id).countP (fun posted => posted.job.opens) ≤ 1 ∧
        ∀ (w : ℕ) wk, pool.workers[w]? = some wk → (wk.sessions.lookup id).isSome = true →
          w = pool.shard id ∧ id ∈ pool.drawn :=
  pool_ids .cold 2 _ (by decide +kernel)

section Steps

variable [ToString E] [DecidableEq F] {up : F → Upstream E} {evm : Evm E} {order : HashOrder}
  {ttl : ℕ}

/-- INVARIANT once a session is gone: it was opened, and `told` is all that was said of it before. -/
structure Pool.Departed (pool : Pool F) (id : SessionId) (told : List (Posted F × Reply F)) :
    Prop where
  registered : pool.Registered
  opened : ∃ posted reply, posted.opens id = true ∧ pool.Told posted reply
  gone : ∀ wk, pool.workers[pool.shard id]? = some wk → wk.sessions.lookup id = none ∧
    ∀ a ∈ wk.answersOf id, a ∈ told ∨ Reply.Gone a

omit [ToString E] [DecidableEq F] in
/-- No job still waits to open a session that was opened. -/
theorem waiting_opens (h : pool.Registered) (hbound : pool.drawn.length ≤ 2 ^ 64) {id : SessionId}
    (hopened : ∃ posted reply, posted.opens id = true ∧ pool.Told posted reply) {wk : Worker F}
    (hwk : pool.workers[pool.shard id]? = some wk) :
    ∀ posted ∈ wk.queued id ++ wk.waiting id, posted.opens id = false := by
  intro posted hp
  by_contra hopens
  rw [Bool.not_eq_false] at hopens
  obtain ⟨first, reply, hfirst, wk', hwk', htold⟩ := hopened
  have hid : first.job.sessionId = id := by
    rw [Posted.opens, Bool.and_eq_true] at hfirst
    exact of_decide_eq_true hfirst.2
  rw [hid] at hwk'
  obtain rfl := Option.some.inj (hwk.symm.trans hwk')
  have hwired := h.wired.workers _ wk hwk
  obtain ⟨harrived, hout⟩ := hwired.answered (first, reply) htold
  have hcount : wk.arrived.countP (Posted.opens id) ≤ 1 :=
    (Nat.le_add_left _ _).trans ((h.numbered.once id wk hwk).trans
      (List.nodup_iff_count_le_one.mp (drawn_nodup h.numbered hbound) id))
  obtain ⟨i, hi⟩ := List.mem_iff_getElem?.mp harrived
  obtain ⟨j, hj⟩ := List.mem_iff_getElem?.mp (waiting_arrived hwired.lines hp)
  obtain rfl := countP_unique hcount hi hfirst hj hopens
  obtain rfl := Option.some.inj (hi.symm.trans hj)
  rw [List.nil_append, hid] at hout
  exact hout hp

theorem departed_step {id : SessionId} {told : List (Posted F × Reply F)}
    (h : pool.Departed id told) (hbound : pool.drawn.length ≤ 2 ^ 64) (event : PoolEvent up) :
    (pool.step up evm order ttl event).Departed id told := by
  refine ⟨registered_step h.registered event, ?_, fun wk' hwk' => ?_⟩
  · obtain ⟨posted, reply, hopens, htold⟩ := h.opened
    exact ⟨posted, reply, hopens, told_after htold event⟩
  · rw [step_shard] at hwk'
    obtain ⟨wk, hwk, hmoved⟩ := step_moved event hwk'
    obtain ⟨hnone, htold⟩ := h.gone wk hwk
    obtain ⟨hnone', hnew⟩ := moved_gone (h.registered.wired.workers _ wk hwk).lines hmoved
      (waiting_opens h.registered hbound h.opened hwk) hnone
    refine ⟨hnone', fun a ha => ?_⟩
    obtain ⟨hmem, hid⟩ := List.mem_filter.mp ha
    rcases hnew a hmem (of_decide_eq_true hid) with hold | hgone
    · exact htold a (List.mem_filter.mpr ⟨hold, hid⟩)
    · exact .inr hgone

variable (up evm order ttl) in
/-- Ids are drawn and never put back. -/
theorem drawn_mono (pool : Pool F) (event : PoolEvent up) :
    pool.drawn.length ≤ (pool.step up evm order ttl event).drawn.length := by
  cases event with
  | turn i =>
    simp only [Pool.step]
    split
    · rename_i call hcall
      obtain ⟨call', hturned⟩ := move_turned pool i call
      generalize pool.move i call = pool' at hturned
      cases hturned <;> simp [Pool.setCall, Pool.post]
    · rfl
  | drop i =>
    simp only [Pool.step]
    split <;> rfl
  | _ => rfl

theorem drawn_run (pool : Pool F) (events : List (PoolEvent up)) :
    pool.drawn.length ≤ (runAll (Pool.step up evm order ttl) pool events).drawn.length :=
  runAll_inv (P := fun pool' : Pool F => pool.drawn.length ≤ pool'.drawn.length)
    (fun pool' event h => h.trans (drawn_mono up evm order ttl pool' event)) pool events le_rfl

theorem departed_run {id : SessionId} {told : List (Posted F × Reply F)}
    (events : List (PoolEvent up)) (h : pool.Departed id told)
    (hbound : (runAll (Pool.step up evm order ttl) pool events).drawn.length ≤ 2 ^ 64) :
    (runAll (Pool.step up evm order ttl) pool events).Departed id told := by
  induction events generalizing pool with
  | nil => exact h
  | cons event events ih =>
    rw [runAll_cons] at hbound ⊢
    have hnow : pool.drawn.length ≤ 2 ^ 64 :=
      (drawn_mono up evm order ttl pool event).trans ((drawn_run _ events).trans hbound)
    exact ih (departed_step h hnow event) hbound

/-- CORRECT: once its caller was told the id, a session that is gone is gone for good: whatever is
    sent later, and whatever panics, expires or is dropped, it is on no worker, and every later answer
    for it is `Unknown` or to a discard. -/
theorem pool_gone (fetch : Fetch F) (numWorkers : ℕ) (events later : List (PoolEvent up))
    (id : SessionId)
    (hopened : .opened id
      ∈ (runAll (Pool.step up evm order ttl) (.start fetch numWorkers) events).calls)
    (hgone : ∀ wk, wk ∈ (runAll (Pool.step up evm order ttl) (.start fetch numWorkers)
      events).workers → wk.sessions.lookup id = none)
    (hbound : (runAll (Pool.step up evm order ttl) (.start fetch numWorkers)
      (events ++ later)).drawn.length ≤ 2 ^ 64) :
    let pool := runAll (Pool.step up evm order ttl) (.start fetch numWorkers) events
    let pool' := runAll (Pool.step up evm order ttl) (.start fetch numWorkers) (events ++ later)
    (∀ wk ∈ pool'.workers, wk.sessions.lookup id = none) ∧
      ∀ wk ∈ pool'.workers, ∀ a ∈ wk.answersOf id, a ∈ pool.answersOf id ∨ Reply.Gone a := by
  intro pool pool'
  have h : pool.Registered := registered_run (registered_start fetch numWorkers) events
  have hdeparted : pool.Departed id (pool.answersOf id) := by
    refine ⟨h, h.opened.opened id hopened, fun wk hwk => ?_⟩
    have hmem := List.mem_of_getElem? hwk
    exact ⟨hgone wk hmem, fun a ha => .inl (List.mem_flatMap.mpr ⟨wk, hmem, ha⟩)⟩
  have hlater : pool' = runAll (Pool.step up evm order ttl) pool later := runAll_append _ _ _ _
  have hdeparted' : pool'.Departed id (pool.answersOf id) := by
    rw [hlater]
    exact departed_run later hdeparted (by rw [← hlater]; exact hbound)
  refine ⟨fun wk hmem => ?_, fun wk hmem a ha => ?_⟩
  · obtain ⟨w, hw⟩ := List.mem_iff_getElem?.mp hmem
    by_cases hshard : w = pool'.shard id
    · rw [hshard] at hw
      exact (hdeparted'.gone wk hw).1
    · refine hdeparted'.registered.opened.alive w wk hw id fun posted hp => ?_
      rw [Posted.opens, decide_eq_false, Bool.and_false]
      rintro rfl
      exact hshard ((hdeparted'.registered.wired.workers w wk hw).routed posted hp).symm
  · obtain ⟨w, hw⟩ := List.mem_iff_getElem?.mp hmem
    have hwired := hdeparted'.registered.wired.workers w wk hw
    obtain ⟨hanswer, hid⟩ := List.mem_filter.mp ha
    have hhome := hwired.routed a.1 (hwired.answered a hanswer).1
    rw [of_decide_eq_true hid] at hhome
    rw [← hhome] at hw
    exact (hdeparted'.gone wk hw).2 a ha

end Steps

/-- A session is opened, its caller told, and discarded. -/
def fleeting : List (PoolEvent emptyUpstream) :=
  [.call (.register .empty () ⟨1, 0, 0, 30000000⟩ none), .turn 0, .turn 0, .work 0 0 .nothing true,
    .turn 0, .call (.ask ⟨.command (.discard 0), @rfl Bool false⟩), .turn 1,
    .work 0 1 .nothing true]

/-- Its id is asked for again. -/
def tooLate : List (PoolEvent emptyUpstream) :=
  [.call (.ask ⟨.read 0 (.storage 0xa 7), rfl⟩), .turn 2, .work 0 2 .nothing true]

theorem pool_gone_fleeting :
    let pool := runAll (Pool.step emptyUpstream inert .some 60) (.start .cold 2) fleeting
    let pool' := runAll (Pool.step emptyUpstream inert .some 60) (.start .cold 2)
      (fleeting ++ tooLate)
    (∀ wk ∈ pool'.workers, wk.sessions.lookup 0 = none) ∧
      ∀ wk ∈ pool'.workers, ∀ a ∈ wk.answersOf 0, a ∈ pool.answersOf 0 ∨ Reply.Gone a :=
  pool_gone .cold 2 fleeting tooLate 0 (List.mem_of_getElem? (i := 0) rfl) (by decide +kernel)
    (by decide +kernel)

end Forkyard
