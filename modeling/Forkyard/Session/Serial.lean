import Forkyard.Schemes.Steps
import Forkyard.Session.Line
import Mathlib.Data.List.Perm.Basic

/-! What a worker is for: to each session it is a machine of its own that takes that session's jobs
    one at a time, in the order they arrived, each to its end over upstream. `Consistent` is the
    invariant that ties one session's part of a worker to that reference machine:

        arrived = done ++ in hand ++ queue of a parked job ++ still in the inbox
        replies = the reference's replies to `done`,  session = the reference's after `done`
        parked  ⟺ exactly one `unblock` owed, by a running resolver or in the inbox -/

namespace Forkyard

open Schemes

variable {F E : Type}

/-! ### The reference machine of one session -/

/-- Run `f` on the session, or answer that there is none. -/
def asked (missing : Reply F) (f : Session F → Reply F × Session F) :
    Option (Session F) → Reply F × Option (Session F)
  | some s => ((f s).1, some (f s).2)
  | none => (missing, none)

def refCommand (order : HashOrder) : Command F → Option (Session F) → Reply F × Option (Session F)
  | .fork _ base fallback blockEnv (some state), _ =>
    (.ack, some (.restore base fallback blockEnv state))
  | .fork _ base fallback blockEnv none, _ => (.ack, some (.fork base fallback blockEnv))
  | .state id, slot => asked (.state (.error (.unknown id))) (fun s => (stateReply order s, s)) slot
  | .branch parent, slot =>
    asked (.branch (.error (.unknown parent))) (fun s => (.branch (.ok s.branch), s)) slot
  | .adopt _ session, _ => (.ack, some session.1)
  | .discard _, _ => (.ack, none)
  | .blockEnvOf id, slot =>
    asked (.blockEnv (.error (.unknown id))) (fun s => (.blockEnv (.ok s.blockEnv), s)) slot
  | .setAccount id address info, slot =>
    asked (.written (.error (.unknown id)))
      (fun s => (.written (.ok ()), s.setAccount address info)) slot
  | .setStorage id address key value, slot =>
    asked (.written (.error (.unknown id)))
      (fun s => (.written (.ok ()), s.setStorage address key value)) slot

section Reference

variable [ToString E] (up : F → Upstream E) (evm : Evm E) (order : HashOrder)

/-- One job, run blocking and alone; a job that panics is never answered. -/
def refStep : Job F → Option (Session F) → Option (Reply F) × Option (Session F)
  | .command c, slot => (some (refCommand order c slot).1, (refCommand order c slot).2)
  | .read id request, none => (some (request.unknown id), none)
  | .read _ request, some s =>
    (((request.task (F := F) evm).serve up s).1.map Prod.fst,
      some ((request.task (F := F) evm).serve up s).2)

/-- A session's jobs in the order they arrived: each with its reply, and the session after them. -/
def reference (jobs : List (Posted F)) : List (Posted F × Option (Reply F)) × Option (Session F) :=
  jobs.foldl (fun acc posted =>
    (acc.1 ++ [(posted, (refStep up evm order posted.job acc.2).1)],
      (refStep up evm order posted.job acc.2).2)) ([], none)

theorem reference_snoc (jobs : List (Posted F)) (posted : Posted F) :
    reference up evm order (jobs ++ [posted])
      = ((reference up evm order jobs).1 ++
          [(posted, (refStep up evm order posted.job (reference up evm order jobs).2).1)],
        (refStep up evm order posted.job (reference up evm order jobs).2).2) := by
  simp only [reference, List.foldl_append, List.foldl_cons, List.foldl_nil]

theorem reference_append (jobs : List (Posted F)) (more : List (Posted F)) :
    (reference up evm order jobs).1 <+: (reference up evm order (jobs ++ more)).1 := by
  induction more using List.reverseRecOn with
  | nil => rw [List.append_nil]
  | append_singleton more posted ih =>
    rw [← List.append_assoc, reference_snoc]
    exact ih.trans (List.prefix_append _ _)

/-- The reference answers each job once, in order. -/
theorem reference_jobs (jobs : List (Posted F)) :
    (reference up evm order jobs).1.map Prod.fst = jobs := by
  induction jobs using List.reverseRecOn with
  | nil => rfl
  | append_singleton jobs posted ih => rw [reference_snoc, List.map_append, ih]; rfl

end Reference

/-! ### One job on the worker -/

/-- No EVM run of the job panics. -/
def Job.Calm [ToString E] (evm : Evm E) : Job F → Prop
  | .command _ => True
  | .read _ request => ∀ blockEnv, ((request.task (F := F) evm) blockEnv).NoPanic

/-- What `id` holds. -/
def slot (sessions : Sessions F) (id : SessionId) : Option (Session F) :=
  (sessions.lookup id).map Prod.fst

/-- No session is in the middle of a speculative pass. -/
def Quiet (sessions : Sessions F) : Prop :=
  ∀ id st, sessions.lookup id = some st → st.1.readLog = none

theorem slot_insert (sessions : Sessions F) (id : SessionId) (s : Session F) (now : Instant) :
    slot (sessions.insert id (s, now)) id = some s := by
  rw [slot, Finmap.lookup_insert]
  rfl

theorem quiet_insert {sessions : Sessions F} (h : Quiet sessions) (id : SessionId) {s : Session F}
    (hs : s.readLog = none) (now : Instant) : Quiet (sessions.insert id (s, now)) := by
  intro id' st hst
  rcases Map.of_lookup_insert hst with ⟨-, rfl⟩ | hold
  · exact hs
  · exact h id' st hold

theorem quiet_erase {sessions : Sessions F} (h : Quiet sessions) (id : SessionId) :
    Quiet (sessions.erase id) := fun id' st hst => h id' st (Map.of_lookup_erase hst)

/-- `sessions'` is what one job for `id` makes of `sessions`: quiet, and the same elsewhere. -/
structure Handled (sessions : Sessions F) (id : SessionId) (sessions' : Sessions F) : Prop where
  quiet : Quiet sessions'
  frame : ∀ id', id' ≠ id → sessions'.lookup id' = sessions.lookup id'

theorem handled_insert {sessions : Sessions F} (h : Quiet sessions) (id : SessionId) {s : Session F}
    (hs : s.readLog = none) (now : Instant) : Handled sessions id (sessions.insert id (s, now)) :=
  ⟨quiet_insert h id hs now, fun _ hid => Finmap.lookup_insert_of_ne sessions hid⟩

theorem touch_handled {sessions : Sessions F} (h : Quiet sessions) (now : Instant) (id : SessionId)
    (missing : Reply F) {f : Session F → Reply F × Session F}
    (hf : ∀ s, s.readLog = none → (f s).2.readLog = none) :
    Handled sessions id (touch now id missing f sessions).2 ∧
      asked missing f (slot sessions id)
        = ((touch now id missing f sessions).1, slot (touch now id missing f sessions).2 id) := by
  unfold touch slot
  cases hs : sessions.lookup id with
  | none => exact ⟨⟨h, fun _ _ => rfl⟩, by simp [asked, hs]⟩
  | some st =>
    refine ⟨handled_insert h id (hf st.1 (h id st hs)) now, ?_⟩
    simp only [asked, Option.map_some, Finmap.lookup_insert]

/-- A command does to its session what the reference does, and nothing to any other. -/
theorem handleJob_handled (order : HashOrder) (now : Instant) (c : Command F)
    {sessions : Sessions F}
    (h : Quiet sessions) :
    Handled sessions c.sessionId (handleJob order now c sessions).2 ∧
      refCommand order c (slot sessions c.sessionId)
        = ((handleJob order now c sessions).1,
          slot (handleJob order now c sessions).2 c.sessionId) := by
  cases c with
  | fork id base fallback blockEnv seed =>
    cases seed <;>
      exact ⟨handled_insert h id rfl now, by simp [refCommand, handleJob, Command.sessionId,
        slot_insert]⟩
  | state id => exact touch_handled h now id _ fun s hs => hs
  | branch parent => exact touch_handled h now parent _ fun s hs => hs
  | adopt id session =>
    exact ⟨handled_insert h id session.2 now, by
      simp [refCommand, handleJob, Command.sessionId, slot_insert]⟩
  | discard id =>
    refine ⟨⟨quiet_erase h id, fun id' hid => Finmap.lookup_erase_ne hid⟩, ?_⟩
    simp [refCommand, handleJob, Command.sessionId, slot, Finmap.lookup_erase]
  | blockEnvOf id => exact touch_handled h now id _ fun s hs => hs
  | setAccount id address info => exact touch_handled h now id _ fun s hs => hs
  | setStorage id address key value => exact touch_handled h now id _ fun s hs => hs

section Handle

variable [ToString E] [DecidableEq F] {up : F → Upstream E} {evm : Evm E}

/-- ONE JOB: it is done as the reference does it, deferred with its session as it was, and then only
    if it was not run blocking, or it panics and leaves its session the same. -/
theorem handle_ended (order : HashOrder) (now : Instant) (blocking : Bool) {job : Job F}
    {sessions : Sessions F} {fetch : Fetch F} (hquiet : Quiet sessions)
    (hidle : ReadThrough.Idle up fetch) {out : Outcome F} {sessions' : Sessions F}
    {fetch' : Fetch F}
    (hout : handle up evm order now blocking job (sessions, fetch) = (out, sessions', fetch')) :
    Handled sessions job.sessionId sessions' ∧ ReadThrough.Idle up fetch' ∧
      ((∃ reply, out = .done reply ∧ refStep up evm order job (slot sessions job.sessionId)
          = (some reply, slot sessions' job.sessionId)) ∨
        (∃ keys, out = .deferred keys ∧ blocking = false ∧
          slot sessions' job.sessionId = slot sessions job.sessionId) ∨
        (out = .panicked ∧ ¬ job.Calm evm ∧ ∃ s s', slot sessions job.sessionId = some s ∧
          slot sessions' job.sessionId = some s' ∧ Same up s' s)) := by
  cases job with
  | command c =>
    obtain ⟨hhandled, href⟩ := handleJob_handled order now c hquiet
    obtain ⟨rfl, hrest⟩ := Prod.mk.inj hout
    obtain ⟨rfl, rfl⟩ := Prod.mk.inj hrest
    exact ⟨hhandled, hidle, .inl ⟨_, rfl, by simp only [refStep, Job.sessionId, href]⟩⟩
  | read id request =>
    cases hs : sessions.lookup id with
    | none =>
      rw [handle_absent hs] at hout
      obtain ⟨rfl, hrest⟩ := Prod.mk.inj hout
      obtain ⟨rfl, rfl⟩ := Prod.mk.inj hrest
      exact ⟨⟨hquiet, fun _ _ => rfl⟩, hidle, .inl ⟨_, rfl, by
        simp [refStep, Job.sessionId, slot, hs]⟩⟩
    | some st =>
      obtain ⟨s, touched⟩ := st
      have hlog : s.readLog = none := hquiet id _ hs
      obtain ⟨hpassed, hidle'⟩ := pass_passed (request.task (F := F) evm) blocking hlog hidle
      rw [handle_present hs, request_pass] at hout
      rcases hp : (request.task (F := F) evm).pass up blocking (s, fetch) with ⟨p, s', w'⟩
      rw [hp] at hpassed hidle' hout
      obtain ⟨rfl, hrest⟩ := Prod.mk.inj hout
      obtain ⟨rfl, rfl⟩ := Prod.mk.inj hrest
      have hslot : slot sessions id = some s := by rw [slot, hs]; rfl
      cases hpassed with
      | @done outcome _ hserve =>
        have hlog' : s'.readLog = none := by
          have hsame := serve_same (request.task (F := F) evm)
            (⟨rfl, rfl, hlog, hlog⟩ : Same up s s)
          rw [hserve] at hsame
          exact hsame.2.left
        refine ⟨handled_insert hquiet id hlog' now, hidle', .inl ⟨outcome.1, rfl, ?_⟩⟩
        simp only [Job.sessionId, hslot, refStep, hserve, slot_insert, Option.map_some]
      | @missed keys hb =>
        refine ⟨handled_insert hquiet id hlog now, hidle', .inr (.inl ⟨keys, rfl, hb, ?_⟩)⟩
        simp only [Job.sessionId, hslot, slot_insert]
      | unwound hb hpanic =>
        -- rolled back before the panic travels on
        exact ⟨handled_insert hquiet id hlog now, hidle', .inr (.inr ⟨rfl, fun hcalm =>
          hpanic (hcalm _), _, _, hslot, slot_insert .., rfl, rfl, hlog, hlog⟩)⟩
      | panicked hb hserve =>
        have hended : Ended up (request.task (F := F) evm) s ⟨[], [], none, s', w'⟩ :=
          .panicked hserve
        have hsame : Same up s' s := ended_none hended hlog rfl
        refine ⟨handled_insert hquiet id hsame.left now, hidle', .inr (.inr ⟨rfl, fun hcalm => ?_,
          s, s', hslot, slot_insert .., hsame⟩)⟩
        obtain ⟨outcome, s'', hsome⟩ := serve_noPanic up (hcalm s.blockEnv)
        rw [hserve] at hsome
        cases hsome

/-- A calm job does not panic. -/
theorem handle_handled (order : HashOrder) (now : Instant) (blocking : Bool) {job : Job F}
    (hcalm : job.Calm evm) {sessions : Sessions F} {fetch : Fetch F} (hquiet : Quiet sessions)
    (hidle : ReadThrough.Idle up fetch) {out : Outcome F} {sessions' : Sessions F}
    {fetch' : Fetch F}
    (hout : handle up evm order now blocking job (sessions, fetch) = (out, sessions', fetch')) :
    Handled sessions job.sessionId sessions' ∧ ReadThrough.Idle up fetch' ∧
      ((∃ reply, out = .done reply ∧ refStep up evm order job (slot sessions job.sessionId)
          = (some reply, slot sessions' job.sessionId)) ∨
        (∃ keys, out = .deferred keys ∧ blocking = false ∧
          slot sessions' job.sessionId = slot sessions job.sessionId)) := by
  obtain ⟨hhandled, hidle', hdone | hdeferred | ⟨-, hpanic, -⟩⟩ :=
    handle_ended order now blocking hquiet hidle hout
  · exact ⟨hhandled, hidle', .inl hdone⟩
  · exact ⟨hhandled, hidle', .inr hdeferred⟩
  · exact absurd hcalm hpanic

end Handle

/-! ### One session's part of a worker -/

section Invariant

variable [ToString E] (up : F → Upstream E) (evm : Evm E) (order : HashOrder)

/-- One session's part of a worker, with the jobs of it that the worker holds in its hands. -/
structure Consistent (wk : Worker F) (id : SessionId) (hand : List (Posted F)) : Prop where
  served : ∃ done, wk.arrivedOf id = done ++ (hand ++ wk.queued id ++ wk.waiting id) ∧
    reference up evm order done
      = ((wk.answersOf id).map fun a => (a.1, some a.2), slot wk.sessions id)
  owed : wk.owed id = if (wk.blocked.lookup id).isSome then 1 else 0
  parked : ∀ blocked, wk.blocked.lookup id = some blocked →
    blocked.queue ≠ [] ∧ 1 ≤ blocked.rounds ∧ blocked.rounds ≤ maxSpeculativeRounds

/-- What is true of a worker as a whole, whatever it holds in its hands. -/
structure Sound (wk : Worker F) : Prop where
  quiet : Quiet wk.sessions
  idle : ReadThrough.Idle up wk.fetch
  calm : ∀ posted ∈ wk.arrived, posted.job.Calm evm

variable {up evm order} {wk wk' : Worker F} {id : SessionId} {hand : List (Posted F)}

/-- What is done stands for a part of the line, and the reference has done it. -/
theorem consistent_iff : Consistent up evm order wk id hand ↔
    ∃ done, InLine wk id hand done ∧ reference up evm order done
      = ((wk.answersOf id).map fun a => (a.1, some a.2), slot wk.sessions id) := by
  constructor
  · rintro ⟨⟨done, hsplit, href⟩, howed, hparked⟩
    exact ⟨done, ⟨hsplit, howed, hparked⟩, href⟩
  · rintro ⟨done, ⟨hsplit, howed, hparked⟩, href⟩
    exact ⟨⟨done, hsplit, href⟩, howed, hparked⟩

/-- FRAME: a session sees only its own part of the worker. -/
theorem consistent_frame (h : Consistent up evm order wk id hand)
    (harrived : wk'.arrivedOf id = wk.arrivedOf id)
    (hblocked : wk'.blocked.lookup id = wk.blocked.lookup id)
    (hwaiting : wk'.waiting id = wk.waiting id) (hanswers : wk'.answersOf id = wk.answersOf id)
    (hslot : wk'.sessions.lookup id = wk.sessions.lookup id) (howed : wk'.owed id = wk.owed id) :
    Consistent up evm order wk' id hand := by
  obtain ⟨done, hline, href⟩ := consistent_iff.mp h
  refine consistent_iff.mpr ⟨done, inLine_frame hline harrived hblocked hwaiting howed, ?_⟩
  rw [href, hanswers, slot, slot, hslot]

/-- What is in hand is for this session, and calm. -/
theorem hand_mem (h : Consistent up evm order wk id hand) (hsound : Sound up evm wk)
    {posted : Posted F} (hmem : posted ∈ hand) :
    posted.job.sessionId = id ∧ posted.job.Calm evm := by
  obtain ⟨done, hline, -⟩ := consistent_iff.mp h
  obtain ⟨hid, harrived⟩ := inLine_mem hline (List.mem_append_left _ hmem)
  exact ⟨hid, hsound.calm posted harrived⟩

/-- Answering the job in hand as the reference does is one step of the reference. -/
theorem consistent_answer {posted : Posted F} (h : Consistent up evm order wk id (posted :: hand))
    (hid : posted.job.sessionId = id) {reply : Reply F} {sessions : Sessions F}
    (href : refStep up evm order posted.job (slot wk.sessions id)
      = (some reply, slot sessions id)) (fetch : Fetch F) :
    Consistent up evm order { wk with
      sessions := sessions, fetch := fetch, answers := wk.answers ++ [(posted, reply)] } id hand := by
  obtain ⟨done, hline, hdone⟩ := consistent_iff.mp h
  have hnext := inLine_done [posted] hline
  refine consistent_iff.mpr ⟨done ++ [posted], ⟨hnext.split, hnext.owed, hnext.parked⟩, ?_⟩
  rw [reference_snoc, hdone]
  simp only [Worker.answersOf, List.filter_append, List.map_append, href]
  simp [hid]

/-- Parking the job in hand, its queue behind it, owes the session one `unblock`. -/
theorem consistent_park {posted : Posted F} (h : Consistent up evm order wk id (posted :: hand))
    (hnone : wk.blocked.lookup id = none) {rounds : ℕ} (hrounds : rounds < maxSpeculativeRounds)
    (spawns : Bool) (keys : List StateKey) :
    Consistent up evm order (wk.park spawns posted keys ⟨hand, rounds⟩) id [] := by
  obtain ⟨done, hline, href⟩ := consistent_iff.mp h
  refine consistent_iff.mpr ⟨done, inLine_park hline hnone hrounds spawns keys, ?_⟩
  cases spawns <;> exact href

/-- Parking a job of another session is none of this session's business. -/
theorem consistent_park_other (h : Consistent up evm order wk id hand) {posted : Posted F}
    (hid : id ≠ posted.job.sessionId) (spawns : Bool) (keys : List StateKey) (blocked : Blocked F) :
    Consistent up evm order (wk.park spawns posted keys blocked) id hand := by
  obtain ⟨done, hline, href⟩ := consistent_iff.mp h
  refine consistent_iff.mpr ⟨done, inLine_park_other hline hid spawns keys blocked, ?_⟩
  cases spawns <;> exact href

/-- Every session's part is consistent, with `hand` in the worker's hands for `id` and nothing for
    any other. -/
def AllConsistent (up : F → Upstream E) (evm : Evm E) (order : HashOrder) (wk : Worker F)
    (id : SessionId) (hand : List (Posted F)) : Prop :=
  ∀ id', Consistent up evm order wk id' (if id' = id then hand else [])

theorem allConsistent_hand (h : AllConsistent up evm order wk id hand) :
    Consistent up evm order wk id hand := by
  have hhand := h id
  rwa [if_pos rfl] at hhand

theorem allConsistent_other (h : AllConsistent up evm order wk id hand) {id' : SessionId}
    (hid : id' ≠ id) : Consistent up evm order wk id' [] := by
  have hother := h id'
  rwa [if_neg hid] at hother

theorem allConsistent_empty : AllConsistent up evm order wk id [] ↔
    ∀ id', Consistent up evm order wk id' [] :=
  forall_congr' fun id' => by rw [ite_self]

variable [DecidableEq F]

/-- DRAINING: run from any queue in hand, with its session not parked, the worker ends with nothing
    in hand and every session consistent. -/
theorem drain_consistent (now : Instant) (spawns : Bool) : ∀ (queue : List (Posted F)) (rounds : ℕ)
    (blocking : Bool) (wk : Worker F), Sound up evm wk → AllConsistent up evm order wk id queue →
    wk.blocked.lookup id = none → (blocking = false → rounds < maxSpeculativeRounds) →
    Sound up evm (Worker.drain up evm order now spawns queue rounds blocking wk) ∧
      ∀ id', Consistent up evm order
        (Worker.drain up evm order now spawns queue rounds blocking wk) id' []
  | [], _, _, wk, hsound, hall, _, _ => ⟨hsound, allConsistent_empty.mp hall⟩
  | posted :: queue, rounds, blocking, wk, hsound, hall, hnone, hrounds => by
    have hhand := allConsistent_hand hall
    obtain ⟨hid, hcalm⟩ := hand_mem hhand hsound (List.mem_cons_self (l := queue))
    rcases hout : handle up evm order now blocking posted.job (wk.sessions, wk.fetch) with
      ⟨out, sessions, fetch⟩
    obtain ⟨hhandled, hidle, hdone | hdeferred⟩ :=
      handle_handled order now blocking hcalm hsound.quiet hsound.idle hout
    · obtain ⟨reply, rfl, href⟩ := hdone
      rw [hid] at href
      simp only [Worker.drain, hout]
      refine drain_consistent now spawns queue 0 false _ ⟨hhandled.quiet, hidle, hsound.calm⟩ ?_
        hnone fun _ => by decide
      intro id'
      by_cases hid' : id' = id
      · rw [if_pos hid', hid']
        exact consistent_answer hhand hid href fetch
      · rw [if_neg hid']
        refine consistent_frame (allConsistent_other hall hid') rfl rfl rfl ?_
          (hhandled.frame id' (hid ▸ hid')) rfl
        simp [Worker.answersOf, hid, Ne.symm hid']
    · obtain ⟨keys, rfl, hb, hslot⟩ := hdeferred
      rw [hid] at hslot
      have hstay : ∀ id' hand', Consistent up evm order wk id' hand' →
          Consistent up evm order { wk with sessions := sessions, fetch := fetch } id' hand' := by
        intro id' hand' hc
        obtain ⟨⟨done, hsplit, href⟩, howed, hparked⟩ := hc
        refine ⟨⟨done, hsplit, href.trans ?_⟩, howed, hparked⟩
        have hsame : slot wk.sessions id' = slot sessions id' := by
          by_cases hid' : id' = id
          · rw [hid', hslot]
          · rw [slot, slot, hhandled.frame id' (hid ▸ hid')]
        rw [hsame]
        rfl
      simp only [Worker.drain, hout]
      refine ⟨?_, fun id' => ?_⟩
      · cases spawns <;> exact ⟨hhandled.quiet, hidle, hsound.calm⟩
      · by_cases hid' : id' = id
        · rw [hid']
          exact consistent_park (hstay id _ hhand) hnone (hrounds hb) spawns keys
        · exact consistent_park_other (hstay id' _ (allConsistent_other hall hid')) (hid ▸ hid')
            spawns keys _

/-! ### Whole runs -/

/-- A worker between two events. -/
structure Steady (up : F → Upstream E) (evm : Evm E) (order : HashOrder) (wk : Worker F) :
    Prop where
  sound : Sound up evm wk
  consistent : ∀ id, Consistent up evm order wk id []

variable (order) in
omit [DecidableEq F] in
theorem steady_start {fetch : Fetch F} (hidle : ReadThrough.Idle up fetch) :
    Steady up evm order (.start fetch) where
  sound := ⟨fun id st h => by simp [Worker.start] at h, hidle, fun posted h => by
    simp [Worker.start] at h⟩
  consistent id := ⟨⟨[], rfl, rfl⟩, rfl, fun blocked h => by simp [Worker.start] at h⟩

omit [DecidableEq F] in
/-- A job posted stands last among those waiting. -/
theorem steady_post (h : Steady up evm order wk) {posted : Posted F} (hcalm : posted.job.Calm evm) :
    Steady up evm order { wk with
      inbox := wk.inbox ++ [.job posted], arrived := wk.arrived ++ [posted] } := by
  refine ⟨⟨h.sound.quiet, h.sound.idle, fun p hp => ?_⟩, fun id => ?_⟩
  · rcases List.mem_append.mp hp with hp | hp
    · exact h.sound.calm p hp
    · rw [List.mem_singleton.mp hp]; exact hcalm
  · obtain ⟨done, hline, href⟩ := consistent_iff.mp (h.consistent id)
    exact consistent_iff.mpr ⟨done, inLine_post hline posted, href⟩

omit [DecidableEq F] in
theorem sound_take (h : Sound up evm wk) (inbox : List (Message F)) (landed : Landed up) :
    Sound up evm (wk.take inbox landed) :=
  ⟨h.quiet, idle_landed h.idle landed, h.calm⟩

/-- Taking a job leaves it in hand, or at the end of the queue it must wait in. -/
theorem steady_job (h : Steady up evm order wk) {posted : Posted F} {inbox : List (Message F)}
    (hinbox : wk.inbox = .job posted :: inbox) (now : Instant) (landed : Landed up)
    (spawns : Bool) :
    Steady up evm order (Worker.accept up evm order now spawns (.job posted)
      (wk.take inbox landed)) := by
  cases hb : wk.blocked.lookup posted.job.sessionId with
  | none =>
    rw [accept_job up evm order (wk.take inbox landed) now spawns hb]
    have hall : AllConsistent up evm order (wk.take inbox landed) posted.job.sessionId
        [posted] := by
      intro id
      obtain ⟨done, hline, href⟩ := consistent_iff.mp (h.consistent id)
      exact consistent_iff.mpr ⟨done, inLine_take_job hinbox hb landed hline, href⟩
    obtain ⟨hsound, hconsistent⟩ := drain_consistent now spawns [posted] 0 false _
      (sound_take h.sound inbox landed) hall hb fun _ => by decide
    exact ⟨hsound, hconsistent⟩
  | some blocked =>
    have hlookup : (wk.take inbox landed).blocked.lookup posted.job.sessionId = some blocked := hb
    simp only [Worker.accept, hlookup]
    refine ⟨⟨h.sound.quiet, idle_landed h.sound.idle landed, h.sound.calm⟩, fun id => ?_⟩
    obtain ⟨done, hline, href⟩ := consistent_iff.mp (h.consistent id)
    exact consistent_iff.mpr ⟨done, inLine_enqueue hinbox hb landed hline, href⟩

/-- An `unblock` that arrives is the one its session is owed. -/
theorem steady_unblock (h : Steady up evm order wk) {id : SessionId} {failed : Bool}
    {inbox : List (Message F)} (hinbox : wk.inbox = .unblock id failed :: inbox) (now : Instant)
    (landed : Landed up) (spawns : Bool) :
    Steady up evm order (Worker.accept up evm order now spawns (.unblock id failed)
      (wk.take inbox landed)) := by
  obtain ⟨done, hline, -⟩ := consistent_iff.mp (h.consistent id)
  obtain ⟨blocked, hb⟩ := unblock_parked hinbox hline
  have hlookup : (wk.take inbox landed).blocked.lookup id = some blocked := hb
  simp only [Worker.accept, Worker.unblock, hlookup]
  have hall : AllConsistent up evm order
      { wk.take inbox landed with blocked := (wk.take inbox landed).blocked.erase id } id
      blocked.queue := by
    intro id'
    obtain ⟨done', hline', href'⟩ := consistent_iff.mp (h.consistent id')
    exact consistent_iff.mpr ⟨done', inLine_unblock hinbox hb landed hline', href'⟩
  obtain ⟨hsound, hconsistent⟩ := drain_consistent now spawns blocked.queue blocked.rounds
    (failed || decide (maxSpeculativeRounds ≤ blocked.rounds))
    { wk.take inbox landed with blocked := (wk.take inbox landed).blocked.erase id }
    ⟨h.sound.quiet, idle_landed h.sound.idle landed, h.sound.calm⟩ hall (Finmap.lookup_erase ..)
    rounds_left
  exact ⟨hsound, hconsistent⟩

omit [DecidableEq F] in
/-- A resolver that ends passes on the `unblock` it owed. -/
theorem steady_resolved (h : Steady up evm order wk) {i : ℕ} {resolver : Resolving F}
    (hi : wk.resolving[i]? = some resolver) (failed : Bool) :
    Steady up evm order { wk with
      resolving := wk.resolving.eraseIdx i
      inbox := wk.inbox ++ [.unblock resolver.id failed] } := by
  refine ⟨⟨h.sound.quiet, h.sound.idle, h.sound.calm⟩, fun id => ?_⟩
  obtain ⟨done, hline, href⟩ := consistent_iff.mp (h.consistent id)
  exact consistent_iff.mpr ⟨done, inLine_resolved hi failed hline, href⟩

/-- STEP LEMMA: every event leaves a steady worker steady. -/
theorem steady_step (h : Steady up evm order wk) (event : Event up)
    (hcalm : ∀ posted, event = .post posted → posted.job.Calm evm) :
    Steady up evm order (Worker.step up evm order event wk) := by
  cases event with
  | post posted => exact steady_post h (hcalm posted rfl)
  | work now landed spawns =>
    simp only [Worker.step]
    cases hinbox : wk.inbox with
    | nil => exact h
    | cons message inbox =>
      cases message with
      | job posted => exact steady_job h hinbox now landed spawns
      | unblock id failed => exact steady_unblock h hinbox now landed spawns
  | resolved i failed =>
    simp only [Worker.step]
    cases hi : wk.resolving[i]? with
    | none => exact h
    | some resolver => exact steady_resolved h hi _

/-- RUN LEMMA: a worker is steady between any two events of any run. -/
theorem steady_run (events : List (Event up)) {wk : Worker F} (h : Steady up evm order wk)
    (hcalm : ∀ posted, .post posted ∈ events → posted.job.Calm evm) :
    Steady up evm order (Worker.run up evm order events wk) :=
  runAll_inv_of (P := Steady up evm order) (fun _ event h hknown => steady_step h event hknown) wk
    events h fun _ hmem posted hp => hcalm posted (hp ▸ hmem)

/-! ### The main result -/

/-- To session `id` the worker is the reference machine: of the jobs that arrived for it a first
    part is answered, each once, in order and as the reference does, and the rest still stand in
    line; it is parked iff it is owed exactly one `unblock`, and nothing is left over once no
    message and no resolver is. -/
structure Serial (up : F → Upstream E) (evm : Evm E) (order : HashOrder) (wk : Worker F)
    (id : SessionId) : Prop where
  inOrder : ∃ done, wk.arrivedOf id = done ++ (wk.queued id ++ wk.waiting id) ∧
    (wk.answersOf id).map (fun a => (a.1, some a.2)) = (reference up evm order done).1 ∧
    slot wk.sessions id = (reference up evm order done).2
  parked_iff : (wk.blocked.lookup id).isSome ↔ wk.owed id = 1
  owed_le : wk.owed id ≤ 1
  rounds_le : ∀ blocked, wk.blocked.lookup id = some blocked →
    blocked.queue ≠ [] ∧ blocked.rounds ≤ maxSpeculativeRounds
  settled : wk.inbox = [] → wk.resolving = [] →
    (wk.answersOf id).map (fun a => (a.1, some a.2)) = (reference up evm order (wk.arrivedOf id)).1

omit [DecidableEq F] in
theorem steady_serial (h : Steady up evm order wk) (id : SessionId) :
    Serial up evm order wk id := by
  obtain ⟨⟨done, hsplit, href⟩, howed, hparked⟩ := h.consistent id
  rw [List.nil_append] at hsplit
  refine ⟨⟨done, hsplit, by rw [href], by rw [href]⟩, ?_, ?_, fun blocked hb =>
    ⟨(hparked blocked hb).1, (hparked blocked hb).2.2⟩, fun hinbox hresolving => ?_⟩
  · rw [howed]
    cases (wk.blocked.lookup id).isSome <;> simp
  · rw [howed]
    cases (wk.blocked.lookup id).isSome <;> simp
  · have hnone : wk.blocked.lookup id = none := by
      rw [Worker.owed, hinbox, hresolving] at howed
      cases hb : wk.blocked.lookup id with
      | none => rfl
      | some blocked => rw [hb] at howed; simp at howed
    rw [Worker.queued, hnone, Worker.waiting, hinbox] at hsplit
    rw [hsplit]
    simp [href]

omit [DecidableEq F] in
/-- What two workers answer a session that was sent the same jobs differs in length only. -/
theorem serial_compatible (h : Serial up evm order wk id) (h' : Serial up evm order wk' id)
    (hsame : wk'.arrivedOf id = wk.arrivedOf id) :
    wk.answersOf id <+: wk'.answersOf id ∨ wk'.answersOf id <+: wk.answersOf id := by
  have hinj : Function.Injective fun a : Posted F × Reply F => (a.1, some a.2) := by
    rintro ⟨p, r⟩ ⟨p', r'⟩ heq
    obtain ⟨hp, hr⟩ := Prod.mk.inj heq
    exact Prod.ext hp (Option.some.inj hr)
  obtain ⟨done, hsplit, href, -⟩ := h.inOrder
  obtain ⟨done', hsplit', href', -⟩ := h'.inOrder
  have hpre := reference_append up evm order done (wk.queued id ++ wk.waiting id)
  have hpre' := reference_append up evm order done' (wk'.queued id ++ wk'.waiting id)
  rw [← hsplit, ← href] at hpre
  rw [← hsplit', hsame, ← href'] at hpre'
  exact (List.prefix_or_prefix_of_prefix hpre hpre').imp
    (List.prefix_map_iff_of_injective hinj).mp (List.prefix_map_iff_of_injective hinj).mp

/-- CORRECT: in every run of a worker without a panicking job (any jobs in any order, any resolves
    at any time, anything landing in the caches) each session is served as by a machine of its own;
    and any other run that sends `id` the same jobs, such as this one without all other sessions'
    jobs, gives it the same replies. -/
theorem worker_serial {fetch fetch' : Fetch F} (hidle : ReadThrough.Idle up fetch)
    (hidle' : ReadThrough.Idle up fetch') (events events' : List (Event up))
    (hcalm : ∀ posted, .post posted ∈ events → posted.job.Calm evm)
    (hcalm' : ∀ posted, .post posted ∈ events' → posted.job.Calm evm) (id : SessionId) :
    Serial up evm order (Worker.run up evm order events (.start fetch)) id ∧
      ((Worker.run up evm order events' (.start fetch')).arrivedOf id
          = (Worker.run up evm order events (.start fetch)).arrivedOf id →
        (Worker.run up evm order events (.start fetch)).answersOf id
            <+: (Worker.run up evm order events' (.start fetch')).answersOf id ∨
          (Worker.run up evm order events' (.start fetch')).answersOf id
            <+: (Worker.run up evm order events (.start fetch)).answersOf id) := by
  have hserial := steady_serial (steady_run events (steady_start order hidle) hcalm) id
  have hserial' :=
    steady_serial (steady_run events' (steady_start order hidle') hcalm') id
  exact ⟨hserial, serial_compatible hserial hserial'⟩

end Invariant

/-- A session is forked and a slot of it read, once alone and once next to another session. -/
def alone : List (Event fun _ : Unit => Upstream.vacant "missing") :=
  [.post ⟨.command (.fork 1 .empty () ⟨1, 0, 0, 30000000⟩ none), 0⟩, .work 0 .nothing true,
    .post ⟨.read 1 (.storage 0xa 7), 1⟩, .work 1 .nothing true, .resolved 0 true,
    .work 2 .nothing true]

def together : List (Event fun _ : Unit => Upstream.vacant "missing") :=
  .post ⟨.command (.fork 2 .empty () ⟨1, 0, 0, 30000000⟩ none), 2⟩ :: alone

theorem worker_serial_alone :
    let up := fun _ : Unit => Upstream.vacant "missing"
    let evm : Evm String := fun _ _ _ => .panic
    Serial up evm .some (Worker.run up evm .some together (.start .cold)) 1 ∧
      ((Worker.run up evm .some together (.start .cold)).answersOf 1
          <+: (Worker.run up evm .some alone (.start .cold)).answersOf 1 ∨
        (Worker.run up evm .some alone (.start .cold)).answersOf 1
          <+: (Worker.run up evm .some together (.start .cold)).answersOf 1) := by
  intro up evm
  have hread : Job.Calm (F := Unit) evm (.read 1 (.storage 0xa 7)) := fun _ =>
    Tree.noPanic_map (Tree.noPanic_map (Tree.noPanic_map fun _ => trivial))
  have halone : ∀ posted, .post posted ∈ alone → posted.job.Calm evm := by
    intro posted h
    simp only [alone, List.mem_cons, List.not_mem_nil, reduceCtorEq, Event.post.injEq, or_false,
      false_or] at h
    rcases h with rfl | rfl
    · exact trivial
    · exact hread
  have htogether : ∀ posted, .post posted ∈ together → posted.job.Calm evm := by
    intro posted h
    rcases List.mem_cons.mp h with h | h
    · rw [Event.post.inj h]; exact trivial
    · exact halone posted h
  obtain ⟨hserial, hsame⟩ := worker_serial (ReadThrough.idle_cold up) (ReadThrough.idle_cold up)
    together alone htogether halone 1
  exact ⟨hserial, hsame rfl⟩

end Forkyard
