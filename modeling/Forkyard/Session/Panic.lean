import Forkyard.Schemes.Steps
import Forkyard.Session.Alike

/-! What a panic costs. A job that panics in a pass, speculative or blocking, is never answered, and
    its session stays the same. The panic ends at the message the worker was on: a job out of the
    inbox was alone in its hands, but an `unblock` had put its session's whole queue there, and what
    stood behind the panicking job is dropped unanswered.

        inbox ──job──▶ ✗
        inbox ──unblock──▶ answered … ✗ … dropped -/

namespace Forkyard

open Schemes

variable {F E : Type}

/-- A worker, and the jobs that panicked on it so far, in order. -/
structure Toll (F : Type) where
  worker : Worker F
  panicked : List (Posted F)

def Toll.start (fetch : Fetch F) : Toll F := ⟨.start fetch, []⟩

/-- The session's jobs among those that panicked. -/
def Toll.panickedOf (toll : Toll F) (id : SessionId) : List (Posted F) :=
  toll.panicked.filter fun posted => posted.job.sessionId = id

section Steps

variable [ToString E] [DecidableEq F] (up : F → Upstream E) (evm : Evm E) (order : HashOrder)

/-- The job that panics while a queue is drained, and the rest of the queue behind it. -/
def strikes (now : Instant) : List (Posted F) → Bool → Sessions F × Fetch F →
    Option (Posted F × List (Posted F))
  | [], _, _ => none
  | posted :: queue, blocking, sw =>
    match handle up evm order now blocking posted.job sw with
    | (.done _, sw) => strikes now queue false sw
    | (.deferred _, _) => none
    | (.panicked, _) => some (posted, queue)

/-- The job that panics when the worker takes its next message, and what stands behind it in the
    worker's hands. -/
def Worker.struck (event : Event up) (wk : Worker F) : Option (Posted F × List (Posted F)) :=
  match event, wk.inbox with
  | .work now landed _, .job posted :: _ =>
    match wk.blocked.lookup posted.job.sessionId with
    | some _ => none
    | none => strikes up evm order now [posted] false
      (wk.sessions, { wk.fetch with landed := landed.1 })
  | .work now landed _, .unblock id failed :: _ =>
    match wk.blocked.lookup id with
    | some blocked => strikes up evm order now blocked.queue
      (failed || decide (maxSpeculativeRounds ≤ blocked.rounds))
      (wk.sessions, { wk.fetch with landed := landed.1 })
    | none => none
  | _, _ => none

def Toll.step (toll : Toll F) (event : Event up) : Toll F :=
  ⟨Worker.step up evm order event toll.worker,
    toll.panicked ++ (toll.worker.struck up evm order event).toList.map Prod.fst⟩

/-- No panic strikes with later jobs of its session in the worker's hands. -/
def Toll.Unaccompanied (toll : Toll F) (event : Event up) : Prop :=
  ∀ posted behind, toll.worker.struck up evm order event = some (posted, behind) → behind = []

end Steps

/-! ### Fates -/

/-- Of the jobs that are done with, each with whether it panicked: those that did not, -/
def survivors (fates : List (Posted F × Bool)) : List (Posted F) :=
  (fates.filter fun fate => !fate.2).map Prod.fst

/-- and those that did. -/
def casualties (fates : List (Posted F × Bool)) : List (Posted F) :=
  (fates.filter fun fate => fate.2).map Prod.fst

/-- A reply given, and the reference's to the same job. -/
def AnsweredAlike (up : F → Upstream E) (order : HashOrder) (a : Posted F × Reply F)
    (b : Posted F × Option (Reply F)) : Prop :=
  a.1 = b.1 ∧ ∃ reply, b.2 = some reply ∧ a.2.Alike up order reply

/-- Of the jobs that arrived for `id` a first part is done with: some of it panicked, each of the
    others is answered, in order and as if those had never been, and so is the session. The rest
    still stands in line, with nothing left over once no message and no resolver is. -/
structure Contained [ToString E] (up : F → Upstream E) (evm : Evm E) (order : HashOrder)
    (toll : Toll F) (id : SessionId) : Prop where
  inOrder : ∃ fates, toll.worker.arrivedOf id
      = fates.map Prod.fst ++ (toll.worker.queued id ++ toll.worker.waiting id) ∧
    toll.panickedOf id = casualties fates ∧
    List.Forall₂ (AnsweredAlike up order) (toll.worker.answersOf id)
      (reference up evm order (survivors fates)).1 ∧
    SameSlot up (slot toll.worker.sessions id) (reference up evm order (survivors fates)).2
  parked_iff : (toll.worker.blocked.lookup id).isSome ↔ toll.worker.owed id = 1
  settled : toll.worker.inbox = [] → toll.worker.resolving = [] →
    toll.worker.queued id = [] ∧ toll.worker.waiting id = []

theorem survivors_snoc (fates : List (Posted F × Bool)) (posted : Posted F) (struck : Bool) :
    survivors (fates ++ [(posted, struck)])
      = survivors fates ++ if struck then [] else [posted] := by
  cases struck <;> simp [survivors]

theorem casualties_snoc (fates : List (Posted F × Bool)) (posted : Posted F) (struck : Bool) :
    casualties (fates ++ [(posted, struck)])
      = casualties fates ++ if struck then [posted] else [] := by
  cases struck <;> simp [casualties]

theorem fates_length (fates : List (Posted F × Bool)) :
    fates.length = (survivors fates).length + (casualties fates).length := by
  induction fates with
  | nil => rfl
  | cons fate fates ih =>
    obtain ⟨posted, struck⟩ := fate
    simp only [survivors, casualties, List.length_map] at ih ⊢
    cases struck <;> simp [ih] <;> omega

/-! ### The invariant -/

section Invariant

variable [ToString E] (up : F → Upstream E) (evm : Evm E) (order : HashOrder)

/-- What is true of the worker as a whole, whatever it holds in its hands. -/
structure Able (wk : Worker F) : Prop where
  quiet : Quiet wk.sessions
  idle : ReadThrough.Idle up wk.fetch

/-- One session's part, with the jobs of it that the worker holds in its hands and the fates of
    those it is done with. -/
structure Fated (toll : Toll F) (id : SessionId) (hand : List (Posted F))
    (fates : List (Posted F × Bool)) : Prop where
  line : InLine toll.worker id hand (fates.map Prod.fst)
  panicked : toll.panickedOf id = casualties fates
  answers : List.Forall₂ (AnsweredAlike up order) (toll.worker.answersOf id)
    (reference up evm order (survivors fates)).1
  same : SameSlot up (slot toll.worker.sessions id) (reference up evm order (survivors fates)).2

/-- Every session's part, with `hand` in the worker's hands for `id` and nothing for any other. -/
def AllFated (toll : Toll F) (id : SessionId) (hand : List (Posted F)) : Prop :=
  ∀ id', ∃ fates, Fated up evm order toll id' (if id' = id then hand else []) fates

variable {up evm order} {wk wk' : Worker F} {panicked : List (Posted F)} {id : SessionId}
  {hand : List (Posted F)} {fates : List (Posted F × Bool)} {posted : Posted F}

/-- The job in hand is answered as the reference does on a session that is the same. -/
theorem fated_answer (h : Fated up evm order ⟨wk, panicked⟩ id (posted :: hand) fates)
    {reply : Reply F} {sessions : Sessions F}
    (href : refStep up evm order posted.job (slot wk.sessions id) = (some reply, slot sessions id))
    (fetch : Fetch F) :
    Fated up evm order ⟨{ wk with
      sessions := sessions, fetch := fetch, answers := wk.answers ++ [(posted, reply)] }, panicked⟩ id
      hand (fates ++ [(posted, false)]) := by
  have hid : posted.job.sessionId = id := (inLine_mem h.line List.mem_cons_self).1
  obtain ⟨halike, hsame⟩ := refStep_alike evm order posted.job h.same
  obtain ⟨reply', hreply', halike⟩ := halike reply (by rw [href])
  have hline := inLine_done [posted] h.line
  have hsurvivors : survivors (fates ++ [(posted, false)]) = survivors fates ++ [posted] :=
    survivors_snoc fates posted false
  refine ⟨⟨?_, hline.owed, hline.parked⟩, ?_, ?_, ?_⟩
  · rw [List.map_append]
    exact hline.split
  · rw [casualties_snoc]
    exact h.panicked.trans (List.append_nil _).symm
  · have hanswers : Worker.answersOf { wk with
        sessions := sessions, fetch := fetch, answers := wk.answers ++ [(posted, reply)] } id
          = wk.answersOf id ++ [(posted, reply)] := by
      simp [Worker.answersOf, hid]
    rw [hsurvivors, reference_snoc, hanswers]
    exact List.rel_append h.answers (.cons ⟨rfl, reply', hreply', halike⟩ .nil)
  · rw [href] at hsame
    rw [hsurvivors, reference_snoc]
    exact hsame

/-- The job in hand panics, and leaves its session the same. -/
theorem fated_struck (h : Fated up evm order ⟨wk, panicked⟩ id [posted] fates)
    {sessions : Sessions F} (hsame : SameSlot up (slot sessions id) (slot wk.sessions id))
    (fetch : Fetch F) :
    Fated up evm order ⟨{ wk with sessions := sessions, fetch := fetch }, panicked ++ [posted]⟩ id []
      (fates ++ [(posted, true)]) := by
  have hid : posted.job.sessionId = id := (inLine_mem h.line List.mem_cons_self).1
  have hline := inLine_done [posted] h.line
  have hsurvivors : survivors (fates ++ [(posted, true)]) = survivors fates := by
    rw [survivors_snoc, if_pos rfl, List.append_nil]
  refine ⟨⟨?_, hline.owed, hline.parked⟩, ?_, ?_, ?_⟩
  · rw [List.map_append]
    exact hline.split
  · have hpanicked := h.panicked
    simp only [Toll.panickedOf] at hpanicked ⊢
    rw [casualties_snoc, List.filter_append, hpanicked]
    simp [hid]
  · rw [hsurvivors]
    exact h.answers
  · rw [hsurvivors]
    exact sameSlot_trans hsame h.same

/-- FRAME: a session sees only its own part, whatever of it is put from hand to queue or back. -/
theorem fated_frame {hand' : List (Posted F)} (h : Fated up evm order ⟨wk, panicked⟩ id hand fates)
    (hline : InLine wk' id hand' (fates.map Prod.fst))
    (hanswers : wk'.answersOf id = wk.answersOf id)
    (hslot : slot wk'.sessions id = slot wk.sessions id) {more : List (Posted F)}
    (hmore : ∀ posted ∈ more, posted.job.sessionId ≠ id) :
    Fated up evm order ⟨wk', panicked ++ more⟩ id hand' fates := by
  refine ⟨hline, ?_, by rw [hanswers]; exact h.answers, by rw [hslot]; exact h.same⟩
  have hnone : more.filter (fun posted => posted.job.sessionId = id) = [] := by
    rw [List.filter_eq_nil_iff]
    exact fun posted hmem => by simpa using hmore posted hmem
  have hpanicked := h.panicked
  simp only [Toll.panickedOf] at hpanicked ⊢
  rw [List.filter_append, hnone, List.append_nil, hpanicked]

theorem allFated_hand {toll : Toll F} (h : AllFated up evm order toll id hand) :
    ∃ fates, Fated up evm order toll id hand fates := by
  have hhand := h id
  rwa [if_pos rfl] at hhand

theorem allFated_other {toll : Toll F} (h : AllFated up evm order toll id hand) {id' : SessionId}
    (hid : id' ≠ id) : ∃ fates, Fated up evm order toll id' [] fates := by
  have hother := h id'
  rwa [if_neg hid] at hother

theorem allFated_empty {toll : Toll F} : AllFated up evm order toll id [] ↔
    ∀ id', ∃ fates, Fated up evm order toll id' [] fates :=
  forall_congr' fun id' => by rw [ite_self]

variable [DecidableEq F]

/-- DRAINING: from any queue in hand, where a panic strikes only the last of it, the worker ends
    with nothing in hand and every job of the queue answered, parked or struck. -/
theorem drain_fated (now : Instant) (spawns : Bool) : ∀ (queue : List (Posted F)) (rounds : ℕ)
    (blocking : Bool) (wk : Worker F), Able up wk → AllFated up evm order ⟨wk, panicked⟩ id queue →
    wk.blocked.lookup id = none → (blocking = false → rounds < maxSpeculativeRounds) →
    (∀ posted behind, strikes up evm order now queue blocking (wk.sessions, wk.fetch)
      = some (posted, behind) → behind = []) →
    Able up (Worker.drain up evm order now spawns queue rounds blocking wk) ∧
      ∀ id', ∃ fates, Fated up evm order
        ⟨Worker.drain up evm order now spawns queue rounds blocking wk, panicked ++
          (strikes up evm order now queue blocking (wk.sessions, wk.fetch)).toList.map Prod.fst⟩
        id' [] fates
  | [], _, _, wk, hable, hall, _, _, _ => by
    simp only [Worker.drain, strikes, Option.toList_none, List.map_nil, List.append_nil]
    exact ⟨hable, allFated_empty.mp hall⟩
  | posted :: queue, rounds, blocking, wk, hable, hall, hnone, hrounds, halone => by
    obtain ⟨fates, hhand⟩ := allFated_hand hall
    have hid : posted.job.sessionId = id := (inLine_mem hhand.line List.mem_cons_self).1
    rcases hout : handle up evm order now blocking posted.job (wk.sessions, wk.fetch) with
      ⟨out, sessions, fetch⟩
    obtain ⟨hhandled, hidle, hdone | hdeferred | hpanicked⟩ :=
      handle_ended order now blocking hable.quiet hable.idle hout
    · obtain ⟨reply, rfl, href⟩ := hdone
      rw [hid] at href
      simp only [strikes, hout] at halone ⊢
      simp only [Worker.drain, hout]
      refine drain_fated now spawns queue 0 false _ ⟨hhandled.quiet, hidle⟩ ?_ hnone
        (fun _ => by decide) halone
      intro id'
      by_cases hid' : id' = id
      · rw [if_pos hid', hid']
        exact ⟨_, fated_answer hhand href fetch⟩
      · rw [if_neg hid']
        obtain ⟨fates', hother⟩ := allFated_other hall hid'
        refine ⟨fates', ?_⟩
        have hline : InLine { wk with
            sessions := sessions, fetch := fetch, answers := wk.answers ++ [(posted, reply)] } id' []
            (fates'.map Prod.fst) := ⟨hother.line.split, hother.line.owed, hother.line.parked⟩
        rw [← List.append_nil panicked]
        refine fated_frame hother hline ?_ ?_ fun _ hmem => absurd hmem List.not_mem_nil
        · simp [Worker.answersOf, hid, Ne.symm hid']
        · rw [slot, slot, hhandled.frame id' (hid ▸ hid')]
    · obtain ⟨keys, rfl, hb, hslot⟩ := hdeferred
      rw [hid] at hslot
      simp only [strikes, hout, Worker.drain, Option.toList_none, List.map_nil]
      refine ⟨?_, fun id' => ?_⟩
      · cases spawns <;> exact ⟨hhandled.quiet, hidle⟩
      · set wk₁ : Worker F := { wk with sessions := sessions, fetch := fetch }
        have hanswers : (wk₁.park spawns posted keys ⟨queue, rounds⟩).answersOf id'
            = wk.answersOf id' := by
          cases spawns <;> rfl
        have hsessions : (wk₁.park spawns posted keys ⟨queue, rounds⟩).sessions = sessions := by
          cases spawns <;> rfl
        by_cases hid' : id' = id
        · subst hid'
          have hline : InLine wk₁ id' (posted :: queue) (fates.map Prod.fst) :=
            ⟨hhand.line.split, hhand.line.owed, hhand.line.parked⟩
          exact ⟨fates, fated_frame hhand (inLine_park hline hnone (hrounds hb) spawns keys)
            hanswers (by rw [hsessions, hslot]) fun _ hmem => absurd hmem List.not_mem_nil⟩
        · obtain ⟨fates', hother⟩ := allFated_other hall hid'
          have hline : InLine wk₁ id' [] (fates'.map Prod.fst) :=
            ⟨hother.line.split, hother.line.owed, hother.line.parked⟩
          refine ⟨fates', fated_frame hother (inLine_park_other hline (hid ▸ hid') spawns keys _)
            hanswers ?_ fun _ hmem => absurd hmem List.not_mem_nil⟩
          rw [hsessions, slot, slot, hhandled.frame id' (hid ▸ hid')]
    · obtain ⟨rfl, -, s, s', hs, hs', hsame⟩ := hpanicked
      rw [hid] at hs hs'
      simp only [strikes, hout] at halone ⊢
      obtain rfl : queue = [] := halone posted queue rfl
      simp only [Worker.drain, hout, Option.toList_some, List.map_cons, List.map_nil]
      refine ⟨⟨hhandled.quiet, hidle⟩, fun id' => ?_⟩
      by_cases hid' : id' = id
      · subst hid'
        have hslots : SameSlot up (slot sessions id') (slot wk.sessions id') := by
          rw [hs, hs']
          exact hsame
        exact ⟨_, fated_struck hhand hslots fetch⟩
      · obtain ⟨fates', hother⟩ := allFated_other hall hid'
        have hline : InLine { wk with sessions := sessions, fetch := fetch } id' []
            (fates'.map Prod.fst) := ⟨hother.line.split, hother.line.owed, hother.line.parked⟩
        refine ⟨fates', fated_frame hother hline rfl ?_ ?_⟩
        · rw [slot, slot, hhandled.frame id' (hid ▸ hid')]
        · rintro p hmem
          obtain rfl := List.mem_singleton.mp hmem
          exact hid ▸ Ne.symm hid'

/-! ### Whole runs -/

/-- A worker between two events. -/
structure Bearing (up : F → Upstream E) (evm : Evm E) (order : HashOrder) (toll : Toll F) :
    Prop where
  able : Able up toll.worker
  fated : ∀ id, ∃ fates, Fated up evm order toll id [] fates

variable (order) in
omit [DecidableEq F] in
theorem bearing_start {fetch : Fetch F} (hidle : ReadThrough.Idle up fetch) :
    Bearing up evm order (.start fetch) where
  able := ⟨fun id st h => by simp [Toll.start, Worker.start] at h, hidle⟩
  fated id := ⟨[], inLine_start fetch id, rfl, .nil, trivial⟩

/-- What the worker holds in its hands once it has taken a message is seen to. -/
theorem bearing_drain {queue : List (Posted F)} {rounds : ℕ} {blocking : Bool}
    (hable : Able up wk) (hall : AllFated up evm order ⟨wk, panicked⟩ id queue)
    (hnone : wk.blocked.lookup id = none)
    (hrounds : blocking = false → rounds < maxSpeculativeRounds)
    (now : Instant) (spawns : Bool)
    (halone : ∀ posted behind, strikes up evm order now queue blocking (wk.sessions, wk.fetch)
      = some (posted, behind) → behind = []) :
    Bearing up evm order
      ⟨Worker.drain up evm order now spawns queue rounds blocking wk, panicked ++
        (strikes up evm order now queue blocking (wk.sessions, wk.fetch)).toList.map Prod.fst⟩ := by
  obtain ⟨hable', hfated⟩ := drain_fated now spawns queue rounds blocking wk hable hall hnone hrounds
    halone
  exact ⟨hable', hfated⟩

/-- A message taken, where a panic that strikes is unaccompanied. -/
theorem bearing_work {toll : Toll F} (h : Bearing up evm order toll) (now : Instant)
    (landed : Landed up) (spawns : Bool)
    (halone : toll.Unaccompanied up evm order (.work now landed spawns)) :
    Bearing up evm order (toll.step up evm order (.work now landed spawns)) := by
  obtain ⟨wk, panicked⟩ := toll
  simp only [Toll.Unaccompanied, Worker.struck] at halone
  simp only [Toll.step, Worker.step, Worker.struck]
  cases hinbox : wk.inbox with
  | nil =>
    simp only [Option.toList_none, List.map_nil, List.append_nil]
    exact h
  | cons message inbox =>
    have hable : Able up (wk.take inbox landed) := ⟨h.able.quiet, idle_landed h.able.idle landed⟩
    cases message with
    | job posted =>
      simp only [hinbox] at halone
      cases hb : wk.blocked.lookup posted.job.sessionId with
      | none =>
        simp only [hb] at halone ⊢
        have haccept := accept_job up evm order (wk.take inbox landed) now spawns hb
        simp only [Worker.take] at haccept
        rw [haccept]
        have hall : AllFated up evm order ⟨wk.take inbox landed, panicked⟩ posted.job.sessionId
            [posted] := by
          intro id
          obtain ⟨fates, hfated⟩ := h.fated id
          exact ⟨fates, inLine_take_job hinbox hb landed hfated.line, hfated.panicked,
            hfated.answers, hfated.same⟩
        exact bearing_drain hable hall hb (fun _ => by decide) now spawns halone
      | some blocked =>
        simp only [Worker.accept, hb, Option.toList_none, List.map_nil, List.append_nil]
        refine ⟨⟨hable.quiet, hable.idle⟩, fun id => ?_⟩
        obtain ⟨fates, hfated⟩ := h.fated id
        exact ⟨fates, inLine_enqueue hinbox hb landed hfated.line, hfated.panicked, hfated.answers,
          hfated.same⟩
    | unblock id failed =>
      simp only [hinbox] at halone
      obtain ⟨fates, hfated⟩ := h.fated id
      obtain ⟨blocked, hb⟩ := unblock_parked hinbox hfated.line
      simp only [hb] at halone ⊢
      simp only [Worker.accept, Worker.unblock, hb]
      set wk₁ : Worker F := { wk.take inbox landed with blocked := wk.blocked.erase id }
      have hable₁ : Able up wk₁ := ⟨hable.quiet, hable.idle⟩
      have hall : AllFated up evm order ⟨wk₁, panicked⟩ id blocked.queue := by
        intro id'
        obtain ⟨fates', hfated'⟩ := h.fated id'
        exact ⟨fates', inLine_unblock hinbox hb landed hfated'.line, hfated'.panicked,
          hfated'.answers, hfated'.same⟩
      exact bearing_drain hable₁ hall (Finmap.lookup_erase ..) rounds_left now spawns halone

/-- STEP LEMMA. -/
theorem bearing_step {toll : Toll F} (h : Bearing up evm order toll) (event : Event up)
    (halone : toll.Unaccompanied up evm order event) :
    Bearing up evm order (toll.step up evm order event) := by
  cases event with
  | work now landed spawns => exact bearing_work h now landed spawns halone
  | post posted =>
    simp only [Toll.step, Worker.step, Worker.struck, Option.toList_none, List.map_nil,
      List.append_nil]
    refine ⟨⟨h.able.quiet, h.able.idle⟩, fun id => ?_⟩
    obtain ⟨fates, hfated⟩ := h.fated id
    exact ⟨fates, inLine_post hfated.line posted, hfated.panicked, hfated.answers, hfated.same⟩
  | resolved i failed =>
    simp only [Toll.step, Worker.step, Worker.struck, Option.toList_none, List.map_nil,
      List.append_nil]
    cases hi : toll.worker.resolving[i]? with
    | none => exact h
    | some resolver =>
      refine ⟨⟨h.able.quiet, h.able.idle⟩, fun id => ?_⟩
      obtain ⟨fates, hfated⟩ := h.fated id
      exact ⟨fates, inLine_resolved hi _ hfated.line, hfated.panicked, hfated.answers, hfated.same⟩

omit [DecidableEq F] in
theorem bearing_contained {toll : Toll F} (h : Bearing up evm order toll) (id : SessionId) :
    Contained up evm order toll id := by
  obtain ⟨fates, hfated⟩ := h.fated id
  have hsplit := hfated.line.split
  have howed := hfated.line.owed
  rw [List.nil_append] at hsplit
  refine ⟨⟨fates, hsplit, hfated.panicked, hfated.answers, hfated.same⟩, ?_,
    fun hinbox hresolving => ?_⟩
  · rw [howed]
    cases (toll.worker.blocked.lookup id).isSome <;> simp
  · rw [Worker.owed, hinbox, hresolving] at howed
    rw [Worker.queued, Worker.waiting, hinbox]
    cases hb : toll.worker.blocked.lookup id with
    | none => exact ⟨rfl, rfl⟩
    | some blocked =>
      rw [hb] at howed
      simp at howed

/-- EXACT: in every run in which no panic strikes while later jobs of its session are in the
    worker's hands, every session loses the panicking jobs and nothing else. -/
theorem panic_contained {fetch : Fetch F} (hidle : ReadThrough.Idle up fetch)
    (events : List (Event up))
    (halone : Guarded (Toll.step up evm order) (Toll.Unaccompanied up evm order) (.start fetch)
      events) (id : SessionId) :
    let toll := runAll (Toll.step up evm order) (.start fetch) events
    toll.worker = Worker.run up evm order events (.start fetch) ∧
      Contained up evm order toll id := by
  intro toll
  refine ⟨?_, bearing_contained (guarded_inv (P := Bearing up evm order)
    (fun _ event h hguard => bearing_step h event hguard) _ events (bearing_start order hidle)
    halone) id⟩
  have hworker : ∀ (events : List (Event up)) (toll : Toll F),
      (runAll (Toll.step up evm order) toll events).worker
        = Worker.run up evm order events toll.worker := by
    intro events
    induction events with
    | nil => exact fun _ => rfl
    | cons event events ih => exact fun toll => ih (toll.step up evm order event)
  exact hworker events (.start fetch)

end Invariant

/-- A slot other than zero is more than this EVM can bear. -/
def fragile : Evm String := fun _ _ _ =>
  (ask (.storage 0xa 7)).bind fun value =>
    match value with
    | .ok 0 => .ret (.error (.other "empty"))
    | _ => .panic

/-- An upstream with something in that slot. -/
def loadedUpstream : Unit → Upstream String := fun _ =>
  { Upstream.vacant "missing" with storage := fun _ _ => .ok 42 }

/-- A session is opened and a transaction dry run on it: the first pass misses the slot, the second
    one reads it. Meanwhile `later` jobs are posted. -/
def fragileRun (later : List (Posted Unit)) : List (Event loadedUpstream) :=
  [.post ⟨.command (.fork 1 .empty () ⟨1, 0, 0, 30000000⟩ none), 0⟩, .work 0 .nothing true,
    .post ⟨.read 1 (.simulate ⟨0xb, .create, 0, [], 21000, 0, 0, none⟩ false), 1⟩,
    .work 1 .nothing true] ++
  later.flatMap (fun posted => [.post posted, .work 2 .nothing true]) ++
  [.resolved 0 true, .work 3 .nothing true]

theorem panic_contained_last :
    let toll := runAll (Toll.step loadedUpstream fragile .some) (.start .cold) (fragileRun [])
    toll.worker = Worker.run loadedUpstream fragile .some (fragileRun []) (.start .cold) ∧
      Contained loadedUpstream fragile .some toll 1 := by
  refine panic_contained (ReadThrough.idle_cold loadedUpstream) (fragileRun [])
    ⟨?_, ?_, ?_, ?_, ?_, ?_, trivial⟩ 1
  all_goals rintro posted behind ⟨⟩
  rfl

/-- With a job queued behind the one that panics in its second pass, nobody answers it. -/
theorem queued_job_dropped :
    ¬ Contained loadedUpstream fragile .some
      (runAll (Toll.step loadedUpstream fragile .some) (.start .cold)
        (fragileRun [⟨.command (.blockEnvOf 1), 2⟩])) 1 := by
  rintro ⟨⟨fates, hsplit, hpanicked, hanswers, -⟩, -, hsettled⟩
  obtain ⟨hqueued, hwaiting⟩ := hsettled rfl rfl
  rw [hqueued, hwaiting, List.append_nil, List.append_nil] at hsplit
  have hthree : fates.length = 3 := by
    rw [← List.length_map (f := Prod.fst), ← hsplit]
    rfl
  have hone : (casualties fates).length = 1 := by
    rw [← hpanicked]
    rfl
  have hsurvivors : (survivors fates).length = 1 := by
    rw [← reference_jobs loadedUpstream fragile .some (survivors fates), List.length_map,
      ← hanswers.length_eq]
    rfl
  have hlength := fates_length fates
  omega

end Forkyard
