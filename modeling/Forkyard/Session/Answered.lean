import Forkyard.Schemes.Fair
import Forkyard.Session.Pool
import Mathlib.Data.Prod.Lex

/-! No call waits for ever. A job that waits stands at some place in its session's line, and the
    front of the line is worth so many more tries: each try takes one message of the worker's inbox,
    at whose turn the front is done with or is parked with one try less, and a parked job has a
    resolver at work until it is that message's turn. So what is left to do before a job is seen to
    goes down in the order of

        place in line ▷ tries left at the front ▷ resolver at work ▷ messages ahead in the inbox

    and as long as workers go on taking messages, resolvers end and callers look, every call returns,
    whatever upstream does and whatever panics. -/

namespace Forkyard

open Schemes

variable {F E : Type}

/-! ### What is left to do -/

/-- The message is a job for `id`. -/
def Message.calls (id : SessionId) : Message F → Bool
  | .job posted => decide (posted.job.sessionId = id)
  | .unblock _ _ => false

namespace Worker

variable (wk : Worker F) (id : SessionId) (posted : Posted F)

/-- A session's jobs that wait, in the order they will be seen to. -/
def line : List (Posted F) := wk.queued id ++ wk.waiting id

def place : ℕ := (wk.line posted.job.sessionId).findIdx fun p => decide (p.reply = posted.reply)

/-- A resolver is at work for the session. -/
def resolves : Bool := wk.resolving.any fun r => decide (r.id = id)

/-- The message that will move the session's line on. -/
def key : Message F → Bool :=
  if (wk.blocked.lookup id).isSome then Message.unblocks id else Message.calls id

/-- The tries left to the front of the line. -/
def left : ℕ :=
  match wk.blocked.lookup id with
  | none => maxSpeculativeRounds + 1
  | some blocked => maxSpeculativeRounds - blocked.rounds

/-- Twice the tries left, and one more while keys are resolved for the next. -/
def tries : ℕ := 2 * wk.left id + (wk.resolves id).toNat

def ahead : ℕ := if wk.resolves id then 0 else wk.inbox.findIdx (wk.key id)

/-- What is left to do before the job is seen to. -/
def rank : ℕ ×ₗ ℕ :=
  toLex (36 * wk.place posted + wk.tries posted.job.sessionId, wk.ahead posted.job.sessionId)

end Worker

variable {wk wk' : Worker F} {id : SessionId} {posted : Posted F}

theorem tries_lt (wk : Worker F) (id : SessionId) : wk.tries id < 36 := by
  have hleft : wk.left id ≤ 17 := by
    rw [Worker.left]
    split
    · exact le_rfl
    · exact (Nat.sub_le _ _).trans (by decide)
  have hone := Bool.toNat_le (wk.resolves id)
  rw [Worker.tries]
  omega

/-- Fewer jobs ahead in line is less to do, whatever the tries. -/
theorem rank_place (h : wk'.place posted < wk.place posted) : wk'.rank posted < wk.rank posted := by
  have hlt := tries_lt wk' posted.job.sessionId
  refine Prod.Lex.toLex_lt_toLex.mpr (.inl ?_)
  dsimp only
  omega

/-- So are fewer tries left at the same place, -/
theorem rank_tries (hplace : wk'.place posted = wk.place posted)
    (h : wk'.tries posted.job.sessionId < wk.tries posted.job.sessionId) :
    wk'.rank posted < wk.rank posted := by
  refine Prod.Lex.toLex_lt_toLex.mpr (.inl ?_)
  dsimp only
  omega

/-- and fewer messages ahead with as many tries left. -/
theorem rank_ahead (hplace : wk'.place posted = wk.place posted)
    (htries : wk'.tries posted.job.sessionId = wk.tries posted.job.sessionId)
    (h : wk'.ahead posted.job.sessionId < wk.ahead posted.job.sessionId) :
    wk'.rank posted < wk.rank posted :=
  Prod.Lex.toLex_lt_toLex.mpr (.inr ⟨by rw [hplace, htries], h⟩)

/-- Whether a resolver is at work can be read off the rank. -/
theorem rank_resolves (h : wk'.rank posted = wk.rank posted) :
    wk'.resolves posted.job.sessionId = wk.resolves posted.job.sessionId := by
  have hfirst : 36 * wk'.place posted + wk'.tries posted.job.sessionId
      = 36 * wk.place posted + wk.tries posted.job.sessionId :=
    congrArg (fun r : ℕ ×ₗ ℕ => (ofLex r).1) h
  rw [Worker.tries, Worker.tries] at hfirst
  cases h : wk.resolves posted.job.sessionId <;> cases h' : wk'.resolves posted.job.sessionId <;>
    simp only [h, h', Bool.toNat_true, Bool.toNat_false] at hfirst <;> first | rfl | omega

/-! ### The line -/

/-- The place of a job that still waits goes down by the jobs that left the line before it. -/
theorem place_removed {removed : List (Posted F)} (hnodup : (wk.arrived.map Posted.reply).Nodup)
    (hlines : wk.Lines)
    (hline : wk.line posted.job.sessionId = removed ++ wk'.line posted.job.sessionId)
    (hwaits : posted ∈ wk'.line posted.job.sessionId) :
    wk'.place posted + removed.length = wk.place posted := by
  obtain ⟨done, hin⟩ := hlines posted.job.sessionId
  have hsub : ((wk.line posted.job.sessionId).map Posted.reply).Nodup := by
    have harrived : ((wk.arrivedOf posted.job.sessionId).map Posted.reply).Nodup :=
      hnodup.sublist (List.filter_sublist.map Posted.reply)
    rw [hin.split, List.nil_append, List.map_append] at harrived
    exact (List.nodup_append.mp harrived).2.1
  rw [hline, List.map_append] at hsub
  have hnone : removed.findIdx (fun p => decide (p.reply = posted.reply)) = removed.length := by
    rw [List.findIdx_eq_length]
    intro p hp
    exact decide_eq_false ((List.nodup_append.mp hsub).2.2 _ (List.mem_map_of_mem hp) _
      (List.mem_map_of_mem hwaits))
  rw [Worker.place, Worker.place, hline, List.findIdx_append, hnone,
    if_neg (Nat.lt_irrefl _)]

/-- A session whose job waits has a resolver at work, or the message that moves its line on in the
    inbox. -/
theorem key_waits (hlines : wk.Lines) (hwaits : posted ∈ wk.line posted.job.sessionId)
    (hresolves : wk.resolves posted.job.sessionId = false) :
    ∃ message ∈ wk.inbox, wk.key posted.job.sessionId message = true := by
  obtain ⟨done, hline⟩ := hlines posted.job.sessionId
  cases hb : wk.blocked.lookup posted.job.sessionId with
  | none =>
    rw [Worker.line, Worker.queued, hb] at hwaits
    obtain ⟨message, hmem, hjob⟩ := List.mem_filterMap.mp hwaits
    refine ⟨message, hmem, ?_⟩
    simp only [Worker.key, hb, Option.isSome_none, Bool.false_eq_true, if_false]
    cases message with
    | unblock id failed => cases hjob
    | job p =>
      simp only [Message.jobFor] at hjob
      split at hjob
      · rename_i hid
        exact decide_eq_true hid
      · cases hjob
  | some blocked =>
    have howed := hline.owed
    have hnone : wk.resolving.countP (fun r => decide (r.id = posted.job.sessionId)) = 0 := by
      rw [Worker.resolves, List.any_eq_false] at hresolves
      exact List.countP_eq_zero.mpr hresolves
    rw [hb, Option.isSome_some, if_pos rfl, Worker.owed, hnone, Nat.zero_add] at howed
    obtain ⟨message, hmem, hunblocks⟩ := List.countP_pos_iff.mp (howed ▸ Nat.one_pos)
    refine ⟨message, hmem, ?_⟩
    simp only [Worker.key, hb, Option.isSome_some, if_true]
    exact hunblocks

section Steps

variable [ToString E] [DecidableEq F] {up : F → Upstream E} {evm : Evm E} {order : HashOrder}

/-! ### Draining -/

variable (up evm order) in
/-- A queue is drained from its front. -/
theorem drain_suffix (now : Instant) (spawns : Bool) (queue : List (Posted F)) (rounds : ℕ)
    (blocking : Bool) (wk : Worker F) (hid : ∀ posted ∈ queue, posted.job.sessionId = id)
    (hnone : wk.blocked.lookup id = none) :
    ∃ removed, queue = removed ++
      (Worker.drain up evm order now spawns queue rounds blocking wk).queued id := by
  induction queue generalizing rounds blocking wk with
  | nil => exact ⟨[], by rw [Worker.drain, Worker.queued, hnone, List.nil_append]⟩
  | cons posted queue ih =>
    have hown : posted.job.sessionId = id := hid posted List.mem_cons_self
    simp only [Worker.drain]
    rcases handle up evm order now blocking posted.job (wk.sessions, wk.fetch) with
      ⟨reply | keys | -, sessions, fetch⟩
    · obtain ⟨removed, hremoved⟩ := ih 0 false { wk with
          sessions := sessions, fetch := fetch, answers := wk.answers ++ [(posted, reply)] }
        (fun p hp => hid p (List.mem_cons_of_mem posted hp)) hnone
      exact ⟨posted :: removed, congrArg (posted :: ·) hremoved⟩
    · refine ⟨[], ?_⟩
      cases spawns <;> simp [Worker.park, Worker.queued, hown, Finmap.lookup_insert]
    · refine ⟨posted :: queue, ?_⟩
      rw [Worker.queued, hnone, List.append_nil]

variable (up evm order) in
/-- DRAINING gets somewhere: the front of the queue leaves the line, or it is parked with one round
    more behind it. -/
theorem drain_moves (now : Instant) (spawns : Bool) {queue : List (Posted F)} (rounds : ℕ)
    (blocking : Bool) (wk : Worker F) (hid : ∀ posted ∈ queue, posted.job.sessionId = id)
    (hnone : wk.blocked.lookup id = none) (hqueue : queue ≠ []) :
    (∃ removed, removed ≠ [] ∧ queue = removed ++
        (Worker.drain up evm order now spawns queue rounds blocking wk).queued id) ∨
      (blocking = false ∧ (Worker.drain up evm order now spawns queue rounds
        blocking wk).blocked.lookup id = some ⟨queue, rounds + 1⟩) := by
  cases queue with
  | nil => exact absurd rfl hqueue
  | cons posted queue =>
    have hown : posted.job.sessionId = id := hid posted List.mem_cons_self
    rcases hout : handle up evm order now blocking posted.job (wk.sessions, wk.fetch) with
      ⟨out, sessions, fetch⟩
    obtain ⟨-, hdeferred⟩ := handle_touched order now blocking posted.job wk.sessions wk.fetch hout
    cases out with
    | done reply =>
      simp only [Worker.drain, hout]
      obtain ⟨removed, hremoved⟩ := drain_suffix up evm order now spawns queue 0 false { wk with
          sessions := sessions, fetch := fetch, answers := wk.answers ++ [(posted, reply)] }
        (fun p hp => hid p (List.mem_cons_of_mem posted hp)) hnone
      exact .inl ⟨posted :: removed, List.cons_ne_nil _ _, congrArg (posted :: ·) hremoved⟩
    | deferred keys =>
      simp only [Worker.drain, hout]
      refine .inr ⟨(hdeferred keys rfl).1, ?_⟩
      cases spawns <;> simp [Worker.park, hown, Finmap.lookup_insert]
    | panicked =>
      simp only [Worker.drain, hout]
      refine .inl ⟨posted :: queue, List.cons_ne_nil _ _, ?_⟩
      rw [Worker.queued, hnone, List.append_nil]

variable (up evm order) in
/-- FRAME: draining one session's queue parks no other, posts nothing but an `unblock` of its own and
    starts no resolver but its own. -/
theorem drain_frame (now : Instant) (spawns : Bool) (queue : List (Posted F)) (rounds : ℕ)
    (blocking : Bool) (wk : Worker F) (hid : ∀ posted ∈ queue, posted.job.sessionId = id) :
    (∃ extra, (Worker.drain up evm order now spawns queue rounds blocking wk).inbox
        = wk.inbox ++ extra ∧ ∀ message ∈ extra, ∃ failed, message = .unblock id failed) ∧
      ∀ id', id' ≠ id →
        (Worker.drain up evm order now spawns queue rounds blocking wk).blocked.lookup id'
            = wk.blocked.lookup id' ∧
          (Worker.drain up evm order now spawns queue rounds blocking wk).resolves id'
            = wk.resolves id' := by
  induction queue generalizing rounds blocking wk with
  | nil => exact ⟨⟨[], (List.append_nil _).symm, by rintro _ ⟨⟩⟩, fun _ _ => ⟨rfl, rfl⟩⟩
  | cons posted queue ih =>
    have hown : posted.job.sessionId = id := hid posted List.mem_cons_self
    simp only [Worker.drain]
    rcases handle up evm order now blocking posted.job (wk.sessions, wk.fetch) with
      ⟨reply | keys | -, sessions, fetch⟩
    · exact ih 0 false { wk with
        sessions := sessions, fetch := fetch, answers := wk.answers ++ [(posted, reply)] }
        (fun p hp => hid p (List.mem_cons_of_mem posted hp))
    · cases spawns with
      | true =>
        refine ⟨⟨[], (List.append_nil _).symm, by rintro _ ⟨⟩⟩, fun id' hne => ⟨?_, ?_⟩⟩
        · simp [Worker.park, hown, Finmap.lookup_insert_of_ne _ hne]
        · simp [Worker.park, Worker.resolves, hown, Ne.symm hne]
      | false =>
        refine ⟨⟨[.unblock id true], by simp [Worker.park, hown], fun message hm => ?_⟩,
          fun id' hne => ⟨?_, rfl⟩⟩
        · exact ⟨true, List.mem_singleton.mp hm⟩
        · simp [Worker.park, hown, Finmap.lookup_insert_of_ne _ hne]
    · exact ⟨⟨[], (List.append_nil _).symm, by rintro _ ⟨⟩⟩, fun _ _ => ⟨rfl, rfl⟩⟩

/-! ### A worker that takes a message -/

omit [ToString E] [DecidableEq F] in
theorem place_line (h : wk'.line posted.job.sessionId = wk.line posted.job.sessionId) :
    wk'.place posted = wk.place posted := by
  rw [Worker.place, h, Worker.place]

/-- The queue of its session is put into the worker's hands: the job is seen to, or less is left to do
    before it is. -/
theorem drained_ranked (hlines : wk.Lines) (hnodup : (wk.arrived.map Posted.reply).Nodup)
    (wk₁ : Worker F) {queue : List (Posted F)}
    (hid : ∀ p ∈ queue, p.job.sessionId = posted.job.sessionId)
    (hnone : wk₁.blocked.lookup posted.job.sessionId = none) (hqueue : queue ≠ [])
    (hline : wk.line posted.job.sessionId = queue ++ wk₁.waiting posted.job.sessionId)
    {rounds : ℕ} {blocking : Bool} (hleft : blocking = false → rounds < maxSpeculativeRounds ∧
      maxSpeculativeRounds - rounds ≤ wk.left posted.job.sessionId) (now : Instant) (spawns : Bool) :
    posted ∉ (Worker.drain up evm order now spawns queue rounds blocking wk₁).line
        posted.job.sessionId ∨
      (Worker.drain up evm order now spawns queue rounds blocking wk₁).rank posted
        < wk.rank posted := by
  obtain ⟨served, rest, -, -, -, hwaiting⟩ := drain_splits up evm order now spawns queue rounds
    blocking wk₁ hid hnone
  have hmoves := drain_moves up evm order now spawns rounds blocking wk₁ hid hnone hqueue
  set wk' := Worker.drain up evm order now spawns queue rounds blocking wk₁
  rcases hmoves with ⟨removed, hremoved, hsplit⟩ | ⟨hblocking, hparked⟩
  · by_cases hwaits : posted ∈ wk'.line posted.job.sessionId
    · refine .inr (rank_place ?_)
      have hline' : wk.line posted.job.sessionId
          = removed ++ wk'.line posted.job.sessionId := by
        rw [hline, Worker.line, hwaiting, ← List.append_assoc, ← hsplit]
      have hplace := place_removed hnodup hlines hline' hwaits
      have hpos := List.length_pos_iff.mpr hremoved
      omega
    · exact .inl hwaits
  · obtain ⟨hrounds, hless⟩ := hleft hblocking
    refine .inr (rank_tries (place_line ?_) ?_)
    · rw [hline, Worker.line, hwaiting, Worker.queued, hparked]
    · have hleft' : wk'.left posted.job.sessionId = maxSpeculativeRounds - (rounds + 1) := by
        rw [Worker.left, hparked]
      have hone := Bool.toNat_le (wk'.resolves posted.job.sessionId)
      rw [Worker.tries, Worker.tries, hleft']
      omega

/-- What a message that is none of the session's business leaves of its part of the worker. -/
structure Bypassed (wk wk' : Worker F) (id : SessionId) (inbox : List (Message F)) : Prop where
  parked : (wk'.blocked.lookup id).isSome = (wk.blocked.lookup id).isSome
  left : wk'.left id = wk.left id
  line : wk'.line id = wk.line id
  resolves : wk'.resolves id = wk.resolves id
  inbox : ∃ extra, wk'.inbox = inbox ++ extra ∧ ∀ message ∈ extra, wk.key id message = false

/-- Draining another session's queue passes by. -/
theorem bypassed_drain (wk wk₁ : Worker F) {id' : SessionId} (hne : id ≠ id')
    {queue : List (Posted F)} (hid : ∀ posted ∈ queue, posted.job.sessionId = id')
    (hnone : wk₁.blocked.lookup id' = none) {inbox : List (Message F)} (hinbox : wk₁.inbox = inbox)
    (hblocked : wk₁.blocked.lookup id = wk.blocked.lookup id)
    (hresolving : wk₁.resolving = wk.resolving) (hwaiting : wk₁.waiting id = wk.waiting id)
    (rounds : ℕ) (blocking : Bool) (now : Instant) (spawns : Bool) :
    Bypassed wk (Worker.drain up evm order now spawns queue rounds blocking wk₁) id inbox := by
  obtain ⟨⟨extra, hextra, hunblocks⟩, hothers⟩ := drain_frame up evm order now spawns queue rounds
    blocking wk₁ hid
  obtain ⟨-, -, -, -, -, hwaits⟩ := drain_splits up evm order now spawns queue rounds blocking wk₁
    hid hnone
  obtain ⟨hparked, hresolves⟩ := hothers id hne
  rw [hblocked] at hparked
  refine ⟨by rw [hparked], by rw [Worker.left, hparked, Worker.left], ?_, ?_, extra,
    by rw [hextra, hinbox], fun message hm => ?_⟩
  · rw [Worker.line, Worker.line, Worker.queued, hparked, hwaits, hwaiting, Worker.queued]
  · rw [hresolves, Worker.resolves, Worker.resolves, hresolving]
  · obtain ⟨failed, rfl⟩ := hunblocks message hm
    rw [Worker.key]
    split
    · exact decide_eq_false (Ne.symm hne)
    · rfl

variable (up evm order) in
/-- A message that does not move the session's line on passes it by. -/
theorem work_bypassed (hlines : wk.Lines) {message : Message F} {inbox : List (Message F)}
    (hinbox : wk.inbox = message :: inbox) (hkey : wk.key id message = false) (now : Instant)
    (landed : Landed up) (spawns : Bool) :
    Bypassed wk (Worker.step up evm order (.work now landed spawns) wk) id inbox := by
  simp only [Worker.step, hinbox]
  cases message with
  | job p =>
    have hwaiting := (take_job hinbox landed id).1
    cases hb : wk.blocked.lookup p.job.sessionId with
    | none =>
      have hne : id ≠ p.job.sessionId := by
        rintro rfl
        rw [Worker.key, hb] at hkey
        simp [Message.calls] at hkey
      rw [if_neg (Ne.symm hne), List.nil_append] at hwaiting
      have haccept := accept_job up evm order (wk.take inbox landed) now spawns hb
      simp only [Worker.take] at haccept
      rw [haccept]
      exact bypassed_drain wk (wk.take inbox landed) hne
        (fun q hq => by rw [List.mem_singleton.mp hq]) hb rfl rfl rfl hwaiting.symm 0 false now spawns
    | some blocked =>
      simp only [Worker.accept, hb]
      by_cases hid : p.job.sessionId = id
      · subst hid
        rw [if_pos rfl] at hwaiting
        refine ⟨?_, ?_, ?_, rfl, [], (List.append_nil _).symm, by rintro _ ⟨⟩⟩
        · rw [Finmap.lookup_insert, hb]
          rfl
        · simp only [Worker.left, Finmap.lookup_insert, hb]
        · simp only [Worker.line, Worker.queued, Finmap.lookup_insert, hb]
          rw [hwaiting, List.append_assoc]
          rfl
      · rw [if_neg hid, List.nil_append] at hwaiting
        have hne : (wk.blocked.insert p.job.sessionId ⟨blocked.queue ++ [p],
            blocked.rounds⟩).lookup id = wk.blocked.lookup id :=
          Finmap.lookup_insert_of_ne _ (Ne.symm hid)
        refine ⟨by rw [hne], by rw [Worker.left, hne, Worker.left], ?_, rfl, [],
          (List.append_nil _).symm, by rintro _ ⟨⟩⟩
        rw [Worker.line, Worker.queued, hne, Worker.line, Worker.queued, hwaiting]
        rfl
  | unblock id' failed =>
    obtain ⟨done, hline⟩ := hlines id'
    obtain ⟨blocked, hb⟩ := unblock_parked hinbox hline
    have hne : id ≠ id' := by
      rintro rfl
      rw [Worker.key, hb] at hkey
      simp [Message.unblocks] at hkey
    simp only [Worker.accept, Worker.unblock, hb]
    have hqueue : ∀ p ∈ blocked.queue, p.job.sessionId = id' := fun p hp =>
      (inLine_mem hline (by rw [List.nil_append, Worker.queued, hb]; exact hp)).1
    exact bypassed_drain wk { wk.take inbox landed with blocked := wk.blocked.erase id' } hne hqueue
      (Finmap.lookup_erase ..) rfl (Finmap.lookup_erase_ne hne) rfl
      (take_unblock hinbox landed id).1 _ _ now spawns

variable (up evm order) in
/-- The message that moves the session's line on puts its queue into the worker's hands. -/
theorem work_keyed (hlines : wk.Lines) {message : Message F} {inbox : List (Message F)}
    (hinbox : wk.inbox = message :: inbox) (hkey : wk.key id message = true) (now : Instant)
    (landed : Landed up) (spawns : Bool) :
    ∃ (wk₁ : Worker F) (queue : List (Posted F)) (rounds : ℕ) (blocking : Bool),
      Worker.step up evm order (.work now landed spawns) wk
        = Worker.drain up evm order now spawns queue rounds blocking wk₁ ∧
      (∀ p ∈ queue, p.job.sessionId = id) ∧ wk₁.blocked.lookup id = none ∧ queue ≠ [] ∧
      wk.line id = queue ++ wk₁.waiting id ∧
      (blocking = false → rounds < maxSpeculativeRounds ∧
        maxSpeculativeRounds - rounds ≤ wk.left id) := by
  cases hb : wk.blocked.lookup id with
  | none =>
    simp only [Worker.key, hb, Option.isSome_none, Bool.false_eq_true, if_false] at hkey
    cases message with
    | unblock id' failed => cases hkey
    | job p =>
      obtain rfl : p.job.sessionId = id := of_decide_eq_true hkey
      refine ⟨wk.take inbox landed, [p], 0, false, ?_, fun q hq => by rw [List.mem_singleton.mp hq],
        hb, List.cons_ne_nil p [], ?_, fun _ => ⟨by decide, ?_⟩⟩
      · simp only [Worker.step, hinbox]
        exact accept_job up evm order (wk.take inbox landed) now spawns hb
      · rw [Worker.line, Worker.queued, hb, List.nil_append,
          (take_job hinbox landed p.job.sessionId).1, if_pos rfl]
      · rw [Worker.left, hb]
        exact Nat.le_succ maxSpeculativeRounds
  | some blocked =>
    simp only [Worker.key, hb, Option.isSome_some, if_true] at hkey
    cases message with
    | job p => cases hkey
    | unblock id' failed =>
      obtain rfl : id' = id := of_decide_eq_true hkey
      obtain ⟨done, hline⟩ := hlines id'
      refine ⟨{ wk.take inbox landed with blocked := wk.blocked.erase id' }, blocked.queue,
        blocked.rounds, failed || decide (maxSpeculativeRounds ≤ blocked.rounds), ?_,
        fun q hq => ?_, Finmap.lookup_erase .., (hline.parked blocked hb).1, ?_, fun hblocking => ?_⟩
      · simp only [Worker.step, hinbox, Worker.accept, Worker.unblock, hb]
        rfl
      · refine (inLine_mem hline ?_).1
        rw [List.nil_append, Worker.queued, hb]
        exact hq
      · rw [Worker.line, Worker.queued, hb]
        exact congrArg (blocked.queue ++ ·) (take_unblock hinbox landed id').1.symm
      · exact ⟨rounds_left hblocking, by rw [Worker.left, hb]⟩

omit [ToString E] [DecidableEq F] in
/-- What stands behind the one that is looked for does not matter. -/
theorem ahead_append {A : Type} {front extra : List A} {p : A → Bool}
    (h : ∃ a ∈ front, p a = true) : (front ++ extra).findIdx p = front.findIdx p := by
  rw [List.findIdx_append, if_pos (List.findIdx_lt_length.mpr h)]

omit [ToString E] [DecidableEq F] in
theorem rank_same (hplace : wk'.place posted = wk.place posted)
    (hleft : wk'.left posted.job.sessionId = wk.left posted.job.sessionId)
    (hresolves : wk'.resolves posted.job.sessionId = wk.resolves posted.job.sessionId)
    (hahead : wk.resolves posted.job.sessionId = false →
      wk'.inbox.findIdx (wk'.key posted.job.sessionId)
        = wk.inbox.findIdx (wk.key posted.job.sessionId)) :
    wk'.rank posted = wk.rank posted := by
  have htries : wk'.tries posted.job.sessionId = wk.tries posted.job.sessionId := by
    rw [Worker.tries, hleft, hresolves, Worker.tries]
  have hsame : wk'.ahead posted.job.sessionId = wk.ahead posted.job.sessionId := by
    rw [Worker.ahead, hresolves, Worker.ahead]
    cases h : wk.resolves posted.job.sessionId with
    | true => rfl
    | false => exact hahead h
  rw [Worker.rank, Worker.rank, hplace, htries, hsame]

variable (up evm order) in
/-- TAKING A MESSAGE sees to a waiting job or leaves less to do before it, but for the messages that
    go by while a resolver is at work. -/
theorem work_ranked (hlines : wk.Lines) (hnodup : (wk.arrived.map Posted.reply).Nodup)
    (hwaits : posted ∈ wk.line posted.job.sessionId) (now : Instant) (landed : Landed up)
    (spawns : Bool) :
    posted ∉ (Worker.step up evm order (.work now landed spawns) wk).line posted.job.sessionId ∨
      (Worker.step up evm order (.work now landed spawns) wk).rank posted < wk.rank posted ∨
      (wk.resolves posted.job.sessionId = true ∧
        (Worker.step up evm order (.work now landed spawns) wk).rank posted = wk.rank posted) := by
  cases hinbox : wk.inbox with
  | nil =>
    have hidle : Worker.step up evm order (.work now landed spawns) wk = wk := by
      simp only [Worker.step, hinbox]
    rw [hidle]
    cases hresolves : wk.resolves posted.job.sessionId with
    | true => exact .inr (.inr ⟨rfl, rfl⟩)
    | false =>
      obtain ⟨message, hmem, -⟩ := key_waits hlines hwaits hresolves
      rw [hinbox] at hmem
      cases hmem
  | cons message inbox =>
    cases hkey : wk.key posted.job.sessionId message with
    | false =>
      have hpassed := work_bypassed up evm order hlines hinbox hkey now landed spawns
      set wk' := Worker.step up evm order (.work now landed spawns) wk
      have hplace : wk'.place posted = wk.place posted := place_line hpassed.line
      have hsamekey : wk'.key posted.job.sessionId = wk.key posted.job.sessionId := by
        rw [Worker.key, hpassed.parked, Worker.key]
      cases hresolves : wk.resolves posted.job.sessionId with
      | true =>
        refine .inr (.inr ⟨rfl, rank_same hplace hpassed.left hpassed.resolves fun h => ?_⟩)
        rw [hresolves] at h
        cases h
      | false =>
        obtain ⟨extra, hextra, -⟩ := hpassed.inbox
        refine .inr (.inl (rank_ahead hplace ?_ ?_))
        · rw [Worker.tries, hpassed.left, hpassed.resolves, Worker.tries]
        · obtain ⟨other, hmem, hother⟩ := key_waits hlines hwaits hresolves
          rw [hinbox] at hmem
          have hlater : other ∈ inbox := by
            rcases List.mem_cons.mp hmem with rfl | hmem
            · rw [hkey] at hother
              cases hother
            · exact hmem
          rw [Worker.ahead, hpassed.resolves, Worker.ahead, hresolves, hextra, hsamekey,
            ahead_append ⟨other, hlater, hother⟩, hinbox, List.findIdx_cons, hkey]
          exact Nat.lt_succ_self _
    | true =>
      obtain ⟨wk₁, queue, rounds, blocking, hstep, hid, hnone, hqueue, hline, hleft⟩ :=
        work_keyed up evm order hlines hinbox hkey now landed spawns
      rw [hstep]
      exact (drained_ranked hlines hnodup wk₁ hid hnone hqueue hline hleft now spawns).imp_right .inl

/-! ### The other events -/

omit [ToString E] [DecidableEq F] in
/-- A resolver that ends is not owed any more. -/
theorem resolved_tries (hlines : wk.Lines) {i : ℕ} {resolver : Resolving F}
    (hi : wk.resolving[i]? = some resolver) (hid : resolver.id = id) :
    wk.resolves id = true ∧
      (wk.resolving.eraseIdx i).any (fun r => decide (r.id = id)) = false := by
  obtain ⟨done, hline⟩ := hlines id
  refine ⟨List.any_eq_true.mpr ⟨resolver, List.mem_of_getElem? hi, decide_eq_true hid⟩, ?_⟩
  have hcount := countP_eraseIdx_add (fun r : Resolving F => decide (r.id = id)) hi
  have howed := hline.owed
  rw [Worker.owed] at howed
  simp only [hid, decide_true, Bool.toNat_true] at hcount
  have hnone : (wk.resolving.eraseIdx i).countP (fun r => decide (r.id = id)) = 0 := by
    split at howed <;> omega
  rw [List.any_eq_false]
  exact List.countP_eq_zero.mp hnone

variable (up evm order) in
/-- A RESOLVER'S END leaves less to do before the jobs of its session, and as much before others. -/
theorem resolved_ranked (hlines : wk.Lines) (hwaits : posted ∈ wk.line posted.job.sessionId)
    (i : ℕ) (failed : Bool) :
    (Worker.step up evm order (.resolved i failed) wk).rank posted < wk.rank posted ∨
      ((∀ r, wk.resolving[i]? = some r → r.id ≠ posted.job.sessionId) ∧
        (Worker.step up evm order (.resolved i failed) wk).rank posted = wk.rank posted) := by
  simp only [Worker.step]
  cases hi : wk.resolving[i]? with
  | none => exact .inr ⟨by rintro _ ⟨⟩, rfl⟩
  | some resolver =>
    have hline : ∀ id', Worker.line { wk with
        resolving := wk.resolving.eraseIdx i
        inbox := wk.inbox ++ [.unblock resolver.id (resolver.fallback.isNone || failed)] } id'
          = wk.line id' := by
      intro id'
      simp only [Worker.line, Worker.waiting, List.filterMap_append, jobFor_unblock,
        List.append_nil]
      rfl
    by_cases hid : resolver.id = posted.job.sessionId
    · obtain ⟨hbefore, hafter⟩ := resolved_tries hlines hi hid
      refine .inl (rank_tries (place_line (hline _)) ?_)
      rw [Worker.tries, Worker.tries, hbefore, Worker.resolves, hafter]
      exact Nat.lt_succ_self (2 * wk.left posted.job.sessionId)
    · refine .inr ⟨?_, rank_same (place_line (hline _)) rfl ?_ fun hresolves => ?_⟩
      · rintro r hr
        rwa [← Option.some.inj hr]
      · have hcount := countP_eraseIdx_add
          (fun r : Resolving F => decide (r.id = posted.job.sessionId)) hi
        simp only [hid, decide_false, Bool.toNat_false, Nat.add_zero] at hcount
        rw [Bool.eq_iff_iff, Worker.resolves, Worker.resolves, List.any_eq_true, List.any_eq_true,
          ← List.countP_pos_iff, ← List.countP_pos_iff, hcount]
      · exact ahead_append (key_waits hlines hwaits hresolves)

omit [ToString E] [DecidableEq F] in
/-- A JOB THAT IS SENT goes behind all others. -/
theorem post_ranked (hlines : wk.Lines) (hwaits : posted ∈ wk.line posted.job.sessionId)
    (p : Posted F) :
    Worker.rank { wk with inbox := wk.inbox ++ [.job p], arrived := wk.arrived ++ [p] } posted
      = wk.rank posted := by
  refine rank_same ?_ rfl rfl fun hresolves => ahead_append (key_waits hlines hwaits hresolves)
  rw [Worker.place, Worker.place, Worker.line, Worker.waiting, List.filterMap_append,
    ← List.append_assoc]
  exact ahead_append ⟨posted, hwaits, decide_eq_true rfl⟩

variable (up evm order) in
/-- Taking a message lets nobody into a line. -/
theorem work_line (hlines : wk.Lines) (id : SessionId) (now : Instant) (landed : Landed up)
    (spawns : Bool) :
    ∃ removed, wk.line id
      = removed ++ (Worker.step up evm order (.work now landed spawns) wk).line id := by
  cases hinbox : wk.inbox with
  | nil => exact ⟨[], by simp only [Worker.step, hinbox, List.nil_append]⟩
  | cons message inbox =>
    cases hkey : wk.key id message with
    | false =>
      have hpassed := work_bypassed up evm order hlines hinbox hkey now landed spawns
      exact ⟨[], by rw [List.nil_append, hpassed.line]⟩
    | true =>
      obtain ⟨wk₁, queue, rounds, blocking, hstep, hid, hnone, -, hline, -⟩ :=
        work_keyed up evm order hlines hinbox hkey now landed spawns
      obtain ⟨removed, hremoved⟩ := drain_suffix up evm order now spawns queue rounds blocking wk₁
        hid hnone
      obtain ⟨-, -, -, -, -, hwaiting⟩ := drain_splits up evm order now spawns queue rounds blocking
        wk₁ hid hnone
      refine ⟨removed, ?_⟩
      rw [hstep, hline, Worker.line, hwaiting, ← List.append_assoc, ← hremoved]

variable {ttl : ℕ} {pool : Pool F}

/-- STEP LEMMA: whatever happens, a job that waits is seen to, has less to wait for, or as much, and
    then its session's resolver, if it has one, is still at work. -/
theorem moved_ranked {event : PoolEvent up} {w : ℕ} (hwired : pool.WiredAt w wk)
    (hwaits : posted ∈ wk.line posted.job.sessionId)
    (h : pool.Moved up evm order ttl event w wk wk') :
    posted ∉ wk'.line posted.job.sessionId ∨ wk'.rank posted < wk.rank posted ∨
      wk'.rank posted = wk.rank posted := by
  cases h with
  | idle => exact .inr (.inr rfl)
  | sweep hevent hinbox => exact .inr (.inr rfl)
  | post hevent hcall hjob hw => exact .inr (.inr (post_ranked hwired.lines hwaits _))
  | work hevent =>
    exact (work_ranked up evm order hwired.lines hwired.nodup hwaits _ _ _).imp_right
      fun h => h.imp_right And.right
  | resolved hevent =>
    exact .inr ((resolved_ranked up evm order hwired.lines hwaits _ _).imp_right And.right)

/-- A job out of the line stays out. -/
theorem moved_gone_line {event : PoolEvent up} {w : ℕ} (hwired : pool.WiredAt w wk)
    (harrived : posted ∈ wk.arrived) (hgone : posted ∉ wk.line posted.job.sessionId)
    (h : pool.Moved up evm order ttl event w wk wk') :
    posted ∉ wk'.line posted.job.sessionId := by
  cases h with
  | idle => exact hgone
  | sweep hevent hinbox => exact hgone
  | @post i call job hevent hcall hjob hw =>
    intro hin
    simp only [Worker.step, Worker.line, Worker.waiting, List.filterMap_append] at hin
    rcases List.mem_append.mp hin with hin | hin
    · exact hgone (List.mem_append_left _ hin)
    rcases List.mem_append.mp hin with hin | hin
    · exact hgone (List.mem_append_right _ hin)
    · have hnew : posted = ⟨job, pool.channels⟩ := by
        obtain ⟨message, hm, hjobFor⟩ := List.mem_filterMap.mp hin
        rw [List.mem_singleton.mp hm, Message.jobFor] at hjobFor
        split at hjobFor
        · exact (Option.some.inj hjobFor).symm
        · cases hjobFor
      have hlt := hwired.fresh posted harrived
      rw [hnew] at hlt
      exact Nat.lt_irrefl _ hlt
  | work hevent =>
    obtain ⟨removed, hremoved⟩ := work_line up evm order hwired.lines posted.job.sessionId _ _ _
    intro hin
    refine hgone ?_
    rw [hremoved]
    exact List.mem_append_right _ hin
  | @resolved i failed hevent =>
    simp only [Worker.step]
    split
    · exact hgone
    · simp only [Worker.line, Worker.waiting, List.filterMap_append, jobFor_unblock, List.append_nil]
      exact hgone

omit [ToString E] [DecidableEq F] in
/-- Who waits at the channel of a job that is out of the line waits no longer. -/
theorem receive_seen {w : ℕ} (hwired : pool.WiredAt w wk)
    (hwk : pool.workers[pool.shard posted.job.sessionId]? = some wk) (harrived : posted ∈ wk.arrived)
    (hgone : posted ∉ wk.line posted.job.sessionId) : pool.receive posted ≠ .pending := by
  have hnobody : (wk.line posted.job.sessionId).any (fun p => decide (p.reply = posted.reply))
      = false := by
    rw [List.any_eq_false]
    intro p hp hreply
    obtain ⟨done, hline⟩ := hwired.lines posted.job.sessionId
    have hall : p ∈ wk.arrivedOf posted.job.sessionId := by
      rw [hline.split, List.nil_append]
      exact List.mem_append_right _ hp
    have hsame : p = posted := List.inj_on_of_nodup_map hwired.nodup (List.mem_filter.mp hall).1
      harrived (of_decide_eq_true hreply)
    exact hgone (by rw [← hsame]; rw [← hsame] at hp; exact hp)
  simp only [Pool.receive, hwk, Worker.receive]
  split
  · rintro ⟨⟩
  · rw [Worker.line] at hnobody
    rw [if_neg (by rw [hnobody]; exact Bool.false_ne_true)]
    rintro ⟨⟩

/-! ### Calls -/

omit [ToString E] [DecidableEq F] in
theorem awaits_hops {call : ManagerCall F} (h : call.awaits = some posted) : 0 < call.hops := by
  cases call <;> cases h <;> simp [ManagerCall.hops]

omit [ToString E] [DecidableEq F] in
/-- A turn brings its call nearer to its end, unless it is idle. -/
theorem turned_hops {i : ℕ} {call call' : ManagerCall F} {pool' : Pool F}
    (h : pool.Turned i call call' pool') :
    (call' = call ∧ pool.Idle call) ∨ call'.hops < call.hops := by
  cases h with
  | idle hjob hidle => exact .inl ⟨rfl, hidle⟩
  | replied hcall h => exact .inr (awaits_hops hcall)
  | gone hcall h => exact .inr (awaits_hops hcall)
  | _ => exact .inr (by simp [ManagerCall.hops])

/-- No event takes a call back. -/
theorem call_after (event : PoolEvent up) {i : ℕ} {call : ManagerCall F}
    (h : pool.calls[i]? = some call) :
    ∃ call', (pool.step up evm order ttl event).calls[i]? = some call' ∧
      (call' = call ∨ call'.hops < call.hops) := by
  have hset : ∀ {j : ℕ} {call₀ call₁ : ManagerCall F}, pool.calls[j]? = some call₀ →
      (call₁ = call₀ ∨ call₁.hops < call₀.hops) →
      ∃ call', (pool.calls.set j call₁)[i]? = some call' ∧
        (call' = call ∨ call'.hops < call.hops) := by
    intro j call₀ call₁ hj hless
    by_cases hij : j = i
    · subst hij
      obtain rfl := Option.some.inj (hj.symm.trans h)
      exact ⟨call₁, List.getElem?_set_self (List.getElem?_eq_some_iff.mp h).1, hless⟩
    · exact ⟨call, by rw [List.getElem?_set_ne hij]; exact h, .inl rfl⟩
  cases event with
  | call method =>
    exact ⟨call, List.getElem?_append_left (List.getElem?_eq_some_iff.mp h).1 ▸ h, .inl rfl⟩
  | turn j =>
    simp only [Pool.step]
    cases hj : pool.calls[j]? with
    | none => exact ⟨call, h, .inl rfl⟩
    | some call₀ =>
      obtain ⟨call₁, hturned⟩ := move_turned pool j call₀
      dsimp only
      rw [turned_calls hturned hj]
      exact hset hj ((turned_hops hturned).imp_left And.left)
  | drop j =>
    simp only [Pool.step]
    split
    · rename_i hj
      exact hset hj (.inr (awaits_hops rfl))
    · rename_i hj
      exact hset hj (.inr (awaits_hops rfl))
    · rename_i hj
      exact hset hj (.inr (awaits_hops rfl))
    · exact ⟨call, h, .inl rfl⟩
  | _ => exact ⟨call, h, .inl rfl⟩

/-- THE TURN of a call that is not idle brings it nearer to its end. -/
theorem turn_hops {i : ℕ} {call call' : ManagerCall F} (h : pool.calls[i]? = some call)
    (hbusy : ¬ pool.Idle call)
    (h' : (pool.step up evm order ttl (.turn i)).calls[i]? = some call') :
    call'.hops < call.hops := by
  obtain ⟨call₁, hturned⟩ := move_turned pool i call
  simp only [Pool.step, h] at h'
  rw [turned_calls hturned h, List.getElem?_set_self (List.getElem?_eq_some_iff.mp h).1] at h'
  rw [← Option.some.inj h']
  exact (turned_hops hturned).resolve_left fun hidle => hbusy hidle.2

/-! ### Whole schedules -/

variable (up evm order ttl) in
/-- What becomes of the pool on a schedule without end. -/
abbrev Pool.at (pool : Pool F) (schedule : ℕ → PoolEvent up) : ℕ → Pool F :=
  after (Pool.step up evm order ttl) pool schedule

variable (up evm order ttl) in
/-- What a schedule owes a pool: every worker takes its messages, every call looks whether there is
    something to receive, and no session's resolver is at work for ever. -/
structure Pool.Attended (pool : Pool F) (schedule : ℕ → PoolEvent up) : Prop where
  works : ∀ w, w < pool.workers.length → ∀ n, ∃ m, n ≤ m ∧
    ∃ now landed spawns, schedule m = .work w now landed spawns
  turns : ∀ i n, i < (pool.at up evm order ttl schedule n).calls.length →
    ∃ m, n ≤ m ∧ schedule m = .turn i
  resolves : ∀ w id n, (∀ m, n ≤ m → ∃ wk,
      (pool.at up evm order ttl schedule m).workers[w]? = some wk ∧ wk.resolves id = true) →
    ∃ m, n ≤ m ∧ ∃ i failed wk resolver, schedule m = .resolved w i failed ∧
      (pool.at up evm order ttl schedule m).workers[w]? = some wk ∧
      wk.resolving[i]? = some resolver ∧ resolver.id = id

theorem at_succ (pool : Pool F) (schedule : ℕ → PoolEvent up) (n : ℕ) :
    pool.at up evm order ttl schedule (n + 1)
      = (pool.at up evm order ttl schedule n).step up evm order ttl (schedule n) := rfl

theorem at_length (pool : Pool F) (schedule : ℕ → PoolEvent up) (n : ℕ) :
    (pool.at up evm order ttl schedule n).workers.length = pool.workers.length := by
  induction n with
  | zero => rfl
  | succ n ih => exact (step_length up evm order ttl _ (schedule n)).trans ih

theorem at_wired (hwired : pool.Wired) (schedule : ℕ → PoolEvent up) (n : ℕ) :
    (pool.at up evm order ttl schedule n).Wired :=
  after_inv (P := Pool.Wired) (fun _ event h => wired_step h event) hwired schedule n

/-- EVERY JOB is seen to, at some time. -/
theorem job_seen {schedule : ℕ → PoolEvent up} (hwired : pool.Wired)
    (hfair : pool.Attended up evm order ttl schedule) {w n : ℕ} {wk : Worker F}
    (hwk : (pool.at up evm order ttl schedule n).workers[w]? = some wk)
    (harrived : posted ∈ wk.arrived) :
    ∃ m, n ≤ m ∧ ∃ wk', (pool.at up evm order ttl schedule m).workers[w]? = some wk' ∧
      posted ∈ wk'.arrived ∧ posted ∉ wk'.line posted.job.sessionId := by
  have hthere : ∀ d, ∃ wk', (pool.at up evm order ttl schedule (n + d)).workers[w]? = some wk' ∧
      posted ∈ wk'.arrived := by
    intro d
    induction d with
    | zero => exact ⟨wk, hwk, harrived⟩
    | succ d ih =>
      obtain ⟨wk₀, hwk₀, hmem⟩ := ih
      obtain ⟨wk', hwk', hmoved⟩ := worker_after (schedule (n + d)) hwk₀
      exact ⟨wk', hwk', (moved_logs hmoved).1.subset hmem⟩
  choose worker hworker hmem using hthere
  have hmoved : ∀ d, (pool.at up evm order ttl schedule (n + d)).Moved up evm order ttl
      (schedule (n + d)) w (worker d) (worker (d + 1)) := by
    intro d
    obtain ⟨wk', hwk', hmoved⟩ := worker_after (schedule (n + d)) (hworker d)
    rwa [Option.some.inj (hwk'.symm.trans (hworker (d + 1)))] at hmoved
  have hat := fun d => (at_wired hwired schedule (n + d)).workers w (worker d) (hworker d)
  suffices hseen : ∃ d, 0 ≤ d ∧ posted ∉ (worker d).line posted.job.sessionId by
    obtain ⟨d, -, hgone⟩ := hseen
    exact ⟨n + d, Nat.le_add_right n d, worker d, hworker d, hmem d, hgone⟩
  -- the worker helps with its next message, or the session's resolver with its end
  refine @ranked_done (Worker F) Bool (ℕ ×ₗ ℕ) _ _ worker (fun wk => wk.rank posted)
    (fun wk => posted ∉ wk.line posted.job.sessionId)
    (fun resolver wk => wk.resolves posted.job.sessionId = resolver)
    (fun resolver d => match resolver with
      | false => ∃ now landed spawns, schedule (n + d) = .work w now landed spawns
      | true => ∃ i failed r, schedule (n + d) = .resolved w i failed ∧
        (worker d).resolving[i]? = some r ∧ r.id = posted.job.sessionId)
    ?_ (fun d _ => ⟨(worker d).resolves posted.job.sessionId, rfl⟩) (fun d hwaits => ?_)
    (fun d resolver hwaits hhelps hturn => ?_) 0
  · intro resolver d hhelps
    cases resolver with
    | false =>
      have hlt := (List.getElem?_eq_some_iff.mp hwk).1
      rw [at_length] at hlt
      obtain ⟨m, hm, hwork⟩ := hfair.works w hlt (n + d)
      obtain ⟨k, rfl⟩ := Nat.exists_eq_add_of_le hm
      exact ⟨d + k, Nat.le_add_right d k, by rw [← Nat.add_assoc]; exact hwork⟩
    | true =>
      obtain ⟨m, hm, i, failed, wk', r, hevent, hwk', hr, hid⟩ := hfair.resolves w
        posted.job.sessionId (n + d) fun m hm => by
          obtain ⟨k, rfl⟩ := Nat.exists_eq_add_of_le hm
          rw [Nat.add_assoc]
          exact ⟨worker (d + k), hworker (d + k), hhelps (d + k) (Nat.le_add_right d k)⟩
      obtain ⟨k, rfl⟩ := Nat.exists_eq_add_of_le hm
      rw [Nat.add_assoc] at hevent hwk'
      obtain rfl := Option.some.inj (hwk'.symm.trans (hworker (d + k)))
      exact ⟨d + k, Nat.le_add_right d k, i, failed, r, hevent, hr, hid⟩
  · rcases moved_ranked (hat d) (not_not.mp hwaits) (hmoved d) with hgone | hless | hsame
    · exact .inl hgone
    · exact .inr (.inl hless)
    · exact .inr (.inr ⟨hsame, fun resolver hhelps => (rank_resolves hsame).trans hhelps⟩)
  · have hmoves := hmoved d
    cases resolver with
    | false =>
      obtain ⟨now, landed, spawns, hevent⟩ := hturn
      have hwk' : worker (d + 1) = Worker.step up evm order (.work now landed spawns) (worker d) := by
        have hnext := hworker (d + 1)
        rw [← Nat.add_assoc, at_succ, hevent, Pool.step] at hnext
        simpa [hworker d] using hnext.symm
      rw [hwk']
      rcases work_ranked up evm order (hat d).lines (hat d).nodup (not_not.mp hwaits) now landed
        spawns with hgone | hless | ⟨hresolves, -⟩
      · exact .inl hgone
      · exact .inr hless
      · rw [hhelps] at hresolves
        cases hresolves
    | true =>
      obtain ⟨i, failed, r, hevent, hr, hid⟩ := hturn
      have hwk' : worker (d + 1) = Worker.step up evm order (.resolved i failed) (worker d) := by
        have hnext := hworker (d + 1)
        rw [← Nat.add_assoc, at_succ, hevent, Pool.step] at hnext
        simpa [hworker d] using hnext.symm
      rw [hwk']
      refine .inr ((resolved_ranked up evm order (hat d).lines (not_not.mp hwaits) i
        failed).resolve_right fun hother => hother.1 r hr hid)

/-- A call that waits is served some time. -/
theorem call_ready {schedule : ℕ → PoolEvent up} (hwired : pool.Wired)
    (hfair : pool.Attended up evm order ttl schedule) {i n : ℕ} {call : ManagerCall F}
    (hcall : ∀ m, n ≤ m → (pool.at up evm order ttl schedule m).calls[i]? = some call)
    (hopen : call.hops ≠ 0) :
    ∃ m, n ≤ m ∧ schedule m = .turn i ∧ ¬ (pool.at up evm order ttl schedule m).Idle call := by
  have hturn : ∀ k, n ≤ k → ∃ m, k ≤ m ∧ schedule m = .turn i := fun k hk =>
    hfair.turns i k (List.getElem?_eq_some_iff.mp (hcall k hk)).1
  cases hawaits : call.awaits with
  | none =>
    obtain ⟨m, hm, hevent⟩ := hturn n le_rfl
    refine ⟨m, hm, hevent, ?_⟩
    rintro (hover | ⟨posted, hposted, -⟩)
    · exact hopen hover
    · rw [hawaits] at hposted
      cases hposted
  | some posted =>
    obtain ⟨wk, hwk, harrived⟩ := (at_wired hwired schedule n).awaited call
      (List.mem_of_getElem? (hcall n le_rfl)) posted hawaits
    obtain ⟨k, hk, hseen⟩ := job_seen hwired hfair hwk harrived
    -- what is seen to stays so, up to the call's next turn
    have hstays : ∀ d, ∃ wk', (pool.at up evm order ttl schedule (k + d)).workers[
        (pool.at up evm order ttl schedule n).shard posted.job.sessionId]? = some wk' ∧
        posted ∈ wk'.arrived ∧ posted ∉ wk'.line posted.job.sessionId := by
      intro d
      induction d with
      | zero => exact hseen
      | succ d ih =>
        obtain ⟨wk₀, hwk₀, hmem, hgone⟩ := ih
        obtain ⟨wk', hwk', hmoved⟩ := worker_after (schedule (k + d)) hwk₀
        exact ⟨wk', hwk', (moved_logs hmoved).1.subset hmem, moved_gone_line
          ((at_wired hwired schedule (k + d)).workers _ wk₀ hwk₀) hmem hgone hmoved⟩
    obtain ⟨m, hm, hevent⟩ := hturn k hk
    obtain ⟨d, rfl⟩ := Nat.exists_eq_add_of_le hm
    obtain ⟨wk', hwk', hmem, hgone⟩ := hstays d
    refine ⟨k + d, hk.trans hm, hevent, ?_⟩
    rintro (hover | ⟨posted', hposted, hpending⟩)
    · exact hopen hover
    · obtain rfl := Option.some.inj (hawaits.symm.trans hposted)
      have hshard : (pool.at up evm order ttl schedule (k + d)).shard posted.job.sessionId
          = (pool.at up evm order ttl schedule n).shard posted.job.sessionId := by
        rw [Pool.shard, Pool.shard, at_length, at_length]
      rw [← hshard] at hwk'
      exact receive_seen ((at_wired hwired schedule (k + d)).workers _ wk' hwk') hwk' hmem hgone
        hpending

/-- How a call ends: with the reply its session's worker gave to its job, with a session opened, with
    the worker's panic, or dropped. -/
inductive Pool.Ended (pool : Pool F) : ManagerCall F → Prop
  | replied {posted : Posted F} {reply : Reply F} (h : pool.Told posted reply) :
    Ended pool (.replied posted reply)
  | opened (id : SessionId) : Ended pool (.opened id)
  | workerGone : Ended pool .workerGone
  | dropped : Ended pool .dropped

/-- LIVENESS: in a pool that is attended to, every call a method is made with comes to its end,
    however many others there are, whatever panics and whatever upstream does. -/
theorem pool_answers (fetch : Fetch F) (numWorkers : ℕ) {schedule : ℕ → PoolEvent up}
    (hfair : (Pool.start fetch numWorkers).Attended up evm order ttl schedule) {i n : ℕ}
    (hi : i < ((Pool.start fetch numWorkers).at up evm order ttl schedule n).calls.length) :
    ∃ m, n ≤ m ∧ ∃ call,
      ((Pool.start fetch numWorkers).at up evm order ttl schedule m).calls[i]? = some call ∧
      ((Pool.start fetch numWorkers).at up evm order ttl schedule m).Ended call := by
  have hwired := wired_start (F := F) fetch numWorkers
  generalize Pool.start fetch numWorkers = pool at hfair hi hwired ⊢
  have hthere : ∀ d, ∃ call,
      (pool.at up evm order ttl schedule (n + d)).calls[i]? = some call := by
    intro d
    induction d with
    | zero => exact ⟨_, List.getElem?_eq_getElem hi⟩
    | succ d ih =>
      obtain ⟨call, hcall⟩ := ih
      obtain ⟨call', hcall', -⟩ := call_after (schedule (n + d)) hcall
      exact ⟨call', hcall'⟩
  choose call hcall using hthere
  have hnext : ∀ d, call (d + 1) = call d ∨ (call (d + 1)).hops < (call d).hops := by
    intro d
    obtain ⟨call', hcall', hless⟩ := call_after (schedule (n + d)) (hcall d)
    rwa [Option.some.inj (hcall'.symm.trans (hcall (d + 1)))] at hless
  suffices hends : ∃ d, 0 ≤ d ∧ (call d).hops = 0 by
    obtain ⟨d, -, hover⟩ := hends
    refine ⟨n + d, Nat.le_add_right n d, call d, hcall d, ?_⟩
    have hat : (pool.at up evm order ttl schedule (n + d)).Wired :=
      at_wired hwired schedule (n + d)
    have hmem := List.mem_of_getElem? (hcall d)
    cases hc : call d with
    | replied posted reply =>
      rw [hc] at hmem
      exact .replied (hat.told posted reply hmem)
    | opened id => exact .opened id
    | workerGone => exact .workerGone
    | dropped => exact .dropped
    | _ => rw [hc] at hover; cases hover
  -- every turn that finds something to do takes the call on
  refine @ranked_done (ManagerCall F) (ManagerCall F) ℕ _ _ call ManagerCall.hops
    (fun c => c.hops = 0) (fun c c' => c' = c) (fun c d => c.hops ≠ 0 →
      schedule (n + d) = .turn i ∧ ¬ (pool.at up evm order ttl schedule (n + d)).Idle c)
    (fun c d hkeeps => ?_) (fun d _ => ⟨call d, rfl⟩) (fun d _ => ?_)
    (fun d c hopen hhelps hturn => ?_) 0
  · by_cases hopen : c.hops = 0
    · exact ⟨d, le_rfl, fun hne => absurd hopen hne⟩
    · have hstill : ∀ m, n + d ≤ m →
          (pool.at up evm order ttl schedule m).calls[i]? = some c := by
        intro m hm
        obtain ⟨k, rfl⟩ := Nat.exists_eq_add_of_le hm
        rw [Nat.add_assoc, hcall, hkeeps (d + k) (Nat.le_add_right d k)]
      obtain ⟨m, hm, hevent, hbusy⟩ := call_ready hwired hfair hstill hopen
      obtain ⟨k, rfl⟩ := Nat.exists_eq_add_of_le hm
      rw [Nat.add_assoc] at hevent hbusy
      exact ⟨d + k, Nat.le_add_right d k, fun _ => ⟨hevent, hbusy⟩⟩
  · rcases hnext d with hsame | hless
    · exact .inr (.inr ⟨by rw [hsame], fun c hc => hsame.trans hc⟩)
    · exact .inr (.inl hless)
  · subst hhelps
    obtain ⟨hevent, hbusy⟩ := hturn hopen
    have hafter := hcall (d + 1)
    rw [← Nat.add_assoc, at_succ, hevent] at hafter
    exact .inr (turn_hops (hcall d) hbusy hafter)

end Steps

/-- A session is opened; a slot of it is read and a discard asked for, which waits behind the parked
    read until the resolver has failed and the read is run blocking. -/
def parkedRead : List (PoolEvent emptyUpstream) :=
  [.call (.register .empty () ⟨1, 0, 0, 30000000⟩ none), .turn 0, .turn 0, .work 0 0 .nothing true,
    .turn 0, .call (.ask ⟨.read 0 (.storage 0xa 8), rfl⟩),
    .call (.ask ⟨.command (.discard 0), rfl⟩), .turn 1, .turn 2, .work 0 1 .nothing true,
    .work 0 2 .nothing true, .resolved 0 0 true, .work 0 3 .nothing true, .turn 1, .turn 2]

/-- The three calls and the worker take turns for ever. -/
def roundRobin : ℕ → PoolEvent emptyUpstream
  | 0 => .turn 0
  | 1 => .turn 1
  | 2 => .turn 2
  | _ => .work 0 4 .nothing true

def attending (n : ℕ) : PoolEvent emptyUpstream := parkedRead[n]?.getD (roundRobin (n % 4))

theorem attending_rounds {n : ℕ} (hn : 15 ≤ n) : attending n = roundRobin (n % 4) := by
  rw [attending, List.getElem?_eq_none hn, Option.getD_none]

/-- From the fifteenth event on there is nothing left to do. -/
theorem attending_settles (n : ℕ) :
    (Pool.start .cold 1).at emptyUpstream inert .some 60 attending (n + 15)
      = (Pool.start .cold 1).at emptyUpstream inert .some 60 attending 15 := by
  induction n with
  | zero => rfl
  | succ n ih =>
    rw [show n + 1 + 15 = n + 15 + 1 from rfl, at_succ, ih, attending_rounds (by omega)]
    have hturn : (n + 15) % 4 < 4 := Nat.mod_lt _ (by decide)
    generalize (n + 15) % 4 = k at hturn
    match k, hturn with
    | 0, _ => rfl
    | 1, _ => rfl
    | 2, _ => rfl
    | 3, _ => rfl

theorem attending_attended :
    (Pool.start .cold 1).Attended emptyUpstream inert .some 60 attending := by
  have hround : ∀ k < 4, ∀ n, attending (4 * (n + 4) + k) = roundRobin k := by
    intro k hk n
    rw [attending_rounds (by omega), Nat.mul_add_mod, Nat.mod_eq_of_lt hk]
  refine ⟨fun w hw n => ⟨4 * (n + 4) + 3, by omega, 4, .nothing, true, ?_⟩, fun i n hi => ?_,
    fun w id n h => ?_⟩
  · obtain rfl : w = 0 := Nat.lt_one_iff.mp hw
    exact hround 3 (by decide) n
  · have hthree : ((Pool.start .cold 1).at emptyUpstream inert .some 60 attending n).calls.length
        ≤ 3 := by
      rcases Nat.lt_or_ge n 15 with hlt | hge
      · have hall : ∀ n < 15, ((Pool.start .cold 1).at emptyUpstream inert .some 60 attending
            n).calls.length ≤ 3 := by decide +kernel
        exact hall n hlt
      · obtain ⟨k, rfl⟩ := Nat.exists_eq_add_of_le' hge
        rw [attending_settles]
        exact le_rfl
    refine ⟨4 * (n + 4) + i, by omega, ?_⟩
    rw [hround i (by omega)]
    match i, hi.trans_le hthree with
    | 0, _ => rfl
    | 1, _ => rfl
    | 2, _ => rfl
  · obtain ⟨wk, hwk, hresolves⟩ := h (n + 15) (Nat.le_add_right n 15)
    rw [attending_settles] at hwk
    have hnone : ∀ wk ∈ ((Pool.start .cold 1).at emptyUpstream inert .some 60 attending
        15).workers, wk.resolving = [] := by
      rintro wk (_ | ⟨_, ⟨⟩⟩)
      rfl
    rw [Worker.resolves, hnone wk (List.mem_of_getElem? hwk)] at hresolves
    cases hresolves

/-- All three are answered, though a resolver is at work when the last of them is made. -/
theorem pool_answers_parked :
    (∃ wk, ((Pool.start .cold 1).at emptyUpstream inert .some 60 attending 11).workers[0]? = some wk ∧
      wk.resolves 0 = true ∧ (wk.line 0).length = 2) ∧
    ∀ i < 3, ∃ m, 11 ≤ m ∧ ∃ call,
      ((Pool.start .cold 1).at emptyUpstream inert .some 60 attending m).calls[i]? = some call ∧
      ((Pool.start .cold 1).at emptyUpstream inert .some 60 attending m).Ended call :=
  ⟨⟨_, rfl, rfl, rfl⟩, fun _ hi => pool_answers .cold 1 attending_attended (by exact hi)⟩

end Forkyard
