import Forkyard.Schemes.Steps
import Forkyard.Session.Loop

/-! When sessions expire. An idle session is gone a second after its `ttl` as long as its worker is
    idle too, from the moment the `ttl` is over until the sweep: every message starts the second of
    waiting again. And a session whose job is parked is swept like any other, by its stamp, which
    says when the job was last tried.

        touched ────ttl────▶ expired ──idle for a second──▶ swept
        parked  ────ttl────▶ a sweep ──▶ gone, its jobs answered Unknown -/

namespace Forkyard

open Schemes

variable {F E : Type}

namespace Loop

section Guards

variable {up : F → Upstream E} (ttl : ℕ)

/-- No idle session has been idle for longer than `ttl` at `t`. -/
def Fresh (t : ℕ) (l : Loop F) : Prop :=
  ∀ id st, l.worker.blocked.lookup id = none → l.worker.sessions.lookup id = some st →
    t ≤ st.2 + ttl

/-- While a message waits or is handled, until the worker waits again, no idle session's `ttl`
    passes. -/
def Attentive (l : Loop F) : LoopEvent up → Prop
  | .elapse d => (l.since.isSome = true ∧ l.worker.inbox = []) ∨ l.Fresh ttl (l.now + d)
  | .finish => l.since.isSome = true ∨ l.Fresh ttl l.now
  | _ => True

/-- When the second of a wait is over, no session with a parked job was last touched `ttl`
    before. -/
def Patient (l : Loop F) : LoopEvent up → Prop
  | .elapse d => ∀ t, l.since = some t → l.worker.inbox = [] → t + SECOND ≤ l.now + d →
    ∀ id st, (l.worker.blocked.lookup id).isSome = true → l.worker.sessions.lookup id = some st →
      t + SECOND - st.2 < ttl
  | _ => True

end Guards

section Properties

variable [ToString E] [DecidableEq F] (up : F → Upstream E) (evm : Evm E) (order : HashOrder)
  (ttl : ℕ)

/-- A session with no job parked or queued is out of the map once its last touch is more than `ttl`
    and a second ago, and a job then accepted for it is answered `Unknown`. -/
structure OnTime (l : Loop F) : Prop where
  gone : ∀ id st, l.worker.blocked.lookup id = none → l.worker.sessions.lookup id = some st →
    l.now ≤ st.2 + ttl + SECOND
  unknown : ∀ posted inbox reply (landed : Landed up) spawns, l.since.isSome = true →
    l.worker.inbox = .job posted :: inbox → posted.job.unknown = some reply →
    l.worker.blocked.lookup posted.job.sessionId = none →
    (∀ st, l.worker.sessions.lookup posted.job.sessionId = some st →
      (st.2 + ttl + SECOND : ℕ) < l.now) →
    (l.step up evm order ttl (.take landed spawns)).worker.answers
      = l.worker.answers ++ [(posted, reply)]

/-- A session with a parked job is in the map, and when the job's `unblock` comes no job of its
    queue is answered `Unknown`, unless one of them discards the session. -/
structure InUse (l : Loop F) : Prop where
  kept : ∀ id, (l.worker.blocked.lookup id).isSome = true →
    (l.worker.sessions.lookup id).isSome = true
  known : ∀ id failed inbox blocked (landed : Landed up) spawns, l.since.isSome = true →
    l.worker.inbox = .unblock id failed :: inbox → l.worker.blocked.lookup id = some blocked →
    (∀ posted ∈ blocked.queue, posted.job.discards = false) →
    ∃ more, (l.step up evm order ttl (.take landed spawns)).worker.answers
        = l.worker.answers ++ more ∧ ∀ a ∈ more, a.2.isUnknown = false

end Properties

variable {ttl : ℕ} {l : Loop F}

/-! ### Sweeping -/

/-- Sweeping leaves everybody in line. -/
theorem lines_sweep {wk : Worker F} (h : wk.Lines) (now : ℕ) : (wk.sweep ttl now).Lines :=
  fun id => by
    obtain ⟨done, hline⟩ := h id
    exact ⟨done, hline.split, hline.owed, hline.parked⟩

theorem sweep_lookup (wk : Worker F) (now : ℕ) (id : SessionId) (st : Session F × Instant) :
    (wk.sweep ttl now).sessions.lookup id = some st ↔
      wk.sessions.lookup id = some st ∧ now - st.2 < ttl := by
  rw [Worker.sweep, Map.lookup_retain, Option.filter_eq_some_iff, decide_eq_true_eq]

/-! ### Idle sessions -/

/-- INVARIANT of an attentive worker: no session had expired when it began to wait. -/
structure Timely (ttl : ℕ) (l : Loop F) : Prop where
  lines : l.worker.Lines
  onTime : ∀ id st, l.worker.blocked.lookup id = none → l.worker.sessions.lookup id = some st →
    l.now ≤ st.2 + ttl + SECOND
  begun : ∀ t, l.since = some t → l.Fresh ttl t ∧ (l.worker.inbox = [] → l.now ≤ t + SECOND)

theorem timely_start (ttl : ℕ) (fetch : Fetch F) : (Loop.start fetch).Timely ttl := by
  refine ⟨lines_start fetch, fun id st _ h => ?_, fun t ht => ⟨fun id st _ h => ?_, fun _ => ?_⟩⟩
  · simp [Loop.start, Worker.start] at h
  · simp [Loop.start, Worker.start] at h
  · exact Nat.zero_le _

variable [ToString E] [DecidableEq F] {up : F → Upstream E} {evm : Evm E} {order : HashOrder}

variable (evm order ttl) in
theorem lines_step (h : l.worker.Lines) (event : LoopEvent up) :
    (l.step up evm order ttl event).worker.Lines := by
  cases event with
  | post posted => exact lines_post h posted
  | resolved i failed => exact lines_resolved up evm order h i failed
  | elapse d =>
    simp only [step]
    split
    · split
      · exact h
      · exact lines_sweep h _
    · exact h
  | take landed spawns =>
    simp only [step]
    split
    · exact (work_worked up evm order h l.now landed spawns).lines
    · exact h
  | finish =>
    simp only [step]
    split <;> exact h

variable (up evm order ttl) in
/-- What the passing of time does: a wait goes on, its second is over and the sessions are swept, or
    nobody is waiting in vain. -/
theorem elapse_cases (l : Loop F) (d : ℕ) :
    (∃ t, l.since = some t ∧ l.worker.inbox = [] ∧ l.now + d < t + SECOND ∧
        l.step up evm order ttl (.elapse d) = { l with now := l.now + d }) ∨
      (∃ t, l.since = some t ∧ l.worker.inbox = [] ∧ t + SECOND ≤ l.now + d ∧
        l.step up evm order ttl (.elapse d)
          = ⟨l.worker.sweep ttl (t + SECOND), t + SECOND, some (t + SECOND)⟩) ∨
      ((∀ t, l.since = some t → l.worker.inbox ≠ []) ∧
        l.step up evm order ttl (.elapse d) = { l with now := l.now + d }) := by
  simp only [step]
  split
  · rename_i t ht hinbox
    rcases Nat.lt_or_ge (l.now + d) (t + SECOND) with hsecond | hsecond
    · exact .inl ⟨t, ht, hinbox, hsecond, if_pos hsecond⟩
    · exact .inr (.inl ⟨t, ht, hinbox, hsecond, if_neg (Nat.not_lt_of_ge hsecond)⟩)
  · rename_i hbusy
    exact .inr (.inr ⟨hbusy, rfl⟩)

omit [ToString E] [DecidableEq F] in
/-- A message that arrives ends no wait in vain. -/
theorem timely_mail (h : l.Timely ttl) {wk : Worker F} (hlines : wk.Lines)
    (hsessions : wk.sessions = l.worker.sessions) (hblocked : wk.blocked = l.worker.blocked)
    (hinbox : wk.inbox ≠ []) : Timely ttl { l with worker := wk } := by
  refine ⟨hlines, fun id st hb hst => ?_, fun t ht => ⟨fun id st hb hst => ?_, fun hnil => ?_⟩⟩
  · exact h.onTime id st (hblocked ▸ hb) (hsessions ▸ hst)
  · exact (h.begun t ht).1 id st (hblocked ▸ hb) (hsessions ▸ hst)
  · exact absurd hnil hinbox

omit [ToString E] [DecidableEq F] in
theorem timely_later (h : l.Timely ttl) (d : ℕ)
    (honTime : ∀ id st, l.worker.blocked.lookup id = none →
      l.worker.sessions.lookup id = some st → l.now + d ≤ st.2 + ttl + SECOND)
    (hwait : ∀ t, l.since = some t → l.worker.inbox = [] → l.now + d ≤ t + SECOND) :
    Timely ttl { l with now := l.now + d } :=
  ⟨h.lines, honTime, fun t ht => ⟨(h.begun t ht).1, hwait t ht⟩⟩

omit [ToString E] [DecidableEq F] in
/-- What a sweep leaves was touched less than `ttl` ago. -/
theorem timely_swept {wk : Worker F} (h : wk.Lines) (ttl now : ℕ) :
    Timely ttl ⟨wk.sweep ttl now, now, some now⟩ := by
  have hswept : Fresh ttl now ⟨wk.sweep ttl now, now, some now⟩ := by
    intro id st _ hst
    have hless := ((sweep_lookup wk now id st).mp hst).2
    omega
  refine ⟨lines_sweep h now, fun id st hb hst => ?_, fun t ht => ?_⟩
  · exact (hswept id st hb hst).trans (Nat.le_add_right _ _)
  · obtain rfl := Option.some.inj ht
    exact ⟨hswept, fun _ => Nat.le_add_right _ _⟩

/-- STEP LEMMA. -/
theorem timely_step (h : l.Timely ttl) (event : LoopEvent up) (hguard : l.Attentive ttl event) :
    (l.step up evm order ttl event).Timely ttl := by
  have hlines := lines_step ttl evm order h.lines event
  cases event with
  | post posted =>
    have hinbox : l.worker.inbox ++ [.job posted] ≠ [] :=
      List.append_ne_nil_of_right_ne_nil _ (List.cons_ne_nil _ _)
    exact timely_mail h hlines rfl rfl hinbox
  | resolved i failed =>
    simp only [step, Worker.step] at hlines ⊢
    split at hlines
    · exact h
    · rename_i resolver hi
      have hinbox : l.worker.inbox ++ [.unblock resolver.id (resolver.fallback.isNone || failed)]
          ≠ [] := List.append_ne_nil_of_right_ne_nil _ (List.cons_ne_nil _ _)
      exact timely_mail h hlines rfl rfl hinbox
  | elapse d =>
    rcases elapse_cases ttl up evm order l d with
      ⟨t, ht, hinbox, hsecond, hmove⟩ | ⟨t, -, -, -, hmove⟩ | ⟨hbusy, hmove⟩ <;> rw [hmove]
    · -- nobody had expired when the wait began, and it is not a second old
      obtain ⟨hfresh, -⟩ := h.begun t ht
      refine timely_later h d (fun id st hb hst => ?_) fun t' ht' _ => ?_
      · have hbegun := hfresh id st hb hst
        omega
      · obtain rfl := Option.some.inj (ht'.symm.trans ht)
        exact hsecond.le
    · exact timely_swept h.lines ttl (t + SECOND)
    · have hfresh := hguard.resolve_left fun hidle => by
        obtain ⟨t, ht⟩ := Option.isSome_iff_exists.mp hidle.1
        exact hbusy t ht hidle.2
      refine timely_later h d (fun id st hb hst => ?_) fun t ht hinbox => ?_
      · exact (hfresh id st hb hst).trans (Nat.le_add_right _ _)
      · exact absurd hinbox (hbusy t ht)
  | take landed spawns =>
    simp only [step] at hlines ⊢
    split
    · have hworked := work_worked up evm order h.lines l.now landed spawns
      refine ⟨hworked.lines, fun id st hb hst => ?_, by rintro _ ⟨⟩⟩
      rcases hworked.stamp id st hb hst with hnow | ⟨hb', hst'⟩
      · have hstamp := Nat.le_of_eq hnow.symm
        dsimp only
        omega
      · exact h.onTime id st hb' hst'
    · exact h
  | finish =>
    cases hsince : l.since with
    | some t =>
      have hsame : l.step up evm order ttl .finish = l := by
        simp only [step, hsince]
      rw [hsame]
      exact h
    | none =>
      have hmove : l.step up evm order ttl .finish = { l with since := some l.now } := by
        simp only [step, hsince]
      have hfresh : l.Fresh ttl l.now := by
        refine hguard.resolve_left ?_
        rw [hsince]
        exact Bool.false_ne_true
      rw [hmove]
      refine ⟨h.lines, h.onTime, fun t ht => ?_⟩
      obtain rfl := Option.some.inj ht
      exact ⟨hfresh, fun _ => Nat.le_add_right _ _⟩

/-- Where no session is left too long, a job for one that was is answered `Unknown`. -/
theorem timely_onTime (h : l.Timely ttl) : l.OnTime up evm order ttl := by
  refine ⟨h.onTime, fun posted inbox reply landed spawns hsince hinbox hreply hb hlate => ?_⟩
  have hnone : l.worker.sessions.lookup posted.job.sessionId = none := by
    cases hst : l.worker.sessions.lookup posted.job.sessionId with
    | none => rfl
    | some st =>
      have hgone := h.onTime posted.job.sessionId st hb hst
      exact absurd hgone (Nat.not_le_of_lt (hlate st hst))
  obtain ⟨t, ht⟩ := Option.isSome_iff_exists.mp hsince
  have hhandle := handle_unknown up evm order l.now false
    { l.worker.fetch with landed := landed.1 } hnone hreply
  simp only [step, ht, hinbox, Worker.step, Worker.accept, hb, hhandle]

/-- EXACT: in every run in which the worker has nothing to do from the moment an idle session's
    `ttl` is over until it is swept, every idle session expires on time. -/
theorem idle_expires (fetch : Fetch F) (ttl : ℕ) (events : List (LoopEvent up))
    (hguard : Guarded (Loop.step up evm order ttl) (Attentive ttl) (.start fetch) events) :
    (runAll (Loop.step up evm order ttl) (.start fetch) events).OnTime up evm order ttl :=
  timely_onTime (guarded_inv (P := Timely ttl) (fun _ event h hg => timely_step h event hg) _ events
    (timely_start ttl fetch) hguard)

/-- A session is opened, and its worker left alone. -/
def leftAlone : List (LoopEvent fun _ : Unit => Upstream.vacant "missing") :=
  [.post ⟨.command (.fork 1 .empty () ⟨1, 0, 0, 30000000⟩ none), 0⟩, .take .nothing true, .finish,
    .elapse SECOND, .elapse SECOND]

theorem idle_expires_alone :
    (runAll (Loop.step (fun _ : Unit => Upstream.vacant "missing") (fun _ _ _ => .panic) .some SECOND)
      (.start .cold) leftAlone).OnTime (fun _ : Unit => Upstream.vacant "missing")
        (fun _ _ _ => .panic) .some SECOND :=
  idle_expires .cold SECOND leftAlone
    ⟨trivial, trivial, .inr fun _ _ _ _ => Nat.zero_le _, .inl ⟨rfl, rfl⟩, .inl ⟨rfl, rfl⟩, trivial⟩

/-- A session is opened, and another one is asked something every 0.9 seconds, three times. -/
def keptBusy : List (LoopEvent fun _ : Unit => Upstream.vacant "missing") :=
  let other : Posted Unit := ⟨.command (.blockEnvOf 2), 1⟩
  let asked := [.elapse 900000000, .post other, .take .nothing true, .finish]
  [.post ⟨.command (.fork 1 .empty () ⟨1, 0, 0, 30000000⟩ none), 0⟩, .take .nothing true, .finish]
    ++ (asked ++ asked ++ asked)

/-- The first is there 2.7 seconds after its last touch, with a `ttl` of one. -/
theorem busy_never_sweeps :
    ¬ (runAll (Loop.step (fun _ : Unit => Upstream.vacant "missing") (fun _ _ _ => .panic) .some SECOND)
      (.start .cold) keptBusy).OnTime (fun _ : Unit => Upstream.vacant "missing")
        (fun _ _ _ => .panic) .some SECOND := by
  intro h
  have hgone := h.gone 1 (.fork .empty () ⟨1, 0, 0, 30000000⟩, 0) rfl rfl
  exact absurd hgone (by decide)

/-! ### Sessions in use -/

/-- INVARIANT of a patient worker: whoever is parked is there. -/
structure Attended (l : Loop F) : Prop where
  lines : l.worker.Lines
  kept : ∀ id, (l.worker.blocked.lookup id).isSome = true →
    (l.worker.sessions.lookup id).isSome = true

omit [DecidableEq F] [ToString E] in
theorem attended_start (fetch : Fetch F) : (Loop.start fetch).Attended :=
  ⟨lines_start fetch, fun id h => by simp [Loop.start, Worker.start] at h⟩

/-- STEP LEMMA. -/
theorem attended_step (h : l.Attended) (event : LoopEvent up) (hguard : l.Patient ttl event) :
    (l.step up evm order ttl event).Attended := by
  refine ⟨lines_step ttl evm order h.lines event, ?_⟩
  cases event with
  | post posted => exact h.kept
  | resolved i failed =>
    simp only [step, Worker.step]
    split <;> exact h.kept
  | elapse d =>
    rcases elapse_cases ttl up evm order l d with
      ⟨-, -, -, -, hmove⟩ | ⟨t, ht, hinbox, hsecond, hmove⟩ | ⟨-, hmove⟩ <;> rw [hmove]
    · exact h.kept
    · intro id hblocked
      obtain ⟨st, hst⟩ := Option.isSome_iff_exists.mp (h.kept id hblocked)
      have hless := hguard t ht hinbox hsecond id st hblocked hst
      have hswept := (sweep_lookup l.worker (t + SECOND) id st).mpr ⟨hst, hless⟩
      rw [hswept]
      rfl
    · exact h.kept
  | take landed spawns =>
    simp only [step]
    split
    · exact (work_worked up evm order h.lines l.now landed spawns).parked h.kept
    · exact h.kept
  | finish =>
    simp only [step]
    split <;> exact h.kept

theorem attended_inUse (h : l.Attended) : l.InUse up evm order ttl := by
  refine ⟨h.kept, fun id failed inbox blocked landed spawns hsince hinbox hb hkeep => ?_⟩
  obtain ⟨t, ht⟩ := Option.isSome_iff_exists.mp hsince
  obtain ⟨done, hline⟩ := h.lines id
  have hown : ∀ posted ∈ blocked.queue, posted.job.sessionId = id := by
    intro posted hmem
    have hwaits : posted ∈ [] ++ l.worker.queued id := by
      rw [List.nil_append, Worker.queued, hb]
      exact hmem
    exact (inLine_mem hline hwaits).1
  have hsome : (l.worker.sessions.lookup id).isSome = true := h.kept id (by rw [hb]; rfl)
  simp only [step, ht, hinbox, Worker.step, Worker.accept, Worker.unblock, hb]
  exact drain_known l.now spawns blocked.queue blocked.rounds _ _ hown hkeep hsome

/-- EXACT: in every run in which no sweep comes `ttl` or more after a parked job was last tried, no
    session with a parked job is swept, and no job of its queue is answered `Unknown`. -/
theorem used_kept (fetch : Fetch F) (ttl : ℕ) (events : List (LoopEvent up))
    (hguard : Guarded (Loop.step up evm order ttl) (Patient ttl) (.start fetch) events) :
    (runAll (Loop.step up evm order ttl) (.start fetch) events).InUse up evm order ttl :=
  attended_inUse (guarded_inv (P := Attended) (fun _ event h hg => attended_step h event hg) _
    events (attended_start fetch) hguard)

/-- A slot of a session is read, and upstream takes its time. -/
def slowRead (waits : List ℕ) : List (LoopEvent fun _ : Unit => Upstream.vacant "missing") :=
  [.post ⟨.command (.fork 1 .empty () ⟨1, 0, 0, 30000000⟩ none), 0⟩, .take .nothing true, .finish,
    .post ⟨.read 1 (.storage 0xa 7), 1⟩, .take .nothing true, .finish] ++
  waits.map .elapse ++ [.resolved 0 false]

/-- A second and a half, with a `ttl` of two. -/
theorem used_kept_slow :
    (runAll (Loop.step (fun _ : Unit => Upstream.vacant "missing") (fun _ _ _ => .panic) .some
        (2 * SECOND)) (.start .cold) (slowRead [SECOND, 500000000])).InUse
      (fun _ : Unit => Upstream.vacant "missing") (fun _ _ _ => .panic) .some (2 * SECOND) := by
  refine used_kept .cold (2 * SECOND) (slowRead [SECOND, 500000000])
    ⟨trivial, trivial, trivial, trivial, trivial, trivial, ?_, ?_, trivial, trivial⟩
  · rintro t ht - - id st - -
    obtain rfl : 0 = t := Option.some.inj ht
    exact Nat.lt_of_le_of_lt (Nat.sub_le _ _) (by decide)
  · -- the sweep at the first second's end has begun another one
    rintro t ht - hover
    obtain rfl : SECOND = t := Option.some.inj ht
    exact absurd hover (by decide)

/-- Two and a half seconds: the session is swept, and the read answered `Unknown`. -/
theorem parked_swept :
    let step := Loop.step (fun _ : Unit => Upstream.vacant "missing") (fun _ _ _ => .panic) .some
      (2 * SECOND)
    let l := runAll step (.start .cold) (slowRead [SECOND, SECOND, 500000000])
    ¬ l.InUse (fun _ : Unit => Upstream.vacant "missing") (fun _ _ _ => .panic) .some (2 * SECOND) ∧
      (step l (.take .nothing true)).worker.answers
        = l.worker.answers ++ [(⟨.read 1 (.storage 0xa 7), 1⟩, .storage (.error (.unknown 1)))] := by
  refine ⟨fun h => ?_, rfl⟩
  have hkept := h.kept 1 rfl
  cases hkept

end Loop

end Forkyard
