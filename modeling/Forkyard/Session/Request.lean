import Forkyard.Session.Retry

/-! The five kinds of job that read upstream state, with their replies, and what they leave behind.
    Two sessions that show the same map and sit at the same block are the `Same` to every later job;
    `leaves_no_trace` says that a job which commits nothing leaves a session the same, however often
    it was parked and retried, and whether it ended in a reply, an error or a panic.

        s ──simulate / failed advance / panic──▶ s'
        └──────────────── Same ──────────────────┘ -/

namespace Forkyard

open Schemes

variable {F E R : Type}

inductive Request where
  | simulate (tx : TxEnv) (disableChecks : Bool)
  | advance (tx : TxEnv)
  | storage (address : Address) (key : StorageKey)
  | code (address : Address)
  | basic (address : Address)
  deriving DecidableEq

/-- What a job of any kind may be answered. -/
inductive Reply (F : Type) where
  | ack
  | executed (result : Except SessionError ExecutionResult)
  | storage (result : Except SessionError StorageValue)
  | code (result : Except SessionError Bytes)
  | basic (result : Except SessionError (Option AccountInfo))
  | state (result : Except SessionError (SessionState × UInt64))
  | branch (result : Except SessionError (Session F))
  | blockEnv (result : Except SessionError BlockEnv)
  | written (result : Except SessionError Unit)

/-- The reply to a request for a session that is not there. -/
def Request.unknown (id : SessionId) : Request → Reply F
  | .simulate _ _ => .executed (.error (.unknown id))
  | .advance _ => .executed (.error (.unknown id))
  | .storage _ _ => .storage (.error (.unknown id))
  | .code _ => .code (.error (.unknown id))
  | .basic _ => .basic (.error (.unknown id))

section Passes

variable [ToString E]

/-- One pass of a request over its session, as `Worker::handle` runs it. -/
def Request.pass [DecidableEq F] (up : F → Upstream E) (evm : Evm E) (blocking : Bool) :
    Request → Session F × Fetch F → Pass (Reply F) × (Session F × Fetch F)
  | .simulate tx disableChecks, sw =>
    let (outcome, sw) := execute up evm tx false disableChecks blocking sw
    (outcome.map .executed, sw)
  | .advance tx, sw =>
    let (outcome, sw) := execute up evm tx true false blocking sw
    (outcome.map .executed, sw)
  | .storage address key, sw =>
    let (read, sw) := attempt up blocking (storageOf address key) sw
    (read.map .storage, sw)
  | .code address, sw =>
    let (read, sw) := attempt up blocking (codeOf address) sw
    (read.map .code, sw)
  | .basic address, sw =>
    let (read, sw) := attempt up blocking (basicOf address) sw
    (read.map .basic, sw)

/-- A read that commits nothing, as a task. -/
def readTask (reads : ReadProg E R) : Task E R := fun _ => reads.map fun r => (r, none)

/-- A task whose reply is put in another form. -/
def Task.answering {S : Type} (f : R → S) (task : Task E R) : Task E S := fun blockEnv =>
  (task blockEnv).map fun outcome => (f outcome.1, outcome.2)

/-- The task a request is. -/
def Request.task (evm : Evm E) : Request → Task E (Reply F)
  | .simulate tx disableChecks => (executeTask evm tx false disableChecks).answering .executed
  | .advance tx => (executeTask evm tx true false).answering .executed
  | .storage address key => (readTask (storageOf address key)).answering .storage
  | .code address => (readTask (codeOf address)).answering .code
  | .basic address => (readTask (basicOf address)).answering .basic

omit [ToString E] in
theorem answering_pass [DecidableEq F] {S : Type} (up : F → Upstream E) (f : R → S)
    (task : Task E R) (blocking : Bool) (s : Session F) (w : Fetch F) :
    (task.answering f).pass up blocking (s, w)
      = ((task.pass up blocking (s, w)).1.map fun outcome => (f outcome.1, outcome.2),
        (task.pass up blocking (s, w)).2) := by
  simp only [Task.pass, Task.answering, attempt_map]
  rcases attempt up blocking (task s.blockEnv) (s, w) with ⟨outcome | keys | -, s', w'⟩ <;> rfl

omit [ToString E] in
theorem readTask_pass [DecidableEq F] (up : F → Upstream E) (reads : ReadProg E R)
    (blocking : Bool) (s : Session F) (w : Fetch F) :
    (readTask reads).pass up blocking (s, w)
      = ((attempt up blocking reads (s, w)).1.map fun r => (r, none),
        (attempt up blocking reads (s, w)).2) := by
  simp only [Task.pass, readTask, attempt_map]
  rcases attempt up blocking reads (s, w) with ⟨result | keys | -, s', w'⟩ <;> rfl

theorem pass_map_map {S T : Type} (g : S → T) (f : R → S) (p : Pass R) :
    (p.map f).map g = p.map fun r => g (f r) := by
  cases p <;> rfl

/-- A request's pass is a pass of its task. -/
theorem request_pass [DecidableEq F] (up : F → Upstream E) (evm : Evm E) (blocking : Bool)
    (request : Request) (s : Session F) (w : Fetch F) :
    request.pass up evm blocking (s, w)
      = (((request.task (F := F) evm).pass up blocking (s, w)).1.map Prod.fst,
        ((request.task (F := F) evm).pass up blocking (s, w)).2) := by
  cases request <;>
    simp only [Request.pass, Request.task, execute_pass, answering_pass,
      readTask_pass, pass_map_map]

end Passes

/-! ### Sessions no job can tell apart -/

/-- One map, one block, and no speculation under way on either side. -/
structure Same (up : F → Upstream E) (s t : Session F) : Prop where
  view : s.view up = t.view up
  blockEnv : s.blockEnv = t.blockEnv
  left : s.readLog = none
  right : t.readLog = none

variable {up : F → Upstream E} {s t : Session F}

theorem run_blockEnv {W : Type} (db : DatabaseRef F W E) (p : ReadProg E R) (s : Session F)
    (w : W) :
    (p.run (Session.answer db) (s, w)).2.1.blockEnv = s.blockEnv := by
  refine Tree.run_inv (P := fun sw => sw.1.blockEnv = s.blockEnv) ?_ p (s, w) rfl
  rintro q ⟨s', w'⟩ hs
  rcases Session.answer_cases db q s' w' with h | ⟨s'', key, hlearned, h⟩
  · rw [h]; exact hs
  · rw [h]; cases hlearned <;> exact hs

theorem commit_rest (s : Session F) (changes : EvmState) :
    (s.commit changes).blockEnv = s.blockEnv ∧ (s.commit changes).readLog = s.readLog := by
  obtain ⟨accounts, hnodup⟩ := changes
  simp only [Session.commit]
  clear hnodup
  induction accounts generalizing s with
  | nil => exact ⟨rfl, rfl⟩
  | cons change rest ih =>
    have hslots : ∀ (slots : List (StorageKey × EvmStorageSlot)) (s : Session F),
        (slots.foldl (fun s slot => s.setStorage change.1 slot.1 slot.2.presentValue) s).blockEnv
            = s.blockEnv ∧
          (slots.foldl (fun s slot => s.setStorage change.1 slot.1 slot.2.presentValue) s).readLog
            = s.readLog := by
      intro slots
      induction slots with
      | nil => intro s; exact ⟨rfl, rfl⟩
      | cons slot slots ih => intro s; exact ih (s.setStorage change.1 slot.1 slot.2.presentValue)
    obtain ⟨hblock, hlog⟩ := ih (s.commitAccount change)
    exact ⟨hblock.trans (hslots change.2.storage s).1, hlog.trans (hslots change.2.storage s).2⟩

variable (up) in
/-- A run over upstream leaves the session the same. -/
theorem same_run (p : ReadProg E R) (hs : s.readLog = none) :
    Same up (p.run (Session.answer (Upstream.db up)) (s, ())).2.1 s where
  view := (Session.run_view (Session.faithful_upstream up) p s () trivial).2.1
  blockEnv := run_blockEnv _ p s ()
  left := Session.run_readLog _ p () hs
  right := hs

theorem same_write (h : Same up s t) (diff : Option EvmState) :
    Same up (s.write diff) (t.write diff) := by
  cases diff with
  | none => exact h
  | some changes =>
    obtain ⟨hsblock, hslog⟩ := commit_rest s changes
    obtain ⟨htblock, htlog⟩ := commit_rest t changes
    refine ⟨?_, hsblock.trans (h.blockEnv.trans htblock.symm), hslog.trans h.left,
      htlog.trans h.right⟩
    rw [Session.write, Session.write, Session.view_commit, Session.view_commit, h.view]

theorem same_symm (h : Same up s t) : Same up t s :=
  ⟨h.view.symm, h.blockEnv.symm, h.right, h.left⟩

theorem same_trans {u : Session F} (h : Same up s t) (h' : Same up t u) : Same up s u :=
  ⟨h.view.trans h'.view, h.blockEnv.trans h'.blockEnv, h.left, h'.right⟩

/-- A task is served alike on sessions that are the same. -/
theorem serve_same (task : Task E R) (h : Same up s t) :
    (task.serve up s).1 = (task.serve up t).1 ∧
      Same up (task.serve up s).2 (task.serve up t).2 := by
  have hs := Session.run_view (Session.faithful_upstream up) (task s.blockEnv) s () trivial
  have ht := Session.run_view (Session.faithful_upstream up) (task t.blockEnv) t () trivial
  have hsame := same_trans (same_run up (task s.blockEnv) h.left)
    (same_trans h (same_symm (same_run up (task t.blockEnv) h.right)))
  have hresult : ((task s.blockEnv).run (Session.answer (Upstream.db up)) (s, ())).1
      = ((task t.blockEnv).run (Session.answer (Upstream.db up)) (t, ())).1 := by
    rw [hs.1, ht.1, h.view, h.blockEnv]
  rcases hrs : (task s.blockEnv).run (Session.answer (Upstream.db up)) (s, ()) with ⟨o, s', u⟩
  rcases hrt : (task t.blockEnv).run (Session.answer (Upstream.db up)) (t, ()) with ⟨o', t', u'⟩
  rw [hrs, hrt] at hresult hsame
  simp only at hresult hsame
  subst hresult
  simp only [Task.serve, hrs, hrt]
  cases o with
  | none => exact ⟨rfl, hsame⟩
  | some outcome => exact ⟨rfl, same_write hsame outcome.2⟩

/-! ### Leaving no trace -/

/-- What other threads do while one job is served: what they land before its first pass, and what
    comes of each resolve. -/
structure Elsewhere (up : F → Upstream E) where
  before : Landed up
  resolve : ℕ → List StateKey → Resolved up

/-- The results of jobs served one after another on one session. -/
def results [DecidableEq F] (up : F → Upstream E) :
    List (Task E R × Elsewhere up) → Session F × Fetch F → List (Option R)
  | [], _ => []
  | (task, elsewhere) :: rest, (s, w) =>
    match serveJob up task elsewhere.resolve (s, { w with landed := elsewhere.before.1 }) with
    | some served => served.result :: results up rest served.state
    | none => []

/-- Two lists of results agree: equal throughout, up to a job that panics on one side only (a pass
    may panic on a made-up value where the other side had the real one cached). -/
def Agree : List (Option R) → List (Option R) → Prop
  | [], [] => True
  | some r :: rs, some r' :: rs' => r = r' ∧ Agree rs rs'
  | none :: rs, none :: rs' => Agree rs rs'
  | some _ :: _, none :: _ => True
  | none :: _, some _ :: _ => True
  | _, _ => False

theorem agree_eq : ∀ {rs rs' : List (Option R)}, Agree rs rs' → (∀ r ∈ rs, r.isSome) →
    (∀ r ∈ rs', r.isSome) → rs = rs'
  | [], [], _, _, _ => rfl
  | some r :: rs, some r' :: rs', ⟨hr, hrest⟩, h, h' => by
    rw [hr, agree_eq hrest (fun o ho => h o (List.mem_cons_of_mem _ ho))
      fun o ho => h' o (List.mem_cons_of_mem _ ho)]
  | none :: _, _, _, h, _ => absurd (h none List.mem_cons_self) Bool.false_ne_true
  | some _ :: _, none :: _, _, _, h' => absurd (h' none List.mem_cons_self) Bool.false_ne_true
  | [], _ :: _, h, _, _ => h.elim
  | some _ :: _, [], h, _, _ => h.elim

section Traces

variable {task : Task E R} {served : Served F R}

theorem ended_some (h : Ended up task s served) {r : R} (hr : served.result = some r) :
    ∃ diff, task.serve up s = (some (r, diff), served.state.1) := by
  cases h with
  | @done passes outcome s' w' hserve =>
    obtain rfl := Option.some.inj hr
    exact ⟨outcome.2, hserve⟩
  | unwound hp => cases hr
  | panicked hserve => cases hr

/-- A task with nothing to commit leaves the session the same. -/
theorem serve_undiffed {r : R} {s' : Session F} (h : task.serve up s = (some (r, none), s'))
    (hs : s.readLog = none) : Same up s' s := by
  have hsame := same_run up (task s.blockEnv) hs
  unfold Task.serve at h
  rcases hrun : (task s.blockEnv).run (Session.answer (Upstream.db up)) (s, ()) with ⟨o, s'', u⟩
  rw [hrun] at h hsame
  cases o with
  | none => cases h
  | some outcome =>
    obtain ⟨hout, hs'⟩ := Prod.mk.inj h
    obtain rfl := Option.some.inj hout
    obtain rfl := hs'
    exact hsame

/-- A job that panicked, in whichever pass, leaves the session the same. -/
theorem ended_none (h : Ended up task s served) (hs : s.readLog = none)
    (hr : served.result = none) : Same up served.state.1 s := by
  cases h with
  | done hserve => cases hr
  | unwound hp => exact ⟨rfl, rfl, hs, hs⟩
  | @panicked passes s' w' hserve =>
    have hsame := same_run up (task s.blockEnv) hs
    unfold Task.serve at hserve
    rcases hrun : (task s.blockEnv).run (Session.answer (Upstream.db up)) (s, ()) with ⟨o, s'', u⟩
    rw [hrun] at hserve hsame
    cases o with
    | some outcome => cases hserve
    | none =>
      obtain rfl := (Prod.mk.inj hserve).2
      exact hsame

theorem ended_noPanic (h : Ended up task s served) (hp : (task s.blockEnv).NoPanic) :
    served.result.isSome := by
  cases h with
  | done hserve => rfl
  | unwound hpanic => exact absurd hp hpanic
  | panicked hserve =>
    obtain ⟨outcome, s', hsome⟩ := serve_noPanic up hp
    rw [hserve] at hsome
    cases hsome

/-- Whatever ran on them, sessions that were the same stay so while their jobs agree. -/
theorem ended_same {t : Session F} {served' : Served F R} (hst : Same up s t)
    (h : Ended up task s served) (h' : Ended up task t served') :
    (served.result = served'.result ∧ Same up served.state.1 served'.state.1) ∨
      (served.result = none ↔ ¬ served'.result = none) := by
  cases hr : served.result with
  | none =>
    cases hr' : served'.result with
    | none =>
      exact .inl ⟨rfl, same_trans (ended_none h hst.left hr)
        (same_trans hst (same_symm (ended_none h' hst.right hr')))⟩
    | some r' => exact .inr (by simp)
  | some r =>
    cases hr' : served'.result with
    | none => exact .inr (by simp)
    | some r' =>
      obtain ⟨diff, hserve⟩ := ended_some h hr
      obtain ⟨diff', hserve'⟩ := ended_some h' hr'
      obtain ⟨hresult, hsame⟩ := serve_same task hst
      rw [hserve, hserve'] at hresult hsame
      refine .inl ⟨?_, hsame⟩
      rw [(Prod.mk.inj (Option.some.inj hresult)).1]

end Traces

/-- A landing leaves an idle thread idle. -/
theorem idle_landed {w : Fetch F} (hw : ReadThrough.Idle up w) (landed : Landed up) :
    ReadThrough.Idle up { w with landed := landed.1 } :=
  ⟨⟨hw.coherent.caches, landed.2⟩, hw.misses⟩

section Later

variable [DecidableEq F]

/-- RUN LEMMA: on sessions that are the same, with anything going on elsewhere, the same jobs end
    the same. -/
theorem results_agree : ∀ (later : List (Task E R × Elsewhere up × Elsewhere up)) {s t : Session F}
    {w w' : Fetch F}, Same up s t → ReadThrough.Idle up w → ReadThrough.Idle up w' →
    Agree (results up (later.map fun l => (l.1, l.2.1)) (s, w))
      (results up (later.map fun l => (l.1, l.2.2)) (t, w'))
  | [], _, _, _, _, _, _, _ => trivial
  | (task, mine, theirs) :: later, s, t, w, w', hst, hw, hw' => by
    obtain ⟨served, hserved, -, hended, hidle⟩ :=
      serveJob_ended task mine.resolve hst.left (idle_landed hw mine.before)
    obtain ⟨served', hserved', -, hended', hidle'⟩ :=
      serveJob_ended task theirs.resolve hst.right (idle_landed hw' theirs.before)
    simp only [List.map_cons, results, hserved, hserved']
    rcases ended_same hst hended hended' with ⟨hresult, hsame⟩ | hdiffer
    · have hrest := results_agree later hsame hidle hidle'
      rw [hresult]
      cases served'.result with
      | none => exact hrest
      | some r => exact ⟨rfl, hrest⟩
    · cases hr : served.result with
      | none =>
        obtain ⟨r', hr'⟩ := Option.ne_none_iff_exists'.mp (hdiffer.mp hr)
        rw [hr']
        trivial
      | some r =>
        have hnone : served'.result = none := not_not.mp fun h => by
          rw [hdiffer.mpr h] at hr
          cases hr
        rw [hnone]
        trivial

theorem results_isSome : ∀ (jobs : List (Task E R × Elsewhere up)) {s : Session F} {w : Fetch F},
    s.readLog = none → ReadThrough.Idle up w → (∀ job ∈ jobs, ∀ blockEnv, (job.1 blockEnv).NoPanic) →
    ∀ r ∈ results up jobs (s, w), r.isSome
  | [], _, _, _, _, _ => fun r hr => by simp [results] at hr
  | (task, elsewhere) :: jobs, s, w, hs, hw, hp => by
    obtain ⟨served, hserved, -, hended, hidle⟩ :=
      serveJob_ended task elsewhere.resolve hs (idle_landed hw elsewhere.before)
    have hsome := ended_noPanic hended (hp (task, elsewhere) List.mem_cons_self s.blockEnv)
    obtain ⟨r, hr⟩ := Option.isSome_iff_exists.mp hsome
    obtain ⟨diff, hserve⟩ := ended_some hended hr
    have hlog : served.state.1.readLog = none := by
      have hsame := serve_same task (⟨rfl, rfl, hs, hs⟩ : Same up s s)
      rw [hserve] at hsame
      exact hsame.2.left
    intro r' hr'
    simp only [results, hserved, List.mem_cons] at hr'
    rcases hr' with rfl | hr'
    · exact hsome
    · exact results_isSome jobs hlog hidle
        (fun job hjob => hp job (List.mem_cons_of_mem _ hjob)) r' hr'

end Later

/-- Every way for a request to end but one: an advance that succeeds. -/
def Request.Dry : Request → Option (Reply F) → Prop
  | .advance _, some (.executed (.ok _)) => False
  | _, _ => True

/-- The outcome of a mapped program is in the range of the map. -/
theorem serve_mem_range {S : Type} {task : Task E R} {p : ReadProg E S}
    {g : S → R × Option EvmState} (htask : task s.blockEnv = p.map g)
    {outcome : R × Option EvmState}
    {s' : Session F} (hserve : task.serve up s = (some outcome, s')) : ∃ r, outcome = g r := by
  unfold Task.serve at hserve
  rw [htask, Tree.run_map] at hserve
  rcases hrun : p.run (Session.answer (Upstream.db up)) (s, ()) with ⟨_ | r, s'', u⟩
  · rw [hrun] at hserve; cases hserve
  · rw [hrun] at hserve
    exact ⟨r, (Option.some.inj (Prod.mk.inj hserve).1).symm⟩

/-- A request that ends dry has nothing to commit. -/
theorem dry_diff [ToString E] (evm : Evm E) {request : Request} {reply : Reply F}
    {diff : Option EvmState} {s' : Session F}
    (hserve : (request.task evm).serve up s = (some (reply, diff), s'))
    (hdry : request.Dry (some reply)) : diff = none := by
  cases request with
  | simulate tx disableChecks =>
    obtain ⟨r, h⟩ := serve_mem_range (p := executePass evm tx disableChecks s.blockEnv)
      (g := fun outcome => (.executed (outcome.map Prod.fst), none)) (Tree.map_map ..) hserve
    exact (Prod.mk.inj h).2
  | advance tx =>
    obtain ⟨r, h⟩ := serve_mem_range (p := executePass evm tx false s.blockEnv)
      (g := fun outcome =>
        (.executed (outcome.map Prod.fst), outcome.toOption.map Prod.snd)) (Tree.map_map ..) hserve
    obtain ⟨rfl, rfl⟩ := Prod.mk.inj h
    cases r with
    | error e => rfl
    | ok outcome => exact hdry.elim
  | storage address key =>
    obtain ⟨r, h⟩ := serve_mem_range (p := storageOf address key)
      (g := fun r => (.storage r, none)) (Tree.map_map ..) hserve
    exact (Prod.mk.inj h).2
  | code address =>
    obtain ⟨r, h⟩ := serve_mem_range (p := codeOf address)
      (g := fun r => (.code r, none)) (Tree.map_map ..) hserve
    exact (Prod.mk.inj h).2
  | basic address =>
    obtain ⟨r, h⟩ := serve_mem_range (p := basicOf address)
      (g := fun r => (.basic r, none)) (Tree.map_map ..) hserve
    exact (Prod.mk.inj h).2

/-- CORRECT: after a request that ended in anything but a successful advance (a read, a dry run, an
    error, a panic in a speculative or a blocking pass), however often it was parked and retried,
    later jobs on the session end as if it had never run. -/
theorem leaves_no_trace [ToString E] [DecidableEq F] (evm : Evm E) (request : Request)
    (resolve : ℕ → List StateKey → Resolved up) {w : Fetch F} (hs : s.readLog = none)
    (hw : ReadThrough.Idle up w) {served : Served F (Reply F)}
    (hserved : serveJob up (request.task evm) resolve (s, w) = some served)
    (hdry : request.Dry served.result) (later : List (Task E R × Elsewhere up × Elsewhere up)) :
    Agree (results up (later.map fun l => (l.1, l.2.1)) served.state)
        (results up (later.map fun l => (l.1, l.2.2)) (s, w)) ∧
      ((∀ l ∈ later, ∀ blockEnv, (l.1 blockEnv).NoPanic) →
        results up (later.map fun l => (l.1, l.2.1)) served.state
          = results up (later.map fun l => (l.1, l.2.2)) (s, w)) := by
  obtain ⟨served', hserved', -, hended, hidle⟩ := serveJob_ended (request.task evm) resolve hs hw
  obtain rfl := Option.some.inj (hserved.symm.trans hserved')
  have hsame : Same up served.state.1 s := by
    cases hr : served.result with
    | none => exact ended_none hended hs hr
    | some reply =>
      obtain ⟨diff, hserve⟩ := ended_some hended hr
      rw [hr] at hdry
      obtain rfl := dry_diff evm hserve hdry
      exact serve_undiffed hserve hs
  have hagree := results_agree later hsame hidle hw
  refine ⟨hagree, fun hp => agree_eq hagree ?_ ?_⟩
  · refine results_isSome _ hsame.left hidle fun job hjob => ?_
    obtain ⟨l, hl, rfl⟩ := List.mem_map.mp hjob
    exact hp l hl
  · refine results_isSome _ hs hw fun job hjob => ?_
    obtain ⟨l, hl, rfl⟩ := List.mem_map.mp hjob
    exact hp l hl

/-- An EVM that panics, and a slot read after it. -/
theorem leaves_no_trace_panic :
    let up : Unit → Upstream String := fun _ => .vacant "missing"
    let task : Task String (Reply Unit) := (Request.simulate
      ⟨0xa, .create, 0, [], 21000, 0, 0, none⟩ false).task fun _ _ _ => .panic
    let read : Task String (Except SessionError StorageValue) := readTask (storageOf 0xa 7)
    let elsewhere : Elsewhere up := ⟨.nothing, fun _ _ => ⟨true, .nothing⟩⟩
    ∃ served, serveJob up task elsewhere.resolve (freshSession, .cold) = some served ∧
      results up [(read, elsewhere)] served.state
        = results up [(read, elsewhere)] (freshSession, .cold) := by
  intro up task read elsewhere
  obtain ⟨served, hserved, -⟩ := serveJob_ended task elsewhere.resolve
    (s := freshSession) rfl (ReadThrough.idle_cold up)
  refine ⟨served, hserved, (leaves_no_trace _ _ elsewhere.resolve rfl (ReadThrough.idle_cold up)
    hserved trivial [(read, elsewhere, elsewhere)]).2 fun l hl blockEnv => ?_⟩
  obtain rfl := List.mem_singleton.mp hl
  exact Tree.noPanic_map (Tree.noPanic_map fun _ => trivial)

end Forkyard
