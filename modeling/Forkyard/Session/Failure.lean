import Forkyard.Session.Request

/-! An upstream failure and the reply. A job needs a slot when its execution comes to a storage read
    of it; the read fails when the slot is in no layer of the session and upstream has only an error
    for it. What such a failure should do is surface as the job's error and leave the session as it
    was. `Session::storage` answers zero instead, so the law holds of exactly the jobs that come to
    no failing slot. The pass that a reply comes from is traced to say what it was computed from.

        job ──needs a failing slot?──no──▶ lawful
                                   ──yes─▶ answered 0, never lawful -/

namespace Forkyard

open Schemes

variable {F E R : Type}

/-- Everything a pass asked, and what it was answered. -/
abbrev Reads (E : Type) := List (Σ q, Answer E q)

/-- The task with the reads of the pass that is replied beside the reply. -/
def Task.traced (task : Task E R) : Task E (R × Reads E) := fun blockEnv =>
  (task blockEnv).traced.map fun out => ((out.1.1, out.2), out.1.2)

/-- A storage read that no layer and no upstream can answer. -/
def FailingRead (m : FullMap E) : Query → Prop
  | .storage address index => ∃ e, m.storage address index = .error e
  | _ => False

/-- The job's execution comes to a failing slot. -/
def Needs (m : FullMap E) (task : Task E R) (blockEnv : BlockEnv) : Prop :=
  (task blockEnv).Asks (FailingRead m) m.answer

/-- A reply that is an error. -/
def Reply.Failed : Reply F → Prop
  | .executed (.error _) => True
  | .storage (.error _) => True
  | .code (.error _) => True
  | .basic (.error _) => True
  | _ => False

/-- Zero stands among the reads for a slot that upstream failed to deliver. -/
def Substituted (m : FullMap E) (reads : Reads E) : Prop :=
  ∃ address index, FailingRead m (.storage address index) ∧
    (⟨.storage address index, .ok 0⟩ : Σ q, Answer E q) ∈ reads

/-- The law: a job that needs a failing slot is answered with an error and leaves its session as it
    was, and no reply is computed with zero for a slot that failed. -/
structure Lawful (up : F → Upstream E) (task : Task E (Reply F)) (s : Session F)
    (served : Served F (Reply F × Reads E)) : Prop where
  surfaces : Needs (s.view up) task s.blockEnv →
    (∃ reply reads, served.result = some (reply, reads) ∧ reply.Failed) ∧
      served.state.1.view up = s.view up
  unsubstituted : ∀ reply reads, served.result = some (reply, reads) →
    ¬ Substituted (s.view up) reads

section Tracing

variable [DecidableEq F] {up : F → Upstream E}

theorem traced_answering (task : Task E R) : task.traced.answering Prod.fst = task := by
  funext blockEnv
  simp only [Task.answering, Task.traced, Tree.map_map]
  exact Tree.traced_map_fst (task blockEnv)

theorem retry_answering {S : Type} (f : R → S) (task : Task E R)
    (resolve : ℕ → List StateKey → Resolved up) : ∀ (fuel rounds : ℕ) (blocking : Bool)
    (sw : Session F × Fetch F), retry up (task.answering f) resolve fuel rounds blocking sw
      = (retry up task resolve fuel rounds blocking sw).map fun served =>
          ⟨served.passes, served.committed, served.result.map f, served.state⟩
  | 0, _, _, _ => rfl
  | fuel + 1, rounds, blocking, (s, w) => by
    rw [retry, retry, answering_pass]
    rcases task.pass up blocking (s, w) with ⟨outcome | keys | -, s', w'⟩
    · rfl
    · simp only [Pass.map]
      rw [retry_answering f task resolve fuel, Option.map_map, Option.map_map]
      rfl
    · rfl

/-- The traced job is the job. -/
theorem serveJob_traced (task : Task E R) (resolve : ℕ → List StateKey → Resolved up)
    (sw : Session F × Fetch F) : serveJob up task resolve sw
      = (serveJob up task.traced resolve sw).map fun served =>
          ⟨served.passes, served.committed, served.result.map Prod.fst, served.state⟩ := by
  rw [serveJob, serveJob, ← retry_answering, traced_answering]

end Tracing

variable {up : F → Upstream E} {s : Session F}

/-- What a traced task was served is what the view answers to what the task asks. -/
theorem served_reads {task : Task E R} {r : R} {reads : Reads E} {diff : Option EvmState}
    {s' : Session F} (hserve : task.traced.serve up s = (some ((r, reads), diff), s')) :
    (∀ read ∈ reads, read.2 = (s.view up).answer read.1) ∧
      ((∃ read ∈ reads, FailingRead (s.view up) read.1) ↔ Needs (s.view up) task s.blockEnv) := by
  have hview := (Session.run_view (Session.faithful_upstream up) (task.traced s.blockEnv) s ()
    trivial).1
  unfold Task.serve at hserve
  rcases hrun : (task.traced s.blockEnv).run (Session.answer (Upstream.db up)) (s, ()) with
    ⟨_ | outcome, s'', u⟩
  · rw [hrun] at hserve; cases hserve
  · rw [hrun] at hserve hview
    obtain rfl := Option.some.inj (Prod.mk.inj hserve).1
    rw [Task.traced, Tree.eval_map] at hview
    obtain ⟨⟨⟨r', diff'⟩, reads'⟩, heval, hout⟩ := Option.map_eq_some_iff.mp hview.symm
    obtain ⟨rfl, rfl⟩ := Prod.mk.inj (Prod.mk.inj hout).1
    exact Tree.traced_asks heval

/-- A failing slot among the reads was answered zero. -/
theorem substituted_iff {m : FullMap E} {reads : Reads E}
    (hanswers : ∀ read ∈ reads, read.2 = m.answer read.1) :
    Substituted m reads ↔ ∃ read ∈ reads, FailingRead m read.1 := by
  constructor
  · rintro ⟨address, index, hfail, hmem⟩
    exact ⟨_, hmem, hfail⟩
  · rintro ⟨⟨q, a⟩, hmem, hfail⟩
    have ha : a = m.answer q := hanswers ⟨q, a⟩ hmem
    cases q with
    | storage address index =>
      refine ⟨address, index, hfail, ?_⟩
      obtain ⟨e, he⟩ := hfail
      have hzero : a = .ok 0 := by
        rw [ha]
        simp only [FullMap.answer, he]
        rfl
      rw [← hzero]
      exact hmem
    | basic address => exact hfail.elim
    | codeByHash codeHash => exact hfail.elim
    | blockHash number => exact hfail.elim

/-- EXACT: a request is served lawfully iff its execution comes to no failing slot. -/
theorem lawful_iff [ToString E] [DecidableEq F] (evm : Evm E) (request : Request)
    (resolve : ℕ → List StateKey → Resolved up) {w : Fetch F} (hs : s.readLog = none)
    (hw : ReadThrough.Idle up w) :
    ∃ served, serveJob up (Task.traced (request.task evm)) resolve (s, w) = some served ∧
      serveJob up (request.task evm) resolve (s, w)
        = some ⟨served.passes, served.committed, served.result.map Prod.fst, served.state⟩ ∧
      (Lawful up (request.task evm) s served ↔
        ¬ Needs (s.view up) (request.task (F := F) evm) s.blockEnv) := by
  obtain ⟨served, hserved, -, hended, -⟩ :=
    serveJob_ended (Task.traced (request.task evm)) resolve hs hw
  refine ⟨served, hserved, by rw [serveJob_traced, hserved, Option.map_some], ?_⟩
  have hreads : ∀ reply reads, served.result = some (reply, reads) →
      (Substituted (s.view up) reads ↔ Needs (s.view up) (request.task (F := F) evm) s.blockEnv) := by
    intro reply reads hresult
    obtain ⟨diff, hserve⟩ := ended_some hended hresult
    obtain ⟨hanswers, hneeds⟩ := served_reads hserve
    rw [substituted_iff hanswers, hneeds]
  constructor
  · rintro ⟨hsurfaces, hunsub⟩ hneeds
    obtain ⟨⟨reply, reads, hresult, -⟩, -⟩ := hsurfaces hneeds
    exact hunsub reply reads hresult ((hreads reply reads hresult).mpr hneeds)
  · intro hneeds
    exact ⟨fun h => absurd h hneeds,
      fun reply reads hresult hsub => hneeds ((hreads reply reads hresult).mp hsub)⟩

/-- An upstream that fails every storage read. -/
def failingUpstream : Unit → Upstream String := fun _ =>
  { Upstream.vacant "missing" with storage := fun _ _ => .error "upstream is down" }

/-- A slot is needed, and not served lawfully; of an account no slot is. -/
theorem lawful_iff_failing :
    let lawful := fun request : Request => ∃ served, serveJob failingUpstream
        (Task.traced (request.task (F := Unit) fun _ _ _ => .panic))
        (fun _ _ => ⟨true, .nothing⟩) (freshSession, .cold) = some served ∧
      Lawful failingUpstream (request.task fun _ _ _ => .panic) freshSession served
    ¬ lawful (.storage 0xa 7) ∧ lawful (.basic 0xa) := by
  let resolve : ℕ → List StateKey → Resolved failingUpstream := fun _ _ => ⟨true, .nothing⟩
  have hnone : freshSession.readLog = none := rfl
  have hexact := fun request : Request => lawful_iff (fun _ _ _ => .panic) request resolve hnone
    (ReadThrough.idle_cold failingUpstream)
  constructor
  · rintro ⟨served, hserved, hlawful⟩
    obtain ⟨served', hserved', -, hiff⟩ := hexact (.storage 0xa 7)
    obtain rfl := Option.some.inj (hserved.symm.trans hserved')
    exact hiff.mp hlawful (.inl ⟨_, rfl⟩)
  · obtain ⟨served, hserved, -, hiff⟩ := hexact (.basic 0xa)
    refine ⟨served, hserved, hiff.mpr ?_⟩
    rintro (hfails | hasks)
    · exact hfails
    · exact hasks

/-- A slot that upstream fails to deliver is answered zero. -/
theorem failing_slot_reads_zero :
    ((serveJob failingUpstream ((Request.storage 0xa 7).task (F := Unit) fun _ _ _ => .panic)
      (fun _ _ => ⟨true, .nothing⟩) (freshSession, .cold)).bind Served.result)
        = some (.storage (.ok 0)) := rfl

end Forkyard
