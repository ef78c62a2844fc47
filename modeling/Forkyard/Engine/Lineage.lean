import Forkyard.Engine.View

/-! A forest of sessions: forked from one base over one fallback, branched to any depth, restored
    from saved states, written, committed to, read and dropped in any order. The reference is a
    forest of private total maps with no layers and nothing shared; `layers_refine` says that no
    reader can tell the two apart.

        sessions ──step──▶ sessions        each session seen through `view`:
           │ view             │ view       base ∪ overlay ∪ fallback, as one map
           ▼                  ▼
        private maps ─refStep─▶ private maps -/

namespace Forkyard.Lineage

open Schemes

variable {F W E : Type}

/-- What may happen to a forest of sessions. -/
inductive Op where
  | fork (id : SessionId)
  | branch (parent child : SessionId)
  | restore (id : SessionId) (state : SessionState)
  | setAccount (id : SessionId) (address : Address) (info : AccountInfo)
  | setStorage (id : SessionId) (address : Address) (key : StorageKey) (value : StorageValue)
  | commit (id : SessionId) (changes : EvmState)
  | read (id : SessionId) (q : Query)
  | drop (id : SessionId)

/-- The one base, fallback and block every root of the forest is opened with. -/
structure Root (F : Type) where
  base : BaseSnapshot
  fallback : F
  blockEnv : BlockEnv

abbrev Sessions (F : Type) := Map SessionId (Session F)

/-- Replace what `id` holds, if it holds anything. -/
def modify {V : Type} (m : Map SessionId V) (id : SessionId) (f : V → V) : Map SessionId V :=
  match m.lookup id with
  | some v => m.insert id (f v)
  | none => m

/-- One operation on the forest of sessions. -/
def step (db : DatabaseRef F W E) (root : Root F) : Op → Sessions F × W → Sessions F × W
  | .fork id, (ss, w) => (ss.insert id (.fork root.base root.fallback root.blockEnv), w)
  | .branch parent child, (ss, w) =>
    match ss.lookup parent with
    | some s => (ss.insert child s.branch, w)
    | none => (ss, w)
  | .restore id state, (ss, w) =>
    (ss.insert id (.restore root.base root.fallback root.blockEnv state), w)
  | .setAccount id address info, (ss, w) => (modify ss id (·.setAccount address info), w)
  | .setStorage id address key value, (ss, w) => (modify ss id (·.setStorage address key value), w)
  | .commit id changes, (ss, w) => (modify ss id (·.commit changes), w)
  | .read id q, (ss, w) =>
    match ss.lookup id with
    | some s => (ss.insert id (Session.answer db q (s, w)).2.1, (Session.answer db q (s, w)).2.2)
    | none => (ss, w)
  | .drop id, (ss, w) => (ss.erase id, w)

def run (db : DatabaseRef F W E) (root : Root F) (ops : List Op) (w : W) : Sessions F × W :=
  ops.foldl (fun ss op => step db root op ss) (∅, w)

/-! ### The reference: one private map per session -/

abbrev Maps (E : Type) := Map SessionId (FullMap E)

/-- One operation on the forest of private maps: a read changes nothing at all. -/
def refStep (start : FullMap E) : Op → Maps E → Maps E
  | .fork id, ms => ms.insert id start
  | .branch parent child, ms =>
    match ms.lookup parent with
    | some m => ms.insert child m
    | none => ms
  | .restore id state, ms => ms.insert id (start.overlay state)
  | .setAccount id address info, ms => modify ms id (·.setAccount address info)
  | .setStorage id address key value, ms => modify ms id (·.setStorage address key value)
  | .commit id changes, ms => modify ms id (·.commit changes)
  | .read _ _, ms => ms
  | .drop id, ms => ms.erase id

def refRun (start : FullMap E) (ops : List Op) : Maps E :=
  ops.foldl (fun ms op => refStep start op ms) ∅

/-! ### The simulation -/

variable {up : F → Upstream E} {db : DatabaseRef F W E} {I : W → Prop}

/-- Session by session, the reference holds the view. -/
def Shown (up : F → Upstream E) (ss : Sessions F) (ms : Maps E) : Prop :=
  ∀ id, ms.lookup id = (ss.lookup id).map (Session.view up)

theorem shown_insert {ss : Sessions F} {ms : Maps E} (h : Shown up ss ms) (id : SessionId)
    {s : Session F} {m : FullMap E} (hs : s.view up = m) :
    Shown up (ss.insert id s) (ms.insert id m) := by
  intro id'
  rw [Map.lookup_insert_eq, Map.lookup_insert_eq]
  by_cases hid : id' = id
  · rw [if_pos hid, if_pos hid, Option.map_some, hs]
  · rw [if_neg hid, if_neg hid, h id']

theorem shown_modify {ss : Sessions F} {ms : Maps E} (h : Shown up ss ms) (id : SessionId)
    {f : Session F → Session F} {g : FullMap E → FullMap E}
    (hfg : ∀ s, (f s).view up = g (s.view up)) :
    Shown up (modify ss id f) (modify ms id g) := by
  have hid := h id
  unfold modify
  cases hs : ss.lookup id with
  | none => rw [hs, Option.map_none] at hid; rw [hid]; exact h
  | some s =>
    rw [hs, Option.map_some] at hid
    rw [hid]
    exact shown_insert h id (hfg s)

/-- A session replaced by one with the same view shows the same map. -/
theorem shown_same {ss : Sessions F} {ms : Maps E} (h : Shown up ss ms) {id : SessionId}
    {s s' : Session F} (hs : ss.lookup id = some s) (hv : s'.view up = s.view up) :
    Shown up (ss.insert id s') ms := by
  intro id'
  rw [Map.lookup_insert_eq, h id']
  by_cases hid : id' = id
  · rw [if_pos hid, hid, hs, Option.map_some, Option.map_some, hv]
  · rw [if_neg hid]

/-- One step of the forest is one step of the reference. -/
theorem step_refines (hdb : Session.Faithful db up I) (root : Root F) (op : Op) {ss : Sessions F}
    {w : W} {ms : Maps E} (hw : I w) (h : Shown up ss ms) :
    Shown up (step db root op (ss, w)).1
        (refStep (FullMap.ofBase root.base (up root.fallback)) op ms) ∧
      I (step db root op (ss, w)).2 := by
  cases op with
  | fork id => exact ⟨shown_insert h id (Session.view_fork up ..), hw⟩
  | branch parent child =>
    have hp := h parent
    simp only [step, refStep]
    cases hs : ss.lookup parent with
    | none => rw [hs, Option.map_none] at hp; rw [hp]; exact ⟨h, hw⟩
    | some s =>
      rw [hs, Option.map_some] at hp
      rw [hp]
      exact ⟨shown_insert h child (Session.view_branch up s), hw⟩
  | restore id state => exact ⟨shown_insert h id (Session.view_restore up ..), hw⟩
  | setAccount id address info =>
    exact ⟨shown_modify h id fun s => Session.view_setAccount up s address info, hw⟩
  | setStorage id address key value =>
    exact ⟨shown_modify h id fun s => Session.view_setStorage up s address key value, hw⟩
  | commit id changes => exact ⟨shown_modify h id fun s => Session.view_commit up s changes, hw⟩
  | read id q =>
    simp only [step, refStep]
    cases hs : ss.lookup id with
    | none => exact ⟨h, hw⟩
    | some s =>
      obtain ⟨-, hsame, hI⟩ := Session.answer_faithful hdb q s w hw
      exact ⟨shown_same h hs (by rw [hsame, (Session.answer_view up q s).2]), hI⟩
  | drop id =>
    refine ⟨fun id' => ?_, hw⟩
    simp only [step, refStep, Map.lookup_erase_eq]
    by_cases hid : id' = id
    · rw [if_pos hid, if_pos hid, Option.map_none]
    · rw [if_neg hid, if_neg hid, h id']

/-- A whole history of the forest is the same history of the reference. -/
theorem run_refines (hdb : Session.Faithful db up I) (root : Root F) (ops : List Op) {w : W}
    (hw : I w) :
    Shown up (run db root ops w).1
        (refRun (FullMap.ofBase root.base (up root.fallback)) ops) ∧
      I (run db root ops w).2 := by
  suffices H : ∀ (ops : List Op) (ss : Sessions F) (w : W) (ms : Maps E), I w → Shown up ss ms →
      Shown up (ops.foldl (fun ss op => step db root op ss) (ss, w)).1
          (ops.foldl (fun ms op =>
            refStep (FullMap.ofBase root.base (up root.fallback)) op ms) ms) ∧
        I (ops.foldl (fun ss op => step db root op ss) (ss, w)).2 from
    H ops ∅ w ∅ hw fun id => by rw [Finmap.lookup_empty, Finmap.lookup_empty, Option.map_none]
  intro ops
  induction ops with
  | nil => intro ss w ms hw h; exact ⟨h, hw⟩
  | cons op ops ih =>
    intro ss w ms hw h
    obtain ⟨h', hw'⟩ := step_refines hdb root op hw h
    exact ih _ _ _ hw' h'

/-- What session `id` answers to `q` now, if it is open. -/
def reads (db : DatabaseRef F W E) (state : Sessions F × W) (id : SessionId) (q : Query) :
    Option (Answer E q) :=
  (state.1.lookup id).map fun s => (Session.answer db q (s, state.2)).1

/-- What the private map of `id` answers to `q`. -/
def refReads (ms : Maps E) (id : SessionId) (q : Query) : Option (Answer E q) :=
  (ms.lookup id).map fun m => m.answer q

/-- CORRECT: after any history, over any deterministic fallback, every session answers every
    question as the private map of the reference does. -/
theorem layers_refine (hdb : Session.Faithful db up I) (root : Root F) (ops : List Op) {w : W}
    (hw : I w) (id : SessionId) (q : Query) :
    reads db (run db root ops w) id q
      = refReads (refRun (FullMap.ofBase root.base (up root.fallback)) ops) id q := by
  obtain ⟨hshown, hI⟩ := run_refines hdb root ops hw
  unfold reads refReads
  rw [hshown id]
  cases (run db root ops w).1.lookup id with
  | none => rfl
  | some s =>
    obtain ⟨ha, -, -⟩ := Session.answer_faithful hdb q s (run db root ops w).2 hI
    simp only [Option.map_some]
    rw [ha, (Session.answer_view up q s).1]

/-- A grandchild whose whole line is gone still reads the slot its grandparent wrote. -/
def orphan : List Op :=
  [.fork 1, .setStorage 1 0xa 7 42, .branch 1 2, .branch 2 3, .setStorage 1 0xa 7 43, .drop 1,
    .drop 2]

theorem layers_refine_orphan :
    reads vacantDb (run vacantDb ⟨.empty, (), ⟨1, 0, 0, 30000000⟩⟩ orphan ()) 3 (.storage 0xa 7)
        = some (.ok 42) :=
  (layers_refine vacant_faithful ⟨.empty, (), ⟨1, 0, 0, 30000000⟩⟩ orphan trivial 3
    (.storage 0xa 7)).trans (by decide)

end Forkyard.Lineage
