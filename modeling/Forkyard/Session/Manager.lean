import Forkyard.Engine.Session
import Forkyard.Schemes.Steps

/-! The three fields a `SessionManager` opens its sessions with, each behind a lock of its own, and
    the calls that go through them one lock at a time: `refresh_fallback` writes fallback, block env
    and base in that order, `fork` reads base, fallback and block env in that order. Any number of
    calls are under way at once, each taking its next lock whenever it is its turn.

        refresh:  fallback ──▶ block_env ──▶ base := empty
        fork:     base ──▶ fallback ──▶ block_env ──▶ session

    A field remembers which call wrote it last. That writer is what the condition below speaks of;
    no lock access looks at it. -/

namespace Forkyard

open Schemes

variable {F : Type}

/-- A field with the call that last wrote it: 0 for the one that built the manager. -/
structure Stamped (α : Type) where
  value : α
  writer : ℕ

structure SessionManager (F : Type) where
  fallback : Stamped F
  base : Stamped BaseSnapshot
  blockEnv : Stamped BlockEnv

/-- The next lock a `refresh_fallback` takes. -/
inductive Refreshing where
  | fallback
  | blockEnv
  | base
  deriving DecidableEq

/-- The next lock a `fork_seeded` takes, with what it has read so far. -/
inductive Forking (F : Type) where
  | base
  | fallback (base : Stamped BaseSnapshot)
  | blockEnv (base : Stamped BaseSnapshot) (fallback : Stamped F)

/-- A call under way on the manager. -/
inductive Call (F : Type) where
  | refresh (writer : ℕ) (fallback : F) (blockEnv : BlockEnv) (next : Refreshing)
  /-- `restore`, about to compare the manager's block number with the one it was given. -/
  | restore (blockNumber : UInt64) (state : SessionState)
  | fork (seed : Option SessionState) (next : Forking F)
  | returned

/-- A fallback, a base and a block env installed together: by the manager's constructor, or by one
    refresh. -/
structure Installed (F : Type) where
  fallback : F
  base : BaseSnapshot
  blockEnv : BlockEnv

/-- The manager, every call ever made of it, every session opened on its default block, and what the
    constructor and each refresh call install, in order. -/
structure Lobby (F : Type) where
  manager : SessionManager F
  calls : List (Call F)
  opened : List (Session F)
  installed : List (Installed F)

/-- A new manager: `new`, or `new` and `with_base`. -/
def Lobby.start (fallback : F) (base : BaseSnapshot) (blockEnv : BlockEnv) : Lobby F :=
  ⟨⟨⟨fallback, 0⟩, ⟨base, 0⟩, ⟨blockEnv, 0⟩⟩, [], [], [⟨fallback, base, blockEnv⟩]⟩

/-- The session `Job::Fork` builds of what `fork_seeded` has read. -/
def openSession (base : BaseSnapshot) (fallback : F) (blockEnv : BlockEnv) :
    Option SessionState → Session F
  | some state => .restore base fallback blockEnv state
  | none => .fork base fallback blockEnv

/-- One call takes its next lock. -/
def Call.access (manager : SessionManager F) : Call F → Call F × SessionManager F × List (Session F)
  | .refresh writer fallback blockEnv .fallback =>
    (.refresh writer fallback blockEnv .blockEnv,
      { manager with fallback := ⟨fallback, writer⟩ }, [])
  | .refresh writer fallback blockEnv .blockEnv =>
    (.refresh writer fallback blockEnv .base, { manager with blockEnv := ⟨blockEnv, writer⟩ }, [])
  | .refresh writer _ _ .base => (.returned, { manager with base := ⟨.empty, writer⟩ }, [])
  | .restore blockNumber state =>
    -- another block is forked through the pinned blocks, which share none of these fields
    (if manager.blockEnv.value.number.toNat = blockNumber.toNat then .fork (some state) .base
      else .returned, manager, [])
  | .fork seed .base => (.fork seed (.fallback manager.base), manager, [])
  | .fork seed (.fallback base) => (.fork seed (.blockEnv base manager.fallback), manager, [])
  | .fork seed (.blockEnv base fallback) =>
    (.returned, manager, [openSession base.value fallback.value manager.blockEnv.value seed])
  | .returned => (.returned, manager, [])

/-- A call is made, or the `i`-th call takes its next lock. -/
inductive LobbyEvent (F : Type) where
  | refresh (fallback : F) (blockEnv : BlockEnv)
  | fork
  | restore (blockNumber : UInt64) (state : SessionState)
  | access (i : ℕ)

def Lobby.step (lobby : Lobby F) : LobbyEvent F → Lobby F
  | .refresh fallback blockEnv =>
    { lobby with
      calls := lobby.calls ++ [.refresh lobby.installed.length fallback blockEnv .fallback]
      installed := lobby.installed ++ [⟨fallback, .empty, blockEnv⟩] }
  | .fork => { lobby with calls := lobby.calls ++ [.fork none .base] }
  | .restore blockNumber state =>
    { lobby with calls := lobby.calls ++ [.restore blockNumber state] }
  | .access i =>
    match lobby.calls[i]? with
    | none => lobby
    | some call =>
      let (call, manager, opened) := call.access lobby.manager
      { lobby with
        manager := manager, calls := lobby.calls.set i call, opened := lobby.opened ++ opened }

/-! ### Whole and torn sessions -/

/-- The session was opened with one installed triple. -/
def Lobby.Whole (lobby : Lobby F) (s : Session F) : Prop :=
  ⟨s.fallback, s.base, s.blockEnv⟩ ∈ lobby.installed

/-- The refresh `writer` has written its fallback and not yet its block env. -/
def Pending (calls : List (Call F)) (writer : ℕ) : Prop :=
  ∃ fallback blockEnv, .refresh writer fallback blockEnv .blockEnv ∈ calls

/-- What keeps sessions whole, lock by lock: refreshes do not overtake one another, no refresh moves
    the block env away under a fork that holds another refresh's fallback, no fork reads the block
    env ahead of the refresh whose fallback it holds, and no fork that holds a seeded base goes on
    to a refreshed fallback. -/
def Lobby.Untorn (lobby : Lobby F) : LobbyEvent F → Prop
  | .access i =>
    match lobby.calls[i]? with
    | some (.refresh _ _ _ .fallback) => ∀ writer, ¬ Pending lobby.calls writer
    | some (.refresh writer _ _ .blockEnv) => ∀ seed base fallback,
      .fork seed (.blockEnv base fallback) ∈ lobby.calls → fallback.writer = writer
    | some (.fork _ (.fallback base)) =>
      base.writer = 0 → base.value = .empty ∨ lobby.manager.fallback.writer = 0
    | some (.fork _ (.blockEnv _ fallback)) => ¬ Pending lobby.calls fallback.writer
    | _ => True
  | _ => True

/-! ### The invariant of an untorn run -/

/-- The field holds what its writer installed there. -/
def Wrote {α : Type} (installed : List (Installed F)) (field : Installed F → α)
    (stamped : Stamped α) : Prop :=
  ∃ triple, installed[stamped.writer]? = some triple ∧ field triple = stamped.value

/-- What one call under way relies on. -/
def CallOk (manager : SessionManager F) (installed : List (Installed F)) (calls : List (Call F)) :
    Call F → Prop
  | .refresh writer fallback blockEnv next =>
    writer ≠ 0 ∧ installed[writer]? = some ⟨fallback, .empty, blockEnv⟩ ∧
      (next = .blockEnv → manager.fallback.writer = writer) ∧
      (next = .base → manager.fallback.writer ≠ 0)
  | .fork _ (.fallback base) =>
    Wrote installed Installed.base base ∧ (base.writer ≠ 0 → manager.fallback.writer ≠ 0)
  | .fork _ (.blockEnv base fallback) =>
    Wrote installed Installed.base base ∧ Wrote installed Installed.fallback fallback ∧
      (manager.blockEnv.writer = fallback.writer ∨ Pending calls fallback.writer) ∧
      (fallback.writer = 0 → base.writer = 0) ∧ (fallback.writer ≠ 0 → base.value = .empty)
  | _ => True

structure Orderly (lobby : Lobby F) : Prop where
  fallback : Wrote lobby.installed Installed.fallback lobby.manager.fallback
  base : Wrote lobby.installed Installed.base lobby.manager.base
  blockEnv : Wrote lobby.installed Installed.blockEnv lobby.manager.blockEnv
  emptied : ∀ writer triple, writer ≠ 0 → lobby.installed[writer]? = some triple →
    triple.base = .empty
  paired : lobby.manager.blockEnv.writer = lobby.manager.fallback.writer ∨
    Pending lobby.calls lobby.manager.fallback.writer
  begun : lobby.manager.base.writer ≠ 0 → lobby.manager.fallback.writer ≠ 0
  calls : ∀ call ∈ lobby.calls, CallOk lobby.manager lobby.installed lobby.calls call
  whole : ∀ s ∈ lobby.opened, lobby.Whole s

theorem orderly_start (fallback : F) (base : BaseSnapshot) (blockEnv : BlockEnv) :
    Orderly (.start fallback base blockEnv) where
  fallback := ⟨_, rfl, rfl⟩
  base := ⟨_, rfl, rfl⟩
  blockEnv := ⟨_, rfl, rfl⟩
  emptied writer triple hw h := by
    cases writer with
    | zero => exact absurd rfl hw
    | succ n => simp [Lobby.start] at h
  paired := .inl rfl
  begun h := absurd rfl h
  calls call h := by simp [Lobby.start] at h
  whole s h := by simp [Lobby.start] at h

theorem wrote_append {α : Type} {installed : List (Installed F)} {field : Installed F → α}
    {stamped : Stamped α} (h : Wrote installed field stamped) (more : List (Installed F)) :
    Wrote (installed ++ more) field stamped := by
  obtain ⟨triple, hget, hvalue⟩ := h
  obtain ⟨hlt, -⟩ := List.getElem?_eq_some_iff.mp hget
  exact ⟨triple, by rw [List.getElem?_append_left hlt, hget], hvalue⟩

theorem pending_mono {calls calls' : List (Call F)} {writer : ℕ}
    (hcalls : ∀ call ∈ calls, call ∈ calls')
    (h : Pending calls writer) : Pending calls' writer := by
  obtain ⟨fallback, blockEnv, hmem⟩ := h
  exact ⟨fallback, blockEnv, hcalls _ hmem⟩

/-- A call that is not about to write a block env may move on without unsettling who is pending. -/
theorem pending_set {calls : List (Call F)} {i : ℕ} {call call' : Call F}
    (hi : calls[i]? = some call)
    (hcall : ∀ writer fallback blockEnv, call ≠ .refresh writer fallback blockEnv .blockEnv)
    {writer : ℕ} (h : Pending calls writer) : Pending (calls.set i call') writer := by
  obtain ⟨fallback, blockEnv, hmem⟩ := h
  obtain ⟨j, hj⟩ := List.mem_iff_getElem?.mp hmem
  have hij : i ≠ j := by
    rintro rfl
    rw [hi] at hj
    exact hcall writer fallback blockEnv (Option.some.inj hj)
  exact ⟨fallback, blockEnv, List.mem_iff_getElem?.mpr ⟨j, by rw [List.getElem?_set_ne hij, hj]⟩⟩

/-- What a call relies on stays true when nothing pending is overtaken, the fallback stays a
    refresh's once it is one, and a fork's block env stays the one of its fallback. -/
theorem callOk_mono {manager : SessionManager F} (manager' : SessionManager F)
    {installed : List (Installed F)} {calls : List (Call F)} {call : Call F}
    (h : CallOk manager installed calls call)
    (calls' : List (Call F)) (more : List (Installed F))
    (hnext : ∀ writer fallback blockEnv, call = .refresh writer fallback blockEnv .blockEnv →
      manager'.fallback.writer = manager.fallback.writer)
    (hbegun : manager.fallback.writer ≠ 0 → manager'.fallback.writer ≠ 0)
    (hpaired : ∀ seed base fallback, call = .fork seed (.blockEnv base fallback) →
      manager.blockEnv.writer = fallback.writer ∨ Pending calls fallback.writer →
      manager'.blockEnv.writer = fallback.writer ∨ Pending calls' fallback.writer) :
    CallOk manager' (installed ++ more) calls' call := by
  cases call with
  | refresh writer fallback blockEnv next =>
    obtain ⟨hw, hget, hfb, hbase⟩ := h
    obtain ⟨hlt, -⟩ := List.getElem?_eq_some_iff.mp hget
    refine ⟨hw, by rw [List.getElem?_append_left hlt, hget], ?_, fun hn => hbegun (hbase hn)⟩
    rintro rfl
    rw [hnext _ _ _ rfl, hfb rfl]
  | restore blockNumber state => exact trivial
  | fork seed next =>
    cases next with
    | base => exact trivial
    | fallback base => exact ⟨wrote_append h.1 more, fun hb => hbegun (h.2 hb)⟩
    | blockEnv base fallback =>
      obtain ⟨hbase, hfb, hpair, hrest⟩ := h
      exact ⟨wrote_append hbase more, wrote_append hfb more, hpaired _ _ _ rfl hpair, hrest⟩
  | returned => exact trivial

/-! ### One step of an untorn run -/

/-- A new call is made: a fork or a restore, which installs nothing, or a refresh. -/
theorem orderly_call {lobby : Lobby F} (h : Orderly lobby) (call : Call F)
    (more : List (Installed F)) (hmore : ∀ triple ∈ more, triple.base = .empty)
    (hcall : CallOk lobby.manager (lobby.installed ++ more) (lobby.calls ++ [call]) call) :
    Orderly { lobby with
      calls := lobby.calls ++ [call], installed := lobby.installed ++ more } := by
  have hpending : ∀ writer, Pending lobby.calls writer → Pending (lobby.calls ++ [call]) writer :=
    fun writer => pending_mono fun call hmem => List.mem_append_left _ hmem
  constructor
  · exact wrote_append h.fallback more
  · exact wrote_append h.base more
  · exact wrote_append h.blockEnv more
  · intro writer triple hw hget
    rcases Nat.lt_or_ge writer lobby.installed.length with hlt | hge
    · exact h.emptied writer triple hw (by rwa [List.getElem?_append_left hlt] at hget)
    · rw [List.getElem?_append_right hge] at hget
      exact hmore triple (List.mem_of_getElem? hget)
  · exact h.paired.imp_right (hpending _)
  · exact h.begun
  · intro other hother
    rcases List.mem_append.mp hother with hold | hnew
    · exact callOk_mono lobby.manager (h.calls other hold) _ more (fun _ _ _ _ => rfl) id
        fun _ _ _ _ => Or.imp_right (hpending _)
    · obtain rfl := List.mem_singleton.mp hnew
      exact hcall
  · exact fun s hs => List.mem_append_left _ (h.whole s hs)

/-- A call moves on and writes no field. -/
theorem orderly_read {lobby : Lobby F} (h : Orderly lobby) {i : ℕ} {call : Call F} (call' : Call F)
    (hi : lobby.calls[i]? = some call)
    (hcall : ∀ writer fallback blockEnv, call ≠ .refresh writer fallback blockEnv .blockEnv)
    (hok : CallOk lobby.manager lobby.installed lobby.calls call') (opened : List (Session F))
    (hopened : ∀ s ∈ opened, lobby.Whole s) :
    Orderly { lobby with
      calls := lobby.calls.set i call', opened := lobby.opened ++ opened } := by
  have hpending : ∀ writer, Pending lobby.calls writer →
      Pending (lobby.calls.set i call') writer := fun writer => pending_set hi hcall
  have hmono : ∀ other, CallOk lobby.manager lobby.installed lobby.calls other →
      CallOk lobby.manager lobby.installed (lobby.calls.set i call') other := by
    intro other hother
    have hmono := callOk_mono lobby.manager hother (lobby.calls.set i call') []
      (fun _ _ _ _ => rfl) id fun _ _ _ _ => Or.imp_right (hpending _)
    rwa [List.append_nil] at hmono
  refine ⟨h.fallback, h.base, h.blockEnv, h.emptied, h.paired.imp_right (hpending _), h.begun, ?_,
    ?_⟩
  · intro other hother
    rcases List.mem_or_eq_of_mem_set hother with hold | rfl
    · exact hmono other (h.calls other hold)
    · exact hmono _ hok
  · intro s hs
    exact (List.mem_append.mp hs).elim (h.whole s) (hopened s)

/-- A refresh writes its fallback while no other refresh is between its first two writes. -/
theorem orderly_fallback {lobby : Lobby F} (h : Orderly lobby) {i writer : ℕ} {fallback : F}
    {blockEnv : BlockEnv} (hi : lobby.calls[i]? = some (.refresh writer fallback blockEnv .fallback))
    (hidle : ∀ writer, ¬ Pending lobby.calls writer) :
    Orderly { lobby with
      manager := { lobby.manager with fallback := ⟨fallback, writer⟩ }
      calls := lobby.calls.set i (.refresh writer fallback blockEnv .blockEnv) } := by
  obtain ⟨hw, hget, -⟩ := h.calls _ (List.mem_of_getElem? hi)
  obtain ⟨hlt, -⟩ := List.getElem?_eq_some_iff.mp hi
  have hpending : Pending (lobby.calls.set i (.refresh writer fallback blockEnv .blockEnv)) writer :=
    ⟨fallback, blockEnv, List.mem_iff_getElem?.mpr ⟨i, List.getElem?_set_self hlt⟩⟩
  refine ⟨⟨_, hget, rfl⟩, h.base, h.blockEnv, h.emptied, .inr hpending, fun _ => hw, ?_, h.whole⟩
  intro other hother
  rcases List.mem_or_eq_of_mem_set hother with hold | rfl
  · rw [← List.append_nil lobby.installed]
    refine callOk_mono _ (h.calls other hold) _ [] ?_ (fun _ => hw) ?_
    · rintro writer' fallback' blockEnv' rfl
      exact absurd ⟨fallback', blockEnv', hold⟩ (hidle writer')
    · intro _ _ fallback' _ hpair
      exact .inl (hpair.resolve_right (hidle _))
  · exact ⟨hw, hget, fun _ => rfl, nofun⟩

/-- A refresh writes its block env while no fork holds the fallback of another. -/
theorem orderly_blockEnv {lobby : Lobby F} (h : Orderly lobby) {i writer : ℕ} {fallback : F}
    {blockEnv : BlockEnv} (hi : lobby.calls[i]? = some (.refresh writer fallback blockEnv .blockEnv))
    (hheld : ∀ seed base fallback, .fork seed (.blockEnv base fallback) ∈ lobby.calls →
      fallback.writer = writer) :
    Orderly { lobby with
      manager := { lobby.manager with blockEnv := ⟨blockEnv, writer⟩ }
      calls := lobby.calls.set i (.refresh writer fallback blockEnv .base) } := by
  obtain ⟨hw, hget, hfallback, -⟩ := h.calls _ (List.mem_of_getElem? hi)
  have hwriter : lobby.manager.fallback.writer = writer := hfallback rfl
  refine ⟨h.fallback, h.base, ⟨_, hget, rfl⟩, h.emptied, .inl hwriter.symm, h.begun, ?_, h.whole⟩
  intro other hother
  rcases List.mem_or_eq_of_mem_set hother with hold | rfl
  · rw [← List.append_nil lobby.installed]
    refine callOk_mono _ (h.calls other hold) _ [] (fun _ _ _ _ => rfl) id ?_
    rintro seed base fallback' rfl -
    exact .inl (hheld seed base fallback' hold).symm
  · exact ⟨hw, hget, nofun, fun _ => by rw [hwriter]; exact hw⟩

/-- A refresh empties the base. -/
theorem orderly_base {lobby : Lobby F} (h : Orderly lobby) {i writer : ℕ} {fallback : F}
    {blockEnv : BlockEnv} (hi : lobby.calls[i]? = some (.refresh writer fallback blockEnv .base)) :
    Orderly { lobby with
      manager := { lobby.manager with base := ⟨.empty, writer⟩ }
      calls := lobby.calls.set i .returned } := by
  obtain ⟨hw, hget, -, hbegun⟩ := h.calls _ (List.mem_of_getElem? hi)
  have hpending : ∀ writer, Pending lobby.calls writer →
      Pending (lobby.calls.set i .returned) writer :=
    fun writer => pending_set hi nofun
  refine ⟨h.fallback, ⟨_, hget, rfl⟩, h.blockEnv, h.emptied, h.paired.imp_right (hpending _),
    fun _ => hbegun rfl, ?_, h.whole⟩
  intro other hother
  rcases List.mem_or_eq_of_mem_set hother with hold | rfl
  · rw [← List.append_nil lobby.installed]
    exact callOk_mono _ (h.calls other hold) _ [] (fun _ _ _ _ => rfl) id
      fun _ _ _ _ => Or.imp_right (hpending _)
  · exact trivial

/-- A fork has read base and fallback: the base of the constructor went with its fallback, and
    every later base is empty. -/
theorem base_of_fallback {lobby : Lobby F} (h : Orderly lobby) {base : Stamped BaseSnapshot}
    (hbase : Wrote lobby.installed Installed.base base)
    (huntorn : base.writer = 0 → base.value = .empty ∨ lobby.manager.fallback.writer = 0)
    (hrefreshed : lobby.manager.fallback.writer ≠ 0) : base.value = .empty := by
  rcases Nat.eq_zero_or_pos base.writer with hzero | hpos
  · exact (huntorn hzero).resolve_right hrefreshed
  · obtain ⟨triple, hget, hvalue⟩ := hbase
    rw [← hvalue, h.emptied _ triple hpos.ne' hget]

/-- What a fork has read by the time it comes to the block env is one installed triple, once that
    block env is the one of its fallback. -/
theorem whole_of_read {lobby : Lobby F} (h : Orderly lobby) {base : Stamped BaseSnapshot}
    {fallback : Stamped F} (hbase : Wrote lobby.installed Installed.base base)
    (hfallback : Wrote lobby.installed Installed.fallback fallback)
    (hpaired : lobby.manager.blockEnv.writer = fallback.writer)
    (hzero : fallback.writer = 0 → base.writer = 0)
    (hrefreshed : fallback.writer ≠ 0 → base.value = .empty) (seed : Option SessionState) :
    lobby.Whole (openSession base.value fallback.value lobby.manager.blockEnv.value seed) := by
  obtain ⟨triple, hget, hfb⟩ := hfallback
  obtain ⟨triple', hget', henv⟩ := h.blockEnv
  obtain rfl : triple' = triple := by
    rw [hpaired, hget] at hget'
    exact (Option.some.inj hget').symm
  have hb : triple'.base = base.value := by
    by_cases hw : fallback.writer = 0
    · obtain ⟨first, hfirst, hvalue⟩ := hbase
      rw [hzero hw, ← hw, hget] at hfirst
      rw [← hvalue, Option.some.inj hfirst]
    · rw [h.emptied _ triple' hw hget, hrefreshed hw]
  have hopened : ∀ seed, (⟨(openSession base.value fallback.value lobby.manager.blockEnv.value
      seed).fallback, (openSession base.value fallback.value lobby.manager.blockEnv.value seed).base,
      (openSession base.value fallback.value lobby.manager.blockEnv.value seed).blockEnv⟩ :
        Installed F) = triple' := by
    intro seed
    rw [← hfb, ← henv, ← hb]
    cases seed <;> rfl
  rw [Lobby.Whole, hopened seed]
  exact List.mem_of_getElem? hget

/-- STEP LEMMA: an untorn step keeps the manager orderly. -/
theorem orderly_step {lobby : Lobby F} (h : Orderly lobby) (event : LobbyEvent F)
    (huntorn : lobby.Untorn event) : Orderly (lobby.step event) := by
  cases event with
  | refresh fallback blockEnv =>
    refine orderly_call h _ _ (fun triple hmem => by rw [List.mem_singleton.mp hmem]) ?_
    refine ⟨?_, ?_, nofun, nofun⟩
    · obtain ⟨triple, hget, -⟩ := h.fallback
      obtain ⟨hlt, -⟩ := List.getElem?_eq_some_iff.mp hget
      omega
    · simp
  | fork =>
    have hcall := orderly_call h (.fork none .base) [] (by simp) trivial
    rwa [List.append_nil] at hcall
  | restore blockNumber state =>
    have hcall := orderly_call h (.restore blockNumber state) [] (by simp) trivial
    rwa [List.append_nil] at hcall
  | access i =>
    simp only [Lobby.step]
    simp only [Lobby.Untorn] at huntorn
    split
    · exact h
    rename_i call hi
    rw [hi] at huntorn
    have hok := h.calls _ (List.mem_of_getElem? hi)
    cases call with
    | refresh writer fallback blockEnv next =>
      simp only [Call.access]
      cases next with
      | fallback => simpa using orderly_fallback h hi huntorn
      | blockEnv => simpa using orderly_blockEnv h hi huntorn
      | base => simpa using orderly_base h hi
    | restore blockNumber state =>
      refine orderly_read h _ hi nofun ?_ [] nofun
      dsimp only [Call.access]
      split <;> exact trivial
    | fork seed next =>
      cases next with
      | base =>
        have hok' : CallOk lobby.manager lobby.installed lobby.calls
            (.fork seed (.fallback lobby.manager.base)) := ⟨h.base, h.begun⟩
        exact orderly_read h _ hi nofun hok' [] nofun
      | fallback base =>
        obtain ⟨hbase, hbegun⟩ := hok
        have hzero : lobby.manager.fallback.writer = 0 → base.writer = 0 := by
          intro hzero
          by_contra hne
          exact hbegun hne hzero
        have hok' : CallOk lobby.manager lobby.installed lobby.calls
            (.fork seed (.blockEnv base lobby.manager.fallback)) :=
          ⟨hbase, h.fallback, h.paired, hzero, base_of_fallback h hbase huntorn⟩
        exact orderly_read h _ hi nofun hok' [] nofun
      | blockEnv base fallback =>
        obtain ⟨hbase, hfallback, hpaired, hzero, hrefreshed⟩ := hok
        refine orderly_read h .returned hi nofun trivial _ ?_
        intro s hs
        rw [List.mem_singleton.mp hs]
        exact whole_of_read h hbase hfallback (hpaired.resolve_right huntorn) hzero hrefreshed seed
    | returned => exact orderly_read h .returned hi nofun trivial [] nofun

/-- RUN LEMMA: a manager whose locks are taken untorn stays orderly. -/
theorem orderly_run (fallback : F) (base : BaseSnapshot) (blockEnv : BlockEnv)
    (events : List (LobbyEvent F))
    (huntorn : Guarded Lobby.step Lobby.Untorn (.start fallback base blockEnv) events) :
    Orderly (runAll Lobby.step (.start fallback base blockEnv) events) :=
  guarded_inv (P := Orderly) (fun _ event h => orderly_step h event) _ events
    (orderly_start fallback base blockEnv) huntorn

/-- CORRECT: in a run whose every lock access is untorn, every session opened on the default block
    got a fallback, a base and a block env that were installed together. -/
theorem no_torn_fork (fallback : F) (base : BaseSnapshot) (blockEnv : BlockEnv)
    (events : List (LobbyEvent F))
    (huntorn : Guarded Lobby.step Lobby.Untorn (.start fallback base blockEnv) events) :
    ∀ s ∈ (runAll Lobby.step (.start fallback base blockEnv) events).opened,
      (runAll Lobby.step (.start fallback base blockEnv) events).Whole s :=
  (orderly_run fallback base blockEnv events huntorn).whole

/-- A base that holds one account of the constructor's block. -/
def seededBase : BaseSnapshot := .fromParts [(0xa, .default)] [] [] []

def blockAt (number : U256) : BlockEnv := ⟨number, 0, 0, 30000000⟩

/-- A fork, a refresh and a second fork, one after another. -/
def inTurn : List (LobbyEvent ℕ) :=
  [.fork, .access 0, .access 0, .access 0, .refresh 2 (blockAt 2), .access 1, .access 1, .access 1,
    .fork, .access 2, .access 2, .access 2]

theorem no_torn_fork_sequential :
    let lobby := runAll Lobby.step (.start 1 seededBase (blockAt 1)) inTurn
    lobby.opened.length = 2 ∧ ∀ s ∈ lobby.opened, lobby.Whole s := by
  refine ⟨rfl, no_torn_fork 1 seededBase (blockAt 1) inTurn ?_⟩
  simp [inTurn, Guarded, Lobby.start, Lobby.step, Lobby.Untorn, Call.access, Pending]

/-- A refresh that runs between a fork's first lock and its second opens the old block's seeded base
    under the new block's fallback and environment. -/
theorem seeded_fork_torn :
    ¬ ∀ s ∈ (runAll Lobby.step (.start 1 seededBase (blockAt 1))
        [.fork, .access 0, .refresh 2 (blockAt 2), .access 1, .access 1, .access 1, .access 0,
          .access 0]).opened,
      (runAll Lobby.step (.start 1 seededBase (blockAt 1))
        [.fork, .access 0, .refresh 2 (blockAt 2), .access 1, .access 1, .access 1, .access 0,
          .access 0]).Whole s := by
  intro h
  have hwhole := h (.fork seededBase 2 (blockAt 2)) (List.mem_singleton.mpr rfl)
  have hbase : seededBase = .empty := by
    simpa [Lobby.Whole, Lobby.start, Lobby.step, Session.fork] using hwhole
  have haccount := congrArg (fun base => base.accounts.lookup 0xa) hbase
  revert haccount
  decide

end Forkyard
