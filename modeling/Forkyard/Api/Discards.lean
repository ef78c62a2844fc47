import Forkyard.Api.Receipts

/-! What a discard leaves behind. It takes the session from its worker first and the entry from the
    table after, under no lock that spans the two; a send between its commit and the table enters the
    receipt with `entry().or_default()`, which makes the entry anew if a discard has been there, and
    numbers it from the manager's block if the session is gone by then. `gone` and `built` are no
    part of the program: they record which discards were answered and what receipts were built.

        send:     advance ────▶ block env ──────────▶ enter      (recreates)
        discard:        └─ session ─▶ entry, answered ─┘ -/

namespace Forkyard

open Schemes

variable {F E : Type}

/-- A receipt, and what the entry had counted by it. -/
structure Built where
  id : SessionId
  counted : UInt64
  receipt : Receipt

/-- A server, the ids whose discard was answered, and every receipt built. -/
structure Discards (F : Type) where
  server : Server F
  gone : List SessionId
  built : List Built

/-- The id whose discard this step answers. -/
def Handler.answers : Handler F → Option SessionId
  | .discarded id => some id
  | _ => none

/-- The receipt this step builds. -/
def Handler.builds (server : Server F) : Handler F → Option Built
  | .located id tx result realStart _ =>
    let (receipt, entry) := (server.entry id).enter realStart tx result
    some ⟨id, entry.blockNumber, receipt⟩
  | _ => none

/-- A discard of the id that has still to take the entry away. -/
def Handler.discards (id : SessionId) : Handler F → Bool
  | .discard id' => decide (id' = id)
  | .discarded id' => decide (id' = id)
  | _ => false

/-- A request on the session that has not been answered. -/
def Handler.underWay (id : SessionId) : Handler F → Bool
  | .send id' _ => decide (id' = id)
  | .executed id' _ _ _ => decide (id' = id)
  | .located id' _ _ _ _ => decide (id' = id)
  | .forkFrom parent => decide (parent = id)
  | .branched parent _ _ => decide (parent = id)
  | .adopted parent _ _ => decide (parent = id)
  | .discard id' => decide (id' = id)
  | .discarded id' => decide (id' = id)
  | _ => false

/-- The request whose step it is. -/
def Server.moving (server : Server F) : ServerEvent F → Option (Handler F)
  | .move i => server.handlers[i]?
  | _ => none

namespace Discards

def start (blockEnv : BlockEnv) : Discards F := ⟨.start blockEnv, [], []⟩

def step [ToString E] (up : F → Upstream E) (evm : Evm E) (order : HashOrder) (d : Discards F)
    (event : ServerEvent F) : Discards F where
  server := d.server.step up evm order event
  gone := d.gone ++ ((d.server.moving event).bind Handler.answers).toList
  built := d.built ++ ((d.server.moving event).bind (Handler.builds d.server)).toList

/-- The entry of the id is still to be taken away, or no discard of it was answered yet. -/
def Awaited (d : Discards F) (id : SessionId) : Prop :=
  id ∈ d.gone → ∃ handler ∈ d.server.handlers, handler.discards id = true

/-- A send that has lost its session finds the manager at that session's block; what enters the table
    enters before the last discard of its id does; ids are not used twice. -/
def Timely (d : Discards F) : ServerEvent F → Prop
  | .move i => ∀ handler, d.server.handlers[i]? = some handler → match handler with
    | .executed id _ _ _ => d.server.sessions.lookup id = none →
      ∀ height, d.server.blockEnv.height = some height → height.toNat = (d.server.past id).block
    | .located id _ _ _ _ => d.Awaited id
    | .adopted parent child _ => d.server.rpcState.lookup parent ≠ none → d.Awaited child
    | .branched _ _ _ => d.server.nextId < 2 ^ 64
    | _ => True
  | .opened _ => d.server.nextId < 2 ^ 64
  | _ => True

end Discards

/-! ### The invariant -/

/-- What a send remembers is of a session that was opened, and its own block. -/
def Handler.Owns (server : Server F) : Handler F → Prop
  | .executed id _ _ _ => id.toNat < server.nextId
  | .located id _ _ realStart _ =>
    id.toNat < server.nextId ∧ realStart.toNat = (server.past id).block
  | _ => True

/-- INVARIANT of a timely run. -/
structure Discards.Swept (d : Discards F) : Prop where
  sessions : ∀ id s, d.server.sessions.lookup id = some s →
    id.toNat < d.server.nextId ∧ s.blockEnv.number.toNat = (d.server.past id).block
  owns : ∀ handler ∈ d.server.handlers, handler.Owns d.server
  built : ∀ b ∈ d.built, b.id.toNat < d.server.nextId ∧ ∃ realStart : UInt64,
    realStart.toNat = (d.server.past b.id).block ∧ b.receipt.blockNumber = realStart + b.counted
  swept : ∀ id, d.server.rpcState.lookup id ≠ none → d.Awaited id

/-- Sessions opened before keep their block. -/
structure Server.Extends (server server' : Server F) : Prop where
  nextId : server.nextId ≤ server'.nextId
  block : ∀ id : SessionId, id.toNat < server.nextId →
    (server'.past id).block = (server.past id).block

variable {server server' : Server F} {d : Discards F}

theorem Server.Extends.of_past (hnextId : server'.nextId = server.nextId)
    (hpast : ∀ id, (server'.past id).block = (server.past id).block) : server.Extends server' :=
  ⟨hnextId.ge, fun id _ => hpast id⟩

theorem Handler.Owns.mono (h : server.Extends server') {handler : Handler F}
    (howns : handler.Owns server) : handler.Owns server' := by
  cases handler with
  | executed id tx result turn => exact Nat.lt_of_lt_of_le howns h.nextId
  | located id tx result realStart turn =>
    exact ⟨Nat.lt_of_lt_of_le howns.1 h.nextId, howns.2.trans (h.block id howns.1).symm⟩
  | send | sent | forkFrom | branched | adopted | forked | discard | discarded | done | failed =>
    trivial

namespace Discards

/-- FRAME: no discard is answered and no receipt built. -/
theorem swept_frame (h : d.Swept) (hextends : d.server.Extends server')
    (hsessions : ∀ id s, server'.sessions.lookup id = some s →
      id.toNat < server'.nextId ∧ s.blockEnv.number.toNat = (server'.past id).block)
    (hhandlers : ∀ handler ∈ server'.handlers, handler ∈ d.server.handlers ∨ handler.Owns server')
    (hdiscards : ∀ id, (∃ handler ∈ d.server.handlers, handler.discards id = true) →
      ∃ handler ∈ server'.handlers, handler.discards id = true)
    (htable : ∀ id, server'.rpcState.lookup id ≠ none → d.Awaited id) :
    Swept ⟨server', d.gone, d.built⟩ where
  sessions := hsessions
  owns handler hmem := (hhandlers handler hmem).elim
    (fun hold => (h.owns handler hold).mono hextends) id
  built b hmem := by
    obtain ⟨hlt, realStart, hstart, hnumber⟩ := h.built b hmem
    refine ⟨Nat.lt_of_lt_of_le hlt hextends.nextId, realStart, ?_, hnumber⟩
    exact hstart.trans (hextends.block b.id hlt).symm
  swept id hentry hgone := hdiscards id (htable id hentry hgone)

/-- A request moves on, and leaves its session's block and the discards under way as they are. -/
theorem discards_set {i : ℕ} {handler next : Handler F} (hi : server.handlers[i]? = some handler)
    {id : SessionId} (hsame : handler.discards id = true → next.discards id = true)
    (h : ∃ other ∈ server.handlers, other.discards id = true) :
    ∃ other ∈ server.handlers.set i next, other.discards id = true := by
  obtain ⟨other, hmem, hdiscards⟩ := h
  obtain ⟨j, hj⟩ := List.mem_iff_getElem?.mp hmem
  by_cases hij : i = j
  · subst hij
    obtain rfl := Option.some.inj (hi.symm.trans hj)
    exact ⟨next, List.mem_set (List.getElem?_eq_some_iff.mp hi).1 _, hsame hdiscards⟩
  · refine ⟨other, List.mem_iff_getElem?.mpr ⟨j, ?_⟩, hdiscards⟩
    rw [List.getElem?_set_ne hij, hj]

theorem swept_start (blockEnv : BlockEnv) : (start blockEnv : Discards F).Swept where
  sessions id s hs := by simp [start, Server.start] at hs
  owns := nofun
  built := nofun
  swept id hentry := by simp [start, Server.start] at hentry

/-- A request comes in. -/
theorem swept_request (h : d.Swept) {handler : Handler F} (howns : handler.Owns d.server) :
    Swept ⟨{ d.server with handlers := d.server.handlers ++ [handler] }, d.gone, d.built⟩ := by
  refine swept_frame h (.of_past rfl fun _ => rfl) h.sessions (fun other hmem => ?_)
    (fun id hdiscard => ?_) h.swept
  · rcases List.mem_append.mp hmem with hold | hnew
    · exact .inl hold
    · rw [List.mem_singleton.mp hnew]
      exact .inr howns
  · obtain ⟨other, hmem, hdiscards⟩ := hdiscard
    exact ⟨other, List.mem_append_left _ hmem, hdiscards⟩

/-- Sessions change, and those there are were there at their block. -/
theorem swept_sessions (h : d.Swept) {sessions : Map SessionId (Session F)}
    (hsessions : ∀ id s, sessions.lookup id = some s → ∃ s', d.server.sessions.lookup id = some s' ∧
      s'.blockEnv = s.blockEnv) : Swept ⟨{ d.server with sessions := sessions }, d.gone, d.built⟩ := by
  refine swept_frame h (.of_past rfl fun _ => rfl) (fun id s hs => ?_) (fun _ => .inl) (fun _ => id)
    h.swept
  obtain ⟨s', hs', henv⟩ := hsessions id s hs
  rw [← henv]
  exact h.sessions id s' hs'

/-- A request moves on that is no discard any more, or the same one, and enters into the table for
    such sessions only as have no discard behind them. -/
theorem swept_move (h : d.Swept) {i : ℕ} {handler next : Handler F}
    (hi : d.server.handlers[i]? = some handler) {past : SessionId → Past}
    {rpcState : Map SessionId SessionRpcState}
    (hpast : ∀ id, (past id).block = (d.server.past id).block)
    (howns : next.Owns { d.server with past := past })
    (hsame : ∀ id, handler.discards id = true → next.discards id = true)
    (htable : ∀ id, rpcState.lookup id ≠ none → d.Awaited id) :
    Swept ⟨{ d.server with
      handlers := d.server.handlers.set i next, past := past, rpcState := rpcState },
      d.gone, d.built⟩ := by
  refine swept_frame h (.of_past rfl hpast) (fun id s hs => ?_) (fun other hmem => ?_)
    (fun id hdiscard => discards_set hi (hsame id) hdiscard) htable
  · rw [hpast]
    exact h.sessions id s hs
  · rcases List.mem_or_eq_of_mem_set hmem with hold | rfl
    · exact .inl hold
    · refine .inr ?_
      cases other with
      | executed | located => exact howns
      | send | sent | forkFrom | branched | adopted | forked | discard | discarded | done | failed =>
        trivial

/-- A request moves on without the table. -/
theorem swept_set (h : d.Swept) {i : ℕ} {handler next : Handler F}
    (hi : d.server.handlers[i]? = some handler) (howns : next.Owns d.server)
    (hsame : ∀ id, handler.discards id = true → next.discards id = true) :
    Swept ⟨{ d.server with handlers := d.server.handlers.set i next }, d.gone, d.built⟩ :=
  swept_move h hi (fun _ => rfl) howns hsame h.swept

/-- A session is registered under a new id. -/
theorem swept_register (h : d.Swept) (session : Session F) (hid : d.server.nextId < 2 ^ 64) :
    Swept ⟨d.server.register session, d.gone, d.built⟩ := by
  have hne : ∀ id : SessionId, id.toNat < d.server.nextId → id ≠ UInt64.ofNat d.server.nextId := by
    rintro _ hlt rfl
    rw [toNat_fits hid] at hlt
    exact Nat.lt_irrefl _ hlt
  have hextends : d.server.Extends (d.server.register session) := by
    refine ⟨Nat.le_succ _, fun id hlt => ?_⟩
    simp only [Server.register, Function.update_of_ne (hne id hlt)]
  refine swept_frame h hextends (fun id s hs => ?_) (fun _ => .inl) (fun _ => id) h.swept
  by_cases hnew : id = UInt64.ofNat d.server.nextId
  · subst hnew
    simp only [Server.register, Finmap.lookup_insert, Option.some.injEq] at hs
    subst hs
    simp only [Server.register, Function.update_self, toNat_fits hid]
    exact ⟨Nat.lt_succ_self _, trivial⟩
  · simp only [Server.register, Finmap.lookup_insert_of_ne _ hnew] at hs
    obtain ⟨hlt, hblock⟩ := h.sessions id s hs
    exact ⟨Nat.lt_succ_of_lt hlt, hblock.trans (hextends.block id hlt).symm⟩

section Step

variable [ToString E] {up : F → Upstream E} {evm : Evm E} {order : HashOrder}

/-- A send is executed: its session was there. -/
theorem swept_send (h : d.Swept) {i : ℕ} {id : SessionId} {tx : LegacyTx}
    (hi : d.server.handlers[i]? = some (.send id tx)) :
    Swept ⟨d.server.move up evm order i (.send id tx), d.gone, d.built⟩ := by
  have hplace : (Job.read (F := F) id (.advance tx.env)).InPlace := trivial
  obtain ⟨sessions, hserve, hplaces⟩ := serve_inPlace up evm order d.server hplace
  obtain ⟨hreply, -⟩ := serve_spec up evm order d.server (.read id (.advance tx.env))
  have hserved : Swept ⟨{ d.server with sessions := sessions }, d.gone, d.built⟩ := by
    refine swept_sessions h fun id' s hs => ?_
    have hplace' := hplaces id'
    rw [hs] at hplace'
    exact Option.map_eq_some_iff.mp hplace'.symm
  rcases hpair : d.server.serve up evm order (.read id (.advance tx.env)) with ⟨reply, served⟩
  rw [hpair] at hreply hserve
  dsimp only at hreply hserve
  subst hserve
  simp only [Server.move, hpair]
  split
  · rename_i result served heq
    obtain ⟨rfl, rfl⟩ := Prod.mk.inj heq
    have hlt : id.toNat < d.server.nextId := by
      cases hs : d.server.sessions.lookup id with
      | some s => exact (h.sessions id s hs).1
      | none =>
        rw [Job.sessionId, hs] at hreply
        cases hreply
    have hpast : ∀ id', (Function.update d.server.past id { d.server.past id with
        commits := (d.server.past id).commits ++ [(tx, result)] } id').block
          = (d.server.past id').block := past_same Past.block rfl
    exact swept_move (d := ⟨{ d.server with sessions := sessions }, d.gone, d.built⟩) hserved hi
      hpast hlt (fun _ hfalse => by cases hfalse) hserved.swept
  · rename_i served hnot heq
    obtain ⟨rfl, rfl⟩ := Prod.mk.inj heq
    exact swept_set hserved hi trivial fun _ hfalse => by cases hfalse

/-- A send has found its block: its own, if the session was there or the manager at it. -/
theorem swept_locate (h : d.Swept) {i : ℕ} {id : SessionId} {tx : LegacyTx}
    {result : ExecutionResult} {turn : ℕ}
    (hi : d.server.handlers[i]? = some (.executed id tx result turn))
    (hblock : d.server.sessions.lookup id = none → ∀ height,
      d.server.blockEnv.height = some height → height.toNat = (d.server.past id).block) :
    Swept ⟨d.server.move up evm order i (.executed id tx result turn), d.gone, d.built⟩ := by
  have hlt : id.toNat < d.server.nextId := h.owns _ (List.mem_of_getElem? hi)
  simp only [Server.move]
  cases hheight : (d.server.sessionBlockEnv id).height with
  | none => exact swept_set h hi trivial fun _ hfalse => by cases hfalse
  | some realStart =>
    refine swept_set h hi ⟨hlt, ?_⟩ fun _ hfalse => by cases hfalse
    cases hs : d.server.sessions.lookup id with
    | none =>
      rw [Server.sessionBlockEnv, hs] at hheight
      exact hblock hs realStart hheight
    | some s =>
      rw [Server.sessionBlockEnv, hs] at hheight
      exact (BlockEnv.height_eq hheight).trans (h.sessions id s hs).2

/-- A receipt is built on what its send remembers, and entered while the discard of its id is still
    to come. -/
theorem swept_enter (h : d.Swept) {i : ℕ} {id : SessionId} {tx : LegacyTx}
    {result : ExecutionResult} {realStart : UInt64} {turn : ℕ}
    (hi : d.server.handlers[i]? = some (.located id tx result realStart turn))
    (hawaited : d.Awaited id) :
    (d.step up evm order (.move i)).Swept := by
  obtain ⟨hlt, hstart⟩ : id.toNat < d.server.nextId ∧ realStart.toNat = (d.server.past id).block :=
    h.owns _ (List.mem_of_getElem? hi)
  have hpast : ∀ id', (Function.update d.server.past id { d.server.past id with
      entered := (d.server.past id).entered ++ [turn] } id').block = (d.server.past id').block :=
    past_same Past.block rfl
  have hframe : Swept ⟨d.server.move up evm order i (.located id tx result realStart turn), d.gone,
      d.built⟩ := by
    refine swept_move h hi hpast trivial (fun _ hfalse => by cases hfalse) fun id' hentry => ?_
    by_cases hid : id' = id
    · rw [hid]
      exact hawaited
    · rw [Finmap.lookup_insert_of_ne _ hid] at hentry
      exact h.swept id' hentry
  simp only [step, Server.step, Server.moving, hi, Option.bind_some, Handler.answers, Handler.builds,
    Option.toList_none, List.append_nil, Option.toList_some]
  refine ⟨hframe.sessions, hframe.owns, fun b hmem => ?_, hframe.swept⟩
  rcases List.mem_append.mp hmem with hold | hnew
  · exact hframe.built b hold
  · rw [List.mem_singleton.mp hnew]
    refine ⟨hlt, realStart, ?_, rfl⟩
    simp only [Server.move]
    rw [hpast]
    exact hstart

/-- A child is given its parent's entry while no discard of it was answered. -/
theorem swept_clone (h : d.Swept) {i : ℕ} {parent child : SessionId} {before : ℕ}
    (hi : d.server.handlers[i]? = some (.adopted parent child before))
    (hawaited : d.server.rpcState.lookup parent ≠ none → d.Awaited child) :
    Swept ⟨d.server.move up evm order i (.adopted parent child before), d.gone, d.built⟩ := by
  simp only [Server.move]
  cases hparent : d.server.rpcState.lookup parent with
  | none => exact swept_set h hi trivial fun _ hfalse => by cases hfalse
  | some inherited =>
    have hpast : ∀ id', (Function.update d.server.past child
        { d.server.past child with start := inherited } id').block = (d.server.past id').block :=
      past_same Past.block rfl
    refine swept_move h hi hpast trivial (fun _ hfalse => by cases hfalse) fun id' hentry => ?_
    by_cases hid : id' = child
    · rw [hid]
      exact hawaited (by rw [hparent]; exact Option.some_ne_none _)
    · rw [Finmap.lookup_insert_of_ne _ hid] at hentry
      exact h.swept id' hentry

/-- A discard takes the entry away, and is answered. -/
theorem swept_remove (h : d.Swept) {i : ℕ} {id : SessionId}
    (hi : d.server.handlers[i]? = some (.discarded id)) :
    (d.step up evm order (.move i)).Swept := by
  have hpast : ∀ id', (Function.update d.server.past id { d.server.past id with
      dropped := (d.server.past id).dropped || (d.server.rpcState.lookup id).isSome } id').block
        = (d.server.past id').block := past_same Past.block rfl
  have hextends : d.server.Extends (d.server.move up evm order i (.discarded id)) :=
    .of_past rfl hpast
  simp only [step, Server.step, Server.moving, hi, Option.bind_some, Handler.answers, Handler.builds,
    Option.toList_none, List.append_nil, Option.toList_some]
  refine ⟨fun id' s hs => ?_, fun handler hmem => ?_, fun b hmem => ?_, fun id' hentry hgone => ?_⟩
  · simp only [Server.move]
    rw [hpast]
    exact h.sessions id' s hs
  · rcases List.mem_or_eq_of_mem_set hmem with hold | rfl
    · exact (h.owns handler hold).mono hextends
    · exact trivial
  · simp only [Server.move]
    rw [hpast]
    exact h.built b hmem
  · simp only [Server.move, Map.lookup_erase_eq] at hentry
    by_cases hid : id' = id
    · rw [if_pos hid] at hentry
      exact absurd rfl hentry
    · rw [if_neg hid] at hentry
      have hbefore : id' ∈ d.gone := by
        rcases List.mem_append.mp hgone with hold | hnew
        · exact hold
        · exact absurd (List.mem_singleton.mp hnew) hid
      refine discards_set hi (fun hsame => ?_) (h.swept id' hentry hbefore)
      exact absurd (of_decide_eq_true hsame).symm hid

/-- STEP LEMMA. -/
theorem swept_step (h : d.Swept) (event : ServerEvent F) (htimely : d.Timely event) :
    (d.step up evm order event).Swept := by
  have hquiet : (d.server.moving event).bind Handler.answers = none →
      (d.server.moving event).bind (Handler.builds d.server) = none →
      Swept ⟨d.server.step up evm order event, d.gone, d.built⟩ →
      (d.step up evm order event).Swept := by
    intro hanswers hbuilds hswept
    simp only [step, hanswers, hbuilds, Option.toList_none, List.append_nil]
    exact hswept
  cases event with
  | send id tx => exact hquiet rfl rfl (swept_request h trivial)
  | forkFrom parent => exact hquiet rfl rfl (swept_request h trivial)
  | discard id => exact hquiet rfl rfl (swept_request h trivial)
  | opened session => exact hquiet rfl rfl (swept_register h session htimely)
  | expire id =>
    exact hquiet rfl rfl (swept_sessions h fun id' s hs => ⟨s, Map.of_lookup_erase hs, rfl⟩)
  | other job =>
    obtain ⟨sessions, hserve, hplaces⟩ := serve_inPlace up evm order d.server job.2
    refine hquiet rfl rfl ?_
    simp only [Server.step, hserve]
    refine swept_sessions h fun id s hs => ?_
    have hplace := hplaces id
    rw [hs] at hplace
    exact Option.map_eq_some_iff.mp hplace.symm
  | refresh blockEnv =>
    exact hquiet rfl rfl (swept_frame h (.of_past rfl fun _ => rfl) h.sessions (fun _ => .inl)
      (fun _ => id) h.swept)
  | move i =>
    cases hi : d.server.handlers[i]? with
    | none =>
      refine hquiet (by rw [Server.moving, hi]; rfl) (by rw [Server.moving, hi]; rfl) ?_
      simp only [Server.step, hi]
      exact h
    | some handler =>
      have hstep := htimely handler hi
      have hmove : Swept ⟨d.server.move up evm order i handler, d.gone, d.built⟩ →
          handler.answers = none → handler.builds d.server = none →
            (d.step up evm order (.move i)).Swept := by
        intro hswept hanswers hbuilds
        refine hquiet (by rw [Server.moving, hi]; exact hanswers)
          (by rw [Server.moving, hi]; exact hbuilds) ?_
        simp only [Server.step, hi]
        exact hswept
      cases handler with
      | send id tx => exact hmove (swept_send h hi) rfl rfl
      | executed id tx result turn => exact hmove (swept_locate h hi hstep) rfl rfl
      | located id tx result realStart turn => exact swept_enter h hi hstep
      | forkFrom parent =>
        refine hmove ?_ rfl rfl
        simp only [Server.move]
        split <;> exact swept_set h hi trivial fun _ hfalse => by cases hfalse
      | branched parent session before =>
        refine hmove ?_ rfl rfl
        exact swept_set (d := ⟨_, d.gone, d.built⟩) (swept_register h session hstep) hi trivial
          fun _ hfalse => by cases hfalse
      | adopted parent child before => exact hmove (swept_clone h hi hstep) rfl rfl
      | discard id =>
        have hset : Swept ⟨{ d.server with
            handlers := d.server.handlers.set i (.discarded id) }, d.gone, d.built⟩ :=
          swept_set h hi trivial fun _ hsame => hsame
        refine hmove ?_ rfl rfl
        exact swept_sessions (d := ⟨{ d.server with
            handlers := d.server.handlers.set i (.discarded id) }, d.gone, d.built⟩) hset
          fun id' s hs => ⟨s, Map.of_lookup_erase hs, rfl⟩
      | discarded id => exact swept_remove h hi
      | sent | forked | done | failed => exact hmove h rfl rfl

end Step

end Discards

theorem Handler.underWay_of_discards {handler : Handler F} {id : SessionId}
    (h : handler.discards id = true) : handler.underWay id = true := by
  cases handler with
  | discard id' => exact h
  | discarded id' => exact h
  | send | executed | located | sent | forkFrom | branched | adopted | forked | done | failed =>
    cases h

/-- CORRECT: in every run in which sends that have lost their session find the manager at its block,
    and what enters the table does so before the last discard of its id, a discard that was answered
    leaves no entry once all requests on its session are, and every receipt counts from the block of
    its session. -/
theorem discarded_leaves_nothing [ToString E] {up : F → Upstream E} {evm : Evm E}
    {order : HashOrder} (blockEnv : BlockEnv) (events : List (ServerEvent F))
    (htimely : Guarded (Discards.step up evm order) Discards.Timely (.start blockEnv) events) :
    let d := runAll (Discards.step up evm order) (.start blockEnv) events
    (∀ id ∈ d.gone, (∀ handler ∈ d.server.handlers, handler.underWay id = false) →
      d.server.rpcState.lookup id = none) ∧
    ∀ b ∈ d.built, ∃ realStart : UInt64, realStart.toNat = (d.server.past b.id).block ∧
      b.receipt.blockNumber = realStart + b.counted := by
  intro d
  have hswept : d.Swept := guarded_inv (P := Discards.Swept)
    (fun _ event h hguard => Discards.swept_step h event hguard) _ events
    (Discards.swept_start blockEnv) htimely
  refine ⟨fun id hgone hanswered => ?_, fun b hmem => (hswept.built b hmem).2⟩
  by_contra hentry
  obtain ⟨handler, hmem, hdiscards⟩ := hswept.swept id hentry hgone
  have hnot := hanswered handler hmem
  rw [Handler.underWay_of_discards hdiscards] at hnot
  cases hnot

/-- A session's transaction sent and answered, then the session discarded. -/
def sendThenDiscard : List (ServerEvent Unit) :=
  [.opened freshSession, .send 0 (nthTx 0), .move 0, .move 0, .move 0, .discard 0, .move 1, .move 1]

theorem discarded_leaves_nothing_after :
    (runAll (Discards.step (fun _ => .vacant "missing") obliging .some)
      (.start ⟨1, 0, 0, 30000000⟩) sendThenDiscard).server.rpcState.lookup 0 = none := by
  have htimely : Guarded (Discards.step (fun _ => .vacant "missing") obliging .some) Discards.Timely
      (.start ⟨1, 0, 0, 30000000⟩) sendThenDiscard := by
    refine ⟨Nat.two_pow_pos 64, trivial, ?_, ?_, ?_, trivial, ?_, ?_, trivial⟩
    · rintro _ ⟨⟩; exact trivial
    · rintro _ ⟨⟩ hgone; cases hgone
    · rintro _ ⟨⟩ hgone; cases hgone
    · rintro _ ⟨⟩; exact trivial
    · rintro _ ⟨⟩; exact trivial
  refine (discarded_leaves_nothing ⟨1, 0, 0, 30000000⟩ sendThenDiscard htimely).1 0
    List.mem_cons_self fun handler hmem => ?_
  rcases List.mem_cons.mp hmem with rfl | hmem
  · rfl
  · rw [List.mem_singleton.mp hmem]
    rfl

/-- The discard runs to its end between the send's commit and the table, and the manager has moved on
    to block 8. -/
def discardWithin : List (ServerEvent Unit) :=
  [.opened freshSession, .send 0 (nthTx 0), .move 0, .discard 0, .move 1, .move 1,
    .refresh ⟨8, 0, 0, 30000000⟩, .move 0, .move 0]

/-- All is answered, the discarded session has an entry again, and its receipt is in block 9 where its
    own block is 1. -/
theorem entry_recreated :
    let d := runAll (Discards.step (fun _ => .vacant "missing") obliging .some)
      (.start ⟨1, 0, 0, 30000000⟩) discardWithin
    (0 ∈ d.gone ∧ (∀ handler ∈ d.server.handlers, handler.underWay 0 = false) ∧
      d.server.rpcState.lookup 0 ≠ none) ∧
    ∃ b ∈ d.built, b.id = 0 ∧ b.counted = 1 ∧ b.receipt.blockNumber = 9 ∧
      (d.server.past 0).block = 1 := by
  intro d
  refine ⟨⟨List.mem_cons_self, fun handler hmem => ?_, ?_⟩, _, List.mem_cons_self, rfl, rfl, rfl, rfl⟩
  · rcases List.mem_cons.mp hmem with rfl | hmem
    · rfl
    · rw [List.mem_singleton.mp hmem]
      rfl
  · exact Option.some_ne_none _

end Forkyard
