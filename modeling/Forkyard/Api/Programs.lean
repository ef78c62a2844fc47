import Forkyard.Api.Dispatch

/-! One surface, told twice. The side table's server takes each handler from one lock or job to the
    next, and keeps a record of what was committed; `dispatch` has a program for each method, whose
    every question is a step of its own. Each step of a handler is some questions of its program in a
    row, so that whatever the server goes through, the programs do on a backend; and what `AppState`
    answers a call or an estimate their programs answer.

        handler:  send ─────▶ executed ─────────────▶ located ─────▶ sent
        program:     advance       block env, default       enter         -/

namespace Forkyard

open Schemes

variable {F E : Type}

/-- The server's sessions, defaults and table are the backend's. -/
structure Backend.Backs (b : Backend F) (server : Server F) : Prop where
  sessions : ∀ id, b.sessions.lookup id = server.sessions.lookup id
  nextId : b.nextId = server.nextId
  blockEnv : b.blockEnv = server.blockEnv
  rpcState : b.rpcState = server.rpcState

/-- What is left of the program of a request that has come so far. A send answers with its receipt if
    it is a `sync` one. -/
def Handler.Leaves (w : Wire) (sync : Bool) : Handler F → Rpc F → Prop
  | .send id tx, t => ∃ hopens, t = request ⟨.read id (.advance tx.env), hopens⟩ gotExecuted w.tell
      fun result => Wire.sent id tx result sync
  | .executed id tx result _, t => t = Wire.sent id tx result sync
  | .located id tx result realStart _, t => t = .ask (.enter id realStart tx result) fun receipt =>
      .ret (.ok (if sync then .receipt (some receipt) else .text (wordText tx.hash.toNat)))
  | .sent _ receipt _, t => t = .ret (.ok (if sync then .receipt (some receipt)
      else .text (wordText receipt.transactionHash.toNat)))
  | .forkFrom parent, t => t = w.forkyardForkFrom parent
  | .branched parent session _, t => ∃ hquiet : session.readLog = none,
      t = register (.adopt ⟨session, hquiet⟩) fun child =>
        .ask (.inherit parent child) fun _ => .ret (.ok (.session child))
  | .adopted parent child _, t =>
      t = .ask (.inherit parent child) fun _ => .ret (.ok (.session child))
  | .forked _ child _, t => t = .ret (.ok (.session child))
  | .discard id, t => t = w.forkyardDiscard id
  | .discarded id, t => t = .ask (.remove id) fun _ => .ret (.ok .truth)
  | .done, t => t = .ret (.ok .truth)
  | .failed, t => (∃ e, t = .ret (.error e)) ∨ t = .panic

/-- A send is what is left of `eth_sendRawTransaction` once its transaction is read. -/
theorem dispatch_send {w : Wire} {params : List Value} {tx : LegacyTx}
    (hread : w.signedTx params = .ok tx) (id : SessionId) (sync : Bool) :
    (Handler.send id tx : Handler F).Leaves w sync (w.ethSendRawTransaction id params sync) := by
  rw [Wire.ethSendRawTransaction, hread]
  exact ⟨rfl, rfl⟩

/-- Whatever is replied but a result is an error. -/
theorem gotExecuted_error {reply : Option (Reply F)}
    (hnot : ∀ result, reply = some (.executed (.ok result)) → False) :
    ∃ e, gotExecuted reply = .error e := by
  unfold gotExecuted
  split
  · rename_i outcome
    cases outcome with
    | error e => exact ⟨_, rfl⟩
    | ok result => exact (hnot result rfl).elim
  · exact ⟨_, rfl⟩

/-- FRAME: the handlers and the record of the past are the server's alone. -/
theorem backs_frame {b : Backend F} {server : Server F} (h : b.Backs server)
    (handlers : List (Handler F)) (past : SessionId → Past) :
    b.Backs { server with handlers := handlers, past := past } :=
  ⟨h.sessions, h.nextId, h.blockEnv, h.rpcState⟩

section Steps

variable [ToString E] {up : F → Upstream E} {evm : Evm E} {order : HashOrder}
  {stored : UInt64 → SessionState → Except String SnapshotInfo} {w : Wire} {sync : Bool}
  {b : Backend F} {server : Server F}

variable (up evm order) in
/-- A job is answered alike, and leaves the same behind. -/
theorem backs_serve (h : b.Backs server) (job : Job F) :
    (b.serve up evm order job).1 = (server.serve up evm order job).1 ∧
      (b.serve up evm order job).2.Backs (server.serve up evm order job).2 := by
  obtain ⟨hreply, sessions, hserve, hlookup⟩ := Backend.serve_spec up evm order b job
  obtain ⟨hreply', sessions', hserve', hlookup'⟩ := serve_spec up evm order server job
  rw [hreply, hreply', hserve, hserve', h.sessions]
  refine ⟨rfl, fun id => ?_, h.nextId, h.blockEnv, h.rpcState⟩
  rw [hlookup, hlookup', h.sessions]

variable (up evm order) in
/-- A look at a session changes nothing. -/
theorem backs_look (h : b.Backs server) {c : Command F}
    (hsame : ∀ slot, (refCommand order c slot).2 = slot) :
    (b.serve up evm order (.command c)).1
        = some (refCommand order c (server.sessions.lookup c.sessionId)).1 ∧
      (b.serve up evm order (.command c)).2.Backs server := by
  obtain ⟨hreply, sessions, hserve, hlookup⟩ := Backend.serve_spec up evm order b (.command c)
  rw [hreply, hserve, h.sessions]
  refine ⟨rfl, fun id => ?_, h.nextId, h.blockEnv, h.rpcState⟩
  rw [hlookup, h.sessions]
  split
  · exact hsame _
  · rfl

variable (up evm order stored w sync) in
/-- Some questions of a program in a row take the backend to where the server is once its `i`-th
    handler has moved, and leave what that handler leaves. -/
def Follows (b : Backend F) (t : Rpc F) (i : ℕ) (server server' : Server F) : Prop :=
  ∃ next t' b', server'.handlers = server.handlers.set i next ∧ next.Leaves w sync t' ∧
    b'.Backs server' ∧ Stride (Backend.answer up evm order stored) t b t' b'

/-- One question. -/
theorem follows_ask {hop : Hop F} {k : hop.Answer → Rpc F} {i : ℕ} {server' : Server F}
    {next : Handler F} (hhandlers : server'.handlers = server.handlers.set i next)
    (hbacks : (Backend.answer up evm order stored hop b).2.Backs server')
    (hleaves : next.Leaves w sync (k (Backend.answer up evm order stored hop b).1)) :
    Follows up evm order stored w sync b (.ask hop k) i server server' :=
  ⟨next, _, _, hhandlers, hleaves, hbacks, .ask (.rest _ _)⟩

/-- A transaction is run, or rejected. -/
theorem follows_send (h : b.Backs server) {i : ℕ} (id : SessionId) (tx : LegacyTx) {t : Rpc F}
    (ht : (Handler.send id tx).Leaves w sync t) :
    Follows up evm order stored w sync b t i server
      (server.move up evm order i (.send id tx)) := by
  obtain ⟨hreply, hbacks⟩ := backs_serve up evm order h (.read id (.advance tx.env))
  obtain ⟨-, sessions, hserve, -⟩ := serve_spec up evm order server (.read id (.advance tx.env))
  obtain ⟨-, rfl⟩ := ht
  rcases hpair : server.serve up evm order (.read id (.advance tx.env)) with ⟨reply, served⟩
  rw [hpair] at hreply hbacks hserve
  dsimp only at hserve
  subst hserve
  simp only [Server.move, hpair]
  split
  · rename_i result served heq
    obtain ⟨rfl, rfl⟩ := Prod.mk.inj heq
    refine follows_ask rfl (backs_frame hbacks _ _) ?_
    simp only [Backend.answer, hreply]
    rfl
  · rename_i served hnot heq
    obtain ⟨rfl, rfl⟩ := Prod.mk.inj heq
    refine follows_ask rfl (backs_frame hbacks _ _) ?_
    simp only [Backend.answer, hreply]
    obtain ⟨e, he⟩ := gotExecuted_error hnot
    rw [he]
    exact .inl ⟨_, rfl⟩

variable (up evm order stored) in
/-- A session's block is looked up: one question where the session is there, two where it is gone. -/
theorem stride_sessionBlockEnv (h : b.Backs server) (id : SessionId) (k : BlockEnv → Rpc F) :
    ∃ b', b'.Backs server ∧ Stride (Backend.answer up evm order stored) (sessionBlockEnv id k) b
      (k (server.sessionBlockEnv id)) b' := by
  obtain ⟨hreply, hbacks⟩ := backs_look up evm order h (c := .blockEnvOf id)
    fun slot => by cases slot <;> rfl
  rw [sessionBlockEnv, Server.sessionBlockEnv]
  cases hs : server.sessions.lookup id with
  | some s =>
    rw [Command.sessionId, hs] at hreply
    refine ⟨_, hbacks, .ask ?_⟩
    simp only [Backend.answer, hreply]
    exact .rest _ _
  | none =>
    rw [Command.sessionId, hs] at hreply
    refine ⟨_, hbacks, .ask ?_⟩
    simp only [Backend.answer, hreply]
    refine .ask ?_
    simp only [Backend.answer, hbacks.blockEnv]
    exact .rest _ _

/-- A committed send finds its block, if that fits a u64. -/
theorem follows_locate (h : b.Backs server) {i : ℕ} (id : SessionId) (tx : LegacyTx)
    (result : ExecutionResult) (turn : ℕ) {t : Rpc F}
    (ht : (Handler.executed id tx result turn).Leaves w sync t) :
    Follows up evm order stored w sync b t i server
      (server.move up evm order i (.executed id tx result turn)) := by
  subst ht
  obtain ⟨b', hbacks, hstride⟩ : ∃ b', b'.Backs server ∧
      Stride (Backend.answer up evm order stored) (Wire.sent id tx result sync) b _ b' :=
    stride_sessionBlockEnv up evm order stored h id _
  simp only [Server.move]
  cases hheight : (server.sessionBlockEnv id).height with
  | some realStart =>
    refine ⟨_, _, b', rfl, rfl, backs_frame hbacks _ _, ?_⟩
    simp only [hheight] at hstride
    exact hstride
  | none =>
    refine ⟨_, _, b', rfl, .inr rfl, backs_frame hbacks _ _, ?_⟩
    simp only [hheight] at hstride
    exact hstride

/-- A receipt is entered. -/
theorem follows_enter (h : b.Backs server) {i : ℕ} (id : SessionId) (tx : LegacyTx)
    (result : ExecutionResult) (realStart : UInt64) (turn : ℕ) {t : Rpc F}
    (ht : (Handler.located id tx result realStart turn).Leaves w sync t) :
    Follows up evm order stored w sync b t i server
      (server.move up evm order i (.located id tx result realStart turn)) := by
  subst ht
  have hentry : b.entry id = server.entry id := by rw [Backend.entry, h.rpcState, Server.entry]
  simp only [Server.move]
  refine follows_ask rfl ⟨h.sessions, h.nextId, h.blockEnv, ?_⟩ ?_
  · simp only [Backend.answer, hentry, h.rpcState]
  · simp only [Backend.answer, hentry]
    rfl

/-- A parent is branched, or is not there. -/
theorem follows_branch (h : b.Backs server) {i : ℕ} (parent : SessionId) {t : Rpc F}
    (ht : (Handler.forkFrom parent : Handler F).Leaves w sync t) :
    Follows up evm order stored w sync b t i server
      (server.move up evm order i (.forkFrom parent)) := by
  subst ht
  obtain ⟨hreply, hbacks⟩ := backs_look up evm order h (c := .branch parent)
    fun slot => by cases slot <;> rfl
  simp only [Server.move]
  cases hs : server.sessions.lookup parent with
  | some s =>
    rw [Command.sessionId, hs] at hreply
    refine follows_ask rfl (backs_frame hbacks _ _) ?_
    simp only [Backend.answer, hreply]
    exact ⟨rfl, rfl⟩
  | none =>
    rw [Command.sessionId, hs] at hreply
    refine follows_ask rfl (backs_frame hbacks _ _) ?_
    simp only [Backend.answer, hreply]
    exact .inl ⟨_, rfl⟩

variable (up evm order) in
/-- Drawn and sent for, a session is registered. -/
theorem backs_register (h : b.Backs server) (session : Session F) (hquiet : session.readLog = none) :
    (b.draw.send up evm order (.ofNat b.nextId) (.adopt ⟨session, hquiet⟩)).Backs
      (server.register session) := by
  obtain ⟨sessions, hsend, hlookup⟩ := send_spec up evm order b.draw (.ofNat b.nextId)
    (.adopt ⟨session, hquiet⟩) (List.mem_append_right _ (List.mem_singleton_self _))
  rw [hsend]
  refine ⟨fun id => ?_, congrArg (· + 1) h.nextId, h.blockEnv, h.rpcState⟩
  dsimp only [Server.register]
  rw [hlookup, Map.lookup_insert_eq, h.nextId]
  split
  · rfl
  · exact h.sessions id

/-- A child is registered. -/
theorem follows_register (h : b.Backs server) {i : ℕ} (parent : SessionId) (session : Session F)
    (before : ℕ) {t : Rpc F} (ht : (Handler.branched parent session before).Leaves w sync t) :
    Follows up evm order stored w sync b t i server
      (server.move up evm order i (.branched parent session before)) := by
  obtain ⟨hquiet, rfl⟩ := ht
  have hbacks := backs_register up evm order h session hquiet
  refine ⟨.adopted parent (.ofNat b.nextId) before, _, _, ?_, rfl,
    backs_frame hbacks _ _, .ask (.ask (.rest _ _))⟩
  rw [h.nextId]
  rfl

/-- A child is given its parent's entry. -/
theorem follows_clone (h : b.Backs server) {i : ℕ} (parent child : SessionId) (before : ℕ)
    {t : Rpc F} (ht : (Handler.adopted parent child before : Handler F).Leaves w sync t) :
    Follows up evm order stored w sync b t i server
      (server.move up evm order i (.adopted parent child before)) := by
  subst ht
  simp only [Server.move]
  cases hparent : server.rpcState.lookup parent with
  | some inherited =>
    refine follows_ask rfl ?_ rfl
    simp only [Backend.answer, h.rpcState, hparent]
    exact ⟨h.sessions, h.nextId, h.blockEnv, rfl⟩
  | none =>
    refine follows_ask rfl ?_ rfl
    simp only [Backend.answer, h.rpcState, hparent]
    exact ⟨h.sessions, h.nextId, h.blockEnv, h.rpcState⟩

/-- A session is discarded. -/
theorem follows_discard (h : b.Backs server) {i : ℕ} (id : SessionId) {t : Rpc F}
    (ht : (Handler.discard id : Handler F).Leaves w sync t) :
    Follows up evm order stored w sync b t i server
      (server.move up evm order i (.discard id)) := by
  subst ht
  obtain ⟨hreply, hbacks⟩ := backs_serve up evm order h (.command (.discard id))
  refine follows_ask rfl (backs_frame hbacks _ _) ?_
  simp only [Backend.answer, hreply]
  rfl

/-- And its entry taken away. -/
theorem follows_remove (h : b.Backs server) {i : ℕ} (id : SessionId) {t : Rpc F}
    (ht : (Handler.discarded id : Handler F).Leaves w sync t) :
    Follows up evm order stored w sync b t i server
      (server.move up evm order i (.discarded id)) := by
  subst ht
  refine follows_ask rfl ⟨h.sessions, h.nextId, h.blockEnv, ?_⟩ rfl
  simp only [Backend.answer, Server.move, h.rpcState]

variable (up evm order stored) in
/-- STEP OF A HANDLER: it is some questions of its program in a row. -/
theorem move_follows (h : b.Backs server) {i : ℕ} {handler : Handler F}
    (hi : server.handlers[i]? = some handler) {t : Rpc F} (ht : handler.Leaves w sync t) :
    Follows up evm order stored w sync b t i server
      (server.move up evm order i handler) := by
  have hover : Follows up evm order stored w sync b t i server server := by
    obtain ⟨hlt, hget⟩ := List.getElem?_eq_some_iff.mp hi
    refine ⟨handler, t, b, ?_, ht, h, .rest t b⟩
    rw [← hget, List.set_getElem_self]
  cases handler with
  | send id tx => exact follows_send h id tx ht
  | executed id tx result turn => exact follows_locate h id tx result turn ht
  | located id tx result realStart turn => exact follows_enter h id tx result realStart turn ht
  | forkFrom parent => exact follows_branch h parent ht
  | branched parent session before => exact follows_register h parent session before ht
  | adopted parent child before => exact follows_clone h parent child before ht
  | discard id => exact follows_discard h id ht
  | discarded id => exact follows_remove h id ht
  | sent | forked | done | failed => exact hover

end Steps

/-! ### Whole runs -/

/-- Requests of the surface on one backend, by what is left of each. -/
abbrev RpcCrowd (F : Type) :=
  Schemes.Crowd (Hop F) Hop.Answer (Except RpcErrorObj Answered) (Backend F)

/-- SIMULATION: the backend is where the server is, and the request at the `i`-th place has left what
    the `i`-th handler leaves. -/
structure Mirrors (w : Wire) (server : Server F) (c : RpcCrowd F) (places : List ℕ) : Prop where
  backs : c.store.Backs server
  length : places.length = server.handlers.length
  nodup : places.Nodup
  within : ∀ k ∈ places, k < c.requests.length
  left : ∀ (i : ℕ) handler k, server.handlers[i]? = some handler → places[i]? = some k →
    ∃ t sync, c.requests[k]? = some t ∧ handler.Leaves w sync t

section Runs

variable {w : Wire} {server server' : Server F} {c : RpcCrowd F} {places : List ℕ}

theorem mirrors_start (fallback : F) (blockEnv : BlockEnv) :
    Mirrors w (.start blockEnv) (.start (.start fallback blockEnv)) [] where
  backs := ⟨fun _ => rfl, rfl, rfl, rfl⟩
  length := rfl
  nodup := List.nodup_nil
  within := nofun
  left _ _ _ h := by cases h

/-- FRAME: no request comes or moves on. -/
theorem mirrors_store (h : Mirrors w server c places) {b : Backend F} (hbacks : b.Backs server')
    (hhandlers : server'.handlers = server.handlers) :
    Mirrors w server' { c with store := b } places :=
  ⟨hbacks, hhandlers ▸ h.length, h.nodup, h.within, hhandlers ▸ h.left⟩

/-- A request comes in, and its handler. -/
theorem mirrors_request (h : Mirrors w server c places) (sync : Bool) {handler : Handler F} {t : Rpc F}
    (ht : handler.Leaves w sync t) :
    Mirrors w { server with handlers := server.handlers ++ [handler] }
      { c with requests := c.requests ++ [t] } (places ++ [c.requests.length]) where
  backs := backs_frame h.backs _ _
  length := by simp only [List.length_append, List.length_singleton, h.length]
  nodup := by
    refine List.nodup_append'.mpr ⟨h.nodup, List.nodup_singleton _, ?_⟩
    rw [List.disjoint_singleton]
    exact fun hmem => Nat.lt_irrefl _ (h.within _ hmem)
  within k hmem := by
    simp only [List.length_append, List.length_singleton]
    rcases List.mem_append.mp hmem with hold | hnew
    · exact Nat.lt_succ_of_lt (h.within k hold)
    · rw [List.mem_singleton.mp hnew]
      exact Nat.lt_succ_self _
  left i other k hi hk := by
    rcases getElem?_concat_cases hi with hi | ⟨rfl, rfl⟩
    · have hlt := (List.getElem?_eq_some_iff.mp hi).1
      rw [List.getElem?_append_left (h.length ▸ hlt)] at hk
      obtain ⟨t', sync', hrequest, hleaves⟩ := h.left i other k hi hk
      have hbound := (List.getElem?_eq_some_iff.mp hrequest).1
      exact ⟨t', sync', (List.getElem?_append_left hbound).trans hrequest, hleaves⟩
    · rw [← h.length, List.getElem?_concat_length] at hk
      obtain rfl := Option.some.inj hk
      exact ⟨t, sync, List.getElem?_concat_length, ht⟩

/-- A request that nobody handles comes in, and is at once done with. -/
theorem mirrors_passing (h : Mirrors w server c places) (t : Rpc F) :
    Mirrors w server { c with requests := c.requests ++ [t] } places where
  backs := h.backs
  length := h.length
  nodup := h.nodup
  within k hmem := by
    rw [List.length_append]
    exact Nat.lt_add_right _ (h.within k hmem)
  left i handler k hi hk := by
    obtain ⟨t', sync, hrequest, hleaves⟩ := h.left i handler k hi hk
    have hbound := (List.getElem?_eq_some_iff.mp hrequest).1
    exact ⟨t', sync, (List.getElem?_append_left hbound).trans hrequest, hleaves⟩

/-- A request moves on with its handler. -/
theorem mirrors_set (h : Mirrors w server c places) {i k : ℕ} (hk : places[i]? = some k)
    {next : Handler F} {t : Rpc F} {sync : Bool} (ht : next.Leaves w sync t) {b : Backend F}
    (hbacks : b.Backs server') (hhandlers : server'.handlers = server.handlers.set i next) :
    Mirrors w server' ⟨b, c.requests.set k t⟩ places where
  backs := hbacks
  length := by rw [hhandlers, List.length_set, h.length]
  nodup := h.nodup
  within k' hmem := by
    rw [List.length_set]
    exact h.within k' hmem
  left j handler k' hj hk' := by
    rw [hhandlers] at hj
    rcases getElem?_set_cases hj with ⟨rfl, rfl⟩ | ⟨hne, hj⟩
    · obtain rfl := Option.some.inj (hk.symm.trans hk')
      exact ⟨t, sync, List.getElem?_set_self (h.within k (List.mem_of_getElem? hk)), ht⟩
    · -- no two requests share a place
      have hapart : k ≠ k' := by
        rintro rfl
        have hlt := (List.getElem?_eq_some_iff.mp hk').1
        exact hne ((List.getElem?_inj hlt h.nodup).mp (hk'.trans hk.symm))
      obtain ⟨t', sync', hrequest, hleaves⟩ := h.left j handler k' hj hk'
      exact ⟨t', sync', (List.getElem?_set_ne hapart).trans hrequest, hleaves⟩

variable [ToString E] {up : F → Upstream E} {evm : Evm E} {order : HashOrder}
  {stored : UInt64 → SessionState → Except String SnapshotInfo}

variable (up evm order stored) in
/-- The requests and what befalls the backend, event by event. -/
def rpcRun (c : RpcCrowd F)
    (events : List (CrowdEvent (Hop F) Hop.Answer (Except RpcErrorObj Answered) (Happening F))) :
    RpcCrowd F :=
  c.run (Backend.answer up evm order stored) (fun e b => b.happen up evm order e) events

theorem opens_inPlace {job : Job F} (h : job.InPlace) : job.opens = false := by
  cases job with
  | read id request => rfl
  | command c => cases c <;> first | exact h.elim | rfl

variable (up evm order stored) in
/-- STEP LEMMA: whatever happens to the server, the programs can do. -/
theorem mirrors_step (h : Mirrors w server c places) (event : ServerEvent F)
    (hquiet : ∀ session, event = .opened session → session.readLog = none) :
    ∃ events places', Mirrors w (server.step up evm order event)
      (rpcRun up evm order stored c events) places' := by
  cases event with
  | send id tx => exact ⟨[.request _], _, mirrors_request h false ⟨rfl, rfl⟩⟩
  | forkFrom parent => exact ⟨[.request _], _, mirrors_request h false rfl⟩
  | discard id => exact ⟨[.request _], _, mirrors_request h false rfl⟩
  | opened session =>
    have hbacks := backs_register up evm order h.backs session (hquiet session rfl)
    exact ⟨[.outside .draw, .outside (.send (.ofNat c.store.nextId) (.adopt ⟨session, _⟩))], places,
      mirrors_store h hbacks rfl⟩
  | expire id =>
    refine ⟨[.outside (.expire id)], places, mirrors_store h ⟨fun id' => ?_, h.backs.nextId,
      h.backs.blockEnv, h.backs.rpcState⟩ rfl⟩
    simp only [Backend.happen, Server.step, Map.lookup_erase_eq, h.backs.sessions]
  | refresh blockEnv =>
    exact ⟨[.outside (.setBlockEnv blockEnv)], places, mirrors_store h ⟨h.backs.sessions,
      h.backs.nextId, rfl, h.backs.rpcState⟩ rfl⟩
  | other job =>
    -- a request of its own, and its one question
    obtain ⟨-, hbacks⟩ := backs_serve up evm order h.backs job.1
    obtain ⟨-, sessions, hserve, -⟩ := serve_spec up evm order server job.1
    let t : Rpc F := .ask (.job ⟨job.1, opens_inPlace job.2⟩) fun _ => .ret (.ok .truth)
    refine ⟨[.request t, .move c.requests.length], places, ?_⟩
    have hrun : rpcRun up evm order stored c [.request t, .move c.requests.length]
        = ⟨(c.store.serve up evm order job.1).2, c.requests ++ [.ret (.ok .truth)]⟩ := by
      simp only [rpcRun, Crowd.run, runAll_cons, runAll_nil, Crowd.step, t,
        List.getElem?_concat_length, List.set_append_right, Nat.le_refl, Nat.sub_self,
        List.set_cons_zero]
      rfl
    rw [hrun]
    have hhandlers : (server.serve up evm order job.1).2.handlers = server.handlers := by
      rw [hserve]
    exact mirrors_store (mirrors_passing h _) hbacks hhandlers
  | move i =>
    simp only [Server.step]
    cases hi : server.handlers[i]? with
    | none => exact ⟨[], places, h⟩
    | some handler =>
      have hlt : i < places.length := h.length ▸ (List.getElem?_eq_some_iff.mp hi).1
      have hk := List.getElem?_eq_getElem hlt
      obtain ⟨t, sync, hrequest, hleaves⟩ := h.left i handler _ hi hk
      obtain ⟨next, t', b', hhandlers, hleaves', hbacks, hstride⟩ :=
        move_follows up evm order stored h.backs hi hleaves
      obtain ⟨events, hrun⟩ := stride_crowd (fun e b => b.happen up evm order e) hstride hrequest
      refine ⟨events, places, ?_⟩
      rw [rpcRun, hrun]
      exact mirrors_set h hk hleaves' hbacks hhandlers

variable (up evm order stored) in
/-- RUN LEMMA. -/
theorem mirrors_run (events : List (ServerEvent F))
    (hquiet : ∀ session, .opened session ∈ events → session.readLog = none)
    (h : Mirrors w server c places) :
    ∃ more places', Mirrors w (runAll (Server.step up evm order) server events)
      (rpcRun up evm order stored c more) places' := by
  induction events generalizing server c places with
  | nil => exact ⟨[], places, h⟩
  | cons event events ih =>
    obtain ⟨first, places₁, hfirst⟩ := mirrors_step up evm order stored h event
      fun session hevent => hquiet session (hevent ▸ List.mem_cons_self)
    obtain ⟨rest, places₂, hrest⟩ := ih (fun session hmem =>
      hquiet session (List.mem_cons_of_mem event hmem)) hfirst
    refine ⟨first ++ rest, places₂, ?_⟩
    rw [rpcRun, Crowd.run, runAll_append, runAll_cons]
    exact hrest

/-- REFINEMENT: whatever the server with its side table goes through, the surface's programs do on a
    backend: the sessions, the table and what every request is answered are the same. -/
theorem server_mirrored (fallback : F) (blockEnv : BlockEnv) (events : List (ServerEvent F))
    (hquiet : ∀ session, .opened session ∈ events → session.readLog = none) :
    ∃ more places, Mirrors w (runAll (Server.step up evm order) (.start blockEnv) events)
      (rpcRun up evm order stored (.start (.start fallback blockEnv)) more) places :=
  mirrors_run up evm order stored events hquiet (mirrors_start fallback blockEnv)

end Runs

/-! ### Calls and estimates -/

section Calls

variable (w : Wire)

/-- What the surface answers a call. -/
def Wire.called (result : Except RpcError Bytes) : Except RpcErrorObj Answered :=
  (result.mapError (RpcError.obj w.shown)).map fun output => .text (bytesText output)

/-- What it answers an estimate. -/
def Wire.estimated (result : Except RpcError UInt64) : Except RpcErrorObj Answered :=
  (result.mapError (RpcError.obj w.shown)).map fun gas => .text (hexText gas.toNat)

/-- A reply is a result, or the same error. -/
theorem executionOf_got (reply : Option (Reply F)) :
    (executionOf reply).mapError (RpcError.obj w.shown) = (gotExecuted reply).mapError w.tell := by
  rcases reply with _ | reply
  · rfl
  · cases reply with
    | executed outcome => cases outcome <;> rfl
    | _ => rfl

/-- A reply is an account, with its nonce, or the same error. -/
theorem repliedNonce_got (reply : Option (Reply F)) :
    (∃ info, repliedNonce reply = .ok ((info.map AccountInfo.nonce).getD 0) ∧
      gotBasic reply = .ok info) ∨
      ∃ e e', repliedNonce reply = .error e ∧ gotBasic reply = .error e' ∧
        e.obj w.shown = w.tell e' := by
  rcases reply with _ | reply
  · exact .inr ⟨_, _, rfl, rfl, rfl⟩
  · cases reply with
    | basic outcome =>
      cases outcome with
      | ok info => exact .inl ⟨info, rfl, rfl⟩
      | error e => exact .inr ⟨_, _, rfl, rfl, rfl⟩
    | _ => exact .inr ⟨_, _, rfl, rfl, rfl⟩

variable [ToString E] {up : F → Upstream E} {evm : Evm E} {order : HashOrder}
  {stored : UInt64 → SessionState → Except String SnapshotInfo} {b : Backend F} {state : AppState F}

/-- What is told of a result is its error, or what is made of it. -/
theorem proceed_told {A B : Type} (obj : RpcError → RpcErrorObj) (made : A → Except RpcError B)
    (text : B → Answered) (result : Except RpcError A) :
    (proceed (result.mapError obj) fun a => .ret (((made a).mapError obj).map text) : Rpc F)
      = .ret (((result.bind made).mapError obj).map text) := by
  cases result <;> rfl

variable (up evm order stored) in
/-- A dry run is one question of its program. -/
theorem stride_dryRun (h : b.Backs state.server) (id : SessionId) (tx : TxEnv)
    (k : ExecutionResult → Rpc F) :
    ∃ b', b'.Backs (state.dryRun up evm order id tx).2.server ∧
      Stride (Backend.answer up evm order stored)
        (request ⟨.read id (.simulate tx true), rfl⟩ gotExecuted w.tell k) b
        (proceed ((state.dryRun up evm order id tx).1.mapError (RpcError.obj w.shown)) k) b' := by
  obtain ⟨hreply, hbacks⟩ := backs_serve up evm order h (.read id (.simulate tx true))
  refine ⟨_, hbacks, .ask ?_⟩
  simp only [Backend.answer, hreply, AppState.dryRun, executionOf_got]
  exact .rest _ _

variable (up evm order stored) in
/-- SIMULATION: the program of `eth_call` answers what the server does, and leaves what it leaves. -/
theorem stride_ethCall (h : b.Backs state.server) (id : SessionId) (params : List Value) :
    let told := state.ethCall up evm order w.hex id (params.head?.map callObject)
    ∃ b', b'.Backs told.2.server ∧ Stride (Backend.answer up evm order stored)
      (w.ethCall state.chainId id params) b (.ret (w.called told.1)) b' := by
  simp only [AppState.ethCall, Wire.ethCall]
  cases w.hex.ethCallTx state.chainId (params.head?.map callObject) with
  | error e => exact ⟨b, h, .rest _ _⟩
  | ok tx =>
    obtain ⟨b', hbacks, hstride⟩ := stride_dryRun w up evm order stored h id tx fun result =>
      .ret (((callOutput result).mapError (RpcError.obj w.shown)).map fun output =>
        .text (bytesText output))
    rw [proceed_told] at hstride
    exact ⟨b', hbacks, hstride⟩

variable (up evm order stored) in
/-- SIMULATION: so does that of `eth_estimateGas`, at once, or once it has asked for the nonce and
    others have done what they do. -/
theorem stride_ethEstimateGas (h : b.Backs state.server) (id : SessionId) (params : List Value)
    (meanwhile : AppState F → AppState F) :
    let told := state.ethEstimateGas up evm order w.hex id (params.head?.map callObject) meanwhile
    (∃ b', b'.Backs told.2.server ∧ Stride (Backend.answer up evm order stored)
      (w.ethEstimateGas id params) b (.ret (w.estimated told.1)) b') ∨
    ∃ (asked : AppState F) (t : Rpc F) (b' : Backend F), b'.Backs asked.server ∧
      Stride (Backend.answer up evm order stored) (w.ethEstimateGas id params) b t b' ∧
      ∀ b₁, b₁.Backs (meanwhile asked).server → ∃ b₂, b₂.Backs told.2.server ∧
        Stride (Backend.answer up evm order stored) t b₁ (.ret (w.estimated told.1)) b₂ := by
  simp only [AppState.ethEstimateGas, Wire.ethEstimateGas]
  cases w.hex.ethEstimateGasTx (params.head?.map callObject) with
  | error e => exact .inl ⟨b, h, .rest _ _⟩
  | ok tx =>
    obtain ⟨hreply, hbacks⟩ := backs_serve up evm order h (.read id (.basic tx.caller))
    rcases repliedNonce_got w (state.server.serve up evm order (.read id (.basic tx.caller))).1 with
      ⟨info, hown, hgot⟩ | ⟨e, e', hown, hgot, hsame⟩
    · let asked := { state with
        server := (state.server.serve up evm order (.read id (.basic tx.caller))).2 }
      refine .inr ⟨asked, _, _, hbacks, .ask (.rest _ _), fun b₁ hb₁ => ?_⟩
      simp only [Backend.answer, hreply, hown, hgot]
      obtain ⟨b₂, hbacks₂, hstride⟩ := stride_dryRun w up evm order stored hb₁ id
        { tx with nonce := (info.map AccountInfo.nonce).getD 0 } fun result =>
          .ret (((estimateOutput result).mapError (RpcError.obj w.shown)).map fun gas =>
            .text (hexText gas.toNat))
      rw [proceed_told] at hstride
      exact ⟨b₂, hbacks₂, hstride⟩
    · refine .inl ⟨(b.serve up evm order (.read id (.basic tx.caller))).2, ?_, .ask ?_⟩
      · simp only [hown]
        exact hbacks
      · simp only [Backend.answer, hreply, hown, hgot, Except.mapError, proceed, ← hsame]
        exact .rest _ _

end Calls

end Forkyard
