import Forkyard.Schemes.Crowd
import Forkyard.Engine.Snapshot
import Forkyard.Session.Pool
import Forkyard.Api.SideTable

/-! What every request of either surface is made of: jobs of the one session manager, looks at its
    defaults, and critical sections of the HTTP surface's side table. A request is a program over
    these; the manager and the table are the store all requests share, each job served whole, as
    `Serial` has it. To register a session takes two steps, and anything may come between them.

        request ──job────────▶ session of that id
                ──draw─send──▶ next id, new session
                ──enter──────▶ rpc_state -/

namespace Forkyard

open Schemes

variable {F E : Type}

/-- One step of a request. -/
inductive Hop (F : Type) where
  | job (job : { job : Job F // job.opens = false })
  | draw
  | send (id : SessionId) (opening : Opening F)
  | base
  | fallback
  | blockEnv
  | sends (id : SessionId)
  | receipt (id : SessionId) (hash : B256)
  | enter (id : SessionId) (realStart : UInt64) (tx : LegacyTx) (result : ExecutionResult)
  | inherit (parent child : SessionId)
  | remove (id : SessionId)
  | store (blockNumber : UInt64) (state : SessionState)

/-- What a step finds out. A job that panics is never answered. -/
def Hop.Answer : Hop F → Type
  | .job _ => Option (Reply F)
  | .draw => SessionId
  | .send _ _ => Unit
  | .base => BaseSnapshot
  | .fallback => F
  | .blockEnv => BlockEnv
  | .sends _ => UInt64
  | .receipt _ _ => Option Receipt
  | .enter _ _ _ _ => Receipt
  | .inherit _ _ => Unit
  | .remove _ => Unit
  | .store _ _ => Except String SnapshotInfo

/-- A request, or what is left of it. -/
abbrev Program (F R : Type) := Tree (Hop F) Hop.Answer R

/-- `register`, and what is left of `fork_from` once it has the child: an id is drawn, and a session
    sent for under it. -/
def register {R : Type} (opening : Opening F) (k : SessionId → Program F R) : Program F R :=
  .ask .draw fun (id : SessionId) =>
  .ask (.send id opening) fun _ =>
  k id

/-- The sessions with the manager's defaults, and the side table. `unsent` is every id that has been
    drawn and that no session has been sent for: it is up to the call that drew it. -/
structure Backend (F : Type) where
  sessions : Map SessionId (Session F)
  nextId : ℕ
  unsent : List SessionId
  base : BaseSnapshot
  fallback : F
  blockEnv : BlockEnv
  rpcState : Map SessionId SessionRpcState

/-- What befalls the manager from elsewhere: a session is reaped, one is registered at another block
    or from a snapshot, or a default is replaced. -/
inductive Happening (F : Type) where
  | expire (id : SessionId)
  | draw
  | send (id : SessionId) (opening : Opening F)
  | setBase (base : BaseSnapshot)
  | setFallback (fallback : F)
  | setBlockEnv (blockEnv : BlockEnv)

namespace Backend

def start (fallback : F) (blockEnv : BlockEnv) : Backend F :=
  ⟨∅, 0, [], .empty, fallback, blockEnv, ∅⟩

/-- A session's entry of the side table, a fresh one where it has none. -/
def entry (b : Backend F) (id : SessionId) : SessionRpcState := (b.rpcState.lookup id).getD .default

def draw (b : Backend F) : Backend F :=
  { b with nextId := b.nextId + 1, unsent := b.unsent ++ [UInt64.ofNat b.nextId] }

section Steps

variable [ToString E] (up : F → Upstream E) (evm : Evm E) (order : HashOrder)
  (stored : UInt64 → SessionState → Except String SnapshotInfo)

/-- A job served on its session. -/
def serve (b : Backend F) (job : Job F) : Option (Reply F) × Backend F :=
  match refStep up evm order job (b.sessions.lookup job.sessionId) with
  | (reply, some s) => (reply, { b with sessions := b.sessions.insert job.sessionId s })
  | (reply, none) => (reply, { b with sessions := b.sessions.erase job.sessionId })

/-- Open a session, once for every id that is drawn. -/
def send (b : Backend F) (id : SessionId) (opening : Opening F) : Backend F :=
  if id ∈ b.unsent then
    { (b.serve up evm order (.command (opening.command id))).2 with unsent := b.unsent.erase id }
  else b

def answer : Schemes.Handler (Hop F) Hop.Answer (Backend F)
  | .job job, b => b.serve up evm order job.1
  | .draw, b => (UInt64.ofNat b.nextId, b.draw)
  | .send id opening, b => ((), b.send up evm order id opening)
  | .base, b => (b.base, b)
  | .fallback, b => (b.fallback, b)
  | .blockEnv, b => (b.blockEnv, b)
  | .sends id, b => ((b.entry id).blockNumber, b)
  | .receipt id hash, b => ((b.rpcState.lookup id).bind fun entry => entry.receipts.lookup hash, b)
  | .enter id realStart tx result, b =>
    let (receipt, entry) := (b.entry id).enter realStart tx result
    (receipt, { b with rpcState := b.rpcState.insert id entry })
  | .inherit parent child, b =>
    match b.rpcState.lookup parent with
    | some inherited => ((), { b with rpcState := b.rpcState.insert child inherited })
    | none => ((), b)
  | .remove id, b => ((), { b with rpcState := b.rpcState.erase id })
  | .store blockNumber state, b => (stored blockNumber state, b)

def happen (happening : Happening F) (b : Backend F) : Backend F :=
  match happening with
  | .expire id => { b with sessions := b.sessions.erase id }
  | .draw => b.draw
  | .send id opening => b.send up evm order id opening
  | .setBase base => { b with base := base }
  | .setFallback fallback => { b with fallback := fallback }
  | .setBlockEnv blockEnv => { b with blockEnv := blockEnv }

end Steps

end Backend

/-! ### Backends no request can tell apart -/

/-- The same sessions by what they show, under the same ids, and all else equal. -/
structure Backend.Alike (up : F → Upstream E) (b b' : Backend F) : Prop where
  sessions : ∀ id, SameSlot up (b.sessions.lookup id) (b'.sessions.lookup id)
  nextId : b.nextId = b'.nextId
  unsent : b.unsent = b'.unsent
  base : b.base = b'.base
  fallback : b.fallback = b'.fallback
  blockEnv : b.blockEnv = b'.blockEnv
  rpcState : b.rpcState = b'.rpcState

/-- Steps that differ at most in a session they adopt, which no job can tell apart. -/
inductive Hop.Alike (up : F → Upstream E) : Hop F → Hop F → Prop
  | refl (hop : Hop F) : Alike up hop hop
  | adopt (id : SessionId) {s t : { s : Session F // s.readLog = none }} (h : Same up s.1 t.1) :
    Alike up (.send id (.adopt s)) (.send id (.adopt t))

/-- Both jobs went unanswered, or they were answered alike. -/
def RepliesAlike (up : F → Upstream E) (order : HashOrder) :
    Option (Reply F) → Option (Reply F) → Prop
  | some reply, some reply' => reply.Alike up order reply'
  | none, none => True
  | _, _ => False

/-- Answers that tell the same: alike where a job is answered, equal everywhere else. -/
def Hop.Agree (up : F → Upstream E) (order : HashOrder) :
    (hop hop' : Hop F) → hop.Answer → hop'.Answer → Prop
  | .job _, .job _, a, a' => RepliesAlike up order a a'
  | .draw, .draw, a, a' => a = a'
  | .send _ _, .send _ _, a, a' => a = a'
  | .base, .base, a, a' => a = a'
  | .fallback, .fallback, a, a' => a = a'
  | .blockEnv, .blockEnv, a, a' => a = a'
  | .sends _, .sends _, a, a' => a = a'
  | .receipt _ _, .receipt _ _, a, a' => a = a'
  | .enter _ _ _ _, .enter _ _ _ _, a, a' => a = a'
  | .inherit _ _, .inherit _ _, a, a' => a = a'
  | .remove _, .remove _, a, a' => a = a'
  | .store _ _, .store _ _, a, a' => a = a'
  | _, _, _, _ => False

section Steps

variable [ToString E] {up : F → Upstream E} {evm : Evm E} {order : HashOrder}
  {stored : UInt64 → SessionState → Except String SnapshotInfo} {b b' : Backend F}

variable (up evm order) in
/-- What serving a job does: the sessions change, and only its own. -/
theorem Backend.serve_spec (b : Backend F) (job : Job F) :
    (b.serve up evm order job).1
        = (refStep up evm order job (b.sessions.lookup job.sessionId)).1 ∧
      ∃ sessions, (b.serve up evm order job).2 = { b with sessions := sessions } ∧
        ∀ id, sessions.lookup id = if id = job.sessionId
          then (refStep up evm order job (b.sessions.lookup id)).2 else b.sessions.lookup id := by
  unfold Backend.serve
  rcases href : refStep up evm order job (b.sessions.lookup job.sessionId) with ⟨reply, _ | s⟩
  · refine ⟨rfl, _, rfl, fun id => ?_⟩
    rw [Map.lookup_erase_eq]
    split
    · rename_i hid
      rw [hid, href]
    · rfl
  · refine ⟨rfl, _, rfl, fun id => ?_⟩
    rw [Map.lookup_insert_eq]
    split
    · rename_i hid
      rw [hid, href]
    · rfl

omit [ToString E] in
theorem sameSlot_symm {slot slot' : Option (Session F)} (h : SameSlot up slot slot') :
    SameSlot up slot' slot := by
  match slot, slot', h with
  | some s, some t, h => exact same_symm h
  | none, none, _ => exact trivial

variable (evm order) in
theorem serve_repliesAlike (job : Job F) {slot slot' : Option (Session F)}
    (h : SameSlot up slot slot') :
    RepliesAlike up order (refStep up evm order job slot).1 (refStep up evm order job slot').1 := by
  have hforth := (refStep_alike evm order job h).1
  have hback := (refStep_alike evm order job (sameSlot_symm h)).1
  cases hr : (refStep up evm order job slot).1 with
  | some reply =>
    obtain ⟨reply', hr', halike⟩ := hforth reply hr
    rw [hr']
    exact halike
  | none =>
    cases hr' : (refStep up evm order job slot').1 with
    | none => trivial
    | some reply' =>
      obtain ⟨reply, hsome, -⟩ := hback reply' hr'
      rw [hr] at hsome
      cases hsome

variable (evm order) in
/-- ONE JOB on backends that are alike. -/
theorem serve_alike (job : Job F) (h : b.Alike up b') :
    RepliesAlike up order (b.serve up evm order job).1 (b'.serve up evm order job).1 ∧
      (b.serve up evm order job).2.Alike up (b'.serve up evm order job).2 := by
  obtain ⟨hreply, sessions, hserve, hlookup⟩ := Backend.serve_spec up evm order b job
  obtain ⟨hreply', sessions', hserve', hlookup'⟩ := Backend.serve_spec up evm order b' job
  rw [hreply, hreply', hserve, hserve']
  refine ⟨serve_repliesAlike evm order job (h.sessions _), fun id => ?_, h.nextId, h.unsent, h.base,
    h.fallback, h.blockEnv, h.rpcState⟩
  rw [hlookup, hlookup']
  split
  · exact (refStep_alike evm order job (h.sessions id)).2
  · exact h.sessions id

omit [ToString E] in
@[simp] theorem opening_sessionId (opening : Opening F) (id : SessionId) :
    (Job.command (opening.command id)).sessionId = id := by
  cases opening <;> rfl

variable (up evm order) in
/-- What sending for a session does: it is opened under an id that awaits one, which then awaits none
    any more. -/
theorem send_spec (b : Backend F) (id : SessionId) (opening : Opening F) (hid : id ∈ b.unsent) :
    ∃ sessions, b.send up evm order id opening
        = { b with sessions := sessions, unsent := b.unsent.erase id } ∧
      ∀ id', sessions.lookup id' = if id' = id
        then (refStep up evm order (.command (opening.command id)) (b.sessions.lookup id')).2
        else b.sessions.lookup id' := by
  obtain ⟨-, sessions, hserve, hlookup⟩ := Backend.serve_spec up evm order b
    (.command (opening.command id))
  rw [opening_sessionId] at hlookup
  exact ⟨sessions, by rw [Backend.send, if_pos hid, hserve], hlookup⟩

variable (evm order) in
/-- A session sent for on both: they stay alike. -/
theorem send_alike (h : b.Alike up b') (id : SessionId) {opening opening' : Opening F}
    (hopening : SameSlot up
      (refStep up evm order (.command (opening.command id)) (b.sessions.lookup id)).2
      (refStep up evm order (.command (opening'.command id)) (b'.sessions.lookup id)).2) :
    (b.send up evm order id opening).Alike up (b'.send up evm order id opening') := by
  by_cases hid : id ∈ b.unsent
  · obtain ⟨sessions, hsend, hlookup⟩ := send_spec up evm order b id opening hid
    obtain ⟨sessions', hsend', hlookup'⟩ :=
      send_spec up evm order b' id opening' (h.unsent ▸ hid)
    rw [hsend, hsend']
    refine ⟨fun id' => ?_, h.nextId, congrArg (·.erase id) h.unsent, h.base, h.fallback,
      h.blockEnv, h.rpcState⟩
    dsimp only
    rw [hlookup, hlookup']
    split
    · rename_i heq
      exact heq ▸ hopening
    · exact h.sessions id'
  · rw [Backend.send, if_neg hid, Backend.send, if_neg (h.unsent ▸ hid)]
    exact h

omit [ToString E] in
theorem draw_alike (h : b.Alike up b') : b.draw.Alike up b'.draw :=
  ⟨h.sessions, congrArg (· + 1) h.nextId, by rw [Backend.draw, Backend.draw, h.nextId, h.unsent],
    h.base, h.fallback, h.blockEnv, h.rpcState⟩

omit [ToString E] in
theorem alike_entry (h : b.Alike up b') (id : SessionId) : b.entry id = b'.entry id := by
  rw [Backend.entry, h.rpcState, Backend.entry]

variable (up evm order stored) in
/-- CONGRUENCE: backends that are alike answer alike and stay so, step by step. -/
theorem backend_congruent : Congruent (Hop.Alike up) (Hop.Agree up order)
    (Backend.answer up evm order stored) (fun e b => b.happen up evm order e)
    (Backend.Alike up) where
  answers hop hop' b b' hhop h := by
    cases hhop with
    | adopt id hsame => exact ⟨rfl, send_alike evm order h id hsame⟩
    | refl =>
      cases hop with
      | job job => exact serve_alike evm order job.1 h
      | draw => exact ⟨congrArg UInt64.ofNat h.nextId, draw_alike h⟩
      | send id opening =>
        exact ⟨rfl, send_alike evm order h id (refStep_alike evm order _ (h.sessions id)).2⟩
      | base => exact ⟨h.base, h⟩
      | fallback => exact ⟨h.fallback, h⟩
      | blockEnv => exact ⟨h.blockEnv, h⟩
      | sends id => exact ⟨congrArg SessionRpcState.blockNumber (alike_entry h id), h⟩
      | receipt id hash =>
        refine ⟨?_, h⟩
        simp only [Backend.answer, Hop.Agree, h.rpcState]
        rfl
      | enter id realStart tx result =>
        simp only [Backend.answer, Hop.Agree, alike_entry h id]
        refine ⟨rfl, h.sessions, h.nextId, h.unsent, h.base, h.fallback, h.blockEnv, ?_⟩
        dsimp only
        rw [h.rpcState]
      | inherit parent child =>
        simp only [Backend.answer, Hop.Agree, h.rpcState]
        cases b'.rpcState.lookup parent with
        | none => exact ⟨rfl, h⟩
        | some inherited =>
          exact ⟨rfl, h.sessions, h.nextId, h.unsent, h.base, h.fallback, h.blockEnv, rfl⟩
      | remove id =>
        refine ⟨rfl, h.sessions, h.nextId, h.unsent, h.base, h.fallback, h.blockEnv, ?_⟩
        simp only [Backend.answer, h.rpcState]
      | store blockNumber state => exact ⟨rfl, h⟩
  outside e b b' h := by
    cases e with
    | expire id =>
      refine ⟨fun id' => ?_, h.nextId, h.unsent, h.base, h.fallback, h.blockEnv, h.rpcState⟩
      simp only [Backend.happen, Map.lookup_erase_eq]
      split
      · exact trivial
      · exact h.sessions id'
    | draw => exact draw_alike h
    | send id opening =>
      exact send_alike evm order h id (refStep_alike evm order _ (h.sessions id)).2
    | setBase base =>
      exact ⟨h.sessions, h.nextId, h.unsent, rfl, h.fallback, h.blockEnv, h.rpcState⟩
    | setFallback fallback =>
      exact ⟨h.sessions, h.nextId, h.unsent, h.base, rfl, h.blockEnv, h.rpcState⟩
    | setBlockEnv blockEnv =>
      exact ⟨h.sessions, h.nextId, h.unsent, h.base, h.fallback, rfl, h.rpcState⟩

end Steps

end Forkyard
