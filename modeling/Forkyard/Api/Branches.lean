import Forkyard.Api.SideTable

/-! What a branch knows of its parent's transactions. Its state is the parent's when the worker
    serves the branch; its counter and receipts are cloned from the parent's entry later, under the
    table's lock. Where every send committed before the branch reaches the table before the clone,
    and none committed after it does, the two are of the same transactions.

        parent:  tx₀ ─ tx₁ ─ branch ─ tx₂        (the worker)
        entry:      +1 ──── +2 ──── clone ── +3  (the table) -/

namespace Forkyard

open Schemes

variable {F E : Type}

/-- A child's counter and receipts are of what its parent started with and the sends committed in
    the parent before the branch: the `before` first ones. -/
structure Inherits (past : SessionId → Past) (parent child : SessionId) (before : ℕ) : Prop where
  counter : (past child).start.blockNumber = (past parent).start.blockNumber + .ofNat before
  receipts : ∀ hash, ((past child).start.receipts.lookup hash).isSome ↔
    ((past parent).start.receipts.lookup hash).isSome ∨
      ∃ commit ∈ (past parent).commits.take before, commit.1.hash = hash

/-- A branch's RPC history is of its state: until the session is discarded its entry holds what it
    inherited and what was sent to itself, and it inherited what its parent had when the worker
    branched the parent's state. -/
structure MatchesState (server : Server F) (parent child : SessionId) (before : ℕ) : Prop where
  inherits : Inherits server.past parent child before
  counter : (server.past child).dropped = false → (server.entry child).blockNumber
    = (server.past parent).start.blockNumber + .ofNat before
      + .ofNat (server.past child).entered.length
  receipts : (server.past child).dropped = false → ∀ hash,
    ((server.entry child).receipts.lookup hash).isSome ↔
      (((server.past parent).start.receipts.lookup hash).isSome ∨
        ∃ commit ∈ (server.past parent).commits.take before, commit.1.hash = hash) ∨
          ∃ t ∈ (server.past child).entered, ∃ commit,
            (server.past child).commits[t]? = some commit ∧ commit.1.hash = hash

/-- The request is a branch of `id` that has not cloned the entry yet, with so many sends before
    it. -/
def Handler.forking (id : SessionId) : Handler F → Option ℕ
  | .branched parent _ before => if parent = id then some before else none
  | .adopted parent _ before => if parent = id then some before else none
  | _ => none

/-- The request is a branch of `id`, or one that made `id`. -/
def Handler.kin (id : SessionId) : Handler F → Bool
  | .branched parent _ _ => decide (parent = id)
  | .adopted parent child _ => decide (parent = id) || decide (child = id)
  | .forked parent child _ => decide (parent = id) || decide (child = id)
  | _ => false

/-- The request is one that made `id`. -/
def Handler.bears (id : SessionId) : Handler F → Bool
  | .adopted _ child _ => decide (child = id)
  | .forked _ child _ => decide (child = id)
  | _ => false

theorem Handler.kin_of_forking {handler : Handler F} {id : SessionId} {before : ℕ}
    (h : handler.forking id = some before) : handler.kin id = true := by
  unfold Handler.forking at h
  split at h
  · split at h
    · rename_i hparent
      exact decide_eq_true hparent
    · cases h
  · split at h
    · rename_i hparent
      rw [Handler.kin, decide_eq_true hparent, Bool.true_or]
    · cases h
  · cases h

theorem Handler.kin_of_bears {handler : Handler F} {id : SessionId}
    (h : handler.bears id = true) : handler.kin id = true := by
  unfold Handler.bears at h
  split at h
  · rw [Handler.kin, h, Bool.or_true]
  · rw [Handler.kin, h, Bool.or_true]
  · cases h

/-- Between a branch and its clone only sends from before the branch reach the table, and at the
    clone all of them have; nobody has branched the child yet; and a discard takes an entry away
    only when the session is gone and no branch of it is under way. -/
def Handler.Abreast (server : Server F) : Handler F → Prop
  | .located id _ _ _ turn =>
    ∀ handler ∈ server.handlers, ∀ before, handler.forking id = some before → turn < before
  | .adopted parent child before =>
    (∀ handler ∈ server.handlers, ∀ t < before, handler.pendingAt parent t = false) ∧
      (server.rpcState.lookup parent = none ∨ ∀ handler ∈ server.handlers,
        handler.kin child = true → handler.bears child = true)
  | .discarded id => server.rpcState.lookup id = none ∨ (server.sessions.lookup id = none ∧
    ∀ handler ∈ server.handlers, handler.forking id = none)
  | _ => True

def Server.Abreast (server : Server F) (event : ServerEvent F) : Prop :=
  server.Orderly event ∧ ∀ i, event = .move i → ∀ handler, server.handlers[i]? = some handler →
    handler.Abreast server

/-- INVARIANT of a run in which branches are abreast of their parents' entries. -/
structure Lineal (server : Server F) : Prop where
  accounts : Accounts server
  unknown : ∀ id : SessionId, server.nextId ≤ id.toNat → server.rpcState.lookup id = none ∧
    ∀ handler ∈ server.handlers, handler.kin id = false
  unique : ∀ child, server.handlers.countP (Handler.bears child) ≤ 1
  gone : ∀ id, (server.past id).dropped = true → server.sessions.lookup id = none ∧
    ∀ handler ∈ server.handlers, handler.forking id = none
  behind : ∀ handler ∈ server.handlers, ∀ id before, handler.forking id = some before →
    ∀ t ∈ (server.past id).entered, t < before
  unborn : ∀ parent child before, .adopted parent child before ∈ server.handlers →
    parent ≠ child ∧ (server.past child).start = .default
  inherits : ∀ parent child before, .forked parent child before ∈ server.handlers →
    Inherits server.past parent child before

theorem lineal_start (blockEnv : BlockEnv) : Lineal (Server.start blockEnv : Server F) :=
  ⟨accounts_start blockEnv, fun _ _ => ⟨rfl, nofun⟩, fun _ => Nat.zero_le 1, nofun, nofun, nofun,
    nofun⟩

variable {server server' : Server F} {id : SessionId}

/-- What a child inherited stays so while its parent goes on. -/
theorem inherits_mono {past past' : SessionId → Past} {parent child : SessionId} {before : ℕ}
    (h : Inherits past parent child before) (hchild : (past' child).start = (past child).start)
    (hparent : (past' parent).start = (past parent).start)
    (hcommits : (past parent).commits <+: (past' parent).commits)
    (hbefore : before ≤ (past parent).commits.length) : Inherits past' parent child before := by
  obtain ⟨more, hmore⟩ := hcommits
  refine ⟨by rw [hchild, hparent]; exact h.counter, fun hash => ?_⟩
  rw [hchild, hparent, ← hmore, List.take_append_of_le_length hbefore]
  exact h.receipts hash

/-- FRAME: what happens beside all branching. -/
theorem lineal_frame (h : Lineal server) (haccounts : Accounts server')
    (hnext : server'.nextId = server.nextId)
    (hrpc : ∀ id : SessionId, server.nextId ≤ id.toNat → server.rpcState.lookup id = none →
      server'.rpcState.lookup id = none)
    (hhandlers : ∀ handler ∈ server'.handlers,
      handler ∈ server.handlers ∨ ∀ id, handler.kin id = false)
    (hcount : ∀ child, server'.handlers.countP (Handler.bears child)
      ≤ server.handlers.countP (Handler.bears child))
    (hsessions : ∀ id, server.sessions.lookup id = none → server'.sessions.lookup id = none)
    (hstart : ∀ id, (server'.past id).start = (server.past id).start)
    (hcommits : ∀ id, (server.past id).commits <+: (server'.past id).commits)
    (hdropped : ∀ id, (server'.past id).dropped = true → (server.past id).dropped = true ∨
      (server.sessions.lookup id = none ∧ ∀ handler ∈ server.handlers, handler.forking id = none))
    (hentered : ∀ id, ∀ t ∈ (server'.past id).entered, t ∈ (server.past id).entered ∨
      ∀ handler ∈ server.handlers, ∀ before, handler.forking id = some before → t < before) :
    Lineal server' := by
  have hforking : ∀ {handler : Handler F}, (∀ id, handler.kin id = false) →
      ∀ id, handler.forking id = none := by
    intro handler hkin id
    refine Option.eq_none_iff_forall_ne_some.mpr fun before hbefore => ?_
    have hnot := (Handler.kin_of_forking hbefore).symm.trans (hkin id)
    cases hnot
  refine ⟨haccounts, fun id hle => ?_, fun child => (hcount child).trans (h.unique child),
    fun id hdrop => ?_, fun handler hmem id before hbefore t ht => ?_,
    fun parent child before hmem => ?_, fun parent child before hmem => ?_⟩
  · rw [hnext] at hle
    obtain ⟨hnone, hkin⟩ := h.unknown id hle
    refine ⟨hrpc id hle hnone, fun handler hmem => ?_⟩
    rcases hhandlers handler hmem with hold | hnew
    · exact hkin handler hold
    · exact hnew id
  · obtain ⟨hnone, hnot⟩ := (hdropped id hdrop).elim (h.gone id) fun hgone => hgone
    refine ⟨hsessions id hnone, fun handler hmem => ?_⟩
    rcases hhandlers handler hmem with hold | hnew
    · exact hnot handler hold
    · exact hforking hnew id
  · rcases hhandlers handler hmem with hold | hnew
    · rcases hentered id t ht with hmem' | hguard
      · exact h.behind handler hold id before hbefore t hmem'
      · exact hguard handler hold before hbefore
    · rw [hforking hnew id] at hbefore
      cases hbefore
  · rw [hstart]
    rcases hhandlers _ hmem with hold | hnew
    · exact h.unborn parent child before hold
    · have hnot := hnew parent
      simp [Handler.kin] at hnot
  · rcases hhandlers _ hmem with hold | hnew
    · exact inherits_mono (h.inherits parent child before hold) (hstart child) (hstart parent)
        (hcommits parent) (h.accounts.noted _ hold)
    · have hnot := hnew parent
      simp [Handler.kin] at hnot

/-- A request moves on that has nothing to do with branching. -/
theorem bears_set {i : ℕ} {handler next : Handler F} (hi : server.handlers[i]? = some handler)
    (hnext : ∀ child, next.bears child = false) (child : SessionId) :
    (server.handlers.set i next).countP (Handler.bears child)
      ≤ server.handlers.countP (Handler.bears child) := by
  have hcount := countP_set_add (Handler.bears child) next hi
  rw [hnext child, Bool.toNat_false] at hcount
  omega

theorem kin_set {i : ℕ} {next : Handler F} (hnext : ∀ id, next.kin id = false) :
    ∀ handler ∈ server.handlers.set i next,
      handler ∈ server.handlers ∨ ∀ id, handler.kin id = false := by
  intro handler hmem
  rcases List.mem_or_eq_of_mem_set hmem with hold | rfl
  · exact .inl hold
  · exact .inr hnext

/-- Only one request made a session. -/
theorem only_bearer (h : Lineal server) {i : ℕ} {handler : Handler F} (next : Handler F)
    (hi : server.handlers[i]? = some handler) (hbears : handler.bears id = true) :
    ∀ other ∈ server.handlers.set i next, other.bears id = true → other = next := by
  intro other hmem hother
  have hcount := countP_set_add (Handler.bears id) (.done : Handler F) hi
  have hone := h.unique id
  have hdone : Handler.bears id (.done : Handler F) = false := rfl
  rw [hbears, hdone, Bool.toNat_true, Bool.toNat_false] at hcount
  have hzero : (server.handlers.set i .done).countP (Handler.bears id) = 0 := by omega
  obtain ⟨j, hj⟩ := List.mem_iff_getElem?.mp hmem
  by_cases hij : i = j
  · subst hij
    have hlt := (List.getElem?_eq_some_iff.mp hi).1
    rw [List.getElem?_set_self hlt] at hj
    exact (Option.some.inj hj).symm
  · rw [List.getElem?_set_ne hij] at hj
    have hnot := List.countP_eq_zero.mp hzero other
      (List.mem_iff_getElem?.mpr ⟨j, by rw [List.getElem?_set_ne hij, hj]⟩)
    exact absurd hother hnot

section Step

variable [ToString E] {up : F → Upstream E} {evm : Evm E} {order : HashOrder}

/-- Sessions change, and none comes. -/
theorem lineal_sessions (h : Lineal server) {sessions : Map SessionId (Session F)}
    (haccounts : Accounts { server with sessions := sessions })
    (hsessions : ∀ id, server.sessions.lookup id = none → sessions.lookup id = none) :
    Lineal { server with sessions := sessions } :=
  lineal_frame h haccounts rfl (fun _ _ hnone => hnone) (fun _ hmem => .inl hmem)
    (fun _ => Nat.le_refl _) hsessions (fun _ => rfl) (fun _ => List.prefix_refl _)
    (fun _ => .inl) fun _ _ => .inl

/-- A request moves on, and neither does nor did any branching. -/
theorem lineal_set (h : Lineal server) {i : ℕ} {handler next : Handler F}
    (hi : server.handlers[i]? = some handler)
    (haccounts : Accounts { server with handlers := server.handlers.set i next })
    (hkin : ∀ id, next.kin id = false) (hbears : ∀ id, next.bears id = false) :
    Lineal { server with handlers := server.handlers.set i next } :=
  lineal_frame h haccounts rfl (fun _ _ hnone => hnone) (kin_set hkin) (bears_set hi hbears)
    (fun _ hnone => hnone) (fun _ => rfl) (fun _ => List.prefix_refl _) (fun _ => .inl)
    fun _ _ => .inl

/-- A request comes in. -/
theorem lineal_request (h : Lineal server) {handler : Handler F}
    (haccounts : Accounts { server with handlers := server.handlers ++ [handler] })
    (hkin : ∀ id, handler.kin id = false) (hbears : ∀ id, handler.bears id = false) :
    Lineal { server with handlers := server.handlers ++ [handler] } := by
  refine lineal_frame h haccounts rfl (fun _ _ hnone => hnone) (fun other hmem => ?_)
    (fun child => ?_) (fun _ hnone => hnone) (fun _ => rfl) (fun _ => List.prefix_refl _)
    (fun _ => .inl) fun _ _ => .inl
  · rcases List.mem_append.mp hmem with hold | hnew
    · exact .inl hold
    · rw [List.mem_singleton.mp hnew]
      exact .inr hkin
  · simp [List.countP_append, hbears child]

/-- A session is registered: nobody has heard of its id. -/
theorem lineal_register (h : Lineal server) (session : Session F) (hid : server.nextId < 2 ^ 64) :
    Lineal (server.register session) := by
  have hnew := h.unknown (UInt64.ofNat server.nextId) (Nat.le_of_eq (toNat_fits hid).symm)
  have hpast : ∀ id, id ≠ UInt64.ofNat server.nextId →
      (server.register session).past id = server.past id := by
    intro id hne
    simp only [Server.register, Function.update_of_ne hne]
  have hself : (server.register session).past (UInt64.ofNat server.nextId)
      = ⟨session.blockEnv.number.toNat, server.entry (UInt64.ofNat server.nextId), [], [], false⟩ := by
    simp only [Server.register, Function.update_self]
  refine ⟨accounts_register h.accounts session hid, fun id hle => ?_, h.unique,
    fun id hdropped => ?_,
    fun handler hmem id before hbefore t ht => ?_, fun parent child before hmem => ?_,
    fun parent child before hmem => ?_⟩
  · have hle' : server.nextId + 1 ≤ id.toNat := hle
    exact h.unknown id (by omega)
  · have hne : id ≠ UInt64.ofNat server.nextId := by
      rintro rfl
      rw [hself] at hdropped
      cases hdropped
    rw [hpast id hne] at hdropped
    obtain ⟨hnone, hnot⟩ := h.gone id hdropped
    refine ⟨?_, hnot⟩
    rw [Server.register, Map.lookup_insert_eq, if_neg hne]
    exact hnone
  · have hne : id ≠ UInt64.ofNat server.nextId := by
      rintro rfl
      rw [hself] at ht
      cases ht
    rw [hpast id hne] at ht
    exact h.behind handler hmem id before hbefore t ht
  · have hkin := hnew.2 _ hmem
    simp only [Handler.kin, Bool.or_eq_false_iff, decide_eq_false_iff_not] at hkin
    rw [hpast child hkin.2]
    exact h.unborn parent child before hmem
  · have hkin := hnew.2 _ hmem
    simp only [Handler.kin, Bool.or_eq_false_iff, decide_eq_false_iff_not] at hkin
    refine inherits_mono (h.inherits parent child before hmem) ?_ ?_ ?_ (h.accounts.noted _ hmem)
    · rw [hpast child hkin.2]
    · rw [hpast parent hkin.1]
    · rw [hpast parent hkin.1]

/-- The worker branches a session: every send committed so far is before it. -/
theorem lineal_branch (h : Lineal server) {i : ℕ} {parent : SessionId} {s : Session F}
    (hi : server.handlers[i]? = some (.forkFrom parent))
    (hs : server.sessions.lookup parent = some s)
    (haccounts : Accounts { server with
      handlers := server.handlers.set i
        (.branched parent s.branch (server.past parent).commits.length) }) :
    Lineal { server with
      handlers := server.handlers.set i
        (.branched parent s.branch (server.past parent).commits.length) } := by
  have hknown : ¬ server.nextId ≤ parent.toNat := by
    intro hle
    rw [(h.accounts.fresh parent hle).1] at hs
    cases hs
  refine ⟨haccounts, fun id hle => ⟨(h.unknown id hle).1, fun handler hmem => ?_⟩,
    fun child => (bears_set hi (fun _ => rfl) child).trans (h.unique child),
    fun id hdropped => ⟨(h.gone id hdropped).1, fun handler hmem => ?_⟩,
    fun handler hmem id before hbefore t ht => ?_, fun parent' child before hmem => ?_,
    fun parent' child before hmem => ?_⟩
  · rcases List.mem_or_eq_of_mem_set hmem with hold | rfl
    · exact (h.unknown id hle).2 handler hold
    · refine decide_eq_false ?_
      rintro rfl
      exact hknown hle
  · rcases List.mem_or_eq_of_mem_set hmem with hold | rfl
    · exact (h.gone id hdropped).2 handler hold
    · refine if_neg ?_
      rintro rfl
      rw [(h.gone parent hdropped).1] at hs
      cases hs
  · rcases List.mem_or_eq_of_mem_set hmem with hold | rfl
    · exact h.behind handler hold id before hbefore t ht
    · simp only [Handler.forking, Option.ite_none_right_eq_some, Option.some.injEq] at hbefore
      obtain ⟨rfl, rfl⟩ := hbefore
      exact (h.accounts.accounted parent).within t ht
  · rcases List.mem_or_eq_of_mem_set hmem with hold | hnew
    · exact h.unborn parent' child before hold
    · cases hnew
  · rcases List.mem_or_eq_of_mem_set hmem with hold | hnew
    · exact h.inherits parent' child before hold
    · cases hnew

/-- The branch is adopted under a new id. -/
theorem lineal_adopt (h : Lineal server) {i : ℕ} {parent : SessionId} {session : Session F}
    {before : ℕ} (hi : server.handlers[i]? = some (.branched parent session before))
    (hid : server.nextId < 2 ^ 64) :
    Lineal (server.move up evm order i (.branched parent session before)) := by
  have hold := lineal_register h session hid
  have hnew := h.unknown (UInt64.ofNat server.nextId) (Nat.le_of_eq (toNat_fits hid).symm)
  have hne : parent ≠ UInt64.ofNat server.nextId := by
    have hkin := hnew.2 _ (List.mem_of_getElem? hi)
    simp only [Handler.kin, decide_eq_false_iff_not] at hkin
    exact hkin
  have hmem₀ := List.mem_of_getElem? hi
  have hbound : before ≤ ((server.register session).past parent).commits.length :=
    hold.accounts.noted _ hmem₀
  refine ⟨accounts_set hold.accounts hi (fun _ _ => rfl) rfl hbound,
    fun id hle => ⟨(hold.unknown id hle).1, fun handler hmem => ?_⟩, fun child => ?_,
    fun id hdropped => ⟨(hold.gone id hdropped).1, fun handler hmem => ?_⟩,
    fun handler hmem id before' hbefore t ht => ?_, fun parent' child before' hmem => ?_,
    fun parent' child before' hmem => ?_⟩
  · rcases List.mem_or_eq_of_mem_set hmem with hmem | rfl
    · exact (hold.unknown id hle).2 handler hmem
    · have hkin := (hold.unknown id hle).2 _ hmem₀
      have hle' : server.nextId + 1 ≤ id.toNat := hle
      simp only [Handler.kin, decide_eq_false_iff_not] at hkin
      simp only [Handler.kin, Bool.or_eq_false_iff, decide_eq_false_iff_not]
      refine ⟨hkin, ?_⟩
      rintro rfl
      rw [toNat_fits hid] at hle'
      omega
  · have hcount := countP_set_add (Handler.bears child)
      (.adopted parent (UInt64.ofNat server.nextId) before) hi
    have hone := h.unique child
    simp only [Handler.bears, Bool.toNat_false, Nat.add_zero] at hcount
    dsimp only [Server.move, Server.register]
    by_cases heq : UInt64.ofNat server.nextId = child
    · -- nobody made a session of that id before
      have hzero : server.handlers.countP (Handler.bears child) = 0 := by
        refine List.countP_eq_zero.mpr fun handler hmem hbears => ?_
        have hkin := hnew.2 handler hmem
        rw [heq, Handler.kin_of_bears hbears] at hkin
        cases hkin
      rw [decide_eq_true heq, Bool.toNat_true] at hcount
      omega
    · rw [decide_eq_false heq, Bool.toNat_false] at hcount
      omega
  · rcases List.mem_or_eq_of_mem_set hmem with hmem | rfl
    · exact (hold.gone id hdropped).2 handler hmem
    · have hnot : Handler.forking id (.branched parent session before) = none :=
        (hold.gone id hdropped).2 _ hmem₀
      exact hnot
  · rcases List.mem_or_eq_of_mem_set hmem with hmem | rfl
    · exact hold.behind handler hmem id before' hbefore t ht
    · exact hold.behind _ hmem₀ id before' hbefore t ht
  · rcases List.mem_or_eq_of_mem_set hmem with hmem | heq
    · exact hold.unborn parent' child before' hmem
    · obtain ⟨rfl, rfl, rfl⟩ := Handler.adopted.inj heq
      refine ⟨hne, ?_⟩
      simp only [Server.move, Server.register, Function.update_self, Server.entry, hnew.1,
        Option.getD_none]
  · rcases List.mem_or_eq_of_mem_set hmem with hmem | heq
    · exact hold.inherits parent' child before' hmem
    · cases heq

/-- A parent's entry holds the sends from before the branch, when they all have reached it. -/
theorem branch_entry (h : Lineal server) {handler : Handler F} (hmem : handler ∈ server.handlers)
    {parent : SessionId} {before : ℕ} (hforking : handler.forking parent = some before)
    (hbefore : before ≤ (server.past parent).commits.length)
    (hall : ∀ other ∈ server.handlers, ∀ t < before, other.pendingAt parent t = false) :
    (server.entry parent).blockNumber = (server.past parent).start.blockNumber + .ofNat before ∧
      ∀ hash, ((server.entry parent).receipts.lookup hash).isSome ↔
        ((server.past parent).start.receipts.lookup hash).isSome ∨
          ∃ commit ∈ (server.past parent).commits.take before, commit.1.hash = hash := by
  have haccounted := h.accounts.accounted parent
  have hlive : (server.past parent).dropped = false := by
    cases hdropped : (server.past parent).dropped with
    | false => rfl
    | true =>
      rw [(h.gone parent hdropped).2 handler hmem] at hforking
      cases hforking
  have hentered : ∀ t, t ∈ (server.past parent).entered ↔ t < before := by
    refine fun t => ⟨h.behind handler hmem parent before hforking t, fun hlt => ?_⟩
    by_contra hnot
    have hone := haccounted.turns t
    rw [if_pos ⟨Nat.lt_of_lt_of_le hlt hbefore, hnot⟩] at hone
    have hzero : server.handlers.countP (Handler.pendingAt parent t) = 0 := by
      refine List.countP_eq_zero.mpr fun other hother => ?_
      rw [hall other hother t hlt]
      exact Bool.false_ne_true
    omega
  have hlength : (server.past parent).entered.length = before := by
    have hperm := (List.perm_ext_iff_of_nodup haccounted.nodup List.nodup_range).mpr fun t => by
      rw [hentered t, List.mem_range]
    rw [hperm.length_eq, List.length_range]
  refine ⟨by rw [haccounted.counter hlive, hlength], fun hash => ?_⟩
  rw [haccounted.receipts hlive hash]
  refine or_congr_right ⟨?_, ?_⟩
  · rintro ⟨t, ht, commit, hcommit, hhash⟩
    refine ⟨commit, List.mem_of_getElem? (i := t) ?_, hhash⟩
    rw [List.getElem?_take_of_lt ((hentered t).mp ht)]
    exact hcommit
  · rintro ⟨commit, hcommit, hhash⟩
    obtain ⟨t, ht⟩ := List.mem_iff_getElem?.mp hcommit
    rw [List.getElem?_take] at ht
    split at ht
    · rename_i hlt
      exact ⟨t, (hentered t).mpr hlt, commit, ht, hhash⟩
    · cases ht

omit [ToString E] in
/-- A child's start is settled, by the one request that adopted it. -/
theorem lineal_forked (h : Lineal server) {i : ℕ} {parent child : SessionId} {before : ℕ}
    (hi : server.handlers[i]? = some (.adopted parent child before)) (haccounts : Accounts server')
    (hnext : server'.nextId = server.nextId) (hsessions : server'.sessions = server.sessions)
    (hhandlers : server'.handlers = server.handlers.set i (.forked parent child before))
    (hrpc : ∀ id : SessionId, server.nextId ≤ id.toNat → server.rpcState.lookup id = none →
      server'.rpcState.lookup id = none)
    (hstart : ∀ id, id ≠ child → (server'.past id).start = (server.past id).start)
    (hdropped : ∀ id, (server'.past id).dropped = (server.past id).dropped)
    (hentered : ∀ id, (server'.past id).entered = (server.past id).entered)
    (hinherits : Inherits server'.past parent child before)
    (hothers : ∀ parent' child' before', child' ≠ child →
      .forked parent' child' before' ∈ server.handlers →
        Inherits server'.past parent' child' before') :
    Lineal server' := by
  have hmem₀ := List.mem_of_getElem? hi
  have honly := only_bearer h (.forked parent child before) hi (decide_eq_true rfl)
  rw [← hhandlers] at honly
  have hset : ∀ handler ∈ server'.handlers,
      handler ∈ server.handlers ∨ handler = .forked parent child before := by
    rw [hhandlers]
    exact fun _ => List.mem_or_eq_of_mem_set
  refine ⟨haccounts, fun id hle => ⟨?_, fun handler hmem => ?_⟩, fun id => ?_, fun id hdrop => ?_,
    fun handler hmem id before' hbefore t ht => ?_, fun parent' child' before' hmem => ?_,
    fun parent' child' before' hmem => ?_⟩
  · rw [hnext] at hle
    exact hrpc id hle (h.unknown id hle).1
  · rw [hnext] at hle
    rcases hset handler hmem with hold | rfl
    · exact (h.unknown id hle).2 handler hold
    · have hkin := (h.unknown id hle).2 _ hmem₀
      exact hkin
  · rw [hhandlers]
    have hcount := countP_set_add (Handler.bears id) (.forked parent child before) hi
    exact (Nat.add_right_cancel hcount).trans_le (h.unique id)
  · rw [hdropped] at hdrop
    rw [hsessions]
    refine ⟨(h.gone id hdrop).1, fun handler hmem => ?_⟩
    rcases hset handler hmem with hold | rfl
    · exact (h.gone id hdrop).2 handler hold
    · rfl
  · rw [hentered] at ht
    rcases hset handler hmem with hold | rfl
    · exact h.behind handler hold id before' hbefore t ht
    · cases hbefore
  · -- another request that is about to give this child an entry would have made it too
    have hother : child' ≠ child := by
      rintro rfl
      have heq := honly _ hmem (decide_eq_true rfl)
      cases heq
    rw [hstart child' hother]
    rcases hset _ hmem with hold | hnew
    · exact h.unborn parent' child' before' hold
    · cases hnew
  · by_cases hchild : child' = child
    · subst hchild
      obtain ⟨rfl, -, rfl⟩ := Handler.forked.inj (honly _ hmem (decide_eq_true rfl))
      exact hinherits
    · rcases hset _ hmem with hold | hnew
      · exact hothers parent' child' before' hchild hold
      · exact absurd (Handler.forked.inj hnew).2.1 hchild

/-- The child is given its parent's entry. -/
theorem lineal_clone (h : Lineal server) {i : ℕ} {parent child : SessionId} {before : ℕ}
    (hi : server.handlers[i]? = some (.adopted parent child before))
    (hunused : server.rpcState.lookup parent = none ∨ (server.past child).commits = [])
    (hall : ∀ handler ∈ server.handlers, ∀ t < before, handler.pendingAt parent t = false)
    (hunknown : server.rpcState.lookup parent = none ∨ ∀ handler ∈ server.handlers,
      handler.kin child = true → handler.bears child = true) :
    Lineal (server.move up evm order i (.adopted parent child before)) := by
  have hmem₀ := List.mem_of_getElem? hi
  have haccounts : Accounts (server.move up evm order i (.adopted parent child before)) :=
    accounts_clone h.accounts hi hunused
  obtain ⟨hne, hstart⟩ := h.unborn parent child before hmem₀
  obtain ⟨hcounter, hreceipts⟩ := branch_entry h hmem₀ (if_pos rfl) (h.accounts.noted _ hmem₀) hall
  simp only [Server.move] at haccounts ⊢
  cases hparent : server.rpcState.lookup parent with
  | none =>
    rw [hparent] at haccounts
    have hentry : server.entry parent = .default := by rw [Server.entry, hparent, Option.getD_none]
    rw [hentry] at hcounter hreceipts
    refine lineal_forked h hi haccounts rfl rfl rfl (fun _ _ hnone => hnone) (fun _ _ => rfl)
      (fun _ => rfl) (fun _ => rfl) ⟨?_, fun hash => ?_⟩ fun _ _ _ _ hold => h.inherits _ _ _ hold
    · rw [hstart]
      exact hcounter
    · rw [hstart]
      exact hreceipts hash
  | some inherited =>
    rw [hparent] at haccounts
    have hentry : server.entry parent = inherited := by rw [Server.entry, hparent, Option.getD_some]
    rw [hentry] at hcounter hreceipts
    have hstranger : ∀ handler ∈ server.handlers, handler.kin child = true →
        handler.bears child = true := by
      refine hunknown.resolve_left ?_
      rw [hparent]
      exact Option.some_ne_none _
    have hpast : ∀ id, id ≠ child → Function.update server.past child
        { server.past child with start := inherited } id = server.past id :=
      fun id hid => Function.update_of_ne hid _ _
    refine lineal_forked h hi haccounts rfl rfl rfl (fun id hle hnone => ?_) (fun id hid => ?_)
      (past_same Past.dropped rfl) (past_same Past.entered rfl) ⟨?_, fun hash => ?_⟩
      fun parent' child' before' hchild hold => ?_
    · have hchild := (h.unknown id hle).2 _ hmem₀
      simp only [Handler.kin, Bool.or_eq_false_iff, decide_eq_false_iff_not] at hchild
      rw [Map.lookup_insert_eq, if_neg (Ne.symm hchild.2)]
      exact hnone
    · dsimp only
      rw [hpast id hid]
    · dsimp only
      rw [Function.update_self, hpast _ hne]
      exact hcounter
    · dsimp only
      rw [Function.update_self, hpast _ hne]
      exact hreceipts hash
    · have hparent' : parent' ≠ child := by
        rintro rfl
        have hbears := hstranger _ hold (by simp [Handler.kin])
        exact hchild (of_decide_eq_true hbears)
      refine inherits_mono (h.inherits parent' child' before' hold) ?_ ?_ ?_
        (h.accounts.noted _ hold) <;> dsimp only
      · rw [hpast _ hchild]
      · rw [hpast _ hparent']
      · rw [hpast _ hparent']

/-- A send is executed. -/
theorem lineal_send (h : Lineal server) {i : ℕ} {tx : LegacyTx}
    (hi : server.handlers[i]? = some (.send id tx)) :
    Lineal (server.move up evm order i (.send id tx)) := by
  have hplace : (Job.read (F := F) id (.advance tx.env)).InPlace := trivial
  obtain ⟨sessions, hserve, hplaces⟩ := serve_inPlace up evm order server hplace
  have haccounts : Accounts (server.move up evm order i (.send id tx)) :=
    accounts_send h.accounts hi
  have hsessions : ∀ id', server.sessions.lookup id' = none → sessions.lookup id' = none := by
    intro id' hnone
    have hplace' := hplaces id'
    rw [hnone] at hplace'
    exact Option.map_eq_none_iff.mp hplace'
  rcases hpair : server.serve up evm order (.read id (.advance tx.env)) with ⟨reply, served⟩
  rw [hpair] at hserve
  dsimp only at hserve
  subst hserve
  simp only [Server.move, hpair] at haccounts ⊢
  split at haccounts
  · rename_i result served heq
    obtain ⟨rfl, rfl⟩ := Prod.mk.inj heq
    refine lineal_frame h haccounts rfl (fun _ _ hnone => hnone) (kin_set fun _ => rfl)
      (bears_set hi fun _ => rfl) hsessions (past_same Past.start rfl) (fun id' => ?_)
      (fun id' hdropped => .inl ?_) fun id' t ht => .inl ?_
    · dsimp only
      rw [Function.update_apply]
      split
      · rename_i hid
        rw [hid]
        exact List.prefix_append _ _
      · exact List.prefix_refl _
    · simpa only [past_same Past.dropped] using hdropped
    · simpa only [past_same Past.entered] using ht
  · rename_i served hnot heq
    obtain ⟨rfl, rfl⟩ := Prod.mk.inj heq
    exact lineal_frame h haccounts rfl (fun _ _ hnone => hnone) (kin_set fun _ => rfl)
      (bears_set hi fun _ => rfl) hsessions (fun _ => rfl) (fun _ => List.prefix_refl _)
      (fun _ => .inl) fun _ _ => .inl

/-- A send reaches the table, and comes before every branch that is under way. -/
theorem lineal_enter (h : Lineal server) {i : ℕ} {tx : LegacyTx} {result : ExecutionResult}
    {realStart : UInt64} {turn : ℕ}
    (hi : server.handlers[i]? = some (.located id tx result realStart turn))
    (hbehind : ∀ handler ∈ server.handlers, ∀ before, handler.forking id = some before →
      turn < before) : Lineal (server.move up evm order i (.located id tx result realStart turn)) := by
  have haccounts : Accounts (server.move up evm order i (.located id tx result realStart turn)) :=
    accounts_enter h.accounts hi
  have hcommit := h.accounts.noted _ (List.mem_of_getElem? hi)
  simp only [Server.move] at haccounts ⊢
  refine lineal_frame h haccounts rfl (fun id' hle hnone => ?_) (kin_set fun _ => rfl)
    (bears_set hi fun _ => rfl) (fun _ hnone => hnone) (past_same Past.start rfl) (fun id' => ?_)
    (fun id' hdropped => .inl ?_) fun id' t ht => ?_
  · rw [Map.lookup_insert_eq]
    split
    · rename_i hid
      subst hid
      rw [Handler.Noted, (h.accounts.fresh id' hle).2] at hcommit
      cases hcommit
    · exact hnone
  · simp only [past_same Past.commits, List.prefix_refl]
  · simpa only [past_same Past.dropped] using hdropped
  · dsimp only at ht
    rw [Function.update_apply] at ht
    split at ht
    · rename_i hid
      subst hid
      rcases List.mem_append.mp ht with hold | hnew
      · exact .inl hold
      · rw [List.mem_singleton.mp hnew]
        exact .inr hbehind
    · exact .inl ht

/-- A discard takes an entry away that nobody is about to clone. -/
theorem lineal_remove (h : Lineal server) {i : ℕ}
    (hi : server.handlers[i]? = some (.discarded id))
    (hgone : server.rpcState.lookup id = none ∨ (server.sessions.lookup id = none ∧
      ∀ handler ∈ server.handlers, handler.forking id = none)) :
    Lineal (server.move up evm order i (.discarded id)) := by
  have haccounts : Accounts (server.move up evm order i (.discarded id)) :=
    accounts_remove h.accounts hi
  simp only [Server.move] at haccounts ⊢
  refine lineal_frame h haccounts rfl (fun id' _ hnone => ?_) (kin_set fun _ => rfl)
    (bears_set hi fun _ => rfl) (fun _ hnone => hnone) (past_same Past.start rfl) (fun id' => ?_)
    (fun id' hdropped => ?_) fun id' t ht => .inl ?_
  · rw [Map.lookup_erase_eq, hnone, ite_self]
  · simp only [past_same Past.commits, List.prefix_refl]
  · dsimp only at hdropped
    rw [Function.update_apply] at hdropped
    split at hdropped
    · rename_i hid
      subst hid
      rcases Bool.or_eq_true_iff.mp hdropped with hdropped | hsome
      · exact .inl hdropped
      · refine .inr (hgone.resolve_left fun hnone => ?_)
        rw [hnone] at hsome
        cases hsome
    · exact .inl hdropped
  · simpa only [past_same Past.entered] using ht

/-- STEP LEMMA. -/
theorem lineal_step (h : Lineal server) (event : ServerEvent F) (hguard : server.Abreast event) :
    Lineal (server.step up evm order event) := by
  obtain ⟨horderly, habreast⟩ := hguard
  have haccounts : Accounts (server.step up evm order event) := accounts_step h.accounts event horderly
  cases event with
  | send id tx => exact lineal_request h haccounts (fun _ => rfl) fun _ => rfl
  | forkFrom parent => exact lineal_request h haccounts (fun _ => rfl) fun _ => rfl
  | discard id => exact lineal_request h haccounts (fun _ => rfl) fun _ => rfl
  | opened session => exact lineal_register h session horderly
  | expire id =>
    refine lineal_sessions h haccounts fun id' hnone => ?_
    rw [Map.lookup_erase_eq, hnone, ite_self]
  | other job =>
    obtain ⟨sessions, hserve, hplaces⟩ := serve_inPlace up evm order server job.2
    simp only [Server.step, hserve] at haccounts ⊢
    refine lineal_sessions h haccounts fun id hnone => ?_
    have hplace := hplaces id
    rw [hnone] at hplace
    exact Option.map_eq_none_iff.mp hplace
  | refresh blockEnv =>
    exact lineal_frame h haccounts rfl (fun _ _ hnone => hnone) (fun _ hmem => .inl hmem)
      (fun _ => Nat.le_refl _) (fun _ hnone => hnone) (fun _ => rfl) (fun _ => List.prefix_refl _)
      (fun _ => .inl) fun _ _ => .inl
  | move i =>
    simp only [Server.step] at haccounts ⊢
    cases hi : server.handlers[i]? with
    | none => exact h
    | some handler =>
      have hregular := horderly handler hi
      have hguard := habreast i rfl handler hi
      simp only [hi] at haccounts
      cases handler with
      | send id tx => exact lineal_send h hi
      | executed id tx result turn =>
        obtain ⟨height, hsome⟩ := Option.isSome_iff_exists.mp hregular
        simp only [Server.move, hsome] at haccounts ⊢
        exact lineal_set h hi haccounts (fun _ => rfl) fun _ => rfl
      | located id tx result realStart turn => exact lineal_enter h hi hguard
      | forkFrom parent =>
        simp only [Server.move] at haccounts ⊢
        cases hs : server.sessions.lookup parent with
        | some s =>
          rw [hs] at haccounts
          exact lineal_branch h hi hs haccounts
        | none =>
          rw [hs] at haccounts
          exact lineal_set h hi haccounts (fun _ => rfl) fun _ => rfl
      | branched parent session before => exact lineal_adopt h hi hregular
      | adopted parent child before => exact lineal_clone h hi hregular hguard.1 hguard.2
      | discard id =>
        refine lineal_frame h haccounts rfl (fun _ _ hnone => hnone) (kin_set fun _ => rfl)
          (bears_set hi fun _ => rfl) (fun id' hnone => ?_) (fun _ => rfl)
          (fun _ => List.prefix_refl _) (fun _ => .inl) fun _ _ => .inl
        simp only [Server.move]
        rw [Map.lookup_erase_eq, hnone, ite_self]
      | discarded id => exact lineal_remove h hi hguard
      | sent | forked | done | failed => exact h

end Step

/-! ### The main result -/

/-- EXACT: in every run in which, between a branch and its clone, the sends committed before it and
    no others reach the parent's entry and no discard takes that, every branch's RPC history is of
    its state. -/
theorem branch_inherits [ToString E] {up : F → Upstream E} {evm : Evm E} {order : HashOrder}
    (blockEnv : BlockEnv) (events : List (ServerEvent F))
    (hguard : Guarded (Server.step up evm order) Server.Abreast (.start blockEnv) events)
    (parent child : SessionId) (before : ℕ)
    (hforked : .forked parent child before
      ∈ (runAll (Server.step up evm order) (.start blockEnv) events).handlers) :
    MatchesState (runAll (Server.step up evm order) (.start blockEnv) events)
      parent child before := by
  have h := guarded_inv (P := Lineal) (fun _ event h habreast => lineal_step h event habreast) _ events
    (lineal_start blockEnv) hguard
  have hinherits := h.inherits parent child before hforked
  have haccounted := h.accounts.accounted child
  refine ⟨hinherits, fun hlive => ?_, fun hlive hash => ?_⟩
  · rw [haccounted.counter hlive, hinherits.counter]
  · rw [haccounted.receipts hlive hash, hinherits.receipts hash]

/-- One transaction is sent to a session, which is branched once that is answered. -/
def quietBranch : List (ServerEvent Unit) :=
  [.opened freshSession, .send 0 (nthTx 0), .move 0, .move 0, .move 0, .forkFrom 0, .move 1, .move 1,
    .move 1]

theorem branch_inherits_quiet :
    MatchesState (runAll (Server.step (fun _ => .vacant "missing") obliging .some)
      (.start ⟨1, 0, 0, 30000000⟩) quietBranch) 0 1 1 := by
  refine branch_inherits ⟨1, 0, 0, 30000000⟩ quietBranch ⟨⟨Nat.two_pow_pos 64, nofun⟩,
    ⟨trivial, nofun⟩, ⟨?_, ?_⟩, ⟨?_, ?_⟩, ⟨?_, ?_⟩, ⟨trivial, nofun⟩, ⟨?_, ?_⟩, ⟨?_, ?_⟩, ⟨?_, ?_⟩,
    trivial⟩ 0 1 1 (List.mem_of_getElem? (i := 1) rfl)
  · rintro _ ⟨⟩; exact trivial
  · rintro _ ⟨⟩ _ ⟨⟩; exact trivial
  · rintro _ ⟨⟩; exact rfl
  · rintro _ ⟨⟩ _ ⟨⟩; exact trivial
  · rintro _ ⟨⟩; exact trivial
  · rintro _ ⟨⟩ _ ⟨⟩ handler hmem before hbefore
    rw [List.mem_singleton.mp hmem] at hbefore
    cases hbefore
  · rintro _ ⟨⟩; exact trivial
  · rintro _ ⟨⟩ _ ⟨⟩; exact trivial
  · rintro _ ⟨⟩; exact Nat.one_lt_two_pow (by decide)
  · rintro _ ⟨⟩ _ ⟨⟩; exact trivial
  · rintro _ ⟨⟩; exact .inr rfl
  · rintro _ ⟨⟩ _ ⟨⟩
    refine ⟨fun handler hmem t _ => ?_, .inr fun handler hmem hkin => ?_⟩
    · rcases List.mem_pair.mp hmem with rfl | rfl <;> rfl
    · rcases List.mem_pair.mp hmem with rfl | rfl
      · cases hkin
      · rfl

/-- A session is branched while its transaction is on the way to the table. -/
def hastyBranch : List (ServerEvent Unit) :=
  [.opened freshSession, .send 0 (nthTx 0), .forkFrom 0, .move 0, .move 1, .move 1, .move 1]

/-- The child has the transaction's effects, and neither its receipt nor its block. -/
theorem forgotten_receipt :
    let server := runAll (Server.step (fun _ => .vacant "missing") obliging .some)
      (.start ⟨1, 0, 0, 30000000⟩) hastyBranch;
    .forked 0 1 1 ∈ server.handlers ∧ ¬ MatchesState server 0 1 1 := by
  refine ⟨List.mem_of_getElem? (i := 1) rfl, fun h => ?_⟩
  have hcounter : (0 : UInt64) = 1 := h.inherits.counter
  cases hcounter

end Forkyard
