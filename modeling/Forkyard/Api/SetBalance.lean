import Forkyard.Session.Alike
import Forkyard.Schemes.Steps
import Mathlib.Data.List.Permutation

/-! `set_balance` on a session other clients are using: a `basic` job and, once that is answered, a
    `set_account` job with the account that was read and the new balance. Every other request is one
    job. The session itself serves jobs one at a time, as `Serial` has it; between the two of a
    `set_balance` it may serve any number of others.

        set_balance:  basic ──reply──▶ set_account
                             ▲▲▲ anyone's jobs -/

namespace Forkyard

open Schemes

variable {F E : Type}

/-- What a client asks of the session. -/
inductive Ask (F : Type) where
  | setBalance (address : Address) (balance : U256)
  | job (job : Job F)

/-- A request under way: its next job, if it has one still to be served. -/
inductive Asking (F : Type) where
  | first (ask : Ask F)
  | setAccount (address : Address) (balance : U256) (info : AccountInfo)
  | answered

/-- The account that was read, the default for none, with the new balance. Nothing is written where
    the read failed. -/
def rebalanced (balance : U256) : Option (Reply F) → Option AccountInfo
  | some (.basic (.ok info)) => some { info.getD .default with balance := balance }
  | _ => none

/-- One session and its clients: every request made, those answered so far in the order their last
    jobs were served, and every job served. -/
structure Clients (F : Type) where
  slot : Option (Session F)
  requests : List (Asking F)
  asked : List (Ask F)
  answered : List (Ask F)
  served : List (Job F)

def Clients.start (slot : Option (Session F)) : Clients F := ⟨slot, [], [], [], []⟩

/-- A request is made, or the next job of the `i`-th request is served. -/
inductive ClientEvent (F : Type) where
  | ask (ask : Ask F)
  | serve (i : ℕ)

section Steps

variable [ToString E] (up : F → Upstream E) (evm : Evm E) (order : HashOrder) (id : SessionId)

def Clients.step (clients : Clients F) : ClientEvent F → Clients F
  | .ask ask =>
    { clients with requests := clients.requests ++ [.first ask], asked := clients.asked ++ [ask] }
  | .serve i =>
    match clients.requests[i]? with
    | some (.first (.job job)) =>
      { clients with
        slot := (refStep up evm order job clients.slot).2
        requests := clients.requests.set i .answered
        answered := clients.answered ++ [.job job]
        served := clients.served ++ [job] }
    | some (.first (.setBalance address balance)) =>
      let basic : Job F := .read id (.basic address)
      let (reply, slot) := refStep up evm order basic clients.slot
      match rebalanced balance reply with
      | some info =>
        { clients with
          slot := slot
          requests := clients.requests.set i (.setAccount address balance info)
          served := clients.served ++ [basic] }
      | none =>
        { clients with
          slot := slot
          requests := clients.requests.set i .answered
          answered := clients.answered ++ [.setBalance address balance]
          served := clients.served ++ [basic] }
    | some (.setAccount address balance info) =>
      let write : Job F := .command (.setAccount id address info)
      { clients with
        slot := (refStep up evm order write clients.slot).2
        requests := clients.requests.set i .answered
        answered := clients.answered ++ [.setBalance address balance]
        served := clients.served ++ [write] }
    | _ => clients

/-- A request with nothing served between its jobs. -/
def Ask.whole : Ask F → Option (Session F) → Option (Session F)
  | .job one, slot => (refStep up evm order one slot).2
  | .setBalance address balance, slot =>
    let (reply, slot) := refStep up evm order (.read id (.basic address)) slot
    match rebalanced balance reply with
    | some info => (refStep up evm order (.command (.setAccount id address info)) slot).2
    | none => slot

/-- One request after another. -/
def sequential (asks : List (Ask F)) (slot : Option (Session F)) : Option (Session F) :=
  asks.foldl (fun slot ask => ask.whole up evm order id slot) slot

/-- When a `set_account` is served, the account's nonce, code hash and code are still those that
    were read for it. -/
def Clients.Unmoved (clients : Clients F) : ClientEvent F → Prop
  | .serve i => ∀ address balance info s,
      clients.requests[i]? = some (.setAccount address balance info) → clients.slot = some s →
        ∃ now, (s.view up).basic address = .ok now ∧ (now.getD .default).nonce = info.nonce ∧
          (now.getD .default).codeHash = info.codeHash ∧ (now.getD .default).code = info.code
  | _ => True

end Steps

/-! ### Serving `basic` -/

variable {up : F → Upstream E} {evm : Evm E} {order : HashOrder} {id : SessionId} [ToString E]

variable (up evm order id) in
/-- What `basic` is answered: the account its session shows. It leaves the session the same. -/
theorem refStep_basic {s : Session F} (hs : s.readLog = none) (address : Address) :
    ∃ s', refStep up evm order (.read id (.basic address)) (some s)
        = (some (.basic (displayed ((s.view up).answer (.basic address)))), some s') ∧
      Same up s' s := by
  have hrun := Session.run_view (Session.faithful_upstream up)
    (Request.task (F := F) evm (.basic address) s.blockEnv) s () trivial
  have hsame := same_run up (Request.task (F := F) evm (.basic address) s.blockEnv) hs
  simp only [refStep, Task.serve]
  rcases hr : (Request.task (F := F) evm (.basic address) s.blockEnv).run
    (Session.answer (Upstream.db up)) (s, ()) with ⟨outcome, s', u⟩
  rw [hr] at hrun hsame
  obtain rfl : outcome = some (.basic (displayed ((s.view up).answer (.basic address))), none) :=
    hrun.1
  exact ⟨s', rfl, hsame⟩

variable (evm order id) in
/-- A `basic` job leaves the slot the same, and reads alike on slots that are. -/
theorem basic_same {slot slot' : Option (Session F)} (h : SameSlot up slot slot')
    (address : Address) :
    (refStep up evm order (.read id (.basic address)) slot).1
        = (refStep up evm order (.read id (.basic address)) slot').1 ∧
      SameSlot up (refStep up evm order (.read id (.basic address)) slot).2 slot' := by
  match slot, slot', h with
  | some s, some t, h =>
    obtain ⟨s', hs, hsame⟩ := refStep_basic up evm order id h.left address
    obtain ⟨t', ht, -⟩ := refStep_basic up evm order id h.right address
    rw [hs, ht, h.view]
    exact ⟨rfl, same_trans hsame h⟩
  | none, none, _ => exact ⟨rfl, trivial⟩

/-! ### Serving requests one by one -/

/-- What a request still has to do. -/
def Asking.pending : Asking F → List (Ask F)
  | .first ask => [ask]
  | .setAccount address balance _ => [.setBalance address balance]
  | .answered => []

/-- INVARIANT: the session is what the answered requests make of it one after another, every request
    is answered or under way, and a `set_account` carries the balance it was asked for. -/
structure OneByOne (up : F → Upstream E) (evm : Evm E) (order : HashOrder) (id : SessionId)
    (slot : Option (Session F)) (clients : Clients F) : Prop where
  same : SameSlot up clients.slot (sequential up evm order id clients.answered slot)
  all : (clients.answered ++ clients.requests.flatMap Asking.pending).Perm clients.asked
  balance : ∀ address balance info, .setAccount address balance info ∈ clients.requests →
    info.balance = balance

section Runs

variable {slot : Option (Session F)} {clients : Clients F}

theorem sequential_snoc (asks : List (Ask F)) (ask : Ask F) (slot : Option (Session F)) :
    sequential up evm order id (asks ++ [ask]) slot
      = ask.whole up evm order id (sequential up evm order id asks slot) :=
  List.foldl_append

/-- Moving a request on accounts for every ask as before. -/
theorem all_set (h : OneByOne up evm order id slot clients) {i : ℕ} {asking : Asking F}
    (next : Asking F) (answered : List (Ask F)) (hi : clients.requests[i]? = some asking)
    (hpending : asking.pending = answered ++ next.pending) :
    (clients.answered ++ answered ++
      (clients.requests.set i next).flatMap Asking.pending).Perm clients.asked := by
  have hset := flatMap_set_perm Asking.pending next hi
  rw [hpending, List.append_assoc] at hset
  have hcancel := (List.perm_append_left_iff _).mp ((List.perm_append_comm_assoc _ _ _).trans hset)
  rw [List.append_assoc]
  exact (hcancel.append_left _).trans h.all

/-- What is written carries the balance that was asked for. -/
theorem rebalanced_eq {balance : U256} {reply : Option (Reply F)} {info : AccountInfo}
    (h : rebalanced balance reply = some info) :
    ∃ read, reply = some (.basic (.ok read)) ∧
      info = { read.getD .default with balance := balance } := by
  unfold rebalanced at h
  split at h
  · exact ⟨_, rfl, (Option.some.inj h).symm⟩
  · cases h

/-- Where the account is still what was read but for its balance, `set_account` is a whole
    `set_balance`. -/
theorem setAccount_whole {s t : Session F} (h : Same up s t) (address : Address)
    {info : AccountInfo}
    (hunmoved : ∃ now, (s.view up).basic address = .ok now ∧ (now.getD .default).nonce = info.nonce ∧
      (now.getD .default).codeHash = info.codeHash ∧ (now.getD .default).code = info.code) :
    SameSlot up (refStep up evm order (.command (.setAccount id address info)) (some s)).2
      ((Ask.setBalance address info.balance).whole up evm order id (some t)) := by
  obtain ⟨now, hnow, hnonce, hhash, hcode⟩ := hunmoved
  obtain ⟨t', ht, hsame⟩ := refStep_basic up evm order id h.right address
  have hinfo : ({ now.getD .default with balance := info.balance } : AccountInfo) = info := by
    simp only [hnonce, hhash, hcode]
  rw [← h.view] at ht
  simp only [Ask.whole, ht, FullMap.answer, hnow, Except.mapError, displayed, rebalanced, hinfo]
  have hslot : SameSlot up (some s) (some t') := same_trans h (same_symm hsame)
  exact (refStep_alike evm order _ hslot).2

/-- STEP LEMMA: requests made and jobs served, with every `set_account` served on an account that
    has not moved, come to the same as the answered requests one by one. -/
theorem oneByOne_step (h : OneByOne up evm order id slot clients) (event : ClientEvent F)
    (hunmoved : clients.Unmoved up event) :
    OneByOne up evm order id slot (clients.step up evm order id event) := by
  cases event with
  | ask ask =>
    refine ⟨h.same, ?_, fun address balance info hmem => ?_⟩
    · have hall := h.all.append_right [ask]
      simpa [Clients.step, Asking.pending] using hall
    · rcases List.mem_append.mp hmem with hold | hnew
      · exact h.balance _ _ _ hold
      · cases List.mem_singleton.mp hnew
  | serve i =>
    have hbalance : ∀ {next : Asking F},
        (∀ address balance info, next = .setAccount address balance info → info.balance = balance) →
        ∀ address balance info, .setAccount address balance info ∈ clients.requests.set i next →
          info.balance = balance := by
      intro next hnext address balance info hmem
      rcases List.mem_or_eq_of_mem_set hmem with hold | hnew
      · exact h.balance _ _ _ hold
      · exact hnext _ _ _ hnew.symm
    simp only [Clients.step]
    split
    · rename_i job hi
      refine ⟨?_, all_set h _ _ hi rfl, hbalance nofun⟩
      rw [sequential_snoc]
      exact (refStep_alike evm order job h.same).2
    · rename_i address balance hi
      obtain ⟨hreply, hsame⟩ := basic_same evm order id h.same address
      rcases hserved : refStep up evm order (.read id (.basic address)) clients.slot with
        ⟨reply, slot'⟩
      rw [hserved] at hreply hsame
      dsimp only
      split
      · rename_i info hinfo
        have hall := all_set h (.setAccount address balance info) [] hi rfl
        rw [List.append_nil] at hall
        refine ⟨hsame, hall, hbalance ?_⟩
        rintro _ _ _ ⟨⟩
        obtain ⟨read, -, rfl⟩ := rebalanced_eq hinfo
        rfl
      · rename_i hnone
        refine ⟨?_, all_set h _ _ hi rfl, hbalance nofun⟩
        have hwhole := (refStep_alike evm order (.read id (.basic address)) h.same).2
        rw [hserved] at hwhole
        rw [sequential_snoc]
        simp only [Ask.whole]
        rw [← hreply, hnone]
        exact hwhole
    · rename_i address balance info hi
      refine ⟨?_, all_set h _ _ hi rfl, hbalance nofun⟩
      rw [sequential_snoc]
      have hsame := h.same
      have hasked := h.balance _ _ _ (List.mem_of_getElem? hi)
      rw [← hasked]
      match hs : clients.slot, ht : sequential up evm order id clients.answered slot, hsame with
      | some s, some t, hsame =>
        exact setAccount_whole hsame address (hunmoved _ _ _ s hi hs)
      | none, none, _ => exact trivial
    · exact h

/-- The clients' session is the reference machine's: what it has served, one job after another. -/
theorem clients_reference (before : List (Posted F)) (events : List (ClientEvent F)) :
    let clients := runAll (Clients.step up evm order id)
      (.start (reference up evm order before).2) events
    clients.slot
      = (reference up evm order (before ++ clients.served.map fun job => ⟨job, 0⟩)).2 := by
  refine runAll_inv (P := fun clients : Clients F => clients.slot
    = (reference up evm order (before ++ clients.served.map fun job => ⟨job, 0⟩)).2) ?_ _ events ?_
  swap
  · simp [Clients.start]
  intro clients event h
  have hsnoc : ∀ job : Job F, (refStep up evm order job clients.slot).2
      = (reference up evm order (before ++ (clients.served ++ [job]).map fun job => ⟨job, 0⟩)).2 := by
    intro job
    rw [List.map_append, ← List.append_assoc, List.map_cons, List.map_nil, reference_snoc, ← h]
  cases event with
  | ask ask => exact h
  | serve i =>
    simp only [Clients.step]
    split
    · exact hsnoc _
    · split <;> exact hsnoc _
    · exact hsnoc _
    · exact h

/-- CORRECT: in a run that serves every `set_account` on an account that has not moved since it was
    read, the session ends as after the answered requests one by one, each of them whole; and once
    no request is under way these are all the requests that were made. -/
theorem set_balance_serial (hquiet : ∀ s, slot = some s → s.readLog = none)
    (events : List (ClientEvent F))
    (hunmoved : Guarded (Clients.step up evm order id) (Clients.Unmoved up) (.start slot) events) :
    let clients := runAll (Clients.step up evm order id) (.start slot) events
    SameSlot up clients.slot (sequential up evm order id clients.answered slot) ∧
      ((∀ asking ∈ clients.requests, asking.pending = []) →
        clients.answered.Perm clients.asked) := by
  intro clients
  have hstart : OneByOne up evm order id slot (.start slot) := by
    exact ⟨sameSlot_refl hquiet, List.Perm.refl _, nofun⟩
  have hrun : OneByOne up evm order id slot clients :=
    guarded_inv (P := OneByOne up evm order id slot)
      (fun _ event h hguard => oneByOne_step h event hguard) _ events hstart hunmoved
  refine ⟨hrun.same, fun hdone => ?_⟩
  have hnone : clients.requests.flatMap Asking.pending = [] := List.flatMap_eq_nil_iff.mpr hdone
  have hall := hrun.all
  rwa [hnone, List.append_nil] at hall

end Runs

/-- A `set_balance` with another client's write between its two jobs. -/
def disjointRun : List (ClientEvent Unit) :=
  [.ask (.setBalance 0xa 100), .ask (.job (.command (.setStorage 1 0xb 7 42))), .serve 0, .serve 1,
    .serve 0]

theorem set_balance_serial_disjoint :
    let up : Unit → Upstream String := fun _ => .vacant "missing"
    let evm : Evm String := fun _ _ _ => .panic
    let clients := runAll (Clients.step up evm .some 1) (.start (some freshSession)) disjointRun
    SameSlot up clients.slot (sequential up evm .some 1 clients.answered (some freshSession)) ∧
      ((∀ asking ∈ clients.requests, asking.pending = []) →
        clients.answered.Perm clients.asked) := by
  intro up evm
  refine set_balance_serial (by rintro _ ⟨⟩; rfl) disjointRun
    ⟨trivial, trivial, nofun, nofun, ?_, trivial⟩
  intro address balance info s hi hs
  have hi : some (.setAccount 0xa 100 { AccountInfo.default with balance := 100 })
      = some (Asking.setAccount (F := Unit) address balance info) := hi
  cases hi
  cases hs
  exact ⟨none, rfl, rfl, rfl, rfl⟩

/-- A transaction that does nothing but count: its sender's nonce goes up by one. -/
def counting : Evm String := fun _ _ tx =>
  .ret (.ok (.success 21000 [],
    ⟨[(tx.caller, ⟨⟨0, tx.nonce + 1, keccakEmpty, none⟩, [], false, false, List.nodup_nil⟩)],
      List.nodup_singleton tx.caller⟩))

/-- A `set_balance` of the sender with an `advance` between its two jobs. -/
def racingRun : List (ClientEvent Unit) :=
  [.ask (.setBalance 0xa 100),
    .ask (.job (.read 1 (.advance ⟨0xa, .call 0xb, 0, [], 21000, 0, 0, none⟩))),
    .serve 0, .serve 1, .serve 0]

/-- The nonce the session shows for an account. -/
def nonceOf (up : Unit → Upstream String) (address : Address) (slot : Option (Session Unit)) :
    Option UInt64 :=
  slot.bind fun s => ((s.view up).basic address).toOption.map fun info => (info.getD .default).nonce

theorem nonceOf_same {up : Unit → Upstream String} {address : Address}
    {slot slot' : Option (Session Unit)} (h : SameSlot up slot slot') :
    nonceOf up address slot = nonceOf up address slot' := by
  match slot, slot', h with
  | some s, some t, h => simp only [nonceOf, Option.bind_some, h.view]
  | none, none, _ => rfl

/-- The transaction is committed, and its sender's nonce is back to zero. -/
theorem nonce_undone :
    let up : Unit → Upstream String := fun _ => .vacant "missing"
    let clients := runAll (Clients.step up counting .some 1) (.start (some freshSession)) racingRun
    ¬ ∃ asks : List (Ask Unit), asks.Perm clients.asked ∧
      SameSlot up clients.slot (sequential up counting .some 1 asks (some freshSession)) := by
  intro up clients
  rintro ⟨asks, hperm, hsame⟩
  have hnonce : ∀ slot, SameSlot up clients.slot slot → nonceOf up 0xa slot = some 0 := by
    intro slot h
    rw [← nonceOf_same h]
    decide
  have hone : nonceOf up 0xa (sequential up counting .some 1 asks (some freshSession)) = some 1 := by
    rcases List.perm_pair.mp hperm with rfl | rfl <;> decide
  rw [hnonce _ hsame] at hone
  cases hone

end Forkyard
