import Forkyard.Api.SetBalance
import Forkyard.Api.Asks

/-! What is set is read back. Balances and slots are set and got as text, over either surface, by
    requests that interleave with all others. Once a set is answered, the session shows its value, and
    goes on to until a request that may change that session moves or the session is reaped; any get of
    it in between, over whichever surface and however it spells the place, is answered a text that
    reads as the value that was set.

        set ──answered──▶ shows value ──┬──▶ get ──▶ text ──parse──▶ value
                                        └ looks, forks, other sessions -/

namespace Forkyard

open Schemes

variable {F E : Type}

/-! ### Texts that read back -/

/-- What `U256::from_str_radix` is documented to do with digits of the base: read the number they
    are, where it fits. -/
def HexParser.Numeric (hex : HexParser) : Prop :=
  ∀ digits n, digits ≠ [] → hexAlphabet.read digits 0 = some n → n < 2 ^ 256 →
    hex.u256 (.ofList digits) = .ok (.ofNat 256 n)

theorem hexDigit_ne_x {d : ℕ} (hd : d < 16) : hexDigit d ≠ 'x' := by
  revert d
  decide

/-- Digits with `0x` in front of them are read as the number they are. -/
theorem parse_digits {hex : HexParser} (hhex : hex.Numeric) {digits : List Char} {n : U256}
    (hdigits : ∀ c ∈ digits, ∃ d, d < 16 ∧ c = hexDigit d) (hne : digits ≠ [])
    (hread : hexAlphabet.read digits 0 = some n.toNat) :
    hex.parseU256HexStr (.ofList ('0' :: 'x' :: digits)) = .ok n := by
  have hbare : ¬ ['0', 'x'] <+: digits := by
    rintro ⟨rest, rfl⟩
    obtain ⟨d, hd, hx⟩ := hdigits 'x' (by simp)
    exact hexDigit_ne_x hd hx.symm
  rw [HexParser.parseU256HexStr, trimHex, String.toList_ofList, trimHex.trim,
    trim_of_not_prefix hbare, hhex digits n.toNat hne hread n.isLt, BitVec.ofNat_toNat,
    BitVec.setWidth_eq]

/-- READ BACK: a number as short as it gets. -/
theorem parse_hexText {hex : HexParser} (hhex : hex.Numeric) (n : U256) :
    hex.parseU256HexStr (hexText n.toNat) = .ok n :=
  parse_digits hhex (fun _ hc => hexAlphabet.mem_numeral hc)
    (hexAlphabet.numeral_ne_nil n.toNat) (hexAlphabet.read_numeral n.toNat)

/-- READ BACK: a word. -/
theorem parse_wordText {hex : HexParser} (hhex : hex.Numeric) (n : U256) :
    hex.parseU256HexStr (wordText n.toNat) = .ok n :=
  parse_digits hhex (fun _ hc => hexAlphabet.mem_padded hc)
    (hexAlphabet.padded_ne_nil 64 n.toNat) (hexAlphabet.read_padded 64 n.toNat)

/-! ### What befalls a session -/

/-- Ids have started over. -/
def Backend.Worn (b : Backend F) : Prop := 2 ^ 64 < b.nextId

/-- INVARIANT: every session has an id that has been drawn, and logs no reads; and until ids start
    over, no two calls have drawn the same one, and none is in use whose session is yet to be sent
    for. -/
structure Backend.Sound (b : Backend F) : Prop where
  sessions : ∀ id s, b.sessions.lookup id = some s → id.toNat < b.nextId ∧ s.readLog = none
  nodup : ¬ b.Worn → b.unsent.Nodup
  unsent : ¬ b.Worn → ∀ id ∈ b.unsent, id.toNat < b.nextId ∧ b.sessions.lookup id = none

section Befalls

variable [ToString E] (up : F → Upstream E) (evm : Evm E) (order : HashOrder)
  (stored : UInt64 → SessionState → Except String SnapshotInfo)

/-- What comes of a session in one step: nothing, even if an id is drawn, a job is served on it, or it
    is the one that is sent for. -/
inductive Befell (served : Job F → Prop) (id : SessionId) (b b' : Backend F) : Prop
  | nothing (hslot : b'.sessions.lookup id = b.sessions.lookup id) (hnext : b'.nextId = b.nextId)
    (hunsent : b'.unsent.Sublist b.unsent)
  | drawn (hslot : b'.sessions.lookup id = b.sessions.lookup id) (hnext : b'.nextId = b.nextId + 1)
    (hunsent : b'.unsent = b.unsent ++ [UInt64.ofNat b.nextId])
  | served (job : Job F) (hjob : served job) (hopens : job.opens = false) (hid : job.sessionId = id)
    (hslot : b'.sessions.lookup id = (refStep up evm order job (b.sessions.lookup id)).2)
    (hnext : b'.nextId = b.nextId) (hunsent : b'.unsent = b.unsent)
  | opened (opening : Opening F) (hid : id ∈ b.unsent)
    (hslot : b'.sessions.lookup id
      = (refStep up evm order (.command (opening.command id)) (b.sessions.lookup id)).2)
    (hnext : b'.nextId = b.nextId) (hunsent : b'.unsent = b.unsent.erase id)

variable {up evm order stored} {b : Backend F}

theorem serve_befell (served : Job F → Prop) {job : Job F} (hjob : served job)
    (hopens : job.opens = false) (id : SessionId) (b : Backend F) :
    Befell up evm order served id b (b.serve up evm order job).2 := by
  obtain ⟨-, sessions, hserve, hlookup⟩ := Backend.serve_spec up evm order b job
  rw [hserve]
  by_cases hid : id = job.sessionId
  · exact .served job hjob hopens hid.symm ((hlookup id).trans (if_pos hid)) rfl rfl
  · exact .nothing ((hlookup id).trans (if_neg hid)) rfl (List.Sublist.refl _)

theorem send_befell (served : Job F → Prop) (id' : SessionId) (opening : Opening F)
    (id : SessionId) (b : Backend F) :
    Befell up evm order served id b (b.send up evm order id' opening) := by
  by_cases hmem : id' ∈ b.unsent
  · obtain ⟨sessions, hsend, hlookup⟩ := send_spec up evm order b id' opening hmem
    rw [hsend]
    by_cases hid : id = id'
    · subst hid
      exact .opened opening hmem ((hlookup id).trans (if_pos rfl)) rfl rfl
    · exact .nothing ((hlookup id).trans (if_neg hid)) rfl List.erase_sublist
  · rw [Backend.send, if_neg hmem]
    exact .nothing rfl rfl (List.Sublist.refl _)

variable (up evm order stored) in
/-- SPEC of one step of a request. -/
theorem answer_befell (hop : Hop F) (id : SessionId) (b : Backend F) :
    Befell up evm order (fun job => ∃ hopens, hop = .job ⟨job, hopens⟩) id b
      (Backend.answer up evm order stored hop b).2 := by
  cases hop with
  | job job => exact serve_befell _ ⟨job.2, rfl⟩ job.2 id b
  | draw => exact .drawn rfl rfl rfl
  | send id' opening => exact send_befell _ id' opening id b
  | inherit parent child =>
    simp only [Backend.answer]
    split <;> exact .nothing rfl rfl (List.Sublist.refl _)
  | _ => exact .nothing rfl rfl (List.Sublist.refl _)

variable (up evm order) in
/-- SPEC of what comes from elsewhere. Being reaped is being discarded. -/
theorem happen_befell (happening : Happening F) (id : SessionId) (b : Backend F) :
    Befell up evm order (fun job => happening = .expire job.sessionId) id b
      (b.happen up evm order happening) := by
  cases happening with
  | expire id' =>
    by_cases hid : id = id'
    · subst hid
      refine .served (.command (.discard id)) rfl rfl rfl ?_ rfl rfl
      simp only [Backend.happen, Map.lookup_erase_eq, if_true]
      rfl
    · exact .nothing (by simp only [Backend.happen, Map.lookup_erase_eq, if_neg hid]) rfl
        (List.Sublist.refl _)
  | draw => exact .drawn rfl rfl rfl
  | send id' opening => exact send_befell _ id' opening id b
  | _ => exact .nothing rfl rfl (List.Sublist.refl _)

omit [ToString E] in
theorem opened_quiet (order : HashOrder) (opening : Opening F) (id : SessionId)
    (slot : Option (Session F)) :
    ∃ s, (refCommand order (opening.command id) slot).2 = some s ∧ s.readLog = none := by
  rcases opening with ⟨base, fallback, blockEnv, _ | state⟩ | session
  · exact ⟨_, rfl, rfl⟩
  · exact ⟨_, rfl, rfl⟩
  · exact ⟨_, rfl, session.2⟩

theorem refStep_none {job : Job F} (hopens : job.opens = false) :
    (refStep up evm order job none).2 = none := by
  cases job with
  | read id request => rfl
  | command c => cases c <;> first | rfl | cases hopens

theorem refStep_quiet (job : Job F) {slot : Option (Session F)}
    (hslot : ∀ s, slot = some s → s.readLog = none) {s : Session F}
    (hs : (refStep up evm order job slot).2 = some s) : s.readLog = none := by
  have hself : SameSlot up slot slot := sameSlot_refl hslot
  have hsame := (refStep_alike evm order job hself).2
  rw [hs] at hsame
  exact hsame.left

/-- No id that has been drawn is drawn again before ids start over. -/
theorem drawn_once {id : SessionId} (hid : id.toNat < b.nextId)
    (hagain : id = UInt64.ofNat b.nextId) : 2 ^ 64 ≤ b.nextId := by
  by_contra hlt
  rw [hagain, toNat_fits (Nat.lt_of_not_le hlt)] at hid
  exact Nat.lt_irrefl _ hid

theorem unworn_befell {served : Job F → Prop} {id : SessionId} {b' : Backend F}
    (hbefell : Befell up evm order served id b b') (h : ¬ b'.Worn) : ¬ b.Worn := by
  unfold Backend.Worn at h ⊢
  cases hbefell <;> omega

/-- STEP LEMMA: every session that is there. -/
theorem sound_session {served : Job F → Prop} {b' : Backend F} (h : b.Sound) {id : SessionId}
    (hbefell : Befell up evm order served id b b') {s : Session F}
    (hs : b'.sessions.lookup id = some s) : id.toNat < b'.nextId ∧ s.readLog = none := by
  cases hbefell with
  | nothing hslot hnext hunsent =>
    rw [hnext]
    exact h.sessions id s (hslot ▸ hs)
  | drawn hslot hnext hunsent =>
    obtain ⟨hid, hquiet⟩ := h.sessions id s (hslot ▸ hs)
    exact ⟨hnext ▸ Nat.lt_succ_of_lt hid, hquiet⟩
  | served job hjob hopens hid hslot hnext hunsent =>
    rw [hslot] at hs
    cases hlookup : b.sessions.lookup id with
    | none =>
      rw [hlookup, refStep_none hopens] at hs
      cases hs
    | some s₀ =>
      refine ⟨hnext ▸ (h.sessions id s₀ hlookup).1, refStep_quiet job (fun s₁ hs₁ => ?_) hs⟩
      exact (h.sessions id s₁ hs₁).2
  | opened opening hid hslot hnext hunsent =>
    obtain ⟨s₀, hs₀, hquiet⟩ := opened_quiet order opening id (b.sessions.lookup id)
    obtain rfl : s₀ = s := Option.some.inj (hs₀.symm.trans (hslot.symm.trans hs))
    refine ⟨?_, hquiet⟩
    by_cases hworn : b.Worn
    · exact hnext ▸ Nat.lt_trans id.toNat_lt hworn
    · exact hnext ▸ (h.unsent hworn id hid).1

/-- STEP LEMMA: every id whose session is yet to be sent for. -/
theorem sound_unsent {served : Job F → Prop} {b' : Backend F} (h : b.Sound) (hworn : ¬ b'.Worn)
    {id : SessionId} (hbefell : Befell up evm order served id b b') (hid : id ∈ b'.unsent) :
    id.toNat < b'.nextId ∧ b'.sessions.lookup id = none := by
  have hworn' := unworn_befell hbefell hworn
  cases hbefell with
  | nothing hslot hnext hunsent =>
    rw [hnext, hslot]
    exact h.unsent hworn' id (hunsent.subset hid)
  | drawn hslot hnext hunsent =>
    rw [hnext, hslot]
    rw [hunsent] at hid
    rcases List.mem_append.mp hid with hid | hid
    · obtain ⟨hlt, hnone⟩ := h.unsent hworn' id hid
      exact ⟨Nat.lt_succ_of_lt hlt, hnone⟩
    · have hnew := List.mem_singleton.mp hid
      have hfits : b.nextId < 2 ^ 64 := by
        unfold Backend.Worn at hworn
        omega
      refine ⟨by rw [hnew, toNat_fits hfits]; exact Nat.lt_succ_self _,
        Option.eq_none_iff_forall_ne_some.mpr fun s hs => ?_⟩
      exact absurd (drawn_once (h.sessions id s hs).1 hnew) (Nat.not_le.mpr hfits)
  | served job hjob hopens hsession hslot hnext hunsent =>
    obtain ⟨hlt, hnone⟩ := h.unsent hworn' id (hunsent ▸ hid)
    rw [hnext, hslot, hnone]
    exact ⟨hlt, refStep_none hopens⟩
  | opened opening hmem hslot hnext hunsent =>
    rw [hunsent] at hid
    exact absurd hid (h.nodup hworn').not_mem_erase

/-- STEP LEMMA: soundness. -/
theorem sound_befell {served : Job F → Prop} {b' : Backend F} (h : b.Sound)
    (hbefell : ∀ id, Befell up evm order served id b b') : b'.Sound := by
  refine ⟨fun id s hs => sound_session h (hbefell id) hs, fun hworn => ?_,
    fun hworn id hid => sound_unsent h hworn (hbefell id) hid⟩
  have hworn' := unworn_befell (hbefell 0) hworn
  have hnodup := h.nodup hworn'
  cases hbefell 0 with
  | nothing hslot hnext hunsent => exact hnodup.sublist hunsent
  | drawn hslot hnext hunsent =>
    rw [hunsent]
    refine List.nodup_append.mpr ⟨hnodup, List.nodup_singleton _, fun id hid id' hid' heq => ?_⟩
    have hnew := heq.trans (List.mem_singleton.mp hid')
    have hagain := drawn_once (h.unsent hworn' id hid).1 hnew
    unfold Backend.Worn at hworn
    omega
  | served job hjob hopens hid hslot hnext hunsent => exact hunsent ▸ hnodup
  | opened opening hid hslot hnext hunsent => exact hunsent ▸ hnodup.erase 0

theorem sound_answer (hop : Hop F) (b : Backend F) (h : b.Sound) :
    (Backend.answer up evm order stored hop b).2.Sound :=
  sound_befell h fun id => answer_befell up evm order stored hop id b

theorem sound_happen (happening : Happening F) (b : Backend F) (h : b.Sound) :
    (b.happen up evm order happening).Sound :=
  sound_befell h fun id => happen_befell up evm order happening id b

omit [ToString E] in
theorem start_sound (fallback : F) (blockEnv : BlockEnv) :
    (Backend.start fallback blockEnv).Sound := by
  refine ⟨fun id s hs => ?_, fun _ => List.nodup_nil, fun _ id hid => ?_⟩
  · simp [Backend.start] at hs
  · cases hid

theorem worn_befell {served : Job F → Prop} {b' : Backend F} (h : b.Worn)
    (hbefell : Befell up evm order served 0 b b') : b'.Worn := by
  unfold Backend.Worn at h ⊢
  cases hbefell <;> omega

theorem worn_answer (hop : Hop F) (b : Backend F) (h : b.Worn) :
    (Backend.answer up evm order stored hop b).2.Worn :=
  worn_befell h (answer_befell up evm order stored hop 0 b)

theorem worn_happen (happening : Happening F) (b : Backend F) (h : b.Worn) :
    (b.happen up evm order happening).Worn :=
  worn_befell h (happen_befell up evm order happening 0 b)

end Befalls

/-! ### What a session shows -/

/-- The session is there, and its map is such. -/
def Backend.Shows (up : F → Upstream E) (id : SessionId) (Φ : FullMap E → Prop) (b : Backend F) :
    Prop :=
  ∃ s, b.sessions.lookup id = some s ∧ Φ (s.view up)

/-- The step is no job that may change what `id` shows. -/
def Hop.Spares (id : SessionId) : Hop F → Prop
  | .job j => j.1.sessionId = id → j.1.writes = false
  | _ => True

section Shows

variable [ToString E] {up : F → Upstream E} {evm : Evm E} {order : HashOrder}
  {stored : UInt64 → SessionState → Except String SnapshotInfo} {b b' : Backend F}
  {id : SessionId} {Φ : FullMap E → Prop}

/-- STEP LEMMA: what a session shows it goes on to show, until a job is served that may change it or
    ids start over. -/
theorem shows_befell {served : Job F → Prop} (h : b.Sound) (hshows : b.Shows up id Φ)
    (hbefell : Befell up evm order served id b b')
    (hmild : ∀ job, served job → job.sessionId = id → job.writes = false) :
    b'.Worn ∨ b'.Shows up id Φ := by
  obtain ⟨s, hs, hΦ⟩ := hshows
  cases hbefell with
  | nothing hslot hnext hunsent => exact .inr ⟨s, hslot.trans hs, hΦ⟩
  | drawn hslot hnext hunsent => exact .inr ⟨s, hslot.trans hs, hΦ⟩
  | served job hjob hopens hid hslot hnext hunsent =>
    have hquiet : ∀ s, b.sessions.lookup id = some s → s.readLog = none :=
      fun s hs => (h.sessions id s hs).2
    rcases refStep_mild up evm order hopens hquiet with hsame | ⟨hwrites, -⟩
    · rw [← hslot, hs] at hsame
      cases hs' : b'.sessions.lookup id with
      | none =>
        rw [hs'] at hsame
        exact hsame.elim
      | some s' =>
        rw [hs'] at hsame
        exact .inr ⟨s', hs', hsame.view ▸ hΦ⟩
    · rw [hmild job hjob hid] at hwrites
      cases hwrites
  | opened opening hid hslot hnext hunsent =>
    by_cases hworn : b.Worn
    · exact .inl (by unfold Backend.Worn at hworn ⊢; omega)
    · rw [(h.unsent hworn id hid).2] at hs
      cases hs

theorem shows_answer {hop : Hop F} (hspares : hop.Spares id) (h : b.Sound)
    (hshows : b.Shows up id Φ) :
    (Backend.answer up evm order stored hop b).2.Worn ∨
      (Backend.answer up evm order stored hop b).2.Shows up id Φ := by
  refine shows_befell h hshows (answer_befell up evm order stored hop id b) ?_
  rintro job ⟨hopens, rfl⟩ hid
  exact hspares hid

theorem shows_happen {happening : Happening F} (hkept : happening ≠ .expire id) (h : b.Sound)
    (hshows : b.Shows up id Φ) :
    (b.happen up evm order happening).Worn ∨ (b.happen up evm order happening).Shows up id Φ := by
  refine shows_befell h hshows (happen_befell up evm order happening id b) ?_
  rintro job hjob rfl
  exact absurd hjob hkept

end Shows

/-- A request spares every session but the one it may change. -/
theorem program_only (w : Wire) (chainId : UInt64) {call : SurfaceCall} {id : SessionId}
    (h : call.target ≠ some id) :
    (call.program w chainId : Program F SurfaceReply).Only (Hop.Spares id) := by
  refine within_only (fun hop hasks => ?_) (program_within w chainId call)
  cases hop with
  | job job =>
    rintro rfl
    exact Bool.eq_false_iff.mpr fun hwrites => h (hasks hwrites)
  | _ => exact trivial

/-! ### Sets and gets -/

/-- What can be set and got: a balance, or a slot. -/
inductive Place where
  | balance (address : Address)
  | slot (address : Address) (key : StorageKey)

/-- The map has the value there. -/
def Place.Holds (value : U256) : Place → FullMap E → Prop
  | .balance address, m => ∃ info, m.basic address = .ok (some info) ∧ info.balance = value
  | .slot address key, m => m.storage address key = .ok value

/-- The request is to set the place to the value. -/
inductive SurfaceCall.Sets (w : Wire) (id : SessionId) (value : U256) : Place → SurfaceCall → Prop
  | rpcBalance {params : List Value} {address : Address} (h : w.parseAddress params 0 = .ok address)
    (hvalue : w.parseU256 params 1 = .ok value) :
    Sets w id value (.balance address) (.rpc id "forkyard_setBalance" params)
  | rpcSlot {params : List Value} {address : Address} {key : StorageKey}
    (h : w.parseAddress params 0 = .ok address) (hkey : w.parseU256 params 1 = .ok key)
    (hvalue : w.parseU256 params 2 = .ok value) :
    Sets w id value (.slot address key) (.rpc id "forkyard_setStorageAt" params)
  | toolBalance {a v : String} {address : Address} (h : w.toolAddress a = .ok address)
    (hvalue : w.parseU256Hex v = .ok value) :
    Sets w id value (.balance address) (.tool (.setBalance id a v))
  | toolSlot {a k v : String} {address : Address} {key : StorageKey}
    (h : w.toolAddress a = .ok address) (hkey : w.parseU256Hex k = .ok key)
    (hvalue : w.parseU256Hex v = .ok value) :
    Sets w id value (.slot address key) (.tool (.setStorage id a k v))

/-- The request is to get what is there. -/
inductive SurfaceCall.Gets (w : Wire) (id : SessionId) : Place → SurfaceCall → Prop
  | rpcBalance {params : List Value} {address : Address}
    (h : w.parseAddress params 0 = .ok address) :
    Gets w id (.balance address) (.rpc id "eth_getBalance" params)
  | rpcSlot {params : List Value} {address : Address} {key : StorageKey}
    (h : w.parseAddress params 0 = .ok address) (hkey : w.parseU256 params 1 = .ok key) :
    Gets w id (.slot address key) (.rpc id "eth_getStorageAt" params)
  | toolBalance {a : String} {address : Address} (h : w.toolAddress a = .ok address) :
    Gets w id (.balance address) (.tool (.getBalance id a))
  | toolSlot {a k : String} {address : Address} {key : StorageKey}
    (h : w.toolAddress a = .ok address) (hkey : w.parseU256Hex k = .ok key) :
    Gets w id (.slot address key) (.tool (.getStorage id a k))

/-- The answer is a text that reads as the value; a tool's balance is one field of its text. -/
inductive SurfaceReply.Tells (w : Wire) (value : U256) : Place → SurfaceReply → Prop
  | rpc {place : Place} {s : String} (h : w.hex.parseU256HexStr s = .ok value) :
    Tells w value place (.rpc (.ok (.text s)))
  | toolBalance {address : Address} {info : AccountInfo}
    (h : w.hex.parseU256HexStr (hexText info.balance.toNat) = .ok value) :
    Tells w value (.balance address) (.tool (.ok (.text (balanceText info))))
  | toolSlot {address : Address} {key : StorageKey} {s : String}
    (h : w.hex.parseU256HexStr s = .ok value) :
    Tells w value (.slot address key) (.tool (.ok (.text s)))

section Served

variable [ToString E] {up : F → Upstream E} {evm : Evm E} {order : HashOrder}
  {stored : UInt64 → SessionState → Except String SnapshotInfo} {b : Backend F} {id : SessionId}

variable (up evm order id) in
/-- A job served, as its own session sees it. -/
theorem serve_own (b : Backend F) (job : Job F) (hid : job.sessionId = id) :
    (b.serve up evm order job).1 = (refStep up evm order job (b.sessions.lookup id)).1 ∧
      (b.serve up evm order job).2.sessions.lookup id
        = (refStep up evm order job (b.sessions.lookup id)).2 := by
  obtain ⟨hreply, sessions, hserve, hlookup⟩ := Backend.serve_spec up evm order b job
  rw [hid] at hreply
  exact ⟨hreply, by rw [hserve]; exact (hlookup id).trans (if_pos hid.symm)⟩

/-- A slot is read as its session shows it. -/
theorem serve_slot {address : Address} {key : StorageKey} {value : U256}
    (hshows : b.Shows up id (Place.Holds value (.slot address key))) :
    (b.serve up evm order (.read id (.storage address key))).1 = some (.storage (.ok value)) := by
  obtain ⟨s, hs, hholds⟩ := hshows
  simp only [Place.Holds] at hholds
  rw [(serve_own up evm order id b _ rfl).1, hs, refStep, serve_eval]
  simp only [Request.task, Task.answering, readTask, storageOf, ask, Tree.eval_map, Tree.query,
    Tree.eval, Option.map_some, FullMap.answer, hholds]
  rfl

variable (evm order) in
/-- An account is read as its session shows it. -/
theorem serve_balance (hb : b.Sound) {address : Address} {value : U256}
    (hshows : b.Shows up id (Place.Holds value (.balance address))) :
    ∃ info, (b.serve up evm order (.read id (.basic address))).1 = some (.basic (.ok (some info))) ∧
      info.balance = value := by
  obtain ⟨s, hs, info, hinfo, hvalue⟩ := hshows
  obtain ⟨s', hstep, -⟩ := refStep_basic up evm order id (hb.sessions id s hs).2 address
  refine ⟨info, ?_, hvalue⟩
  rw [(serve_own up evm order id b _ rfl).1, hs, hstep, FullMap.answer, hinfo]
  rfl

/-- A set that is answered has set. -/
theorem serve_setStorage {address : Address} {key : StorageKey} {value : U256}
    (h : (b.serve up evm order (.command (.setStorage id address key value))).1
      = some (.written (.ok ()))) :
    (b.serve up evm order (.command (.setStorage id address key value))).2.Shows up id
      (Place.Holds value (.slot address key)) := by
  obtain ⟨hreply, hslot⟩ := serve_own up evm order id b
    (.command (.setStorage id address key value)) rfl
  cases hs : b.sessions.lookup id with
  | none =>
    rw [hreply, hs] at h
    cases h
  | some s =>
    rw [hs] at hslot
    refine ⟨_, hslot, ?_⟩
    rw [Session.view_setStorage]
    exact if_pos rfl

theorem serve_setAccount {address : Address} {info : AccountInfo}
    (h : (b.serve up evm order (.command (.setAccount id address info))).1
      = some (.written (.ok ()))) :
    (b.serve up evm order (.command (.setAccount id address info))).2.Shows up id
      (Place.Holds info.balance (.balance address)) := by
  obtain ⟨hreply, hslot⟩ := serve_own up evm order id b (.command (.setAccount id address info)) rfl
  cases hs : b.sessions.lookup id with
  | none =>
    rw [hreply, hs] at h
    cases h
  | some s =>
    rw [hs] at hslot
    refine ⟨_, hslot, info, ?_, rfl⟩
    rw [Session.view_setAccount]
    exact Function.update_self _ _ _

end Served

/-! ### What requests ensure and tell -/

section Programs

variable [ToString E] {up : F → Upstream E} {evm : Evm E} {order : HashOrder}
  {stored : UInt64 → SessionState → Except String SnapshotInfo} {ε A R : Type}

theorem ensures_proceed {P : Backend F → Prop} {good : Except ε R → Prop} {e : Except ε A}
    {k : A → Program F (Except ε R)}
    (hk : ∀ a, e = .ok a → (k a).Ensures (Backend.answer up evm order stored) Backend.Sound P good) :
    (proceed e k).Ensures (Backend.answer up evm order stored) Backend.Sound P good := by
  cases e with
  | error e => exact trivial
  | ok a => exact hk a rfl

/-- A job with which a request may end well. -/
theorem ensures_request {P : Backend F → Prop} {good : Except ε R → Prop}
    (herror : ∀ e, ¬ good (.error e)) {job : { job : Job F // job.opens = false }}
    {receive : Option (Reply F) → Except ManagerError A} {tell : ManagerError → ε}
    {k : A → Program F (Except ε R)}
    (hends : ∀ b a r, receive (Backend.serve up evm order b job.1).1 = .ok a → k a = .ret r →
      P (b.serve up evm order job.1).2)
    (hk : ∀ a, (k a).Ensures (Backend.answer up evm order stored) Backend.Sound P good) :
    (request job receive tell k).Ensures (Backend.answer up evm order stored) Backend.Sound P
      good := by
  refine ⟨fun b r _ hret hgood => ?_, fun reply => ensures_proceed fun a _ => hk a⟩
  simp only [Backend.answer] at hret ⊢
  cases hreceive : receive (Backend.serve up evm order b job.1).1 with
  | error e =>
    rw [hreceive] at hret
    obtain rfl : .error (tell e) = r := Tree.ret.inj hret
    exact absurd hgood (herror _)
  | ok a =>
    rw [hreceive] at hret
    exact hends b a r hreceive hret

theorem gotWritten_ok {reply : Option (Reply F)} {u : Unit} (h : gotWritten reply = .ok u) :
    reply = some (.written (.ok ())) := by
  unfold gotWritten at h
  split at h
  · rename_i result
    cases result with
    | error e => cases h
    | ok u => rfl
  · cases h

/-- A set ensures that its session shows the value. -/
theorem setSlot_ensures (id : SessionId) (address : Address) (key : StorageKey)
    (value : StorageValue) (tell : ManagerError → ε) (r : R) :
    (request ⟨.command (.setStorage id address key value), rfl⟩ gotWritten tell
        fun _ => .ret (.ok r) : Program F (Except ε R)).Ensures (Backend.answer up evm order stored)
      Backend.Sound (Backend.Shows up id (Place.Holds value (.slot address key)))
      fun r => ¬ Failed r :=
  ensures_request (fun e h => h ⟨e, rfl⟩)
    (fun _ _ _ h _ => serve_setStorage (gotWritten_ok h)) fun _ => trivial

theorem setBalance_ensures (id : SessionId) (address : Address) (value : U256)
    (tell : ManagerError → ε) (r : R) :
    (request ⟨.read id (.basic address), rfl⟩ gotBasic tell fun info =>
      request ⟨.command (.setAccount id address { info.getD .default with balance := value }), rfl⟩
        gotWritten tell fun _ => .ret (.ok r) : Program F (Except ε R)).Ensures
      (Backend.answer up evm order stored) Backend.Sound
      (Backend.Shows up id (Place.Holds value (.balance address))) fun r => ¬ Failed r := by
  refine ensures_request (fun e h => h ⟨e, rfl⟩) (by rintro _ _ _ _ ⟨⟩) fun info => ?_
  exact ensures_request (fun e h => h ⟨e, rfl⟩)
    (fun _ _ _ h _ => serve_setAccount (gotWritten_ok h)) fun _ => trivial

theorem dispatch_handle {w : Wire} {chainId : UInt64} {id : SessionId} {params : List Value}
    {name : String} (method : RpcMethod) (h : RpcMethod.parse name = some method) :
    (w.dispatch chainId id params name : Rpc F) = w.handle chainId id params method := by
  unfold Wire.dispatch
  rw [h]

variable {w : Wire} {chainId : UInt64} {id : SessionId} {place : Place} {value : U256}

/-- SET: once it is answered, its session shows the value. -/
theorem program_ensures {call : SurfaceCall} (h : call.Sets w id value place) :
    (call.program w chainId : Program F SurfaceReply).Ensures (Backend.answer up evm order stored)
      Backend.Sound (Backend.Shows up id (place.Holds value)) fun r => ¬ r.Failed := by
  cases h with
  | rpcBalance haddress hvalue =>
    refine ensures_map SurfaceReply.rpc ?_
    rw [dispatch_handle .forkyardSetBalance rfl]
    simp only [Wire.handle, Wire.forkyardSetBalance, haddress, hvalue, proceed]
    exact setBalance_ensures _ _ _ _ _
  | rpcSlot haddress hkey hvalue =>
    refine ensures_map SurfaceReply.rpc ?_
    rw [dispatch_handle .forkyardSetStorageAt rfl]
    simp only [Wire.handle, Wire.forkyardSetStorageAt, haddress, hkey, hvalue, proceed]
    exact setSlot_ensures _ _ _ _ _ _
  | toolBalance haddress hvalue =>
    refine ensures_map SurfaceReply.tool ?_
    simp only [Wire.tool, Wire.setBalance, haddress, hvalue, proceed]
    exact setBalance_ensures _ _ _ _ _
  | toolSlot haddress hkey hvalue =>
    refine ensures_map SurfaceReply.tool ?_
    simp only [Wire.tool, Wire.setStorage, haddress, hkey, hvalue, proceed]
    exact setSlot_ensures _ _ _ _ _ _

/-- GET: where its session shows the value, it is answered in one step, and the answer tells it. -/
theorem program_tells (hhex : w.hex.Numeric) {call : SurfaceCall} (h : call.Gets w id place) :
    (call.program w chainId : Program F SurfaceReply).Tells (Backend.answer up evm order stored)
      Backend.Sound (Backend.Shows up id (place.Holds value)) (SurfaceReply.Tells w value place) := by
  cases h with
  | rpcBalance haddress =>
    refine tells_map SurfaceReply.rpc ?_
    rw [dispatch_handle .ethGetBalance rfl]
    simp only [Wire.handle, Wire.ethGetBalance, haddress, proceed]
    intro b hb hshows
    obtain ⟨info, hreply, rfl⟩ := serve_balance evm order hb hshows
    refine ⟨_, ?_, .rpc (parse_hexText hhex info.balance)⟩
    simp only [Backend.answer, hreply]
    rfl
  | rpcSlot haddress hkey =>
    refine tells_map SurfaceReply.rpc ?_
    rw [dispatch_handle .ethGetStorageAt rfl]
    simp only [Wire.handle, Wire.ethGetStorageAt, haddress, hkey, proceed]
    intro b hb hshows
    refine ⟨_, ?_, .rpc (parse_wordText hhex value)⟩
    simp only [Backend.answer, serve_slot hshows]
    rfl
  | toolBalance haddress =>
    refine tells_map SurfaceReply.tool ?_
    simp only [Wire.tool, Wire.getBalance, haddress, proceed]
    intro b hb hshows
    obtain ⟨info, hreply, rfl⟩ := serve_balance evm order hb hshows
    refine ⟨_, ?_, .toolBalance (parse_hexText hhex info.balance)⟩
    simp only [Backend.answer, hreply]
    rfl
  | toolSlot haddress hkey =>
    refine tells_map SurfaceReply.tool ?_
    simp only [Wire.tool, Wire.getStorage, haddress, hkey, proceed]
    intro b hb hshows
    refine ⟨_, ?_, .toolSlot (parse_wordText hhex value)⟩
    simp only [Backend.answer, serve_slot hshows]
    rfl

/-- READ BACK: from when a set is answered until a request that may change its session moves, or the
    session is reaped, whoever gets what was set is told it, in a text that reads as it. -/
theorem set_read_back (hhex : w.hex.Numeric) {b : Backend F} (hb : b.Sound)
    {before after : List (SurfaceEvent F)} {i j : ℕ} {set get : SurfaceCall} {r : SurfaceReply}
    (hset : (before.filterMap SurfaceEvent.made)[i]? = some set) (hsets : set.Sets w id value place)
    (hwaits : ∀ r, (surfaces up evm order stored w chainId b before).requests[i]? ≠ some (.ret r))
    (hends : (surfaces up evm order stored w chainId b (before ++ [.move i])).requests[i]?
      = some (.ret r)) (hok : ¬ r.Failed)
    (hspared : ∀ k call, .move k ∈ after → k ≠ i →
      (before.filterMap SurfaceEvent.made ++ after.filterMap SurfaceEvent.made)[k]? = some call →
        call.target ≠ some id) (hkept : .happen (.expire id) ∉ after)
    (hget : (after.filterMap SurfaceEvent.made)[j]? = some get) (hgets : get.Gets w id place)
    (hids : (surfaces up evm order stored w chainId b (before ++ .move i :: after)).store.nextId
      ≤ 2 ^ 64) :
    ∃ t, (surfaces up evm order stored w chainId b (before ++ .move i :: after)).requests[
        (before.filterMap SurfaceEvent.made).length + j]? = some t ∧
      (t = get.program w chainId ∨ ∃ r, t = .ret r ∧ r.Tells w value place) := by
  have hmove : SurfaceEvent.event w chainId (.move i : SurfaceEvent F) = .move i := rfl
  have hcalls : (before.map (SurfaceEvent.event w chainId)).filterMap CrowdEvent.made
        ++ (after.map (SurfaceEvent.event w chainId)).filterMap CrowdEvent.made
      = (before.filterMap SurfaceEvent.made ++ after.filterMap SurfaceEvent.made).map
          fun call => call.program w chainId := by
    rw [made_events, made_events, List.map_append]
  have hlength : ((before.map (SurfaceEvent.event w chainId)).filterMap CrowdEvent.made).length
      = (before.filterMap SurfaceEvent.made).length := by
    rw [made_events, List.length_map]
  simp only [surfaces, List.map_append, List.map_cons, List.map_nil, hmove] at hwaits hends hids ⊢
  rw [Crowd.run, runAll_append, runAll_cons, runAll_nil] at hends
  rw [← hlength]
  refine (ensured_read (V := Backend.Worn) worn_answer worn_happen sound_answer sound_happen hb
    (P := Backend.Shows up id (place.Holds value)) (t := set.program w chainId)
    (u := get.program w chainId) ?_ (program_ensures hsets) hwaits hends hok
    (fun hop b hspares => shows_answer hspares) (fun k t hk hki ht => ?_) (fun e b he => ?_) ?_
    (program_tells hhex hgets)).resolve_left (Nat.not_lt.mpr hids)
  · rw [hcalls, List.getElem?_map, List.getElem?_append_left (List.getElem?_eq_some_iff.mp hset).1,
      hset, Option.map_some]
  · rw [hcalls, List.getElem?_map, Option.map_eq_some_iff] at ht
    obtain ⟨call, hcall, rfl⟩ := ht
    exact program_only w chainId (hspared k call (moved_events hk) hki hcall)
  · exact shows_happen fun hexpire => hkept (hexpire ▸ happened_events he)
  · rw [made_events, List.getElem?_map, hget, Option.map_some]

end Programs

theorem numeralHex_numeric : numeralHex.Numeric := by
  intro digits n _ hread hfits
  simp only [numeralHex, String.toList_ofList, hread, if_pos hfits]

/-- A session is opened, and a slot of it is to be set. -/
def setting : List (SurfaceEvent Unit) :=
  [.call (.tool .fork), .move 0, .move 0, .move 0, .move 0, .move 0,
    .call (.rpc 0 "forkyard_setStorageAt" [addressA, .string "0x7", .string "0x2a"])]

/-- Then a tool is asked for it, while another session is looked for. -/
def getting : List (SurfaceEvent Unit) :=
  [.call (.tool (.getStorage 0 "0x000000000000000000000000000000000000000A" "0x07")),
    .call (.tool (.discard 9)), .move 3, .happen (.setFallback ()), .move 2]

theorem set_read_back_spelled :
    ∃ t, (surfaces emptyUpstream inert .some (fun _ _ => .error "no store") numeralWire 1 idleBackend
        (setting ++ .move 1 :: getting)).requests[(setting.filterMap SurfaceEvent.made).length + 0]?
          = some t ∧
      (t = SurfaceCall.program numeralWire 1
          (.tool (.getStorage 0 "0x000000000000000000000000000000000000000A" "0x07")) ∨
        ∃ r, t = .ret r ∧ r.Tells numeralWire 0x2a (.slot 0xa 7)) := by
  refine set_read_back (r := .rpc (.ok .truth)) numeralHex_numeric
    (start_sound () ⟨1, 0, 0, 30000000⟩) rfl (.rpcSlot (by rfl) (by rfl) (by rfl)) ?_ (by rfl)
    (not_failed _) ?_ (by simp [getting]) rfl (.toolSlot (by rfl) (by rfl)) (by decide)
  · rintro r ⟨⟩
  · intro k call hk hki hcall
    simp only [getting, List.mem_cons, SurfaceEvent.move.injEq, reduceCtorEq, false_or,
      List.not_mem_nil, or_false] at hk
    rcases hk with rfl | rfl
    · exact Option.some.inj hcall ▸ by decide
    · exact Option.some.inj hcall ▸ by decide

end Forkyard
