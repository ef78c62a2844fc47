import Forkyard.Engine.View
import Forkyard.Schemes.Steps

/-! What a diff means to a world state, and when a session's commit gives it that meaning. A diff
    carries, besides infos and slots, two status flags per account: a self-destructed account is
    gone after the transaction, a created one starts with empty storage. `commit` writes infos and
    slot values and looks at neither flag, so what it leaves is the meant world only where the flags
    ask for nothing that the infos, the slots and the layers below do not already give.

        session ──commit──▶ session
           │ observed           │ observed      equal  ⟺  every flagged account is Settled
           ▼                    ▼
         world ────apply────▶ world -/

namespace Forkyard

open Schemes

variable {F W E : Type}

/-- The slot a diff changed, by its key. -/
def Account.get (account : Account) (index : StorageKey) : Option EvmStorageSlot :=
  Map.lastOf account.storage index

/-- The account a diff changed, by its address. -/
def EvmState.get (changes : EvmState) (address : Address) : Option Account :=
  Map.lastOf changes.accounts address

/-- What can be told about one account. -/
structure AccountView (E : Type) where
  balance : U256
  nonce : UInt64
  codeHash : B256
  code : Except (SessionDbError E) Bytes

/-- Zero nonce and balance, no code. -/
def AccountView.empty : AccountView E := ⟨0, 0, keccakEmpty, .ok []⟩

/-- A world state: everything a reader of a session can observe. -/
@[ext] structure World (E : Type) where
  account : Address → Except (SessionDbError E) (AccountView E)
  slot : Address → StorageKey → Except (SessionDbError E) StorageValue
  code : B256 → Except (SessionDbError E) Bytecode
  blockHash : UInt64 → Except (SessionDbError E) B256

namespace World

/-- An account's code: the inline copy, nothing for the empty hash, else what the hash stands
    for. -/
def codeOf (code : B256 → Except (SessionDbError E) Bytecode) (info : AccountInfo) :
    Except (SessionDbError E) Bytes :=
  match info.code with
  | some code => .ok code.originalBytes
  | none => if info.codeHash = keccakEmpty then .ok [] else (code info.codeHash).map (·.originalBytes)

def viewOf (code : B256 → Except (SessionDbError E) Bytecode) (info : AccountInfo) :
    AccountView E :=
  ⟨info.balance, info.nonce, info.codeHash, codeOf code info⟩

/-- The world behind the answers of a `Database`; an absent account reads as the default one. -/
def observed (reads : (q : Query) → Answer E q) : World E where
  account address := (reads (.basic address)).map fun info =>
    viewOf (fun codeHash => reads (.codeByHash codeHash)) (info.getD .default)
  slot address index := reads (.storage address index)
  code codeHash := reads (.codeByHash codeHash)
  blockHash number := reads (.blockHash number)

/-- The full meaning of a diff, status flags included. -/
def apply (world : World E) (changes : EvmState) : World E where
  account address := match changes.get address with
    | none => world.account address
    | some account =>
      if account.selfdestructed then .ok .empty else .ok (viewOf world.code account.info)
  slot address index := match changes.get address with
    | none => world.slot address index
    | some account =>
      if account.selfdestructed then .ok 0
      else match account.get index with
        | some slot => .ok slot.presentValue
        | none => if account.created then .ok 0 else world.slot address index
  code := world.code
  blockHash := world.blockHash

/-- What a diff's flags ask of one account is already so: a destroyed account is written empty, and
    whatever slot of a destroyed or created account the diff is silent about reads zero. -/
structure Settled (world : World E) (address : Address) (account : Account) : Prop where
  destroyed : account.selfdestructed = true → viewOf world.code account.info = .empty ∧
    ∀ index slot, account.get index = some slot → slot.presentValue = 0
  fresh : account.selfdestructed = true ∨ account.created = true →
    ∀ index, account.get index = none → world.slot address index = .ok 0

/-- Every account of the diff is settled. -/
def AllSettled (world : World E) (changes : EvmState) : Prop :=
  ∀ address account, changes.get address = some account → Settled world address account

end World

/-! ### What a commit leaves behind -/

namespace FullMap

variable (m : FullMap E)

/-- Writing the slots of one account, one after another. -/
def commitSlots (m : FullMap E) (address : Address) (slots : List (StorageKey × EvmStorageSlot)) :
    FullMap E :=
  slots.foldl (fun m slot => setStorage m address slot.1 slot.2.presentValue) m

theorem commitSlots_storage (address : Address) : ∀ (slots : List (StorageKey × EvmStorageSlot))
    (m : FullMap E) (a : Address) (i : StorageKey),
    (m.commitSlots address slots).storage a i = match Map.lastOf slots i with
      | some slot => if a = address then .ok slot.presentValue else m.storage a i
      | none => m.storage a i
  | [], _, _, _ => rfl
  | slot :: slots, m, a, i => by
    have hrec := commitSlots_storage address slots (m.setStorage address slot.1 slot.2.presentValue)
      a i
    simp only [commitSlots, List.foldl_cons] at hrec ⊢
    rw [hrec, Map.lastOf]
    cases Map.lastOf slots i with
    | some last => by_cases ha : a = address <;> simp [setStorage, ha]
    | none => by_cases ha : a = address <;> by_cases hi : i = slot.1 <;> simp [setStorage, ha, hi]

theorem commitSlots_rest (address : Address) (slots : List (StorageKey × EvmStorageSlot)) :
    ∀ m : FullMap E, (m.commitSlots address slots).basic = m.basic ∧
      (m.commitSlots address slots).codeByHash = m.codeByHash ∧
      (m.commitSlots address slots).blockHash = m.blockHash := by
  induction slots with
  | nil => intro m; exact ⟨rfl, rfl, rfl⟩
  | cons slot slots ih => intro m; exact ih (m.setStorage address slot.1 slot.2.presentValue)

/-- A commit never touches code or block hashes. -/
theorem commit_rest (changes : EvmState) : (m.commit changes).codeByHash = m.codeByHash ∧
    (m.commit changes).blockHash = m.blockHash := by
  obtain ⟨accounts, hnodup⟩ := changes
  simp only [commit]
  clear hnodup
  induction accounts generalizing m with
  | nil => exact ⟨rfl, rfl⟩
  | cons change rest ih =>
    obtain ⟨-, hcode, hblock⟩ := commitSlots_rest change.1 change.2.storage m
    obtain ⟨hcode', hblock'⟩ := ih ((m.commitSlots change.1 change.2.storage).setAccount change.1
      change.2.info)
    exact ⟨hcode'.trans hcode, hblock'.trans hblock⟩

theorem commit_basic (changes : EvmState) (address : Address) :
    (m.commit changes).basic address = match changes.get address with
      | some account => .ok (some account.info)
      | none => m.basic address := by
  obtain ⟨accounts, hnodup⟩ := changes
  simp only [commit, EvmState.get]
  clear hnodup
  induction accounts generalizing m with
  | nil => rfl
  | cons change rest ih =>
    obtain ⟨hbasic, -, -⟩ := commitSlots_rest change.1 change.2.storage m
    rw [List.foldl_cons, ih, Map.lastOf]
    cases Map.lastOf rest address with
    | some account => rw [Option.some_or]
    | none =>
      rw [Option.none_or]
      by_cases ha : address = change.1
      · rw [if_pos ha, ha]
        exact Function.update_self ..
      · rw [if_neg ha]
        exact (Function.update_of_ne ha _ _).trans (congrFun hbasic address)

/-- Each address stands in a diff once, so nothing overwrites the slots its account wrote. -/
theorem commit_storage (changes : EvmState) (address : Address) (index : StorageKey) :
    (m.commit changes).storage address index = match changes.get address with
      | some account => match account.get index with
        | some slot => .ok slot.presentValue
        | none => m.storage address index
      | none => m.storage address index := by
  obtain ⟨accounts, hnodup⟩ := changes
  simp only [commit, EvmState.get, Account.get]
  induction accounts generalizing m with
  | nil => rfl
  | cons change rest ih =>
    rw [List.map_cons, List.nodup_cons] at hnodup
    have hslots := commitSlots_storage change.1 change.2.storage m address index
    rw [List.foldl_cons, ih _ hnodup.2, Map.lastOf]
    by_cases ha : address = change.1
    · have hlast : Map.lastOf rest address = none := Map.lastOf_none (ha ▸ hnodup.1)
      rw [hlast, Option.none_or, if_pos ha]
      simp only [setAccount]
      refine Eq.trans hslots ?_
      cases Map.lastOf change.2.storage index <;> simp [ha]
    · have hsame : (m.commitSlots change.1 change.2.storage).storage address index
          = m.storage address index := by
        rw [hslots]
        cases Map.lastOf change.2.storage index <;> simp [ha]
      rw [if_neg ha, Option.or_none]
      simp only [setAccount]
      cases Map.lastOf rest address with
      | none => exact hsame
      | some account =>
        simp only
        cases Map.lastOf account.storage index with
        | none => exact hsame
        | some slot => rfl

end FullMap

/-! ### The meaning of a commit -/

namespace World

theorem observed_commit_account (m : FullMap E) (changes : EvmState) (address : Address) :
    (observed (m.commit changes).answer).account address = match changes.get address with
      | some account => .ok (viewOf (observed m.answer).code account.info)
      | none => (observed m.answer).account address := by
  simp only [observed, FullMap.answer, FullMap.commit_basic, (FullMap.commit_rest m changes).1]
  cases changes.get address <;> rfl

theorem observed_commit_slot (m : FullMap E) (changes : EvmState) (address : Address)
    (index : StorageKey) :
    (observed (m.commit changes).answer).slot address index = match changes.get address with
      | some account => match account.get index with
        | some slot => .ok slot.presentValue
        | none => (observed m.answer).slot address index
      | none => (observed m.answer).slot address index := by
  simp only [observed, FullMap.answer, FullMap.commit_storage]
  cases changes.get address with
  | none => rfl
  | some account => cases hslot : account.get index <;> simp [hslot, Except.toOption]

/-- A commit gives its diff the meant world exactly where the flags ask for nothing more. -/
theorem commit_observed_iff (m : FullMap E) (changes : EvmState) :
    observed (m.commit changes).answer = (observed m.answer).apply changes ↔
      AllSettled (observed m.answer) changes := by
  constructor
  · intro h address account hget
    have haccount := congrFun (congrArg World.account h) address
    have hslot := fun index => congrFun (congrFun (congrArg World.slot h) address) index
    simp only [observed_commit_account, observed_commit_slot, apply, hget] at haccount hslot
    refine ⟨fun hd => ?_, fun hf index hnone => ?_⟩
    · rw [if_pos hd] at haccount
      refine ⟨Except.ok.inj haccount, fun index slot hs => ?_⟩
      have hzero := hslot index
      rw [hs, if_pos hd] at hzero
      exact Except.ok.inj hzero
    · have hzero := hslot index
      rw [hnone] at hzero
      rcases hf with hd | hc
      · rwa [if_pos hd] at hzero
      · simpa [hc] using hzero
  · intro hall
    ext1
    · funext address
      rw [observed_commit_account]
      simp only [apply]
      cases hget : changes.get address with
      | none => rfl
      | some account =>
        by_cases hd : account.selfdestructed = true
        · simp only [if_pos hd, ((hall address account hget).destroyed hd).1]
        · simp only [if_neg hd]
    · funext address index
      rw [observed_commit_slot]
      simp only [apply]
      cases hget : changes.get address with
      | none => rfl
      | some account =>
        have hset := hall address account hget
        cases hslot : account.get index with
        | some slot =>
          by_cases hd : account.selfdestructed = true
          · simp only [hslot, if_pos hd, (hset.destroyed hd).2 index slot hslot]
          · simp only [hslot, if_neg hd]
        | none =>
          by_cases hd : account.selfdestructed = true
          · simp only [hslot, if_pos hd, hset.fresh (.inl hd) index hslot]
          · by_cases hc : account.created = true
            · simp only [hslot, if_neg hd, if_pos hc, hset.fresh (.inr hc) index hslot]
            · simp only [hslot, if_neg hd, if_neg hc]
    · simp only [observed, apply, FullMap.answer, (FullMap.commit_rest m changes).1]
    · simp only [observed, apply, FullMap.answer, (FullMap.commit_rest m changes).2]

end World

/-! ### Whole histories -/

/-- What happens to one session: a read, or the commit of an advance. -/
inductive Move where
  | read (q : Query)
  | commit (changes : EvmState)

/-- One move on the session. -/
def Session.move (db : DatabaseRef F W E) : Session F × W → Move → Session F × W
  | sw, .read q => (answer db q sw).2
  | (s, w), .commit changes => (s.commit changes, w)

/-- One move on the reference world: a read changes nothing. -/
def World.after (world : World E) : Move → World E
  | .read _ => world
  | .commit changes => world.apply changes

/-- The world a session shows its readers. -/
def Session.world (db : DatabaseRef F W E) (sw : Session F × W) : World E :=
  .observed (reads db sw.1 sw.2)

section History

variable {up : F → Upstream E} {db : DatabaseRef F W E} {I : W → Prop}

theorem move_keeps (hdb : Session.Faithful db up I) (move : Move) (sw : Session F × W)
    (hw : I sw.2) : I (Session.move db sw move).2 := by
  cases move with
  | read q => exact (Session.answer_faithful hdb q sw.1 sw.2 hw).2.2
  | commit changes => exact hw

theorem moves_keep (hdb : Session.Faithful db up I) (moves : List Move) (sw : Session F × W)
    (hw : I sw.2) : I (moves.foldl (Session.move db) sw).2 :=
  runAll_inv (P := fun sw : Session F × W => I sw.2) (fun sw move hw => move_keeps hdb move sw hw) sw
    moves hw

theorem world_view (hdb : Session.Faithful db up I) {sw : Session F × W} (hw : I sw.2) :
    Session.world db sw = .observed (sw.1.view up).answer := by
  rw [Session.world, Session.reads_view hdb sw.1 hw]

/-- A read is never visible in the world. -/
theorem world_read (hdb : Session.Faithful db up I) (q : Query) {sw : Session F × W}
    (hw : I sw.2) : Session.world db (Session.move db sw (.read q)) = Session.world db sw := by
  obtain ⟨-, hsame, -⟩ := Session.answer_faithful hdb q sw.1 sw.2 hw
  have hview : (Session.move db sw (.read q)).1.view up = sw.1.view up := by
    rw [← (Session.answer_view up q sw.1).2, ← hsame]
    rfl
  rw [world_view hdb hw, world_view hdb (move_keeps hdb (.read q) sw hw), hview]

/-- One commit gives its diff the meant world iff every flagged account is settled before it. -/
theorem world_commit_iff (hdb : Session.Faithful db up I) (changes : EvmState)
    {sw : Session F × W} (hw : I sw.2) :
    Session.world db (Session.move db sw (.commit changes)) = (Session.world db sw).apply changes ↔
      (Session.world db sw).AllSettled changes := by
  rw [world_view hdb hw, world_view hdb (move_keeps hdb (.commit changes) sw hw)]
  exact (Session.view_commit up sw.1 changes) ▸ World.commit_observed_iff (sw.1.view up) changes

/-- EXACT: a history of reads and commits shows, at each of its moments, the world its diffs mean
    iff each commit met only settled accounts. -/
theorem history_meant_iff (hdb : Session.Faithful db up I) (s : Session F) {w : W} (hw : I w)
    (moves : List Move) :
    (∀ done rest, moves = done ++ rest →
      Session.world db (done.foldl (Session.move db) (s, w))
        = done.foldl World.after (Session.world db (s, w))) ↔
    ∀ done changes rest, moves = done ++ .commit changes :: rest →
      (Session.world db (done.foldl (Session.move db) (s, w))).AllSettled changes := by
  constructor
  · intro hmeant done changes rest hmoves
    have hnow := hmeant done (.commit changes :: rest) hmoves
    have hnext := hmeant (done ++ [.commit changes]) rest (by rw [hmoves, List.append_assoc]; rfl)
    rw [List.foldl_append, List.foldl_append, ← hnow] at hnext
    exact (world_commit_iff hdb changes (moves_keep hdb done (s, w) hw)).mp hnext
  · intro hsettled done
    induction done using List.reverseRecOn with
    | nil => intro rest _; rfl
    | append_singleton done move ih =>
      intro rest hmoves
      rw [List.append_assoc] at hmoves
      have hnow := ih (move :: rest) hmoves
      have hkept := moves_keep hdb done (s, w) hw
      rw [List.foldl_append, List.foldl_append, ← hnow]
      cases move with
      | read q => exact world_read hdb q hkept
      | commit changes =>
        exact (world_commit_iff hdb changes hkept).mpr (hsettled done changes rest hmoves)

end History

/-- A contract that was created and destroyed in one transaction: its nonce is still one. -/
def ghostDiff : EvmState where
  accounts := [(0x60, ⟨⟨0, 1, keccakEmpty, none⟩, [], true, true, by decide⟩)]
  nodup := by decide

/-- The account is paid, and nothing more becomes of it. -/
def paidDiff : EvmState where
  accounts := [(0x60, ⟨⟨5, 0, keccakEmpty, none⟩, [], false, false, by decide⟩)]
  nodup := by decide

/-- Paid, read and created to be destroyed at once: all is as it is meant before that, not after. -/
theorem history_meant_iff_ghost :
    (∀ done rest, [Move.commit paidDiff, .read (.basic 0x60)] = done ++ rest →
      Session.world vacantDb (done.foldl (Session.move vacantDb) (freshSession, ()))
        = done.foldl World.after (Session.world vacantDb (freshSession, ()))) ∧
    ¬ ∀ done rest, [Move.commit paidDiff, .read (.basic 0x60), .commit ghostDiff] = done ++ rest →
      Session.world vacantDb (done.foldl (Session.move vacantDb) (freshSession, ()))
        = done.foldl World.after (Session.world vacantDb (freshSession, ())) := by
  constructor
  · refine (history_meant_iff vacant_faithful freshSession trivial _).mpr
      fun done changes rest hmoves address account hget => ?_
    have hmem : Move.commit changes ∈ [Move.commit paidDiff, .read (.basic 0x60)] := by
      rw [hmoves]
      exact List.mem_append_right done List.mem_cons_self
    obtain rfl : changes = paidDiff := by simpa using hmem
    have hpaid := List.mem_singleton.mp (Map.mem_of_lastOf hget)
    rw [(Prod.mk.inj hpaid).2]
    exact ⟨nofun, nofun⟩
  · intro hmeant
    have hsettled := (history_meant_iff vacant_faithful freshSession trivial _).mp hmeant
      [.commit paidDiff, .read (.basic 0x60)] ghostDiff [] rfl 0x60 _ rfl
    exact absurd (congrArg AccountView.nonce (hsettled.destroyed rfl).1) (by decide)

/-- The destroyed contract of `ghostDiff` still reads with its nonce. -/
theorem ghost_survives :
    (Session.world vacantDb (Session.move vacantDb (freshSession, ()) (.commit ghostDiff))).account
        0x60
      ≠ ((Session.world vacantDb (freshSession, ())).apply ghostDiff).account 0x60 := by
  intro h
  have hnonce := congrArg (fun r => r.toOption.map AccountView.nonce) h
  revert hnonce
  decide

end Forkyard
