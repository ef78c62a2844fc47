import Forkyard.Engine.Primitives

/-! One forked session: a shared immutable base, a private overlay for what it writes and for what
    it reads through its fallback, and the fallback itself. A read looks in that order; a write only
    ever touches the overlay. `branch` folds the overlay into a fresh base for the child and keeps
    what it folded in `inherited`; `restore` lays a saved state over a base.

        read:  overlay ──miss──▶ base ──miss──▶ fallback ──answer──▶ cached in the overlay
        write: overlay -/

namespace Forkyard

open Schemes

/-- The shared, immutable working-set cache of one block. -/
structure BaseSnapshot where
  accounts : Map Address AccountInfo
  code : Map B256 Bytecode
  storage : Map (Address × StorageKey) StorageValue
  blockHashes : Map UInt64 B256

namespace BaseSnapshot

def empty : BaseSnapshot := ⟨∅, ∅, ∅, ∅⟩

/-- A snapshot built from state that did not come from a session. -/
def fromParts (accounts : List (Address × AccountInfo)) (code : List (B256 × Bytecode))
    (storage : List ((Address × StorageKey) × StorageValue)) (blockHashes : List (UInt64 × B256)) :
    BaseSnapshot :=
  ⟨Map.extend ∅ accounts, Map.extend ∅ code, Map.extend ∅ storage, Map.extend ∅ blockHashes⟩

/-- This snapshot with `newer` laid over it, `newer` winning ties. -/
def mergedWith (self newer : BaseSnapshot) : BaseSnapshot :=
  ⟨newer.accounts ∪ self.accounts, newer.code ∪ self.code, newer.storage ∪ self.storage,
    newer.blockHashes ∪ self.blockHashes⟩

end BaseSnapshot

/-- A key the overlay gained from a fallback read, not a write. -/
inductive ReadKey where
  | account (address : Address)
  | code (codeHash : B256)
  | storage (address : Address) (index : StorageKey)
  deriving DecidableEq

/-- Every entry `branch` has folded into `base` since the shared base this lineage started from. -/
structure Inherited where
  accounts : Map Address AccountInfo
  code : Map B256 Bytecode
  storage : Map (Address × StorageKey) StorageValue

def Inherited.empty : Inherited := ⟨∅, ∅, ∅⟩

/-- Everything a session holds that the shared base does not. -/
structure SessionState where
  accounts : List (Address × AccountInfo)
  code : List (B256 × Bytecode)
  storage : List ((Address × StorageKey) × StorageValue)
  deriving DecidableEq

structure Session (F : Type) where
  base : BaseSnapshot
  fallback : F
  blockEnv : BlockEnv
  overlayAccounts : Map Address AccountInfo
  overlayCode : Map B256 Bytecode
  overlayStorage : Map (Address × StorageKey) StorageValue
  inherited : Inherited
  /-- `some` during a speculative pass: every key cached from the fallback since it began. -/
  readLog : Option (List ReadKey)

namespace Session

variable {F W E : Type}

/-! ### Opening a session -/

def fork (base : BaseSnapshot) (fallback : F) (blockEnv : BlockEnv) : Session F where
  base := base
  fallback := fallback
  blockEnv := blockEnv
  overlayAccounts := ∅
  overlayCode := ∅
  overlayStorage := ∅
  inherited := .empty
  readLog := none

/-- `fork`, then lay `state` over it. -/
def restore (base : BaseSnapshot) (fallback : F) (blockEnv : BlockEnv) (state : SessionState) :
    Session F :=
  let s := fork base fallback blockEnv
  { s with
    overlayAccounts := s.overlayAccounts.extend state.accounts
    overlayCode := s.overlayCode.extend state.code
    overlayStorage := s.overlayStorage.extend state.storage }

/-- Where a code map has no entry yet for an account's code, take it from the account itself or from
    `base`. -/
def gatherCode (base : BaseSnapshot) (code : Map B256 Bytecode) (info : AccountInfo) :
    Map B256 Bytecode :=
  if info.codeHash = keccakEmpty ∨ (code.lookup info.codeHash).isSome then code
  else
    match info.code.or (base.code.lookup info.codeHash) with
    | some bytecode => code.insert info.codeHash bytecode
    | none => code

/-- Everything the session holds that its shared base does not, its overlay over what it inherited,
    in the order of the keys. -/
def state (order : HashOrder) (s : Session F) : SessionState :=
  let accounts := s.overlayAccounts ∪ s.inherited.accounts
  let code := (order.entries accounts).foldl (fun code kv => gatherCode s.base code kv.2)
    (s.overlayCode ∪ s.inherited.code)
  let storage := s.overlayStorage ∪ s.inherited.storage
  { accounts := (order.entries accounts).insertionSort fun x y => x.1.toNat ≤ y.1.toNat
    code := (order.entries code).insertionSort fun x y => x.1.toNat ≤ y.1.toNat
    storage := (order.entries storage).insertionSort fun x y =>
      toLex (x.1.1.toNat, x.1.2.toNat) ≤ toLex (y.1.1.toNat, y.1.2.toNat) }

/-- A new session off this one's current state: base and overlay folded into a fresh base. -/
def branch (s : Session F) : Session F where
  base :=
    { accounts := s.overlayAccounts ∪ s.base.accounts
      code := s.overlayCode ∪ s.base.code
      storage := s.overlayStorage ∪ s.base.storage
      blockHashes := s.base.blockHashes }
  fallback := s.fallback
  blockEnv := s.blockEnv
  overlayAccounts := ∅
  overlayCode := ∅
  overlayStorage := ∅
  inherited :=
    { accounts := s.overlayAccounts ∪ s.inherited.accounts
      code := s.overlayCode ∪ s.inherited.code
      storage := s.overlayStorage ∪ s.inherited.storage }
  readLog := none

/-! ### Speculation -/

/-- Start logging what this session caches from its fallback. -/
def beginSpeculation (s : Session F) : Session F := { s with readLog := some [] }

/-- Remove one cached read again. -/
def forget (s : Session F) : ReadKey → Session F
  | .account address => { s with overlayAccounts := s.overlayAccounts.erase address }
  | .code codeHash => { s with overlayCode := s.overlayCode.erase codeHash }
  | .storage address index =>
    { s with overlayStorage := s.overlayStorage.erase (address, index) }

/-- Stop logging; with `keep` false, forget every fallback read cached since it began. -/
def endSpeculation (s : Session F) (keep : Bool) : Session F :=
  match s.readLog with
  | none => s
  | some log =>
    let s := { s with readLog := none }
    if keep then s else log.foldl forget s

def logRead (s : Session F) (key : ReadKey) : Session F :=
  { s with readLog := s.readLog.map (· ++ [key]) }

/-! ### Writes -/

/-- Override an account in this session's private overlay. -/
def setAccount (s : Session F) (address : Address) (info : AccountInfo) : Session F :=
  { s with overlayAccounts := s.overlayAccounts.insert address info }

/-- Override a single storage slot in this session's private overlay. -/
def setStorage (s : Session F) (address : Address) (key : StorageKey) (value : StorageValue) :
    Session F :=
  { s with overlayStorage := s.overlayStorage.insert (address, key) value }

/-- Write one account of a diff: its slots, then its info. -/
def commitAccount (s : Session F) (change : Address × Account) : Session F :=
  (change.2.storage.foldl (fun s slot => s.setStorage change.1 slot.1 slot.2.presentValue)
    s).setAccount change.1 change.2.info

/-- `DatabaseCommit::commit`: write an execution's diff into the overlay. -/
def commit (s : Session F) (changes : EvmState) : Session F :=
  changes.accounts.foldl commitAccount s

/-! ### The revm `Database` -/

def basic (db : DatabaseRef F W E) (address : Address) :
    Session F × W → Except (SessionDbError E) (Option AccountInfo) × (Session F × W)
  | (s, w) =>
    match s.overlayAccounts.lookup address with
    | some info => (.ok (some info), s, w)
    | none =>
      match s.base.accounts.lookup address with
      | some info => (.ok (some info), s, w)
      | none =>
        match db.basicRef s.fallback address w with
        | (.error e, w) => (.error (.fallback e), s, w)
        | (.ok none, w) => (.ok none, s, w)
        | (.ok (some info), w) =>
          (.ok (some info), (s.setAccount address info).logRead (.account address), w)

def codeByHash (db : DatabaseRef F W E) (codeHash : B256) :
    Session F × W → Except (SessionDbError E) Bytecode × (Session F × W)
  | (s, w) =>
    match s.overlayCode.lookup codeHash with
    | some code => (.ok code, s, w)
    | none =>
      match s.base.code.lookup codeHash with
      | some code => (.ok code, s, w)
      | none =>
        match db.codeByHashRef s.fallback codeHash w with
        | (.ok code, w) =>
          (.ok code,
            { s with overlayCode := s.overlayCode.insert codeHash code }.logRead (.code codeHash), w)
        -- whatever went wrong below, the caller is told the code is missing
        | (.error _, w) => (.error (.codeMiss codeHash), s, w)

def storage (db : DatabaseRef F W E) (address : Address) (index : StorageKey) :
    Session F × W → Except (SessionDbError E) StorageValue × (Session F × W)
  | (s, w) =>
    match s.overlayStorage.lookup (address, index) with
    | some value => (.ok value, s, w)
    | none =>
      match s.base.storage.lookup (address, index) with
      | some value => (.ok value, s, w)
      | none =>
        match db.storageRef s.fallback address index w with
        | (.ok value, w) =>
          (.ok value, (s.setStorage address index value).logRead (.storage address index), w)
        -- no fallback, an empty slot and an upstream failure all read as zero here
        | (.error _, w) => (.ok 0, s, w)

/-- Block hashes are never cached in the overlay. -/
def blockHash (db : DatabaseRef F W E) (number : UInt64) :
    Session F × W → Except (SessionDbError E) B256 × (Session F × W)
  | (s, w) =>
    match s.base.blockHashes.lookup number with
    | some hash => (.ok hash, s, w)
    | none =>
      match db.blockHashRef s.fallback number w with
      | (.ok hash, w) => (.ok hash, s, w)
      | (.error e, w) => (.error (.fallback e), s, w)

/-- `Database for Session`: the four reads as one handler. -/
def answer (db : DatabaseRef F W E) : Handler Query (Answer E) (Session F × W)
  | .basic address, sw => basic db address sw
  | .codeByHash codeHash, sw => codeByHash db codeHash sw
  | .storage address index, sw => storage db address index sw
  | .blockHash number, sw => blockHash db number sw

end Session

end Forkyard
