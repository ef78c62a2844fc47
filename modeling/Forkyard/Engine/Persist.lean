import Forkyard.Engine.Session

/-! The two files on disk: a fork cache, keyed by chain and block, and a session snapshot, named by
    the hash of its own bytes. Both describe themselves, and a load refuses a file that describes
    something else. Code travels apart from the accounts that carry it, by hash, as its original
    bytes; a load analyzes it again and attaches it inline.

        store:  snapshot ──▶ file record ──serde──▶ bytes ──▶ path
        load:   path ──▶ bytes ──serde──▶ file record ──checks──▶ snapshot -/

namespace Forkyard

open Schemes

abbrev Path := List String

/-- The files, and where the file system refuses an access, with its error. -/
structure Disk where
  files : Path → Option Bytes
  refuses : Path → Option String

def emptyDisk : Disk := ⟨fun _ => none, fun _ => none⟩

def CACHE_FORMAT : String := "forkyard-fork-cache"

def CACHE_FORMAT_VERSION : UInt32 := 1

def SNAPSHOT_FORMAT : String := "forkyard-session-snapshot"

def SNAPSHOT_FORMAT_VERSION : UInt32 := 1

def SNAPSHOT_ID_LEN : ℕ := 32

/-- The chain and block a cache file holds. -/
structure CacheKey where
  chainId : UInt64
  blockNumber : UInt64
  deriving DecidableEq

inductive CacheError where
  | missing (path : Path)
  | io (path : Path) (error : String)
  | malformed (path : Path) (reason : String)
  | notAForkyardCache (path : Path) (found : Option String)
  | versionMismatch (path : Path) (found : Option UInt32) (expected : UInt32)
  | keyMismatch (path : Path) (expected : CacheKey) (foundChainId foundBlockNumber : Option UInt64)
  | invalidSnapshotId (id : String)
  deriving DecidableEq

/-! ### The records in the files -/

structure StoredAccount where
  address : Address
  balance : U256
  nonce : UInt64
  codeHash : B256
  deriving DecidableEq

structure StoredCode where
  hash : B256
  bytes : Bytes
  deriving DecidableEq

structure StoredBlockEnv where
  number : UInt64
  timestamp : U256
  basefee : UInt64
  gasLimit : UInt64
  deriving DecidableEq

/-- `u64::try_from`. -/
def tryU64 (n : U256) : Option UInt64 := if n.toNat < 2 ^ 64 then some (.ofNat n.toNat) else none

def StoredBlockEnv.fromEnv (env : BlockEnv) : Option StoredBlockEnv :=
  (tryU64 env.number).map fun number => ⟨number, env.timestamp, env.basefee, env.gasLimit⟩

def StoredBlockEnv.toEnv (env : StoredBlockEnv) : BlockEnv :=
  ⟨.ofNat 256 env.number.toNat, env.timestamp, env.basefee, env.gasLimit⟩

structure CacheFile where
  format : Option String
  version : Option UInt32
  chainId : Option UInt64
  blockNumber : Option UInt64
  accounts : List StoredAccount
  code : List StoredCode
  storage : List (Address × StorageKey × StorageValue)
  blockHashes : List (UInt64 × B256)
  blockEnv : Option StoredBlockEnv
  deriving DecidableEq

structure SnapshotFile where
  format : Option String
  version : Option UInt32
  chainId : Option UInt64
  blockNumber : Option UInt64
  accounts : List StoredAccount
  code : List StoredCode
  storage : List (Address × StorageKey × StorageValue)
  deriving DecidableEq

/-- serde_json for one kind of file. -/
structure Json (File : Type) where
  toVec : File → Except String Bytes
  fromSlice : Bytes → Except String File
  /-- What was written parses back to what was encoded. -/
  faithful : ∀ {file bytes}, toVec file = .ok bytes → fromSlice bytes = .ok file

/-- serde_json as far as one file is concerned. -/
def Json.only {File : Type} [DecidableEq File] (file : File) (bytes : Bytes) : Json File where
  toVec other := if other = file then .ok bytes else .error "another file"
  fromSlice other := if other = bytes then .ok file else .error "another text"
  faithful {other written} h := by
    by_cases hfile : other = file
    · rw [if_pos hfile] at h
      rw [if_pos (Except.ok.inj h).symm, hfile]
    · rw [if_neg hfile] at h
      cases h

/-- revm's analysis of raw code. -/
structure RawCode where
  newRawChecked : Bytes → Except String Bytecode
  /-- The analysis keeps the bytes it was given. -/
  faithful : ∀ {bytes code}, newRawChecked bytes = .ok code → code.originalBytes = bytes

/-- `Bytecode::hash_slow`. -/
def Bytecode.hashSlow (keccak256 : Bytes → B256) (code : Bytecode) : B256 :=
  if code.originalBytes = [] then keccakEmpty else keccak256 code.originalBytes

/-! ### Between the records and the engine's values -/

def storedAccount (address : Address) (info : AccountInfo) : StoredAccount :=
  ⟨address, info.balance, info.nonce, info.codeHash⟩

def storedCode (entry : B256 × Bytecode) : StoredCode := ⟨entry.1, entry.2.originalBytes⟩

/-- Rebuild analyzed bytecode, refusing the whole file on the first blob that doesn't decode. -/
def decodeCode (raw : RawCode) (path : Path) : List StoredCode →
    Except CacheError (List (B256 × Bytecode))
  | [] => .ok []
  | entry :: stored =>
    match raw.newRawChecked entry.bytes with
    | .error e => .error (.malformed path s!"code 0x{entry.hash.toHex}: {e}")
    | .ok bytecode => (decodeCode raw path stored).map ((entry.hash, bytecode) :: ·)

/-- Re-attach each account's code inline. -/
def attachCode (accounts : List StoredAccount) (code : List (B256 × Bytecode)) :
    List (Address × AccountInfo) :=
  let byHash : Map B256 Bytecode := Map.extend ∅ code
  accounts.map fun a => (a.address, ⟨a.balance, a.nonce, a.codeHash, byHash.lookup a.codeHash⟩)

/-- Temp file, fsync, rename: the whole new file or no change. -/
def writeAtomically (disk : Disk) (path : Path) (bytes : Bytes) : Except CacheError Disk :=
  match disk.refuses path with
  | some e => .error (.io path e)
  | none => .ok { disk with files := Function.update disk.files path (some bytes) }

theorem writeAtomically_ok {disk disk' : Disk} {path : Path} {bytes : Bytes}
    (h : writeAtomically disk path bytes = .ok disk') :
    disk.refuses path = none ∧ disk'.refuses = disk.refuses ∧
      disk'.files = Function.update disk.files path (some bytes) := by
  unfold writeAtomically at h
  split at h
  · cases h
  rename_i hpath
  obtain rfl := Except.ok.inj h
  exact ⟨hpath, rfl, rfl⟩

/-- `fs::read`, with a file that isn't there told apart. -/
def readFile (disk : Disk) (path : Path) : Except CacheError Bytes :=
  match disk.refuses path with
  | some e => .error (.io path e)
  | none =>
    match disk.files path with
    | none => .error (.missing path)
    | some bytes => .ok bytes

theorem readFile_ok {disk : Disk} {path : Path} {bytes : Bytes}
    (h : readFile disk path = .ok bytes) : disk.files path = some bytes := by
  unfold readFile at h
  split at h
  · cases h
  split at h
  · cases h
  rename_i hfile
  rw [hfile, Except.ok.inj h]

/-! ### The fork cache -/

/-- A directory of cache files, one per (chain id, block number). -/
structure ForkCache where
  dir : Path

namespace ForkCache

def pathFor (cache : ForkCache) (key : CacheKey) : Path :=
  cache.dir ++ [toString key.chainId, s!"{key.blockNumber}.json"]

/-- The file `storeInner` writes. -/
def encode (order : HashOrder) (key : CacheKey) (snapshot : BaseSnapshot)
    (blockEnv : Option StoredBlockEnv) : CacheFile where
  format := some CACHE_FORMAT
  version := some CACHE_FORMAT_VERSION
  chainId := some key.chainId
  blockNumber := some key.blockNumber
  accounts := (order.entries snapshot.accounts).map fun kv => storedAccount kv.1 kv.2
  code := (order.entries snapshot.code).map storedCode
  storage := (order.entries snapshot.storage).map fun kv => (kv.1.1, kv.1.2, kv.2)
  blockHashes := order.entries snapshot.blockHashes
  blockEnv := blockEnv.filter fun env => env.number = key.blockNumber

def storeInner (order : HashOrder) (json : Json CacheFile) (cache : ForkCache) (key : CacheKey)
    (snapshot : BaseSnapshot) (blockEnv : Option StoredBlockEnv) (disk : Disk) :
    Except CacheError Disk :=
  match json.toVec (encode order key snapshot blockEnv) with
  | .error e => .error (.malformed (cache.pathFor key) e)
  | .ok bytes => writeAtomically disk (cache.pathFor key) bytes

/-- INVERSION: a store writes the encoded snapshot under its key, and nothing else. -/
theorem storeInner_ok {order : HashOrder} {json : Json CacheFile} {cache : ForkCache} {key : CacheKey}
    {snapshot : BaseSnapshot} {blockEnv : Option StoredBlockEnv} {disk disk' : Disk}
    (h : storeInner order json cache key snapshot blockEnv disk = .ok disk') :
    ∃ bytes, json.toVec (encode order key snapshot blockEnv) = .ok bytes ∧
      disk'.files = Function.update disk.files (cache.pathFor key) (some bytes) := by
  unfold storeInner at h
  split at h
  · cases h
  rename_i bytes hwritten
  exact ⟨bytes, hwritten, (writeAtomically_ok h).2.2⟩

def store (order : HashOrder) (json : Json CacheFile) (cache : ForkCache) (key : CacheKey)
    (snapshot : BaseSnapshot) (disk : Disk) : Except CacheError Disk :=
  storeInner order json cache key snapshot none disk

def storeWithBlockEnv (order : HashOrder) (json : Json CacheFile) (cache : ForkCache)
    (key : CacheKey) (snapshot : BaseSnapshot) (blockEnv : BlockEnv) (disk : Disk) :
    Except CacheError Disk :=
  storeInner order json cache key snapshot (StoredBlockEnv.fromEnv blockEnv) disk

/-- The checks a parsed file passes before any of its state is believed, and that state. -/
def decode (raw : RawCode) (path : Path) (key : CacheKey) (file : CacheFile) :
    Except CacheError (BaseSnapshot × Option BlockEnv) :=
  if file.format ≠ some CACHE_FORMAT then .error (.notAForkyardCache path file.format)
  else if file.version ≠ some CACHE_FORMAT_VERSION then
    .error (.versionMismatch path file.version CACHE_FORMAT_VERSION)
  else if file.chainId ≠ some key.chainId ∨ file.blockNumber ≠ some key.blockNumber then
    .error (.keyMismatch path key file.chainId file.blockNumber)
  else
    -- an env for another block than the file's own is dropped, the state kept
    let blockEnv := (file.blockEnv.filter fun env => env.number = key.blockNumber).map (·.toEnv)
    (decodeCode raw path file.code).map fun code =>
      (.fromParts (attachCode file.accounts code) code
        (file.storage.map fun slot => ((slot.1, slot.2.1), slot.2.2)) file.blockHashes, blockEnv)

def loadWithBlockEnv (json : Json CacheFile) (raw : RawCode) (cache : ForkCache) (key : CacheKey)
    (disk : Disk) : Except CacheError (BaseSnapshot × Option BlockEnv) :=
  match readFile disk (cache.pathFor key) with
  | .error e => .error e
  | .ok bytes =>
    match json.fromSlice bytes with
    | .error e => .error (.malformed (cache.pathFor key) e)
    | .ok file => decode raw (cache.pathFor key) key file

def load (json : Json CacheFile) (raw : RawCode) (cache : ForkCache) (key : CacheKey)
    (disk : Disk) : Except CacheError BaseSnapshot :=
  (loadWithBlockEnv json raw cache key disk).map Prod.fst

end ForkCache

/-! ### What a file says, entry by entry -/

/-- One thing a cache file says about its block. -/
inductive CacheEntry where
  | account (account : StoredAccount)
  | code (code : StoredCode)
  | slot (address : Address) (index : StorageKey) (value : StorageValue)
  | blockHash (number : UInt64) (hash : B256)
  deriving DecidableEq

def CacheFile.Says (file : CacheFile) : CacheEntry → Prop
  | .account account => account ∈ file.accounts
  | .code code => code ∈ file.code
  | .slot address index value => (address, index, value) ∈ file.storage
  | .blockHash number hash => (number, hash) ∈ file.blockHashes

/-- What is read off the maps of a snapshot. -/
def BaseSnapshot.Says (base : BaseSnapshot) : CacheEntry → Prop
  | .account account => ∃ info, base.accounts.lookup account.address = some info ∧
      storedAccount account.address info = account
  | .code code => ∃ bytecode, base.code.lookup code.hash = some bytecode ∧
      bytecode.originalBytes = code.bytes
  | .slot address index value => base.storage.lookup (address, index) = some value
  | .blockHash number hash => base.blockHashes.lookup number = some hash

/-- What is read off the accounts of a snapshot that carry their code inline. -/
def BaseSnapshot.Inlines (base : BaseSnapshot) (code : StoredCode) : Prop :=
  ∃ address info bytecode, base.accounts.lookup address = some info ∧ info.code = some bytecode ∧
    code = ⟨info.codeHash, bytecode.originalBytes⟩

/-- A cache file says just what the snapshot it was written from does. -/
theorem ForkCache.encode_says (order : HashOrder) (key : CacheKey) (snapshot : BaseSnapshot)
    (blockEnv : Option StoredBlockEnv) (entry : CacheEntry) :
    (encode order key snapshot blockEnv).Says entry ↔ snapshot.Says entry := by
  cases entry with
  | account account =>
    simp only [encode, CacheFile.Says, BaseSnapshot.Says, List.mem_map, Prod.exists]
    constructor
    · rintro ⟨address, info, hmem, rfl⟩
      exact ⟨info, ((order.enumerates _).mem_iff address info).mp hmem, rfl⟩
    · rintro ⟨info, hget, heq⟩
      exact ⟨account.address, info, ((order.enumerates _).mem_iff _ info).mpr hget, heq⟩
  | code code =>
    simp only [encode, CacheFile.Says, BaseSnapshot.Says, List.mem_map, Prod.exists]
    constructor
    · rintro ⟨hash, bytecode, hmem, rfl⟩
      exact ⟨bytecode, ((order.enumerates _).mem_iff hash bytecode).mp hmem, rfl⟩
    · rintro ⟨bytecode, hget, hbytes⟩
      refine ⟨code.hash, bytecode, ((order.enumerates _).mem_iff _ bytecode).mpr hget, ?_⟩
      rw [storedCode, hbytes]
  | slot address index value =>
    simp only [encode, CacheFile.Says, BaseSnapshot.Says, List.mem_map, Prod.exists, Prod.mk.injEq]
    constructor
    · rintro ⟨address, index, value, hmem, rfl, rfl, rfl⟩
      exact ((order.enumerates _).mem_iff _ value).mp hmem
    · intro hget
      exact ⟨address, index, value, ((order.enumerates _).mem_iff _ value).mpr hget, rfl, rfl, rfl⟩
  | blockHash number hash => exact (order.enumerates _).mem_iff number hash

/-- Merging adds nothing that neither snapshot says. -/
theorem BaseSnapshot.mergedWith_says {self newer : BaseSnapshot} {entry : CacheEntry}
    (h : (self.mergedWith newer).Says entry) : self.Says entry ∨ newer.Says entry := by
  cases entry with
  | account account =>
    obtain ⟨info, hget, heq⟩ := h
    exact (Map.of_lookup_union hget).elim (fun hget => .inr ⟨info, hget, heq⟩) fun hget =>
      .inl ⟨info, hget, heq⟩
  | code code =>
    obtain ⟨bytecode, hget, heq⟩ := h
    exact (Map.of_lookup_union hget).elim (fun hget => .inr ⟨bytecode, hget, heq⟩) fun hget =>
      .inl ⟨bytecode, hget, heq⟩
  | slot address index value => exact (Map.of_lookup_union h).symm
  | blockHash number hash => exact (Map.of_lookup_union h).symm

/-- Decoded code is the stored code, blob by blob. -/
theorem decodeCode_eq {raw : RawCode} {path : Path} : ∀ {stored : List StoredCode}
    {code : List (B256 × Bytecode)}, decodeCode raw path stored = .ok code →
    code.map storedCode = stored
  | [], code, h => by
    obtain rfl := Except.ok.inj h
    rfl
  | entry :: stored, code, h => by
    rw [decodeCode] at h
    split at h
    · cases h
    rename_i bytecode hraw
    cases hrest : decodeCode raw path stored with
    | error e => rw [hrest] at h; cases h
    | ok rest =>
      rw [hrest] at h
      obtain rfl := Except.ok.inj h
      rw [List.map_cons, decodeCode_eq hrest, storedCode, raw.faithful hraw]

/-- What is read off the lists a snapshot is built from. -/
def PartsSay (accounts : List (Address × AccountInfo)) (code : List (B256 × Bytecode))
    (storage : List ((Address × StorageKey) × StorageValue)) (blockHashes : List (UInt64 × B256)) :
    CacheEntry → Prop
  | .account account => ∃ info, (account.address, info) ∈ accounts ∧
      storedAccount account.address info = account
  | .code entry => ∃ bytecode, (entry.hash, bytecode) ∈ code ∧ bytecode.originalBytes = entry.bytes
  | .slot address index value => ((address, index), value) ∈ storage
  | .blockHash number hash => (number, hash) ∈ blockHashes

/-- A snapshot built from parts says nothing its parts don't. -/
theorem BaseSnapshot.fromParts_says {accounts : List (Address × AccountInfo)}
    {code : List (B256 × Bytecode)} {storage : List ((Address × StorageKey) × StorageValue)}
    {blockHashes : List (UInt64 × B256)} {entry : CacheEntry}
    (h : (fromParts accounts code storage blockHashes).Says entry) :
    PartsSay accounts code storage blockHashes entry := by
  cases entry with
  | account account =>
    obtain ⟨info, hget, heq⟩ := h
    exact ⟨info, Map.mem_of_lookup_extend hget, heq⟩
  | code entry =>
    obtain ⟨bytecode, hget, heq⟩ := h
    exact ⟨bytecode, Map.mem_of_lookup_extend hget, heq⟩
  | slot address index value => exact Map.mem_of_lookup_extend h
  | blockHash number hash => exact Map.mem_of_lookup_extend h

/-- What a load believes is what its file says, and the file names the key that was asked for. -/
theorem ForkCache.decode_says {raw : RawCode} {path : Path} {key : CacheKey} {file : CacheFile}
    {base : BaseSnapshot} {blockEnv : Option BlockEnv}
    (h : decode raw path key file = .ok (base, blockEnv)) :
    file.chainId = some key.chainId ∧ file.blockNumber = some key.blockNumber ∧
      (∀ entry, base.Says entry → file.Says entry) ∧
      ∀ code, base.Inlines code → file.Says (.code code) := by
  unfold decode at h
  split at h
  · cases h
  split at h
  · cases h
  split at h
  · cases h
  rename_i _ _ hkey
  rw [not_or, not_not, not_not] at hkey
  cases hcode : decodeCode raw path file.code with
  | error e => rw [hcode] at h; cases h
  | ok code =>
    rw [hcode] at h
    obtain ⟨rfl, -⟩ := Prod.mk.inj (Except.ok.inj h)
    have hstored : ∀ hash bytecode, (hash, bytecode) ∈ code →
        (⟨hash, bytecode.originalBytes⟩ : StoredCode) ∈ file.code := by
      intro hash bytecode hmem
      rw [← decodeCode_eq hcode]
      exact List.mem_map_of_mem (f := storedCode) hmem
    refine ⟨hkey.1, hkey.2, fun entry hsaid => ?_, fun entry hinline => ?_⟩
    · have hparts := BaseSnapshot.fromParts_says hsaid
      cases entry with
      | account account =>
        obtain ⟨info, hmem, heq⟩ := hparts
        obtain ⟨stored, hstored, hpair⟩ := List.mem_map.mp hmem
        obtain ⟨haddress, rfl⟩ := Prod.mk.inj hpair
        rw [← haddress] at heq
        rwa [CacheFile.Says, ← heq]
      | code entry =>
        obtain ⟨bytecode, hmem, heq⟩ := hparts
        have hcode := hstored _ _ hmem
        rwa [heq] at hcode
      | slot address index value =>
        obtain ⟨slot, hmem, hpair⟩ := List.mem_map.mp hparts
        obtain ⟨hkeys, rfl⟩ := Prod.mk.inj hpair
        obtain ⟨rfl, rfl⟩ := Prod.mk.inj hkeys
        exact hmem
      | blockHash number hash => exact hparts
    · obtain ⟨address, info, bytecode, hget, hinfo, rfl⟩ := hinline
      obtain ⟨stored, hmem, hpair⟩ := List.mem_map.mp (Map.mem_of_lookup_extend hget)
      obtain ⟨-, rfl⟩ := Prod.mk.inj hpair
      exact hstored _ _ (Map.mem_of_lookup_extend hinfo)

end Forkyard
