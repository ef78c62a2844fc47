import Forkyard.Engine.Own

/-! serde and the two file formats. A record is written as an object, one member a field under the
    field's own name; a member that isn't there reads as its default, and one that no field asks for
    is passed over. So either record parses out of the other's text: what keeps the two apart is the
    tag both start with, and what keeps two cache files apart is the key they name.

        CacheFile ──┐                        ┌──▶ CacheFile
                    ├──▶ object ⇄ text ──────┤
        SnapshotFile┘                        └──▶ SnapshotFile -/

namespace Forkyard

open Schemes

variable {Value : Type}

/-! ### The records as objects -/

/-- How serde writes and reads the values of one type. -/
structure Codec (Value α : Type) where
  ser : α → Value
  de : Value → Except String α
  faithful : ∀ a, de (ser a) = .ok a

/-- A `#[serde(default)]` field: absent it is the default, given twice it is refused. -/
def Codec.member {α : Type} (codec : Codec Value α) (name : String) (default : α)
    (object : List (String × Value)) : Except String α :=
  match object.filter (·.1 = name) with
  | [] => .ok default
  | [(_, value)] => codec.de value
  | _ => .error s!"duplicate field `{name}`"

/-- serde_json, and serde for the types of the fields. -/
structure Serde (Value : Type) where
  toVec : List (String × Value) → Except String Bytes
  fromSlice : Bytes → Except String (List (String × Value))
  /-- What was written parses back to what was encoded. -/
  faithful : ∀ {object bytes}, toVec object = .ok bytes → fromSlice bytes = .ok object
  tag : Codec Value (Option String)
  version : Codec Value (Option UInt32)
  number : Codec Value (Option UInt64)
  accounts : Codec Value (List StoredAccount)
  code : Codec Value (List StoredCode)
  storage : Codec Value (List (Address × StorageKey × StorageValue))
  blockHashes : Codec Value (List (UInt64 × B256))
  blockEnv : Codec Value (Option StoredBlockEnv)

namespace Serde

variable (serde : Serde Value)

def cacheObject (file : CacheFile) : List (String × Value) :=
  [("format", serde.tag.ser file.format), ("version", serde.version.ser file.version),
    ("chain_id", serde.number.ser file.chainId), ("block_number", serde.number.ser file.blockNumber),
    ("accounts", serde.accounts.ser file.accounts), ("code", serde.code.ser file.code),
    ("storage", serde.storage.ser file.storage),
    ("block_hashes", serde.blockHashes.ser file.blockHashes),
    ("block_env", serde.blockEnv.ser file.blockEnv)]

def cacheFile (object : List (String × Value)) : Except String CacheFile := do
  let format ← serde.tag.member "format" none object
  let version ← serde.version.member "version" none object
  let chainId ← serde.number.member "chain_id" none object
  let blockNumber ← serde.number.member "block_number" none object
  let accounts ← serde.accounts.member "accounts" [] object
  let code ← serde.code.member "code" [] object
  let storage ← serde.storage.member "storage" [] object
  let blockHashes ← serde.blockHashes.member "block_hashes" [] object
  let blockEnv ← serde.blockEnv.member "block_env" none object
  return { format, version, chainId, blockNumber, accounts, code, storage, blockHashes, blockEnv }

def snapshotObject (file : SnapshotFile) : List (String × Value) :=
  [("format", serde.tag.ser file.format), ("version", serde.version.ser file.version),
    ("chain_id", serde.number.ser file.chainId), ("block_number", serde.number.ser file.blockNumber),
    ("accounts", serde.accounts.ser file.accounts), ("code", serde.code.ser file.code),
    ("storage", serde.storage.ser file.storage)]

def snapshotFile (object : List (String × Value)) : Except String SnapshotFile := do
  let format ← serde.tag.member "format" none object
  let version ← serde.version.member "version" none object
  let chainId ← serde.number.member "chain_id" none object
  let blockNumber ← serde.number.member "block_number" none object
  let accounts ← serde.accounts.member "accounts" [] object
  let code ← serde.code.member "code" [] object
  let storage ← serde.storage.member "storage" [] object
  return { format, version, chainId, blockNumber, accounts, code, storage }

/-- What a session snapshot's reader makes of a cache file: all but its hashes and its env. -/
theorem snapshotFile_cacheObject (file : CacheFile) :
    serde.snapshotFile (serde.cacheObject file)
      = .ok ⟨file.format, file.version, file.chainId, file.blockNumber, file.accounts, file.code,
          file.storage⟩ := by
  simp [snapshotFile, cacheObject, Codec.member, Codec.faithful]
  rfl

/-- What a cache file's reader makes of a session snapshot: one without hashes or env. -/
theorem cacheFile_snapshotObject (file : SnapshotFile) :
    serde.cacheFile (serde.snapshotObject file)
      = .ok ⟨file.format, file.version, file.chainId, file.blockNumber, file.accounts, file.code,
          file.storage, [], none⟩ := by
  simp [cacheFile, snapshotObject, Codec.member, Codec.faithful]
  rfl

theorem cacheFile_cacheObject (file : CacheFile) :
    serde.cacheFile (serde.cacheObject file) = .ok file := by
  simp [cacheFile, cacheObject, Codec.member, Codec.faithful]
  rfl

theorem snapshotFile_snapshotObject (file : SnapshotFile) :
    serde.snapshotFile (serde.snapshotObject file) = .ok file := by
  simp [snapshotFile, snapshotObject, Codec.member, Codec.faithful]
  rfl

/-- serde_json for cache files. -/
def cacheJson : Json CacheFile where
  toVec file := serde.toVec (serde.cacheObject file)
  fromSlice bytes := serde.fromSlice bytes >>= serde.cacheFile
  faithful {file bytes} h := by
    rw [serde.faithful h]
    exact serde.cacheFile_cacheObject file

/-- serde_json for session snapshots. -/
def snapshotJson : Json SnapshotFile where
  toVec file := serde.toVec (serde.snapshotObject file)
  fromSlice bytes := serde.fromSlice bytes >>= serde.snapshotFile
  faithful {file bytes} h := by
    rw [serde.faithful h]
    exact serde.snapshotFile_snapshotObject file

end Serde

/-! ### A cache file comes back under its own key -/

theorem tryU64_eq_some_iff {n : U256} {number : UInt64} :
    tryU64 n = some number ↔ n = .ofNat 256 number.toNat := by
  have hnumber : number.toNat < 2 ^ 64 := number.toNat_lt
  unfold tryU64
  constructor
  · intro h
    split at h
    · rename_i hn
      obtain rfl := Option.some.inj h
      apply BitVec.eq_of_toNat_eq
      simp only [BitVec.toNat_ofNat, UInt64.toNat_ofNat']
      omega
    · cases h
  · rintro rfl
    have hn : (BitVec.ofNat 256 number.toNat).toNat = number.toNat := by
      rw [BitVec.toNat_ofNat]
      omega
    rw [hn, if_pos hnumber, UInt64.ofNat_toNat]

/-- Filtered on the key's block, an env comes back whole if it is of that block, or not at all. -/
theorem StoredBlockEnv.fromEnv_toEnv (env : BlockEnv) (number : UInt64) :
    ((fromEnv env).filter fun stored => stored.number = number).map toEnv
      = if env.number = .ofNat 256 number.toNat then some env else none := by
  by_cases h : env.number = .ofNat 256 number.toNat
  · rw [if_pos h, fromEnv, tryU64_eq_some_iff.mpr h]
    simp [toEnv, ← h]
  · rw [if_neg h, fromEnv]
    cases hnumber : tryU64 env.number with
    | none => rfl
    | some other =>
      have hne : other ≠ number := by
        rintro rfl
        exact h (tryU64_eq_some_iff.mp hnumber)
      simp [hne]

theorem ForkCache.decode_encode {raw : RawCode} (path : Path) (order : HashOrder) (key : CacheKey)
    {snapshot : BaseSnapshot} (env : Option StoredBlockEnv)
    (hheld : ∀ codeHash code, snapshot.code.lookup codeHash = some code →
      raw.newRawChecked code.originalBytes = .ok code) :
    ∃ base, decode raw path key (encode order key snapshot env)
      = .ok (base, (env.filter fun env => env.number = key.blockNumber).map (·.toEnv)) := by
  have hcode : decodeCode raw path ((order.entries snapshot.code).map storedCode)
      = .ok (order.entries snapshot.code) :=
    decodeCode_held path fun entry hmem =>
      hheld entry.1 entry.2 (((order.enumerates _).mem_iff _ _).mp hmem)
  simp only [decode, encode, ne_eq, not_true_eq_false, or_self, if_false, hcode, Except.map,
    Option.filter_filter, Bool.and_self]
  exact ⟨_, rfl⟩

/-- A file that names one key passes for no other. -/
theorem ForkCache.decode_key {raw : RawCode} {path : Path} {order : HashOrder} {key key' : CacheKey}
    {snapshot : BaseSnapshot} {env : Option StoredBlockEnv}
    {loaded : BaseSnapshot × Option BlockEnv}
    (h : decode raw path key' (encode order key snapshot env) = .ok loaded) : key' = key := by
  obtain ⟨hchain, hblock, -⟩ := decode_says h
  cases key
  cases key'
  cases hchain
  cases hblock
  rfl

/-- The bytes a store leaves under its key. -/
theorem ForkCache.stored_bytes {order : HashOrder} {json : Json CacheFile} {cache : ForkCache}
    {key : CacheKey} {snapshot : BaseSnapshot} {env : Option StoredBlockEnv} {disk disk' : Disk}
    {bytes : Bytes} (hstore : storeInner order json cache key snapshot env disk = .ok disk')
    (hbytes : disk'.files (cache.pathFor key) = some bytes) :
    json.toVec (encode order key snapshot env) = .ok bytes := by
  obtain ⟨written, hwritten, hfiles⟩ := storeInner_ok hstore
  rw [hfiles, Function.update_self] at hbytes
  rw [hwritten, Option.some.inj hbytes]

/-- What a load makes of a file it can read and parse. -/
theorem ForkCache.load_eq {json : Json CacheFile} (raw : RawCode) {cache : ForkCache}
    {key : CacheKey} {disk : Disk} {bytes : Bytes} {file : CacheFile}
    (hread : readFile disk (cache.pathFor key) = .ok bytes) (hfile : json.fromSlice bytes = .ok file) :
    loadWithBlockEnv json raw cache key disk = decode raw (cache.pathFor key) key file := by
  simp only [loadWithBlockEnv, hread, hfile]

/-! ### Either format under the other's reader -/

/-- What a snapshot's file passed when it was loaded. -/
theorem SnapshotStore.load_ok {json : Json SnapshotFile} {raw : RawCode} {store : SnapshotStore}
    {id : String} {disk : Disk} {loaded : UInt64 × SessionState}
    (h : store.load json raw id disk = .ok loaded) :
    ∃ path bytes file, store.pathFor id = .ok path ∧ readFile disk path = .ok bytes ∧
      json.fromSlice bytes = .ok file ∧ store.decode raw path file = .ok loaded := by
  unfold SnapshotStore.load at h
  split at h
  · cases h
  rename_i path hpath
  split at h
  · cases h
  rename_i bytes hread
  split at h
  · cases h
  rename_i file hfile
  exact ⟨path, bytes, file, hpath, hread, hfile, h⟩

theorem SnapshotStore.decode_format {raw : RawCode} {store : SnapshotStore} {path : Path}
    {file : SnapshotFile} {loaded : UInt64 × SessionState}
    (h : store.decode raw path file = .ok loaded) : file.format = some SNAPSHOT_FORMAT := by
  by_contra hformat
  rw [SnapshotStore.decode, if_pos hformat] at h
  cases h

theorem ForkCache.decode_format {raw : RawCode} {path : Path} {key : CacheKey} {file : CacheFile}
    {loaded : BaseSnapshot × Option BlockEnv} (h : decode raw path key file = .ok loaded) :
    file.format = some CACHE_FORMAT := by
  by_contra hformat
  rw [decode, if_pos hformat] at h
  cases h

/-- The bytes a store leaves under a name that was free. -/
theorem SnapshotStore.stored_bytes {json : Json SnapshotFile} {keccak256 : Bytes → B256}
    {store : SnapshotStore} {blockNumber : UInt64} {state : SessionState} {disk disk' : Disk}
    {info : SnapshotInfo} {path : Path} {bytes : Bytes}
    (hstore : store.store json keccak256 blockNumber state disk = .ok (info, disk'))
    (hpath : store.pathFor info.id = .ok path) (hfree : disk.files path = none)
    (hbytes : disk'.files path = some bytes) :
    json.toVec (store.encode blockNumber state) = .ok bytes := by
  obtain ⟨written, path', hwritten, -, hpath', ⟨hsome, -⟩ | ⟨-, hwrite⟩⟩ := store_cases hstore
  · obtain rfl := Except.ok.inj (hpath.symm.trans hpath')
    exact absurd hfree hsome
  · obtain rfl := Except.ok.inj (hpath.symm.trans hpath')
    obtain ⟨-, -, hfiles⟩ := writeAtomically_ok hwrite
    rw [hfiles, Function.update_self] at hbytes
    rw [hwritten, Option.some.inj hbytes]

namespace Serde

variable (serde : Serde Value)

/-- No store of snapshots takes what was written as a cache file. -/
theorem load_cacheObject {raw : RawCode} {store : SnapshotStore} {id : String} {disk : Disk}
    {path : Path} {bytes : Bytes} {file : CacheFile} (hformat : file.format = some CACHE_FORMAT)
    (hbytes : serde.cacheJson.toVec file = .ok bytes) (hpath : store.pathFor id = .ok path)
    (hread : readFile disk path = .ok bytes) (loaded : UInt64 × SessionState) :
    store.load serde.snapshotJson raw id disk ≠ .ok loaded := by
  intro hload
  obtain ⟨path', bytes', parsed, hpath', hread', hparsed, hdecode⟩ := SnapshotStore.load_ok hload
  obtain rfl := Except.ok.inj (hpath.symm.trans hpath')
  obtain rfl := Except.ok.inj (hread.symm.trans hread')
  have hobject : serde.fromSlice bytes = .ok (serde.cacheObject file) := serde.faithful hbytes
  have hsnapshot : serde.snapshotJson.fromSlice bytes = serde.snapshotFile (serde.cacheObject file) :=
    congrArg (· >>= serde.snapshotFile) hobject
  rw [hsnapshot, snapshotFile_cacheObject] at hparsed
  obtain rfl := Except.ok.inj hparsed
  have htag : file.format = some SNAPSHOT_FORMAT := SnapshotStore.decode_format hdecode
  rw [hformat] at htag
  exact absurd htag (by decide)

/-- No fork cache takes what was written as a session snapshot. -/
theorem load_snapshotObject {raw : RawCode} {cache : ForkCache} {key : CacheKey} {disk : Disk}
    {bytes : Bytes} {file : SnapshotFile} (hformat : file.format = some SNAPSHOT_FORMAT)
    (hbytes : serde.snapshotJson.toVec file = .ok bytes)
    (hread : readFile disk (cache.pathFor key) = .ok bytes)
    (loaded : BaseSnapshot × Option BlockEnv) :
    cache.loadWithBlockEnv serde.cacheJson raw key disk ≠ .ok loaded := by
  intro hload
  have hobject : serde.fromSlice bytes = .ok (serde.snapshotObject file) := serde.faithful hbytes
  have hcache : serde.cacheJson.fromSlice bytes = serde.cacheFile (serde.snapshotObject file) :=
    congrArg (· >>= serde.cacheFile) hobject
  rw [cacheFile_snapshotObject] at hcache
  rw [ForkCache.load_eq raw hread hcache] at hload
  have htag : file.format = some CACHE_FORMAT := ForkCache.decode_format hload
  rw [hformat] at htag
  exact absurd htag (by decide)

end Serde

/-! ### The whole contract of a cache file -/

/-- `base` is the snapshot again: its own entries and no more, the code of its accounts attached from
    its code map. -/
structure BaseSnapshot.ComesBackAs (snapshot base : BaseSnapshot) : Prop where
  accounts : ∀ address, base.accounts.lookup address
    = (snapshot.accounts.lookup address).map (refit snapshot.code)
  inline : ∀ address info, snapshot.accounts.lookup address = some info → info.code ≠ none →
    base.accounts.lookup address = some info
  code : base.code = snapshot.code
  storage : base.storage = snapshot.storage
  blockHashes : base.blockHashes = snapshot.blockHashes

/-- An account whose inline code is in the code map under its hash is refitted to itself. -/
theorem refit_inline {code : Map B256 Bytecode} {info : AccountInfo} {bytecode : Bytecode}
    (hinline : info.code = some bytecode) (hcode : code.lookup info.codeHash = some bytecode) :
    refit code info = info := by
  rw [refit, hcode, ← hinline]

theorem ForkCache.decode_comesBack {raw : RawCode} {path : Path} {order : HashOrder} {key : CacheKey}
    {snapshot base : BaseSnapshot} {env : Option StoredBlockEnv} {blockEnv : Option BlockEnv}
    (hinline : ∀ address info code, snapshot.accounts.lookup address = some info →
      info.code = some code → snapshot.code.lookup info.codeHash = some code)
    (h : decode raw path key (encode order key snapshot env) = .ok (base, blockEnv)) :
    snapshot.ComesBackAs base := by
  obtain ⟨haccounts, hcode, hstorage, hblockHashes⟩ := cache_decode_encode h
  refine ⟨haccounts, fun address info hget hcode => ?_, hcode, hstorage, hblockHashes⟩
  obtain ⟨code, hsome⟩ := Option.ne_none_iff_exists'.mp hcode
  rw [haccounts, hget, Option.map_some, refit_inline hsome (hinline address info code hget hsome)]

/-- CORRECT: what was stored under a key loads under that key and no other, whole and with nothing
    added; no file of either kind passes for one of the other. -/
theorem cache_files (serde : Serde Value) (raw : RawCode) {order : HashOrder} {cache : ForkCache}
    {key : CacheKey} {snapshot : BaseSnapshot} {env : BlockEnv} {disk disk' : Disk} {bytes : Bytes}
    (hinline : ∀ address info code, snapshot.accounts.lookup address = some info →
      info.code = some code → snapshot.code.lookup info.codeHash = some code)
    (hheld : ∀ codeHash code, snapshot.code.lookup codeHash = some code →
      raw.newRawChecked code.originalBytes = .ok code)
    (hstore : cache.storeWithBlockEnv order serde.cacheJson key snapshot env disk = .ok disk')
    (hbytes : disk'.files (cache.pathFor key) = some bytes) :
    (∀ (cache' : ForkCache) (key' : CacheKey) (copy : Disk),
      readFile copy (cache'.pathFor key') = .ok bytes →
      ((∃ loaded, cache'.loadWithBlockEnv serde.cacheJson raw key' copy = .ok loaded) ↔ key' = key) ∧
      ∀ base blockEnv,
        cache'.loadWithBlockEnv serde.cacheJson raw key' copy = .ok (base, blockEnv) →
        snapshot.ComesBackAs base ∧
          blockEnv = if env.number = .ofNat 256 key.blockNumber.toNat then some env else none) ∧
    (∀ (store : SnapshotStore) (id : String) (copy : Disk) (path : Path),
      store.pathFor id = .ok path → readFile copy path = .ok bytes →
      ∀ loaded, store.load serde.snapshotJson raw id copy ≠ .ok loaded) ∧
    ∀ (store : SnapshotStore) (keccak256 : Bytes → B256) (blockNumber : UInt64)
      (state : SessionState) (before after : Disk) (info : SnapshotInfo) (path : Path)
      (written : Bytes),
      store.store serde.snapshotJson keccak256 blockNumber state before = .ok (info, after) →
      store.pathFor info.id = .ok path → before.files path = none →
      after.files path = some written →
      ∀ (cache' : ForkCache) (key' : CacheKey) (copy : Disk),
        readFile copy (cache'.pathFor key') = .ok written →
        ∀ base, cache'.load serde.cacheJson raw key' copy ≠ .ok base := by
  have hencoded : serde.cacheJson.toVec
      (ForkCache.encode order key snapshot (StoredBlockEnv.fromEnv env)) = .ok bytes :=
    ForkCache.stored_bytes hstore hbytes
  refine ⟨fun cache' key' copy hread => ?_, fun store id copy path hpath hread => ?_, ?_⟩
  · have hload := ForkCache.load_eq raw hread (serde.cacheJson.faithful hencoded)
    rw [hload]
    refine ⟨⟨fun ⟨loaded, h⟩ => ForkCache.decode_key h, ?_⟩, fun base blockEnv h => ?_⟩
    · rintro rfl
      obtain ⟨base, h⟩ := ForkCache.decode_encode (cache'.pathFor key') order key'
        (StoredBlockEnv.fromEnv env) hheld
      exact ⟨_, h⟩
    · obtain rfl := ForkCache.decode_key h
      refine ⟨ForkCache.decode_comesBack hinline h, ?_⟩
      obtain ⟨base', h'⟩ := ForkCache.decode_encode (cache'.pathFor key') order key'
        (StoredBlockEnv.fromEnv env) hheld
      rw [h] at h'
      rw [(Prod.mk.inj (Except.ok.inj h')).2, StoredBlockEnv.fromEnv_toEnv]
  · exact serde.load_cacheObject rfl hencoded hpath hread
  · intro store keccak256 blockNumber state before after info path written hstore hpath hfree
      hwritten cache' key' copy hread base hload
    have hencoded := SnapshotStore.stored_bytes hstore hpath hfree hwritten
    cases hloaded : cache'.loadWithBlockEnv serde.cacheJson raw key' copy with
    | error e =>
      rw [ForkCache.load, hloaded] at hload
      cases hload
    | ok loaded => exact serde.load_snapshotObject rfl hencoded hread loaded hloaded

/-! ### One contract in a file -/

/-- The values of the fields, each as it is. -/
inductive Plain where
  | tag (value : Option String)
  | version (value : Option UInt32)
  | number (value : Option UInt64)
  | accounts (value : List StoredAccount)
  | code (value : List StoredCode)
  | storage (value : List (Address × StorageKey × StorageValue))
  | blockHashes (value : List (UInt64 × B256))
  | blockEnv (value : Option StoredBlockEnv)
  deriving DecidableEq

/-- serde_json as far as one object is concerned. -/
def Serde.only (object : List (String × Plain)) (text : Bytes) : Serde Plain where
  toVec other := if other = object then .ok text else .error "another object"
  fromSlice other := if other = text then .ok object else .error "another text"
  faithful {other written} h := by
    by_cases hobject : other = object
    · rw [if_pos hobject] at h
      rw [if_pos (Except.ok.inj h).symm, hobject]
    · rw [if_neg hobject] at h
      cases h
  tag := ⟨.tag, fun | .tag value => .ok value | _ => .error "not a tag", fun _ => rfl⟩
  version := ⟨.version, fun | .version value => .ok value | _ => .error "not a version", fun _ => rfl⟩
  number := ⟨.number, fun | .number value => .ok value | _ => .error "not a number", fun _ => rfl⟩
  accounts :=
    ⟨.accounts, fun | .accounts value => .ok value | _ => .error "no accounts", fun _ => rfl⟩
  code := ⟨.code, fun | .code value => .ok value | _ => .error "no code", fun _ => rfl⟩
  storage := ⟨.storage, fun | .storage value => .ok value | _ => .error "no storage", fun _ => rfl⟩
  blockHashes :=
    ⟨.blockHashes, fun | .blockHashes value => .ok value | _ => .error "no hashes", fun _ => rfl⟩
  blockEnv := ⟨.blockEnv, fun | .blockEnv value => .ok value | _ => .error "no env", fun _ => rfl⟩

/-- The smallest contract, at 0xc, and its code. -/
def stopSnapshot : BaseSnapshot where
  accounts := Finmap.insert 0xc
    ⟨0, 1, 0xbc36789e7a1e281436464229828f817d6612f7b477d66591ff96a9e064bcc98a#256, some ⟨[0]⟩⟩ ∅
  code := Finmap.insert
    0xbc36789e7a1e281436464229828f817d6612f7b477d66591ff96a9e064bcc98a#256 ⟨[0]⟩ ∅
  storage := ∅
  blockHashes := ∅

def stopFile : CacheFile where
  format := some CACHE_FORMAT
  version := some CACHE_FORMAT_VERSION
  chainId := some 1
  blockNumber := some 7
  accounts :=
    [⟨0xc, 0, 1, 0xbc36789e7a1e281436464229828f817d6612f7b477d66591ff96a9e064bcc98a#256⟩]
  code := [⟨0xbc36789e7a1e281436464229828f817d6612f7b477d66591ff96a9e064bcc98a#256, [0]⟩]
  storage := []
  blockHashes := []
  blockEnv := some ⟨7, 0, 0, 30000000⟩

def stopText : Bytes :=
  ("\x7b\"format\":\"forkyard-fork-cache\",\"version\":1,\"chain_id\":1,\"block_number\":7," ++
  "\"accounts\":[\x7b\"address\":\"0x000000000000000000000000000000000000000c\"," ++
  "\"balance\":\"0x0\",\"nonce\":1,\"code_hash\":" ++
  "\"0xbc36789e7a1e281436464229828f817d6612f7b477d66591ff96a9e064bcc98a\"\x7d]," ++
  "\"code\":[\x7b\"hash\":" ++
  "\"0xbc36789e7a1e281436464229828f817d6612f7b477d66591ff96a9e064bcc98a\",\"bytes\":\"0x00\"\x7d]," ++
  "\"storage\":[],\"block_hashes\":[],\"block_env\":\x7b\"number\":7,\"timestamp\":\"0x0\"," ++
  "\"basefee\":0,\"gas_limit\":30000000\x7d\x7d").toUTF8.toList

def stopSerde : Serde Plain :=
  .only [("format", .tag stopFile.format), ("version", .version stopFile.version),
    ("chain_id", .number stopFile.chainId), ("block_number", .number stopFile.blockNumber),
    ("accounts", .accounts stopFile.accounts), ("code", .code stopFile.code),
    ("storage", .storage stopFile.storage), ("block_hashes", .blockHashes stopFile.blockHashes),
    ("block_env", .blockEnv stopFile.blockEnv)] stopText

theorem stopSnapshot_encode (order : HashOrder) :
    ForkCache.encode order ⟨1, 7⟩ stopSnapshot (StoredBlockEnv.fromEnv ⟨7, 0, 0, 30000000⟩)
      = stopFile := by
  simp only [ForkCache.encode, stopSnapshot, order.entries_singleton, order.entries_empty]
  rfl

theorem plain_originalBytes {bytes : Bytes} {code : Bytecode}
    (h : (Except.ok ⟨bytes⟩ : Except String Bytecode) = .ok code) : code.originalBytes = bytes := by
  rw [← Except.ok.inj h]

/-- The analysis as far as it goes here: it keeps the bytes. -/
def plainRaw : RawCode := ⟨fun bytes => .ok ⟨bytes⟩, @plain_originalBytes⟩

def stopCache : ForkCache := ⟨["cache"]⟩

theorem stopSnapshot_stored :
    stopCache.storeWithBlockEnv .some stopSerde.cacheJson ⟨1, 7⟩ stopSnapshot ⟨7, 0, 0, 30000000⟩
        emptyDisk
      = .ok { emptyDisk with
          files := Function.update emptyDisk.files (stopCache.pathFor ⟨1, 7⟩) (some stopText) } := by
  have hwritten : stopSerde.cacheJson.toVec stopFile = .ok stopText := by
    simp only [stopSerde, Serde.cacheJson, Serde.cacheObject, Serde.only, if_true]
  simp only [ForkCache.storeWithBlockEnv, ForkCache.storeInner, stopSnapshot_encode, hwritten]
  rfl

theorem cache_files_stop :
    ∃ disk', stopCache.storeWithBlockEnv .some stopSerde.cacheJson ⟨1, 7⟩ stopSnapshot
        ⟨7, 0, 0, 30000000⟩ emptyDisk = .ok disk' ∧
      ∃ base, stopCache.loadWithBlockEnv stopSerde.cacheJson plainRaw ⟨1, 7⟩ disk'
          = .ok (base, some ⟨7, 0, 0, 30000000⟩) ∧
        stopSnapshot.ComesBackAs base := by
  refine ⟨_, stopSnapshot_stored, ?_⟩
  set disk' : Disk := { emptyDisk with
    files := Function.update emptyDisk.files (stopCache.pathFor ⟨1, 7⟩) (some stopText) }
  have hbytes : disk'.files (stopCache.pathFor ⟨1, 7⟩) = some stopText :=
    Function.update_self (stopCache.pathFor ⟨1, 7⟩) (some stopText) emptyDisk.files
  have hread : readFile disk' (stopCache.pathFor ⟨1, 7⟩) = .ok stopText := by
    simp only [readFile, hbytes]
    rfl
  have hinline : ∀ address info code, stopSnapshot.accounts.lookup address = some info →
      info.code = some code → stopSnapshot.code.lookup info.codeHash = some code := by
    intro address info code hget hcode
    rcases Map.of_lookup_insert hget with ⟨-, rfl⟩ | hold
    · rw [← hcode]
      exact Finmap.lookup_insert _
    · cases hold
  obtain ⟨hown, -⟩ := cache_files stopSerde plainRaw hinline (fun _ _ _ => rfl)
    stopSnapshot_stored hbytes
  obtain ⟨hloads, hwhole⟩ := hown stopCache ⟨1, 7⟩ disk' hread
  obtain ⟨⟨base, blockEnv⟩, hload⟩ := hloads.mpr rfl
  obtain ⟨hbase, rfl⟩ := hwhole base blockEnv hload
  exact ⟨base, hload, hbase⟩

end Forkyard
