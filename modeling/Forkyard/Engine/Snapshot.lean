import Forkyard.Engine.Persist

/-! Session snapshots on disk, content-addressed: the id is the first half of the keccak of the
    file's own bytes, in hex, and names the file. `load_store` says what comes back of a stored
    state: the same slots and code, and the same accounts with their code attached from the file.

        state ──encode, toVec──▶ bytes ──mintId──▶ id ──▶ dir/chain/id.json
        id ──▶ bytes ──fromSlice, checks, decode, attach──▶ state -/

namespace Forkyard

open Schemes

/-! ### Ids -/

/-- A digit of lowercase hex. -/
def hexDigit (n : ℕ) : Char := if n < 10 then .ofNat (48 + n) else .ofNat (87 + n)

def hexEncode (bytes : Bytes) : String :=
  .ofList (bytes.flatMap fun b => [hexDigit (b.toNat / 16), hexDigit (b.toNat % 16)])

/-- The bytes of a hash, the most significant first. -/
def hashBytes (hash : B256) : Bytes :=
  (List.range 32).map fun i => .ofNat (hash.toNat / 256 ^ (31 - i) % 256)

/-- The id of a snapshot file. -/
def mintId (keccak256 : Bytes → B256) (bytes : Bytes) : String :=
  hexEncode ((hashBytes (keccak256 bytes)).take (SNAPSHOT_ID_LEN / 2))

def isHexDigit (c : Char) : Bool := ('0' ≤ c && c ≤ '9') || ('a' ≤ c && c ≤ 'f')

/-- What `store` wrote. -/
structure SnapshotInfo where
  id : String
  blockNumber : UInt64
  accounts : ℕ
  storageSlots : ℕ
  contracts : ℕ
  bytes : ℕ
  deriving DecidableEq

structure SnapshotStore where
  dir : Path
  chainId : UInt64

namespace SnapshotStore

/-- Where `id` lives, or an error for anything this store could not have minted. -/
def pathFor (store : SnapshotStore) (id : String) : Except CacheError Path :=
  if id.toList.length = SNAPSHOT_ID_LEN ∧ id.toList.all isHexDigit then
    .ok (store.dir ++ [toString store.chainId, s!"{id}.json"])
  else .error (.invalidSnapshotId id)

/-- The file `store` writes. -/
def encode (store : SnapshotStore) (blockNumber : UInt64) (state : SessionState) :
    SnapshotFile where
  format := some SNAPSHOT_FORMAT
  version := some SNAPSHOT_FORMAT_VERSION
  chainId := some store.chainId
  blockNumber := some blockNumber
  accounts := state.accounts.map fun kv => storedAccount kv.1 kv.2
  code := state.code.map storedCode
  storage := state.storage.map fun kv => (kv.1.1, kv.1.2, kv.2)

/-- Write `state`, a session at `blockNumber`, and return its id. -/
def store (json : Json SnapshotFile) (keccak256 : Bytes → B256) (store : SnapshotStore)
    (blockNumber : UInt64) (state : SessionState) (disk : Disk) :
    Except CacheError (SnapshotInfo × Disk) :=
  match json.toVec (store.encode blockNumber state) with
  | .error e => .error (.malformed store.dir e)
  | .ok bytes =>
    match store.pathFor (mintId keccak256 bytes) with
    | .error e => .error e
    | .ok path =>
      let info : SnapshotInfo :=
        ⟨mintId keccak256 bytes, blockNumber, state.accounts.length, state.storage.length,
          state.code.length, bytes.length⟩
      -- content-addressed: an existing file already holds these exact bytes
      if (disk.files path).isSome then .ok (info, disk)
      else (writeAtomically disk path bytes).map fun disk => (info, disk)

/-- The checks a parsed file passes, and the block and state it holds. -/
def decode (raw : RawCode) (store : SnapshotStore) (path : Path) (file : SnapshotFile) :
    Except CacheError (UInt64 × SessionState) :=
  if file.format ≠ some SNAPSHOT_FORMAT then .error (.notAForkyardCache path file.format)
  else if file.version ≠ some SNAPSHOT_FORMAT_VERSION then
    .error (.versionMismatch path file.version SNAPSHOT_FORMAT_VERSION)
  else
    match file.chainId, file.blockNumber with
    | some chainId, some blockNumber =>
      if chainId ≠ store.chainId then
        .error (.keyMismatch path ⟨store.chainId, blockNumber⟩ (some chainId) (some blockNumber))
      else
        (decodeCode raw path file.code).map fun code =>
          (blockNumber,
            { accounts := attachCode file.accounts code
              code := code
              storage := file.storage.map fun slot => ((slot.1, slot.2.1), slot.2.2) })
    | _, _ => .error (.malformed path "snapshot names no chain or block")

/-- The block and state stored under `id`. -/
def load (json : Json SnapshotFile) (raw : RawCode) (store : SnapshotStore) (id : String)
    (disk : Disk) : Except CacheError (UInt64 × SessionState) :=
  match store.pathFor id with
  | .error e => .error e
  | .ok path =>
    match readFile disk path with
    | .error e => .error e
    | .ok bytes =>
      match json.fromSlice bytes with
      | .error e => .error (.malformed path e)
      | .ok file => decode raw store path file

/-- A file that already has the name of these bytes holds these bytes. -/
def Addressed (store : SnapshotStore) (keccak256 : Bytes → B256) (disk : Disk) (bytes : Bytes) :
    Prop :=
  ∀ path old, store.pathFor (mintId keccak256 bytes) = .ok path → disk.files path = some old →
    old = bytes

end SnapshotStore

/-! ### What comes back -/

/-- A state as a file keeps it: every account without the code it carried, but with its code from
    the state's own code list. -/
def SessionState.reloaded (state : SessionState) : SessionState where
  accounts := attachCode (state.accounts.map fun kv => storedAccount kv.1 kv.2) state.code
  code := state.code
  storage := state.storage

theorem isHexDigit_hexDigit {n : ℕ} (h : n < 16) : isHexDigit (hexDigit n) = true := by
  revert n
  decide

theorem hexEncode_digits (bytes : Bytes) :
    (hexEncode bytes).toList.length = 2 * bytes.length ∧
      (hexEncode bytes).toList.all isHexDigit = true := by
  rw [hexEncode, String.toList_ofList]
  induction bytes with
  | nil => exact ⟨rfl, rfl⟩
  | cons b bytes ih =>
    have hb : b.toNat < 256 := b.toNat_lt
    have hhigh : isHexDigit (hexDigit (b.toNat / 16)) = true := isHexDigit_hexDigit (by omega)
    have hlow : isHexDigit (hexDigit (b.toNat % 16)) = true := isHexDigit_hexDigit (by omega)
    constructor
    · simp only [List.flatMap_cons, List.length_append, ih.1, List.length_cons, List.length_nil]
      omega
    · simp only [List.flatMap_cons, List.all_append, List.all_cons, List.all_nil, hhigh, hlow, ih.2,
        Bool.and_self]

/-- A minted id passes the store's own check. -/
theorem pathFor_mintId (store : SnapshotStore) (keccak256 : Bytes → B256) (bytes : Bytes) :
    store.pathFor (mintId keccak256 bytes)
      = .ok (store.dir ++ [toString store.chainId, s!"{mintId keccak256 bytes}.json"]) := by
  obtain ⟨hlength, hdigits⟩ :=
    hexEncode_digits ((hashBytes (keccak256 bytes)).take (SNAPSHOT_ID_LEN / 2))
  refine if_pos ⟨hlength.trans ?_, hdigits⟩
  rw [List.length_take, hashBytes, List.length_map, List.length_range]
  rfl

/-- Code that the analysis reproduces comes back from its stored bytes. -/
theorem decodeCode_held {raw : RawCode} (path : Path) : ∀ {code : List (B256 × Bytecode)},
    (∀ entry ∈ code, raw.newRawChecked entry.2.originalBytes = .ok entry.2) →
      decodeCode raw path (code.map storedCode) = .ok code
  | [], _ => rfl
  | entry :: code, h => by
    have hrest := decodeCode_held path fun other hmem => h other (List.mem_cons_of_mem entry hmem)
    simp only [List.map_cons, decodeCode, storedCode, h entry List.mem_cons_self]
    rw [hrest]
    rfl

/-- What `decode` makes of the file `encode` builds. -/
theorem decode_encode (raw : RawCode) (store : SnapshotStore) (path : Path) (blockNumber : UInt64)
    {state : SessionState}
    (hheld : ∀ entry ∈ state.code, raw.newRawChecked entry.2.originalBytes = .ok entry.2) :
    store.decode raw path (store.encode blockNumber state) = .ok (blockNumber, state.reloaded) := by
  simp only [SnapshotStore.decode, SnapshotStore.encode, ne_eq, not_true_eq_false, if_false,
    decodeCode_held path hheld, Except.map, SessionState.reloaded, List.map_map]
  congr 3
  exact List.map_id _

/-- A disk that refuses nothing takes every snapshot that can be encoded. -/
theorem store_total {json : Json SnapshotFile} (keccak256 : Bytes → B256) {store : SnapshotStore}
    {blockNumber : UInt64} {state : SessionState} {disk : Disk} {bytes : Bytes}
    (hbytes : json.toVec (store.encode blockNumber state) = .ok bytes)
    (hwrites : ∀ path, disk.refuses path = none) :
    ∃ info disk', store.store json keccak256 blockNumber state disk = .ok (info, disk') := by
  simp only [SnapshotStore.store, hbytes, pathFor_mintId]
  split
  · exact ⟨_, _, rfl⟩
  · simp only [writeAtomically, hwrites]
    exact ⟨_, _, rfl⟩

/-- All that a store does: the bytes have their id, and under it they are written or something was
    there before. -/
theorem SnapshotStore.store_cases {json : Json SnapshotFile} {keccak256 : Bytes → B256}
    {store : SnapshotStore} {blockNumber : UInt64} {state : SessionState} {disk disk' : Disk}
    {info : SnapshotInfo}
    (h : store.store json keccak256 blockNumber state disk = .ok (info, disk')) :
    ∃ bytes path, json.toVec (store.encode blockNumber state) = .ok bytes ∧
      info = ⟨mintId keccak256 bytes, blockNumber, state.accounts.length, state.storage.length,
        state.code.length, bytes.length⟩ ∧
      store.pathFor info.id = .ok path ∧
      (disk.files path ≠ none ∧ disk' = disk ∨
        disk.files path = none ∧ writeAtomically disk path bytes = .ok disk') := by
  unfold SnapshotStore.store at h
  split at h
  · cases h
  rename_i bytes hbytes
  split at h
  · cases h
  rename_i path hpath
  dsimp only at h
  split at h
  · rename_i hsome
    obtain ⟨rfl, rfl⟩ := Prod.mk.inj (Except.ok.inj h)
    exact ⟨bytes, path, hbytes, rfl, hpath, .inl ⟨Option.isSome_iff_ne_none.mp hsome, rfl⟩⟩
  · rename_i hnone
    rw [Option.not_isSome_iff_eq_none] at hnone
    cases hwrite : writeAtomically disk path bytes with
    | error e => rw [hwrite] at h; cases h
    | ok written =>
      rw [hwrite] at h
      obtain ⟨rfl, rfl⟩ := Prod.mk.inj (Except.ok.inj h)
      exact ⟨bytes, path, hbytes, rfl, hpath, .inr ⟨hnone, hwrite⟩⟩

/-- Where every file has its own name, what was stored lies under its id. -/
theorem SnapshotStore.store_files {json : Json SnapshotFile} {keccak256 : Bytes → B256}
    {store : SnapshotStore} {blockNumber : UInt64} {state : SessionState} {disk disk' : Disk}
    {info : SnapshotInfo}
    (h : store.store json keccak256 blockNumber state disk = .ok (info, disk'))
    (haddressed : ∀ bytes, json.toVec (store.encode blockNumber state) = .ok bytes →
      store.Addressed keccak256 disk bytes) :
    ∃ bytes path, json.toVec (store.encode blockNumber state) = .ok bytes ∧
      store.pathFor info.id = .ok path ∧ disk'.files path = some bytes ∧
      disk'.refuses = disk.refuses := by
  obtain ⟨bytes, path, hbytes, rfl, hpath, ⟨hsome, rfl⟩ | ⟨-, hwrite⟩⟩ := store_cases h
  · obtain ⟨old, hold⟩ := Option.ne_none_iff_exists'.mp hsome
    have hfile : disk'.files path = some bytes := by
      rw [hold, haddressed bytes hbytes path old hpath hold]
    exact ⟨bytes, path, hbytes, hpath, hfile, rfl⟩
  · obtain ⟨-, hrefuses, hfiles⟩ := writeAtomically_ok hwrite
    exact ⟨bytes, path, hbytes, hpath, by rw [hfiles, Function.update_self], hrefuses⟩

/-- ROUND TRIP: what `store` wrote, `load` gives back, up to where accounts keep their code. -/
theorem load_store {json : Json SnapshotFile} {raw : RawCode} {keccak256 : Bytes → B256}
    {store : SnapshotStore} {blockNumber : UInt64} {state : SessionState} {disk disk' : Disk}
    {info : SnapshotInfo}
    (hstore : store.store json keccak256 blockNumber state disk = .ok (info, disk'))
    (hreads : ∀ path, store.pathFor info.id = .ok path → disk.refuses path = none)
    (haddressed : ∀ bytes, json.toVec (store.encode blockNumber state) = .ok bytes →
      store.Addressed keccak256 disk bytes)
    (hheld : ∀ entry ∈ state.code, raw.newRawChecked entry.2.originalBytes = .ok entry.2) :
    store.load json raw info.id disk' = .ok (blockNumber, state.reloaded) := by
  obtain ⟨bytes, path, hbytes, hpath, hfile, hrefuses⟩ :=
    SnapshotStore.store_files hstore haddressed
  have hread : readFile disk' path = .ok bytes := by
    simp only [readFile, hrefuses, hreads path hpath, hfile]
  simp only [SnapshotStore.load, hpath, hread, json.faithful hbytes]
  exact decode_encode raw store path blockNumber hheld

end Forkyard
