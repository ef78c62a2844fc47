import Forkyard.Engine.Formats

/-! What a snapshot's id says about its content. A file is stored under the hash of its bytes, and
    the store alone never puts another there: whatever the requests, each name stands for the bytes
    it was made from. A load checks the file's tags and its chain, and decodes its code; it does not
    hash what it read. So an id vouches for what it loads just where no file that passes these
    checks has come to lie under another's name.

        id ──▶ path ──▶ bytes ──▶ format? version? chain? code? ──▶ state
                          └─ keccak ─ ? ─ id  (never asked) -/

namespace Forkyard

open Schemes

namespace SnapshotStore

/-! ### What a load checks -/

/-- What a parsed file must be for this store to take it. -/
structure Passes (store : SnapshotStore) (raw : RawCode) (file : SnapshotFile) : Prop where
  format : file.format = some SNAPSHOT_FORMAT
  version : file.version = some SNAPSHOT_FORMAT_VERSION
  chainId : file.chainId = some store.chainId
  blockNumber : file.blockNumber ≠ none
  code : ∀ entry ∈ file.code, ∃ bytecode, raw.newRawChecked entry.bytes = .ok bytecode

end SnapshotStore

/-- A list of blobs decodes iff each of them does. -/
theorem decodeCode_ok_iff (raw : RawCode) (path : Path) : ∀ (stored : List StoredCode),
    (∃ code, decodeCode raw path stored = .ok code) ↔
      ∀ entry ∈ stored, ∃ bytecode, raw.newRawChecked entry.bytes = .ok bytecode
  | [] => by simp [decodeCode]
  | entry :: stored => by
    have hrest := decodeCode_ok_iff raw path stored
    rw [List.forall_mem_cons, ← hrest, decodeCode]
    cases hraw : raw.newRawChecked entry.bytes with
    | error e => simp
    | ok bytecode =>
      cases decodeCode raw path stored with
      | error e => simp [Except.map]
      | ok code => simp [Except.map]

namespace SnapshotStore

variable {json : Json SnapshotFile} {raw : RawCode} {keccak256 : Bytes → B256}
  {store : SnapshotStore} {id : String} {disk disk' : Disk}

theorem decode_ok_iff (path : Path) (file : SnapshotFile) :
    (∃ loaded, store.decode raw path file = .ok loaded) ↔ store.Passes raw file := by
  constructor
  · rintro ⟨loaded, h⟩
    unfold decode at h
    split at h
    · cases h
    rename_i hformat
    split at h
    · cases h
    rename_i hversion
    split at h
    · rename_i chainId blockNumber hchain hblock
      split at h
      · cases h
      rename_i hsame
      refine ⟨not_not.mp hformat, not_not.mp hversion, ?_, ?_, (decodeCode_ok_iff raw path _).mp ?_⟩
      · rw [hchain, not_not.mp hsame]
      · rw [hblock]
        exact Option.some_ne_none _
      · cases hcode : decodeCode raw path file.code with
        | error e => rw [hcode] at h; cases h
        | ok code => exact ⟨code, rfl⟩
    · cases h
  · intro h
    obtain ⟨blockNumber, hblock⟩ := Option.ne_none_iff_exists'.mp h.blockNumber
    obtain ⟨code, hcode⟩ := (decodeCode_ok_iff raw path _).mpr h.code
    simp only [decode, h.format, h.version, h.chainId, hblock, hcode, ne_eq, not_true_eq_false,
      if_false, Except.map]
    exact ⟨_, rfl⟩

/-! ### Vouching -/

/-- What loads under the id is what bytes with this id say. -/
def Vouched (store : SnapshotStore) (json : Json SnapshotFile) (raw : RawCode)
    (keccak256 : Bytes → B256) (id : String) (disk : Disk) : Prop :=
  ∀ loaded, store.load json raw id disk = .ok loaded →
    ∃ path bytes file, store.pathFor id = .ok path ∧ readFile disk path = .ok bytes ∧
      mintId keccak256 bytes = id ∧ json.fromSlice bytes = .ok file ∧
      store.decode raw path file = .ok loaded

/-- EXACT: an id vouches for what loads under it iff the file of that name, if it can be read and
    passes the store's checks, hashes to the id. -/
theorem vouched_iff (json : Json SnapshotFile) (raw : RawCode) (keccak256 : Bytes → B256)
    (store : SnapshotStore) (id : String) (disk : Disk) :
    store.Vouched json raw keccak256 id disk ↔
      ∀ path bytes file, store.pathFor id = .ok path → readFile disk path = .ok bytes →
        json.fromSlice bytes = .ok file → store.Passes raw file → mintId keccak256 bytes = id := by
  constructor
  · intro h path bytes file hpath hread hfile hpasses
    obtain ⟨loaded, hdecode⟩ := (decode_ok_iff path file).mpr hpasses
    have hload : store.load json raw id disk = .ok loaded := by
      simp only [load, hpath, hread, hfile, hdecode]
    obtain ⟨path', bytes', -, hpath', hread', hid, -⟩ := h loaded hload
    obtain rfl := Except.ok.inj (hpath.symm.trans hpath')
    obtain rfl := Except.ok.inj (hread.symm.trans hread')
    exact hid
  · intro h loaded hload
    obtain ⟨path, bytes, file, hpath, hread, hfile, hdecode⟩ := load_ok hload
    have hpasses : store.Passes raw file := (decode_ok_iff path file).mp ⟨loaded, hdecode⟩
    exact ⟨path, bytes, file, hpath, hread, h path bytes file hpath hread hfile hpasses, hfile,
      hdecode⟩

end SnapshotStore

/-! ### A file under another's name -/

/-- A snapshot of block `n` in which the session holds nothing of its own. -/
def blankText (n : String) : Bytes :=
  ("\x7b\"format\":\"forkyard-session-snapshot\",\"version\":1,\"chain_id\":1,\"block_number\":" ++
  n ++ ",\"accounts\":[],\"code\":[],\"storage\":[]\x7d").toUTF8.toList

def blankFile (blockNumber : UInt64) : SnapshotFile where
  format := some SNAPSHOT_FORMAT
  version := some SNAPSHOT_FORMAT_VERSION
  chainId := some 1
  blockNumber := some blockNumber
  accounts := []
  code := []
  storage := []

/-- Keccak on the two texts. -/
def blankKeccak (bytes : Bytes) : B256 :=
  if bytes = blankText "1" then
    0xf2f287c59cbca95ef6a2e73ce4bf2491163a8f7007c0b042650cdf38b465b07c#256
  else 0xe16425a49c45b1cd054d7a68e9611951280fc4907f8d3e56befbbd4f9adf9bc1#256

def blankStore : SnapshotStore := ⟨["snapshots"], 1⟩

/-- The file of block 2, copied over the one of block 1. -/
def copied : Disk where
  files path :=
    if path = ["snapshots", "1", "f2f287c59cbca95ef6a2e73ce4bf2491.json"] then some (blankText "2")
    else if path = ["snapshots", "1", "e16425a49c45b1cd054d7a68e9611951.json"] then
      some (blankText "2")
    else none
  refuses _ := none

theorem blank_ids :
    mintId blankKeccak (blankText "1") = "f2f287c59cbca95ef6a2e73ce4bf2491" ∧
      mintId blankKeccak (blankText "2") = "e16425a49c45b1cd054d7a68e9611951" := by
  decide +kernel

/-- Resumed by the id of the snapshot of block 1, the state of block 2 comes back. -/
theorem copy_passes :
    blankStore.load (.only (blankFile 2) (blankText "2")) plainRaw
        (mintId blankKeccak (blankText "1")) copied = .ok (2, ⟨[], [], []⟩) ∧
      ¬ blankStore.Vouched (.only (blankFile 2) (blankText "2")) plainRaw blankKeccak
        (mintId blankKeccak (blankText "1")) copied := by
  have hload : blankStore.load (.only (blankFile 2) (blankText "2")) plainRaw
      "f2f287c59cbca95ef6a2e73ce4bf2491" copied = .ok (2, ⟨[], [], []⟩) := by
    decide +kernel
  rw [blank_ids.1]
  refine ⟨hload, fun h => ?_⟩
  obtain ⟨path, bytes, file, hpath, hread, hid, -⟩ := h _ hload
  obtain rfl : path = ["snapshots", "1", "f2f287c59cbca95ef6a2e73ce4bf2491.json"] :=
    (Except.ok.inj hpath).symm
  obtain rfl : bytes = blankText "2" := (Except.ok.inj hread).symm
  rw [blank_ids.2] at hid
  exact absurd hid (by decide)

namespace SnapshotStore

/-! ### What stores alone leave behind -/

variable {json : Json SnapshotFile} {raw : RawCode} {keccak256 : Bytes → B256}
  {store : SnapshotStore} {id : String} {disk disk' : Disk}

theorem pathFor_eq {path : Path} (h : store.pathFor id = .ok path) :
    path = store.dir ++ [toString store.chainId, s!"{id}.json"] := by
  unfold pathFor at h
  split at h
  · exact (Except.ok.inj h).symm
  · cases h

/-- No two ids share a path. -/
theorem pathFor_injective {other : String} {path : Path} (h : store.pathFor id = .ok path)
    (h' : store.pathFor other = .ok path) : id = other := by
  have hpath := (pathFor_eq h).symm.trans (pathFor_eq h')
  have hname : s!"{id}.json" = s!"{other}.json" := by simpa using hpath
  have hchars := congrArg String.toList hname
  simp only [String.toList_append] at hchars
  exact String.toList_injective (List.append_cancel_right hchars)

/-- INVARIANT: every file of the store's directory lies under its own id. -/
def Kept (store : SnapshotStore) (keccak256 : Bytes → B256) (disk : Disk) : Prop :=
  ∀ id path bytes, store.pathFor id = .ok path → disk.files path = some bytes →
    mintId keccak256 bytes = id

/-- The disk after one request to store a state. -/
def stored (json : Json SnapshotFile) (keccak256 : Bytes → B256) (store : SnapshotStore)
    (disk : Disk) (request : UInt64 × SessionState) : Disk :=
  match store.store json keccak256 request.1 request.2 disk with
  | .ok (_, disk) => disk
  | .error _ => disk

/-- STEP LEMMA: a store keeps every file under its own id. -/
theorem kept_stored (h : store.Kept keccak256 disk) (request : UInt64 × SessionState) :
    store.Kept keccak256 (stored json keccak256 store disk request) := by
  unfold stored
  split
  · rename_i info disk' hstore
    obtain ⟨bytes, path, -, rfl, hpath, ⟨-, rfl⟩ | ⟨-, hwrite⟩⟩ := store_cases hstore
    · exact h
    · obtain ⟨-, -, hfiles⟩ := writeAtomically_ok hwrite
      intro id path' bytes' hpath' hfile
      rw [hfiles] at hfile
      by_cases hsame : path' = path
      · subst hsame
        rw [Function.update_self] at hfile
        rw [← Option.some.inj hfile]
        exact pathFor_injective hpath hpath'
      · rw [Function.update_of_ne hsame] at hfile
        exact h id path' bytes' hpath' hfile
  · exact h

/-- RUN LEMMA: whatever is stored, in a directory that nothing else writes to every id vouches. -/
theorem vouched_run (requests : List (UInt64 × SessionState)) (h : store.Kept keccak256 disk) :
    store.Vouched json raw keccak256 id (runAll (stored json keccak256 store) disk requests) := by
  have hkept : store.Kept keccak256 (runAll (stored json keccak256 store) disk requests) :=
    runAll_inv (P := store.Kept keccak256) (fun _ request h => kept_stored h request) disk requests h
  rw [vouched_iff]
  intro path bytes file hpath hread _ _
  exact hkept id path bytes hpath (readFile_ok hread)

end SnapshotStore

end Forkyard
