import Forkyard.Engine.Vouch
import Forkyard.Session.Resume
import Forkyard.Session.Worker

/-! The id of a snapshot is a name for what the session holds of its own. `state` walks hash maps, in
    whatever order, over entries kept in the overlay, in what was inherited, inline or in the base;
    sorted by key and with the code gathered, none of that is left. So two sessions of one block
    encode to one file iff they hold the same accounts (but for where their code is), the same code
    by hash and the same slots; and a session resumed from a snapshot holds just what the session it
    was taken from held, so its own snapshot has the same id.

        own state ◀──iff──▶ record ──injective──▶ bytes ──keccak──▶ id
            ▲                                                        │
            └──────────────── restore ◀── load ◀─────────────────────┘ -/

namespace Forkyard

open Schemes

variable {F F' W W' E : Type}

/-! ### Taking a snapshot -/

inductive SnapshotError where
  | session (error : SessionError)
  | snapshot (reason : CacheError)
  deriving DecidableEq

namespace Session

/-- The session's own state and the block it is at. -/
def sessionState (order : HashOrder) (s : Session F) : Except SessionError (SessionState × UInt64) :=
  if s.blockEnv.number.toNat < 2 ^ 64 then
    .ok (s.state order, UInt64.ofNat s.blockEnv.number.toNat)
  else .error (.execution "block number does not fit a u64")

/-- What the worker replies is just that. -/
theorem stateReply_eq (order : HashOrder) (s : Session F) :
    stateReply order s = .state (s.sessionState order) := rfl

/-- Write the session's state to the store. -/
def snapshot (order : HashOrder) (json : Json SnapshotFile) (keccak256 : Bytes → B256)
    (store : SnapshotStore) (s : Session F) (disk : Disk) :
    Except SnapshotError (SnapshotInfo × Disk) :=
  match s.sessionState order with
  | .error e => .error (.session e)
  | .ok (state, blockNumber) =>
    (store.store json keccak256 blockNumber state disk).mapError .snapshot

/-- A session whose block fits is stored at that block. -/
theorem snapshot_at (order : HashOrder) (json : Json SnapshotFile) (keccak256 : Bytes → B256)
    (store : SnapshotStore) {s : Session F} {blockNumber : UInt64}
    (hblock : tryU64 s.blockEnv.number = some blockNumber) (disk : Disk) :
    s.snapshot order json keccak256 store disk
      = (store.store json keccak256 blockNumber (s.state order) disk).mapError .snapshot := by
  unfold tryU64 at hblock
  split at hblock
  · rename_i hfits
    obtain rfl := Option.some.inj hblock
    rw [snapshot, sessionState, if_pos hfits]
  · cases hblock

theorem snapshot_ok {order : HashOrder} {json : Json SnapshotFile} {keccak256 : Bytes → B256}
    {store : SnapshotStore} {s : Session F} {disk disk' : Disk} {info : SnapshotInfo}
    (h : s.snapshot order json keccak256 store disk = .ok (info, disk')) :
    ∃ blockNumber, tryU64 s.blockEnv.number = some blockNumber ∧
      store.store json keccak256 blockNumber (s.state order) disk = .ok (info, disk') := by
  cases hblock : tryU64 s.blockEnv.number with
  | none =>
    unfold tryU64 at hblock
    split at hblock
    · cases hblock
    · rename_i hfits
      rw [snapshot, sessionState, if_neg hfits] at h
      cases h
  | some blockNumber =>
    rw [snapshot_at order json keccak256 store hblock] at h
    refine ⟨blockNumber, rfl, ?_⟩
    cases hstore : store.store json keccak256 blockNumber (s.state order) disk with
    | error e => rw [hstore] at h; cases h
    | ok stored =>
      rw [hstore] at h
      exact congrArg Except.ok (Except.ok.inj h)

/-! ### What a session holds of its own, wherever it is kept -/

/-- The session holds the code under its hash: of its own, inline in an account of its own, or in the
    base for an account of its own. -/
def Holds (s : Session F) (codeHash : B256) (code : Bytecode) : Prop :=
  s.ownCode.lookup codeHash = some code ∨
    codeHash ≠ keccakEmpty ∧ ∃ address info, s.ownAccounts.lookup address = some info ∧
      info.codeHash = codeHash ∧ (info.code = some code ∨ s.base.code.lookup codeHash = some code)

/-- The code of every contract account of its own is somewhere in the session. -/
def Visible (s : Session F) : Prop :=
  ∀ address info, s.ownAccounts.lookup address = some info → info.codeHash ≠ keccakEmpty →
    info.code ≠ none ∨ s.ownCode.lookup info.codeHash ≠ none ∨
      s.base.code.lookup info.codeHash ≠ none

/-- Two sessions hold the same of their own. -/
structure SameOwn (s : Session F) (t : Session F') : Prop where
  accounts : ∀ address, (s.ownAccounts.lookup address).map AccountInfo.bare
    = (t.ownAccounts.lookup address).map AccountInfo.bare
  code : ∀ codeHash code, s.Holds codeHash code ↔ t.Holds codeHash code
  storage : s.ownStorage = t.ownStorage

/-- One account's code gathered adds that account's code and no other. -/
theorem gatherCode_adds {base : BaseSnapshot} {code : Map B256 Bytecode} {info : AccountInfo}
    {codeHash : B256} {bytecode : Bytecode}
    (h : (gatherCode base code info).lookup codeHash = some bytecode) :
    code.lookup codeHash = some bytecode ∨ codeHash ≠ keccakEmpty ∧ info.codeHash = codeHash ∧
      (info.code = some bytecode ∨ base.code.lookup codeHash = some bytecode) := by
  unfold gatherCode at h
  split at h
  · exact .inl h
  rename_i hskip
  rw [not_or] at hskip
  split at h
  · rename_i found hfound
    rcases Map.of_lookup_insert h with ⟨rfl, rfl⟩ | hold
    · refine .inr ⟨hskip.1, rfl, ?_⟩
      exact (Option.or_eq_some_iff.mp hfound).imp_right And.right
    · exact .inl hold
  · exact .inl h

/-- RUN LEMMA: gathering adds the code of the accounts gathered for and no other. -/
theorem foldl_gatherCode_adds {base : BaseSnapshot} {codeHash : B256} {bytecode : Bytecode} :
    ∀ {accounts : List (Address × AccountInfo)} {code : Map B256 Bytecode},
      (accounts.foldl (fun code kv => gatherCode base code kv.2) code).lookup codeHash
        = some bytecode →
      code.lookup codeHash = some bytecode ∨ codeHash ≠ keccakEmpty ∧ ∃ kv ∈ accounts,
        kv.2.codeHash = codeHash ∧
          (kv.2.code = some bytecode ∨ base.code.lookup codeHash = some bytecode)
  | [], _, h => .inl h
  | kv :: accounts, code, h => by
    rw [List.foldl_cons] at h
    rcases foldl_gatherCode_adds h with hone | ⟨hne, other, hmem, hother⟩
    · rcases gatherCode_adds hone with hold | ⟨hne, hinfo⟩
      · exact .inl hold
      · exact .inr ⟨hne, kv, List.mem_cons_self, hinfo⟩
    · exact .inr ⟨hne, other, List.mem_cons_of_mem kv hmem, hother⟩

variable {book : Codebook} {root : Lineage.Root F} {s : Session F} {u : Upstream E}

/-- All the code a session holds is where it belongs. -/
theorem Rooted.fits_of_holds (h : s.Rooted book root) (hroot : root.base.CoherentWith book u)
    {codeHash : B256} {code : Bytecode} (hcode : s.Holds codeHash code) :
    book.Fits codeHash code := by
  rcases hcode with hown | ⟨-, address, info, hget, rfl, hinline | hbase⟩
  · exact h.ownCodeOk hown
  · exact h.accountsOk address info hget code hinline
  · exact h.baseCodeOk hroot hbase

/-- What `state` gathers is what the session holds. -/
theorem Rooted.gathered_iff (h : s.Rooted book root) (hroot : root.base.CoherentWith book u)
    (order : HashOrder) (codeHash : B256) (code : Bytecode) :
    (s.gathered order).lookup codeHash = some code ↔ s.Holds codeHash code := by
  have hgathered := h.gathered hroot order
  constructor
  · intro hget
    rcases foldl_gatherCode_adds hget with hown | ⟨hne, ⟨address, info⟩, hmem, hinfo⟩
    · exact .inl hown
    · exact .inr ⟨hne, address, info, ((order.enumerates _).mem_iff address info).mp hmem, hinfo⟩
  · intro hcode
    have hfound : (s.gathered order).lookup codeHash ≠ none := by
      rcases hcode with hown | ⟨hne, address, info, hget, rfl, hinfo⟩
      · exact hgathered.keeps codeHash (hown ▸ Option.some_ne_none code)
      · refine hgathered.finds info ?_ hne (hinfo.imp ?_ ?_)
        · exact List.mem_map.mpr ⟨(address, info), ((order.enumerates _).mem_iff _ _).mpr hget, rfl⟩
        · exact fun hinline => hinline ▸ Option.some_ne_none code
        · exact fun hbase => hbase ▸ Option.some_ne_none code
    obtain ⟨found, hget⟩ := Option.ne_none_iff_exists'.mp hfound
    rw [hget, Codebook.fits_unique (hgathered.fits codeHash found hget)
      (h.fits_of_holds hroot hcode)]

/-- An own contract account of a session that can see its code has it gathered. -/
theorem Rooted.gathered_visible (h : s.Rooted book root) (hroot : root.base.CoherentWith book u)
    (hvisible : s.Visible) (order : HashOrder) {address : Address} {info : AccountInfo}
    (hget : s.ownAccounts.lookup address = some info) (hne : info.codeHash ≠ keccakEmpty) :
    (s.gathered order).lookup info.codeHash ≠ none := by
  have hholds : ∃ code, s.Holds info.codeHash code := by
    rcases hvisible address info hget hne with hinline | hown | hbase
    · obtain ⟨code, hcode⟩ := Option.ne_none_iff_exists'.mp hinline
      exact ⟨code, .inr ⟨hne, address, info, hget, rfl, .inl hcode⟩⟩
    · obtain ⟨code, hcode⟩ := Option.ne_none_iff_exists'.mp hown
      exact ⟨code, .inl hcode⟩
    · obtain ⟨code, hcode⟩ := Option.ne_none_iff_exists'.mp hbase
      exact ⟨code, .inr ⟨hne, address, info, hget, rfl, .inr hcode⟩⟩
  obtain ⟨code, hcode⟩ := hholds
  rw [(h.gathered_iff hroot order info.codeHash code).mpr hcode]
  exact Option.some_ne_none code

/-! ### The record is canonical -/

theorem toNat_injective {n : ℕ} : Function.Injective (BitVec.toNat : BitVec n → ℕ) :=
  fun _ _ => BitVec.eq_of_toNat_eq

theorem slotRank_injective : Function.Injective fun key : Address × StorageKey =>
    toLex (key.1.toNat, key.2.toNat) := by
  rintro ⟨address, index⟩ ⟨address', index'⟩ h
  obtain ⟨haddress, hindex⟩ := Prod.mk.inj (toLex.injective h)
  exact Prod.ext (toNat_injective haddress) (toNat_injective hindex)

/-- What is stored of an account is the account but for its code. -/
theorem map_storedAccount_eq_iff {l l' : List (Address × AccountInfo)} :
    l.map (fun kv => storedAccount kv.1 kv.2) = l'.map (fun kv => storedAccount kv.1 kv.2) ↔
      l.map (fun kv => (kv.1, kv.2.bare)) = l'.map (fun kv => (kv.1, kv.2.bare)) := by
  have hstored : ∀ l : List (Address × AccountInfo), l.map (fun kv => storedAccount kv.1 kv.2)
      = (l.map fun kv => (kv.1, kv.2.bare)).map fun kv => storedAccount kv.1 kv.2 := by
    intro l
    rw [List.map_map]
    rfl
  have hbare : ∀ l : List (Address × AccountInfo), l.map (fun kv => (kv.1, kv.2.bare))
      = (l.map fun kv => storedAccount kv.1 kv.2).map fun a =>
          (a.address, ⟨a.balance, a.nonce, a.codeHash, none⟩) := by
    intro l
    rw [List.map_map]
    rfl
  constructor
  · intro h
    rw [hbare l, hbare l', h]
  · intro h
    rw [hstored l, hstored l', h]

theorem encode_eq_iff (store : SnapshotStore) (order order' : HashOrder) (s : Session F)
    (t : Session F') (blockNumber blockNumber' : UInt64) :
    store.encode blockNumber (s.state order) = store.encode blockNumber' (t.state order') ↔
      blockNumber = blockNumber' ∧
      (∀ address, (s.ownAccounts.lookup address).map AccountInfo.bare
        = (t.ownAccounts.lookup address).map AccountInfo.bare) ∧
      s.gathered order = t.gathered order' ∧ s.ownStorage = t.ownStorage := by
  have haccounts := (order.enumerates s.ownAccounts).sorted_map_eq_iff
    (order'.enumerates t.ownAccounts) AccountInfo.bare (toNat_injective (n := 160))
  have hcode := (order.enumerates (s.gathered order)).sorted_eq_iff
    (order'.enumerates (t.gathered order')) (toNat_injective (n := 256))
  have hstorage := (order.enumerates s.ownStorage).sorted_eq_iff
    (order'.enumerates t.ownStorage) slotRank_injective
  have hslot : Function.Injective fun kv : (Address × StorageKey) × StorageValue =>
      (kv.1.1, kv.1.2, kv.2) := by
    rintro ⟨⟨address, index⟩, value⟩ ⟨⟨address', index'⟩, value'⟩ h
    cases h
    rfl
  rw [← haccounts, ← map_storedAccount_eq_iff, ← hcode, ← storedCode_injective.list_map.eq_iff,
    ← hstorage, ← hslot.list_map.eq_iff]
  simp only [SnapshotStore.encode, SnapshotFile.mk.injEq, Option.some.injEq, true_and]
  rfl

/-- EXACT: two sessions encode to one record iff they are at one block and hold the same. -/
theorem Rooted.encode_iff {root' : Lineage.Root F'} {t : Session F'} (h : s.Rooted book root)
    (hroot : root.base.CoherentWith book u) (h' : t.Rooted book root')
    (hroot' : root'.base.CoherentWith book u) (store : SnapshotStore) (order order' : HashOrder)
    (blockNumber blockNumber' : UInt64) :
    store.encode blockNumber (s.state order) = store.encode blockNumber' (t.state order') ↔
      blockNumber = blockNumber' ∧ s.SameOwn t := by
  rw [encode_eq_iff]
  constructor
  · rintro ⟨hblock, haccounts, hcode, hstorage⟩
    refine ⟨hblock, haccounts, fun codeHash code => ?_, hstorage⟩
    rw [← h.gathered_iff hroot order, ← h'.gathered_iff hroot' order', hcode]
  · rintro ⟨hblock, hsame⟩
    refine ⟨hblock, hsame.accounts, Finmap.ext_lookup fun codeHash => Option.ext fun code => ?_,
      hsame.storage⟩
    rw [h.gathered_iff hroot order, h'.gathered_iff hroot' order', hsame.code]

/-! ### A resumed session holds the same -/

/-- Laid over any coherent base, a session's own state is held again, no more and no less. -/
theorem Rooted.sameOwn_restore (h : s.Rooted book root) (hroot : root.base.CoherentWith book u)
    (hvisible : s.Visible) (order : HashOrder) {base : BaseSnapshot}
    (hbase : base.CoherentWith book u) (fallback : F') (blockEnv : BlockEnv) :
    s.SameOwn (restore base fallback blockEnv (s.state order).reloaded) := by
  obtain ⟨haccounts, hcode, hstorage⟩ := own_restore_reloaded order s base fallback blockEnv
  set t := restore base fallback blockEnv (s.state order).reloaded with ht
  change ∀ address, t.ownAccounts.lookup address
    = (s.ownAccounts.lookup address).map (refit (s.gathered order)) at haccounts
  change t.ownCode = s.gathered order at hcode
  change t.ownStorage = s.ownStorage at hstorage
  refine ⟨fun address => ?_, fun codeHash code => ?_, hstorage.symm⟩
  · rw [haccounts, Option.map_map]
    rfl
  · rw [← h.gathered_iff hroot order, Holds, hcode]
    constructor
    · exact .inl
    · rintro (hget | ⟨hne, address, info, hget, rfl, hinfo⟩)
      · exact hget
      rw [haccounts] at hget
      obtain ⟨old, hold, rfl⟩ := Option.map_eq_some_iff.mp hget
      -- its code was gathered; what the new base has under the hash is the same code
      obtain ⟨found, hfound⟩ := Option.ne_none_iff_exists'.mp
        (h.gathered_visible hroot hvisible order hold hne)
      rcases hinfo with hinline | hbased
      · exact hinline
      · have hfits := (h.gathered hroot order).fits old.codeHash found hfound
        rw [Codebook.fits_unique (hbase.code _ code hbased) hfits]
        exact hfound

end Session

/-! ### One record, one id -/

/-- Equal records are stored as equal bytes and described alike. -/
theorem store_info {json : Json SnapshotFile} {keccak256 : Bytes → B256} {store : SnapshotStore}
    {blockNumber blockNumber' : UInt64} {state state' : SessionState}
    {disk disk' other other' : Disk} {info info' : SnapshotInfo}
    (hsame : store.encode blockNumber state = store.encode blockNumber' state')
    (h : store.store json keccak256 blockNumber state disk = .ok (info, disk'))
    (h' : store.store json keccak256 blockNumber' state' other = .ok (info', other')) :
    info' = info := by
  obtain ⟨bytes, -, hbytes, rfl, -⟩ := SnapshotStore.store_cases h
  obtain ⟨bytes', -, hbytes', rfl, -⟩ := SnapshotStore.store_cases h'
  rw [hsame, hbytes'] at hbytes
  obtain rfl := Except.ok.inj hbytes
  have haccounts := congrArg (List.length ∘ SnapshotFile.accounts) hsame
  have hcode := congrArg (List.length ∘ SnapshotFile.code) hsame
  have hstorage := congrArg (List.length ∘ SnapshotFile.storage) hsame
  have hblock := congrArg SnapshotFile.blockNumber hsame
  simp only [SnapshotStore.encode, Function.comp_apply, List.length_map, Option.some.injEq]
    at haccounts hcode hstorage hblock
  rw [haccounts, hcode, hstorage, hblock]

/-- What is stored already is not written again. -/
theorem store_again {json : Json SnapshotFile} {keccak256 : Bytes → B256} {store : SnapshotStore}
    {blockNumber blockNumber' : UInt64} {state state' : SessionState} {disk disk' : Disk}
    {info : SnapshotInfo}
    (hsame : store.encode blockNumber state = store.encode blockNumber' state')
    (h : store.store json keccak256 blockNumber state disk = .ok (info, disk')) :
    store.store json keccak256 blockNumber' state' disk' = .ok (info, disk') := by
  have hresult : ∃ info', store.store json keccak256 blockNumber' state' disk'
      = .ok (info', disk') := by
    obtain ⟨bytes, path, hbytes, rfl, hpath, hwritten⟩ := SnapshotStore.store_cases h
    have hthere : (disk'.files path).isSome := by
      rcases hwritten with ⟨hsome, rfl⟩ | ⟨-, hwrite⟩
      · exact Option.isSome_iff_ne_none.mpr hsome
      · rw [(writeAtomically_ok hwrite).2.2, Function.update_self]
        rfl
    rw [hsame] at hbytes
    simp only [SnapshotStore.store, hbytes, hpath, hthere, if_true]
    exact ⟨_, rfl⟩
  obtain ⟨info', h'⟩ := hresult
  rw [h', store_info hsame h h']

namespace Session

variable {book : Codebook} {root : Lineage.Root F} {root' : Lineage.Root F'}
  {up : F → Upstream E} {db : DatabaseRef F W E} {I : W → Prop} {up' : F' → Upstream E}
  {db' : DatabaseRef F' W' E} {I' : W' → Prop}

/-- CANONICAL: of two sessions of one block, in two forests over bases of their own, whatever was
    done in either, the files are the same iff the sessions hold the same; then so are the ids. And a
    session resumed from a snapshot has that snapshot's id. -/
theorem snapshot_canonical (F'' : Type) (hdb : Faithful db up I) (hup : book.Delivers (up root.fallback))
    (hroot : root.base.CoherentWith book (up root.fallback)) {ops : List Lineage.Op}
    (hops : ∀ op ∈ ops, book.OpOk op) {w : W} (hw : I w) {id : SessionId} {s : Session F}
    (hs : (Lineage.run db root ops w).1.lookup id = some s) (hvisible : s.Visible)
    (hdb' : Faithful db' up' I') (hblock : up' root'.fallback = up root.fallback)
    (hroot' : root'.base.CoherentWith book (up root.fallback)) {ops' : List Lineage.Op}
    (hops' : ∀ op ∈ ops', book.OpOk op) {w' : W'} (hw' : I' w') {id' : SessionId} {t : Session F'}
    (ht : (Lineage.run db' root' ops' w').1.lookup id' = some t) {json : Json SnapshotFile}
    (raw : RawCode)
    (hheld : ∀ code ∈ book.known, raw.newRawChecked code.originalBytes = .ok code)
    (store : SnapshotStore) :
    (∀ (order order' : HashOrder) (blockNumber blockNumber' : UInt64) (bytes bytes' : Bytes),
      json.toVec (store.encode blockNumber (s.state order)) = .ok bytes →
      json.toVec (store.encode blockNumber' (t.state order')) = .ok bytes' →
      (bytes = bytes' ↔ blockNumber = blockNumber' ∧ s.SameOwn t)) ∧
    (s.blockEnv.number = t.blockEnv.number → s.SameOwn t →
      ∀ (order order' : HashOrder) (disk disk' other other' : Disk) (info info' : SnapshotInfo),
        s.snapshot order json book.keccak256 store disk = .ok (info, disk') →
        t.snapshot order' json book.keccak256 store other = .ok (info', other') →
        info' = info ∧ ((∀ bytes, store.Addressed book.keccak256 disk bytes) →
          (∀ bytes, store.Addressed book.keccak256 other bytes) →
          ∃ path bytes, store.pathFor info.id = .ok path ∧ disk'.files path = some bytes ∧
            other'.files path = some bytes)) ∧
    ∀ (order : HashOrder) (disk disk' : Disk) (info : SnapshotInfo),
      s.snapshot order json book.keccak256 store disk = .ok (info, disk') →
      (∀ path, store.pathFor info.id = .ok path → disk.refuses path = none) →
      (∀ bytes, store.Addressed book.keccak256 disk bytes) →
      ∃ blockNumber state, tryU64 s.blockEnv.number = some blockNumber ∧
        store.load json raw info.id disk' = .ok (blockNumber, state) ∧
        ∀ (base : BaseSnapshot) (fallback : F'') (blockEnv : BlockEnv),
          base.CoherentWith book (up root.fallback) → tryU64 blockEnv.number = some blockNumber →
          ∀ order' : HashOrder,
            (restore base fallback blockEnv state).snapshot order' json book.keccak256 store disk'
              = .ok (info, disk') ∧
            ∀ (other other' : Disk) (info' : SnapshotInfo),
              (restore base fallback blockEnv state).snapshot order' json book.keccak256 store other
                = .ok (info', other') → info' = info := by
  have h : s.Rooted book root := (Lineage.allRooted_run hdb hup hops hw).1 id s hs
  have h' : t.Rooted book root' :=
    (Lineage.allRooted_run hdb' (hblock ▸ hup) hops' hw').1 id' t ht
  refine ⟨?_, ?_, ?_⟩
  · intro order order' blockNumber blockNumber' bytes bytes' hbytes hbytes'
    rw [← h.encode_iff hroot h' hroot' store order order']
    constructor
    · rintro rfl
      have hparse := json.faithful hbytes
      rw [json.faithful hbytes'] at hparse
      exact (Except.ok.inj hparse).symm
    · intro hsame
      rw [hsame, hbytes'] at hbytes
      exact (Except.ok.inj hbytes).symm
  · intro hnumber hsame order order' disk disk' other other' info info' hinfo hinfo'
    obtain ⟨blockNumber, hfits, hstore⟩ := snapshot_ok hinfo
    obtain ⟨blockNumber', hfits', hstore'⟩ := snapshot_ok hinfo'
    rw [hnumber, hfits'] at hfits
    obtain rfl := Option.some.inj hfits
    have hrecord := (h.encode_iff hroot h' hroot' store order order' blockNumber'
      blockNumber').mpr ⟨rfl, hsame⟩
    refine ⟨store_info hrecord hstore hstore', fun haddressed haddressed' => ?_⟩
    obtain ⟨bytes, path, hbytes, hpath, hfile, -⟩ :=
      SnapshotStore.store_files hstore fun bytes _ => haddressed bytes
    obtain ⟨bytes', path', hbytes', hpath', hfile', -⟩ :=
      SnapshotStore.store_files hstore' fun bytes _ => haddressed' bytes
    rw [store_info hrecord hstore hstore', hpath] at hpath'
    rw [hrecord, hbytes'] at hbytes
    obtain rfl := Except.ok.inj hpath'
    obtain rfl := Except.ok.inj hbytes
    exact ⟨path, bytes', hpath, hfile, hfile'⟩
  · intro order disk disk' info hinfo hreads haddressed
    obtain ⟨blockNumber, hfits, hstore⟩ := snapshot_ok hinfo
    have hcode := (h.stateOk_reloaded hroot order).2
    have hload : store.load json raw info.id disk' = .ok (blockNumber, (s.state order).reloaded) :=
      load_store hstore hreads (fun bytes _ => haddressed bytes)
        fun entry hmem => hheld entry.2 (hcode entry hmem).1
    refine ⟨blockNumber, (s.state order).reloaded, hfits, hload, ?_⟩
    intro base fallback blockEnv hbase hnumber order'
    have hrestored : (restore base fallback blockEnv (s.state order).reloaded).Rooted book
        ⟨base, fallback, blockEnv⟩ := rooted_restore (h.stateOk_reloaded hroot order)
    have hrecord := (h.encode_iff hroot hrestored hbase store order order' blockNumber
      blockNumber).mpr ⟨rfl, h.sameOwn_restore hroot hvisible order hbase fallback blockEnv⟩
    refine ⟨?_, fun other other' info' hagain => ?_⟩
    · rw [snapshot_at order' json book.keccak256 store hnumber, store_again hrecord hstore]
      rfl
    · obtain ⟨blockNumber', hfits', hagain⟩ := snapshot_ok hagain
      obtain rfl := Option.some.inj (hnumber.symm.trans hfits')
      exact store_info hrecord hstore hagain

end Session

/-- The contract of its own, resumed beside its twin and written out again. -/
theorem snapshot_canonical_contract :
    ∃ info disk' state,
      (twin (some stopCode)).snapshot .some (.only (twinFile (some stopCode)) contractText) twinKeccak
        twinStore emptyDisk = .ok (info, disk') ∧
      twinStore.load (.only (twinFile (some stopCode)) contractText) twinRaw info.id disk'
        = .ok (1, state) ∧
      (Session.restore twinBase () twinRoot.blockEnv state).snapshot .some
        (.only (twinFile (some stopCode)) contractText) twinKeccak twinStore disk'
          = .ok (info, disk') := by
  have hops : ∀ op ∈ twinOps (some stopCode), twinBook.OpOk op :=
    twin_opOk fun _ h => (Option.some.inj h).symm
  have hvisible : (twin (some stopCode)).Visible := by
    intro address info hget _
    rcases Map.of_lookup_insert (Map.of_lookup_union hget |>.resolve_right nofun) with
      ⟨-, rfl⟩ | hold
    · exact .inl (Option.some_ne_none _)
    · cases hold
  obtain ⟨info, disk', hstore, -⟩ := twin_stored (some stopCode) contractText
  have hinfo : (twin (some stopCode)).snapshot .some (.only (twinFile (some stopCode)) contractText)
      twinKeccak twinStore emptyDisk = .ok (info, disk') := by
    have hblock : tryU64 (twin (some stopCode)).blockEnv.number = some 1 := rfl
    rw [Session.snapshot_at _ _ _ _ hblock, hstore]
    rfl
  obtain ⟨-, -, hresume⟩ := Session.snapshot_canonical Unit
    (Session.faithful_upstream fun _ => twinChain) twin_delivers (coherent_empty _ _) hops trivial
    (twin_run (some stopCode)) hvisible (Session.faithful_upstream fun _ => twinChain) rfl
    (coherent_empty _ _) hops trivial (twin_run (some stopCode)) twinRaw
    (fun _ _ => rfl) twinStore
  obtain ⟨blockNumber, state, hblock, hload, hagain⟩ := hresume .some emptyDisk disk' info hinfo
    (fun _ _ => rfl) (fun _ _ _ _ hold => by cases hold)
  obtain rfl : 1 = blockNumber := Option.some.inj hblock
  exact ⟨info, disk', state, hinfo, hload,
    (hagain twinBase () twinRoot.blockEnv twinBase_coherent rfl .some).1⟩

end Forkyard
