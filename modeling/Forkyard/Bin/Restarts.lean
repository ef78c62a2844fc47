import Forkyard.Bin.PersistCache
import Forkyard.Fetch.Batch
import Forkyard.Session.Seeded

/-! A process started again and again at one block. Each start seeds its sessions with the block's
    cache file, if there is one it can use; what they miss is fetched, and `persist_cache` writes that
    over what was seeded. A seeded read never reaches the backend, so what is fetched grows ever
    smaller, and all that keeps the file whole is the merge.

        file ──load──▶ base ──▶ sessions ──miss──▶ backend ──▶ upstream
          ▲             │                             │
          └── store ────┴──── merged_with ◀───────────┘ cache_snapshot -/

namespace Forkyard

open Schemes

variable {E : Type}

/-! ### Reading through the backend -/

/-- What was fetched is what upstream has; a block hash whose number does not fit is no one's. -/
def Fetched.From (u : Upstream E) : Fetched → Prop
  | .account address info => u.basic address = .ok (some info)
  | .slot address index value => u.storage address index = .ok value
  | .blockHash number hash => ∀ n, tryU64 number = some n → u.blockHash n = .ok hash

/-- `SharedBackend`, of another crate: a read is answered from the `BlockchainDb` or from upstream,
    and may leave something there. -/
structure SharedBackend (E : Type) where
  basic : Address → BlockchainDb → Except E (Option AccountInfo) × BlockchainDb
  code : B256 → Except E Bytecode
  slot : Address → U256 → BlockchainDb → Except E U256 × BlockchainDb
  hash : UInt64 → BlockchainDb → Except E B256 × BlockchainDb

namespace BlockchainDb

/-- What it has, else upstream's answer, which it keeps. -/
def basic (u : Upstream E) (address : Address) (db : BlockchainDb) :
    Except E (Option AccountInfo) × BlockchainDb :=
  match db.accounts.lookup address with
  | some info => (.ok (some info), db)
  | none =>
    match u.basic address with
    | .error e => (.error e, db)
    | .ok none => (.ok none, db)
    | .ok (some info) => (.ok (some info), db.insert (.account address info))

def slot (u : Upstream E) (address : Address) (index : U256) (db : BlockchainDb) :
    Except E U256 × BlockchainDb :=
  match (db.storage.lookup address).bind (·.lookup index) with
  | some value => (.ok value, db)
  | none =>
    match u.storage address index with
    | .error e => (.error e, db)
    | .ok value => (.ok value, db.insert (.slot address index value))

def hash (u : Upstream E) (number : UInt64) (db : BlockchainDb) : Except E B256 × BlockchainDb :=
  match db.blockHashes.lookup (.ofNat 256 number.toNat) with
  | some hash => (.ok hash, db)
  | none =>
    match u.blockHash number with
    | .error e => (.error e, db)
    | .ok hash => (.ok hash, db.insert (.blockHash (.ofNat 256 number.toNat) hash))

def has (db : BlockchainDb) : StateKey → Bool
  | .account address => (db.accounts.lookup address).isSome
  | .storage address index => ((db.storage.lookup address).bind (·.lookup index)).isSome
  | .blockHash number => (db.blockHashes.lookup (.ofNat 256 number.toNat)).isSome

/-- INVARIANT: all that is kept is upstream's. -/
def Agrees (db : BlockchainDb) (u : Upstream E) : Prop := ∀ piece, db.Holds piece → piece.From u

variable {u : Upstream E} {db : BlockchainDb}

theorem agrees_empty (u : Upstream E) : empty.Agrees u := by
  intro piece h
  cases piece with
  | account address info => simp [Holds, empty] at h
  | slot address index value => simp [Holds, empty] at h
  | blockHash number hash => simp [Holds, empty] at h

theorem agrees_insert (h : db.Agrees u) {piece : Fetched} (hpiece : piece.From u) :
    (db.insert piece).Agrees u := by
  intro other hother
  rcases insert_holds hother with rfl | hold
  · exact hpiece
  · exact h other hold

theorem basic_spec (h : db.Agrees u) (address : Address) :
    (db.basic u address).1 = u.basic address ∧ (db.basic u address).2.Agrees u := by
  unfold basic
  split
  · rename_i info hget
    have hread : u.basic address = .ok (some info) := h (.account address info) hget
    exact ⟨hread.symm, h⟩
  · split
    · rename_i hread
      exact ⟨hread.symm, h⟩
    · rename_i hread
      exact ⟨hread.symm, h⟩
    · rename_i hread
      exact ⟨hread.symm, agrees_insert h hread⟩

theorem slot_spec (h : db.Agrees u) (address : Address) (index : U256) :
    (db.slot u address index).1 = u.storage address index ∧
      (db.slot u address index).2.Agrees u := by
  unfold slot
  split
  · rename_i value hget
    obtain ⟨slots, hslots, hvalue⟩ := Option.bind_eq_some_iff.mp hget
    have hread : u.storage address index = .ok value :=
      h (.slot address index value) ⟨slots, hslots, hvalue⟩
    exact ⟨hread.symm, h⟩
  · split
    · rename_i hread
      exact ⟨hread.symm, h⟩
    · rename_i hread
      exact ⟨hread.symm, agrees_insert h hread⟩

theorem hash_spec (h : db.Agrees u) (number : UInt64) :
    (db.hash u number).1 = u.blockHash number ∧ (db.hash u number).2.Agrees u := by
  unfold hash
  split
  · rename_i hash hget
    have hread : u.blockHash number = .ok hash :=
      h (.blockHash _ hash) hget number (tryU64_eq_some_iff.mpr rfl)
    exact ⟨hread.symm, h⟩
  · split
    · rename_i hread
      exact ⟨hread.symm, h⟩
    · rename_i hash hread
      refine ⟨hread.symm, agrees_insert h fun n hn => ?_⟩
      have hfits : tryU64 (.ofNat 256 number.toNat) = some number := tryU64_eq_some_iff.mpr rfl
      rw [← Option.some.inj (hfits.symm.trans hn), hread]

end BlockchainDb

namespace SharedBackend

/-- What is documented of a read at one block: upstream's answer, and nothing but upstream's is
    kept. -/
structure Documented (backend : SharedBackend E) (u : Upstream E) : Prop where
  basic_spec : ∀ db : BlockchainDb, db.Agrees u → ∀ address,
    (backend.basic address db).1 = u.basic address ∧ (backend.basic address db).2.Agrees u
  code_spec : ∀ codeHash, backend.code codeHash = u.codeByHash codeHash
  slot_spec : ∀ db : BlockchainDb, db.Agrees u → ∀ address index,
    (backend.slot address index db).1 = u.storage address index ∧
      (backend.slot address index db).2.Agrees u
  hash_spec : ∀ db : BlockchainDb, db.Agrees u → ∀ number,
    (backend.hash number db).1 = u.blockHash number ∧ (backend.hash number db).2.Agrees u

/-- What is documented of a miss: what upstream has is kept. -/
structure Caches (backend : SharedBackend E) (u : Upstream E) : Prop where
  basic_miss : ∀ (db : BlockchainDb) address info, db.has (.account address) = false →
    u.basic address = .ok (some info) →
      backend.basic address db = (.ok (some info), db.insert (.account address info))
  slot_miss : ∀ (db : BlockchainDb) address index value, db.has (.storage address index) = false →
    u.storage address index = .ok value →
      backend.slot address index db = (.ok value, db.insert (.slot address index value))

/-- A backend that fetches whatever it does not have. -/
def fetching (u : Upstream E) : SharedBackend E :=
  ⟨BlockchainDb.basic u, u.codeByHash, BlockchainDb.slot u, BlockchainDb.hash u⟩

theorem fetching_documented (u : Upstream E) : (fetching u).Documented u where
  basic_spec _ hdb address := BlockchainDb.basic_spec hdb address
  code_spec _ := rfl
  slot_spec _ hdb address index := BlockchainDb.slot_spec hdb address index
  hash_spec _ hdb number := BlockchainDb.hash_spec hdb number

theorem fetching_caches (u : Upstream E) : (fetching u).Caches u where
  basic_miss db address info hmiss hread := by
    rw [BlockchainDb.has, Option.isSome_eq_false_iff, Option.isNone_iff_eq_none] at hmiss
    simp only [fetching, BlockchainDb.basic, hmiss, hread]
  slot_miss db address index value hmiss hread := by
    rw [BlockchainDb.has, Option.isSome_eq_false_iff, Option.isNone_iff_eq_none] at hmiss
    simp only [fetching, BlockchainDb.slot, hmiss, hread]

end SharedBackend

namespace Stores

def empty : Stores := ⟨.empty, .empty⟩

/-- One read for real: the cache, else the backend, whose errors are never cached. -/
def through {V : Type} (cached : ReadCache → Option V) (insert : V → ReadCache → ReadCache)
    (inner : BlockchainDb → Except E V × BlockchainDb) (s : Stores) : Except E V × Stores :=
  match cached s.cache with
  | some hit => (.ok hit, s)
  | none =>
    match inner s.db with
    | (.error e, db) => (.error e, ⟨s.cache, db⟩)
    | (.ok value, db) => (.ok value, ⟨insert value s.cache, db⟩)

section Backend

variable (backend : SharedBackend E)

def basicRef (address : Address) : Stores → Except E (Option AccountInfo) × Stores :=
  through (fun c => c.accounts.lookup address)
    (fun info c => { c with accounts := c.accounts.insert address info }) (backend.basic address)

def storageRef (address : Address) (index : U256) : Stores → Except E U256 × Stores :=
  through (fun c => c.storage.lookup (address, index))
    (fun value c => { c with storage := c.storage.insert (address, index) value })
    (backend.slot address index)

def blockHashRef (number : UInt64) : Stores → Except E B256 × Stores :=
  through (fun c => c.blockHashes.lookup number)
    (fun hash c => { c with blockHashes := c.blockHashes.insert number hash }) (backend.hash number)

/-- The one fork of the process, as its sessions read through it. -/
def forkDb : DatabaseRef Unit Stores E where
  basicRef _ := basicRef backend
  codeByHashRef _ codeHash s := (backend.code codeHash, s)
  storageRef _ := storageRef backend
  blockHashRef _ := blockHashRef backend

/-- `resolve` on one key. -/
def resolve (s : Stores) : StateKey → Stores
  | .account address => (basicRef backend address s).2
  | .storage address index => (storageRef backend address index s).2
  | .blockHash number => (blockHashRef backend number s).2

end Backend

/-- INVARIANT: all that is cached or kept is upstream's. -/
structure Coherent (u : Upstream E) (s : Stores) : Prop where
  cache : s.cache.Agrees u
  db : s.db.Agrees u

variable {backend : SharedBackend E} {u : Upstream E}

theorem coherent_empty (u : Upstream E) : Coherent u empty :=
  ⟨ReadCache.agrees_empty u, BlockchainDb.agrees_empty u⟩

/-- SPEC of a read through both. -/
theorem through_spec {V : Type} {cached : ReadCache → Option V} {insert : V → ReadCache → ReadCache}
    {inner : BlockchainDb → Except E V × BlockchainDb} {truth : Except E V}
    (hhit : ∀ c v, c.Agrees u → cached c = some v → truth = .ok v)
    (hput : ∀ c v, c.Agrees u → truth = .ok v → (insert v c).Agrees u)
    (hinner : ∀ db, db.Agrees u → (inner db).1 = truth ∧ (inner db).2.Agrees u) {s : Stores}
    (h : s.Coherent u) :
    (through cached insert inner s).1 = truth ∧ (through cached insert inner s).2.Coherent u := by
  unfold through
  split
  · rename_i hit hcached
    exact ⟨(hhit _ hit h.cache hcached).symm, h⟩
  · obtain ⟨hanswer, hkept⟩ := hinner s.db h.db
    split
    · rename_i e db hread
      rw [hread] at hanswer hkept
      exact ⟨hanswer, h.cache, hkept⟩
    · rename_i value db hread
      rw [hread] at hanswer hkept
      exact ⟨hanswer, hput _ value h.cache hanswer.symm, hkept⟩

variable {s : Stores}

theorem basicRef_spec (hbackend : backend.Documented u) (h : s.Coherent u) (address : Address) :
    (basicRef backend address s).1 = u.basic address ∧ (basicRef backend address s).2.Coherent u :=
  through_spec (fun _ v hc hv => hc.accounts address v hv)
    (fun _ _ hc hv => ReadCache.agrees_account hc hv)
    (fun db hdb => hbackend.basic_spec db hdb address) h

theorem storageRef_spec (hbackend : backend.Documented u) (h : s.Coherent u) (address : Address)
    (index : U256) : (storageRef backend address index s).1 = u.storage address index ∧
      (storageRef backend address index s).2.Coherent u :=
  through_spec (fun _ v hc hv => hc.storage address index v hv)
    (fun _ _ hc hv => ReadCache.agrees_slot hc hv)
    (fun db hdb => hbackend.slot_spec db hdb address index) h

theorem blockHashRef_spec (hbackend : backend.Documented u) (h : s.Coherent u) (number : UInt64) :
    (blockHashRef backend number s).1 = u.blockHash number ∧
      (blockHashRef backend number s).2.Coherent u :=
  through_spec (fun _ v hc hv => hc.blockHashes number v hv)
    (fun _ _ hc hv => ReadCache.agrees_hash hc hv)
    (fun db hdb => hbackend.hash_spec db hdb number) h

theorem coherent_resolve (hbackend : backend.Documented u) (h : s.Coherent u) (key : StateKey) :
    (s.resolve backend key).Coherent u := by
  cases key with
  | account address => exact (basicRef_spec hbackend h address).2
  | storage address index => exact (storageRef_spec hbackend h address index).2
  | blockHash number => exact (blockHashRef_spec hbackend h number).2

/-- A session that reads through the fork reads upstream. -/
theorem faithful_forkDb (hbackend : backend.Documented u) :
    Session.Faithful (forkDb backend) (fun _ => u) (Coherent u) where
  basic _ address := ⟨fun _ _ => trivial, fun _ h => (basicRef_spec hbackend h address).2,
    fun _ h _ => (basicRef_spec hbackend h address).1⟩
  codeByHash _ codeHash := ⟨fun _ _ => trivial, fun _ h => h,
    fun _ _ _ => hbackend.code_spec codeHash⟩
  storage _ address index := ⟨fun _ _ => trivial,
    fun _ h => (storageRef_spec hbackend h address index).2,
    fun _ h _ => (storageRef_spec hbackend h address index).1⟩
  blockHash _ number := ⟨fun _ _ => trivial, fun _ h => (blockHashRef_spec hbackend h number).2,
    fun _ h _ => (blockHashRef_spec hbackend h number).1⟩

/-- A batch that is answered for the block lands what a read of each of its keys would. -/
theorem land_eq_resolve (hbackend : backend.Caches u) {batch : Batcher} {call : Called}
    {s' : Stores} (hland : call.land batch s = .ok s') (hs' : s'.Coherent u)
    (hcache : s.cache.has call.key = false) (hdb : s.db.has call.key = false) :
    s' = s.resolve backend call.key := by
  cases call with
  | account address balance nonce code =>
    simp only [Called.key, ReadCache.has, Option.isSome_eq_false_iff, Option.isNone_iff_eq_none]
      at hcache
    cases balance with
    | error e => cases hland
    | ok balance =>
      cases nonce with
      | error e => cases hland
      | ok nonce =>
        cases code with
        | error e => cases hland
        | ok code =>
          change (batch.info address balance nonce code >>= _) = _ at hland
          cases hinfo : batch.info address balance nonce code with
          | error e =>
            rw [hinfo] at hland
            cases hland
          | ok info =>
            rw [hinfo] at hland
            obtain rfl := Except.ok.inj hland
            have hread : u.basic address = .ok (some info) :=
              hs'.cache.accounts address (some info) (Finmap.lookup_insert _)
            simp only [resolve, Called.key, basicRef, through, hcache,
              hbackend.basic_miss s.db address info hdb hread]
  | slot address index value =>
    simp only [Called.key, ReadCache.has, Option.isSome_eq_false_iff, Option.isNone_iff_eq_none]
      at hcache
    cases value with
    | error e => cases hland
    | ok value =>
      obtain rfl := Except.ok.inj hland
      have hread : u.storage address index = .ok value :=
        hs'.cache.storage address index value (Finmap.lookup_insert _)
      simp only [resolve, Called.key, storageRef, through, hcache,
        hbackend.slot_miss s.db address index value hdb hread]

end Stores

/-! ### Snapshots that say what upstream does -/

/-- What upstream has of its block. -/
def Upstream.Says (u : Upstream E) : CacheEntry → Prop
  | .account account => ∃ info, u.basic account.address = .ok (some info) ∧
      storedAccount account.address info = account
  | .code code => ∃ address info bytecode, u.basic address = .ok (some info) ∧
      info.codeHash = code.hash ∧ info.code = some bytecode ∧ bytecode.originalBytes = code.bytes
  | .slot address index value => u.storage address index = .ok value
  | .blockHash number hash => u.blockHash number = .ok hash

/-- INVARIANT of all that is loaded, merged and stored: it agrees with upstream, the code of each of
    its accounts is in its code map, and all code there is some account's. -/
structure BaseSnapshot.Genuine (base : BaseSnapshot) (book : Codebook) (u : Upstream E) : Prop where
  coherent : base.CoherentWith book u
  found : ∀ address info, base.accounts.lookup address = some info → info.codeHash ≠ keccakEmpty →
    base.code.lookup info.codeHash ≠ none
  owned : ∀ codeHash code, base.code.lookup codeHash = some code → ∃ address info,
    u.basic address = .ok (some info) ∧ info.codeHash = codeHash ∧ info.code = some code

theorem storedAccount_bare {info info' : AccountInfo} (h : info.bare = info'.bare)
    (address : Address) : storedAccount address info = storedAccount address info' :=
  (congrArg (storedAccount address) h :
    storedAccount address info.bare = storedAccount address info'.bare)

namespace BaseSnapshot

variable {book : Codebook} {u : Upstream E} {base newer : BaseSnapshot}

theorem Genuine.agrees (h : base.Genuine book u) {entry : CacheEntry} (hentry : base.Says entry) :
    u.Says entry := by
  cases entry with
  | account account =>
    obtain ⟨info, hget, hstored⟩ := hentry
    obtain ⟨read, hread, hbare⟩ := h.coherent.accounts account.address info hget
    exact ⟨read, hread, (storedAccount_bare hbare _).symm.trans hstored⟩
  | code code =>
    obtain ⟨bytecode, hget, hbytes⟩ := hentry
    obtain ⟨address, info, hread, hhash, hcode⟩ := h.owned code.hash bytecode hget
    exact ⟨address, info, bytecode, hread, hhash, hcode, hbytes⟩
  | slot address index value => exact h.coherent.storage address index value hentry
  | blockHash number hash => exact h.coherent.blockHashes number hash hentry

/-- Merged over, an entry stays: what is laid over it is upstream's as well. -/
theorem Genuine.kept (h : base.Genuine book u) (hnewer : newer.Genuine book u) {entry : CacheEntry}
    (hentry : base.Says entry) : (base.mergedWith newer).Says entry := by
  cases entry with
  | account account =>
    obtain ⟨info, hget, hstored⟩ := hentry
    simp only [Says, mergedWith, Map.lookup_union, hget]
    cases hover : newer.accounts.lookup account.address with
    | none => exact ⟨info, rfl, hstored⟩
    | some info' =>
      refine ⟨info', rfl, ?_⟩
      obtain ⟨read, hread, hbare⟩ := h.coherent.accounts account.address info hget
      obtain ⟨read', hread', hbare'⟩ := hnewer.coherent.accounts account.address info' hover
      obtain rfl := Option.some.inj (Except.ok.inj (hread.symm.trans hread'))
      exact (storedAccount_bare (hbare'.trans hbare.symm) _).trans hstored
  | code code =>
    obtain ⟨bytecode, hget, hbytes⟩ := hentry
    simp only [Says, mergedWith, Map.lookup_union, hget]
    cases hover : newer.code.lookup code.hash with
    | none => exact ⟨bytecode, rfl, hbytes⟩
    | some bytecode' =>
      have hsame : bytecode' = bytecode := Codebook.fits_unique
        (hnewer.coherent.code code.hash bytecode' hover) (h.coherent.code code.hash bytecode hget)
      exact ⟨bytecode', rfl, hsame ▸ hbytes⟩
  | slot address index value =>
    have hget : base.storage.lookup (address, index) = some value := hentry
    simp only [Says, mergedWith, Map.lookup_union, hget]
    cases hover : newer.storage.lookup (address, index) with
    | none => rfl
    | some value' =>
      have hsame := (hnewer.coherent.storage address index value' hover).symm.trans
        (h.coherent.storage address index value hget)
      rw [Option.some_or, Except.ok.inj hsame]
  | blockHash number hash =>
    have hget : base.blockHashes.lookup number = some hash := hentry
    simp only [Says, mergedWith, Map.lookup_union, hget]
    cases hover : newer.blockHashes.lookup number with
    | none => rfl
    | some hash' =>
      have hsame := (hnewer.coherent.blockHashes number hash' hover).symm.trans
        (h.coherent.blockHashes number hash hget)
      rw [Option.some_or, Except.ok.inj hsame]

theorem genuine_merged (h : base.Genuine book u) (hnewer : newer.Genuine book u) :
    (base.mergedWith newer).Genuine book u := by
  have hfound : ∀ address info, (base.mergedWith newer).accounts.lookup address = some info →
      info.codeHash ≠ keccakEmpty → (base.mergedWith newer).code.lookup info.codeHash ≠ none := by
    intro address info hget hne hnone
    obtain ⟨hnone', hnone⟩ := Option.or_eq_none_iff.mp ((Map.lookup_union _ _ _).symm.trans hnone)
    rcases Map.of_lookup_union hget with hget | hget
    · exact hnewer.found address info hget hne hnone'
    · exact h.found address info hget hne hnone
  refine ⟨⟨fun address info hget => ?_, fun address info hget => ⟨?_, fun hne _ => ?_⟩,
    fun codeHash code hget => ?_, fun address index value hget => ?_, fun number hash hget => ?_⟩,
    hfound, fun codeHash code hget => ?_⟩
  · exact (Map.of_lookup_union hget).elim (hnewer.coherent.accounts address info)
      (h.coherent.accounts address info)
  · exact (Map.of_lookup_union hget).elim (fun hget => (hnewer.coherent.inline address info hget).1)
      fun hget => (h.coherent.inline address info hget).1
  · exact hfound address info hget hne
  · exact (Map.of_lookup_union hget).elim (hnewer.coherent.code codeHash code)
      (h.coherent.code codeHash code)
  · exact (Map.of_lookup_union hget).elim (hnewer.coherent.storage address index value)
      (h.coherent.storage address index value)
  · exact (Map.of_lookup_union hget).elim (hnewer.coherent.blockHashes number hash)
      (h.coherent.blockHashes number hash)
  · exact (Map.of_lookup_union hget).elim (hnewer.owned codeHash code) (h.owned codeHash code)

/-- ROUND TRIP: through a file and back, a snapshot says what it said. -/
theorem genuine_loaded (h : base.Genuine book u) {raw : RawCode} {path : Path} {key : CacheKey}
    {order : HashOrder} {env : Option StoredBlockEnv} {loaded : BaseSnapshot}
    {blockEnv : Option BlockEnv}
    (hload : ForkCache.decode raw path key (ForkCache.encode order key base env)
      = .ok (loaded, blockEnv)) :
    loaded.Genuine book u ∧ ∀ entry, loaded.Says entry ↔ base.Says entry := by
  obtain ⟨haccounts, hcode, hstorage, hblockHashes⟩ := cache_decode_encode hload
  refine ⟨⟨coherent_loaded h.coherent h.found hload, fun address info hget hne => ?_, ?_⟩, ?_⟩
  · rw [haccounts] at hget
    obtain ⟨info, hold, rfl⟩ := Option.map_eq_some_iff.mp hget
    rw [hcode]
    exact h.found address info hold hne
  · rw [hcode]
    exact h.owned
  · intro entry
    cases entry with
    | account account =>
      simp only [Says, haccounts]
      cases base.accounts.lookup account.address with
      | none => simp
      | some info => simp [storedAccount, refit]
    | code code => simp only [Says, hcode]
    | slot address index value => simp only [Says, hstorage]
    | blockHash number hash => simp only [Says, hblockHashes]

end BaseSnapshot

/-- What a piece of upstream's puts into a file is upstream's: code files itself under the hash of its
    bytes, which is that of its account. -/
theorem Fetched.From.agrees {book : Codebook} {u : Upstream E} (hup : book.Delivers u) {piece : Fetched}
    (h : piece.From u) {entry : CacheEntry} (hentries : piece.Says book.keccak256 entry) :
    u.Says entry := by
  cases piece with
  | account address info =>
    rcases hentries with rfl | ⟨code, hcode, rfl⟩
    · exact ⟨info, h, rfl⟩
    · exact ⟨address, info, code, h, ((hup.inline address info h).1 code hcode).2.symm, hcode, rfl⟩
  | slot address index value =>
    obtain rfl := hentries
    exact h
  | blockHash number hash =>
    obtain ⟨n, hn, rfl⟩ := hentries
    exact h n hn

/-- What a backend of the block hands over is genuine. -/
theorem genuine_cacheSnapshot {book : Codebook} {u : Upstream E} (hup : book.Delivers u)
    (order : HashOrder) {db : BlockchainDb} (hdb : db.Agrees u) :
    (cacheSnapshot order book.keccak256 db).Genuine book u := by
  have hentries : ∀ entry, (cacheSnapshot order book.keccak256 db).Says entry → u.Says entry := by
    intro entry hentry
    obtain ⟨piece, hholds, hsaid⟩ := cacheSnapshot_says hentry
    exact (hdb piece hholds).agrees hup hsaid
  have haccounts : (cacheSnapshot order book.keccak256 db).accounts = db.accounts :=
    (order.enumerates db.accounts).extend_eq
  have hread : ∀ address info, db.accounts.lookup address = some info →
      u.basic address = .ok (some info) := fun address info hget => hdb (.account address info) hget
  have howned : ∀ codeHash code, (cacheSnapshot order book.keccak256 db).code.lookup codeHash
      = some code → ∃ address info, u.basic address = .ok (some info) ∧ info.codeHash = codeHash ∧
        info.code = some code := by
    intro codeHash code hget
    obtain ⟨address, info, bytecode, hinfo, hhash, hcode, hbytes⟩ :=
      hentries (.code ⟨codeHash, code.originalBytes⟩) ⟨code, hget, rfl⟩
    exact ⟨address, info, hinfo, hhash, hcode.trans (congrArg some (congrArg Bytecode.mk hbytes))⟩
  refine ⟨⟨fun address info hget => ?_, fun address info hget => ?_, fun codeHash code hget => ?_,
    fun address index value hget => hentries (.slot address index value) hget,
    fun number hash hget => hentries (.blockHash number hash) hget⟩, fun address info hget hne => ?_,
    howned⟩
  · rw [haccounts] at hget
    exact ⟨info, hread address info hget, rfl⟩
  · rw [haccounts] at hget
    obtain ⟨hok, hcarried⟩ := hup.inline address info (hread address info hget)
    exact ⟨hok, fun hne hnone => absurd hnone (hcarried hne)⟩
  · obtain ⟨address, info, hinfo, rfl, hcode⟩ := howned codeHash code hget
    exact (hup.inline address info hinfo).1 code hcode
  · rw [haccounts] at hget
    obtain ⟨hok, hcarried⟩ := hup.inline address info (hread address info hget)
    obtain ⟨code, hcode⟩ := Option.ne_none_iff_exists'.mp (hcarried hne)
    obtain ⟨-, hhash⟩ := hok code hcode
    -- code that hashes to no code at all is no code at all
    have hbytes : code.originalBytes ≠ [] := fun hempty =>
      hne (hhash.symm.trans (if_pos hempty))
    rw [← hhash]
    refine Map.lookup_extend_ne_none (v := code) (List.mem_map.mpr ⟨code, ?_, rfl⟩)
    rw [List.mem_filter, List.mem_filterMap]
    exact ⟨⟨(address, info), ((order.enumerates _).mem_iff address info).mpr hget, hcode⟩,
      decide_eq_true hbytes⟩

/-! ### The process, run after run -/

/-- How a process is started: without a cache, at a block it is told, or at the tip. -/
inductive Start where
  | uncached
  | pinned
  | tip
  deriving DecidableEq

/-- What all runs share: cache directory and chain, the block with its header's env, upstream as it is
    at that block, and the backend that reads it. -/
structure Host (E : Type) where
  cache : ForkCache
  chainId : UInt64
  blockNumber : UInt64
  header : BlockEnv
  headed : tryU64 header.number = some blockNumber
  order : HashOrder
  json : Json CacheFile
  raw : RawCode
  keccak256 : Bytes → B256
  upstream : Upstream E
  backend : SharedBackend E

/-- The disk, and the run that is on: whether it caches, what it seeded, its env, its backend and its
    sessions. `ops` lists what was done to the sessions, `loaded` is the text of the file that was
    seeded, and `written` lists the files that all runs wrote, each with the one its run had loaded. -/
structure Restarts where
  disk : Disk
  caching : Bool
  seeded : Option (CacheKey × BaseSnapshot)
  blockEnv : BlockEnv
  stores : Stores
  sessions : Lineage.Sessions Unit
  ops : List Lineage.Op
  loaded : Option Bytes
  written : List (Option Bytes × Bytes)

/-- The process is started again, something is done to its sessions, a miss is resolved, a
    `persist_cache` runs, or the file system changes what it refuses. -/
inductive RestartsEvent where
  | boot (start : Start)
  | op (op : Lineage.Op)
  | resolve (key : StateKey)
  | persist
  | refuse (refuses : Path → Option String)

/-- Every session is forked off what was seeded. -/
def Restarts.root (s : Restarts) : Lineage.Root Unit :=
  ⟨(s.seeded.map Prod.snd).getD .empty, (), s.blockEnv⟩

namespace Host

variable (host : Host E)

def key : CacheKey := ⟨host.chainId, host.blockNumber⟩

/-- `load_cache`: whatever is wrong with the file, the start is cold. -/
def loadCache (key : CacheKey) (disk : Disk) : Option (BaseSnapshot × Option BlockEnv) :=
  (host.cache.loadWithBlockEnv host.json host.raw key disk).toOption

/-- The base, if any, and the env that a start opens its manager with. -/
def opens (start : Start) (disk : Disk) : Option BaseSnapshot × BlockEnv :=
  match start with
  | .uncached => (none, host.header)
  | .pinned =>
    match host.loadCache host.key disk with
    -- no header fetch
    | some (base, some blockEnv) => (some base, blockEnv)
    | loaded => (loaded.map Prod.fst, host.header)
  | .tip =>
    (((tryU64 host.header.number).bind fun number =>
      host.loadCache ⟨host.chainId, number⟩ disk).map Prod.fst, host.header)

def boot (start : Start) (s : Restarts) : Restarts :=
  let (base, blockEnv) := host.opens start s.disk
  let seeded := base.bind fun base =>
    (tryU64 blockEnv.number).map fun number => (⟨host.chainId, number⟩, base)
  { s with
    caching := start ≠ .uncached
    seeded := seeded
    blockEnv := blockEnv
    stores := .empty
    sessions := ∅
    ops := []
    loaded := seeded.bind fun _ => s.disk.files (host.cache.pathFor host.key) }

/-- The process as far as `persist_cache` is concerned. -/
def process (seeded : Option (CacheKey × BaseSnapshot)) : Process Unit :=
  ⟨host.cache, host.chainId, seeded, fun _ => host.blockNumber, host.order, host.json, host.keccak256⟩

/-- What is written under a key: the fetched state, over what was seeded if that is the same block's. -/
def snapshot (s : Restarts) (key : CacheKey) : BaseSnapshot :=
  (host.process s.seeded).fold key (cacheSnapshot host.order host.keccak256 s.stores.db)

/-- `persist_cache` while nothing else is going on. -/
def persistCache (s : Restarts) : Restarts :=
  match tryU64 s.blockEnv.number with
  | none => s
  | some number =>
    let key := ⟨host.chainId, number⟩
    match host.cache.storeWithBlockEnv host.order host.json key (host.snapshot s key) s.blockEnv
        s.disk with
    -- logged and swallowed
    | .error _ => s
    | .ok disk =>
      { s with
        disk := disk
        written := s.written ++ (disk.files (host.cache.pathFor key)).toList.map (s.loaded, ·) }

def step (s : Restarts) : RestartsEvent → Restarts
  | .boot start => host.boot start s
  | .op op =>
    let (sessions, stores) :=
      Lineage.step (Stores.forkDb host.backend) s.root op (s.sessions, s.stores)
    { s with sessions := sessions, stores := stores, ops := s.ops ++ [op] }
  | .resolve key => { s with stores := s.stores.resolve host.backend key }
  | .persist => if s.caching then host.persistCache s else s
  | .refuse refuses => { s with disk := { s.disk with refuses := refuses } }

/-- Before the first run. -/
def start (disk : Disk) : Restarts :=
  ⟨disk, false, none, host.header, .empty, ∅, [], none, []⟩

/-- What a file that was written keeps of the one its run had loaded: everything; and all it says is
    upstream's. -/
def Keeps (written : Option Bytes × Bytes) : Prop :=
  ∃ file, host.json.fromSlice written.2 = .ok file ∧
    (∀ entry, file.Says entry → host.upstream.Says entry) ∧
    ∀ bytes, written.1 = some bytes → ∃ old, host.json.fromSlice bytes = .ok old ∧
      ∀ entry, old.Says entry → file.Says entry

/-- The bytes are what a genuine snapshot of the block was written as. -/
def Filed (book : Codebook) (snapshot : BaseSnapshot) (bytes : Bytes) : Prop :=
  snapshot.Genuine book host.upstream ∧ ∃ env,
    host.json.toVec (ForkCache.encode host.order host.key snapshot env) = .ok bytes

/-- INVARIANT: the block's cache file, if there is one, and what the run on has seeded and fetched are
    upstream's; its sessions are what was done to them over the seeded base. -/
structure Sound (book : Codebook) (s : Restarts) : Prop where
  file : ∀ bytes, s.disk.files (host.cache.pathFor host.key) = some bytes →
    ∃ snapshot, host.Filed book snapshot bytes
  blockEnv : tryU64 s.blockEnv.number = some host.blockNumber
  seeded : ∀ key base, s.seeded = some (key, base) → key = host.key ∧
    base.Genuine book host.upstream ∧ ∃ bytes snapshot, s.loaded = some bytes ∧
      host.Filed book snapshot bytes ∧ ∀ entry, base.Says entry ↔ snapshot.Says entry
  cold : s.seeded = none → s.loaded = none
  stores : s.stores.Coherent host.upstream
  shown : Lineage.Shown (fun _ => host.upstream) s.sessions
    (Lineage.refRun (FullMap.ofBase s.root.base host.upstream) s.ops)
  ops : ∀ op ∈ s.ops, book.OpOk op
  written : ∀ written ∈ s.written, host.Keeps written
  last : s.disk.files (host.cache.pathFor host.key) = s.written.getLast?.map Prod.snd

section Sound

variable {host} {book : Codebook} {s : Restarts}

/-- An env that comes with a file is the env of the file's block. -/
theorem decode_blockEnv {raw : RawCode} {path : Path} {key : CacheKey} {file : CacheFile}
    {base : BaseSnapshot} {env : BlockEnv}
    (h : ForkCache.decode raw path key file = .ok (base, some env)) :
    tryU64 env.number = some key.blockNumber := by
  unfold ForkCache.decode at h
  repeat
    split at h
    · cases h
  cases hcode : decodeCode raw path file.code with
  | error e => rw [hcode] at h; cases h
  | ok code =>
    rw [hcode] at h
    obtain ⟨-, henv⟩ := Prod.mk.inj (Except.ok.inj h)
    obtain ⟨stored, hstored, rfl⟩ := Option.map_eq_some_iff.mp henv
    have hnumber := of_decide_eq_true (Option.filter_eq_some_iff.mp hstored).2
    exact tryU64_eq_some_iff.mpr (by rw [StoredBlockEnv.toEnv, hnumber])

/-- What a start makes of the file. -/
theorem loadCache_genuine (hfile : ∀ bytes, s.disk.files (host.cache.pathFor host.key) = some bytes →
      ∃ snapshot, host.Filed book snapshot bytes) {base : BaseSnapshot} {blockEnv : Option BlockEnv}
    (hload : host.loadCache host.key s.disk = some (base, blockEnv)) :
    base.Genuine book host.upstream ∧
      (∀ env, blockEnv = some env → tryU64 env.number = some host.blockNumber) ∧
      ∃ bytes snapshot, s.disk.files (host.cache.pathFor host.key) = some bytes ∧
        host.Filed book snapshot bytes ∧ ∀ entry, base.Says entry ↔ snapshot.Says entry := by
  unfold loadCache at hload
  cases hresult : host.cache.loadWithBlockEnv host.json host.raw host.key s.disk with
  | error e =>
    rw [hresult] at hload
    cases hload
  | ok loaded =>
    rw [hresult] at hload
    obtain rfl := Option.some.inj hload
    cases hread : readFile s.disk (host.cache.pathFor host.key) with
    | error e =>
      simp only [ForkCache.loadWithBlockEnv, hread] at hresult
      cases hresult
    | ok bytes =>
      have hbytes := readFile_ok hread
      obtain ⟨snapshot, hgenuine, env, hwritten⟩ := hfile bytes hbytes
      rw [ForkCache.load_eq host.raw hread (host.json.faithful hwritten)] at hresult
      obtain ⟨hloaded, hentries⟩ := BaseSnapshot.genuine_loaded hgenuine hresult
      refine ⟨hloaded, ?_, bytes, snapshot, hbytes, ⟨hgenuine, env, hwritten⟩, hentries⟩
      rintro env rfl
      exact decode_blockEnv hresult

/-- SPEC of a start: an env of the block, and a base only from its file. -/
theorem opens_spec (hfile : ∀ bytes, s.disk.files (host.cache.pathFor host.key) = some bytes →
      ∃ snapshot, host.Filed book snapshot bytes) (start : Start) :
    tryU64 (host.opens start s.disk).2.number = some host.blockNumber ∧
      ∀ base, (host.opens start s.disk).1 = some base → base.Genuine book host.upstream ∧
        ∃ bytes snapshot, s.disk.files (host.cache.pathFor host.key) = some bytes ∧
          host.Filed book snapshot bytes ∧ ∀ entry, base.Says entry ↔ snapshot.Says entry := by
  have hmapped : ∀ base, (host.loadCache host.key s.disk).map Prod.fst = some base →
      base.Genuine book host.upstream ∧
        ∃ bytes snapshot, s.disk.files (host.cache.pathFor host.key) = some bytes ∧
          host.Filed book snapshot bytes ∧ ∀ entry, base.Says entry ↔ snapshot.Says entry := by
    intro base hbase
    obtain ⟨loaded, hload, rfl⟩ := Option.map_eq_some_iff.mp hbase
    obtain ⟨hgenuine, -, hbytes⟩ := loadCache_genuine hfile hload
    exact ⟨hgenuine, hbytes⟩
  cases start with
  | uncached => exact ⟨host.headed, nofun⟩
  | pinned =>
    unfold opens
    dsimp only
    split
    · rename_i base blockEnv hload
      obtain ⟨hgenuine, henv, hbytes⟩ := loadCache_genuine hfile hload
      refine ⟨henv blockEnv rfl, ?_⟩
      rintro base' ⟨⟩
      exact ⟨hgenuine, hbytes⟩
    · exact ⟨host.headed, hmapped⟩
  | tip =>
    refine ⟨host.headed, ?_⟩
    simp only [opens, host.headed, Option.bind_some]
    exact hmapped

/-- STEP LEMMA: a start. -/
theorem sound_boot (h : host.Sound book s) (start : Start) : host.Sound book (host.boot start s) := by
  obtain ⟨hnumber, hbase⟩ := opens_spec h.file start
  have hseeded : ((host.opens start s.disk).1.bind fun base =>
      (tryU64 (host.opens start s.disk).2.number).map fun number =>
        ((⟨host.chainId, number⟩ : CacheKey), base))
        = (host.opens start s.disk).1.map fun base => (host.key, base) := by
    rw [hnumber]
    cases (host.opens start s.disk).1 <;> rfl
  unfold boot
  dsimp only
  rw [hseeded]
  refine ⟨h.file, hnumber, fun key base hget => ?_, fun hnone => ?_, Stores.coherent_empty _,
    fun id => ?_, nofun, h.written, h.last⟩
  · obtain ⟨base', hopened, hpair⟩ := Option.map_eq_some_iff.mp hget
    obtain ⟨rfl, rfl⟩ := Prod.mk.inj hpair
    obtain ⟨hgenuine, bytes, snapshot, hbytes, hfiled⟩ := hbase base' hopened
    refine ⟨rfl, hgenuine, bytes, snapshot, ?_, hfiled⟩
    simp only [hopened, Option.map_some, Option.bind_some, hbytes]
  · dsimp only at hnone ⊢
    rw [hnone]
    rfl
  · rfl

/-- What a run writes is genuine, and says what the run had loaded. -/
theorem fold_genuine (hkeccak : book.keccak256 = host.keccak256) (hup : book.Delivers host.upstream)
    (h : host.Sound book s) :
    (host.snapshot s host.key).Genuine book host.upstream ∧ ∀ bytes, s.loaded = some bytes →
      ∃ old, host.Filed book old bytes ∧
        ∀ entry, old.Says entry → (host.snapshot s host.key).Says entry := by
  have hfetched : (cacheSnapshot host.order host.keccak256 s.stores.db).Genuine book host.upstream :=
    hkeccak ▸ genuine_cacheSnapshot hup host.order h.stores.db
  cases hseeded : s.seeded with
  | none =>
    have hsnapshot : host.snapshot s host.key
        = cacheSnapshot host.order host.keccak256 s.stores.db := by
      simp only [snapshot, Process.fold, process, hseeded]
    rw [hsnapshot]
    refine ⟨hfetched, fun bytes hloaded => ?_⟩
    rw [h.cold hseeded] at hloaded
    cases hloaded
  | some seeded =>
    obtain ⟨key, base⟩ := seeded
    obtain ⟨rfl, hbase, bytes, old, hloaded, hfiled, hentries⟩ := h.seeded key base hseeded
    have hsnapshot : host.snapshot s host.key
        = base.mergedWith (cacheSnapshot host.order host.keccak256 s.stores.db) := by
      simp only [snapshot, Process.fold, process, hseeded, if_true]
    rw [hsnapshot]
    refine ⟨BaseSnapshot.genuine_merged hbase hfetched, fun bytes' hloaded' => ⟨old, ?_, ?_⟩⟩
    · rwa [← Option.some.inj (hloaded.symm.trans hloaded')]
    · exact fun entry hentry => hbase.kept hfetched ((hentries entry).mpr hentry)

/-- STEP LEMMA: a persist. -/
theorem sound_persist (hkeccak : book.keccak256 = host.keccak256) (hup : book.Delivers host.upstream)
    (h : host.Sound book s) : host.Sound book (host.persistCache s) := by
  obtain ⟨hgenuine, hkept⟩ := fold_genuine hkeccak hup h
  unfold persistCache
  rw [h.blockEnv]
  dsimp only
  split
  · exact h
  rename_i disk hstore
  obtain ⟨bytes, hwritten, hfiles⟩ := ForkCache.storeInner_ok hstore
  have hbytes : disk.files (host.cache.pathFor host.key) = some bytes := by
    rw [hfiles]
    exact Function.update_self _ _ _
  have hlogged : (disk.files (host.cache.pathFor ⟨host.chainId, host.blockNumber⟩)).toList.map
      (s.loaded, ·) = [(s.loaded, bytes)] :=
    congrArg (fun file => file.toList.map (s.loaded, ·)) hbytes
  rw [hlogged]
  refine ⟨fun bytes' hbytes' => ⟨_, hgenuine, StoredBlockEnv.fromEnv s.blockEnv, ?_⟩, h.blockEnv,
    h.seeded, h.cold, h.stores, h.shown, h.ops, fun written hmem => ?_, ?_⟩
  · rwa [← Option.some.inj (hbytes.symm.trans hbytes')]
  · rcases List.mem_append.mp hmem with hold | hnew
    · exact h.written written hold
    · obtain rfl := List.mem_singleton.mp hnew
      refine ⟨_, host.json.faithful hwritten, fun entry hentry => ?_, fun bytes' hloaded => ?_⟩
      · exact hgenuine.agrees ((ForkCache.encode_says _ _ _ _ entry).mp hentry)
      · obtain ⟨old, ⟨-, env, hold⟩, hentries⟩ := hkept bytes' hloaded
        refine ⟨_, host.json.faithful hold, fun entry hentry => ?_⟩
        rw [ForkCache.encode_says] at hentry ⊢
        exact hentries entry hentry
  · rw [List.getLast?_concat]
    exact hbytes

/-- The locks of a `persist_cache`, taken one after another while nothing else happens. -/
theorem persist_quiet (host : Host E) (s : Restarts) {flush : Flush Unit}
    (henv : flush.lobby.manager.blockEnv.value = s.blockEnv)
    (hdb : flush.backends flush.lobby.manager.fallback.value = s.stores.db)
    (hdisk : flush.disk = s.disk) :
    let p := host.process s.seeded
    (p.persist flush ((fun call => (p.persist flush call).1)^[6] .blockEnv)).2
      = (host.persistCache s).disk := by
  intro p
  have hdb' : flush.backends () = s.stores.db := hdb
  unfold persistCache
  simp only [Function.iterate_succ, Function.iterate_zero, Function.comp_apply, id_eq,
    Process.persist, henv]
  cases hnumber : tryU64 s.blockEnv.number with
  | none => simp only [hdisk]
  | some number =>
    simp only [hdb', hdisk, p, process, snapshot]
    cases ForkCache.storeWithBlockEnv host.order host.json host.cache ⟨host.chainId, number⟩ _
      s.blockEnv s.disk <;> rfl

/-- INVARIANT: no file, no process. -/
theorem sound_start {disk : Disk} (hdisk : disk.files (host.cache.pathFor host.key) = none) :
    host.Sound book (host.start disk) where
  file bytes hbytes := by
    rw [start, hdisk] at hbytes
    cases hbytes
  blockEnv := host.headed
  seeded := nofun
  cold _ := rfl
  stores := Stores.coherent_empty _
  shown _ := rfl
  ops := nofun
  written := nofun
  last := hdisk

/-- STEP LEMMA: whatever happens. -/
theorem sound_step (hkeccak : book.keccak256 = host.keccak256) (hup : book.Delivers host.upstream)
    (hbackend : host.backend.Documented host.upstream) (h : host.Sound book s) {event : RestartsEvent}
    (hevent : ∀ op, event = .op op → book.OpOk op) : host.Sound book (host.step s event) := by
  cases event with
  | boot start => exact sound_boot h start
  | op op =>
    obtain ⟨hshown, hstores⟩ := Lineage.step_refines (Stores.faithful_forkDb hbackend) s.root op
      h.stores h.shown
    refine ⟨h.file, h.blockEnv, h.seeded, h.cold, hstores, ?_, fun op' hmem => ?_, h.written, h.last⟩
    · simp only [step, Lineage.refRun, List.foldl_append]
      exact hshown
    · rcases List.mem_append.mp hmem with hold | hnew
      · exact h.ops op' hold
      · exact List.mem_singleton.mp hnew ▸ hevent op rfl
  | resolve key =>
    exact ⟨h.file, h.blockEnv, h.seeded, h.cold, Stores.coherent_resolve hbackend h.stores key,
      h.shown, h.ops, h.written, h.last⟩
  | persist =>
    simp only [step]
    split
    · exact sound_persist hkeccak hup h
    · exact h
  | refuse refuses =>
    exact ⟨h.file, h.blockEnv, h.seeded, h.cold, h.stores, h.shown, h.ops, h.written, h.last⟩

/-- RUN LEMMA: run after run. -/
theorem sound_run (hkeccak : book.keccak256 = host.keccak256) (hup : book.Delivers host.upstream)
    (hbackend : host.backend.Documented host.upstream) {disk : Disk}
    (hdisk : disk.files (host.cache.pathFor host.key) = none)
    {events : List RestartsEvent} (hops : ∀ op, .op op ∈ events → book.OpOk op) :
    host.Sound book (runAll host.step (host.start disk) events) :=
  runAll_inv_of (P := host.Sound book) (K := fun event => ∀ op, event = .op op → book.OpOk op)
    (fun _ _ h hevent => sound_step hkeccak hup hbackend h hevent) _ events (sound_start hdisk)
    fun _ hmem op hop => hops op (hop ▸ hmem)

end Sound

end Host

/-- CORRECT: whatever the runs at a block load, read, resolve and persist, each file says what the file
    its run had loaded says, and upstream's values only; and every session, warm or cold, answers as
    it would over an empty base. -/
theorem restarts_erode_nothing {F W : Type} [ToString E] (host : Host E) (book : Codebook)
    (hkeccak : book.keccak256 = host.keccak256) (hup : book.Delivers host.upstream)
    (hbackend : host.backend.Documented host.upstream) (disk : Disk)
    (hdisk : disk.files (host.cache.pathFor host.key) = none) (events : List RestartsEvent)
    (hops : ∀ op, .op op ∈ events → book.OpOk op) {up : F → Upstream E} {db : DatabaseRef F W E}
    {I : W → Prop} (hdb : Session.Faithful db up I) (fallback : F)
    (hfallback : up fallback = host.upstream) (w : W) (hw : I w) :
    let s := runAll host.step (host.start disk) events
    let colds := Lineage.run db ⟨.empty, fallback, s.blockEnv⟩ s.ops w
    s.disk.files (host.cache.pathFor host.key) = s.written.getLast?.map Prod.snd ∧
    (∀ written ∈ s.written, host.Keeps written) ∧
    ∀ id session, s.sessions.lookup id = some session →
      ∃ cold, colds.1.lookup id = some cold ∧
        cold.Reproduces db colds.2 (Stores.forkDb host.backend) session s.stores ∧
        ((∀ op ∈ s.ops, op.Carries) → ∀ address,
          ((codeOf address).run (Session.answer (Stores.forkDb host.backend))
            (session, s.stores)).1
            = ((codeOf address).run (Session.answer db) (cold, colds.2)).1) := by
  intro s colds
  have hsound : host.Sound book s := Host.sound_run hkeccak hup hbackend hdisk hops
  refine ⟨hsound.last, hsound.written, fun id session hsession => ?_⟩
  have hroot : s.root.base.CoherentWith book host.upstream := by
    unfold Restarts.root
    cases hseeded : s.seeded with
    | none => exact coherent_empty book host.upstream
    | some seeded => exact (hsound.seeded seeded.1 seeded.2 hseeded).2.1.coherent
  have hwarm := Lineage.allWarm_run (FullMap.warms_ofBase hroot hup) hsound.ops id
  obtain ⟨hcolds, hw'⟩ := Lineage.run_refines hdb ⟨.empty, fallback, s.blockEnv⟩ s.ops hw
  rw [hfallback, FullMap.ofBase_empty] at hcolds
  have hshown := hsound.shown id
  rw [hsession, Option.map_some] at hshown
  rcases hwarm with ⟨hnone, -⟩ | ⟨m, m', hm, hm', hwarms⟩
  · rw [hnone] at hshown
    cases hshown
  · have hcold := hcolds id
    rw [hm'] at hcold
    obtain ⟨cold, hlookup, rfl⟩ := Option.map_eq_some_iff.mp hcold.symm
    obtain rfl := Option.some.inj (hm.symm.trans hshown)
    have hfork := Stores.faithful_forkDb hbackend
    refine ⟨cold, hlookup, Session.warm_reproduces hfork hdb hwarms hsound.stores hw',
      fun hcarries address => ?_⟩
    refine Session.warm_codeOf hfork hdb hwarms ?_ hsound.stores hw' address
    exact Lineage.allComplete_run (FullMap.complete_upstream hup) hcarries id _ hm'

/-! ### One contract, cold and then warm -/

/-- A process at block 7 of the chain that has the contract at 0xc. -/
noncomputable def twinHost : Host String where
  cache := stopCache
  chainId := 1
  blockNumber := 7
  header := ⟨7, 0, 0, 30000000⟩
  headed := by decide
  order := .some
  json := stopSerde.cacheJson
  raw := plainRaw
  keccak256 := twinKeccak
  upstream := twinChain
  backend := .fetching twinChain

/-- A session reads the contract, which is persisted. -/
def coldRun : List RestartsEvent :=
  [.boot .tip, .op (.fork 1), .op (.read 1 (.basic 0xc)), .persist]

/-- The next run's session reads it from the file. -/
def warmRun : List RestartsEvent := [.boot .pinned, .op (.fork 1), .op (.read 1 (.basic 0xc))]

theorem twin_fetched (order : HashOrder) :
    cacheSnapshot order twinKeccak (.insert .empty (.account 0xc ⟨0, 1, stopHash, some stopCode⟩))
      = stopSnapshot := by
  simp only [cacheSnapshot, BlockchainDb.insert, BlockchainDb.empty, order.entries_singleton,
    order.entries_empty]
  rfl

/-- The first run, up to its persist. -/
theorem cold_read : let s := runAll twinHost.step (twinHost.start emptyDisk) (coldRun.take 3)
    s.disk = emptyDisk ∧ s.caching = true ∧ s.seeded = none ∧ s.loaded = none ∧ s.written = [] ∧
      s.blockEnv = ⟨7, 0, 0, 30000000⟩ ∧
      s.stores.db = .insert .empty (.account 0xc ⟨0, 1, stopHash, some stopCode⟩) := by
  simp [runAll, coldRun, Host.step, Host.start, Host.boot, Host.opens, Host.loadCache, twinHost,
    tryU64, ForkCache.loadWithBlockEnv, readFile, emptyDisk, Except.toOption, Lineage.step,
    Session.answer, Session.basic, Session.fork, Restarts.root, Stores.forkDb, Stores.basicRef,
    Stores.through, Stores.empty, ReadCache.empty, BlockchainDb.empty, SharedBackend.fetching,
    BlockchainDb.basic, twinChain, BaseSnapshot.empty]

/-- The disk with the contract's file on it. -/
def stopDisk : Disk :=
  { emptyDisk with
    files := Function.update emptyDisk.files (stopCache.pathFor ⟨1, 7⟩) (some stopText) }

theorem stopDisk_file : stopDisk.files (stopCache.pathFor ⟨1, 7⟩) = some stopText := by
  rw [stopDisk]
  exact Function.update_self (stopCache.pathFor ⟨1, 7⟩) (some stopText) emptyDisk.files

theorem cold_written :
    (runAll twinHost.step (twinHost.start emptyDisk) coldRun).disk = stopDisk ∧
      (runAll twinHost.step (twinHost.start emptyDisk) coldRun).written = [(none, stopText)] := by
  obtain ⟨hdisk, hcaching, hseeded, hloaded, hwritten, hblockEnv, hdb⟩ := cold_read
  have hsplit : coldRun = coldRun.take 3 ++ [.persist] := rfl
  rw [hsplit, runAll_append, runAll_cons, runAll_nil]
  set s := runAll twinHost.step (twinHost.start emptyDisk) (coldRun.take 3)
  have hsnapshot : twinHost.snapshot s ⟨1, 7⟩ = stopSnapshot := by
    rw [Host.snapshot, Host.process, Process.fold, hseeded, hdb]
    exact twin_fetched _
  have hstore : twinHost.cache.storeWithBlockEnv twinHost.order twinHost.json ⟨1, 7⟩
      (twinHost.snapshot s ⟨1, 7⟩) s.blockEnv s.disk = .ok stopDisk := by
    rw [hsnapshot, hblockEnv, hdisk]
    exact stopSnapshot_stored
  have hnumber : tryU64 s.blockEnv.number = some 7 := by
    rw [hblockEnv]
    rfl
  have hchain : twinHost.chainId = 1 := rfl
  simp only [Host.step, hcaching, if_true, Host.persistCache, hnumber, hchain, hstore, hwritten,
    hloaded]
  refine ⟨trivial, ?_⟩
  rw [show twinHost.cache = stopCache from rfl, stopDisk_file]
  rfl

theorem stop_loads : ∃ base, twinHost.loadCache twinHost.key stopDisk
    = some (base, some ⟨7, 0, 0, 30000000⟩) := by
  have hread : readFile stopDisk (stopCache.pathFor ⟨1, 7⟩) = .ok stopText := by
    simp only [readFile, stopDisk_file]
    rfl
  have hwritten : stopSerde.cacheJson.toVec stopFile = .ok stopText := by
    simp only [stopSerde, Serde.cacheJson, Serde.cacheObject, Serde.only, if_true]
  have hload : ∃ base, stopCache.loadWithBlockEnv stopSerde.cacheJson plainRaw ⟨1, 7⟩ stopDisk
      = .ok (base, some ⟨7, 0, 0, 30000000⟩) := by
    rw [ForkCache.load_eq plainRaw hread (stopSerde.cacheJson.faithful hwritten)]
    exact ⟨_, rfl⟩
  obtain ⟨base, hload⟩ := hload
  exact ⟨base, congrArg Except.toOption hload⟩

/-- After a cold run and a warm one: the contract is in the file, and the warm session reads it as one
    over an empty base does. -/
theorem restarts_erode_nothing_contract :
    let s := runAll twinHost.step (twinHost.start emptyDisk) (coldRun ++ warmRun)
    let colds := Lineage.run twinDb ⟨.empty, (), s.blockEnv⟩ s.ops ()
    s.written = [(none, stopText)] ∧ twinHost.Keeps (none, stopText) ∧ s.loaded = some stopText ∧
    ∃ session cold, s.sessions.lookup 1 = some session ∧ colds.1.lookup 1 = some cold ∧
      ∀ address, ((codeOf address).run (Session.answer (Stores.forkDb (.fetching twinChain)))
        (session, s.stores)).1 = ((codeOf address).run (Session.answer twinDb) (cold, colds.2)).1 := by
  intro s colds
  have hops : ∀ op, .op op ∈ coldRun ++ warmRun → twinBook.OpOk op := by
    intro op hmem
    simp only [coldRun, warmRun, List.cons_append, List.nil_append, List.mem_cons,
      RestartsEvent.op.injEq, reduceCtorEq, List.not_mem_nil, or_false, false_or] at hmem
    rcases hmem with rfl | rfl | rfl | rfl <;> trivial
  obtain ⟨-, hkeeps, hsessions⟩ := restarts_erode_nothing twinHost twinBook rfl twin_delivers
    (SharedBackend.fetching_documented twinChain) emptyDisk rfl (coldRun ++ warmRun) hops
    (Session.faithful_upstream fun _ => twinChain) () rfl () trivial
  have hwritten : s.written = [(none, stopText)] := by
    have hwarm : s.written = (runAll twinHost.step (twinHost.start emptyDisk) coldRun).written := by
      simp only [s, runAll_append]
      rfl
    rw [hwarm, cold_written.2]
  have hloaded : s.loaded = some stopText := by
    have hwarm : s.loaded = (twinHost.boot .pinned
        (runAll twinHost.step (twinHost.start emptyDisk) coldRun)).loaded := by
      simp only [s, runAll_append]
      rfl
    obtain ⟨base, hbase⟩ := stop_loads
    rw [hwarm]
    simp only [Host.boot, Host.opens, cold_written.1, hbase]
    exact stopDisk_file
  have hopen : ∃ session, s.sessions.lookup 1 = some session := by
    simp only [s, runAll_append, warmRun, runAll_cons, runAll_nil, Host.step, Lineage.step,
      Finmap.lookup_insert]
    exact ⟨_, rfl⟩
  have hdone : s.ops = [.fork 1, .read 1 (.basic 0xc)] := by
    simp only [s, runAll_append]
    rfl
  obtain ⟨session, hsession⟩ := hopen
  obtain ⟨cold, hcold, -, hcode⟩ := hsessions 1 session hsession
  refine ⟨hwritten, hkeeps _ (by rw [hwritten]; exact List.mem_singleton_self _), hloaded, session,
    cold, hsession, hcold, hcode fun op hmem => ?_⟩
  rw [hdone] at hmem
  simp only [List.mem_cons, List.not_mem_nil, or_false] at hmem
  rcases hmem with rfl | rfl <;> trivial

end Forkyard
