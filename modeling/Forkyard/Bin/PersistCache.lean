import Forkyard.Engine.Persist
import Forkyard.Session.Manager

/-! `persist_cache`, one lock at a time, while refreshes run. It names its file after the block env
    it reads first, and fills it with what the backend of the fallback it reads next has fetched,
    over what the process was seeded with at exactly that block. A backend is pinned to one block
    and only ever fetches from there.

        persist:  block_env ──▶ fallback ──▶ accounts, storage, hashes ──▶ block_env ──▶ file
                        ▲            ▲
        refresh:  fallback ──▶ block_env ──▶ base -/

namespace Forkyard

open Schemes

variable {F : Type}

/-! ### The fetch backend -/

/-- One thing a backend has fetched. -/
inductive Fetched where
  | account (address : Address) (info : AccountInfo)
  | slot (address : Address) (index : U256) (value : U256)
  | blockHash (number : U256) (hash : B256)

/-- Where a backend keeps what it fetched. -/
structure BlockchainDb where
  accounts : Map Address AccountInfo
  storage : Map Address (Map U256 U256)
  blockHashes : Map U256 B256

namespace BlockchainDb

def empty : BlockchainDb := ⟨∅, ∅, ∅⟩

def insert (db : BlockchainDb) : Fetched → BlockchainDb
  | .account address info => { db with accounts := db.accounts.insert address info }
  | .slot address index value =>
    { db with
      storage := db.storage.insert address
        (((db.storage.lookup address).getD ∅).insert index value) }
  | .blockHash number hash => { db with blockHashes := db.blockHashes.insert number hash }

def Holds (db : BlockchainDb) : Fetched → Prop
  | .account address info => db.accounts.lookup address = some info
  | .slot address index value =>
    ∃ slots, db.storage.lookup address = some slots ∧ slots.lookup index = some value
  | .blockHash number hash => db.blockHashes.lookup number = some hash

end BlockchainDb

/-- Everything a fork has fetched so far, in the form the cache file keeps: code from the accounts
    that carry it inline, and only those block hashes whose number fits. -/
def cacheSnapshot (order : HashOrder) (keccak256 : Bytes → B256) (db : BlockchainDb) :
    BaseSnapshot :=
  let accounts := order.entries db.accounts
  let code := (accounts.filterMap fun kv => kv.2.code).filter fun code => code.originalBytes ≠ []
  .fromParts accounts (code.map fun code => (code.hashSlow keccak256, code))
    ((order.entries db.storage).flatMap fun kv =>
      (order.entries kv.2).map fun slot => ((kv.1, slot.1), slot.2))
    ((order.entries db.blockHashes).filterMap fun kv =>
      (tryU64 kv.1).map fun number => (number, kv.2))

/-! ### The process -/

/-- What is fixed while the process runs: its cache directory and chain, what it was seeded with,
    and the block each fork's backend is pinned to. -/
structure Process (F : Type) where
  cache : ForkCache
  chainId : UInt64
  seeded : Option (CacheKey × BaseSnapshot)
  pin : F → UInt64
  order : HashOrder
  json : Json CacheFile
  keccak256 : Bytes → B256

/-- The next lock a `persist_cache` takes, or the file it writes, with what it has read so far. -/
inductive Persisting (F : Type) where
  | blockEnv
  | fallback (key : CacheKey)
  | accounts (key : CacheKey) (fork : F)
  | storage (key : CacheKey) (fork : F) (accounts : Map Address AccountInfo)
  | blockHashes (key : CacheKey) (fork : F) (accounts : Map Address AccountInfo)
    (storage : Map Address (Map U256 U256))
  | blockEnvAgain (key : CacheKey) (snapshot : BaseSnapshot)
  | file (key : CacheKey) (snapshot : BaseSnapshot) (blockEnv : BlockEnv)
  | returned

/-- The manager with its calls, every backend, what each backend has fetched under the block it is
    pinned to, the `persist_cache` runs, and the disk. -/
structure Flush (F : Type) where
  lobby : Lobby F
  backends : F → BlockchainDb
  fetched : List (UInt64 × Fetched)
  persists : List (Persisting F)
  disk : Disk

/-- A process that has just opened its manager. -/
def Flush.start (fallback : F) (base : BaseSnapshot) (blockEnv : BlockEnv) (disk : Disk) :
    Flush F :=
  ⟨.start fallback base blockEnv, fun _ => .empty, [], [], disk⟩

namespace Process

/-- The fetched state, over what was seeded if that is the same block's. -/
def fold (p : Process F) (key : CacheKey) (fetched : BaseSnapshot) : BaseSnapshot :=
  match p.seeded with
  | some (seededKey, seededBase) =>
    if seededKey = key then seededBase.mergedWith fetched else fetched
  | none => fetched

/-- One `persist_cache` takes its next lock, or writes its file. -/
def persist (p : Process F) (s : Flush F) : Persisting F → Persisting F × Disk
  | .blockEnv =>
    match tryU64 s.lobby.manager.blockEnv.value.number with
    | none => (.returned, s.disk)
    | some blockNumber => (.fallback ⟨p.chainId, blockNumber⟩, s.disk)
  | .fallback key => (.accounts key s.lobby.manager.fallback.value, s.disk)
  | .accounts key fork => (.storage key fork (s.backends fork).accounts, s.disk)
  | .storage key fork accounts => (.blockHashes key fork accounts (s.backends fork).storage, s.disk)
  | .blockHashes key fork accounts storage =>
    (.blockEnvAgain key (p.fold key (cacheSnapshot p.order p.keccak256
      ⟨accounts, storage, (s.backends fork).blockHashes⟩)), s.disk)
  | .blockEnvAgain key snapshot => (.file key snapshot s.lobby.manager.blockEnv.value, s.disk)
  | .file key snapshot blockEnv =>
    match p.cache.storeWithBlockEnv p.order p.json key snapshot blockEnv s.disk with
    | .ok disk => (.returned, disk)
    -- logged and swallowed
    | .error _ => (.returned, s.disk)
  | .returned => (.returned, s.disk)

end Process

/-- Something happens to the manager, a fetch lands in a backend, a `persist_cache` is called, or
    the `i`-th of them goes on. -/
inductive FlushEvent (F : Type) where
  | lobby (event : LobbyEvent F)
  | fetch (fork : F) (fetched : Fetched)
  | persist
  | access (i : ℕ)

def Flush.step [DecidableEq F] (p : Process F) (s : Flush F) : FlushEvent F → Flush F
  | .lobby event => { s with lobby := s.lobby.step event }
  | .fetch fork fetched =>
    { s with
      backends := Function.update s.backends fork ((s.backends fork).insert fetched)
      fetched := s.fetched ++ [(p.pin fork, fetched)] }
  | .persist => { s with persists := s.persists ++ [.blockEnv] }
  | .access i =>
    match s.persists[i]? with
    | none => s
    | some call =>
      let (call, disk) := p.persist s call
      { s with persists := s.persists.set i call, disk := disk }

/-! ### Where the entries of a file come from -/

/-- What a cache file may say because of one fetch. -/
def Fetched.Says (keccak256 : Bytes → B256) : Fetched → CacheEntry → Prop
  | .account address info, entry => entry = .account (storedAccount address info) ∨
      ∃ code, info.code = some code ∧ entry = .code ⟨code.hashSlow keccak256, code.originalBytes⟩
  | .slot address index value, entry => entry = .slot address index value
  | .blockHash number hash, entry => ∃ n, tryU64 number = some n ∧ entry = .blockHash n hash

/-- The entry was fetched by a backend pinned to the key's block, or seeded for exactly that key. -/
def Process.Sourced (p : Process F) (fetched : List (UInt64 × Fetched)) (key : CacheKey)
    (entry : CacheEntry) : Prop :=
  (∃ piece, (key.blockNumber, piece) ∈ fetched ∧ piece.Says p.keccak256 entry) ∨
    ∃ base, p.seeded = some (key, base) ∧ base.Says entry

/-- The file is one a `persist_cache` wrote under its own key, with that block's state only. -/
def Process.Clean (p : Process F) (fetched : List (UInt64 × Fetched)) (path : Path)
    (bytes : Bytes) : Prop :=
  ∃ key file, path = p.cache.pathFor key ∧ p.json.fromSlice bytes = .ok file ∧
    file.chainId = some key.chainId ∧ file.blockNumber = some key.blockNumber ∧
      ∀ entry, file.Says entry → p.Sourced fetched key entry

/-- A backend's snapshot says only what the backend holds. -/
theorem cacheSnapshot_says {order : HashOrder} {keccak256 : Bytes → B256} {db : BlockchainDb}
    {entry : CacheEntry} (h : (cacheSnapshot order keccak256 db).Says entry) :
    ∃ piece, db.Holds piece ∧ piece.Says keccak256 entry := by
  have hparts := BaseSnapshot.fromParts_says h
  cases entry with
  | account account =>
    obtain ⟨info, hmem, heq⟩ := hparts
    refine ⟨.account account.address info, ((order.enumerates _).mem_iff _ info).mp hmem, .inl ?_⟩
    rw [heq]
  | code stored =>
    obtain ⟨code, hmem, hbytes⟩ := hparts
    obtain ⟨code', hfound, hpair⟩ := List.mem_map.mp hmem
    obtain ⟨hhash, rfl⟩ := Prod.mk.inj hpair
    obtain ⟨⟨address, info⟩, hinfo, hcode⟩ := List.mem_filterMap.mp (List.mem_filter.mp hfound).1
    refine ⟨.account address info, ((order.enumerates _).mem_iff address info).mp hinfo,
      .inr ⟨code', hcode, ?_⟩⟩
    rw [hhash, hbytes]
  | slot address index value =>
    obtain ⟨⟨address', slots⟩, hmem, hslot⟩ := List.mem_flatMap.mp hparts
    obtain ⟨⟨index', value'⟩, hget, hpair⟩ := List.mem_map.mp hslot
    obtain ⟨hkeys, rfl⟩ := Prod.mk.inj hpair
    obtain ⟨rfl, rfl⟩ := Prod.mk.inj hkeys
    exact ⟨.slot address' index' value', ⟨slots, ((order.enumerates _).mem_iff _ slots).mp hmem,
      ((order.enumerates _).mem_iff _ value').mp hget⟩, rfl⟩
  | blockHash number hash =>
    obtain ⟨⟨number', hash'⟩, hmem, hpair⟩ := List.mem_filterMap.mp hparts
    obtain ⟨n, hn, heq⟩ := Option.map_eq_some_iff.mp hpair
    obtain ⟨rfl, rfl⟩ := Prod.mk.inj heq
    exact ⟨.blockHash number' hash', ((order.enumerates _).mem_iff _ hash').mp hmem, n, hn, rfl⟩

/-- Inserting a piece adds nothing but that piece. -/
theorem BlockchainDb.insert_holds {db : BlockchainDb} {new piece : Fetched}
    (h : (db.insert new).Holds piece) : piece = new ∨ db.Holds piece := by
  cases new with
  | account address info =>
    cases piece with
    | account address' info' =>
      rcases Map.of_lookup_insert h with ⟨rfl, rfl⟩ | hold
      · exact .inl rfl
      · exact .inr hold
    | slot address' index value => exact .inr h
    | blockHash number hash => exact .inr h
  | slot address index value =>
    cases piece with
    | account address' info => exact .inr h
    | slot address' index' value' =>
      obtain ⟨slots, hslots, hget⟩ := h
      rcases Map.of_lookup_insert hslots with ⟨rfl, rfl⟩ | hold
      · rcases Map.of_lookup_insert hget with ⟨rfl, rfl⟩ | hget
        · exact .inl rfl
        · cases hold : db.storage.lookup address' with
          | none => rw [hold, Option.getD_none, Finmap.lookup_empty] at hget; cases hget
          | some slots =>
            rw [hold, Option.getD_some] at hget
            exact .inr ⟨slots, hold, hget⟩
      · exact .inr ⟨slots, hold, hget⟩
    | blockHash number hash => exact .inr h
  | blockHash number hash =>
    cases piece with
    | account address info => exact .inr h
    | slot address index value => exact .inr h
    | blockHash number' hash' =>
      rcases Map.of_lookup_insert h with ⟨rfl, rfl⟩ | hold
      · exact .inl rfl
      · exact .inr hold

/-! ### Fallback and block env of one block -/

/-- A refresh brings a fork with the env of the block it is pinned to. -/
def Promised (pin : F → UInt64) : LobbyEvent F → Prop
  | .refresh fallback blockEnv => tryU64 blockEnv.number = some (pin fallback)
  | _ => True

/-- No refresh writes its fallback while one to another block is between its first two writes. -/
def Lobby.Alone (pin : F → UInt64) (lobby : Lobby F) : LobbyEvent F → Prop
  | .access i => ∀ writer fallback blockEnv,
      lobby.calls[i]? = some (.refresh writer fallback blockEnv .fallback) →
      ∀ writer' fallback' blockEnv', .refresh writer' fallback' blockEnv' .blockEnv ∈ lobby.calls →
        pin fallback' = pin fallback
  | _ => True

/-- The manager's fallback is at the block of its env, or a refresh to that block is about to make
    it so. -/
structure Abreast (pin : F → UInt64) (lobby : Lobby F) : Prop where
  promised : ∀ writer fallback blockEnv next,
    .refresh writer fallback blockEnv next ∈ lobby.calls →
      tryU64 blockEnv.number = some (pin fallback)
  pending : ∀ writer fallback blockEnv, .refresh writer fallback blockEnv .blockEnv ∈ lobby.calls →
    pin fallback = pin lobby.manager.fallback.value
  paired : tryU64 lobby.manager.blockEnv.value.number = some (pin lobby.manager.fallback.value) ∨
    ∃ writer, Pending lobby.calls writer

section Abreast

variable {pin : F → UInt64} {lobby : Lobby F}

theorem abreast_call (h : Abreast pin lobby) {call : Call F} {installed : List (Installed F)}
    (hpromised : ∀ writer fallback blockEnv next, call = .refresh writer fallback blockEnv next →
      tryU64 blockEnv.number = some (pin fallback))
    (hcall : ∀ writer fallback blockEnv, call ≠ .refresh writer fallback blockEnv .blockEnv) :
    Abreast pin { lobby with calls := lobby.calls ++ [call], installed := installed } := by
  refine ⟨fun writer fallback blockEnv next hmem => ?_, fun writer fallback blockEnv hmem => ?_, ?_⟩
  · rcases List.mem_append.mp hmem with hold | hnew
    · exact h.promised _ _ _ _ hold
    · exact hpromised _ _ _ _ (List.mem_singleton.mp hnew).symm
  · rcases List.mem_append.mp hmem with hold | hnew
    · exact h.pending _ _ _ hold
    · exact absurd (List.mem_singleton.mp hnew).symm (hcall _ _ _)
  · refine h.paired.imp_right fun ⟨writer, hpending⟩ => ⟨writer, ?_⟩
    exact pending_mono (fun call hmem => List.mem_append_left _ hmem) hpending

/-- A call moves on and touches neither fallback nor block env. -/
theorem abreast_read (h : Abreast pin lobby) {i : ℕ} {call : Call F} (call' : Call F)
    (hi : lobby.calls[i]? = some call)
    (hcall : ∀ writer fallback blockEnv, call ≠ .refresh writer fallback blockEnv .blockEnv)
    (hcall' : ∀ writer fallback blockEnv next, call' ≠ .refresh writer fallback blockEnv next)
    (base : Stamped BaseSnapshot) (opened : List (Session F)) :
    Abreast pin { lobby with
      manager := { lobby.manager with base := base }
      calls := lobby.calls.set i call', opened := opened } := by
  refine ⟨fun writer fallback blockEnv next hmem => ?_, fun writer fallback blockEnv hmem => ?_,
    h.paired.imp_right fun ⟨writer, hpending⟩ => ⟨writer, pending_set hi hcall hpending⟩⟩
  · rcases List.mem_or_eq_of_mem_set hmem with hold | hnew
    · exact h.promised _ _ _ _ hold
    · exact absurd hnew.symm (hcall' _ _ _ _)
  · rcases List.mem_or_eq_of_mem_set hmem with hold | hnew
    · exact h.pending _ _ _ hold
    · exact absurd hnew.symm (hcall' _ _ _ _)

/-- A call that is not a refresh writes no field and never becomes a refresh. -/
theorem access_reads {call : Call F}
    (hcall : ∀ writer fallback blockEnv next, call ≠ .refresh writer fallback blockEnv next)
    (manager : SessionManager F) : (call.access manager).2.1 = manager ∧
      ∀ writer fallback blockEnv next,
        (call.access manager).1 ≠ .refresh writer fallback blockEnv next := by
  cases call with
  | refresh writer fallback blockEnv next => exact absurd rfl (hcall _ _ _ _)
  | restore blockNumber state =>
    refine ⟨rfl, ?_⟩
    dsimp only [Call.access]
    split <;> exact nofun
  | fork seed next => cases next <;> exact ⟨rfl, nofun⟩
  | returned => exact ⟨rfl, nofun⟩

/-- STEP LEMMA: refreshes to different blocks that don't overlap keep fallback and env abreast. -/
theorem abreast_step (h : Abreast pin lobby) {event : LobbyEvent F} (hpromised : Promised pin event)
    (halone : lobby.Alone pin event) : Abreast pin (lobby.step event) := by
  cases event with
  | refresh fallback blockEnv =>
    refine abreast_call h ?_ (by rintro _ _ _ ⟨⟩)
    rintro _ _ _ _ ⟨⟩
    exact hpromised
  | fork => exact abreast_call h (by rintro _ _ _ _ ⟨⟩) (by rintro _ _ _ ⟨⟩)
  | restore blockNumber state => exact abreast_call h (by rintro _ _ _ _ ⟨⟩) (by rintro _ _ _ ⟨⟩)
  | access i =>
    simp only [Lobby.step]
    split
    · exact h
    rename_i call hi
    have hreads : (∀ writer fallback blockEnv next, call ≠ .refresh writer fallback blockEnv next) →
        Abreast pin { lobby with
          manager := (call.access lobby.manager).2.1
          calls := lobby.calls.set i (call.access lobby.manager).1
          opened := lobby.opened ++ (call.access lobby.manager).2.2 } := by
      intro hcall
      obtain ⟨hmanager, hcall'⟩ := access_reads hcall lobby.manager
      rw [hmanager]
      exact abreast_read h _ hi (fun _ _ _ => hcall _ _ _ _) hcall' lobby.manager.base _
    cases call with
    | refresh writer fallback blockEnv next =>
      have hown := h.promised _ _ _ _ (List.mem_of_getElem? hi)
      obtain ⟨hlt, -⟩ := List.getElem?_eq_some_iff.mp hi
      cases next with
      | fallback =>
        refine ⟨fun _ _ _ _ hmem => ?_, fun _ _ _ hmem => ?_, .inr ⟨writer, fallback, blockEnv,
          List.mem_iff_getElem?.mpr ⟨i, List.getElem?_set_self hlt⟩⟩⟩
        · rcases List.mem_or_eq_of_mem_set hmem with hold | hnew
          · exact h.promised _ _ _ _ hold
          · cases hnew
            exact hown
        · rcases List.mem_or_eq_of_mem_set hmem with hold | hnew
          · exact halone _ _ _ hi _ _ _ hold
          · cases hnew
            rfl
      | blockEnv =>
        have hpin := h.pending _ _ _ (List.mem_of_getElem? hi)
        refine ⟨fun _ _ _ _ hmem => ?_, fun _ _ _ hmem => ?_, .inl ?_⟩
        · rcases List.mem_or_eq_of_mem_set hmem with hold | hnew
          · exact h.promised _ _ _ _ hold
          · cases hnew
            exact hown
        · rcases List.mem_or_eq_of_mem_set hmem with hold | hnew
          · exact h.pending _ _ _ hold
          · cases hnew
        · show tryU64 blockEnv.number = some (pin lobby.manager.fallback.value)
          rw [← hpin, hown]
      | base => exact abreast_read h .returned hi (by rintro _ _ _ ⟨⟩) (by rintro _ _ _ _ ⟨⟩) _ _
    | restore blockNumber state => exact hreads (by rintro _ _ _ _ ⟨⟩)
    | fork seed next => exact hreads (by rintro _ _ _ _ ⟨⟩)
    | returned => exact hreads (by rintro _ _ _ _ ⟨⟩)

/-- The fallback only changes where a refresh writes it. -/
theorem step_fallback (lobby : Lobby F) (event : LobbyEvent F) :
    (lobby.step event).manager.fallback = lobby.manager.fallback ∨
      ∃ i writer fallback blockEnv, event = .access i ∧
        lobby.calls[i]? = some (.refresh writer fallback blockEnv .fallback) ∧
        (lobby.step event).manager.fallback = ⟨fallback, writer⟩ := by
  cases event with
  | refresh fallback blockEnv => exact .inl rfl
  | fork => exact .inl rfl
  | restore blockNumber state => exact .inl rfl
  | access i =>
    simp only [Lobby.step]
    split
    · exact .inl rfl
    rename_i call hi
    cases call with
    | refresh writer fallback blockEnv next =>
      cases next with
      | fallback => exact .inr ⟨i, writer, fallback, blockEnv, rfl, hi, rfl⟩
      | blockEnv => exact .inl rfl
      | base => exact .inl rfl
    | restore blockNumber state => exact .inl rfl
    | fork seed next => cases next <;> exact .inl rfl
    | returned => exact .inl rfl

end Abreast

/-! ### Files of one block -/

/-- What keeps a cache file to its own block, lock by lock: refreshes to different blocks do not
    overlap, no refresh to another block writes its fallback between the first two locks of a
    `persist_cache`, and no `persist_cache` takes its first lock while a refresh to another block is
    between its first two. -/
def Process.Undisturbed (p : Process F) (s : Flush F) : FlushEvent F → Prop
  | .lobby (.access i) => s.lobby.Alone p.pin (.access i) ∧ ∀ writer fallback blockEnv,
      s.lobby.calls[i]? = some (.refresh writer fallback blockEnv .fallback) →
      ∀ key, .fallback key ∈ s.persists → p.pin fallback = key.blockNumber
  | .access i => s.persists[i]? = some .blockEnv →
      ∀ writer fallback blockEnv, .refresh writer fallback blockEnv .blockEnv ∈ s.lobby.calls →
        tryU64 s.lobby.manager.blockEnv.value.number = some (p.pin fallback)
  | _ => True

/-- Everything the maps hold was fetched at the block. -/
def Gathered (fetched : List (UInt64 × Fetched)) (block : UInt64) (db : BlockchainDb) : Prop :=
  ∀ piece, db.Holds piece → (block, piece) ∈ fetched

/-- What one `persist_cache` under way relies on. -/
def Process.PersistOk (p : Process F) (fallback : F) (fetched : List (UInt64 × Fetched)) :
    Persisting F → Prop
  | .fallback key => p.pin fallback = key.blockNumber
  | .accounts key fork => p.pin fork = key.blockNumber
  | .storage key fork accounts =>
    p.pin fork = key.blockNumber ∧ Gathered fetched key.blockNumber ⟨accounts, ∅, ∅⟩
  | .blockHashes key fork accounts storage =>
    p.pin fork = key.blockNumber ∧ Gathered fetched key.blockNumber ⟨accounts, storage, ∅⟩
  | .blockEnvAgain key snapshot => ∀ entry, snapshot.Says entry → p.Sourced fetched key entry
  | .file key snapshot _ => ∀ entry, snapshot.Says entry → p.Sourced fetched key entry
  | _ => True

/-- INVARIANT of an undisturbed run. -/
structure Process.Sound (p : Process F) (disk : Disk) (s : Flush F) : Prop where
  abreast : Abreast p.pin s.lobby
  backends : ∀ fork, Gathered s.fetched (p.pin fork) (s.backends fork)
  persists : ∀ call ∈ s.persists, p.PersistOk s.lobby.manager.fallback.value s.fetched call
  disk : ∀ path bytes, s.disk.files path = some bytes →
    disk.files path = some bytes ∨ p.Clean s.fetched path bytes

section Sound

variable {p : Process F} {fetched : List (UInt64 × Fetched)} {key : CacheKey}

theorem sourced_mono {entry : CacheEntry} (h : p.Sourced fetched key entry)
    (more : List (UInt64 × Fetched)) : p.Sourced (fetched ++ more) key entry :=
  h.imp_left fun ⟨piece, hmem, hsaid⟩ => ⟨piece, List.mem_append_left more hmem, hsaid⟩

theorem gathered_mono {block : UInt64} {db : BlockchainDb} (h : Gathered fetched block db)
    (more : List (UInt64 × Fetched)) : Gathered (fetched ++ more) block db :=
  fun piece hholds => List.mem_append_left more (h piece hholds)

theorem clean_mono {path : Path} {bytes : Bytes} (h : p.Clean fetched path bytes)
    (more : List (UInt64 × Fetched)) : p.Clean (fetched ++ more) path bytes := by
  obtain ⟨key, file, hpath, hfile, hchain, hblock, hsaid⟩ := h
  exact ⟨key, file, hpath, hfile, hchain, hblock,
    fun entry hentry => sourced_mono (hsaid entry hentry) more⟩

theorem persistOk_mono {fallback : F} {call : Persisting F} (h : p.PersistOk fallback fetched call)
    (more : List (UInt64 × Fetched)) : p.PersistOk fallback (fetched ++ more) call := by
  cases call with
  | blockEnv => exact h
  | fallback key => exact h
  | accounts key fork => exact h
  | storage key fork accounts => exact ⟨h.1, gathered_mono h.2 more⟩
  | blockHashes key fork accounts storage => exact ⟨h.1, gathered_mono h.2 more⟩
  | blockEnvAgain key snapshot => exact fun entry hsaid => sourced_mono (h entry hsaid) more
  | file key snapshot blockEnv => exact fun entry hsaid => sourced_mono (h entry hsaid) more
  | returned => exact h

/-- What is gathered map by map is gathered. -/
theorem gathered_mk {block : UInt64} {accounts accounts' accounts'' : Map Address AccountInfo}
    {storage storage' storage'' : Map Address (Map U256 U256)}
    {blockHashes blockHashes' blockHashes'' : Map U256 B256}
    (haccounts : Gathered fetched block ⟨accounts, storage', blockHashes'⟩)
    (hstorage : Gathered fetched block ⟨accounts', storage, blockHashes''⟩)
    (hhashes : Gathered fetched block ⟨accounts'', storage'', blockHashes⟩) :
    Gathered fetched block ⟨accounts, storage, blockHashes⟩
  | .account address info, hholds => haccounts (.account address info) hholds
  | .slot address index value, hholds => hstorage (.slot address index value) hholds
  | .blockHash number hash, hholds => hhashes (.blockHash number hash) hholds

theorem gathered_empty {block : UInt64} : Gathered fetched block .empty
  | .account address info, hholds => by simp [BlockchainDb.empty, BlockchainDb.Holds] at hholds
  | .slot address index value, hholds => by simp [BlockchainDb.empty, BlockchainDb.Holds] at hholds
  | .blockHash number hash, hholds => by simp [BlockchainDb.empty, BlockchainDb.Holds] at hholds

/-- What the process folds into a file is fetched at the key's block or seeded for the key. -/
theorem fold_sourced {db : BlockchainDb} (h : Gathered fetched key.blockNumber db)
    {entry : CacheEntry} (hsaid : (p.fold key (cacheSnapshot p.order p.keccak256 db)).Says entry) :
    p.Sourced fetched key entry := by
  have hfetched : (cacheSnapshot p.order p.keccak256 db).Says entry →
      p.Sourced fetched key entry := by
    intro hsaid
    obtain ⟨piece, hholds, hentry⟩ := cacheSnapshot_says hsaid
    exact .inl ⟨piece, h piece hholds, hentry⟩
  unfold Process.fold at hsaid
  split at hsaid
  · rename_i seededKey seededBase hseeded
    split at hsaid
    · rename_i hkey
      rcases BaseSnapshot.mergedWith_says hsaid with hold | hnew
      · exact .inr ⟨seededBase, by rw [hseeded, hkey], hold⟩
      · exact hfetched hnew
    · exact hfetched hsaid
  · exact hfetched hsaid

/-- A store leaves every other file alone and writes one that says what its snapshot says. -/
theorem store_clean {disk disk' : Disk} {snapshot : BaseSnapshot} {blockEnv : BlockEnv}
    (h : p.cache.storeWithBlockEnv p.order p.json key snapshot blockEnv disk = .ok disk')
    (hsnapshot : ∀ entry, snapshot.Says entry → p.Sourced fetched key entry) {path : Path}
    {bytes : Bytes} (hfile : disk'.files path = some bytes) :
    disk.files path = some bytes ∨ p.Clean fetched path bytes := by
  obtain ⟨written, hwritten, hfiles⟩ := ForkCache.storeInner_ok h
  rw [hfiles] at hfile
  by_cases hpath : path = p.cache.pathFor key
  · rw [hpath, Function.update_self] at hfile
    obtain rfl := Option.some.inj hfile
    exact .inr ⟨key, _, hpath, p.json.faithful hwritten, rfl, rfl,
      fun entry hsaid => hsnapshot entry ((ForkCache.encode_says ..).mp hsaid)⟩
  · exact .inl (by rwa [Function.update_of_ne hpath] at hfile)

/-- One `persist_cache` goes on: it keeps what it relies on, and the disk clean. -/
theorem persist_ok {disk : Disk} {s : Flush F} (h : p.Sound disk s) {call : Persisting F}
    (hcall : p.PersistOk s.lobby.manager.fallback.value s.fetched call)
    (hpending : call = .blockEnv → ∀ writer fallback blockEnv,
      .refresh writer fallback blockEnv .blockEnv ∈ s.lobby.calls →
        tryU64 s.lobby.manager.blockEnv.value.number = some (p.pin fallback)) :
    p.PersistOk s.lobby.manager.fallback.value s.fetched (p.persist s call).1 ∧
      ∀ path bytes, (p.persist s call).2.files path = some bytes →
        disk.files path = some bytes ∨ p.Clean s.fetched path bytes := by
  cases call with
  | blockEnv =>
    have hpaired : tryU64 s.lobby.manager.blockEnv.value.number
        = some (p.pin s.lobby.manager.fallback.value) := by
      rcases h.abreast.paired with hpaired | ⟨writer, fallback, blockEnv, hmem⟩
      · exact hpaired
      · rw [hpending rfl _ _ _ hmem, h.abreast.pending _ _ _ hmem]
    simp only [Process.persist, hpaired]
    exact ⟨rfl, h.disk⟩
  | fallback key => exact ⟨hcall, h.disk⟩
  | accounts key fork =>
    have hfork := h.backends fork
    rw [show p.pin fork = key.blockNumber from hcall] at hfork
    exact ⟨⟨hcall, gathered_mk hfork gathered_empty gathered_empty⟩, h.disk⟩
  | storage key fork accounts =>
    obtain ⟨hpin, haccounts⟩ := hcall
    have hfork := h.backends fork
    rw [hpin] at hfork
    exact ⟨⟨hpin, gathered_mk haccounts hfork gathered_empty⟩, h.disk⟩
  | blockHashes key fork accounts storage =>
    obtain ⟨hpin, hsofar⟩ := hcall
    have hfork := h.backends fork
    rw [hpin] at hfork
    have hall : Gathered s.fetched key.blockNumber
        ⟨accounts, storage, (s.backends fork).blockHashes⟩ := gathered_mk hsofar hsofar hfork
    exact ⟨fun entry => fold_sourced hall, h.disk⟩
  | blockEnvAgain key snapshot => exact ⟨hcall, h.disk⟩
  | file key snapshot blockEnv =>
    simp only [Process.persist]
    split
    · rename_i disk' hstore
      refine ⟨trivial, fun path bytes hfile => ?_⟩
      exact (store_clean hstore hcall hfile).elim (h.disk path bytes) .inr
    · exact ⟨trivial, h.disk⟩
  | returned => exact ⟨trivial, h.disk⟩

theorem sound_start {fallback : F} {blockEnv : BlockEnv}
    (hstart : tryU64 blockEnv.number = some (p.pin fallback)) (base : BaseSnapshot) (disk : Disk) :
    p.Sound disk (.start fallback base blockEnv disk) where
  abreast := ⟨nofun, nofun, .inl hstart⟩
  backends _ := gathered_empty
  persists := nofun
  disk _ _ hfile := .inl hfile

/-- A load believes a clean file for its own block only. -/
theorem load_sourced {raw : RawCode} {disk : Disk} {loaded : BaseSnapshot}
    {loadedEnv : Option BlockEnv}
    (h : p.cache.loadWithBlockEnv p.json raw key disk = .ok (loaded, loadedEnv))
    (hclean : ∀ bytes, disk.files (p.cache.pathFor key) = some bytes →
      p.Clean fetched (p.cache.pathFor key) bytes) :
    (∀ entry, loaded.Says entry → p.Sourced fetched key entry) ∧
      ∀ code, loaded.Inlines code → p.Sourced fetched key (.code code) := by
  unfold ForkCache.loadWithBlockEnv at h
  split at h
  · cases h
  rename_i bytes hread
  have hfile : disk.files (p.cache.pathFor key) = some bytes := readFile_ok hread
  obtain ⟨key', file, -, hparse, hchain, hblock, hsaid⟩ := hclean bytes hfile
  rw [hparse] at h
  obtain ⟨hchain', hblock', hbase, hinline⟩ := ForkCache.decode_says h
  -- the numbers recorded in the file are all that ties it to the key
  obtain rfl : key' = key := by
    obtain ⟨chainId, blockNumber⟩ := key
    obtain ⟨chainId', blockNumber'⟩ := key'
    rw [hchain, Option.some.injEq] at hchain'
    rw [hblock, Option.some.injEq] at hblock'
    rw [show chainId' = chainId from hchain', show blockNumber' = blockNumber from hblock']
  exact ⟨fun entry hentry => hsaid entry (hbase entry hentry),
    fun code hcode => hsaid _ (hinline code hcode)⟩

variable [DecidableEq F]

/-- STEP LEMMA: an undisturbed step keeps every file to its own block. -/
theorem sound_step {disk : Disk} {s : Flush F} (h : p.Sound disk s) {event : FlushEvent F}
    (hpromised : ∀ refresh, event = .lobby refresh → Promised p.pin refresh)
    (hundisturbed : p.Undisturbed s event) : p.Sound disk (s.step p event) := by
  cases event with
  | lobby event =>
    have halone : s.lobby.Alone p.pin event := by
      cases event with
      | access i => exact hundisturbed.1
      | refresh fallback blockEnv => exact trivial
      | fork => exact trivial
      | restore blockNumber state => exact trivial
    refine ⟨abreast_step h.abreast (hpromised event rfl) halone, h.backends, ?_, h.disk⟩
    intro call hmem
    have hcall := h.persists call hmem
    rcases step_fallback s.lobby event with hsame | ⟨i, writer, fallback, blockEnv, rfl, hi, hnew⟩
    · simp only [Flush.step, hsame]
      exact hcall
    · -- only a `persist_cache` about to read the fallback relies on it
      cases call with
      | fallback key =>
        simp only [Flush.step, Process.PersistOk, hnew]
        exact hundisturbed.2 _ _ _ hi key hmem
      | blockEnv => exact hcall
      | accounts key fork => exact hcall
      | storage key fork accounts => exact hcall
      | blockHashes key fork accounts storage => exact hcall
      | blockEnvAgain key snapshot => exact hcall
      | file key snapshot blockEnv => exact hcall
      | returned => exact hcall
  | fetch fork fetched =>
    refine ⟨h.abreast, fun fork' piece hholds => ?_,
      fun call hmem => persistOk_mono (h.persists call hmem) _,
      fun path bytes hfile => (h.disk path bytes hfile).imp_right fun hclean => clean_mono hclean _⟩
    by_cases hfork : fork' = fork
    · subst hfork
      simp only [Flush.step, Function.update_self] at hholds
      rcases BlockchainDb.insert_holds hholds with rfl | hold
      · exact List.mem_append_right _ (List.mem_singleton.mpr rfl)
      · exact List.mem_append_left _ (h.backends fork' piece hold)
    · simp only [Flush.step, Function.update_of_ne hfork] at hholds
      exact List.mem_append_left _ (h.backends fork' piece hholds)
  | persist =>
    refine ⟨h.abreast, h.backends, fun call hmem => ?_, h.disk⟩
    rcases List.mem_append.mp hmem with hold | hnew
    · exact h.persists call hold
    · rw [List.mem_singleton.mp hnew]
      exact trivial
  | access i =>
    simp only [Flush.step]
    split
    · exact h
    rename_i call hi
    have hok := persist_ok h (h.persists call (List.mem_of_getElem? hi))
      fun heq => hundisturbed (by rw [hi, heq])
    refine ⟨h.abreast, h.backends, fun other hmem => ?_, hok.2⟩
    rcases List.mem_or_eq_of_mem_set hmem with hold | rfl
    · exact h.persists other hold
    · exact hok.1

/-- RUN LEMMA: an undisturbed run keeps every file to its own block. -/
theorem sound_run {fallback : F} {base : BaseSnapshot} {blockEnv : BlockEnv} {disk : Disk}
    {events : List (FlushEvent F)} (hstart : tryU64 blockEnv.number = some (p.pin fallback))
    (hpromised : ∀ refresh, .lobby refresh ∈ events → Promised p.pin refresh)
    (hundisturbed :
      Guarded (Flush.step p) p.Undisturbed (.start fallback base blockEnv disk) events) :
    p.Sound disk (runAll (Flush.step p) (.start fallback base blockEnv disk) events) := by
  have hguarded := guarded_and hundisturbed
    (K := fun event => ∀ refresh, event = .lobby refresh → Promised p.pin refresh)
    (by rintro _ hmem refresh rfl; exact hpromised refresh hmem)
  exact guarded_inv (P := p.Sound disk) (fun s event h hguard => sound_step h hguard.2 hguard.1) _
    events (sound_start hstart base disk) hguarded

/-- CORRECT: in a run whose refreshes bring forks with their own block's env and whose every lock
    access is undisturbed, each file of the cache directory is as it was when the process started or
    holds only entries fetched at, or seeded for, the block it is named after; and so does what a
    later load takes from it. -/
theorem cache_files_of_their_block (p : Process F) (fallback : F) (base : BaseSnapshot)
    (blockEnv : BlockEnv) (disk : Disk) (events : List (FlushEvent F))
    (hstart : tryU64 blockEnv.number = some (p.pin fallback))
    (hpromised : ∀ refresh, .lobby refresh ∈ events → Promised p.pin refresh)
    (hundisturbed :
      Guarded (Flush.step p) p.Undisturbed (.start fallback base blockEnv disk) events) :
    let s := runAll (Flush.step p) (.start fallback base blockEnv disk) events
    (∀ path bytes, s.disk.files path = some bytes →
      disk.files path = some bytes ∨ p.Clean s.fetched path bytes) ∧
    ∀ raw key loaded loadedEnv,
      p.cache.loadWithBlockEnv p.json raw key s.disk = .ok (loaded, loadedEnv) →
      s.disk.files (p.cache.pathFor key) = disk.files (p.cache.pathFor key) ∨
        (∀ entry, loaded.Says entry → p.Sourced s.fetched key entry) ∧
          ∀ code, loaded.Inlines code → p.Sourced s.fetched key (.code code) := by
  intro s
  have hsound : p.Sound disk s := sound_run hstart hpromised hundisturbed
  refine ⟨hsound.disk, fun raw key loaded loadedEnv hload => ?_⟩
  by_cases hsame : s.disk.files (p.cache.pathFor key) = disk.files (p.cache.pathFor key)
  · exact .inl hsame
  · refine .inr (load_sourced hload fun bytes hfile => ?_)
    refine (hsound.disk _ bytes hfile).resolve_left fun hold => hsame ?_
    rw [hfile, hold]

end Sound

/-- The cache file of block 1 when one account has been fetched, and its text. -/
def blockOneFile : CacheFile where
  format := some CACHE_FORMAT
  version := some CACHE_FORMAT_VERSION
  chainId := some 1
  blockNumber := some 1
  accounts := [⟨0xa, 5, 0, keccakEmpty⟩]
  code := []
  storage := []
  blockHashes := []
  blockEnv := some ⟨1, 0, 0, 30000000⟩

def blockOneText : String :=
  "\x7b\"format\":\"forkyard-fork-cache\",\"version\":1,\"chain_id\":1,\"block_number\":1," ++
  "\"accounts\":[\x7b\"address\":\"0x000000000000000000000000000000000000000a\"," ++
  "\"balance\":\"0x5\",\"nonce\":0,\"code_hash\":" ++
  "\"0xc5d2460186f7233c927e7db2dcc703c0e500b653ca82273b7bfad8045d85a470\"\x7d],\"code\":[]," ++
  "\"storage\":[],\"block_hashes\":[],\"block_env\":\x7b\"number\":1,\"timestamp\":\"0x0\"," ++
  "\"basefee\":0,\"gas_limit\":30000000\x7d\x7d"

/-- A process whose forks are named by their block. -/
noncomputable def tipProcess : Process UInt64 where
  cache := ⟨["cache"]⟩
  chainId := 1
  seeded := none
  pin := id
  order := .some
  json := .only blockOneFile blockOneText.toUTF8.toList
  keccak256 _ := 0

/-- One account of the block is fetched. -/
def fetchOne (block : UInt64) : FlushEvent UInt64 :=
  .fetch block (.account 0xa ⟨5, 0, keccakEmpty, none⟩)

/-- A refresh to block 1 runs, then a whole `persist_cache`. -/
def quietRun : List (FlushEvent UInt64) :=
  [.lobby (.refresh 1 (blockAt 1)), .lobby (.access 0), .lobby (.access 0), .lobby (.access 0),
    fetchOne 1, .persist, .access 0, .access 0, .access 0, .access 0, .access 0, .access 0, .access 0]

theorem cache_files_of_their_block_quiet :
    let s := runAll (Flush.step tipProcess) (.start 0 .empty (blockAt 0) emptyDisk) quietRun
    (∀ path bytes, s.disk.files path = some bytes →
      emptyDisk.files path = some bytes ∨ tipProcess.Clean s.fetched path bytes) ∧
    ∀ raw key loaded loadedEnv,
      tipProcess.cache.loadWithBlockEnv tipProcess.json raw key s.disk = .ok (loaded, loadedEnv) →
      s.disk.files (tipProcess.cache.pathFor key) = emptyDisk.files (tipProcess.cache.pathFor key) ∨
        (∀ entry, loaded.Says entry → tipProcess.Sourced s.fetched key entry) ∧
          ∀ code, loaded.Inlines code → tipProcess.Sourced s.fetched key (.code code) := by
  refine cache_files_of_their_block tipProcess 0 .empty (blockAt 0) emptyDisk quietRun rfl ?_ ?_
  · intro refresh hmem
    simp only [quietRun, fetchOne, List.mem_cons, List.not_mem_nil, FlushEvent.lobby.injEq,
      reduceCtorEq, or_false] at hmem
    rcases hmem with rfl | rfl | rfl | rfl
    · rfl
    all_goals exact trivial
  · simp [Guarded, quietRun, fetchOne, Process.Undisturbed, Flush.step, Flush.start, Lobby.start,
      Lobby.step, Lobby.Alone, Call.access, Process.persist, tryU64, blockAt, tipProcess]

/-- A `persist_cache` names its file after block 1; then a refresh to block 2 writes its fallback,
    and what its backend has fetched is all there is left to write. -/
def tornRun : List (FlushEvent UInt64) :=
  [.persist, .access 0, .lobby (.refresh 2 (blockAt 2)), .lobby (.access 0), fetchOne 2, .access 0,
    .access 0, .access 0, .access 0, .access 0]

def blockTwoSnapshot : BaseSnapshot := .fromParts [(0xa, ⟨5, 0, keccakEmpty, none⟩)] [] [] []

theorem torn_encode (order : HashOrder) :
    ForkCache.encode order ⟨1, 1⟩ blockTwoSnapshot (StoredBlockEnv.fromEnv (blockAt 1))
      = blockOneFile := by
  simp [ForkCache.encode, blockTwoSnapshot, BaseSnapshot.fromParts, Map.extend,
    HashOrder.entries_empty, HashOrder.entries_singleton, storedAccount, blockOneFile,
    StoredBlockEnv.fromEnv, tryU64, blockAt]

/-- The torn run comes to writing block 2's state under the key of block 1. -/
theorem torn_file :
    let s := runAll (Flush.step tipProcess) (.start 1 .empty (blockAt 1) emptyDisk) tornRun
    s.persists = [.file ⟨1, 1⟩ blockTwoSnapshot (blockAt 1)] ∧ s.disk = emptyDisk ∧
      s.fetched = [(2, .account 0xa ⟨5, 0, keccakEmpty, none⟩)] := by
  simp [runAll, tornRun, fetchOne, Flush.step, Flush.start, Lobby.start, Lobby.step, Call.access,
    Process.persist, Process.fold, cacheSnapshot, BlockchainDb.insert, BlockchainDb.empty, tryU64,
    blockAt, tipProcess, HashOrder.entries_empty, HashOrder.entries_singleton, blockTwoSnapshot]

theorem torn_store : tipProcess.cache.storeWithBlockEnv tipProcess.order tipProcess.json ⟨1, 1⟩
    blockTwoSnapshot (blockAt 1) emptyDisk
      = .ok { emptyDisk with files := (Function.update emptyDisk.files
          (tipProcess.cache.pathFor ⟨1, 1⟩) (some blockOneText.toUTF8.toList)) } := by
  rw [ForkCache.storeWithBlockEnv, ForkCache.storeInner, torn_encode]
  rfl

theorem block_two_under_block_one :
    let s := runAll (Flush.step tipProcess) (.start 1 .empty (blockAt 1) emptyDisk)
      (tornRun ++ [.access 0])
    ¬ ∀ path bytes, s.disk.files path = some bytes →
      emptyDisk.files path = some bytes ∨ tipProcess.Clean s.fetched path bytes := by
  intro s hclean
  obtain ⟨hpersists, hdisk, hfetched⟩ := torn_file
  have hfile : s.disk.files (tipProcess.cache.pathFor ⟨1, 1⟩) = some blockOneText.toUTF8.toList := by
    simp only [s, runAll_append, runAll_cons, runAll_nil, Flush.step, hpersists,
      List.getElem?_cons_zero, Process.persist, hdisk, torn_store, Function.update_self]
  have hsame : s.fetched = [(2, .account 0xa ⟨5, 0, keccakEmpty, none⟩)] := by
    simp only [s, runAll_append, runAll_cons, runAll_nil, Flush.step, hpersists,
      List.getElem?_cons_zero, hfetched]
  obtain ⟨key, file, -, hparse, hchain, hblock, hsaid⟩ := (hclean _ _ hfile).resolve_left nofun
  obtain rfl : blockOneFile = file := by
    simpa [tipProcess, Json.only] using hparse
  have hkey : key.blockNumber = 1 := (Option.some.inj hblock).symm
  rcases hsaid (.account ⟨0xa, 5, 0, keccakEmpty⟩) (List.mem_singleton.mpr rfl) with
    ⟨piece, hmem, -⟩ | ⟨base, hseeded, -⟩
  · rw [hsame, hkey, List.mem_singleton] at hmem
    cases hmem
  · cases hseeded

end Forkyard
