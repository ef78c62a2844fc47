import Forkyard.Engine.Persist
import Forkyard.Fetch.ReadThrough

/-! `resolve`, called on any number of clones of one handle at once. A call claims, under the
    `in_flight` mutex, every uncached key nobody is fetching, fetches what it claimed, one thread a
    key or in one batch, lands those flights, and waits for the flights of the others; then it looks
    again. Each step here is one access to something shared: a mutex, a cache, a condition variable,
    the upstream connection.

        entering ──lock──▶ claiming ──mine──▶ fetching ──▶ descending ──lock──▶ landing, notifying
           ▲                   │ theirs                                               │ theirs
           └──── next round ───┴──────────── waiting ⇄ sleeping ◀─────────────────────┘ -/

namespace Forkyard

open Schemes

/-! ### What upstream answers -/

/-- The calls a batch is made of, answered for the block of the handle, and what makes an account of
    their answers. -/
structure Batcher where
  getBalance : Address → U256
  getTransactionCount : Address → U256
  getCode : Address → Bytes
  getStorageAt : Address → U256 → U256
  keccak256 : Bytes → B256
  raw : RawCode
  /-- `Address`'s `Display`. -/
  display : Address → String

/-- The account that three answers make: code inline, hashed, `KECCAK_EMPTY` for none. -/
def Batcher.basic (batch : Batcher) (address : Address) : Except String (Option AccountInfo) :=
  let code := batch.getCode address
  let analyzed : Except String (B256 × Option Bytecode) :=
    if code.isEmpty then .ok (keccakEmpty, none)
    else match batch.raw.newRawChecked code with
      | .error e => .error s!"code of {batch.display address}: {e}"
      | .ok bytecode => .ok (batch.keccak256 code, some bytecode)
  match analyzed with
  | .error e => .error e
  | .ok (codeHash, code) =>
    let nonce := batch.getTransactionCount address
    if nonce.toNat < 2 ^ 64 then
      .ok (some ⟨batch.getBalance address, .ofNat nonce.toNat, codeHash, code⟩)
    else .error s!"nonce of {batch.display address} does not fit a u64: {nonce.toNat}"

/-- Where a handle gets its state: `inner`, and a batcher or none. -/
structure Source (E : Type) where
  inner : Upstream E
  batch : Option Batcher

/-- What upstream answers to each key, with errors as their text: accounts and slots come by batch
    where there is a batcher, block hashes always from `inner`. -/
def Source.upstream {E : Type} [ToString E] (source : Source E) : Upstream String where
  basic address := match source.batch with
    | some batch => batch.basic address
    | none => (source.inner.basic address).mapError toString
  codeByHash codeHash := (source.inner.codeByHash codeHash).mapError toString
  storage address index := match source.batch with
    | some batch => .ok (batch.getStorageAt address index)
    | none => (source.inner.storage address index).mapError toString
  blockHash number := (source.inner.blockHash number).mapError toString

/-! ### The shared caches -/

namespace ReadCache

/-- `is_cached`. -/
def has (cache : ReadCache) : StateKey → Bool
  | .account address => (cache.accounts.lookup address).isSome
  | .storage address index => (cache.storage.lookup (address, index)).isSome
  | .blockHash number => (cache.blockHashes.lookup number).isSome

/-! What is inserted is cached under its own key. -/

theorem has_account {cache : ReadCache} {address : Address} {info : Option AccountInfo}
    {key : StateKey} :
    has { cache with accounts := cache.accounts.insert address info } key = true ↔
      cache.has key = true ∨ .account address = key := by
  cases key with
  | account other =>
    rw [has, has, Map.lookup_insert_eq]
    by_cases hsame : other = address
    · simp [hsame]
    · simp [hsame, Ne.symm hsame]
  | storage other index => simp [has]
  | blockHash number => simp [has]

theorem has_storage {cache : ReadCache} {address : Address} {index value : U256} {key : StateKey} :
    has { cache with storage := cache.storage.insert (address, index) value } key = true ↔
      cache.has key = true ∨ .storage address index = key := by
  cases key with
  | account other => simp [has]
  | storage other index' =>
    rw [has, has, Map.lookup_insert_eq]
    by_cases hsame : (other, index') = (address, index)
    · simp [(Prod.mk.inj hsame).1, (Prod.mk.inj hsame).2]
    · rw [if_neg hsame]
      simp only [StateKey.storage.injEq, iff_self_or]
      rintro ⟨rfl, rfl⟩
      exact absurd rfl hsame
  | blockHash number => simp [has]

theorem has_blockHash {cache : ReadCache} {number : UInt64} {hash : B256} {key : StateKey} :
    has { cache with blockHashes := cache.blockHashes.insert number hash } key = true ↔
      cache.has key = true ∨ .blockHash number = key := by
  cases key with
  | account other => simp [has]
  | storage other index => simp [has]
  | blockHash other =>
    rw [has, has, Map.lookup_insert_eq]
    by_cases hsame : other = number
    · simp [hsame]
    · simp [hsame, Ne.symm hsame]

/-- The cache with what upstream answers to a key. -/
def fill (cache : ReadCache) (up : Upstream String) : StateKey → Except String ReadCache
  | .account address => (up.basic address).map fun info =>
    { cache with accounts := cache.accounts.insert address info }
  | .storage address index => (up.storage address index).map fun value =>
    { cache with storage := cache.storage.insert (address, index) value }
  | .blockHash number => (up.blockHash number).map fun hash =>
    { cache with blockHashes := cache.blockHashes.insert number hash }

end ReadCache

/-- One key's fetch in progress, for anyone else who needs that key to wait on. -/
structure Flight where
  key : StateKey
  landed : Bool

/-- All that calls share. `lock` is the call inside the `in_flight` mutex, `inFlight` finds a key's
    flight in `flights`, `permits` are left of the cap on requests in flight, and `fetched` lists
    every key upstream was ever asked for. -/
structure Airspace where
  cache : ReadCache
  lock : Option ℕ
  inFlight : Map StateKey ℕ
  flights : List Flight
  permits : ℕ
  fetched : List StateKey

/-! ### Fetching -/

/-- How a read, or a whole `resolve`, ended. -/
inductive Verdict where
  | ok
  | failed (error : String)
  | panicked
  deriving DecidableEq

/-- What comes back of a request: upstream's answer, an error on the way, or a panic of the thread
    that asked. -/
inductive Response where
  | answer
  | failed (error : String)
  | panic

/-- The cache takes the answer to one key, if that is what came back. -/
def Response.receive (response : Response) (up : Upstream String) (key : StateKey)
    (cache : ReadCache) : Verdict × ReadCache :=
  match response with
  | .answer =>
    match cache.fill up key with
    | .ok cache => (.ok, cache)
    | .error e => (.failed e, cache)
  | .failed e => (.failed e, cache)
  | .panic => (.panicked, cache)

/-- A scoped thread in `read_blocking`: about to look in the cache, waiting for upstream, or
    done. -/
inductive Reading where
  | starting
  | asked
  | read (verdict : Verdict)
  deriving DecidableEq

/-- Where `resolve_batched` is within an attempt: accounts and slots go into the batch, accounts
    first, block hashes are read one by one after it. -/
inductive Stage where
  | checking
  | acquiring (batch hashes : List StateKey)
  | sending (batch hashes : List StateKey)
  | receiving (batch hashes : List StateKey)
  | hashing (hashes : List StateKey)
  | asking (key : StateKey) (hashes : List StateKey)
  | returned (verdict : Verdict)

inductive Fetching where
  | reads (threads : List (StateKey × Reading))
  | batched (keys : List StateKey) (attempt : ℕ) (stage : Stage)

def StateKey.isAccount : StateKey → Bool
  | .account _ => true
  | _ => false

def StateKey.isStorage : StateKey → Bool
  | .storage _ _ => true
  | _ => false

def StateKey.isBlockHash : StateKey → Bool
  | .blockHash _ => true
  | _ => false

/-- Retries of a rate-limited batch before its error is returned. -/
def RATE_LIMIT_RETRIES : ℕ := 6

def containsText (text phrase : String) : Bool :=
  text.toList.tails.any fun rest => phrase.toList.isPrefixOf rest

/-- A provider saying "slow down" rather than "no". -/
def isRateLimited (error : String) : Bool :=
  let error := error.map Char.toLower
  containsText error "error code -32005" || containsText error "\"code\":-32005" ||
    containsText error "http error 429" || containsText error "rate limit exceeded" ||
    containsText error "too many requests"

/-- `resolve_batched` on what `send_batch` returned. -/
def settle (attempt : ℕ) (verdict : Verdict) : ℕ × Stage :=
  match verdict with
  | .failed error =>
    if isRateLimited error ∧ attempt < RATE_LIMIT_RETRIES then (attempt + 1, .checking)
    else (attempt, .returned (.failed error))
  | verdict => (attempt, .returned verdict)

/-- `send_batch` sorts the missing keys: nothing to do, only block hashes, or a batch. -/
def Stage.ofMissing (missing : List StateKey) : Stage :=
  let batch := missing.filter (·.isAccount) ++ missing.filter (·.isStorage)
  let hashes := missing.filter (·.isBlockHash)
  if missing.isEmpty then .returned .ok
  else if batch.isEmpty then .hashing hashes
  else .acquiring batch hashes

/-- One step of a batch: where the attempt is then, what is shared, and the keys whose fetch failed
    in this step. -/
def Stage.step (up : Upstream String) (response : Response) (keys : List StateKey) (attempt : ℕ)
    (space : Airspace) : Stage → (ℕ × Stage) × Airspace × List StateKey
  | .checking =>
    ((attempt, .ofMissing (keys.filter fun key => !space.cache.has key)), space, [])
  | .acquiring batch hashes =>
    if space.permits = 0 then ((attempt, .acquiring batch hashes), space, [])
    else ((attempt, .sending batch hashes), { space with permits := space.permits - 1 }, [])
  | .sending batch hashes =>
    let sent := { space with fetched := space.fetched ++ batch }
    -- the permit goes with the request
    let freed := { sent with permits := sent.permits + 1 }
    match response with
    | .answer => ((attempt, .receiving batch hashes), sent, [])
    | .failed e => (settle attempt (.failed e), freed, batch)
    | .panic => (settle attempt .panicked, freed, batch)
  | .receiving [] hashes =>
    ((attempt, .hashing hashes), { space with permits := space.permits + 1 }, [])
  | .receiving (key :: batch) hashes =>
    match response.receive up key space.cache with
    | (.ok, cache) => ((attempt, .receiving batch hashes), { space with cache := cache }, [])
    | (verdict, _) =>
      (settle attempt verdict, { space with permits := space.permits + 1 }, [key])
  | .hashing [] => ((attempt, .returned .ok), space, [])
  | .hashing (key :: hashes) =>
    if space.cache.has key then ((attempt, .hashing hashes), space, [])
    else ((attempt, .asking key hashes), { space with fetched := space.fetched ++ [key] }, [])
  | .asking key hashes =>
    match response.receive up key space.cache with
    | (.ok, cache) => ((attempt, .hashing hashes), { space with cache := cache }, [])
    | (verdict, _) => (settle attempt verdict, space, [key])
  | .returned verdict => ((attempt, .returned verdict), space, [])

/-- One step of one scoped thread. -/
def Reading.step (up : Upstream String) (response : Response) (key : StateKey) (space : Airspace) :
    Reading → Reading × Airspace × List StateKey
  | .starting =>
    if space.cache.has key then (.read .ok, space, [])
    else (.asked, { space with fetched := space.fetched ++ [key] }, [])
  | .asked =>
    match response.receive up key space.cache with
    | (.ok, cache) => (.read .ok, { space with cache := cache }, [])
    | (verdict, _) => (.read verdict, space, [key])
  | .read verdict => (.read verdict, space, [])

/-- The `j`-th thread of the fetch takes a step; a batch has only the calling thread. -/
def Fetching.step (up : Upstream String) (response : Response) (j : ℕ) (space : Airspace) :
    Fetching → Fetching × Airspace × List StateKey
  | .reads threads =>
    match threads[j]? with
    | none => (.reads threads, space, [])
    | some (key, reading) =>
      let (reading, space, failures) := reading.step up response key space
      (.reads (threads.set j (key, reading)), space, failures)
  | .batched keys attempt stage =>
    let ((attempt, stage), space, failures) := stage.step up response keys attempt space
    (.batched keys attempt stage, space, failures)

/-- The keys being fetched. -/
def Fetching.keys : Fetching → List StateKey
  | .reads threads => threads.map Prod.fst
  | .batched keys _ _ => keys

def Fetching.start (batched : Bool) (mine : List StateKey) : Fetching :=
  if batched then .batched mine 0 .checking else .reads (mine.map fun key => (key, .starting))

/-- The scope joins its threads in order up to the first that failed, and panics itself if one it
    has not joined has panicked. -/
def joined : List Verdict → Verdict
  | [] => .ok
  | .ok :: rest => joined rest
  | .failed error :: rest => if .panicked ∈ rest then .panicked else .failed error
  | .panicked :: rest => if .panicked ∈ rest then .panicked else .failed "resolver panicked"

def Reading.verdict : Reading → Option Verdict
  | .read verdict => some verdict
  | _ => none

/-- How the fetch ended, once it has. -/
def Fetching.verdict : Fetching → Option Verdict
  | .reads threads =>
    if threads.all fun thread => thread.2.verdict.isSome then
      some (joined (threads.filterMap fun thread => thread.2.verdict))
    else none
  | .batched _ _ (.returned verdict) => some verdict
  | .batched _ _ _ => none

/-! ### One call -/

/-- Where a call of `resolve` is in its loop. -/
inductive Phase where
  /-- About to lock `in_flight`, to claim. -/
  | entering
  | claiming (todo mine : List StateKey) (theirs : List ℕ)
  /-- `key` was not cached: about to look for its flight. -/
  | looking (key : StateKey) (todo mine : List StateKey) (theirs : List ℕ)
  | fetching (fetch : Fetching) (theirs : List ℕ)
  /-- In `Landing::drop`, about to lock `in_flight`. -/
  | descending (verdict : Verdict) (mine : List StateKey) (theirs : List ℕ)
  | landing (verdict : Verdict) (mine : List StateKey) (theirs : List ℕ)
  | notifying (flight : ℕ) (verdict : Verdict) (mine : List StateKey) (theirs : List ℕ)
  /-- About to lock the first flight, to see whether it has landed. -/
  | waiting (theirs : List ℕ)
  /-- Asleep on the first flight's condition variable. -/
  | sleeping (theirs : List ℕ)
  | ended (verdict : Verdict)

/-- A call, with the rounds it has begun and the keys whose fetch it had fail. -/
structure Resolve where
  keys : List StateKey
  rounds : ℕ
  failures : List StateKey
  phase : Phase

/-- The call waits for what is left of `theirs`, or goes round. -/
def Phase.await : List ℕ → Phase
  | [] => .entering
  | theirs => .waiting theirs

/-- What follows the block in which the call fetched: `?` returns, an unwind goes on, and with no
    one to wait for the call is done. -/
def Phase.afterLanding : Verdict → List ℕ → Phase
  | .ok, [] => .ended .ok
  | .ok, theirs => .await theirs
  | verdict, _ => .ended verdict

/-- The call's next step, its `j`-th thread's if it has several: the call then, what is shared then,
    and the flight it wakes the sleepers of, if any. -/
def Resolve.advance (up : Upstream String) (batched : Bool) (i j : ℕ) (response : Response)
    (call : Resolve) (space : Airspace) : Resolve × Airspace × Option ℕ :=
  match call.phase with
  | .entering =>
    match space.lock with
    | some _ => (call, space, none)
    | none => ({ call with rounds := call.rounds + 1, phase := .claiming call.keys [] [] },
        { space with lock := some i }, none)
  | .claiming [] [] [] =>
    ({ call with phase := .ended .ok }, { space with lock := none }, none)
  | .claiming [] [] theirs =>
    ({ call with phase := .await theirs }, { space with lock := none }, none)
  | .claiming [] mine theirs =>
    ({ call with phase := .fetching (.start batched mine) theirs },
      { space with lock := none }, none)
  | .claiming (key :: todo) mine theirs =>
    if space.cache.has key then ({ call with phase := .claiming todo mine theirs }, space, none)
    else ({ call with phase := .looking key todo mine theirs }, space, none)
  | .looking key todo mine theirs =>
    match space.inFlight.lookup key with
    | some flight =>
      ({ call with phase := .claiming todo mine (theirs ++ [flight]) }, space, none)
    | none => ({ call with phase := .claiming todo (mine ++ [key]) theirs },
        { space with
          inFlight := space.inFlight.insert key space.flights.length
          flights := space.flights ++ [⟨key, false⟩] }, none)
  | .fetching fetch theirs =>
    match fetch.verdict with
    | some verdict => ({ call with phase := .descending verdict fetch.keys theirs }, space, none)
    | none =>
      let (fetch, space, failures) := fetch.step up response j space
      ({ call with phase := .fetching fetch theirs, failures := call.failures ++ failures }, space,
        none)
  | .descending verdict mine theirs =>
    match space.lock with
    | some _ => (call, space, none)
    | none => ({ call with phase := .landing verdict mine theirs },
        { space with lock := some i }, none)
  | .landing verdict [] theirs =>
    ({ call with phase := .afterLanding verdict theirs }, { space with lock := none }, none)
  | .landing verdict (key :: mine) theirs =>
    match space.inFlight.lookup key with
    | none => ({ call with phase := .landing verdict mine theirs }, space, none)
    | some flight => ({ call with phase := .notifying flight verdict mine theirs },
        { space with
          inFlight := space.inFlight.erase key
          flights := space.flights.modify flight ({ · with landed := true }) }, none)
  | .notifying flight verdict mine theirs =>
    ({ call with phase := .landing verdict mine theirs }, space, some flight)
  | .waiting theirs =>
    match theirs with
    | [] => ({ call with phase := .entering }, space, none)
    | flight :: rest =>
      if (space.flights[flight]?.map Flight.landed).getD false then
        ({ call with phase := .await rest }, space, none)
      else ({ call with phase := .sleeping theirs }, space, none)
  | .sleeping _ => (call, space, none)
  | .ended _ => (call, space, none)

/-! ### Any number of calls -/

structure Resolves where
  space : Airspace
  calls : List Resolve

/-- Calls about to be made of a handle with this cache; a cap of 0 is taken as 1. -/
def Resolves.start (cache : ReadCache) (maxInFlight : ℕ) (requests : List (List StateKey)) :
    Resolves where
  space := ⟨cache, none, ∅, [], max maxInFlight 1, []⟩
  calls := requests.map fun keys => ⟨keys, 0, [], .entering⟩

/-- A sleeper on this flight wakes. -/
def Resolve.wake (flight : ℕ) (call : Resolve) : Resolve :=
  match call.phase with
  | .sleeping (f :: theirs) =>
    if f = flight then { call with phase := .waiting (f :: theirs) } else call
  | _ => call

/-- The `j`-th thread of the `i`-th call takes its next step, and if that is waiting for upstream
    this comes back; or the `i`-th call wakes from its sleep for no reason. -/
inductive ResolveEvent where
  | run (i j : ℕ) (response : Response)
  | spurious (i : ℕ)

def Resolves.step (up : Upstream String) (batched : Bool) (s : Resolves) : ResolveEvent → Resolves
  | .run i j response =>
    match s.calls[i]? with
    | none => s
    | some call =>
      let (call, space, notified) := call.advance up batched i j response s.space
      let calls := s.calls.set i call
      ⟨space, match notified with
        | some flight => calls.map (·.wake flight)
        | none => calls⟩
  | .spurious i =>
    match s.calls[i]? with
    | some ⟨keys, rounds, failures, .sleeping theirs⟩ =>
      { s with calls := s.calls.set i ⟨keys, rounds, failures, .waiting theirs⟩ }
    | _ => s

end Forkyard
