import Mathlib.Data.List.TakeWhile
import Forkyard.Bin.PersistCache
import Forkyard.Engine.Formats
import Forkyard.Fetch.Resolve

/-! `resolve_batched` by its replies. Each call of a batch is answered or fails on its own, but the
    answers are taken in order, accounts first, and the first that fails ends the taking: whatever
    stands behind it is dropped, answered or not, and asked for again by the next attempt.

        calls:   a ✓   b ✗   c ✓   slot ✓        cached: a
                 └ taken ┘  └─ answered, dropped ─┘

    What a failing call stands behind is kept. -/

namespace Forkyard

open Schemes

/-! ### One key's calls -/

/-- The account that three answers make: code inline, hashed, `KECCAK_EMPTY` for none. -/
def Batcher.info (batch : Batcher) (address : Address) (balance nonce : U256) (code : Bytes) :
    Except String AccountInfo :=
  let analyzed : Except String (B256 × Option Bytecode) :=
    if code.isEmpty then .ok (keccakEmpty, none)
    else match batch.raw.newRawChecked code with
      | .error e => .error s!"code of {batch.display address}: {e}"
      | .ok bytecode => .ok (batch.keccak256 code, some bytecode)
  match analyzed with
  | .error e => .error e
  | .ok (codeHash, code) =>
    if nonce.toNat < 2 ^ 64 then .ok ⟨balance, .ofNat nonce.toNat, codeHash, code⟩
    else .error s!"nonce of {batch.display address} does not fit a u64: {nonce.toNat}"

/-- Where every call is answered, it is the account that the batch is answered with. -/
theorem Batcher.basic_eq (batch : Batcher) (address : Address) :
    batch.basic address = (batch.info address (batch.getBalance address)
      (batch.getTransactionCount address) (batch.getCode address)).map some := by
  simp only [basic, info]
  cases (batch.getCode address).isEmpty with
  | true =>
    simp only [if_true]
    split <;> rfl
  | false =>
    simp only [Bool.false_eq_true, if_false]
    cases batch.raw.newRawChecked (batch.getCode address) with
    | error e => rfl
    | ok bytecode =>
      dsimp only
      split <;> rfl

/-- What came back of the calls made for one key. -/
inductive Called where
  | account (address : Address) (balance nonce : Except String U256) (code : Except String Bytes)
  | slot (address : Address) (index : U256) (value : Except String U256)

/-- Where what a batch brings goes: the caches of the handle, and what its backend persists. -/
structure Stores where
  cache : ReadCache
  db : BlockchainDb

namespace Called

def key : Called → StateKey
  | .account address _ _ _ => .account address
  | .slot address index _ => .storage address index

/-- All its calls were answered. -/
def answered : Called → Bool
  | .account _ balance nonce code => balance.isOk && nonce.isOk && code.isOk
  | .slot _ _ value => value.isOk

/-- And what they were answered can be kept: the code decodes, the nonce fits. -/
def lands (batch : Batcher) : Called → Bool
  | .account address (.ok balance) (.ok nonce) (.ok code) =>
    (batch.info address balance nonce code).isOk
  | .account _ _ _ _ => false
  | .slot _ _ value => value.isOk

/-- The answers awaited in turn, and what they make inserted. -/
def land (batch : Batcher) (s : Stores) : Called → Except String Stores
  | .account address balance nonce code => do
    let balance ← balance
    let nonce ← nonce
    let code ← code
    let info ← batch.info address balance nonce code
    return ⟨{ s.cache with accounts := s.cache.accounts.insert address (some info) },
      s.db.insert (.account address info)⟩
  | .slot address index value => do
    let value ← value
    return ⟨{ s.cache with storage := s.cache.storage.insert (address, index) value },
      s.db.insert (.slot address index value)⟩

end Called

/-! ### One batch -/

/-- What one `send_batch` is answered: an error for the request as a whole, or for each call its own
    answer, by the place of its key among the accounts or the slots; and for each read of a block
    hash. -/
structure BatchReply where
  refused : Option String
  balance : ℕ → Except String U256
  nonce : ℕ → Except String U256
  code : ℕ → Except String Bytes
  value : ℕ → Except String U256
  blockHash : ℕ → Except String B256

def StateKey.address? : StateKey → Option Address
  | .account address => some address
  | _ => none

def StateKey.slot? : StateKey → Option (Address × U256)
  | .storage address index => some (address, index)
  | _ => none

def StateKey.number? : StateKey → Option UInt64
  | .blockHash number => some number
  | _ => none

/-- The calls of a batch in the order their answers are taken. -/
def BatchReply.calls (reply : BatchReply) (keys : List StateKey) : List Called :=
  ((keys.filterMap StateKey.address?).zipIdx.map fun (address, i) =>
    .account address (reply.balance i) (reply.nonce i) (reply.code i)) ++
  (keys.filterMap StateKey.slot?).zipIdx.map fun (slot, i) =>
    .slot slot.1 slot.2 (reply.value i)

/-- The first answer that cannot be kept ends it. -/
def landAll (batch : Batcher) : List Called → Stores → Except String Unit × Stores
  | [], s => (.ok (), s)
  | call :: calls, s =>
    match call.land batch s with
    | .error e => (.error e, s)
    | .ok s => landAll batch calls s

/-- Block hashes, each read through the cache; with what upstream was asked and said. -/
def readHashes (answer : ℕ → Except String B256) : List (UInt64 × ℕ) → ReadCache →
    Except String Unit × ReadCache × List (UInt64 × Except String B256)
  | [], cache => (.ok (), cache, [])
  | (number, i) :: hashes, cache =>
    if cache.has (.blockHash number) then readHashes answer hashes cache
    else match answer i with
      | .error e => (.error e, cache, [(number, .error e)])
      | .ok hash =>
        let (result, cache, asked) := readHashes answer hashes
          { cache with blockHashes := cache.blockHashes.insert number hash }
        (result, cache, (number, .ok hash) :: asked)

def sendBatch (batch : Batcher) (keys : List StateKey) (reply : BatchReply) (s : Stores) :
    Except String Unit × Stores × List (UInt64 × Except String B256) :=
  let calls := reply.calls keys
  let hashing (s : Stores) :=
    let (result, cache, asked) :=
      readHashes reply.blockHash (keys.filterMap StateKey.number?).zipIdx s.cache
    (result, { s with cache := cache }, asked)
  if keys.isEmpty then (.ok (), s, [])
  else if calls.isEmpty then hashing s
  else match reply.refused with
    | some e => (.error e, s, [])
    | none =>
      match landAll batch calls s with
      | (.error e, s) => (.error e, s, [])
      | (.ok _, s) => hashing s

/-! ### The attempts -/

/-- One `send_batch`: what was missing, what came back, and what was cached after it. -/
structure Sent where
  missing : List StateKey
  reply : BatchReply
  asked : List (UInt64 × Except String B256)
  result : Except String Unit
  cache : ReadCache

structure Batching where
  stores : Stores
  sent : List Sent

def Batching.attempt (batch : Batcher) (keys : List StateKey) (reply : BatchReply) (b : Batching) :
    Except String Unit × Batching :=
  let missing := keys.filter fun key => !b.stores.cache.has key
  let (result, stores, asked) := sendBatch batch missing reply b.stores
  (result, ⟨stores, b.sent ++ [⟨missing, reply, asked, result, stores.cache⟩]⟩)

/-- The loop, with so many retries left. -/
def Batching.resolve (batch : Batcher) (keys : List StateKey) (replies : ℕ → BatchReply) :
    ℕ → Batching → Except String Unit × Batching
  | 0, b => b.attempt batch keys (replies b.sent.length)
  | left + 1, b =>
    match b.attempt batch keys (replies b.sent.length) with
    | (.error e, b) => if isRateLimited e then resolve batch keys replies left b else (.error e, b)
    | (.ok _, b) => (.ok (), b)

/-- `resolve_batched`, the replies in the order they come. -/
def resolveBatched (batch : Batcher) (keys : List StateKey) (replies : ℕ → BatchReply) (s : Stores) :
    Except String Unit × Batching :=
  Batching.resolve batch keys replies RATE_LIMIT_RETRIES ⟨s, []⟩

/-! ### What is asked of it -/

/-- Every account and slot answered in full is cached afterwards. -/
def Sent.Kept (sent : Sent) : Prop :=
  sent.reply.refused = none → ∀ call ∈ sent.reply.calls sent.missing, call.answered = true →
    sent.cache.has call.key = true

/-- Upstream has answered the key. -/
def Sent.Answered (sent : Sent) (key : StateKey) : Prop :=
  (sent.reply.refused = none ∧
    ∃ call ∈ sent.reply.calls sent.missing, call.answered = true ∧ call.key = key) ∨
  ∃ number hash, (number, .ok hash) ∈ sent.asked ∧ key = .blockHash number

/-- The attempt that failed was rate limited. -/
def Sent.Limited (sent : Sent) : Prop := ∃ e, sent.result = .error e ∧ isRateLimited e = true

/-- A partly answered batch keeps what it got: nothing answered is asked for again, there are few
    batches, none but the last without being rate limited, and all is cached in the end. -/
structure Batching.Keeps (keys : List StateKey) (result : Except String Unit) (b : Batching) :
    Prop where
  kept : ∀ sent ∈ b.sent, sent.Kept
  once : b.sent.Pairwise fun sent later => ∀ key, sent.Answered key → key ∉ later.missing
  few : b.sent.length ≤ RATE_LIMIT_RETRIES + 1
  limited : b.sent.Pairwise fun sent _ => sent.Limited
  complete : result = .ok () → ∀ key ∈ keys, b.stores.cache.has key = true

/-- Whatever is answered in full stands, there or elsewhere, before the first call of the batch that
    failed or made no account. -/
def BatchReply.Orderly (batch : Batcher) (keys : List StateKey) (reply : BatchReply) : Prop :=
  reply.refused = none → ∀ call ∈ reply.calls keys, call.answered = true →
    ∃ taken ∈ (reply.calls keys).takeWhile (·.lands batch), taken.key = call.key

/-! ### What is kept -/

variable {batch : Batcher} {s : Stores}

/-- STEP LEMMA: what lands is cached under its key, and what does not ends the batch. -/
theorem land_cases (batch : Batcher) (s : Stores) (call : Called) :
    call.lands batch = true ∧ (∃ s', call.land batch s = .ok s' ∧
      ∀ key, s'.cache.has key = true ↔ s.cache.has key = true ∨ call.key = key) ∨
    call.lands batch = false ∧ ∃ e, call.land batch s = .error e := by
  cases call with
  | account address balance nonce code =>
    cases balance with
    | error e => exact .inr ⟨rfl, e, rfl⟩
    | ok balance =>
      cases nonce with
      | error e => exact .inr ⟨rfl, e, rfl⟩
      | ok nonce =>
        cases code with
        | error e => exact .inr ⟨rfl, e, rfl⟩
        | ok code =>
          cases hinfo : batch.info address balance nonce code with
          | error e =>
            refine .inr ⟨by simp only [Called.lands, hinfo]; rfl, e, ?_⟩
            change (batch.info address balance nonce code >>= _) = _
            rw [hinfo]
            rfl
          | ok info =>
            have hland : (Called.account address (.ok balance) (.ok nonce) (.ok code)).land batch s
                = .ok ⟨{ s.cache with accounts := s.cache.accounts.insert address (some info) },
                  s.db.insert (.account address info)⟩ := by
              change (batch.info address balance nonce code >>= _) = _
              rw [hinfo]
              rfl
            exact .inl ⟨by simp only [Called.lands, hinfo]; rfl, _, hland,
              fun key => ReadCache.has_account⟩
  | slot address index value =>
    cases value with
    | error e => exact .inr ⟨rfl, e, rfl⟩
    | ok value => exact .inl ⟨rfl, _, rfl, fun key => ReadCache.has_storage⟩

/-- EXACT: of the calls of a batch those are cached that are taken. -/
theorem landAll_has (batch : Batcher) (calls : List Called) (s : Stores) (key : StateKey) :
    (landAll batch calls s).2.cache.has key = true ↔ s.cache.has key = true ∨
      ∃ taken ∈ calls.takeWhile (·.lands batch), taken.key = key := by
  induction calls generalizing s with
  | nil => simp [landAll]
  | cons call calls ih =>
    rcases land_cases batch s call with ⟨hlands, s', hland, hhas⟩ | ⟨hlands, e, hland⟩
    · simp only [landAll, hland, List.takeWhile_cons, hlands, if_true, ih s', hhas key,
        List.mem_cons, exists_eq_or_imp, or_assoc]
    · simp [landAll, hland, hlands]

/-- Only where all are taken is the batch through. -/
theorem landAll_ok {calls : List Called} {s : Stores} (h : (landAll batch calls s).1 = .ok ()) :
    ∀ call ∈ calls, call.lands batch = true := by
  induction calls generalizing s with
  | nil => simp
  | cons call calls ih =>
    rcases land_cases batch s call with ⟨hlands, s', hland, -⟩ | ⟨-, e, hland⟩
    · simp only [landAll, hland] at h
      intro other hmem
      rcases List.mem_cons.mp hmem with rfl | hmem
      · exact hlands
      · exact ih h other hmem
    · simp [landAll, hland] at h

/-- Block hashes are cached as they are answered, and nothing but block hashes. -/
theorem readHashes_has (answer : ℕ → Except String B256) (hashes : List (UInt64 × ℕ))
    (cache : ReadCache) :
    let out := readHashes answer hashes cache
    (∀ key, cache.has key = true → out.2.1.has key = true) ∧
      (∀ key, key.isBlockHash = false → out.2.1.has key = cache.has key) ∧
      (∀ number hash, (number, .ok hash) ∈ out.2.2 → out.2.1.has (.blockHash number) = true) ∧
      (out.1 = .ok () → ∀ read ∈ hashes, out.2.1.has (.blockHash read.1) = true) := by
  induction hashes generalizing cache with
  | nil => simp [readHashes]
  | cons read hashes ih =>
    obtain ⟨number, i⟩ := read
    simp only [readHashes]
    split
    · rename_i hhit
      obtain ⟨hmono, hother, hasked, hall⟩ := ih cache
      refine ⟨hmono, hother, hasked, fun hok read hmem => ?_⟩
      rcases List.mem_cons.mp hmem with rfl | hmem
      · exact hmono _ hhit
      · exact hall hok read hmem
    · cases answer i with
      | error e => simp
      | ok hash =>
        obtain ⟨hmono, hother, hasked, hall⟩ :=
          ih { cache with blockHashes := cache.blockHashes.insert number hash }
        have hread : (readHashes answer hashes { cache with
            blockHashes := cache.blockHashes.insert number hash }).2.1.has (.blockHash number)
              = true := hmono _ (ReadCache.has_blockHash.mpr (.inr rfl))
        refine ⟨fun key hkey => hmono key (ReadCache.has_blockHash.mpr (.inl hkey)),
          fun key hkey => ?_, fun n h hmem => ?_, fun hok read hmem => ?_⟩
        · rw [hother key hkey, Bool.eq_iff_iff, ReadCache.has_blockHash, or_iff_left]
          rintro rfl
          cases hkey
        · rcases List.mem_cons.mp hmem with heq | hmem
          · obtain ⟨rfl, -⟩ := Prod.mk.inj heq
            exact hread
          · exact hasked n h hmem
        · rcases List.mem_cons.mp hmem with rfl | hmem
          · exact hread
          · exact hall hok read hmem

/-! ### The calls and their keys -/

/-- A call is made for each key of its kind, and for no other. -/
theorem mem_filterMap_kind {A : Type} {kind : StateKey → Option A} {make : A → StateKey}
    (h : ∀ key a, kind key = some a ↔ key = make a) {keys : List StateKey} {a : A} :
    a ∈ keys.filterMap kind ↔ make a ∈ keys := by
  simp only [List.mem_filterMap, h]
  exact exists_eq_right

theorem StateKey.address?_iff (key : StateKey) (address : Address) :
    key.address? = some address ↔ key = .account address := by
  cases key <;> simp [StateKey.address?]

theorem StateKey.slot?_iff (key : StateKey) (slot : Address × U256) :
    key.slot? = some slot ↔ key = .storage slot.1 slot.2 := by
  cases key <;> simp [StateKey.slot?, Prod.ext_iff]

theorem StateKey.number?_iff (key : StateKey) (number : UInt64) :
    key.number? = some number ↔ key = .blockHash number := by
  cases key <;> simp [StateKey.number?]

theorem mem_filterMap_address {keys : List StateKey} {address : Address} :
    address ∈ keys.filterMap StateKey.address? ↔ .account address ∈ keys :=
  mem_filterMap_kind StateKey.address?_iff

theorem mem_filterMap_slot {keys : List StateKey} {slot : Address × U256} :
    slot ∈ keys.filterMap StateKey.slot? ↔ .storage slot.1 slot.2 ∈ keys :=
  mem_filterMap_kind StateKey.slot?_iff

theorem mem_filterMap_number {keys : List StateKey} {number : UInt64} :
    number ∈ keys.filterMap StateKey.number? ↔ .blockHash number ∈ keys :=
  mem_filterMap_kind StateKey.number?_iff

/-- What is listed has a place. -/
theorem mem_zipIdx_iff {A : Type} {as : List A} {a : A} : (∃ i, (a, i) ∈ as.zipIdx) ↔ a ∈ as := by
  simp only [List.mem_zipIdx_iff_getElem?]
  exact List.mem_iff_getElem?.symm

/-- Each account and each slot asked for has its calls, and no other key has. -/
theorem calls_key (reply : BatchReply) (keys : List StateKey) (key : StateKey) :
    (∃ call ∈ reply.calls keys, call.key = key) ↔ key ∈ keys ∧ key.isBlockHash = false := by
  simp only [BatchReply.calls, List.mem_append, List.mem_map, Prod.exists]
  constructor
  · rintro ⟨call, ⟨address, i, hmem, rfl⟩ | ⟨address, index, i, hmem, rfl⟩, rfl⟩
    · exact ⟨mem_filterMap_address.mp (mem_zipIdx_iff.mp ⟨i, hmem⟩), rfl⟩
    · exact ⟨mem_filterMap_slot.mp (mem_zipIdx_iff.mp ⟨i, hmem⟩), rfl⟩
  · rintro ⟨hmem, hkind⟩
    cases key with
    | account address =>
      obtain ⟨i, hi⟩ := mem_zipIdx_iff.mpr (mem_filterMap_address.mpr hmem)
      exact ⟨_, .inl ⟨address, i, hi, rfl⟩, rfl⟩
    | storage address index =>
      have hlisted : (address, index) ∈ keys.filterMap StateKey.slot? := mem_filterMap_slot.mpr hmem
      obtain ⟨i, hi⟩ := mem_zipIdx_iff.mpr hlisted
      exact ⟨_, .inr ⟨address, index, i, hi, rfl⟩, rfl⟩
    | blockHash number => cases hkind

/-- SPEC of `send_batch`: it forgets nothing; accounts and slots are cached as they are taken, block
    hashes as they are answered; and it is through only where all it was asked for is cached. -/
theorem sendBatch_has (batch : Batcher) (keys : List StateKey) (reply : BatchReply) (s : Stores) :
    let out := sendBatch batch keys reply s
    (∀ key, s.cache.has key = true → out.2.1.cache.has key = true) ∧
      (reply.refused = none → ∀ key, key.isBlockHash = false → (out.2.1.cache.has key = true ↔
        s.cache.has key = true ∨
          ∃ taken ∈ (reply.calls keys).takeWhile (·.lands batch), taken.key = key)) ∧
      (∀ number hash, (number, .ok hash) ∈ out.2.2 →
        out.2.1.cache.has (.blockHash number) = true) ∧
      (out.1 = .ok () → ∀ key ∈ keys, out.2.1.cache.has key = true) := by
  have hhashing := fun cache =>
    readHashes_has reply.blockHash (keys.filterMap StateKey.number?).zipIdx cache
  have hnumber : ∀ {cache : ReadCache} {number : UInt64}, .blockHash number ∈ keys →
      (∀ read ∈ (keys.filterMap StateKey.number?).zipIdx, cache.has (.blockHash read.1) = true) →
        cache.has (.blockHash number) = true := by
    intro cache number hmem hall
    obtain ⟨i, hi⟩ := mem_zipIdx_iff.mpr (mem_filterMap_number.mpr hmem)
    exact hall (number, i) hi
  unfold sendBatch
  dsimp only
  split
  · rename_i hempty
    rw [List.isEmpty_iff] at hempty
    subst hempty
    simp [BatchReply.calls]
  split
  · rename_i hnone
    rw [List.isEmpty_iff] at hnone
    obtain ⟨hmono, hother, hasked, hall⟩ := hhashing s.cache
    refine ⟨hmono, fun _ key hkind => ?_, hasked, fun hok key hmem => ?_⟩
    · rw [hnone, hother key hkind]
      simp
    · have hcalls := calls_key reply keys key
      rw [hnone] at hcalls
      cases key with
      | account address => exact absurd (hcalls.mpr ⟨hmem, rfl⟩) (by simp)
      | storage address index => exact absurd (hcalls.mpr ⟨hmem, rfl⟩) (by simp)
      | blockHash number => exact hnumber hmem (hall hok)
  split
  · rename_i e hrefused
    simp [hrefused]
  split
  · rename_i e s' hland
    have htaken := landAll_has batch (reply.calls keys) s
    rw [hland] at htaken
    refine ⟨fun key hkey => (htaken key).mpr (.inl hkey), fun _ key _ => htaken key, by simp, by simp⟩
  · rename_i s' hland
    have htaken := landAll_has batch (reply.calls keys) s
    have hok : ∀ call ∈ reply.calls keys, call.lands batch = true := landAll_ok (by rw [hland])
    rw [hland] at htaken
    obtain ⟨hmono, hother, hasked, hall⟩ := hhashing s'.cache
    refine ⟨fun key hkey => hmono key ((htaken key).mpr (.inl hkey)), fun _ key hkind => ?_, hasked,
      fun hread key hmem => ?_⟩
    · rw [hother key hkind]
      exact htaken key
    · by_cases hkind : key.isBlockHash = false
      · obtain ⟨call, hcall, rfl⟩ := (calls_key reply keys key).mpr ⟨hmem, hkind⟩
        refine hmono _ ((htaken _).mpr (.inr ⟨call, ?_, rfl⟩))
        rwa [List.takeWhile_eq_self_iff.mpr hok]
      · cases key with
        | account address => exact absurd rfl hkind
        | storage address index => exact absurd rfl hkind
        | blockHash number => exact hnumber hmem (hall hread)

/-! ### The run -/

namespace Batching

/-- INVARIANT: nothing cached is forgotten or asked for again, and an attempt has kept what it got
    just where its reply was orderly. -/
structure Sound (batch : Batcher) (b : Batching) : Prop where
  kept : ∀ sent ∈ b.sent, sent.Kept ↔ sent.reply.Orderly batch sent.missing
  cached : ∀ sent ∈ b.sent, ∀ key, sent.cache.has key = true → b.stores.cache.has key = true
  asked : b.sent.Pairwise fun sent later => ∀ key, sent.cache.has key = true → key ∉ later.missing
  hashes : ∀ sent ∈ b.sent, ∀ number hash, (number, .ok hash) ∈ sent.asked →
    sent.cache.has (.blockHash number) = true

variable {keys : List StateKey} {b : Batching} {result : Except String Unit}

/-- STEP LEMMA. -/
theorem sound_attempt (h : b.Sound batch) (keys : List StateKey) (reply : BatchReply) :
    (b.attempt batch keys reply).2.Sound batch := by
  set missing := keys.filter fun key => !b.stores.cache.has key with hmissing
  obtain ⟨hmono, htaken, hhashes, -⟩ := sendBatch_has batch missing reply b.stores
  set sent : Sent := ⟨missing, reply, (sendBatch batch missing reply b.stores).2.2,
    (sendBatch batch missing reply b.stores).1, (sendBatch batch missing reply b.stores).2.1.cache⟩
    with hsent
  have hafter : (b.attempt batch keys reply).2
      = ⟨(sendBatch batch missing reply b.stores).2.1, b.sent ++ [sent]⟩ := rfl
  have huncached : ∀ key ∈ missing, b.stores.cache.has key = false := by
    intro key hmem
    simpa using (List.mem_filter.mp hmem).2
  rw [hafter]
  refine ⟨?_, ?_, ?_, ?_⟩
  · intro other hmem
    rcases List.mem_append.mp hmem with hold | hnew
    · exact h.kept other hold
    obtain rfl := List.mem_singleton.mp hnew
    refine forall_congr' fun hreplied => forall₃_congr fun call hcall _ => ?_
    obtain ⟨hlisted, hkind⟩ := (calls_key reply missing call.key).mp ⟨call, hcall, rfl⟩
    have hiff := htaken hreplied call.key hkind
    rw [huncached call.key hlisted] at hiff
    exact hiff.trans ⟨fun h => h.resolve_left Bool.false_ne_true, .inr⟩
  · intro other hmem key hkey
    rcases List.mem_append.mp hmem with hold | hnew
    · exact hmono key (h.cached other hold key hkey)
    · obtain rfl := List.mem_singleton.mp hnew
      exact hkey
  · refine List.pairwise_append.mpr ⟨h.asked, List.pairwise_singleton _ _, ?_⟩
    intro other hold later hnew key hkey hlisted
    obtain rfl := List.mem_singleton.mp hnew
    have hhad := h.cached other hold key hkey
    rw [huncached key hlisted] at hhad
    cases hhad
  · intro other hmem
    rcases List.mem_append.mp hmem with hold | hnew
    · exact h.hashes other hold
    · obtain rfl := List.mem_singleton.mp hnew
      exact hhashes

/-- An attempt that returns `Ok` leaves nothing missing. -/
theorem attempt_complete {reply : BatchReply} (h : (b.attempt batch keys reply).1 = .ok ()) :
    ∀ key ∈ keys, (b.attempt batch keys reply).2.stores.cache.has key = true := by
  intro key hmem
  obtain ⟨hmono, -, -, hall⟩ :=
    sendBatch_has batch (keys.filter fun key => !b.stores.cache.has key) reply b.stores
  cases hhad : b.stores.cache.has key with
  | true => exact hmono key hhad
  | false => exact hall h key (List.mem_filter.mpr ⟨hmem, by rw [hhad]; rfl⟩)

/-- An attempt is on record with what it returned. -/
theorem attempt_sent (batch : Batcher) (b : Batching) (keys : List StateKey) (reply : BatchReply) :
    ∃ sent, (b.attempt batch keys reply).2.sent = b.sent ++ [sent] ∧
      sent.result = (b.attempt batch keys reply).1 := ⟨_, rfl, rfl⟩

/-- RUN LEMMA: however the attempts are answered, the invariant holds after the last of them. -/
theorem sound_resolve (replies : ℕ → BatchReply) (left : ℕ) (h : b.Sound batch) :
    (b.resolve batch keys replies left).2.Sound batch := by
  induction left generalizing b with
  | zero => exact sound_attempt h keys _
  | succ left ih =>
    have hsound := sound_attempt h keys (replies b.sent.length)
    rw [resolve]
    split
    · rename_i e b' hattempt
      rw [hattempt] at hsound
      split
      · exact ih hsound
      · exact hsound
    · rename_i b' hattempt
      rw [hattempt] at hsound
      exact hsound

theorem limited_concat {sents : List Sent} (h : ∀ sent ∈ sents, sent.Limited) (sent : Sent) :
    (sents ++ [sent]).Pairwise fun sent _ => sent.Limited := by
  refine List.pairwise_append.mpr ⟨?_, List.pairwise_singleton _ _, fun a hmem _ _ => h a hmem⟩
  exact List.pairwise_of_forall_mem_list fun a hmem _ _ => h a hmem

/-- RUN LEMMA: each retry follows a rate limit, there are no more of them than were left, and with
    `Ok` nothing is missing. -/
theorem resolve_attempts (batch : Batcher) (keys : List StateKey) (replies : ℕ → BatchReply) (left : ℕ)
    (hlimited : ∀ sent ∈ b.sent, sent.Limited) :
    let out := b.resolve batch keys replies left
    out.2.sent.length ≤ b.sent.length + left + 1 ∧
      out.2.sent.Pairwise (fun sent _ => sent.Limited) ∧
      (out.1 = .ok () → ∀ key ∈ keys, out.2.stores.cache.has key = true) := by
  induction left generalizing b with
  | zero =>
    obtain ⟨sent, hsent, -⟩ := attempt_sent batch b keys (replies b.sent.length)
    simp only [resolve]
    refine ⟨?_, ?_, attempt_complete⟩
    · rw [hsent, List.length_append, List.length_singleton]
    · rw [hsent]
      exact limited_concat hlimited sent
  | succ left ih =>
    obtain ⟨sent, hsent, hresult⟩ := attempt_sent batch b keys (replies b.sent.length)
    have hcomplete : (b.attempt batch keys (replies b.sent.length)).1 = .ok () → ∀ key ∈ keys,
        (b.attempt batch keys (replies b.sent.length)).2.stores.cache.has key = true :=
      attempt_complete
    have hlength : (b.sent ++ [sent]).length ≤ b.sent.length + (left + 1) + 1 := by
      rw [List.length_append, List.length_singleton]
      omega
    simp only [resolve]
    split
    · rename_i e b' hattempt
      rw [hattempt] at hsent hresult
      split
      · rename_i hslow
        obtain ⟨hfew, hrest, hall⟩ := ih (b := b') (by
          intro other hmem
          rw [hsent] at hmem
          rcases List.mem_append.mp hmem with hold | hnew
          · exact hlimited other hold
          · rw [List.mem_singleton.mp hnew]
            exact ⟨e, hresult, hslow⟩)
        refine ⟨?_, hrest, hall⟩
        rw [hsent, List.length_append, List.length_singleton] at hfew
        omega
      · refine ⟨?_, ?_, by simp⟩
        · rwa [hsent]
        · rw [hsent]
          exact limited_concat hlimited sent
    · rename_i b' hattempt
      rw [hattempt] at hsent hcomplete
      refine ⟨?_, ?_, fun _ => hcomplete rfl⟩
      · rwa [hsent]
      · rw [hsent]
        exact limited_concat hlimited sent

end Batching

/-- Whatever upstream has answered is cached, where the attempt kept what it got. -/
theorem Sent.has_of_answered {sent : Sent} (hkept : sent.Kept)
    (hhashes : ∀ number hash, (number, .ok hash) ∈ sent.asked →
      sent.cache.has (.blockHash number) = true) {key : StateKey} (h : sent.Answered key) :
    sent.cache.has key = true := by
  obtain ⟨hreplied, call, hcall, hanswered, rfl⟩ | ⟨number, hash, hmem, rfl⟩ := h
  · exact hkept hreplied call hcall hanswered
  · exact hhashes number hash hmem

/-- EXACT: however the attempts are answered, a `resolve_batched` keeps what it got if and only if in
    each reply what was answered in full stands before the first call that failed or made no account;
    and in any case its batches are few, its retries follow rate limits, and its `Ok` is complete. -/
theorem partly_answered_kept_iff (batch : Batcher) (keys : List StateKey) (replies : ℕ → BatchReply)
    (s : Stores) :
    let out := resolveBatched batch keys replies s
    (out.2.Keeps keys out.1 ↔ ∀ sent ∈ out.2.sent, sent.reply.Orderly batch sent.missing) ∧
      out.2.sent.length ≤ RATE_LIMIT_RETRIES + 1 ∧
      out.2.sent.Pairwise (fun sent _ => sent.Limited) ∧
      (out.1 = .ok () → ∀ key ∈ keys, out.2.stores.cache.has key = true) := by
  intro out
  have hsound : out.2.Sound batch := Batching.sound_resolve replies RATE_LIMIT_RETRIES
    ⟨by simp, by simp, List.Pairwise.nil, by simp⟩
  obtain ⟨hfew, hlimited, hcomplete⟩ := Batching.resolve_attempts (b := ⟨s, []⟩) batch keys replies
    RATE_LIMIT_RETRIES (by simp)
  have hbound : out.2.sent.length ≤ RATE_LIMIT_RETRIES + 1 := hfew
  refine ⟨⟨fun h sent hmem => (hsound.kept sent hmem).mp (h.kept sent hmem), fun h => ?_⟩,
    hbound, hlimited, hcomplete⟩
  have hkept : ∀ sent ∈ out.2.sent, sent.Kept := fun sent hmem =>
    (hsound.kept sent hmem).mpr (h sent hmem)
  refine ⟨hkept, ?_, hbound, hlimited, hcomplete⟩
  refine hsound.asked.imp_of_mem fun {sent later} hmem _ hasked key hanswered => ?_
  exact hasked key (Sent.has_of_answered (hkept sent hmem) (hsound.hashes sent hmem) hanswered)

/-- A provider where every account is empty. -/
def emptyProvider : Batcher where
  getBalance _ := 0
  getTransactionCount _ := 0
  getCode _ := []
  getStorageAt _ _ := 0
  keccak256 _ := 0
  raw := plainRaw
  display _ := ""

def allAnswered : BatchReply :=
  ⟨none, fun _ => .ok 0, fun _ => .ok 0, fun _ => .ok [], fun _ => .ok 0, fun _ => .ok 0⟩

/-- The first time, the nonce of the first account is refused, and all else answered. -/
def slowOnce : ℕ → BatchReply
  | 0 => { allAnswered with
      nonce := fun i => if i = 0 then .error "error code -32005: rate limit exceeded" else .ok 0 }
  | _ + 1 => allAnswered

/-- Two accounts resolved, the second answered in full behind the first: it is asked for again. -/
theorem answered_asked_again :
    let out := resolveBatched emptyProvider [.account 1, .account 2] slowOnce ⟨.empty, .empty⟩
    (∃ (h : 1 < out.2.sent.length), out.2.sent[0].Answered (.account 2) ∧
      .account 2 ∈ out.2.sent[1].missing) ∧ ¬ out.2.Keeps [.account 1, .account 2] out.1 := by
  intro out
  have hlength : 1 < out.2.sent.length := by decide +kernel
  have hreplied : out.2.sent[0].reply.refused.isNone = true ∧
      ((out.2.sent[0].reply.calls out.2.sent[0].missing).any fun call =>
        call.answered && decide (call.key = .account 2)) = true := by decide +kernel +revert
  have hmissing : .account 2 ∈ out.2.sent[1].missing := by decide +kernel +revert
  have hanswered : out.2.sent[0].Answered (.account 2) := by
    obtain ⟨call, hcall, hboth⟩ := List.any_eq_true.mp hreplied.2
    rw [Bool.and_eq_true, decide_eq_true_eq] at hboth
    exact .inl ⟨Option.isNone_iff_eq_none.mp hreplied.1, call, hcall, hboth⟩
  refine ⟨⟨hlength, hanswered, hmissing⟩, fun h => ?_⟩
  exact List.pairwise_iff_getElem.mp h.once 0 1 (by omega) hlength zero_lt_one _ hanswered hmissing

end Forkyard
