import Forkyard.Engine.View
import Mathlib.Data.List.Destutter
import Mathlib.Data.List.Sort

/-! The read cache in front of an upstream, shared by every clone of a handle, and `speculate`,
    which makes a thread record what a read misses instead of fetching it. A thread sees the caches,
    its own recording state, and whatever other threads land in the caches while it runs: a batch of
    landings comes in before each of its reads. An upstream is pinned to one block, so what a cache
    holds agrees with it for good, whoever put it there.

        read ──hit──▶ cached value
             ──miss, recording──▶ placeholder, key recorded
             ──miss────────────▶ upstream ──Ok──▶ cached -/

namespace Forkyard

open Schemes

variable {F E : Type}

/-- One piece of upstream state a read needed and didn't have. -/
inductive StateKey where
  | account (address : Address)
  | storage (address : Address) (index : U256)
  | blockHash (number : UInt64)
  deriving DecidableEq

/-- Where a key stands in the derived order: by variant, then by its fields. -/
def StateKey.rank : StateKey → ℕ ×ₗ ℕ ×ₗ ℕ
  | .account address => toLex (0, toLex (address.toNat, 0))
  | .storage address index => toLex (1, toLex (address.toNat, index.toNat))
  | .blockHash number => toLex (2, toLex (number.toNat, 0))

/-- Rust's `sort` followed by `dedup`. -/
def sortDedup (keys : List StateKey) : List StateKey :=
  (keys.insertionSort (·.rank ≤ ·.rank)).destutter (· ≠ ·)

theorem sortDedup_nil (keys : List StateKey) : sortDedup keys = [] ↔ keys = [] := by
  rw [sortDedup, List.destutter_eq_nil]
  constructor
  · intro h
    rw [← List.length_eq_zero_iff, ← List.length_insertionSort (·.rank ≤ ·.rank) keys, h,
      List.length_nil]
  · intro h
    rw [h]
    rfl

/-- What one `ReadThrough` and all its clones have read so far; an absent account is cached too. -/
structure ReadCache where
  accounts : Map Address (Option AccountInfo)
  storage : Map (Address × U256) U256
  blockHashes : Map UInt64 B256

namespace ReadCache

def empty : ReadCache := ⟨∅, ∅, ∅⟩

/-- Another thread's reads land. -/
def union (newer self : ReadCache) : ReadCache :=
  ⟨newer.accounts ∪ self.accounts, newer.storage ∪ self.storage,
    newer.blockHashes ∪ self.blockHashes⟩

/-- Everything cached is what upstream would answer. -/
structure Agrees (cache : ReadCache) (up : Upstream E) : Prop where
  accounts : ∀ address info, cache.accounts.lookup address = some info →
    up.basic address = .ok info
  storage : ∀ address index value, cache.storage.lookup (address, index) = some value →
    up.storage address index = .ok value
  blockHashes : ∀ number hash, cache.blockHashes.lookup number = some hash →
    up.blockHash number = .ok hash

theorem agrees_empty (up : Upstream E) : empty.Agrees up :=
  ⟨fun _ _ h => by simp [empty] at h, fun _ _ _ h => by simp [empty] at h,
    fun _ _ h => by simp [empty] at h⟩

theorem agrees_union {newer self : ReadCache} {up : Upstream E} (hn : newer.Agrees up)
    (hs : self.Agrees up) : (newer.union self).Agrees up := by
  refine ⟨fun address info h => ?_, fun address index value h => ?_, fun number hash h => ?_⟩
  · exact (Map.of_lookup_union h).elim (hn.accounts address info) (hs.accounts address info)
  · exact (Map.of_lookup_union h).elim (hn.storage address index value)
      (hs.storage address index value)
  · exact (Map.of_lookup_union h).elim (hn.blockHashes number hash) (hs.blockHashes number hash)

/-! An answer of upstream's is cached. -/

theorem agrees_account {cache : ReadCache} {up : Upstream E} (h : cache.Agrees up)
    {address : Address} {info : Option AccountInfo} (hread : up.basic address = .ok info) :
    Agrees { cache with accounts := cache.accounts.insert address info } up := by
  refine ⟨fun address' info' hget => ?_, h.storage, h.blockHashes⟩
  rcases Map.of_lookup_insert hget with ⟨rfl, rfl⟩ | hold
  · exact hread
  · exact h.accounts address' info' hold

theorem agrees_slot {cache : ReadCache} {up : Upstream E} (h : cache.Agrees up) {address : Address}
    {index value : U256} (hread : up.storage address index = .ok value) :
    Agrees { cache with storage := cache.storage.insert (address, index) value } up := by
  refine ⟨h.accounts, fun address' index' value' hget => ?_, h.blockHashes⟩
  rcases Map.of_lookup_insert hget with ⟨hkey, rfl⟩ | hold
  · obtain ⟨rfl, rfl⟩ := Prod.mk.inj hkey
    exact hread
  · exact h.storage address' index' value' hold

theorem agrees_hash {cache : ReadCache} {up : Upstream E} (h : cache.Agrees up) {number : UInt64}
    {hash : B256} (hread : up.blockHash number = .ok hash) :
    Agrees { cache with blockHashes := cache.blockHashes.insert number hash } up := by
  refine ⟨h.accounts, h.storage, fun number' hash' hget => ?_⟩
  rcases Map.of_lookup_insert hget with ⟨rfl, rfl⟩ | hold
  · exact hread
  · exact h.blockHashes number' hash' hold

end ReadCache

/-- What a thread reads through: one cache per handle, `MISSES` (what the thread has missed since it
    began recording, if it is recording), and what other threads will land before each read. -/
structure Fetch (F : Type) where
  caches : F → ReadCache
  misses : Option (List StateKey)
  landed : List (F → ReadCache)

namespace Fetch

/-- Nothing cached, nothing recorded, nothing to land. -/
def cold : Fetch F := ⟨fun _ => .empty, none, []⟩

/-- The next batch of other threads' reads lands. -/
def land (w : Fetch F) : Fetch F :=
  match w.landed with
  | [] => w
  | newer :: landed =>
    { w with caches := fun f => (newer f).union (w.caches f), landed := landed }

/-- `true`, with `key` recorded, when this thread is recording. -/
def recordMiss (w : Fetch F) (key : StateKey) : Bool × Fetch F :=
  match w.misses with
  | some misses => (true, { w with misses := some (misses ++ [key]) })
  | none => (false, w)

variable [DecidableEq F]

/-- Put something into the cache of `f` and all its clones. -/
def cache (w : Fetch F) (f : F) (insert : ReadCache → ReadCache) : Fetch F :=
  { w with caches := Function.update w.caches f (insert (w.caches f)) }

/-- Run `f` recording. It returns what `f` returned and every key missed, sorted, each once; what
    the thread was recording before comes back on return and on unwind alike. -/
def speculate {σ R : Type} (f : σ × Fetch F → Option R × (σ × Fetch F)) (s : σ) (w : Fetch F) :
    Option (R × List StateKey) × (σ × Fetch F) :=
  let outer := w.misses
  match f (s, { w with misses := some [] }) with
  | (some result, s, w) =>
    (some (result, sortDedup (w.misses.getD [])), s, { w with misses := outer })
  | (none, s, w) => (none, s, { w with misses := outer })

end Fetch

/-! ### `DatabaseRef for ReadThrough` -/

namespace ReadThrough

variable [DecidableEq F]

/-- One read: the cache, else the placeholder while recording, else `inner`, whose errors are never
    cached. -/
def read {V : Type} (cached : ReadCache → Option V) (insert : V → ReadCache → ReadCache)
    (key : StateKey) (placeholder : V) (inner : Except E V) (f : F) (w : Fetch F) :
    Except E V × Fetch F :=
  let w := w.land
  match cached (w.caches f) with
  | some hit => (.ok hit, w)
  | none =>
    match w.recordMiss key with
    | (true, w) => (.ok placeholder, w)
    | (false, w) =>
      match inner with
      | .ok value => (.ok value, w.cache f (insert value))
      | .error e => (.error e, w)

def basicRef (up : F → Upstream E) (f : F) (address : Address) :
    Fetch F → Except E (Option AccountInfo) × Fetch F :=
  read (fun c => c.accounts.lookup address)
    (fun info c => { c with accounts := c.accounts.insert address info })
    (.account address) none ((up f).basic address) f

/-- Code arrives inline on `basicRef`: nothing is cached or recorded by hash. -/
def codeByHashRef (up : F → Upstream E) (f : F) (codeHash : B256) (w : Fetch F) :
    Except E Bytecode × Fetch F :=
  ((up f).codeByHash codeHash, w)

def storageRef (up : F → Upstream E) (f : F) (address : Address) (index : U256) :
    Fetch F → Except E U256 × Fetch F :=
  read (fun c => c.storage.lookup (address, index))
    (fun value c => { c with storage := c.storage.insert (address, index) value })
    (.storage address index) 0 ((up f).storage address index) f

def blockHashRef (up : F → Upstream E) (f : F) (number : UInt64) :
    Fetch F → Except E B256 × Fetch F :=
  read (fun c => c.blockHashes.lookup number)
    (fun hash c => { c with blockHashes := c.blockHashes.insert number hash })
    (.blockHash number) 0 ((up f).blockHash number) f

/-- Every handle reads through its cache. -/
def db (up : F → Upstream E) : DatabaseRef F (Fetch F) E where
  basicRef := basicRef up
  codeByHashRef := codeByHashRef up
  storageRef := storageRef up
  blockHashRef := blockHashRef up

end ReadThrough

/-! ### Coherence -/

namespace Fetch

/-- Every cache agrees with its upstream, and so does all that is still to land. -/
structure Coherent (up : F → Upstream E) (w : Fetch F) : Prop where
  caches : ∀ f, (w.caches f).Agrees (up f)
  landed : ∀ newer ∈ w.landed, ∀ f, (newer f).Agrees (up f)

variable {up : F → Upstream E}

theorem coherent_land {w : Fetch F} (h : w.Coherent up) : w.land.Coherent up := by
  obtain ⟨caches, misses, landed⟩ := w
  cases landed with
  | nil => exact h
  | cons newer landed =>
    exact ⟨fun f => ReadCache.agrees_union (h.landed newer List.mem_cons_self f) (h.caches f),
      fun newer' hmem => h.landed newer' (List.mem_cons_of_mem newer hmem)⟩

@[simp] theorem land_misses (w : Fetch F) : w.land.misses = w.misses := by
  obtain ⟨caches, misses, landed⟩ := w
  cases landed <;> rfl

theorem coherent_misses {w : Fetch F} (h : w.Coherent up) (misses : Option (List StateKey)) :
    ({ w with misses := misses } : Fetch F).Coherent up := ⟨h.caches, h.landed⟩

theorem coherent_cache [DecidableEq F] {w : Fetch F} (h : w.Coherent up) (f : F)
    {insert : ReadCache → ReadCache} (hi : (insert (w.caches f)).Agrees (up f)) :
    (w.cache f insert).Coherent up := by
  refine ⟨fun g => ?_, h.landed⟩
  by_cases hg : g = f
  · rw [hg]; simpa only [cache, Function.update_self] using hi
  · simpa only [cache, Function.update_of_ne hg] using h.caches g

end Fetch

namespace ReadThrough

variable [DecidableEq F] {up : F → Upstream E}

/-- The thread is reading for real, or has recorded nothing yet. -/
def Unguessed (w : Fetch F) : Prop := w.misses = none ∨ w.misses = some []

/-- One read keeps the caches coherent, and answers as upstream unless it recorded a miss. -/
theorem read_tells {V : Type} {cached : ReadCache → Option V} {insert : V → ReadCache → ReadCache}
    {key : StateKey} {placeholder : V} {inner : Except E V} {f : F}
    (hhit : ∀ c v, c.Agrees (up f) → cached c = some v → inner = .ok v)
    (hput : ∀ c v, c.Agrees (up f) → inner = .ok v → (insert v c).Agrees (up f)) :
    Session.Tells (read cached insert key placeholder inner f) inner (Fetch.Coherent up)
      Unguessed := by
  suffices H : ∀ w, (Unguessed (read cached insert key placeholder inner f w).2 → Unguessed w) ∧
      (w.Coherent up → (read cached insert key placeholder inner f w).2.Coherent up ∧
        (Unguessed (read cached insert key placeholder inner f w).2 →
          (read cached insert key placeholder inner f w).1 = inner)) from
    ⟨fun w => (H w).1, fun w hw => ((H w).2 hw).1, fun w hw => ((H w).2 hw).2⟩
  intro w
  have hland : w.Coherent up → w.land.Coherent up := Fetch.coherent_land
  have hmisses : w.land.misses = w.misses := Fetch.land_misses w
  unfold read Unguessed
  cases hc : cached (w.land.caches f) with
  | some hit =>
    simp only [hc, hmisses]
    exact ⟨id, fun hw => ⟨hland hw, fun _ => (hhit _ hit ((hland hw).caches f) hc).symm⟩⟩
  | none =>
    cases hm : w.misses with
    | some misses =>
      -- a recorded key never goes away again within the pass
      simp only [hc, Fetch.recordMiss, hmisses, hm]
      exact ⟨fun h => by simp at h, fun hw =>
        ⟨Fetch.coherent_misses (hland hw) _, fun h => by simp at h⟩⟩
    | none =>
      simp only [hc, Fetch.recordMiss, hmisses, hm]
      refine ⟨fun _ => .inl trivial, fun hw => ?_⟩
      cases hi : inner with
      | error e => exact ⟨hland hw, fun _ => rfl⟩
      | ok v =>
        exact ⟨Fetch.coherent_cache (hland hw) f (hput _ v ((hland hw).caches f) hi), fun _ => rfl⟩

theorem basicRef_tells (f : F) (address : Address) :
    Session.Tells (basicRef up f address) ((up f).basic address) (Fetch.Coherent up)
      Unguessed :=
  read_tells (fun _ v hc hv => hc.accounts address v hv) fun _ _ hc hv =>
    ReadCache.agrees_account hc hv

theorem storageRef_tells (f : F) (address : Address) (index : U256) :
    Session.Tells (storageRef up f address index) ((up f).storage address index)
      (Fetch.Coherent up) Unguessed :=
  read_tells (fun _ v hc hv => hc.storage address index v hv) fun _ _ hc hv =>
    ReadCache.agrees_slot hc hv

theorem blockHashRef_tells (f : F) (number : UInt64) :
    Session.Tells (blockHashRef up f number) ((up f).blockHash number) (Fetch.Coherent up)
      Unguessed :=
  read_tells (fun _ v hc hv => hc.blockHashes number v hv) fun _ _ hc hv =>
    ReadCache.agrees_hash hc hv

/-- A `ReadThrough` guesses only where it records a miss. -/
theorem guessing (up : F → Upstream E) :
    Session.Guessing (db up) up (Fetch.Coherent up) Unguessed where
  basic := basicRef_tells
  codeByHash _ _ := ⟨fun _ h => h, fun _ h => h, fun _ _ _ => rfl⟩
  storage := storageRef_tells
  blockHash := blockHashRef_tells

/-- A thread between its jobs: it records nothing, and all it sees or will see is coherent. -/
structure Idle (up : F → Upstream E) (w : Fetch F) : Prop where
  coherent : w.Coherent up
  misses : w.misses = none

omit [DecidableEq F] in
theorem idle_cold (up : F → Upstream E) : Idle up .cold :=
  ⟨⟨fun f => ReadCache.agrees_empty (up f), fun _ h => absurd h List.not_mem_nil⟩, rfl⟩

theorem read_misses {V : Type} (cached : ReadCache → Option V)
    (insert : V → ReadCache → ReadCache) (key : StateKey) (placeholder : V) (inner : Except E V)
    (f : F) {w : Fetch F} (h : w.misses = none) :
    (read cached insert key placeholder inner f w).2.misses = none := by
  have hland : w.land.misses = none := (Fetch.land_misses w).trans h
  unfold read
  cases hc : cached (w.land.caches f) with
  | some hit => simpa only [hc] using hland
  | none =>
    simp only [hc, Fetch.recordMiss, hland]
    cases inner with
    | ok v => exact hland
    | error e => exact hland

omit [DecidableEq F] in
/-- Reading for real is telling the truth. -/
theorem tells_idle {α : Type} {read : Fetch F → α × Fetch F} {truth : α}
    (h : Session.Tells read truth (Fetch.Coherent up) Unguessed)
    (hm : ∀ w, w.misses = none → (read w).2.misses = none) :
    Session.Tells read truth (Idle up) fun _ => True :=
  ⟨fun _ _ => trivial, fun w hw => ⟨h.keeps w hw.coherent, hm w hw.misses⟩,
    fun w hw _ => h.tells w hw.coherent (.inl (hm w hw.misses))⟩

/-- A thread that is not recording reads faithfully. -/
theorem faithful (up : F → Upstream E) : Session.Faithful (db up) up (Idle up) where
  basic f address :=
    tells_idle (basicRef_tells f address) fun _ h => read_misses _ _ _ _ _ f h
  codeByHash _ _ := ⟨fun _ _ => trivial, fun _ hw => hw, fun _ _ _ => rfl⟩
  storage f address index :=
    tells_idle (storageRef_tells f address index) fun _ h => read_misses _ _ _ _ _ f h
  blockHash f number :=
    tells_idle (blockHashRef_tells f number) fun _ h => read_misses _ _ _ _ _ f h

end ReadThrough

end Forkyard
