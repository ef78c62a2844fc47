import Forkyard.Fetch.Resolve
import Forkyard.Schemes.Steps

/-! What one step of a fetch does, on either path. It asks upstream for keys it holds and puts into
    the shared cache what upstream answers, nothing else; once it ends well all its keys are cached,
    and if it does not a fetch of its own has failed.

        per key:  starting ──▶ asked ──▶ read            pending: asked
        batched:  checking ──▶ acquiring ──▶ sending ──▶ receiving ──▶ hashing ⇄ asking ──▶ returned
                     ▲                                                                         │
                     └────────────────────── rate limited, retries left ───────────────────────┘ -/

namespace Forkyard

open Schemes

/-! ### The cache and one answer -/

namespace ReadCache

/-- The cache holds upstream's answer to the key. -/
def Serves (cache : ReadCache) (up : Upstream String) : StateKey → Prop
  | .account address => ∃ info, cache.accounts.lookup address = some info ∧ up.basic address = .ok info
  | .storage address index => ∃ value, cache.storage.lookup (address, index) = some value ∧
    up.storage address index = .ok value
  | .blockHash number => ∃ hash, cache.blockHashes.lookup number = some hash ∧
    up.blockHash number = .ok hash

variable {cache cache' : ReadCache} {up : Upstream String}

theorem serves_of_has (hcache : cache.Agrees up) {key : StateKey} (h : cache.has key = true) :
    cache.Serves up key := by
  cases key with
  | account address =>
    obtain ⟨info, hinfo⟩ := Option.isSome_iff_exists.mp h
    exact ⟨info, hinfo, hcache.accounts address info hinfo⟩
  | storage address index =>
    obtain ⟨value, hvalue⟩ := Option.isSome_iff_exists.mp h
    exact ⟨value, hvalue, hcache.storage address index value hvalue⟩
  | blockHash number =>
    obtain ⟨hash, hhash⟩ := Option.isSome_iff_exists.mp h
    exact ⟨hash, hhash, hcache.blockHashes number hash hhash⟩

/-- INVERSION: an answer is inserted under its key. -/
theorem fill_cases {key : StateKey} (h : cache.fill up key = .ok cache') :
    (∃ address info, key = .account address ∧ up.basic address = .ok info ∧
        cache' = { cache with accounts := cache.accounts.insert address info }) ∨
    (∃ address index value, key = .storage address index ∧ up.storage address index = .ok value ∧
        cache' = { cache with storage := cache.storage.insert (address, index) value }) ∨
    ∃ number hash, key = .blockHash number ∧ up.blockHash number = .ok hash ∧
        cache' = { cache with blockHashes := cache.blockHashes.insert number hash } := by
  cases key with
  | account address =>
    cases hup : up.basic address with
    | error e => rw [fill, hup] at h; cases h
    | ok info =>
      rw [fill, hup] at h
      exact .inl ⟨address, info, rfl, hup, (Except.ok.inj h).symm⟩
  | storage address index =>
    cases hup : up.storage address index with
    | error e => rw [fill, hup] at h; cases h
    | ok value =>
      rw [fill, hup] at h
      exact .inr (.inl ⟨address, index, value, rfl, hup, (Except.ok.inj h).symm⟩)
  | blockHash number =>
    cases hup : up.blockHash number with
    | error e => rw [fill, hup] at h; cases h
    | ok hash =>
      rw [fill, hup] at h
      exact .inr (.inr ⟨number, hash, rfl, hup, (Except.ok.inj h).symm⟩)

/-- An answer caches its own key and no other. -/
theorem fill_has {key : StateKey} (h : cache.fill up key = .ok cache') (key' : StateKey) :
    cache'.has key' = (decide (key' = key) || cache.has key') := by
  have hhas : cache'.has key' = true ↔ cache.has key' = true ∨ key = key' := by
    obtain ⟨address, info, rfl, -, rfl⟩ | ⟨address, index, value, rfl, -, rfl⟩ |
      ⟨number, hash, rfl, -, rfl⟩ := fill_cases h
    · exact has_account
    · exact has_storage
    · exact has_blockHash
  rw [Bool.eq_iff_iff, hhas, Bool.or_eq_true, decide_eq_true_eq, or_comm, eq_comm (a := key)]

/-- An answer is upstream's. -/
theorem fill_agrees (hcache : cache.Agrees up) {key : StateKey}
    (h : cache.fill up key = .ok cache') :
    cache'.Agrees up := by
  obtain ⟨address, info, -, hup, rfl⟩ | ⟨address, index, value, -, hup, rfl⟩ |
    ⟨number, hash, -, hup, rfl⟩ := fill_cases h
  · exact agrees_account hcache hup
  · exact agrees_slot hcache hup
  · exact agrees_hash hcache hup

end ReadCache

/-- What comes back of a request fills the cache, or is a failure and leaves it as it was. -/
theorem receive_cases (response : Response) (up : Upstream String) (key : StateKey)
    (cache : ReadCache) :
    (∃ cache', response.receive up key cache = (.ok, cache') ∧ cache.fill up key = .ok cache') ∨
      ∃ verdict, verdict ≠ .ok ∧ response.receive up key cache = (verdict, cache) := by
  cases response with
  | answer =>
    cases hfill : cache.fill up key with
    | ok cache' => exact .inl ⟨cache', by simp only [Response.receive, hfill], rfl⟩
    | error e => exact .inr ⟨.failed e, by simp, by simp only [Response.receive, hfill]⟩
  | failed e => exact .inr ⟨.failed e, by simp, rfl⟩
  | panic => exact .inr ⟨.panicked, by simp, rfl⟩

/-! ### What a fetch relies on -/

/-- The keys still to be read: the others are cached. -/
structure Remaining (cache : ReadCache) (keys left : List StateKey) : Prop where
  uncached : ∀ key ∈ left, cache.has key = false
  nodup : left.Nodup
  own : ∀ key ∈ left, key ∈ keys
  rest : ∀ key ∈ keys, cache.has key = true ∨ key ∈ left

def Stage.Ok (cache : ReadCache) (keys : List StateKey) : Stage → Prop
  | .checking => True
  | .acquiring batch hashes | .sending batch hashes =>
    batch ≠ [] ∧ Remaining cache keys (batch ++ hashes)
  | .receiving batch hashes => Remaining cache keys (batch ++ hashes)
  | .hashing hashes => Remaining cache keys hashes
  | .asking key hashes => Remaining cache keys (key :: hashes)
  | .returned verdict => verdict = .ok → ∀ key ∈ keys, cache.has key = true

def Reading.Ok (cache : ReadCache) (key : StateKey) : Reading → Prop
  | .starting | .asked => cache.has key = false
  | .read verdict => verdict = .ok → cache.has key = true

def Fetching.Ok (cache : ReadCache) : Fetching → Prop
  | .reads threads => ∀ thread ∈ threads, thread.2.Ok cache thread.1
  | .batched keys _ stage => stage.Ok cache keys

/-- The keys upstream has been asked for and has not answered. -/
def Stage.pending : Stage → List StateKey
  | .receiving batch _ => batch
  | .asking key _ => [key]
  | _ => []

def Reading.pending (key : StateKey) : Reading → List StateKey
  | .asked => [key]
  | _ => []

def Fetching.pending : Fetching → List StateKey
  | .reads threads => threads.flatMap fun thread => thread.2.pending thread.1
  | .batched _ _ stage => stage.pending

/-- A request in flight holds a permit. -/
def Stage.permit : Stage → Bool
  | .sending _ _ | .receiving _ _ => true
  | _ => false

def Fetching.permit : Fetching → Bool
  | .reads _ => false
  | .batched _ _ stage => stage.permit

def Stage.Failing (stage : Stage) : Prop := ∃ verdict, stage = .returned verdict ∧ verdict ≠ .ok

def Reading.Failing (reading : Reading) : Prop := ∃ verdict, reading = .read verdict ∧ verdict ≠ .ok

def Fetching.Failing : Fetching → Prop
  | .reads threads => ∃ thread ∈ threads, thread.2.Failing
  | .batched _ _ stage => stage.Failing

/-- What one step of a fetch of these keys does to what is shared. -/
structure FetchStep (up : Upstream String) (keys : List StateKey) (space space' : Airspace) :
    Prop where
  lock : space'.lock = space.lock
  inFlight : space'.inFlight = space.inFlight
  flights : space'.flights = space.flights
  grown : ∀ key, space.cache.has key = true → space'.cache.has key = true
  own : ∀ key, space'.cache.has key = true → space.cache.has key = true ∨ key ∈ keys
  agrees : space.cache.Agrees up → space'.cache.Agrees up

/-- What one step of a fetch does to its own books: who is asked, who holds a permit, whose fetch
    failed. -/
structure Booked (keys : List StateKey) (space space' : Airspace) (pending pending' : List StateKey)
    (permit permit' : Bool) (failures : List StateKey) (failing failing' : Prop) : Prop where
  owned : ∀ key ∈ failures, key ∈ keys
  blamed : failing' → failing ∨ failures ≠ []
  permits : space'.permits + permit'.toNat = space.permits + permit.toNat
  counted : failures = [] → ∀ key,
    space'.fetched.count key + pending.count key + (space.cache.has key).toNat
      = space.fetched.count key + pending'.count key + (space'.cache.has key).toNat

variable {up : Upstream String} {keys : List StateKey} {space space' : Airspace}

theorem fetchStep_refl (h : space'.cache = space.cache) (hlock : space'.lock = space.lock)
    (hinFlight : space'.inFlight = space.inFlight) (hflights : space'.flights = space.flights) :
    FetchStep up keys space space' :=
  ⟨hlock, hinFlight, hflights, fun _ => by rw [h]; exact id,
    fun _ hhas => .inl (by rwa [h] at hhas),
    by rw [h]; exact id⟩

theorem fetchStep_mono {keys' : List StateKey} (hkeys : ∀ key ∈ keys, key ∈ keys')
    (h : FetchStep up keys space space') : FetchStep up keys' space space' :=
  ⟨h.lock, h.inFlight, h.flights, h.grown, fun key hhas => (h.own key hhas).imp_right (hkeys key),
    h.agrees⟩

/-- One answer is upstream's, to a key of the fetch. -/
theorem fetchStep_fill {cache' : ReadCache} {key : StateKey}
    (hfill : space.cache.fill up key = .ok cache')
    (hkey : key ∈ keys) : FetchStep up keys space { space with cache := cache' } := by
  have hhas := ReadCache.fill_has hfill
  refine ⟨rfl, rfl, rfl, fun key' h => ?_, fun key' h => ?_, fun h => ReadCache.fill_agrees h hfill⟩
  · rw [hhas, h, Bool.or_true]
  · rw [hhas, Bool.or_eq_true, decide_eq_true_eq] at h
    rcases h with rfl | hold
    · exact .inr hkey
    · exact .inl hold

/-- An answer takes its key off what is left. -/
theorem remaining_fill {cache cache' : ReadCache} {key : StateKey} {left : List StateKey}
    (h : Remaining cache keys (key :: left)) (hfill : cache.fill up key = .ok cache') :
    Remaining cache' keys left := by
  have hhas := ReadCache.fill_has hfill
  obtain ⟨hkey, hnodup⟩ := List.nodup_cons.mp h.nodup
  refine ⟨fun key' hmem => ?_, hnodup, fun key' hmem => h.own key' (List.mem_cons_of_mem key hmem),
    fun key' hmem => ?_⟩
  · have hne : key' ≠ key := by
      rintro rfl
      exact hkey hmem
    rw [hhas, h.uncached key' (List.mem_cons_of_mem key hmem)]
    simp [hne]
  · rw [hhas]
    rcases h.rest key' hmem with hold | hleft
    · exact .inl (by rw [hold, Bool.or_true])
    · rcases List.mem_cons.mp hleft with rfl | hleft
      · exact .inl (by simp)
      · exact .inr hleft

/-- An answer trades a pending key for a cached one. -/
theorem counted_fill {cache cache' : ReadCache} {key : StateKey}
    (hfill : cache.fill up key = .ok cache')
    (huncached : cache.has key = false) (key' : StateKey) :
    [key].count key' + (cache.has key').toNat = (cache'.has key').toNat := by
  rw [ReadCache.fill_has hfill key', List.count_singleton]
  by_cases hsame : key' = key
  · subst hsame
    simp [huncached]
  · have hne : ¬ key = key' := fun h => hsame h.symm
    simp [hsame, hne]

/-- What the missing keys are sorted into is what is left. -/
theorem remaining_missing (cache : ReadCache) (hkeys : keys.Nodup) :
    Remaining cache keys ((keys.filter fun key => !cache.has key).filter (·.isAccount) ++
      (keys.filter fun key => !cache.has key).filter (·.isStorage) ++
      (keys.filter fun key => !cache.has key).filter (·.isBlockHash)) := by
  have hmem : ∀ key, key ∈ (keys.filter fun key => !cache.has key).filter (·.isAccount) ++
      (keys.filter fun key => !cache.has key).filter (·.isStorage) ++
      (keys.filter fun key => !cache.has key).filter (·.isBlockHash) ↔
        key ∈ keys ∧ cache.has key = false := by
    intro key
    simp only [List.mem_append, List.mem_filter, Bool.not_eq_true']
    cases key <;> simp [StateKey.isAccount, StateKey.isStorage, StateKey.isBlockHash]
  refine ⟨fun key h => ((hmem key).mp h).2, ?_, fun key h => ((hmem key).mp h).1, fun key h => ?_⟩
  · have hmissing := hkeys.filter fun key => !cache.has key
    simp only [List.nodup_append', List.disjoint_left, List.mem_append, List.mem_filter]
    refine ⟨⟨hmissing.filter _, hmissing.filter _, ?_⟩, hmissing.filter _, ?_⟩
    · rintro key ⟨-, haccount⟩ ⟨-, hstorage⟩
      cases key <;> simp [StateKey.isAccount, StateKey.isStorage] at haccount hstorage
    · rintro key (⟨-, hother⟩ | ⟨-, hother⟩) ⟨-, hhash⟩ <;>
        cases key <;>
          simp [StateKey.isAccount, StateKey.isStorage, StateKey.isBlockHash] at hother hhash
  · cases hhas : cache.has key with
    | true => exact .inl rfl
    | false => exact .inr ((hmem key).mpr ⟨h, hhas⟩)

/-! ### One step of a batch -/

/-- A failed batch is tried again or gives its failure back. -/
theorem settle_cases (attempt : ℕ) {verdict : Verdict} (h : verdict ≠ .ok) :
    (settle attempt verdict).2 = .checking ∨ (settle attempt verdict).2 = .returned verdict := by
  cases verdict with
  | ok => exact absurd rfl h
  | failed error =>
    simp only [settle]
    split
    · exact .inl rfl
    · exact .inr rfl
  | panicked => exact .inr rfl

/-- Either way nothing is asked any more, no permit is held, and nothing is promised. -/
theorem settle_spec (attempt : ℕ) {verdict : Verdict} (h : verdict ≠ .ok) (cache : ReadCache)
    (keys : List StateKey) :
    (settle attempt verdict).2.Ok cache keys ∧ (settle attempt verdict).2.pending = [] ∧
      (settle attempt verdict).2.permit = false := by
  rcases settle_cases attempt h with hsettle | hsettle <;> rw [hsettle]
  · exact ⟨trivial, rfl, rfl⟩
  · exact ⟨fun hok => absurd hok h, rfl, rfl⟩

theorem not_failing {stage : Stage} (h : ∀ verdict, stage ≠ .returned verdict) :
    ¬ stage.Failing := by
  rintro ⟨verdict, rfl, -⟩
  exact h verdict rfl

/-- Where the sorted keys go first. -/
theorem ofMissing_spec (cache : ReadCache) (hkeys : keys.Nodup) :
    (Stage.ofMissing (keys.filter fun key => !cache.has key)).Ok cache keys ∧
      (Stage.ofMissing (keys.filter fun key => !cache.has key)).pending = [] ∧
      (Stage.ofMissing (keys.filter fun key => !cache.has key)).permit = false ∧
      ¬ (Stage.ofMissing (keys.filter fun key => !cache.has key)).Failing := by
  have hremaining := remaining_missing cache hkeys
  simp only [Stage.ofMissing]
  split
  · rename_i hempty
    refine ⟨fun _ key hmem => ?_, rfl, rfl, ?_⟩
    · have hnone := List.filter_eq_nil_iff.mp (List.isEmpty_iff.mp hempty) key hmem
      simpa using hnone
    · rintro ⟨verdict, hverdict, hne⟩
      exact hne (Stage.returned.inj hverdict).symm
  · split
    · rename_i hempty
      rw [List.isEmpty_iff.mp hempty, List.nil_append] at hremaining
      exact ⟨hremaining, rfl, rfl, not_failing (by rintro _ ⟨⟩)⟩
    · rename_i hbatch
      exact ⟨⟨fun hnil => hbatch (List.isEmpty_iff.mpr hnil), hremaining⟩, rfl, rfl,
        not_failing (by rintro _ ⟨⟩)⟩

/-- The books of a step that failed. -/
theorem booked_settle (attempt : ℕ) {verdict : Verdict} (h : verdict ≠ .ok) {stage : Stage}
    {failures : List StateKey} (howned : ∀ key ∈ failures, key ∈ keys) (hfailures : failures ≠ [])
    (hpermits : space'.permits = space.permits + stage.permit.toNat) :
    Booked keys space space' stage.pending (settle attempt verdict).2.pending stage.permit
      (settle attempt verdict).2.permit failures stage.Failing (settle attempt verdict).2.Failing := by
  obtain ⟨-, -, hpermit⟩ := settle_spec attempt h space.cache keys
  refine ⟨howned, fun _ => .inr hfailures, ?_, fun hnil => absurd hnil hfailures⟩
  rw [hpermit, hpermits]
  rfl

/-- STEP LEMMA of a batch. -/
theorem Stage.step_spec (up : Upstream String) (response : Response) (hkeys : keys.Nodup)
    (attempt : ℕ) (space : Airspace) {stage : Stage} (h : stage.Ok space.cache keys) :
    FetchStep up keys space (stage.step up response keys attempt space).2.1 ∧
      (stage.step up response keys attempt space).1.2.Ok
        (stage.step up response keys attempt space).2.1.cache keys ∧
      Booked keys space (stage.step up response keys attempt space).2.1 stage.pending
        (stage.step up response keys attempt space).1.2.pending stage.permit
        (stage.step up response keys attempt space).1.2.permit
        (stage.step up response keys attempt space).2.2 stage.Failing
        (stage.step up response keys attempt space).1.2.Failing := by
  cases stage with
  | checking =>
    obtain ⟨hok, hpending, hpermit, hfailing⟩ := ofMissing_spec space.cache hkeys
    refine ⟨fetchStep_refl rfl rfl rfl rfl, hok, by rintro _ ⟨⟩, fun hf => absurd hf hfailing, ?_,
      fun _ key => ?_⟩
    · exact congrArg (space.permits + ·.toNat) hpermit
    · exact congrArg (fun pending : List StateKey => space.fetched.count key + pending.count key +
        (space.cache.has key).toNat) hpending.symm
  | acquiring batch hashes =>
    simp only [Stage.step]
    split
    · exact ⟨fetchStep_refl rfl rfl rfl rfl, h, by rintro _ ⟨⟩, .inl, rfl, fun _ _ => rfl⟩
    · rename_i hpermits
      refine ⟨fetchStep_refl rfl rfl rfl rfl, h, by rintro _ ⟨⟩,
        fun hf => absurd hf (not_failing (by rintro _ ⟨⟩)), ?_, fun _ _ => rfl⟩
      simp only [Stage.permit, Bool.toNat_true, Bool.toNat_false]
      omega
  | sending batch hashes =>
    obtain ⟨hbatch, hremaining⟩ := h
    have howned : ∀ key ∈ batch, key ∈ keys := fun key hmem =>
      hremaining.own key (List.mem_append_left hashes hmem)
    have hfailed : ∀ verdict, verdict ≠ .ok →
        (settle attempt verdict).2.Ok space.cache keys := fun verdict hne =>
      (settle_spec attempt hne space.cache keys).1
    cases response with
    | answer =>
      refine ⟨fetchStep_refl rfl rfl rfl rfl, hremaining, by rintro _ ⟨⟩,
        fun hf => absurd hf (not_failing (by rintro _ ⟨⟩)), rfl, fun _ key => ?_⟩
      simp only [Stage.step, Stage.pending, List.count_append, List.count_nil]
      omega
    | failed e =>
      have hne : Verdict.failed e ≠ .ok := by simp
      exact ⟨fetchStep_refl rfl rfl rfl rfl, hfailed _ hne,
        booked_settle attempt hne howned hbatch rfl⟩
    | panic =>
      have hne : Verdict.panicked ≠ .ok := by simp
      exact ⟨fetchStep_refl rfl rfl rfl rfl, hfailed _ hne,
        booked_settle attempt hne howned hbatch rfl⟩
  | receiving batch hashes =>
    cases batch with
    | nil =>
      refine ⟨fetchStep_refl rfl rfl rfl rfl, h, by rintro _ ⟨⟩,
        fun hf => absurd hf (not_failing (by rintro _ ⟨⟩)), rfl, fun _ _ => rfl⟩
    | cons key batch =>
      have hkey : key ∈ keys := h.own key List.mem_cons_self
      have huncached : space.cache.has key = false := h.uncached key List.mem_cons_self
      rcases receive_cases response up key space.cache with
        ⟨cache', hreceive, hfill⟩ | ⟨verdict, hne, hreceive⟩
      · simp only [Stage.step, hreceive]
        refine ⟨fetchStep_fill hfill hkey, remaining_fill h hfill, by rintro _ ⟨⟩,
          fun hf => absurd hf (not_failing (by rintro _ ⟨⟩)), rfl, fun _ key' => ?_⟩
        have hcount := counted_fill hfill huncached key'
        simp only [Stage.pending, ← List.singleton_append (l := batch), List.count_append]
        omega
      · have hstep : (Stage.receiving (key :: batch) hashes).step up response keys attempt space
            = (settle attempt verdict, { space with permits := space.permits + 1 }, [key]) := by
          simp only [Stage.step, hreceive]
        rw [hstep]
        exact ⟨fetchStep_refl rfl rfl rfl rfl, (settle_spec attempt hne space.cache keys).1,
          booked_settle attempt hne (by simpa using hkey) (List.cons_ne_nil key []) rfl⟩
  | hashing hashes =>
    cases hashes with
    | nil =>
      refine ⟨fetchStep_refl rfl rfl rfl rfl, fun _ key hmem => ?_, by rintro _ ⟨⟩, ?_, rfl,
        fun _ _ => rfl⟩
      · exact (h.rest key hmem).resolve_right List.not_mem_nil
      · rintro ⟨verdict, hverdict, hne⟩
        exact absurd (Stage.returned.inj hverdict).symm hne
    | cons key hashes =>
      have huncached : space.cache.has key = false := h.uncached key List.mem_cons_self
      simp only [Stage.step, huncached, Bool.false_eq_true, if_false]
      refine ⟨fetchStep_refl rfl rfl rfl rfl, h, by rintro _ ⟨⟩,
        fun hf => absurd hf (not_failing (by rintro _ ⟨⟩)), rfl, fun _ key' => ?_⟩
      simp only [Stage.pending, List.count_append, List.count_nil]
      omega
  | asking key hashes =>
    have hkey : key ∈ keys := h.own key List.mem_cons_self
    have huncached : space.cache.has key = false := h.uncached key List.mem_cons_self
    rcases receive_cases response up key space.cache with
      ⟨cache', hreceive, hfill⟩ | ⟨verdict, hne, hreceive⟩
    · simp only [Stage.step, hreceive]
      refine ⟨fetchStep_fill hfill hkey, remaining_fill h hfill, by rintro _ ⟨⟩,
        fun hf => absurd hf (not_failing (by rintro _ ⟨⟩)), rfl, fun _ key' => ?_⟩
      have hcount := counted_fill hfill huncached key'
      simp only [Stage.pending, List.count_nil]
      omega
    · have hstep : (Stage.asking key hashes).step up response keys attempt space
          = (settle attempt verdict, space, [key]) := by
        simp only [Stage.step, hreceive]
      rw [hstep]
      exact ⟨fetchStep_refl rfl rfl rfl rfl, (settle_spec attempt hne space.cache keys).1,
        booked_settle attempt hne (by simpa using hkey) (List.cons_ne_nil key []) rfl⟩
  | returned verdict =>
    exact ⟨fetchStep_refl rfl rfl rfl rfl, h, by rintro _ ⟨⟩, .inl, rfl, fun _ _ => rfl⟩

/-! ### One step of a thread, and of a fetch -/

/-- STEP LEMMA of a scoped thread. -/
theorem Reading.step_spec (up : Upstream String) (response : Response) {key : StateKey}
    (hkey : key ∈ keys) (space : Airspace) {reading : Reading} (h : reading.Ok space.cache key) :
    FetchStep up [key] space (reading.step up response key space).2.1 ∧
      (reading.step up response key space).1.Ok (reading.step up response key space).2.1.cache key ∧
      Booked keys space (reading.step up response key space).2.1 (reading.pending key)
        ((reading.step up response key space).1.pending key) false false
        (reading.step up response key space).2.2 reading.Failing
        (reading.step up response key space).1.Failing := by
  cases reading with
  | starting =>
    have huncached : space.cache.has key = false := h
    simp only [Reading.step, huncached, Bool.false_eq_true, if_false]
    refine ⟨fetchStep_refl rfl rfl rfl rfl, h, by rintro _ ⟨⟩, by rintro ⟨_, ⟨⟩, -⟩, rfl,
      fun _ key' => ?_⟩
    simp only [Reading.pending, List.count_append, List.count_nil]
    omega
  | asked =>
    have huncached : space.cache.has key = false := h
    rcases receive_cases response up key space.cache with
      ⟨cache', hreceive, hfill⟩ | ⟨verdict, hne, hreceive⟩
    · simp only [Reading.step, hreceive]
      refine ⟨fetchStep_fill hfill List.mem_cons_self, fun _ => ?_, by rintro _ ⟨⟩, ?_, rfl,
        fun _ key' => ?_⟩
      · rw [ReadCache.fill_has hfill]
        simp
      · rintro ⟨verdict, hverdict, hne⟩
        exact absurd (Reading.read.inj hverdict).symm hne
      · have hcount := counted_fill hfill huncached key'
        simp only [Reading.pending, List.count_nil]
        omega
    · have hstep : Reading.asked.step up response key space = (.read verdict, space, [key]) := by
        simp only [Reading.step, hreceive]
      rw [hstep]
      exact ⟨fetchStep_refl rfl rfl rfl rfl, fun hok => absurd hok hne, by simpa using hkey,
        fun _ => .inr (List.cons_ne_nil key []), rfl,
          fun hnil => absurd hnil (List.cons_ne_nil key [])⟩
  | read verdict =>
    exact ⟨fetchStep_refl rfl rfl rfl rfl, h, by rintro _ ⟨⟩, .inl, rfl, fun _ _ => rfl⟩

/-- A thread's step leaves the others as they are. -/
theorem Reading.ok_of_fetchStep {key key' : StateKey} (hne : key' ≠ key)
    (h : FetchStep up [key] space space') {reading : Reading} (hok : reading.Ok space.cache key') :
    reading.Ok space'.cache key' := by
  have hsame : space.cache.has key' = false → space'.cache.has key' = false := by
    intro hfalse
    rw [← Bool.not_eq_true] at hfalse ⊢
    intro htrue
    rcases h.own key' htrue with hold | hnew
    · exact hfalse hold
    · exact hne (List.mem_singleton.mp hnew)
  cases reading with
  | starting => exact hsame hok
  | asked => exact hsame hok
  | read verdict => exact fun hv => h.grown key' (hok hv)

/-- STEP LEMMA of a fetch. -/
theorem Fetching.step_spec (up : Upstream String) (response : Response) (j : ℕ) (space : Airspace)
    {fetch : Fetching} (hkeys : fetch.keys.Nodup) (h : fetch.Ok space.cache) :
    (fetch.step up response j space).1.keys = fetch.keys ∧
      FetchStep up fetch.keys space (fetch.step up response j space).2.1 ∧
      (fetch.step up response j space).1.Ok (fetch.step up response j space).2.1.cache ∧
      Booked fetch.keys space (fetch.step up response j space).2.1 fetch.pending
        (fetch.step up response j space).1.pending fetch.permit
        (fetch.step up response j space).1.permit (fetch.step up response j space).2.2 fetch.Failing
        (fetch.step up response j space).1.Failing := by
  cases fetch with
  | batched keys attempt stage =>
    obtain ⟨hstepped, hok, hbooked⟩ := Stage.step_spec up response hkeys attempt space h
    exact ⟨rfl, hstepped, hok, hbooked⟩
  | reads threads =>
    simp only [Fetching.step]
    cases hj : threads[j]? with
    | none => exact ⟨rfl, fetchStep_refl rfl rfl rfl rfl, h, by rintro _ ⟨⟩, .inl, rfl,
      fun _ _ => rfl⟩
    | some thread =>
      obtain ⟨key, reading⟩ := thread
      have hmem : (key, reading) ∈ threads := List.mem_of_getElem? hj
      obtain ⟨hlt, hget⟩ := List.getElem?_eq_some_iff.mp hj
      have hkey : key ∈ threads.map Prod.fst := List.mem_map_of_mem (f := Prod.fst) hmem
      obtain ⟨hstepped, hok, hbooked⟩ := Reading.step_spec up response hkey space (h _ hmem)
      simp only
      rcases hstep : reading.step up response key space with ⟨reading', space', failures⟩
      rw [hstep] at hstepped hok hbooked
      have hsame : (threads.set j (key, reading')).map Prod.fst = threads.map Prod.fst :=
        map_set_same Prod.fst hj rfl
      have hother : ∀ m thread, threads[m]? = some thread → m ≠ j → thread.1 ≠ key := by
        rintro m thread hm hne rfl
        obtain ⟨hlt', hget'⟩ := List.getElem?_eq_some_iff.mp hm
        have hdistinct : (threads.map Prod.fst).Nodup := hkeys
        have hm' : m < (threads.map Prod.fst).length := by simpa using hlt'
        have hj' : j < (threads.map Prod.fst).length := by simpa using hlt
        have hkeysSame : (threads.map Prod.fst)[m] = (threads.map Prod.fst)[j] := by
          simp [hget, hget']
        exact hne (hdistinct.getElem_inj_iff.mp hkeysSame)
      have hown : ∀ key' ∈ [key], key' ∈ (Fetching.reads threads).keys := by
        intro key' hkey'
        rw [List.mem_singleton.mp hkey']
        exact hkey
      refine ⟨hsame, fetchStep_mono hown hstepped, ?_, hbooked.owned, ?_,
        hbooked.permits, ?_⟩
      · intro thread hthread
        obtain ⟨m, hm⟩ := List.mem_iff_getElem?.mp hthread
        rw [List.getElem?_set] at hm
        split at hm
        · rw [← Option.some.inj hm]
          exact hok
        · rename_i hne
          exact Reading.ok_of_fetchStep (hother m thread hm fun h => hne h.symm) hstepped
            (h thread (List.mem_of_getElem? hm))
      · rintro ⟨thread, hthread, hfailing⟩
        rcases List.mem_or_eq_of_mem_set hthread with hold | rfl
        · exact .inl ⟨thread, hold, hfailing⟩
        · exact (hbooked.blamed hfailing).imp_left fun hold => ⟨_, hmem, hold⟩
      · intro hnil key'
        have hcount := hbooked.counted hnil key'
        have hperm := (flatMap_set_perm (fun thread : StateKey × Reading =>
          thread.2.pending thread.1) (key, reading') hj).count_eq key'
        rw [List.count_append, List.count_append] at hperm
        simp only [Fetching.pending] at *
        omega

/-! ### Beginning and end of a fetch -/

theorem Fetching.start_spec (batched : Bool) {mine : List StateKey} {cache : ReadCache}
    (h : ∀ key ∈ mine, cache.has key = false) :
    (Fetching.start batched mine).keys = mine ∧ (Fetching.start batched mine).Ok cache ∧
      (Fetching.start batched mine).pending = [] ∧ (Fetching.start batched mine).permit = false ∧
      ¬ (Fetching.start batched mine).Failing := by
  cases batched with
  | true => exact ⟨rfl, trivial, rfl, rfl, not_failing (by rintro _ ⟨⟩)⟩
  | false =>
    refine ⟨?_, ?_, ?_, rfl, ?_⟩
    · simp [start, keys, Function.comp_def]
    · intro thread hmem
      obtain ⟨key, hkey, rfl⟩ := List.mem_map.mp hmem
      exact h key hkey
    · simp [start, pending, Reading.pending]
    · rintro ⟨thread, hmem, verdict, hverdict, -⟩
      obtain ⟨key, -, rfl⟩ := List.mem_map.mp hmem
      cases hverdict

/-- The scope is well if every thread was. -/
theorem joined_ok : ∀ verdicts : List Verdict, joined verdicts = .ok ↔
    ∀ verdict ∈ verdicts, verdict = .ok
  | [] => by simp [joined]
  | .ok :: rest => by simp [joined, joined_ok rest]
  | .failed error :: rest => by
    simp only [joined]
    split <;> simp
  | .panicked :: rest => by
    simp only [joined]
    split <;> simp

/-- A fetch that ended well has cached all its keys; one that did not has failed at some. -/
theorem Fetching.verdict_spec {fetch : Fetching} {cache : ReadCache} (h : fetch.Ok cache)
    {verdict : Verdict} (hverdict : fetch.verdict = some verdict) :
    (verdict = .ok → ∀ key ∈ fetch.keys, cache.has key = true) ∧
      (verdict ≠ .ok → fetch.Failing) ∧ fetch.pending = [] ∧ fetch.permit = false := by
  cases fetch with
  | batched keys attempt stage =>
    cases stage with
    | returned returned =>
      obtain rfl := Option.some.inj hverdict
      exact ⟨h, fun hne => ⟨returned, rfl, hne⟩, rfl, rfl⟩
    | checking => cases hverdict
    | acquiring batch hashes => cases hverdict
    | sending batch hashes => cases hverdict
    | receiving batch hashes => cases hverdict
    | hashing hashes => cases hverdict
    | asking key hashes => cases hverdict
  | reads threads =>
    simp only [Fetching.verdict] at hverdict
    split at hverdict
    swap
    · cases hverdict
    rename_i hall
    obtain rfl := Option.some.inj hverdict
    have hread : ∀ thread ∈ threads, ∃ verdict, thread.2 = .read verdict := by
      intro thread hmem
      have hsome := List.all_eq_true.mp hall thread hmem
      cases hreading : thread.2 with
      | starting => rw [hreading] at hsome; cases hsome
      | asked => rw [hreading] at hsome; cases hsome
      | read verdict => exact ⟨verdict, rfl⟩
    refine ⟨fun hok key hmem => ?_, fun hne => ?_, ?_, rfl⟩
    · obtain ⟨thread, hthread, rfl⟩ := List.mem_map.mp hmem
      obtain ⟨verdict, hv⟩ := hread thread hthread
      have hmem : verdict ∈ threads.filterMap fun thread => thread.2.verdict :=
        List.mem_filterMap.mpr ⟨thread, hthread, by rw [hv]; rfl⟩
      have hthreadOk := h thread hthread
      rw [hv] at hthreadOk
      exact hthreadOk ((joined_ok _).mp hok verdict hmem)
    · have hbad := mt (joined_ok _).mpr hne
      simp only [not_forall] at hbad
      obtain ⟨verdict, hmem, hbad⟩ := hbad
      obtain ⟨thread, hthread, hv⟩ := List.mem_filterMap.mp hmem
      obtain ⟨verdict', hread'⟩ := hread thread hthread
      rw [hread'] at hv
      obtain rfl := Option.some.inj hv
      exact ⟨thread, hthread, verdict', hread', hbad⟩
    · refine List.flatMap_eq_nil_iff.mpr fun thread hmem => ?_
      obtain ⟨verdict, hv⟩ := hread thread hmem
      rw [hv]
      rfl

end Forkyard
