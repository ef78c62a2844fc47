import Forkyard.Fetch.Flights

/-! What single flight comes to. Of each key, one call at most is fetching it at any moment, and as
    long as no fetch has failed it was asked of upstream once if it has been cached or asked for
    since the start, and not at all otherwise. -/

namespace Forkyard

open Schemes

/-- The keys a call has asked upstream for and has no answer to. -/
def Phase.pending : Phase → List StateKey
  | .fetching fetch _ => fetch.pending
  | _ => []

namespace Resolves

/-- The `i`-th call is fetching the key. -/
def Fetches (s : Resolves) (i : ℕ) (key : StateKey) : Prop :=
  ∃ call fetch theirs, s.calls[i]? = some call ∧ call.phase = .fetching fetch theirs ∧
    key ∈ fetch.keys

/-- No fetch of any call has failed. -/
def Unfailed (s : Resolves) : Prop := ∀ call ∈ s.calls, call.failures = []

/-- Every call has ended. -/
def Ended (s : Resolves) : Prop := ∀ call ∈ s.calls, ∃ verdict, call.phase = .ended verdict

/-- INVARIANT while no fetch fails: upstream was asked for what has been cached since the start, and
    is being asked for what is pending. -/
def Counted (cache₀ : ReadCache) (s : Resolves) : Prop := s.Unfailed → ∀ key,
  s.space.fetched.count key + (cache₀.has key).toNat
    = (s.calls.flatMap (·.phase.pending)).count key + (s.space.cache.has key).toNat

variable {up : Upstream String} {batched : Bool} {cache₀ : ReadCache} {s : Resolves} {i : ℕ}
  {call : Resolve}

/-! ### The books of one step -/

/-- What one step of one call does to its failures and to what is asked. -/
structure Books (call call' : Resolve) (space space' : Airspace) : Prop where
  failures : ∃ failed, call'.failures = call.failures ++ failed ∧ (failed = [] → ∀ key,
    space'.fetched.count key + call.phase.pending.count key + (space.cache.has key).toNat
      = space.fetched.count key + call'.phase.pending.count key + (space'.cache.has key).toNat)
  keys : call'.keys = call.keys

theorem books_still {call call' : Resolve} {space space' : Airspace}
    (hfailures : call'.failures = call.failures) (hkeys : call'.keys = call.keys)
    (hfetched : space'.fetched = space.fetched) (hcache : space'.cache = space.cache)
    (hpending : call'.phase.pending = call.phase.pending) : Books call call' space space' := by
  refine ⟨⟨[], by rw [hfailures, List.append_nil], fun _ key => ?_⟩, hkeys⟩
  rw [hfetched, hcache, hpending]

theorem await_pending (theirs : List ℕ) : (Phase.await theirs).pending = [] := by
  cases theirs <;> rfl

theorem afterLanding_pending (verdict : Verdict) (theirs : List ℕ) :
    (Phase.afterLanding verdict theirs).pending = [] := by
  cases verdict <;> cases theirs <;> rfl

/-- STEP LEMMA: the books of any step. -/
theorem books_advance (batched : Bool) (h : s.Sound up cache₀) (hi : s.calls[i]? = some call)
    (j : ℕ) (response : Response) :
    Books call (call.advance up batched i j response s.space).1 s.space
      (call.advance up batched i j response s.space).2.1 := by
  obtain ⟨keys, rounds, failures, phase⟩ := call
  cases phase with
  | entering =>
    simp only [Resolve.advance]
    split <;> exact books_still rfl rfl rfl rfl rfl
  | claiming todo mine theirs =>
    cases todo with
    | nil =>
      cases mine with
      | nil =>
        cases theirs with
        | nil => exact books_still rfl rfl rfl rfl rfl
        | cons f theirs => exact books_still rfl rfl rfl rfl rfl
      | cons key mine =>
        obtain ⟨known, -, -, -, -, hmine, -, -⟩ := h.calls i _ hi
        obtain ⟨-, -, hpending, -, -⟩ := Fetching.start_spec batched hmine
        exact books_still rfl rfl rfl rfl hpending
    | cons key todo =>
      simp only [Resolve.advance]
      split <;> exact books_still rfl rfl rfl rfl rfl
  | looking key todo mine theirs =>
    simp only [Resolve.advance]
    split <;> exact books_still rfl rfl rfl rfl rfl
  | fetching fetch theirs =>
    obtain ⟨known, -, -, hfetch, -, -, -⟩ := h.calls i _ hi
    simp only [Resolve.advance]
    split
    · rename_i verdict hverdict
      obtain ⟨-, -, hpending, -⟩ := Fetching.verdict_spec hfetch hverdict
      exact books_still rfl rfl rfl rfl hpending.symm
    · have hnodup : fetch.keys.Nodup :=
        (List.nodup_flatMap.mp h.nodup).1 _ (List.mem_of_getElem? hi)
      obtain ⟨-, -, -, hbooked⟩ := Fetching.step_spec up response j s.space hnodup hfetch
      exact ⟨⟨_, rfl, hbooked.counted⟩, rfl⟩
  | descending verdict mine theirs =>
    simp only [Resolve.advance]
    split <;> exact books_still rfl rfl rfl rfl rfl
  | landing verdict mine theirs =>
    cases mine with
    | nil => exact books_still rfl rfl rfl rfl (afterLanding_pending verdict theirs)
    | cons key mine =>
      simp only [Resolve.advance]
      split <;> exact books_still rfl rfl rfl rfl rfl
  | notifying f verdict mine theirs => exact books_still rfl rfl rfl rfl rfl
  | waiting theirs =>
    cases theirs with
    | nil => exact books_still rfl rfl rfl rfl rfl
    | cons f rest =>
      simp only [Resolve.advance]
      split
      · exact books_still rfl rfl rfl rfl (await_pending rest)
      · exact books_still rfl rfl rfl rfl rfl
  | sleeping theirs => exact books_still rfl rfl rfl rfl rfl
  | ended verdict => exact books_still rfl rfl rfl rfl rfl

/-- Waking touches neither failures nor what is pending. -/
theorem wake_same (f : ℕ) (call : Resolve) : (call.wake f).failures = call.failures ∧
    (call.wake f).phase.pending = call.phase.pending ∧ (call.wake f).keys = call.keys := by
  rcases wake_cases f call with hsame | ⟨theirs, hphase, hwake⟩
  · rw [hsame]
    exact ⟨rfl, rfl, rfl⟩
  · rw [hwake, hphase]
    exact ⟨rfl, rfl, rfl⟩

theorem counted_start (cache₀ : ReadCache) (maxInFlight : ℕ) (requests : List (List StateKey)) :
    (start cache₀ maxInFlight requests).Counted cache₀ := by
  intro _ key
  have hnone : (start cache₀ maxInFlight requests).calls.flatMap (·.phase.pending) = [] := by
    refine List.flatMap_eq_nil_iff.mpr fun call hmem => ?_
    obtain ⟨keys, -, rfl⟩ := List.mem_map.mp hmem
    rfl
  rw [hnone]
  rfl

theorem counted_set (h : s.Counted cache₀) (hi : s.calls[i]? = some call) {call' : Resolve}
    {space' : Airspace} (hbooks : Books call call' s.space space') :
    Counted cache₀ ⟨space', s.calls.set i call'⟩ := by
  intro hunfailed key
  obtain ⟨failed, hfailures, hcounted⟩ := hbooks.failures
  obtain ⟨hlt, -⟩ := List.getElem?_eq_some_iff.mp hi
  have hnone := hunfailed call' (List.mem_of_getElem? (List.getElem?_set_self hlt))
  rw [hfailures, List.append_eq_nil_iff] at hnone
  have hbefore : s.Unfailed := by
    intro other hmem
    obtain ⟨m, hm⟩ := List.mem_iff_getElem?.mp hmem
    by_cases hmi : m = i
    · subst hmi
      obtain rfl := Option.some.inj (hi.symm.trans hm)
      exact hnone.1
    · refine hunfailed other (List.mem_of_getElem? (i := m) ?_)
      exact (List.getElem?_set_ne (Ne.symm hmi)).trans hm
  have hcount := h hbefore key
  have hstep := hcounted hnone.2 key
  have hperm := (flatMap_set_perm (·.phase.pending) call' hi).count_eq key
  rw [List.count_append, List.count_append] at hperm
  dsimp only
  omega

theorem counted_step (hsound : s.Sound up cache₀) (h : s.Counted cache₀) (event : ResolveEvent) :
    (s.step up batched event).Counted cache₀ := by
  cases event with
  | run i j response =>
    simp only [Resolves.step]
    split
    · exact h
    · rename_i call hi
      have hset := counted_set h hi (books_advance batched hsound hi j response)
      rcases hmove : call.advance up batched i j response s.space with ⟨call', space', _ | f⟩ <;>
        rw [hmove] at hset
      · exact hset
      · intro hunfailed key
        have hbefore : Unfailed ⟨space', s.calls.set i call'⟩ := by
          intro other hmem
          have hwoken := hunfailed (other.wake f) (List.mem_map_of_mem hmem)
          rwa [(wake_same f other).1] at hwoken
        have hsame : ((s.calls.set i call').map (·.wake f)).flatMap (·.phase.pending)
            = (s.calls.set i call').flatMap (·.phase.pending) := by
          rw [List.flatMap_map]
          exact List.flatMap_congr fun other _ => (wake_same f other).2.1
        have hcount := hset hbefore key
        dsimp only at hcount ⊢
        rw [hsame]
        exact hcount
  | spurious i =>
    simp only [Resolves.step]
    split
    · rename_i hi
      exact counted_set h hi (books_still rfl rfl rfl rfl rfl)
    · exact h

/-! ### What is pending is held and not cached -/

theorem fetching_pending {fetch : Fetching} {cache : ReadCache} (h : fetch.Ok cache)
    (hnodup : fetch.keys.Nodup) : fetch.pending.Nodup ∧
      ∀ key ∈ fetch.pending, key ∈ fetch.keys ∧ cache.has key = false := by
  cases fetch with
  | reads threads =>
    have hsub : (threads.flatMap fun thread => thread.2.pending thread.1).Sublist
        (threads.map Prod.fst) := by
      rw [List.map_eq_flatMap]
      induction threads with
      | nil => exact List.Sublist.refl _
      | cons thread threads ih =>
        rw [List.flatMap_cons, List.flatMap_cons]
        refine List.Sublist.append ?_ (ih ?_ ?_)
        · cases hreading : thread.2 <;> simp [Reading.pending]
        · exact fun other hmem => h other (List.mem_cons_of_mem thread hmem)
        · exact (List.nodup_cons.mp hnodup).2
    refine ⟨hsub.nodup hnodup, fun key hmem => ⟨hsub.subset hmem, ?_⟩⟩
    obtain ⟨thread, hthread, hkey⟩ := List.mem_flatMap.mp hmem
    have hok := h thread hthread
    cases hreading : thread.2 with
    | starting => rw [hreading] at hkey; cases hkey
    | read verdict => rw [hreading] at hkey; cases hkey
    | asked =>
      rw [hreading] at hkey hok
      rw [List.mem_singleton.mp hkey]
      exact hok
  | batched keys attempt stage =>
    cases stage with
    | receiving batch hashes =>
      refine ⟨(List.nodup_append'.mp h.nodup).1, fun key hmem => ?_⟩
      have hleft : key ∈ batch ++ hashes := List.mem_append_left hashes hmem
      exact ⟨h.own key hleft, h.uncached key hleft⟩
    | asking key hashes =>
      refine ⟨List.nodup_singleton key, fun key' hmem => ?_⟩
      rw [List.mem_singleton.mp hmem]
      exact ⟨h.own key List.mem_cons_self, h.uncached key List.mem_cons_self⟩
    | checking => exact ⟨List.nodup_nil, by rintro _ ⟨⟩⟩
    | acquiring batch hashes => exact ⟨List.nodup_nil, by rintro _ ⟨⟩⟩
    | sending batch hashes => exact ⟨List.nodup_nil, by rintro _ ⟨⟩⟩
    | hashing hashes => exact ⟨List.nodup_nil, by rintro _ ⟨⟩⟩
    | returned verdict => exact ⟨List.nodup_nil, by rintro _ ⟨⟩⟩

theorem phase_pending (h : s.Sound up cache₀) (hi : s.calls[i]? = some call) :
    call.phase.pending.Nodup ∧
      ∀ key ∈ call.phase.pending, key ∈ call.phase.held ∧ s.space.cache.has key = false := by
  obtain ⟨keys, rounds, failures, phase⟩ := call
  cases phase with
  | fetching fetch theirs =>
    obtain ⟨known, -, -, hfetch, -, -, -⟩ := h.calls i _ hi
    exact fetching_pending hfetch ((List.nodup_flatMap.mp h.nodup).1 _ (List.mem_of_getElem? hi))
  | _ => exact ⟨List.nodup_nil, by rintro _ ⟨⟩⟩

/-- A key is pending at most once, and not once it is cached. -/
theorem pending_once (h : s.Sound up cache₀) (key : StateKey) :
    (s.calls.flatMap (·.phase.pending)).count key + (s.space.cache.has key).toNat ≤ 1 := by
  have hcalls : ∀ call ∈ s.calls, call.phase.pending.Nodup ∧
      ∀ key ∈ call.phase.pending, key ∈ call.phase.held ∧ s.space.cache.has key = false := by
    intro call hmem
    obtain ⟨m, hm⟩ := List.mem_iff_getElem?.mp hmem
    exact phase_pending h hm
  obtain ⟨-, hpairwise⟩ := List.nodup_flatMap.mp h.nodup
  have hnodup : (s.calls.flatMap (·.phase.pending)).Nodup := by
    refine List.nodup_flatMap.mpr ⟨fun call hmem => (hcalls call hmem).1, ?_⟩
    refine hpairwise.imp_of_mem fun {call other} hcall hother hdisjoint key hkey hkey' => ?_
    exact hdisjoint ((hcalls call hcall).2 key hkey).1 ((hcalls other hother).2 key hkey').1
  have hone := List.nodup_iff_count_le_one.mp hnodup key
  cases hhas : s.space.cache.has key with
  | false => simpa using hone
  | true =>
    have hnone : key ∉ s.calls.flatMap (·.phase.pending) := by
      intro hmem
      obtain ⟨call, hcall, hkey⟩ := List.mem_flatMap.mp hmem
      rw [((hcalls call hcall).2 key hkey).2] at hhas
      cases hhas
    rw [List.count_eq_zero_of_not_mem hnone]
    rfl

/-! ### Claims -/

/-- A step claims a key only where it looked for that key's flight and found none. -/
theorem advance_inFlight (h : s.Sound up cache₀) (hi : s.calls[i]? = some call) (j : ℕ)
    (response : Response) {key : StateKey} (hbefore : s.space.inFlight.lookup key = none)
    (hafter : ((call.advance up batched i j response s.space).2.1.inFlight.lookup key).isSome
      = true) : ∃ todo mine theirs, call.phase = .looking key todo mine theirs := by
  obtain ⟨keys, rounds, failures, phase⟩ := call
  have hsame : ∀ {space' : Airspace}, space'.inFlight = s.space.inFlight →
      ¬ (space'.inFlight.lookup key).isSome = true := by
    intro space' heq hsome
    rw [heq, hbefore] at hsome
    cases hsome
  cases phase with
  | looking key' todo mine theirs =>
    simp only [Resolve.advance] at hafter
    split at hafter
    · exact absurd hafter (hsame rfl)
    · rw [Map.lookup_insert_eq] at hafter
      split at hafter
      · rename_i heq
        exact ⟨todo, mine, theirs, by rw [heq]⟩
      · exact absurd hafter (hsame rfl)
  | landing verdict mine theirs =>
    cases mine with
    | nil => exact absurd hafter (hsame rfl)
    | cons key' mine =>
      simp only [Resolve.advance] at hafter
      split at hafter
      · exact absurd hafter (hsame rfl)
      · rw [Map.lookup_erase_eq, hbefore] at hafter
        split at hafter <;> cases hafter
  | fetching fetch theirs =>
    obtain ⟨known, -, -, hfetch, -, -, -⟩ := h.calls i _ hi
    have hnodup : fetch.keys.Nodup := (List.nodup_flatMap.mp h.nodup).1 _ (List.mem_of_getElem? hi)
    obtain ⟨-, hstepped, -, -⟩ := Fetching.step_spec up response j s.space hnodup hfetch
    simp only [Resolve.advance] at hafter
    split at hafter
    · exact absurd hafter (hsame rfl)
    · exact absurd hafter (hsame hstepped.inFlight)
  | entering =>
    simp only [Resolve.advance] at hafter
    split at hafter <;> exact absurd hafter (hsame rfl)
  | claiming todo mine theirs =>
    cases todo with
    | nil => cases mine <;> cases theirs <;> exact absurd hafter (hsame rfl)
    | cons key' todo =>
      simp only [Resolve.advance] at hafter
      split at hafter <;> exact absurd hafter (hsame rfl)
  | descending verdict mine theirs =>
    simp only [Resolve.advance] at hafter
    split at hafter <;> exact absurd hafter (hsame rfl)
  | notifying f verdict mine theirs => exact absurd hafter (hsame rfl)
  | waiting theirs =>
    cases theirs with
    | nil => exact absurd hafter (hsame rfl)
    | cons f rest =>
      simp only [Resolve.advance] at hafter
      split at hafter <;> exact absurd hafter (hsame rfl)
  | sleeping theirs => exact absurd hafter (hsame rfl)
  | ended verdict => exact absurd hafter (hsame rfl)

/-- No key is claimed once it is cached. -/
theorem claims_uncached (h : s.Sound up cache₀) (event : ResolveEvent) {key : StateKey}
    (hbefore : s.space.inFlight.lookup key = none)
    (hafter : ((s.step up batched event).space.inFlight.lookup key).isSome = true) :
    s.space.cache.has key = false := by
  cases event with
  | spurious i =>
    have hspace : (s.step up batched (.spurious i)).space = s.space := by
      simp only [Resolves.step]
      split <;> rfl
    rw [hspace, hbefore] at hafter
    cases hafter
  | run i j response =>
    simp only [Resolves.step] at hafter
    split at hafter
    · rw [hbefore] at hafter
      cases hafter
    · rename_i call hi
      obtain ⟨todo, mine, theirs, hphase⟩ := advance_inFlight h hi j response hbefore hafter
      obtain ⟨keys, rounds, failures, phase⟩ := call
      obtain rfl : phase = .looking key todo mine theirs := hphase
      obtain ⟨known, -, -, hkey, -⟩ := h.calls i _ hi
      refine hkey.resolve_right fun hsome => ?_
      rw [hbefore] at hsome
      cases hsome

/-! ### Whole runs -/

/-- A step changes no call's keys. -/
theorem keys_step (h : s.Sound up cache₀) (event : ResolveEvent) :
    (s.step up batched event).calls.map (·.keys) = s.calls.map (·.keys) := by
  cases event with
  | spurious i =>
    simp only [Resolves.step]
    split
    · rename_i hi
      refine map_set_same (·.keys) hi ?_
      rfl
    · rfl
  | run i j response =>
    simp only [Resolves.step]
    split
    · rfl
    · rename_i call hi
      have hkeys := map_set_same (·.keys) hi
        (books_advance batched h hi j response).keys
      rcases hmove : call.advance up batched i j response s.space with ⟨call', space', _ | f⟩ <;>
        rw [hmove] at hkeys
      · exact hkeys
      · rw [← hkeys]
        simp only [List.map_map]
        exact List.map_congr_left fun other _ => (wake_same f other).2.2

/-- INVARIANT of a whole run: the calls are sound, and so are their books. -/
structure Orderly (up : Upstream String) (cache₀ : ReadCache) (requests : List (List StateKey))
    (s : Resolves) : Prop where
  sound : s.Sound up cache₀
  counted : s.Counted cache₀
  keys : s.calls.map (·.keys) = requests

theorem orderly_start (up : Upstream String) (cache₀ : ReadCache) (maxInFlight : ℕ)
    (requests : List (List StateKey)) :
    Orderly up cache₀ requests (start cache₀ maxInFlight requests) := by
  refine ⟨sound_start cache₀ maxInFlight requests, counted_start cache₀ maxInFlight requests, ?_⟩
  simp only [start, List.map_map]
  exact List.map_id requests

theorem orderly_step {requests : List (List StateKey)} (h : Orderly up cache₀ requests s)
    (event : ResolveEvent) : Orderly up cache₀ requests (s.step up batched event) :=
  ⟨sound_step h.sound event, counted_step h.sound h.counted event,
    (keys_step h.sound event).trans h.keys⟩

/-- RUN LEMMA. -/
theorem orderly_run (cache₀ : ReadCache) (maxInFlight : ℕ) (requests : List (List StateKey))
    (events : List ResolveEvent) : Orderly up cache₀ requests
      (runAll (Resolves.step up batched) (start cache₀ maxInFlight requests) events) :=
  runAll_inv (P := Orderly up cache₀ requests) (fun _ event h => orderly_step h event) _ events
    (orderly_start up cache₀ maxInFlight requests)

/-- A call that ended without a failure of its own has all its keys cached. -/
theorem ended_cached (h : s.Sound up cache₀) (hi : s.calls[i]? = some call)
    (hunfailed : call.failures = []) {verdict : Verdict} (hended : call.phase = .ended verdict) :
    ∀ key ∈ call.keys, s.space.cache.has key = true := by
  obtain ⟨keys, rounds, failures, phase⟩ := call
  obtain rfl : phase = .ended verdict := hended
  obtain ⟨known, -, -, hfailing, hok⟩ := h.calls i _ hi
  by_cases hv : verdict = .ok
  · exact hok hv
  · exact absurd hunfailed (hfailing hv)

/-- EXACT: whatever the calls, their keys and their interleaving, at every moment one call at most
    is fetching a key, the `in_flight` map is exactly the keys claimed and not landed, and no key is
    claimed once it is cached; and if no fetch has failed no key has been asked for twice, and once
    all calls have ended each requested key that was not cached at the start has been asked for
    once. -/
theorem single_flight {E : Type} [ToString E] (source : Source E) (cache₀ : ReadCache)
    (maxInFlight : ℕ) (requests : List (List StateKey)) (events : List ResolveEvent) :
    let step := Resolves.step source.upstream source.batch.isSome
    let s := runAll step (start cache₀ maxInFlight requests) events
    (∀ i j key, s.Fetches i key → s.Fetches j key → i = j) ∧
      (∀ key, (s.space.inFlight.lookup key).isSome = true ↔
        ∃ call ∈ s.calls, key ∈ call.phase.held) ∧
      (∀ event key, s.space.inFlight.lookup key = none →
        ((step s event).space.inFlight.lookup key).isSome = true → s.space.cache.has key = false) ∧
      (s.Unfailed → (∀ key, s.space.fetched.count key ≤ 1) ∧
        (s.Ended → ∀ keys ∈ requests, ∀ key ∈ keys, cache₀.has key = false →
          s.space.fetched.count key = 1)) := by
  intro step s
  have horderly : Orderly source.upstream cache₀ requests s :=
    orderly_run cache₀ maxInFlight requests events
  have hsound := horderly.sound
  refine ⟨?_, fun key => ?_, fun event key => claims_uncached hsound event, fun hunfailed =>
    ⟨fun key => ?_, fun hended keys hkeys key hkey huncached => ?_⟩⟩
  · rintro i j key ⟨call, fetch, theirs, hi, hphase, hkey⟩ ⟨other, fetch', theirs', hj, hphase', hkey'⟩
    have hheld : key ∈ call.phase.held := by
      rw [hphase]
      exact hkey
    have hheld' : key ∈ other.phase.held := by
      rw [hphase']
      exact hkey'
    exact held_disjoint hsound.nodup hj hi hheld' hheld
  · rw [hsound.inFlight key]
    exact List.mem_flatMap
  · have hcount := horderly.counted hunfailed key
    have honce := pending_once hsound key
    omega
  · have hcount := horderly.counted hunfailed key
    have hnone : s.calls.flatMap (·.phase.pending) = [] := by
      refine List.flatMap_eq_nil_iff.mpr fun call hmem => ?_
      obtain ⟨verdict, hverdict⟩ := hended call hmem
      rw [hverdict]
      rfl
    rw [← horderly.keys] at hkeys
    obtain ⟨call, hcall, rfl⟩ := List.mem_map.mp hkeys
    obtain ⟨m, hm⟩ := List.mem_iff_getElem?.mp hcall
    obtain ⟨verdict, hverdict⟩ := hended call hcall
    have hcached := ended_cached hsound hm (hunfailed call hcall) hverdict key hkey
    rw [hnone, huncached, hcached, List.count_nil] at hcount
    simpa using hcount

end Resolves

end Forkyard
