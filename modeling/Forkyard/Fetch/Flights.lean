import Forkyard.Fetch.Fetching

/-! Single flight. Whatever the interleaving, the `in_flight` map is exactly the keys calls have
    claimed and not landed, each claimed by one call, none cached when it was claimed; and a flight
    lands only with its key cached, or by a call that failed. The last of these is what a waiting
    call relies on: a key it still misses after a round has cost some other call its life. -/

namespace Forkyard

open Schemes

/-! ### What each call holds -/

/-- The keys a call has claimed and not landed. -/
def Phase.held : Phase → List StateKey
  | .claiming _ mine _ | .looking _ _ mine _ => mine
  | .fetching fetch _ => fetch.keys
  | .descending _ mine _ | .landing _ mine _ | .notifying _ _ mine _ => mine
  | _ => []

/-- The call is inside the `in_flight` mutex. -/
def Phase.locked : Phase → Bool
  | .claiming _ _ _ | .looking _ _ _ _ | .landing _ _ _ | .notifying _ _ _ _ => true
  | _ => false

/-- The call is landing flights it failed to fetch. -/
def Phase.Crashing : Phase → Prop
  | .landing verdict _ _ | .notifying _ verdict _ _ => verdict ≠ .ok
  | _ => False

/-- The call has ended and not well. -/
def Resolve.failed (call : Resolve) : Bool :=
  match call.phase with
  | .ended .ok => false
  | .ended _ => true
  | _ => false

namespace Resolves

/-- All keys claimed and not landed. -/
def held (s : Resolves) : List StateKey := s.calls.flatMap (·.phase.held)

/-- How many calls other than the `i`-th have failed. -/
def failedOthers (s : Resolves) (i : ℕ) : ℕ := (s.calls.eraseIdx i).countP (·.failed)

/-- Some call is landing flights it failed to fetch. -/
def Crashing (s : Resolves) : Prop := ∃ call ∈ s.calls, call.phase.Crashing

/-- Since `known` other calls had failed another one has, or is about to. -/
def Lost (s : Resolves) (i known : ℕ) : Prop := known < s.failedOthers i ∨ s.Crashing

end Resolves

/-! ### What a call relies on -/

/-- A flight to wait for, landed, has left its key cached, unless its call was lost. -/
def TheirsOk (space : Airspace) (lost : Prop) (theirs : List ℕ) : Prop :=
  ∀ f ∈ theirs, ∃ flight, space.flights[f]? = some flight ∧
    (flight.landed = true → space.cache.has flight.key = true ∨ lost)

/-- The key is one of these flights'. -/
def Flying (space : Airspace) (theirs : List ℕ) (key : StateKey) : Prop :=
  ∃ f ∈ theirs, ∃ flight, space.flights[f]? = some flight ∧ flight.key = key

/-- Every key is cached, still to be seen to, or in flight, unless a call was lost. -/
def Covered (space : Airspace) (lost : Prop) (keys mine : List StateKey) (theirs : List ℕ) : Prop :=
  ∀ key ∈ keys, space.cache.has key = true ∨ key ∈ mine ∨ Flying space theirs key ∨ lost

/-- What a call relies on that knew of `known` failures of others when its round began. -/
def PhaseOk (space : Airspace) (lost : Prop) (known : ℕ) (call : Resolve) : Prop :=
  match call.phase with
  | .entering => call.rounds ≤ known + 1 ∧ (call.rounds = 0 ∨ Covered space lost call.keys [] [])
  | .claiming todo mine theirs =>
    call.rounds ≤ known + 2 ∧
      (call.rounds ≤ known + 1 ∨
        (∀ key ∈ call.keys, space.cache.has key = true) ∧ mine = [] ∧ theirs = []) ∧
      (∀ key ∈ todo, key ∈ call.keys) ∧ (∀ key ∈ mine, space.cache.has key = false) ∧
      TheirsOk space lost theirs ∧ Covered space False call.keys (todo ++ mine) theirs
  | .looking key todo mine theirs =>
    call.rounds ≤ known + 1 ∧
      (space.cache.has key = false ∨ (space.inFlight.lookup key).isSome = true) ∧
      (∀ key ∈ todo, key ∈ call.keys) ∧ (∀ key ∈ mine, space.cache.has key = false) ∧
      TheirsOk space lost theirs ∧ Covered space False call.keys (key :: (todo ++ mine)) theirs
  | .fetching fetch theirs =>
    call.rounds ≤ known + 1 ∧ fetch.Ok space.cache ∧ (fetch.Failing → call.failures ≠ []) ∧
      TheirsOk space lost theirs ∧ Covered space False call.keys fetch.keys theirs
  | .descending verdict mine theirs | .landing verdict mine theirs
  | .notifying _ verdict mine theirs =>
    call.rounds ≤ known + 1 ∧ (verdict ≠ .ok → call.failures ≠ []) ∧
      TheirsOk space lost theirs ∧
      (verdict = .ok → (∀ key ∈ mine, space.cache.has key = true) ∧
        Covered space False call.keys [] theirs)
  | .waiting theirs | .sleeping theirs =>
    theirs ≠ [] ∧ call.rounds ≤ known + 1 ∧ TheirsOk space lost theirs ∧
      Covered space lost call.keys [] theirs
  | .ended verdict =>
    call.rounds ≤ known + 2 ∧ (verdict ≠ .ok → call.failures ≠ []) ∧
      (verdict = .ok → ∀ key ∈ call.keys, space.cache.has key = true)

def Resolves.CallOk (s : Resolves) (i : ℕ) (call : Resolve) : Prop :=
  ∃ known, known ≤ s.failedOthers i ∧ PhaseOk s.space (s.Lost i known) known call

/-- INVARIANT of any number of concurrent calls. -/
structure Resolves.Sound (up : Upstream String) (cache₀ : ReadCache) (s : Resolves) : Prop where
  agrees : cache₀.Agrees up → s.space.cache.Agrees up
  lock : ∀ i, s.space.lock = some i ↔
    ∃ call, s.calls[i]? = some call ∧ call.phase.locked = true
  nodup : s.held.Nodup
  inFlight : ∀ key, (s.space.inFlight.lookup key).isSome = true ↔ key ∈ s.held
  flights : ∀ key f, s.space.inFlight.lookup key = some f ↔
    s.space.flights[f]? = some ⟨key, false⟩
  calls : ∀ i call, s.calls[i]? = some call → s.CallOk i call

namespace Resolves

variable {up : Upstream String} {batched : Bool} {cache₀ : ReadCache}

theorem sound_start (cache₀ : ReadCache) (maxInFlight : ℕ) (requests : List (List StateKey)) :
    (start cache₀ maxInFlight requests).Sound up cache₀ := by
  have hheld : (start cache₀ maxInFlight requests).held = [] := by
    simp [held, start, Phase.held]
  refine ⟨id, fun i => ?_, by rw [hheld]; exact List.nodup_nil, fun key => ?_, fun key f => ?_,
    fun i call hi => ?_⟩
  · constructor
    · rintro ⟨⟩
    · rintro ⟨call, hi, hlocked⟩
      obtain ⟨keys, -, rfl⟩ := List.mem_map.mp (List.mem_of_getElem? hi)
      cases hlocked
  · rw [hheld]
    simp [start]
  · simp [start]
  · obtain ⟨keys, -, rfl⟩ := List.mem_map.mp (List.mem_of_getElem? hi)
    exact ⟨0, Nat.zero_le _, Nat.zero_le _, .inl rfl⟩

/-! ### What other calls see of a step -/

theorem theirsOk_mono {space space' : Airspace} {lost lost' : Prop} {theirs : List ℕ}
    (h : TheirsOk space lost theirs)
    (hflights : ∀ (f : ℕ) (flight : Flight), space.flights[f]? = some flight →
      ∃ flight', space'.flights[f]? = some flight' ∧ flight'.key = flight.key ∧
        (flight'.landed = true → flight.landed = true ∨ space'.cache.has flight.key = true ∨ lost'))
    (hgrown : ∀ key, space.cache.has key = true → space'.cache.has key = true)
    (hlost : lost → lost') : TheirsOk space' lost' theirs := by
  intro f hf
  obtain ⟨flight, hget, hlanded⟩ := h f hf
  obtain ⟨flight', hget', hkey, hlanded'⟩ := hflights f flight hget
  refine ⟨flight', hget', fun h => ?_⟩
  rw [hkey]
  rcases hlanded' h with hold | hnew | hnew
  · exact (hlanded hold).imp (hgrown _) hlost
  · exact .inl hnew
  · exact .inr hnew

theorem covered_mono {space space' : Airspace} {lost lost' : Prop} {keys mine : List StateKey}
    {theirs : List ℕ} (h : Covered space lost keys mine theirs)
    (hflights : ∀ (f : ℕ) (flight : Flight), space.flights[f]? = some flight →
      ∃ flight', space'.flights[f]? = some flight' ∧ flight'.key = flight.key)
    (hgrown : ∀ key, space.cache.has key = true → space'.cache.has key = true)
    (hlost : lost → lost') : Covered space' lost' keys mine theirs := by
  intro key hkey
  rcases h key hkey with hhas | hmine | ⟨f, hf, flight, hget, hflight⟩ | hl
  · exact .inl (hgrown key hhas)
  · exact .inr (.inl hmine)
  · obtain ⟨flight', hget', hsame⟩ := hflights f flight hget
    exact .inr (.inr (.inl ⟨f, hf, flight', hget', hsame.trans hflight⟩))
  · exact .inr (.inr (.inr (hlost hl)))

/-- A fetch relies on nothing but which of its own keys are cached. -/
theorem fetchingOk_congr {cache cache' : ReadCache} {fetch : Fetching} (h : fetch.Ok cache)
    (hsame : ∀ key ∈ fetch.keys, cache'.has key = cache.has key) : fetch.Ok cache' := by
  have hremaining : ∀ {keys left : List StateKey},
      (∀ key ∈ keys, cache'.has key = cache.has key) → Remaining cache keys left →
        Remaining cache' keys left := fun hkeys hr =>
    ⟨fun key hmem => (hkeys key (hr.own key hmem)).trans (hr.uncached key hmem), hr.nodup, hr.own,
      fun key hmem => by rw [hkeys key hmem]; exact hr.rest key hmem⟩
  cases fetch with
  | reads threads =>
    intro thread hmem
    have hthread := h thread hmem
    have hkey := hsame thread.1 (List.mem_map_of_mem (f := Prod.fst) hmem)
    cases hreading : thread.2 with
    | starting => rw [hreading] at hthread; exact hkey.trans hthread
    | asked => rw [hreading] at hthread; exact hkey.trans hthread
    | read verdict => rw [hreading] at hthread; exact fun hok => hkey.trans (hthread hok)
  | batched keys attempt stage =>
    cases stage with
    | checking => exact trivial
    | acquiring batch hashes => exact ⟨h.1, hremaining hsame h.2⟩
    | sending batch hashes => exact ⟨h.1, hremaining hsame h.2⟩
    | receiving batch hashes => exact hremaining hsame h
    | hashing hashes => exact hremaining hsame h
    | asking key hashes => exact hremaining hsame h
    | returned verdict => exact fun hok key hmem => (hsame key hmem).trans (h hok key hmem)

/-- What a call relies on stays true when others cache no key it holds, land no flight without its
    key or a loss, and land none at all while it is in the mutex. -/
theorem phaseOk_mono {space space' : Airspace} {lost lost' : Prop} {known : ℕ} {call : Resolve}
    (h : PhaseOk space lost known call)
    (hgrown : ∀ key, space.cache.has key = true → space'.cache.has key = true)
    (hheld : ∀ key ∈ call.phase.held, space'.cache.has key = space.cache.has key)
    (hflights : ∀ (f : ℕ) (flight : Flight), space.flights[f]? = some flight →
      ∃ flight', space'.flights[f]? = some flight' ∧ flight'.key = flight.key ∧
        (flight'.landed = true → flight.landed = true ∨ space'.cache.has flight.key = true ∨ lost'))
    (hlost : lost → lost')
    (hlooking : ∀ key todo mine theirs, call.phase = .looking key todo mine theirs →
      space.cache.has key = false ∨ (space.inFlight.lookup key).isSome = true →
        space'.cache.has key = false ∨ (space'.inFlight.lookup key).isSome = true) :
    PhaseOk space' lost' known call := by
  have hkept : ∀ (f : ℕ) (flight : Flight), space.flights[f]? = some flight →
      ∃ flight', space'.flights[f]? = some flight' ∧ flight'.key = flight.key := by
    intro f flight hget
    obtain ⟨flight', hget', hkey, -⟩ := hflights f flight hget
    exact ⟨flight', hget', hkey⟩
  obtain ⟨keys, rounds, failures, phase⟩ := call
  have hmine : ∀ mine : List StateKey, phase.held = mine →
      (∀ key ∈ mine, space.cache.has key = false) → ∀ key ∈ mine, space'.cache.has key = false := by
    rintro mine rfl huncached key hmem
    exact (hheld key hmem).trans (huncached key hmem)
  cases phase with
  | entering => exact ⟨h.1, h.2.imp_right fun hc => covered_mono hc hkept hgrown hlost⟩
  | claiming todo mine theirs =>
    obtain ⟨hrounds, hcached, htodo, huncached, htheirs, hcovered⟩ := h
    refine ⟨hrounds, hcached.imp_right fun hc => ⟨fun key hmem => hgrown key (hc.1 key hmem), hc.2⟩,
      htodo, hmine mine rfl huncached, theirsOk_mono htheirs hflights hgrown hlost,
      covered_mono hcovered hkept hgrown id⟩
  | looking key todo mine theirs =>
    obtain ⟨hrounds, hkey, htodo, huncached, htheirs, hcovered⟩ := h
    exact ⟨hrounds, hlooking key todo mine theirs rfl hkey, htodo, hmine mine rfl huncached,
      theirsOk_mono htheirs hflights hgrown hlost, covered_mono hcovered hkept hgrown id⟩
  | fetching fetch theirs =>
    obtain ⟨hrounds, hfetch, hfailing, htheirs, hcovered⟩ := h
    exact ⟨hrounds, fetchingOk_congr hfetch hheld, hfailing,
      theirsOk_mono htheirs hflights hgrown hlost, covered_mono hcovered hkept hgrown id⟩
  | descending verdict mine theirs =>
    obtain ⟨hrounds, hfailing, htheirs, hok⟩ := h
    exact ⟨hrounds, hfailing, theirsOk_mono htheirs hflights hgrown hlost, fun hv =>
      ⟨fun key hmem => hgrown key ((hok hv).1 key hmem), covered_mono (hok hv).2 hkept hgrown id⟩⟩
  | landing verdict mine theirs =>
    obtain ⟨hrounds, hfailing, htheirs, hok⟩ := h
    exact ⟨hrounds, hfailing, theirsOk_mono htheirs hflights hgrown hlost, fun hv =>
      ⟨fun key hmem => hgrown key ((hok hv).1 key hmem), covered_mono (hok hv).2 hkept hgrown id⟩⟩
  | notifying flight verdict mine theirs =>
    obtain ⟨hrounds, hfailing, htheirs, hok⟩ := h
    exact ⟨hrounds, hfailing, theirsOk_mono htheirs hflights hgrown hlost, fun hv =>
      ⟨fun key hmem => hgrown key ((hok hv).1 key hmem), covered_mono (hok hv).2 hkept hgrown id⟩⟩
  | waiting theirs =>
    obtain ⟨hne, hrounds, htheirs, hcovered⟩ := h
    exact ⟨hne, hrounds, theirsOk_mono htheirs hflights hgrown hlost,
      covered_mono hcovered hkept hgrown hlost⟩
  | sleeping theirs =>
    obtain ⟨hne, hrounds, htheirs, hcovered⟩ := h
    exact ⟨hne, hrounds, theirsOk_mono htheirs hflights hgrown hlost,
      covered_mono hcovered hkept hgrown hlost⟩
  | ended verdict =>
    exact ⟨h.1, h.2.1, fun hv key hmem => hgrown key (h.2.2 hv key hmem)⟩

/-! ### One call moves on -/

variable {s : Resolves} {i : ℕ} {call call' : Resolve} {space' : Airspace}

theorem failedOthers_self (i : ℕ) (call' : Resolve) (space' : Airspace) :
    failedOthers ⟨space', s.calls.set i call'⟩ i = s.failedOthers i := by
  simp only [failedOthers, List.eraseIdx_set_eq]

/-- The others count a call when it fails. -/
theorem failedOthers_set (call' : Resolve) (space' : Airspace) (hi : s.calls[i]? = some call)
    {j : ℕ}
    {other : Resolve} (hji : j ≠ i) (hj : s.calls[j]? = some other) :
    failedOthers ⟨space', s.calls.set i call'⟩ j + call.failed.toNat
      = s.failedOthers j + call'.failed.toNat := by
  have hj' : (s.calls.set i call')[j]? = some other := by
    rw [List.getElem?_set_ne (Ne.symm hji), hj]
  have hset := countP_set_add (·.failed) call' hi
  have herase := countP_eraseIdx_add (·.failed) hj
  have herase' := countP_eraseIdx_add (·.failed) hj'
  simp only [failedOthers]
  omega

/-- A call that stops landing flights it failed to fetch has failed. -/
theorem lost_mono (hi : s.calls[i]? = some call) {j known : ℕ} {other : Resolve} (hji : j ≠ i)
    (hj : s.calls[j]? = some other) (hknown : known ≤ s.failedOthers j)
    (hcrash : call.phase.Crashing →
      call'.phase.Crashing ∨ (call.failed = false ∧ call'.failed = true))
    (hfailed : call.failed = true → call'.failed = true) (h : s.Lost j known) :
    Lost ⟨space', s.calls.set i call'⟩ j known := by
  have hcount := failedOthers_set call' space' hi hji hj
  have hle := Bool.toNat_le_toNat (Bool.le_iff_imp.mpr hfailed)
  rcases h with hlt | ⟨crashing, hmem, hc⟩
  · exact .inl (by omega)
  obtain ⟨m, hm⟩ := List.mem_iff_getElem?.mp hmem
  obtain ⟨hlt, -⟩ := List.getElem?_eq_some_iff.mp hi
  by_cases hmi : m = i
  · subst hmi
    obtain rfl := Option.some.inj (hi.symm.trans hm)
    rcases hcrash hc with hc' | ⟨hbefore, hafter⟩
    · exact .inr ⟨call', List.mem_of_getElem? (List.getElem?_set_self hlt), hc'⟩
    · rw [hbefore, hafter] at hcount
      exact .inl (by simp only [Bool.toNat_true, Bool.toNat_false] at hcount; omega)
  · refine .inr ⟨crashing, List.mem_of_getElem? (i := m) ?_, hc⟩
    rw [List.getElem?_set_ne (Ne.symm hmi), hm]

theorem mem_held (hi : s.calls[i]? = some call) {key : StateKey} (h : key ∈ call.phase.held) :
    key ∈ s.held :=
  List.mem_flatMap.mpr ⟨call, List.mem_of_getElem? hi, h⟩

/-- No two calls hold a key. -/
theorem held_disjoint (h : s.held.Nodup) (hi : s.calls[i]? = some call) {j : ℕ} {other : Resolve}
    (hj : s.calls[j]? = some other) {key : StateKey} (hkey : key ∈ call.phase.held)
    (hkey' : key ∈ other.phase.held) : j = i := by
  by_contra hne
  have hperm := flatMap_set_perm (·.phase.held) (⟨[], 0, [], .entering⟩ : Resolve) hi
  have hnodup := hperm.nodup_iff.mpr (by simpa [Phase.held, held] using h)
  have hdisjoint := (List.nodup_append'.mp hnodup).2.2
  refine hdisjoint hkey (List.mem_flatMap.mpr ⟨other, List.mem_of_getElem? (i := j) ?_, hkey'⟩)
  rw [List.getElem?_set_ne (Ne.symm hne), hj]

/-- STEP RULE: a call moves on, and what it shares with the others stays in order. -/
theorem sound_move (h : s.Sound up cache₀) (hi : s.calls[i]? = some call)
    (hagrees : s.space.cache.Agrees up → space'.cache.Agrees up)
    (hlock : ∀ j, space'.lock = some j ↔
      if j = i then call'.phase.locked = true else s.space.lock = some j)
    (hnodup : (held ⟨space', s.calls.set i call'⟩).Nodup)
    (hinFlight : ∀ key, (space'.inFlight.lookup key).isSome = true ↔
      key ∈ held ⟨space', s.calls.set i call'⟩)
    (hflights : ∀ key f, space'.inFlight.lookup key = some f ↔
      space'.flights[f]? = some ⟨key, false⟩)
    (hgrown : ∀ key, s.space.cache.has key = true → space'.cache.has key = true)
    (hown : ∀ key, space'.cache.has key = true →
      s.space.cache.has key = true ∨ key ∈ call.phase.held)
    (hlanded : ∀ (f : ℕ) (flight : Flight), s.space.flights[f]? = some flight →
      ∃ flight', space'.flights[f]? = some flight' ∧ flight'.key = flight.key ∧
        (flight'.landed = true → flight.landed = true ∨ space'.cache.has flight.key = true ∨
          call'.phase.Crashing))
    (hlooking : call.phase.locked = true ∨ space'.inFlight = s.space.inFlight)
    (hcrash : call.phase.Crashing →
      call'.phase.Crashing ∨ (call.failed = false ∧ call'.failed = true))
    (hfailed : call.failed = true → call'.failed = true)
    (hcall : CallOk ⟨space', s.calls.set i call'⟩ i call') :
    Sound up cache₀ ⟨space', s.calls.set i call'⟩ := by
  obtain ⟨hlt, -⟩ := List.getElem?_eq_some_iff.mp hi
  refine ⟨fun hcache => hagrees (h.agrees hcache), fun j => ?_, hnodup, hinFlight, hflights,
    fun j other hj => ?_⟩
  · rw [hlock j]
    split
    · rename_i hji
      subst hji
      rw [List.getElem?_set_self hlt]
      simp
    · rename_i hji
      rw [List.getElem?_set_ne (Ne.symm hji)]
      exact h.lock j
  · by_cases hji : j = i
    · subst hji
      rw [List.getElem?_set_self hlt] at hj
      obtain rfl := Option.some.inj hj
      exact hcall
    rw [List.getElem?_set_ne (Ne.symm hji)] at hj
    obtain ⟨known, hknown, hok⟩ := h.calls j other hj
    have hcount := failedOthers_set call' space' hi hji hj
    have hle := Bool.toNat_le_toNat (Bool.le_iff_imp.mpr hfailed)
    have hcached : ∀ key, key ∉ call.phase.held →
        space'.cache.has key = s.space.cache.has key := by
      intro key hkey
      cases hhas : s.space.cache.has key with
      | true => exact hgrown key hhas
      | false =>
        rw [← Bool.not_eq_true] at hhas ⊢
        exact fun hhas' => (hown key hhas').elim hhas hkey
    refine ⟨known, by omega, phaseOk_mono hok hgrown (fun key hkey => hcached key ?_) ?_
      (lost_mono hi hji hj hknown hcrash hfailed) ?_⟩
    · exact fun hkey' => hji (held_disjoint h.nodup hi hj hkey' hkey)
    · intro f flight hget
      obtain ⟨flight', hget', hkey, hlanded'⟩ := hlanded f flight hget
      refine ⟨flight', hget', hkey, fun hland => (hlanded' hland).imp_right fun hor => ?_⟩
      refine hor.imp_right fun hc => .inr ⟨call', ?_, hc⟩
      exact List.mem_of_getElem? (List.getElem?_set_self hlt)
    · rintro key todo mine theirs hphase hkey
      rcases hlooking with hlocked | hsame
      · -- only one call is in the mutex
        have hother : other.phase.locked = true := by rw [hphase]; rfl
        have hlockj := (h.lock j).mpr ⟨other, hj, hother⟩
        have hlocki := (h.lock i).mpr ⟨call, hi, hlocked⟩
        rw [hlocki] at hlockj
        exact absurd (Option.some.inj hlockj).symm hji
      · rw [hsame]
        rcases hkey with huncached | hflying
        · by_cases hkey : key ∈ call.phase.held
          · exact .inr ((h.inFlight key).mpr (mem_held hi hkey))
          · exact .inl ((hcached key hkey).trans huncached)
        · exact .inr hflying

/-- The mutex stays with whom it was, is taken by this call, or is left by it. -/
def Relocked (i : ℕ) (lock lock' : Option ℕ) (locked locked' : Bool) : Prop :=
  (lock' = lock ∧ locked' = locked) ∨ (lock = none ∧ lock' = some i ∧ locked' = true) ∨
    (locked = true ∧ lock' = none ∧ locked' = false)

theorem lock_self (h : s.Sound up cache₀) (hi : s.calls[i]? = some call) :
    s.space.lock = some i ↔ call.phase.locked = true := by
  rw [h.lock i, hi]
  simp

theorem lock_relocked (h : s.Sound up cache₀) (hi : s.calls[i]? = some call)
    (hlock : Relocked i s.space.lock space'.lock call.phase.locked call'.phase.locked) (j : ℕ) :
    space'.lock = some j ↔
      if j = i then call'.phase.locked = true else s.space.lock = some j := by
  have hself := lock_self h hi
  rcases hlock with ⟨hlock, hlocked⟩ | ⟨hfree, htaken, hlocked⟩ | ⟨hheld, hleft, hlocked⟩
  · rw [hlock, hlocked]
    split
    · rename_i hji
      rw [hji, hself]
    · exact Iff.rfl
  · rw [htaken, hfree, hlocked]
    split
    · rename_i hji
      simp [hji]
    · rename_i hji
      simp [Ne.symm hji]
  · rw [hleft, hlocked, hself.mpr hheld]
    split
    · simp
    · rename_i hji
      simp [Ne.symm hji]

/-- Keys change hands only when a call's own do. -/
theorem held_set (space' : Airspace) (hi : s.calls[i]? = some call)
    (hheld : call'.phase.held = call.phase.held) :
    (held ⟨space', s.calls.set i call'⟩).Perm s.held := by
  have hperm := flatMap_set_perm (·.phase.held) call' hi
  rw [hheld] at hperm
  exact (List.perm_append_left_iff _).mp hperm

/-- STEP RULE: a call moves on without claiming or landing anything. -/
theorem sound_keep (h : s.Sound up cache₀) (hi : s.calls[i]? = some call)
    (hlock : Relocked i s.space.lock space'.lock call.phase.locked call'.phase.locked)
    (hheld : call'.phase.held = call.phase.held)
    (hinFlight : space'.inFlight = s.space.inFlight) (hflights : space'.flights = s.space.flights)
    (hagrees : s.space.cache.Agrees up → space'.cache.Agrees up)
    (hgrown : ∀ key, s.space.cache.has key = true → space'.cache.has key = true)
    (hown : ∀ key, space'.cache.has key = true →
      s.space.cache.has key = true ∨ key ∈ call.phase.held)
    (hcrash : call.phase.Crashing →
      call'.phase.Crashing ∨ (call.failed = false ∧ call'.failed = true))
    (hfailed : call.failed = true → call'.failed = true)
    (hcall : CallOk ⟨space', s.calls.set i call'⟩ i call') :
    Sound up cache₀ ⟨space', s.calls.set i call'⟩ := by
  have hperm := held_set space' hi hheld
  refine sound_move h hi hagrees (lock_relocked h hi hlock) (hperm.nodup_iff.mpr h.nodup)
    (fun key => ?_) (fun key f => ?_) hgrown hown (fun f flight hget => ?_) (.inr hinFlight) hcrash
    hfailed hcall
  · rw [hinFlight, h.inFlight key, hperm.mem_iff]
  · rw [hinFlight, hflights]
    exact h.flights key f
  · exact ⟨flight, by rw [hflights]; exact hget, rfl, .inl⟩

/-- STEP RULE: a call moves on and touches at most the mutex. -/
theorem sound_pass (h : s.Sound up cache₀) (hi : s.calls[i]? = some call) {lock' : Option ℕ}
    (hlock : Relocked i s.space.lock lock' call.phase.locked call'.phase.locked)
    (hheld : call'.phase.held = call.phase.held)
    (hcrash : call.phase.Crashing →
      call'.phase.Crashing ∨ (call.failed = false ∧ call'.failed = true))
    (hfailed : call.failed = true → call'.failed = true)
    (hcall : CallOk ⟨{ s.space with lock := lock' }, s.calls.set i call'⟩ i call') :
    Sound up cache₀ ⟨{ s.space with lock := lock' }, s.calls.set i call'⟩ :=
  sound_keep h hi hlock hheld rfl rfl id (fun _ => id) (fun _ => .inl) hcrash hfailed hcall

/-- What a call knows of losses it still knows after its own step. -/
theorem lost_self (call' : Resolve) (space' : Airspace) (hi : s.calls[i]? = some call) (known : ℕ)
    (hcrash : call.phase.Crashing → call'.phase.Crashing) (h : s.Lost i known) :
    Lost ⟨space', s.calls.set i call'⟩ i known := by
  rw [Lost, failedOthers_self]
  refine h.imp_right ?_
  rintro ⟨crashing, hmem, hc⟩
  obtain ⟨m, hm⟩ := List.mem_iff_getElem?.mp hmem
  obtain ⟨hlt, -⟩ := List.getElem?_eq_some_iff.mp hi
  by_cases hmi : m = i
  · subst hmi
    obtain rfl := Option.some.inj (hi.symm.trans hm)
    exact ⟨call', List.mem_of_getElem? (List.getElem?_set_self hlt), hcrash hc⟩
  · refine ⟨crashing, List.mem_of_getElem? (i := m) ?_, hc⟩
    rw [List.getElem?_set_ne (Ne.symm hmi), hm]

/-- What a call knows of flights it still knows after a step of its own that lands none. -/
theorem theirsOk_still (hi : s.calls[i]? = some call) {known : ℕ} {theirs : List ℕ}
    (h : TheirsOk s.space (s.Lost i known) theirs) (hflights : space'.flights = s.space.flights)
    (hgrown : ∀ key, s.space.cache.has key = true → space'.cache.has key = true)
    (hcrash : call.phase.Crashing → call'.phase.Crashing) :
    TheirsOk space' (Lost ⟨space', s.calls.set i call'⟩ i known) theirs :=
  theirsOk_mono h (fun f flight hget => ⟨flight, by rw [hflights]; exact hget, rfl, .inl⟩) hgrown
    (lost_self call' space' hi known hcrash)

/-- While the mutex is free nobody is landing anything. -/
theorem not_crashing (h : s.Sound up cache₀) (hfree : s.space.lock = none) : ¬ s.Crashing := by
  rintro ⟨crashing, hmem, hc⟩
  obtain ⟨m, hm⟩ := List.mem_iff_getElem?.mp hmem
  have hlocked : crashing.phase.locked = true := by
    cases hphase : crashing.phase <;> rw [hphase] at hc <;> first | rfl | exact hc.elim
  rw [(h.lock m).mpr ⟨crashing, hm, hlocked⟩] at hfree
  cases hfree

/-! ### The table of flights -/

section Table

variable {inFlight : Map StateKey ℕ} {flights : List Flight} {key : StateKey} {f : ℕ}

/-- A key nobody is fetching is given a flight of its own. -/
theorem lookup_started
    (h : ∀ key f, inFlight.lookup key = some f ↔ flights[f]? = some ⟨key, false⟩)
    (hnone : inFlight.lookup key = none) (key' : StateKey) (f' : ℕ) :
    (inFlight.insert key flights.length).lookup key' = some f' ↔
      (flights ++ [⟨key, false⟩])[f']? = some ⟨key', false⟩ := by
  rw [Map.lookup_insert_eq]
  by_cases hsame : key' = key
  · subst hsame
    rw [if_pos rfl]
    constructor
    · rintro ⟨⟩
      exact List.getElem?_concat_length
    · intro hget
      rcases Nat.lt_or_ge f' flights.length with hlt | hge
      · rw [List.getElem?_append_left hlt, ← h key' f', hnone] at hget
        cases hget
      · have hlast := (List.getElem?_eq_some_iff.mp hget).1
        rw [List.length_append, List.length_singleton] at hlast
        exact congrArg some (by omega)
  · rw [if_neg hsame, h key' f']
    rcases Nat.lt_or_ge f' flights.length with hlt | hge
    · rw [List.getElem?_append_left hlt]
    · rw [List.getElem?_append_right hge, List.getElem?_eq_none hge, List.getElem?_singleton]
      refine ⟨by rintro ⟨⟩, fun hget => ?_⟩
      split at hget
      · cases hget
        exact absurd rfl hsame
      · cases hget

theorem getElem?_landed (hflight : flights[f]? = some ⟨key, false⟩) (f' : ℕ) :
    (flights.modify f ({ · with landed := true }))[f']?
      = if f' = f then some ⟨key, true⟩ else flights[f']? := by
  rw [List.getElem?_modify]
  by_cases hf : f' = f
  · subst hf
    rw [hflight]
    simp
  · rw [if_neg hf]
    have hne : ¬ f = f' := Ne.symm hf
    simp [hne]

/-- A flight lands, and its key is free again. -/
theorem lookup_landed
    (h : ∀ key f, inFlight.lookup key = some f ↔ flights[f]? = some ⟨key, false⟩)
    (hsome : inFlight.lookup key = some f) (key' : StateKey) (f' : ℕ) :
    (inFlight.erase key).lookup key' = some f' ↔
      (flights.modify f ({ · with landed := true }))[f']? = some ⟨key', false⟩ := by
  have hflight := (h key f).mp hsome
  rw [Map.lookup_erase_eq, getElem?_landed hflight]
  by_cases hsame : key' = key
  · subst hsame
    rw [if_pos rfl]
    by_cases hf : f' = f
    · simp [hf]
    · rw [if_neg hf, ← h key' f', hsome]
      have hne : ¬ f = f' := Ne.symm hf
      simp [hne]
  · rw [if_neg hsame, h key' f']
    by_cases hf : f' = f
    · subst hf
      rw [hflight, if_pos rfl]
      have hne : ¬ key = key' := Ne.symm hsame
      simp [hne]
    · rw [if_neg hf]

end Table

/-! ### Claiming -/

variable {keys : List StateKey} {rounds : ℕ} {failures : List StateKey}

theorem set_self (hi : s.calls[i]? = some call) :
    (⟨s.space, s.calls.set i call⟩ : Resolves) = s := by
  obtain ⟨hlt, hget⟩ := List.getElem?_eq_some_iff.mp hi
  have hset : s.calls.set i call = s.calls := by
    rw [← hget]
    exact List.set_getElem_self hlt
  rw [hset]

/-- A round begins: whoever was lost since the last one began has been counted. -/
theorem sound_enter (h : s.Sound up cache₀)
    (hi : s.calls[i]? = some ⟨keys, rounds, failures, .entering⟩)
    (hfree : s.space.lock = none) :
    Sound up cache₀ ⟨{ s.space with lock := some i },
      s.calls.set i ⟨keys, rounds + 1, failures, .claiming keys [] []⟩⟩ := by
  obtain ⟨known, hknown, hrounds, hcovered⟩ := h.calls i _ hi
  refine sound_pass h hi (.inr (.inl ⟨hfree, rfl, rfl⟩)) rfl (fun hc => hc.elim) (by rintro ⟨⟩) ?_
  refine ⟨s.failedOthers i, by rw [failedOthers_self], ?_⟩
  dsimp only at hrounds hcovered
  refine ⟨?_, ?_, fun _ => id, fun _ hmem => absurd hmem List.not_mem_nil,
    fun _ hmem => absurd hmem List.not_mem_nil, fun key hkey => ?_⟩
  · dsimp only
    omega
  · by_cases hall : ∀ key ∈ keys, s.space.cache.has key = true
    · exact .inr ⟨hall, rfl, rfl⟩
    refine .inl ?_
    dsimp only
    rcases hcovered with hzero | hcovered
    · omega
    obtain ⟨key, hkey, hmissing⟩ : ∃ key ∈ keys, ¬ s.space.cache.has key = true := by
      simpa only [not_forall, exists_prop] using hall
    have hlost : s.Lost i known := by
      rcases hcovered key hkey with hhas | hmem | ⟨f, hf, -⟩ | hlost
      · exact absurd hhas hmissing
      · exact absurd hmem List.not_mem_nil
      · exact absurd hf List.not_mem_nil
      · exact hlost
    have hlt := hlost.resolve_right (not_crashing h hfree)
    omega
  · exact .inr (.inl (List.mem_append_left [] hkey))

/-- A key is cached already. -/
theorem sound_skip (h : s.Sound up cache₀) {key : StateKey} {todo mine : List StateKey}
    {theirs : List ℕ}
    (hi : s.calls[i]? = some ⟨keys, rounds, failures, .claiming (key :: todo) mine theirs⟩)
    (hhas : s.space.cache.has key = true) :
    Sound up cache₀ ⟨s.space,
      s.calls.set i ⟨keys, rounds, failures, .claiming todo mine theirs⟩⟩ := by
  obtain ⟨known, hknown, hrounds, hcached, htodo, huncached, htheirs, hcovered⟩ := h.calls i _ hi
  refine sound_pass h hi (.inl ⟨rfl, rfl⟩) rfl (fun hc => hc.elim) (by rintro ⟨⟩) ?_
  refine ⟨known, by rwa [failedOthers_self], hrounds, hcached,
    fun key' hmem => htodo key' (List.mem_cons_of_mem key hmem), huncached,
    theirsOk_still hi htheirs rfl (fun _ => id) fun hc => hc.elim, fun key' hkey' => ?_⟩
  rcases hcovered key' hkey' with hold | hmem | hrest
  · exact .inl hold
  · rcases List.mem_cons.mp hmem with rfl | hmem
    · exact .inl hhas
    · exact .inr (.inl hmem)
  · exact .inr (.inr hrest)

/-- A key is not cached: its flight is looked for next. -/
theorem sound_look (h : s.Sound up cache₀) {key : StateKey} {todo mine : List StateKey}
    {theirs : List ℕ}
    (hi : s.calls[i]? = some ⟨keys, rounds, failures, .claiming (key :: todo) mine theirs⟩)
    (huncached : s.space.cache.has key = false) :
    Sound up cache₀ ⟨s.space,
      s.calls.set i ⟨keys, rounds, failures, .looking key todo mine theirs⟩⟩ := by
  obtain ⟨known, hknown, hrounds, hcached, htodo, hmine, htheirs, hcovered⟩ := h.calls i _ hi
  refine sound_pass h hi (.inl ⟨rfl, rfl⟩) rfl (fun hc => hc.elim) (by rintro ⟨⟩) ?_
  refine ⟨known, by rwa [failedOthers_self], hcached.resolve_right ?_, .inl huncached,
    fun key' hmem => htodo key' (List.mem_cons_of_mem key hmem), hmine,
    theirsOk_still hi htheirs rfl (fun _ => id) fun hc => hc.elim, hcovered⟩
  rintro ⟨hall, -⟩
  rw [hall key (htodo key List.mem_cons_self)] at huncached
  cases huncached

/-- Another call is fetching the key. -/
theorem sound_follow (h : s.Sound up cache₀) {key : StateKey} {todo mine : List StateKey}
    {theirs : List ℕ}
    (hi : s.calls[i]? = some ⟨keys, rounds, failures, .looking key todo mine theirs⟩) {f : ℕ}
    (hlookup : s.space.inFlight.lookup key = some f) :
    Sound up cache₀ ⟨s.space,
      s.calls.set i ⟨keys, rounds, failures, .claiming todo mine (theirs ++ [f])⟩⟩ := by
  obtain ⟨known, hknown, hrounds, -, htodo, hmine, htheirs, hcovered⟩ := h.calls i _ hi
  have hflight := (h.flights key f).mp hlookup
  refine sound_pass h hi (.inl ⟨rfl, rfl⟩) rfl (fun hc => hc.elim) (by rintro ⟨⟩) ?_
  dsimp only at hrounds
  refine ⟨known, by rwa [failedOthers_self], ?_, .inl hrounds, htodo, hmine, ?_, ?_⟩
  · dsimp only
    omega
  · have hold : TheirsOk s.space (Lost ⟨s.space, s.calls.set i ⟨keys, rounds, failures,
        .claiming todo mine (theirs ++ [f])⟩⟩ i known) theirs :=
      theirsOk_still hi htheirs rfl (fun _ => id) fun hc => hc.elim
    intro f' hf'
    rcases List.mem_append.mp hf' with hmem | hmem
    · exact hold f' hmem
    · rw [List.mem_singleton.mp hmem]
      exact ⟨_, hflight, by rintro ⟨⟩⟩
  · intro key' hkey'
    rcases hcovered key' hkey' with hhas | hmem | ⟨f', hf', hrest⟩ | hfalse
    · exact .inl hhas
    · rcases List.mem_cons.mp hmem with rfl | hmem
      · exact .inr (.inr (.inl ⟨f, List.mem_append_right theirs List.mem_cons_self, _, hflight, rfl⟩))
      · exact .inr (.inl hmem)
    · exact .inr (.inr (.inl ⟨f', List.mem_append_left [f] hf', hrest⟩))
    · exact hfalse.elim

/-- Nobody is: the call claims it. -/
theorem sound_claim (h : s.Sound up cache₀) {key : StateKey} {todo mine : List StateKey}
    {theirs : List ℕ}
    (hi : s.calls[i]? = some ⟨keys, rounds, failures, .looking key todo mine theirs⟩)
    (hlookup : s.space.inFlight.lookup key = none) :
    Sound up cache₀ ⟨{ s.space with
        inFlight := s.space.inFlight.insert key s.space.flights.length
        flights := s.space.flights ++ [⟨key, false⟩] },
      s.calls.set i ⟨keys, rounds, failures, .claiming todo (mine ++ [key]) theirs⟩⟩ := by
  obtain ⟨known, hknown, hrounds, hkey, htodo, hmine, htheirs, hcovered⟩ := h.calls i _ hi
  set space' : Airspace := { s.space with
    inFlight := s.space.inFlight.insert key s.space.flights.length
    flights := s.space.flights ++ [⟨key, false⟩] }
  have huncached : s.space.cache.has key = false := by
    refine hkey.resolve_right fun hsome => ?_
    rw [hlookup] at hsome
    cases hsome
  have hnew : key ∉ s.held := by
    rw [← h.inFlight key, hlookup]
    simp
  have hperm : (held ⟨space', s.calls.set i
      ⟨keys, rounds, failures, .claiming todo (mine ++ [key]) theirs⟩⟩).Perm (key :: s.held) := by
    have hset := flatMap_set_perm (·.phase.held)
      (⟨keys, rounds, failures, .claiming todo (mine ++ [key]) theirs⟩ : Resolve) hi
    simp only [Phase.held, List.append_assoc, List.singleton_append] at hset
    exact (List.perm_append_left_iff mine).mp hset
  have hlandedKept : ∀ (f : ℕ) (flight : Flight), s.space.flights[f]? = some flight →
      space'.flights[f]? = some flight := by
    intro f flight hget
    obtain ⟨hlt, -⟩ := List.getElem?_eq_some_iff.mp hget
    exact (List.getElem?_append_left hlt).trans hget
  refine sound_move h hi id (lock_relocked h hi (.inl ⟨rfl, rfl⟩))
    (hperm.nodup_iff.mpr (List.nodup_cons.mpr ⟨hnew, h.nodup⟩)) (fun key' => ?_)
    (lookup_started h.flights hlookup) (fun _ => id) (fun _ => .inl)
    (fun f flight hget => ⟨flight, hlandedKept f flight hget, rfl, .inl⟩) (.inl rfl)
    (fun hc => hc.elim) (by rintro ⟨⟩) ?_
  · rw [hperm.mem_iff, List.mem_cons, ← h.inFlight key', Map.lookup_insert_eq]
    by_cases hsame : key' = key <;> simp [hsame]
  · dsimp only at hrounds
    refine ⟨known, by rwa [failedOthers_self], ?_, .inl hrounds, htodo, ?_, ?_, ?_⟩
    · dsimp only
      omega
    · intro key' hmem
      rcases List.mem_append.mp hmem with hold | hlast
      · exact hmine key' hold
      · rw [List.mem_singleton.mp hlast]
        exact huncached
    · exact theirsOk_mono htheirs
        (fun f flight hget => ⟨flight, hlandedKept f flight hget, rfl, .inl⟩) (fun _ => id)
        (lost_self _ _ hi known fun hc => hc.elim)
    · intro key' hkey'
      rcases hcovered key' hkey' with hhas | hmem | ⟨f, hf, flight, hget, hrest⟩ | hfalse
      · exact .inl hhas
      · refine .inr (.inl ?_)
        simp only [List.mem_cons, List.mem_append] at hmem ⊢
        tauto
      · exact .inr (.inr (.inl ⟨f, hf, flight, hlandedKept f flight hget, hrest⟩))
      · exact hfalse.elim

/-- The call has looked at every key, none was missing, and it is done. -/
theorem sound_done (h : s.Sound up cache₀)
    (hi : s.calls[i]? = some ⟨keys, rounds, failures, .claiming [] [] []⟩) :
    Sound up cache₀ ⟨{ s.space with lock := none },
      s.calls.set i ⟨keys, rounds, failures, .ended .ok⟩⟩ := by
  obtain ⟨known, hknown, hrounds, -, -, -, -, hcovered⟩ := h.calls i _ hi
  refine sound_pass h hi (.inr (.inr ⟨rfl, rfl, rfl⟩)) rfl (fun hc => hc.elim) (by rintro ⟨⟩) ?_
  refine ⟨known, by rwa [failedOthers_self], hrounds, fun hne => absurd rfl hne,
    fun _ key hkey => ?_⟩
  rcases hcovered key hkey with hhas | hmem | ⟨f, hf, -⟩ | hfalse
  · exact hhas
  · exact absurd hmem List.not_mem_nil
  · exact absurd hf List.not_mem_nil
  · exact hfalse.elim

/-- The call has nothing to fetch, and others to wait for. -/
theorem sound_await (h : s.Sound up cache₀) {theirs : List ℕ} (hne : theirs ≠ [])
    (hi : s.calls[i]? = some ⟨keys, rounds, failures, .claiming [] [] theirs⟩) :
    Sound up cache₀ ⟨{ s.space with lock := none },
      s.calls.set i ⟨keys, rounds, failures, .waiting theirs⟩⟩ := by
  obtain ⟨known, hknown, -, hcached, -, -, htheirs, hcovered⟩ := h.calls i _ hi
  refine sound_pass h hi (.inr (.inr ⟨rfl, rfl, rfl⟩)) rfl (fun hc => hc.elim) (by rintro ⟨⟩) ?_
  exact ⟨known, by rwa [failedOthers_self], hne,
    hcached.resolve_right fun hall => hne hall.2.2,
    theirsOk_still hi htheirs rfl (fun _ => id) fun hc => hc.elim,
    covered_mono hcovered (fun f flight hget => ⟨flight, hget, rfl⟩) (fun _ => id) False.elim⟩

/-- The call goes on to fetch what it has claimed. -/
theorem sound_begin (h : s.Sound up cache₀) {mine : List StateKey} {theirs : List ℕ}
    (hne : mine ≠ [])
    (hi : s.calls[i]? = some ⟨keys, rounds, failures, .claiming [] mine theirs⟩) :
    Sound up cache₀ ⟨{ s.space with lock := none },
      s.calls.set i ⟨keys, rounds, failures, .fetching (.start batched mine) theirs⟩⟩ := by
  obtain ⟨known, hknown, -, hcached, -, hmine, htheirs, hcovered⟩ := h.calls i _ hi
  obtain ⟨hkeys, hok, -, -, hfailing⟩ := Fetching.start_spec batched hmine
  refine sound_pass h hi (.inr (.inr ⟨rfl, rfl, rfl⟩)) hkeys (fun hc => hc.elim) (by rintro ⟨⟩) ?_
  refine ⟨known, by rwa [failedOthers_self], hcached.resolve_right fun hall => hne hall.2.1, hok,
    fun hf => absurd hf hfailing,
    theirsOk_still hi htheirs rfl (fun _ => id) fun hc => hc.elim, ?_⟩
  rw [hkeys]
  exact hcovered

/-! ### Fetching and landing -/

/-- The fetch takes a step. -/
theorem sound_fetch (h : s.Sound up cache₀) {fetch : Fetching} {theirs : List ℕ}
    (hi : s.calls[i]? = some ⟨keys, rounds, failures, .fetching fetch theirs⟩) (response : Response)
    (j : ℕ) :
    Sound up cache₀ ⟨(fetch.step up response j s.space).2.1,
      s.calls.set i ⟨keys, rounds, failures ++ (fetch.step up response j s.space).2.2,
        .fetching (fetch.step up response j s.space).1 theirs⟩⟩ := by
  obtain ⟨known, hknown, hrounds, hfetch, hfailing, htheirs, hcovered⟩ := h.calls i _ hi
  have hnodup : fetch.keys.Nodup := (List.nodup_flatMap.mp h.nodup).1 _ (List.mem_of_getElem? hi)
  obtain ⟨hkeys, hstepped, hok, hbooked⟩ := Fetching.step_spec up response j s.space hnodup hfetch
  rcases hstep : fetch.step up response j s.space with ⟨fetch', space', failed⟩
  rw [hstep] at hkeys hstepped hok hbooked
  refine sound_keep h hi (.inl ⟨hstepped.lock, rfl⟩) hkeys hstepped.inFlight hstepped.flights
    hstepped.agrees hstepped.grown hstepped.own (fun hc => hc.elim) (by rintro ⟨⟩) ?_
  have hflights : ∀ (f : ℕ) (flight : Flight), s.space.flights[f]? = some flight →
      space'.flights[f]? = some flight := fun f flight hget => by rw [hstepped.flights]; exact hget
  refine ⟨known, by rwa [failedOthers_self], hrounds, hok, fun hf => ?_,
    theirsOk_still hi htheirs hstepped.flights hstepped.grown fun hc => hc.elim, ?_⟩
  · rcases hbooked.blamed hf with hold | hnew
    · exact fun hnil => hfailing hold (List.append_eq_nil_iff.mp hnil).1
    · exact fun hnil => hnew (List.append_eq_nil_iff.mp hnil).2
  · dsimp only
    rw [hkeys]
    exact covered_mono hcovered (fun f flight hget => ⟨flight, hflights f flight hget, rfl⟩)
      hstepped.grown id

/-- The fetch has ended, well or not. -/
theorem sound_finish (h : s.Sound up cache₀) {fetch : Fetching} {theirs : List ℕ}
    (hi : s.calls[i]? = some ⟨keys, rounds, failures, .fetching fetch theirs⟩) {verdict : Verdict}
    (hverdict : fetch.verdict = some verdict) :
    Sound up cache₀ ⟨s.space,
      s.calls.set i ⟨keys, rounds, failures, .descending verdict fetch.keys theirs⟩⟩ := by
  obtain ⟨known, hknown, hrounds, hfetch, hfailing, htheirs, hcovered⟩ := h.calls i _ hi
  obtain ⟨hok, hbad, -, -⟩ := Fetching.verdict_spec hfetch hverdict
  refine sound_pass h hi (.inl ⟨rfl, rfl⟩) rfl (fun hc => hc.elim) (by rintro ⟨⟩) ?_
  refine ⟨known, by rwa [failedOthers_self], hrounds, fun hne => hfailing (hbad hne),
    theirsOk_still hi htheirs rfl (fun _ => id) fun hc => hc.elim,
      fun hv => ⟨hok hv, fun key hkey => ?_⟩⟩
  rcases hcovered key hkey with hhas | hmem | hrest
  · exact .inl hhas
  · exact .inl (hok hv key hmem)
  · exact .inr (.inr hrest)

/-- `Landing::drop` takes the mutex. -/
theorem sound_descend (h : s.Sound up cache₀) {verdict : Verdict} {mine : List StateKey}
    {theirs : List ℕ}
    (hi : s.calls[i]? = some ⟨keys, rounds, failures, .descending verdict mine theirs⟩)
    (hfree : s.space.lock = none) :
    Sound up cache₀ ⟨{ s.space with lock := some i },
      s.calls.set i ⟨keys, rounds, failures, .landing verdict mine theirs⟩⟩ := by
  obtain ⟨known, hknown, hrounds, hfailing, htheirs, hok⟩ := h.calls i _ hi
  refine sound_pass h hi (.inr (.inl ⟨hfree, rfl, rfl⟩)) rfl (fun hc => hc.elim) (by rintro ⟨⟩) ?_
  exact ⟨known, by rwa [failedOthers_self], hrounds, hfailing,
    theirsOk_still hi htheirs rfl (fun _ => id) fun hc => hc.elim, hok⟩

/-- One flight lands: with its key cached, or by a call that has failed. -/
theorem sound_land (h : s.Sound up cache₀) {verdict : Verdict} {key : StateKey}
    {mine : List StateKey}
    {theirs : List ℕ} {f : ℕ}
    (hi : s.calls[i]? = some ⟨keys, rounds, failures, .landing verdict (key :: mine) theirs⟩)
    (hlookup : s.space.inFlight.lookup key = some f) :
    Sound up cache₀ ⟨{ s.space with
        inFlight := s.space.inFlight.erase key
        flights := s.space.flights.modify f ({ · with landed := true }) },
      s.calls.set i ⟨keys, rounds, failures, .notifying f verdict mine theirs⟩⟩ := by
  obtain ⟨known, hknown, hrounds, hfailing, htheirs, hok⟩ := h.calls i _ hi
  set space' : Airspace := { s.space with
    inFlight := s.space.inFlight.erase key
    flights := s.space.flights.modify f ({ · with landed := true }) }
  set call' : Resolve := ⟨keys, rounds, failures, .notifying f verdict mine theirs⟩
  have hflight := (h.flights key f).mp hlookup
  have hperm : (key :: held ⟨space', s.calls.set i call'⟩).Perm s.held := by
    have hset := flatMap_set_perm (·.phase.held) call' hi
    simp only [call', Phase.held, List.cons_append] at hset
    exact (List.perm_append_left_iff mine).mp (List.perm_middle.trans hset)
  obtain ⟨hnew, hnodup⟩ := List.nodup_cons.mp (hperm.nodup_iff.mpr h.nodup)
  have hmodify : ∀ f', space'.flights[f']?
      = if f' = f then some ⟨key, true⟩ else s.space.flights[f']? := getElem?_landed hflight
  have hlanded : ∀ (f' : ℕ) (flight : Flight), s.space.flights[f']? = some flight →
      ∃ flight', space'.flights[f']? = some flight' ∧ flight'.key = flight.key ∧
        (flight'.landed = true → flight.landed = true ∨ space'.cache.has flight.key = true ∨
          call'.phase.Crashing) := by
    intro f' flight hget
    rw [hmodify]
    by_cases hf : f' = f
    · subst hf
      rw [hflight] at hget
      obtain rfl := Option.some.inj hget
      refine ⟨⟨key, true⟩, if_pos rfl, rfl, fun _ => .inr ?_⟩
      by_cases hv : verdict = .ok
      · exact .inl ((hok hv).1 key List.mem_cons_self)
      · exact .inr hv
    · exact ⟨flight, by rw [if_neg hf, hget], rfl, .inl⟩
  refine sound_move h hi id (lock_relocked h hi (.inl ⟨rfl, rfl⟩)) hnodup (fun key' => ?_)
    (lookup_landed h.flights hlookup) (fun _ => id) (fun _ => .inl) hlanded (.inl rfl) .inl
    (by rintro ⟨⟩) ?_
  · rw [Map.lookup_erase_eq]
    have hmem := h.inFlight key'
    rw [← hperm.mem_iff, List.mem_cons] at hmem
    by_cases hsame : key' = key
    · subst hsame
      rw [if_pos rfl]
      simpa using hnew
    · rw [if_neg hsame, hmem]
      simp [hsame]
  · have hlost := lost_self call' space' hi known id
    refine ⟨known, by rwa [failedOthers_self], hrounds, hfailing,
      theirsOk_mono htheirs (fun f' flight hget => ?_) (fun _ => id) hlost, fun hv => ⟨?_, ?_⟩⟩
    · obtain ⟨flight', hget', hkey, hland⟩ := hlanded f' flight hget
      obtain ⟨hlt, -⟩ := List.getElem?_eq_some_iff.mp hi
      exact ⟨flight', hget', hkey, fun hl => (hland hl).imp_right fun hor => hor.imp_right fun hc =>
        .inr ⟨call', List.mem_of_getElem? (List.getElem?_set_self hlt), hc⟩⟩
    · exact fun key' hmem => (hok hv).1 key' (List.mem_cons_of_mem key hmem)
    · refine covered_mono (hok hv).2 (fun f' flight hget => ?_) (fun _ => id) id
      obtain ⟨flight', hget', hkey, -⟩ := hlanded f' flight hget
      exact ⟨flight', hget', hkey⟩

/-- Its sleepers have been woken. -/
theorem sound_notified (h : s.Sound up cache₀) {verdict : Verdict} {mine : List StateKey}
    {theirs : List ℕ} {f : ℕ}
    (hi : s.calls[i]? = some ⟨keys, rounds, failures, .notifying f verdict mine theirs⟩) :
    Sound up cache₀ ⟨s.space,
      s.calls.set i ⟨keys, rounds, failures, .landing verdict mine theirs⟩⟩ := by
  obtain ⟨known, hknown, hrounds, hfailing, htheirs, hok⟩ := h.calls i _ hi
  refine sound_pass h hi (.inl ⟨rfl, rfl⟩) rfl .inl (by rintro ⟨⟩) ?_
  exact ⟨known, by rwa [failedOthers_self], hrounds, hfailing,
    theirsOk_still hi htheirs rfl (fun _ => id) id, hok⟩

/-- Everything has landed, and the call returns, unwinds, is done or waits. -/
theorem sound_landed (h : s.Sound up cache₀) {verdict : Verdict} {theirs : List ℕ}
    (hi : s.calls[i]? = some ⟨keys, rounds, failures, .landing verdict [] theirs⟩) :
    Sound up cache₀ ⟨{ s.space with lock := none },
      s.calls.set i ⟨keys, rounds, failures, .afterLanding verdict theirs⟩⟩ := by
  obtain ⟨known, hknown, hrounds, hfailing, htheirs, hok⟩ := h.calls i _ hi
  dsimp only at hrounds
  by_cases hv : verdict = .ok
  · subst hv
    obtain ⟨-, hcovered⟩ := hok rfl
    have hcrash : (Phase.landing .ok [] theirs).Crashing →
        (Phase.afterLanding .ok theirs).Crashing := fun hc => absurd rfl hc
    cases theirs with
    | nil =>
      refine sound_pass h hi (.inr (.inr ⟨rfl, rfl, rfl⟩)) rfl (fun hc => absurd rfl hc)
        (by rintro ⟨⟩) ?_
      refine ⟨known, by rwa [failedOthers_self], ?_, fun hne => absurd rfl hne,
        fun _ key hkey => ?_⟩
      · dsimp only
        omega
      · rcases hcovered key hkey with hhas | hmem | ⟨f, hf, -⟩ | hfalse
        · exact hhas
        · exact absurd hmem List.not_mem_nil
        · exact absurd hf List.not_mem_nil
        · exact hfalse.elim
    | cons f theirs =>
      refine sound_pass h hi (.inr (.inr ⟨rfl, rfl, rfl⟩)) rfl (fun hc => absurd rfl hc)
        (by rintro ⟨⟩) ?_
      exact ⟨known, by rwa [failedOthers_self], List.cons_ne_nil f theirs, hrounds,
        theirsOk_still hi htheirs rfl (fun _ => id) hcrash,
        covered_mono hcovered (fun f flight hget => ⟨flight, hget, rfl⟩) (fun _ => id) False.elim⟩
  · have hended : Phase.afterLanding verdict theirs = .ended verdict := by
      cases verdict with
      | ok => exact absurd rfl hv
      | failed error => rfl
      | panicked => rfl
    have hfailed : Resolve.failed ⟨keys, rounds, failures, .ended verdict⟩ = true := by
      cases verdict with
      | ok => exact absurd rfl hv
      | failed error => rfl
      | panicked => rfl
    rw [hended]
    refine sound_pass h hi (.inr (.inr ⟨rfl, rfl, rfl⟩)) rfl (fun _ => .inr ⟨rfl, hfailed⟩)
      (by rintro ⟨⟩) ?_
    refine ⟨known, by rwa [failedOthers_self], ?_, hfailing, fun hok => absurd hok hv⟩
    dsimp only
    omega

/-! ### Waiting -/

/-- A flight has landed, and the call goes on to the next, or round. -/
theorem sound_arrived (h : s.Sound up cache₀) {f : ℕ} {rest : List ℕ}
    (hi : s.calls[i]? = some ⟨keys, rounds, failures, .waiting (f :: rest)⟩)
    (hlanded : (s.space.flights[f]?.map Flight.landed).getD false = true) :
    Sound up cache₀ ⟨s.space, s.calls.set i ⟨keys, rounds, failures, .await rest⟩⟩ := by
  obtain ⟨known, hknown, -, hrounds, htheirs, hcovered⟩ := h.calls i _ hi
  obtain ⟨flight, hget, hflight⟩ := htheirs f List.mem_cons_self
  rw [hget] at hlanded
  have hcrash : (Phase.waiting (f :: rest)).Crashing → (Phase.await rest).Crashing :=
    fun hc => hc.elim
  have hcoveredRest : Covered s.space (s.Lost i known) keys [] rest := by
    intro key hkey
    rcases hcovered key hkey with hhas | hmem | ⟨f', hf', flight', hget', hkey'⟩ | hlost
    · exact .inl hhas
    · exact .inr (.inl hmem)
    · rcases List.mem_cons.mp hf' with rfl | hf'
      · obtain rfl := Option.some.inj (hget'.symm.trans hget)
        rw [← hkey']
        exact (hflight hlanded).imp_right fun hlost => .inr (.inr hlost)
      · exact .inr (.inr (.inl ⟨f', hf', flight', hget', hkey'⟩))
    · exact .inr (.inr (.inr hlost))
  have hlost := lost_self ⟨keys, rounds, failures, .await rest⟩ s.space hi known hcrash
  have hcovered' : Covered s.space (Lost ⟨s.space, s.calls.set i
      ⟨keys, rounds, failures, .await rest⟩⟩ i known) keys [] rest :=
    covered_mono hcoveredRest (fun f flight hget => ⟨flight, hget, rfl⟩) (fun _ => id) hlost
  cases rest with
  | nil =>
    refine sound_pass h hi (.inl ⟨rfl, rfl⟩) rfl (fun hc => hc.elim) (by rintro ⟨⟩) ?_
    exact ⟨known, by rwa [failedOthers_self], hrounds, .inr hcovered'⟩
  | cons f' rest =>
    refine sound_pass h hi (.inl ⟨rfl, rfl⟩) rfl (fun hc => hc.elim) (by rintro ⟨⟩) ?_
    refine ⟨known, by rwa [failedOthers_self], List.cons_ne_nil f' rest, hrounds,
      theirsOk_mono (fun f'' hf'' => htheirs f'' (List.mem_cons_of_mem f hf''))
        (fun f flight hget => ⟨flight, hget, rfl, .inl⟩) (fun _ => id) hlost, hcovered'⟩

/-- Going to sleep on a flight, and waking up again, changes nothing else. -/
theorem sound_doze (h : s.Sound up cache₀) {theirs : List ℕ} {phase phase' : Phase}
    (hphase : phase = .waiting theirs ∨ phase = .sleeping theirs)
    (hphase' : phase' = .waiting theirs ∨ phase' = .sleeping theirs)
    (hi : s.calls[i]? = some ⟨keys, rounds, failures, phase⟩) :
    Sound up cache₀ ⟨s.space, s.calls.set i ⟨keys, rounds, failures, phase'⟩⟩ := by
  have hsame : ∀ phase : Phase, phase = .waiting theirs ∨ phase = .sleeping theirs →
      phase.locked = false ∧ phase.held = [] ∧ ¬ phase.Crashing ∧
        Resolve.failed ⟨keys, rounds, failures, phase⟩ = false ∧
        ∀ space lost known, PhaseOk space lost known ⟨keys, rounds, failures, phase⟩ ↔
          theirs ≠ [] ∧ rounds ≤ known + 1 ∧ TheirsOk space lost theirs ∧
            Covered space lost keys [] theirs := by
    rintro phase (rfl | rfl) <;> exact ⟨rfl, rfl, id, rfl, fun _ _ _ => Iff.rfl⟩
  obtain ⟨hlocked, hheld, hcrash, hfailed, hok⟩ := hsame phase hphase
  obtain ⟨hlocked', hheld', -, -, hok'⟩ := hsame phase' hphase'
  obtain ⟨known, hknown, hphaseOk⟩ := h.calls i _ hi
  obtain ⟨hne, hrounds, htheirs, hcovered⟩ := (hok _ _ _).mp hphaseOk
  refine sound_pass h hi (.inl ⟨rfl, hlocked'.trans hlocked.symm⟩) (hheld'.trans hheld.symm)
    (fun hc => absurd hc hcrash) (fun hf => by rw [hfailed] at hf; cases hf) ?_
  have hlost := lost_self ⟨keys, rounds, failures, phase'⟩ s.space hi known
    fun hc => absurd hc hcrash
  exact ⟨known, by rwa [failedOthers_self], (hok' _ _ _).mpr ⟨hne, hrounds,
    theirsOk_mono htheirs (fun f flight hget => ⟨flight, hget, rfl, .inl⟩) (fun _ => id) hlost,
    covered_mono hcovered (fun f flight hget => ⟨flight, hget, rfl⟩) (fun _ => id) hlost⟩⟩

/-! ### Any step -/

theorem wake_cases (f : ℕ) (call : Resolve) :
    call.wake f = call ∨ ∃ theirs, call.phase = .sleeping theirs ∧
      call.wake f = { call with phase := .waiting theirs } := by
  obtain ⟨keys, rounds, failures, phase⟩ := call
  cases phase with
  | sleeping theirs =>
    cases theirs with
    | nil => exact .inl rfl
    | cons f' theirs =>
      simp only [Resolve.wake]
      split
      · exact .inr ⟨_, rfl, rfl⟩
      · exact .inl rfl
  | _ => exact .inl rfl

/-- Waking a prefix of the sleepers, one after another. -/
theorem sound_wake_upto (h : s.Sound up cache₀) (f : ℕ) : ∀ n ≤ s.calls.length,
    Sound up cache₀ ⟨s.space, (s.calls.take n).map (·.wake f) ++ s.calls.drop n⟩
  | 0, _ => h
  | n + 1, hn => by
    have ih := sound_wake_upto h f n (by omega)
    have hlt : n < s.calls.length := by omega
    set woken : Resolves := ⟨s.space, (s.calls.take n).map (·.wake f) ++ s.calls.drop n⟩
    have hlength : ((s.calls.take n).map (·.wake f)).length = n := by
      rw [List.length_map, List.length_take]
      omega
    have hi : woken.calls[n]? = some s.calls[n] := by
      rw [List.getElem?_append_right (by omega), hlength, Nat.sub_self, List.getElem?_drop,
        Nat.add_zero, List.getElem?_eq_getElem hlt]
    have hnext : (s.calls.take (n + 1)).map (·.wake f) ++ s.calls.drop (n + 1)
        = woken.calls.set n (s.calls[n].wake f) := by
      rw [List.set_append_right _ _ (by omega), hlength, Nat.sub_self,
        List.take_succ_eq_append_getElem hlt,
        List.map_append, List.append_assoc, List.drop_eq_getElem_cons hlt, List.set_cons_zero]
      rfl
    rw [hnext]
    rcases wake_cases f s.calls[n] with hsame | ⟨theirs, hphase, hwake⟩
    · rw [hsame]
      have hset := set_self hi
      rw [hset]
      exact ih
    · rw [hwake]
      refine sound_doze ih (.inr hphase) (.inl rfl) hi

/-- Waking sleepers changes nothing else. -/
theorem sound_wake (h : s.Sound up cache₀) (f : ℕ) :
    Sound up cache₀ ⟨s.space, s.calls.map (·.wake f)⟩ := by
  have hall := sound_wake_upto h f s.calls.length le_rfl
  rwa [List.take_length, List.drop_length, List.append_nil] at hall

/-- One call takes its next step. -/
theorem sound_advance (batched : Bool) (h : s.Sound up cache₀) (hi : s.calls[i]? = some call)
    (j : ℕ)
    (response : Response) :
    Sound up cache₀ ⟨(call.advance up batched i j response s.space).2.1,
      s.calls.set i (call.advance up batched i j response s.space).1⟩ := by
  have hstay : Sound up cache₀ ⟨s.space, s.calls.set i call⟩ := by rw [set_self hi]; exact h
  obtain ⟨keys, rounds, failures, phase⟩ := call
  cases phase with
  | entering =>
    simp only [Resolve.advance]
    split
    · exact hstay
    · rename_i hfree
      exact sound_enter h hi hfree
  | claiming todo mine theirs =>
    cases todo with
    | nil =>
      cases mine with
      | nil =>
        cases theirs with
        | nil => exact sound_done h hi
        | cons f theirs => exact sound_await h (List.cons_ne_nil f theirs) hi
      | cons key mine => exact sound_begin h (List.cons_ne_nil key mine) hi
    | cons key todo =>
      simp only [Resolve.advance]
      cases hhas : s.space.cache.has key with
      | true => exact sound_skip h hi hhas
      | false => exact sound_look h hi hhas
  | looking key todo mine theirs =>
    simp only [Resolve.advance]
    split
    · rename_i f hlookup
      exact sound_follow h hi hlookup
    · rename_i hlookup
      exact sound_claim h hi hlookup
  | fetching fetch theirs =>
    simp only [Resolve.advance]
    split
    · rename_i verdict hverdict
      exact sound_finish h hi hverdict
    · exact sound_fetch h hi response j
  | descending verdict mine theirs =>
    simp only [Resolve.advance]
    split
    · exact hstay
    · rename_i hfree
      exact sound_descend h hi hfree
  | landing verdict mine theirs =>
    cases mine with
    | nil => exact sound_landed h hi
    | cons key mine =>
      have hheld : key ∈ s.held := mem_held hi List.mem_cons_self
      obtain ⟨f, hlookup⟩ := Option.isSome_iff_exists.mp ((h.inFlight key).mpr hheld)
      simp only [Resolve.advance, hlookup]
      exact sound_land h hi hlookup
  | notifying f verdict mine theirs => exact sound_notified h hi
  | waiting theirs =>
    cases theirs with
    | nil =>
      obtain ⟨known, hknown, hne, -⟩ := h.calls i _ hi
      exact absurd rfl hne
    | cons f rest =>
      simp only [Resolve.advance]
      split
      · rename_i hlanded
        exact sound_arrived h hi hlanded
      · exact sound_doze h (.inl rfl) (.inr rfl) hi
  | sleeping theirs => exact hstay
  | ended verdict => exact hstay

/-- STEP LEMMA: any step of any call keeps the calls sound. -/
theorem sound_step (h : s.Sound up cache₀) (event : ResolveEvent) :
    (s.step up batched event).Sound up cache₀ := by
  cases event with
  | run i j response =>
    simp only [Resolves.step]
    split
    · exact h
    · rename_i call hi
      have hadvance := sound_advance batched h hi j response
      rcases hmove : call.advance up batched i j response s.space with ⟨call', space', _ | f⟩ <;>
        rw [hmove] at hadvance
      · exact hadvance
      · exact sound_wake hadvance f
  | spurious i =>
    simp only [Resolves.step]
    split
    · rename_i hi
      exact sound_doze h (.inr rfl) (.inl rfl) hi
    · exact h

end Resolves

end Forkyard
