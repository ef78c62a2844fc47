import Forkyard.Fetch.SingleFlight
import Forkyard.Fetch.Work
import Forkyard.Schemes.Fair

/-! Every call of `resolve` ends, and tells the truth. As long as a call is under way some call is
    ready: the one inside the `in_flight` mutex, else one that wants the mutex or fetches, for a
    permit is out only with a request in flight; and if all the others wait there is nobody left
    they could be waiting for. Nobody sleeps on a flight that has landed, but for the moment before
    its call wakes them.

        mutex taken ──▶ its holder        permits gone ──▶ a request in flight
        mutex free ───▶ whoever wants it  all waiting ───▶ no flight in the air, whoever waits -/

namespace Forkyard

open Schemes

variable {up : Upstream String} {batched : Bool}

/-! ### Permits, keys and sleepers -/

/-- The keys a call still means to claim or to land. -/
def Phase.wanted : Phase → List StateKey
  | .claiming todo mine _ => todo ++ mine
  | .looking key todo mine _ => key :: (todo ++ mine)
  | phase => phase.held

def Phase.permit : Phase → Bool
  | .fetching fetch _ => fetch.permit
  | _ => false

/-- What one step of one call does to the permits, to the keys it deals with, and to who sleeps. -/
structure Tallied (call call' : Resolve) (space space' : Airspace) (notified : Option ℕ) :
    Prop where
  permits : space'.permits + call'.phase.permit.toNat = space.permits + call.phase.permit.toNat
  wanted : ∀ key ∈ call'.phase.wanted, key ∈ call.phase.wanted ∨ key ∈ call.keys
  failures : ∀ key ∈ call'.failures, key ∈ call.failures ∨ key ∈ call.phase.wanted
  landed : ∀ f, (space'.flights[f]?.map Flight.landed).getD false = true →
    (space.flights[f]?.map Flight.landed).getD false = true ∨
      ∃ verdict mine theirs, call'.phase = .notifying f verdict mine theirs
  asleep : ∀ f rest, call'.phase = .sleeping (f :: rest) →
    (space'.flights[f]?.map Flight.landed).getD false = true → call' = call
  notifies : ∀ f verdict mine theirs, call.phase = .notifying f verdict mine theirs →
    notified = some f

namespace Resolves

variable {cache₀ : ReadCache} {s : Resolves} {i : ℕ} {call : Resolve}

/-- A step that neither fetches nor lands, and ends awake. -/
theorem tallied_plain {call call' : Resolve} {space space' : Airspace} {notified : Option ℕ}
    (hpermits : space'.permits = space.permits) (hflights : space'.flights = space.flights)
    (hfailures : call'.failures = call.failures)
    (hpermit : call'.phase.permit = call.phase.permit)
    (hwanted : ∀ key ∈ call'.phase.wanted, key ∈ call.phase.wanted ∨ key ∈ call.keys)
    (hasleep : ∀ theirs, call'.phase ≠ .sleeping theirs)
    (hnotifies : ∀ f verdict mine theirs, call.phase = .notifying f verdict mine theirs →
      notified = some f) : Tallied call call' space space' notified := by
  refine ⟨by rw [hpermits, hpermit], hwanted, fun key hmem => .inl (hfailures ▸ hmem),
    fun f hlanded => .inl (hflights ▸ hlanded), fun f rest hphase => ?_, hnotifies⟩
  exact absurd hphase (hasleep (f :: rest))

theorem tallied_refl (call : Resolve) (space : Airspace)
    (h : ∀ f verdict mine theirs, call.phase ≠ .notifying f verdict mine theirs) :
    Tallied call call space space none :=
  ⟨rfl, fun _ => .inl, fun _ => .inl, fun _ => .inl, fun _ _ _ _ => rfl,
    fun f verdict mine theirs hphase => absurd hphase (h f verdict mine theirs)⟩

theorem await_permit (theirs : List ℕ) : (Phase.await theirs).permit = false ∧
    (Phase.await theirs).wanted = [] ∧ ∀ theirs', Phase.await theirs ≠ .sleeping theirs' := by
  cases theirs <;> exact ⟨rfl, rfl, by rintro _ ⟨⟩⟩

theorem afterLanding_permit (verdict : Verdict) (theirs : List ℕ) :
    (Phase.afterLanding verdict theirs).permit = false ∧
      (Phase.afterLanding verdict theirs).wanted = [] ∧
      ∀ theirs', Phase.afterLanding verdict theirs ≠ .sleeping theirs' := by
  cases verdict <;> cases theirs <;> exact ⟨rfl, rfl, by rintro _ ⟨⟩⟩

/-- STEP LEMMA of one call. -/
theorem tallied_advance (batched : Bool) (h : s.Sound up cache₀) (hi : s.calls[i]? = some call)
    (j : ℕ)
    (response : Response) :
    Tallied call (call.advance up batched i j response s.space).1 s.space
      (call.advance up batched i j response s.space).2.1
      (call.advance up batched i j response s.space).2.2 := by
  obtain ⟨keys, rounds, failures, phase⟩ := call
  cases phase with
  | entering =>
    simp only [Resolve.advance]
    split
    · exact tallied_refl _ _ (by rintro _ _ _ _ ⟨⟩)
    · refine tallied_plain rfl rfl rfl rfl (fun key hmem => .inr ?_) (by rintro _ ⟨⟩)
        (by rintro _ _ _ _ ⟨⟩)
      exact (List.append_nil keys) ▸ hmem
  | claiming todo mine theirs =>
    cases todo with
    | nil =>
      cases mine with
      | nil =>
        cases theirs with
        | nil =>
          exact tallied_plain rfl rfl rfl rfl (by rintro _ ⟨⟩) (by rintro _ ⟨⟩)
            (by rintro _ _ _ _ ⟨⟩)
        | cons f theirs =>
          exact tallied_plain rfl rfl rfl rfl (by rintro _ ⟨⟩) (by rintro _ ⟨⟩)
            (by rintro _ _ _ _ ⟨⟩)
      | cons key mine =>
        obtain ⟨known, -, -, -, -, hmine, -, -⟩ := h.calls i _ hi
        obtain ⟨hkeys, -, -, hpermit, -⟩ := Fetching.start_spec batched hmine
        refine tallied_plain rfl rfl rfl hpermit (fun key' hmem => .inl ?_) (by rintro _ ⟨⟩)
          (by rintro _ _ _ _ ⟨⟩)
        exact hkeys ▸ hmem
    | cons key todo =>
      simp only [Resolve.advance]
      split
      · exact tallied_plain rfl rfl rfl rfl (fun key' hmem => .inl (List.mem_cons_of_mem key hmem))
          (by rintro _ ⟨⟩) (by rintro _ _ _ _ ⟨⟩)
      · exact tallied_plain rfl rfl rfl rfl (fun key' => .inl) (by rintro _ ⟨⟩)
          (by rintro _ _ _ _ ⟨⟩)
  | looking key todo mine theirs =>
    simp only [Resolve.advance]
    split
    · exact tallied_plain rfl rfl rfl rfl (fun key' hmem => .inl (List.mem_cons_of_mem key hmem))
        (by rintro _ ⟨⟩) (by rintro _ _ _ _ ⟨⟩)
    · rename_i hlookup
      refine ⟨rfl, fun key' hmem => .inl ?_, fun key' => .inl, fun f hlanded => .inl ?_,
        by rintro _ _ ⟨⟩, by rintro _ _ _ _ ⟨⟩⟩
      · simp only [Phase.wanted, List.mem_append, List.mem_cons] at hmem ⊢
        tauto
      · rw [List.getElem?_append] at hlanded
        split at hlanded
        · exact hlanded
        · cases hnew : f - s.space.flights.length <;> simp [hnew] at hlanded
  | fetching fetch theirs =>
    obtain ⟨known, -, -, hfetch, -, -, -⟩ := h.calls i _ hi
    simp only [Resolve.advance]
    split
    · rename_i verdict hverdict
      obtain ⟨-, -, -, hpermit⟩ := Fetching.verdict_spec hfetch hverdict
      exact tallied_plain rfl rfl rfl hpermit.symm (fun key => .inl) (by rintro _ ⟨⟩)
        (by rintro _ _ _ _ ⟨⟩)
    · have hnodup : fetch.keys.Nodup :=
        (List.nodup_flatMap.mp h.nodup).1 _ (List.mem_of_getElem? hi)
      obtain ⟨hkeys, hstepped, -, hbooked⟩ :=
        Fetching.step_spec up response j s.space hnodup hfetch
      refine ⟨hbooked.permits, fun key hmem => .inl ?_, fun key hmem => ?_,
        fun f hlanded => .inl ?_,
        by rintro _ _ ⟨⟩, by rintro _ _ _ _ ⟨⟩⟩
      · have hmem' : key ∈ (fetch.step up response j s.space).1.keys := hmem
        rwa [hkeys] at hmem'
      · exact (List.mem_append.mp hmem).imp_right (hbooked.owned key)
      · exact hstepped.flights ▸ hlanded
  | descending verdict mine theirs =>
    simp only [Resolve.advance]
    split
    · exact tallied_refl _ _ (by rintro _ _ _ _ ⟨⟩)
    · exact tallied_plain rfl rfl rfl rfl (fun key => .inl) (by rintro _ ⟨⟩)
        (by rintro _ _ _ _ ⟨⟩)
  | landing verdict mine theirs =>
    cases mine with
    | nil =>
      obtain ⟨hpermit, hwanted, hawake⟩ := afterLanding_permit verdict theirs
      refine tallied_plain rfl rfl rfl hpermit (fun key hmem => ?_) hawake
        (by rintro _ _ _ _ ⟨⟩)
      exact absurd (hwanted ▸ hmem) List.not_mem_nil
    | cons key mine =>
      simp only [Resolve.advance]
      split
      · exact tallied_plain rfl rfl rfl rfl (fun key' hmem => .inl (List.mem_cons_of_mem key hmem))
          (by rintro _ ⟨⟩) (by rintro _ _ _ _ ⟨⟩)
      · rename_i f hlookup
        refine ⟨rfl, fun key' hmem => .inl (List.mem_cons_of_mem key hmem), fun key' => .inl,
          fun f' hlanded => ?_, by rintro _ _ ⟨⟩, by rintro _ _ _ _ ⟨⟩⟩
        by_cases hsame : f' = f
        · subst hsame
          exact .inr ⟨verdict, mine, theirs, rfl⟩
        · refine .inl ?_
          simpa [List.getElem?_modify, Ne.symm hsame] using hlanded
  | notifying f verdict mine theirs =>
    refine tallied_plain rfl rfl rfl rfl (fun key => .inl) (by rintro _ ⟨⟩) ?_
    rintro f' _ _ _ ⟨⟩
    rfl
  | waiting theirs =>
    cases theirs with
    | nil =>
      exact tallied_plain rfl rfl rfl rfl (by rintro _ ⟨⟩) (by rintro _ ⟨⟩) (by rintro _ _ _ _ ⟨⟩)
    | cons f rest =>
      simp only [Resolve.advance]
      split
      · obtain ⟨hpermit, hwanted, hawake⟩ := await_permit rest
        refine tallied_plain rfl rfl rfl hpermit (fun key hmem => ?_) hawake
          (by rintro _ _ _ _ ⟨⟩)
        exact absurd (hwanted ▸ hmem) List.not_mem_nil
      · rename_i hflying
        refine ⟨rfl, fun key => .inl, fun key => .inl, fun f' => .inl, ?_, by rintro _ _ _ _ ⟨⟩⟩
        rintro f' rest' hphase hlanded
        obtain ⟨rfl, rfl⟩ := List.cons.inj (Phase.sleeping.inj hphase)
        exact absurd hlanded hflying
  | sleeping theirs => exact tallied_refl _ _ (by rintro _ _ _ _ ⟨⟩)
  | ended verdict => exact tallied_refl _ _ (by rintro _ _ _ _ ⟨⟩)

/-! ### All calls -/

/-- Whoever sleeps on a flight that has landed is about to be woken. -/
def Woken (s : Resolves) : Prop := ∀ call ∈ s.calls, ∀ f rest, call.phase = .sleeping (f :: rest) →
  (s.space.flights[f]?.map Flight.landed).getD false = true →
    ∃ other ∈ s.calls, ∃ verdict mine theirs, other.phase = .notifying f verdict mine theirs

/-- INVARIANT of calls under way, besides what they know of the cache. -/
structure Running (up : Upstream String) (cache₀ : ReadCache) (maxInFlight : ℕ)
    (requests : List (List StateKey)) (s : Resolves) : Prop where
  sound : s.Sound up cache₀
  keys : s.calls.map (·.keys) = requests
  permits : s.space.permits + s.calls.countP (·.phase.permit) = max maxInFlight 1
  own : ∀ call ∈ s.calls, (∀ key ∈ call.phase.wanted, key ∈ call.keys) ∧
    ∀ key ∈ call.failures, key ∈ call.keys
  woken : s.Woken

variable {maxInFlight : ℕ} {requests : List (List StateKey)}

theorem running_start (cache₀ : ReadCache) (maxInFlight : ℕ) (requests : List (List StateKey)) :
    Running up cache₀ maxInFlight requests (start cache₀ maxInFlight requests) := by
  have hcall : ∀ call ∈ (start cache₀ maxInFlight requests).calls,
      call.phase = .entering ∧ call.failures = [] := by
    intro call hmem
    obtain ⟨keys, -, rfl⟩ := List.mem_map.mp hmem
    exact ⟨rfl, rfl⟩
  refine ⟨sound_start cache₀ maxInFlight requests, ?_, ?_, fun call hmem => ?_,
    fun call hmem f rest hphase => ?_⟩
  · exact (orderly_start up cache₀ maxInFlight requests).keys
  · have hnone : (start cache₀ maxInFlight requests).calls.countP (·.phase.permit) = 0 := by
      refine List.countP_eq_zero.mpr fun call hmem => ?_
      rw [(hcall call hmem).1]
      exact Bool.false_ne_true
    rw [hnone]
    rfl
  · obtain ⟨hphase, hfailures⟩ := hcall call hmem
    rw [hphase, hfailures]
    exact ⟨by rintro _ ⟨⟩, by rintro _ ⟨⟩⟩
  · rw [(hcall call hmem).1] at hphase
    cases hphase

/-- Moving one call on keeps the permits and whose keys are whose. -/
theorem tallied_set (h : Running up cache₀ maxInFlight requests s) (hi : s.calls[i]? = some call)
    {call' : Resolve} {space' : Airspace} {notified : Option ℕ} (hkeys : call'.keys = call.keys)
    (htally : Tallied call call' s.space space' notified) :
    space'.permits + (s.calls.set i call').countP (·.phase.permit) = max maxInFlight 1 ∧
      ∀ other ∈ s.calls.set i call', (∀ key ∈ other.phase.wanted, key ∈ other.keys) ∧
        ∀ key ∈ other.failures, key ∈ other.keys := by
  obtain ⟨hwanted, hfailures⟩ := h.own call (List.mem_of_getElem? hi)
  refine ⟨?_, fun other hmem => ?_⟩
  · have hcount := countP_set_add (fun call : Resolve => call.phase.permit) call' hi
    have hstep := htally.permits
    have hbefore := h.permits
    omega
  · rcases List.mem_or_eq_of_mem_set hmem with hold | rfl
    · exact h.own other hold
    · rw [hkeys]
      refine ⟨fun key hkey => ?_, fun key hkey => ?_⟩
      · exact (htally.wanted key hkey).elim (hwanted key) id
      · exact (htally.failures key hkey).elim (hfailures key) (hwanted key)

/-- Moving one call on lets nobody oversleep but those it is to wake. -/
theorem woken_set (h : s.Woken) (hi : s.calls[i]? = some call) {call' : Resolve}
    {space' : Airspace} {notified : Option ℕ} (htally : Tallied call call' s.space space' notified)
    {other : Resolve} (hother : other ∈ s.calls.set i call') {f : ℕ} {rest : List ℕ}
    (hphase : other.phase = .sleeping (f :: rest))
    (hlanded : (space'.flights[f]?.map Flight.landed).getD false = true) :
    notified = some f ∨ ∃ waker ∈ s.calls.set i call', ∃ verdict mine theirs,
      waker.phase = .notifying f verdict mine theirs := by
  obtain ⟨hlt, -⟩ := List.getElem?_eq_some_iff.mp hi
  have hself : call' ∈ s.calls.set i call' :=
    List.mem_of_getElem? (List.getElem?_set_self hlt)
  rcases htally.landed f hlanded with hbefore | hnow
  swap
  · exact .inr ⟨call', hself, hnow⟩
  have hold : other ∈ s.calls := by
    rcases List.mem_or_eq_of_mem_set hother with hold | rfl
    · exact hold
    · rw [htally.asleep f rest hphase hlanded]
      exact List.mem_of_getElem? hi
  obtain ⟨waker, hwaker, verdict, mine, theirs, hnotifying⟩ := h other hold f rest hphase hbefore
  obtain ⟨m, hm⟩ := List.mem_iff_getElem?.mp hwaker
  by_cases hmi : m = i
  · subst hmi
    obtain rfl := Option.some.inj (hi.symm.trans hm)
    exact .inl (htally.notifies f verdict mine theirs hnotifying)
  · refine .inr ⟨waker, List.mem_of_getElem? (i := m) ?_, verdict, mine, theirs, hnotifying⟩
    exact (List.getElem?_set_ne (Ne.symm hmi)).trans hm

theorem wake_tally (f : ℕ) (call : Resolve) : (call.wake f).phase.permit = call.phase.permit ∧
    (call.wake f).phase.wanted = call.phase.wanted := by
  rcases wake_cases f call with hsame | ⟨theirs, hphase, hwake⟩
  · rw [hsame]
    exact ⟨rfl, rfl⟩
  · rw [hwake, hphase]
    exact ⟨rfl, rfl⟩

/-- Who still sleeps was not to be woken. -/
theorem wake_asleep {f f' : ℕ} {rest : List ℕ} {call : Resolve}
    (h : (call.wake f).phase = .sleeping (f' :: rest)) :
    call.phase = .sleeping (f' :: rest) ∧ f' ≠ f := by
  obtain ⟨keys, rounds, failures, phase⟩ := call
  cases phase with
  | sleeping theirs =>
    cases theirs with
    | nil => cases h
    | cons f'' theirs =>
      simp only [Resolve.wake] at h
      split at h
      · cases h
      · rename_i hne
        obtain ⟨rfl, rfl⟩ := List.cons.inj (Phase.sleeping.inj h)
        exact ⟨rfl, hne⟩
  | _ => cases h

theorem running_woken (h : Running up cache₀ maxInFlight requests s) (event : ResolveEvent)
    (space' : Airspace) (calls : List Resolve) (f : ℕ)
    (hstep : s.step up batched event = ⟨space', calls.map (·.wake f)⟩)
    (hpermits : space'.permits + calls.countP (·.phase.permit) = max maxInFlight 1)
    (hown : ∀ other ∈ calls, (∀ key ∈ other.phase.wanted, key ∈ other.keys) ∧
      ∀ key ∈ other.failures, key ∈ other.keys)
    (hwoken : ∀ other ∈ calls, ∀ f' rest, other.phase = .sleeping (f' :: rest) →
      (space'.flights[f']?.map Flight.landed).getD false = true → some f = some f' ∨
        ∃ waker ∈ calls, ∃ verdict mine theirs, waker.phase = .notifying f' verdict mine theirs) :
    Running up cache₀ maxInFlight requests (s.step up batched event) := by
  refine ⟨sound_step h.sound event, (keys_step h.sound event).trans h.keys, ?_, ?_, ?_⟩ <;>
    rw [hstep]
  · have hsame : (calls.map (·.wake f)).countP (·.phase.permit)
        = calls.countP (·.phase.permit) := by
      rw [List.countP_map]
      exact List.countP_congr fun call _ => by rw [Function.comp_apply, (wake_tally f call).1]
    rw [hsame]
    exact hpermits
  · intro woken hmem
    obtain ⟨call, hcall, rfl⟩ := List.mem_map.mp hmem
    rw [(wake_tally f call).2, (wake_same f call).1, (wake_same f call).2.2]
    exact hown call hcall
  · intro woken hmem f' rest hphase hlanded
    obtain ⟨call, hcall, rfl⟩ := List.mem_map.mp hmem
    obtain ⟨hasleep, hne⟩ := wake_asleep hphase
    rcases hwoken call hcall f' rest hasleep hlanded with
      heq | ⟨waker, hwaker, verdict, mine, theirs, hnotifying⟩
    · exact absurd (Option.some.inj heq).symm hne
    · refine ⟨waker.wake f, List.mem_map_of_mem hwaker, verdict, mine, theirs, ?_⟩
      rcases wake_cases f waker with hsame | ⟨_, hsleeping, -⟩
      · rw [hsame]
        exact hnotifying
      · rw [hnotifying] at hsleeping
        cases hsleeping

/-- STEP LEMMA. -/
theorem running_step (h : Running up cache₀ maxInFlight requests s) (event : ResolveEvent) :
    Running up cache₀ maxInFlight requests (s.step up batched event) := by
  have hquiet : ∀ {i : ℕ} {call call' : Resolve} {space' : Airspace}, s.calls[i]? = some call →
      call'.keys = call.keys → Tallied call call' s.space space' none →
      s.step up batched event = ⟨space', s.calls.set i call'⟩ →
        Running up cache₀ maxInFlight requests (s.step up batched event) := by
    intro i call call' space' hi hkeys htally hstep
    obtain ⟨hpermits, hown⟩ := tallied_set h hi hkeys htally
    refine ⟨sound_step h.sound event, (keys_step h.sound event).trans h.keys, ?_, ?_, ?_⟩ <;>
      rw [hstep]
    · exact hpermits
    · exact hown
    · intro other hother f rest hphase hlanded
      exact (woken_set h.woken hi htally hother hphase hlanded).resolve_left (by rintro ⟨⟩)
  cases event with
  | run i j response =>
    cases hi : s.calls[i]? with
    | none =>
      have hsame : s.step up batched (.run i j response) = s := by
        simp only [Resolves.step, hi]
      rw [hsame]
      exact h
    | some call =>
      have htally := tallied_advance batched h.sound hi j response
      have hkeys := (books_advance batched h.sound hi j response).keys
      rcases hmove : call.advance up batched i j response s.space with ⟨call', space', _ | f⟩ <;>
        rw [hmove] at htally hkeys
      · refine hquiet hi hkeys htally ?_
        simp only [Resolves.step, hi, hmove]
      · obtain ⟨hpermits, hown⟩ := tallied_set h hi hkeys htally
        refine running_woken h _ space' (s.calls.set i call') f ?_
          hpermits hown fun other hother f' rest hphase hlanded =>
            woken_set h.woken hi htally hother hphase hlanded
        simp only [Resolves.step, hi, hmove]
  | spurious i =>
    cases hi : s.calls[i]? with
    | none =>
      have hsame : s.step up batched (.spurious i) = s := by
        simp only [Resolves.step, hi]
      rw [hsame]
      exact h
    | some call =>
      obtain ⟨keys, rounds, failures, phase⟩ := call
      cases phase with
      | sleeping theirs =>
        have hkeys : (Resolve.mk keys rounds failures (.waiting theirs)).keys = keys := rfl
        have htally : Tallied ⟨keys, rounds, failures, .sleeping theirs⟩
            ⟨keys, rounds, failures, .waiting theirs⟩ s.space s.space none :=
          tallied_plain rfl rfl rfl rfl (fun key => .inl) (by rintro _ ⟨⟩) (by rintro _ _ _ _ ⟨⟩)
        refine hquiet hi hkeys htally ?_
        simp only [Resolves.step, hi]
      | _ =>
        have hsame : s.step up batched (.spurious i) = s := by
          simp only [Resolves.step, hi]
        rw [hsame]
        exact h

/-! ### The work of all calls -/

def work (limit : ℕ) (s : Resolves) : ℕ := (s.calls.map (·.work limit)).sum

theorem work_woken (limit f : ℕ) (space : Airspace) (calls : List Resolve) :
    work limit ⟨space, calls.map (·.wake f)⟩ = work limit ⟨space, calls⟩ := by
  simp only [work, List.map_map, Function.comp_def, Resolve.wake_work]

theorem run_work (up : Upstream String) (batched : Bool) (limit j : ℕ) (response : Response)
    (hi : s.calls[i]? = some call) :
    work limit (s.step up batched (.run i j response)) + call.work limit
      = work limit s + (call.advance up batched i j response s.space).1.work limit := by
  rcases hmove : call.advance up batched i j response s.space with ⟨call', space', _ | f⟩ <;>
    simp only [Resolves.step, hi, hmove]
  · exact sum_map_set (fun call : Resolve => call.work limit) call' hi
  · rw [work_woken]
    exact sum_map_set (fun call : Resolve => call.work limit) call' hi

/-- A call about to begin a round has one left to begin. -/
theorem room (h : s.Sound up cache₀) (hi : s.calls[i]? = some call)
    (hphase : call.phase = .entering) : call.rounds < s.calls.length + 1 := by
  obtain ⟨known, hknown, hok⟩ := h.calls i call hi
  obtain ⟨keys, rounds, failures, phase⟩ := call
  obtain rfl : phase = .entering := hphase
  have hrounds : rounds ≤ known + 1 := hok.1
  obtain ⟨hlt, -⟩ := List.getElem?_eq_some_iff.mp hi
  have hothers : s.failedOthers i ≤ (s.calls.eraseIdx i).length := List.countP_le_length
  rw [List.length_eraseIdx_of_lt hlt] at hothers
  dsimp only
  omega

/-- How many rounds a call has begun. -/
theorem rounds_le (h : s.Sound up cache₀) (hi : s.calls[i]? = some call) :
    call.rounds ≤ s.failedOthers i + 2 := by
  obtain ⟨known, hknown, hok⟩ := h.calls i call hi
  suffices hrounds : call.rounds ≤ known + 2 by omega
  obtain ⟨keys, rounds, failures, phase⟩ := call
  cases phase with
  | claiming todo mine theirs => exact hok.1
  | ended verdict => exact hok.1
  | waiting theirs => exact Nat.le_succ_of_le hok.2.1
  | sleeping theirs => exact Nat.le_succ_of_le hok.2.1
  | _ => exact Nat.le_succ_of_le hok.1

/-- The call's `j`-th thread can go on. -/
def Helps (a : ℕ × ℕ) (s : Resolves) : Prop :=
  ∃ call, s.calls[a.1]? = some call ∧ call.phase.Ready s.space a.2

/-- STEP LEMMA: a turn of a thread that can go on takes work away. -/
theorem work_lower (h : s.Sound up cache₀) {a : ℕ × ℕ} (hhelps : s.Helps a)
    (response : Response) : work (s.calls.length + 1) (s.step up batched (.run a.1 a.2 response))
      < work (s.calls.length + 1) s := by
  obtain ⟨call, hi, hready⟩ := hhelps
  have hsum := run_work up batched (s.calls.length + 1) a.2 response hi
  have hlower := Resolve.advance_work up batched a.1 response
    (room h hi) hready
  omega

/-- A call waiting for a flight goes to sleep, or one that sleeps wakes for no reason. -/
structure Dozes (s s' : Resolves) : Prop where
  space : s'.space = s.space
  others : ∃ i call theirs phase, s.calls[i]? = some call ∧
    s'.calls = s.calls.set i { call with phase := phase } ∧
    ((∃ f rest, theirs = f :: rest ∧ (s.space.flights[f]?.map Flight.landed).getD false = false ∧
        call.phase = .waiting theirs ∧ phase = .sleeping theirs) ∨
      call.phase = .sleeping theirs ∧ phase = .waiting theirs)

/-- Any other turn changes nothing, or who is asleep. -/
theorem step_idle (up : Upstream String) (batched : Bool) (event : ResolveEvent)
    (h : ∀ i j response, event = .run i j response → ¬ s.Helps (i, j)) :
    s.step up batched event = s ∨ s.Dozes (s.step up batched event) := by
  cases event with
  | run i j response =>
    cases hi : s.calls[i]? with
    | none => exact .inl (by simp only [Resolves.step, hi])
    | some call =>
      have hready : ¬ call.phase.Ready s.space j := fun hready =>
        h i j response rfl ⟨call, hi, hready⟩
      rcases Resolve.advance_idle up batched i response hready with
        hmove | ⟨f, rest, hphase, hflying, hmove⟩
      · left
        simp only [Resolves.step, hi, hmove]
        rw [set_self hi]
      · right
        simp only [Resolves.step, hi, hmove]
        exact ⟨rfl, i, call, f :: rest, _, hi, rfl, .inl ⟨f, rest, rfl, hflying, hphase, rfl⟩⟩
  | spurious i =>
    cases hi : s.calls[i]? with
    | none => exact .inl (by simp only [Resolves.step, hi])
    | some call =>
      obtain ⟨keys, rounds, failures, phase⟩ := call
      cases phase with
      | sleeping theirs =>
        right
        simp only [Resolves.step, hi]
        exact ⟨rfl, i, _, theirs, _, hi, rfl, .inr ⟨rfl, rfl⟩⟩
      | _ => exact .inl (by simp only [Resolves.step, hi])

theorem dozes_work {s' : Resolves} (h : s.Dozes s') (limit : ℕ) : work limit s' = work limit s := by
  obtain ⟨-, i, call, theirs, phase, hi, hcalls, hphase⟩ := h
  have hsum := sum_map_set (fun call : Resolve => call.work limit)
    { call with phase := phase } hi
  have hsame : Resolve.work limit { call with phase := phase } = call.work limit := by
    rcases hphase with ⟨f, rest, -, -, hbefore, hafter⟩ | ⟨hbefore, hafter⟩ <;>
      rw [Resolve.work, Resolve.work, hbefore, hafter] <;> rfl
  simp only [work, hcalls]
  omega

theorem dozes_helps {s' : Resolves} (h : s.Dozes s') {a : ℕ × ℕ} (hhelps : s.Helps a) :
    s'.Helps a := by
  obtain ⟨hspace, i, call, theirs, phase, hi, hcalls, hphase⟩ := h
  obtain ⟨helper, ha, hready⟩ := hhelps
  have hne : i ≠ a.1 := by
    intro heq
    obtain rfl := Option.some.inj ((heq ▸ hi).symm.trans ha)
    rcases hphase with ⟨f, rest, rfl, hflying, hbefore, -⟩ | ⟨hbefore, -⟩ <;> rw [hbefore] at hready
    · have hlanded : (s.space.flights[f]?.map Flight.landed).getD false = true := hready
      rw [hflying] at hlanded
      cases hlanded
    · exact hready
  exact ⟨helper, by rw [hcalls, List.getElem?_set_ne hne, ha], hspace ▸ hready⟩

/-- STEP LEMMA: no step adds work, and one that takes none leaves every helper ready. -/
theorem work_step (batched : Bool) (h : s.Sound up cache₀) (event : ResolveEvent) :
    work (s.calls.length + 1) (s.step up batched event) < work (s.calls.length + 1) s ∨
      work (s.calls.length + 1) (s.step up batched event) = work (s.calls.length + 1) s ∧
        ∀ a, s.Helps a → (s.step up batched event).Helps a := by
  by_cases hhelps : ∃ i j response, event = .run i j response ∧ s.Helps (i, j)
  · obtain ⟨i, j, response, rfl, hhelps⟩ := hhelps
    exact .inl (work_lower h hhelps response)
  · have hidle := step_idle up batched event
      fun i j response heq hh => hhelps ⟨i, j, response, heq, hh⟩
    rcases hidle with hsame | hdozes
    · rw [hsame]
      exact .inr ⟨rfl, fun _ => id⟩
    · exact .inr ⟨dozes_work hdozes _, fun _ => dozes_helps hdozes⟩

/-! ### Somebody can always go on -/

/-- The threads there may ever be: a call's own, and one for each of its keys. -/
def Threads (requests : List (List StateKey)) (a : ℕ × ℕ) : Prop :=
  ∃ keys, requests[a.1]? = some keys ∧ a.2 < max keys.length 1

theorem thread_of (h : Running up cache₀ maxInFlight requests s) (hi : s.calls[i]? = some call)
    {j : ℕ} (hj : j < max call.keys.length 1) : Threads requests (i, j) := by
  refine ⟨call.keys, ?_, hj⟩
  rw [← h.keys, List.getElem?_map, hi]
  rfl

/-- A fetch goes on, or the request that has its permit does. -/
theorem fetch_helps (h : Running up cache₀ maxInFlight requests s) (hi : s.calls[i]? = some call)
    {fetch : Fetching} {theirs : List ℕ} (hphase : call.phase = .fetching fetch theirs) :
    ∃ a, Threads requests a ∧ s.Helps a := by
  have hfirst : ∀ call : Resolve, 0 < max call.keys.length 1 := fun call => by omega
  by_cases hready : fetch.Ready s.space.permits 0
  · exact ⟨(i, 0), thread_of h hi (hfirst call), call, hi, by rw [hphase]; exact hready⟩
  cases fetch with
  | reads threads =>
    simp only [Fetching.Ready, not_or, not_forall] at hready
    obtain ⟨thread, hthread, hnone⟩ := hready.1
    obtain ⟨j, hj⟩ := List.mem_iff_getElem?.mp hthread
    have hunread : thread.2.verdict = none := by simpa using hnone
    refine ⟨(i, j), thread_of h hi ?_, call, hi, by rw [hphase]; exact .inr ⟨thread, hj, hunread⟩⟩
    -- no more threads than keys asked for
    have hheld : call.phase.held.Nodup :=
      (List.nodup_flatMap.mp h.sound.nodup).1 _ (List.mem_of_getElem? hi)
    have hown := (h.own call (List.mem_of_getElem? hi)).1
    rw [hphase] at hheld hown
    have hsubset : (threads.map Prod.fst) ⊆ call.keys := fun key hkey => hown key hkey
    have hlength : (threads.map Prod.fst).length ≤ call.keys.length :=
      (List.subperm_of_subset hheld hsubset).length_le
    obtain ⟨hlt, -⟩ := List.getElem?_eq_some_iff.mp hj
    rw [List.length_map] at hlength
    omega
  | batched keys attempt stage =>
    have hgone : s.space.permits = 0 := by
      cases stage with
      | acquiring batch hashes => exact not_not.mp hready
      | _ => exact absurd trivial hready
    have hpermits := h.permits
    have hout : 0 < s.calls.countP (·.phase.permit) := by omega
    obtain ⟨other, hother, hpermit⟩ := List.countP_pos_iff.mp hout
    obtain ⟨m, hm⟩ := List.mem_iff_getElem?.mp hother
    refine ⟨(m, 0), thread_of h hm (hfirst other), other, hm, ?_⟩
    obtain ⟨keys', rounds, failures, phase⟩ := other
    cases phase with
    | fetching fetch theirs =>
      cases fetch with
      | reads threads => cases hpermit
      | batched keys'' attempt' stage' =>
        cases stage' with
        | sending batch hashes => exact trivial
        | receiving batch hashes => exact trivial
        | _ => cases hpermit
    | _ => cases hpermit

/-- Nobody is inside a free mutex. -/
theorem unlocked_of_free (h : s.Sound up cache₀) (hfree : s.space.lock = none) :
    ∀ call ∈ s.calls, call.phase.locked = false := by
  intro call hmem
  obtain ⟨i, hi⟩ := List.mem_iff_getElem?.mp hmem
  refine Bool.eq_false_iff.mpr fun hlocked => ?_
  have hheld := (h.lock i).mpr ⟨call, hi, hlocked⟩
  rw [hfree] at hheld
  cases hheld

/-- Where nobody holds a key, no flight is in the air. -/
theorem landed_of_resting (h : s.Sound up cache₀) (hresting : ∀ call ∈ s.calls, call.phase.held = [])
    {f : ℕ} {flight : Flight} (hget : s.space.flights[f]? = some flight) :
    flight.landed = true := by
  obtain ⟨key, landed⟩ := flight
  refine Bool.not_eq_false _ ▸ fun hflying => ?_
  dsimp only at hflying
  have hlookup := (h.flights key f).mpr (by rw [hget, hflying])
  have hheld := (h.inFlight key).mp (by rw [hlookup]; rfl)
  obtain ⟨call, hmem, hkey⟩ := List.mem_flatMap.mp hheld
  rw [hresting call hmem] at hkey
  cases hkey

/-- As long as a call is under way some thread can go on. -/
theorem somebody_helps (h : Running up cache₀ maxInFlight requests s) (hunended : ¬ s.Ended) :
    ∃ a, Threads requests a ∧ s.Helps a := by
  have hfirst : ∀ {i : ℕ} {call : Resolve}, s.calls[i]? = some call →
      call.phase.Ready s.space 0 → ∃ a, Threads requests a ∧ s.Helps a := fun {i call} hi hready =>
    ⟨(i, 0), thread_of h hi (by omega), call, hi, hready⟩
  cases hlock : s.space.lock with
  | some holder =>
    obtain ⟨call, hi, hlocked⟩ := (h.sound.lock holder).mp hlock
    refine hfirst hi ?_
    obtain ⟨keys, rounds, failures, phase⟩ := call
    cases phase with
    | claiming todo mine theirs => exact trivial
    | looking key todo mine theirs => exact trivial
    | landing verdict mine theirs => exact trivial
    | notifying f verdict mine theirs => exact trivial
    | _ => cases hlocked
  | none =>
    by_contra hnobody
    have hunlocked := unlocked_of_free h.sound hlock
    have hresting : ∀ call ∈ s.calls, call.phase.held = [] := by
      intro call hmem
      obtain ⟨i, hi⟩ := List.mem_iff_getElem?.mp hmem
      have hlocked := hunlocked call hmem
      obtain ⟨keys, rounds, failures, phase⟩ := call
      cases phase with
      | fetching fetch theirs => exact absurd (fetch_helps h hi rfl) hnobody
      | descending verdict mine theirs => exact absurd (hfirst hi hlock) hnobody
      | claiming todo mine theirs => cases hlocked
      | looking key todo mine theirs => cases hlocked
      | landing verdict mine theirs => cases hlocked
      | notifying f verdict mine theirs => cases hlocked
      | _ => rfl
    refine hunended fun call hmem => ?_
    obtain ⟨i, hi⟩ := List.mem_iff_getElem?.mp hmem
    have hlocked := hunlocked call hmem
    obtain ⟨keys, rounds, failures, phase⟩ := call
    cases phase with
    | ended verdict => exact ⟨verdict, rfl⟩
    | entering => exact absurd (hfirst hi hlock) hnobody
    | fetching fetch theirs => exact absurd (fetch_helps h hi rfl) hnobody
    | descending verdict mine theirs => exact absurd (hfirst hi hlock) hnobody
    | waiting theirs =>
      refine absurd (hfirst hi ?_) hnobody
      obtain ⟨known, -, hne, -, htheirs, -⟩ := h.sound.calls i _ hi
      obtain ⟨f, rest, rfl⟩ := List.exists_cons_of_ne_nil hne
      obtain ⟨flight, hget, -⟩ := htheirs f List.mem_cons_self
      have hready : (s.space.flights[f]?.map Flight.landed).getD false = true := by
        rw [hget]
        exact landed_of_resting h.sound hresting hget
      exact hready
    | sleeping theirs =>
      obtain ⟨known, -, hne, -, htheirs, -⟩ := h.sound.calls i _ hi
      obtain ⟨f, rest, rfl⟩ := List.exists_cons_of_ne_nil hne
      obtain ⟨flight, hget, -⟩ := htheirs f List.mem_cons_self
      obtain ⟨waker, hwaker, verdict, mine, theirs, hnotifying⟩ := h.woken _ hmem f rest rfl (by
        rw [hget]
        exact landed_of_resting h.sound hresting hget)
      have hfree := hunlocked waker hwaker
      rw [hnotifying] at hfree
      cases hfree
    | _ => cases hlocked

/-! ### Whole schedules -/

/-- The `j`-th thread of the `i`-th call takes its turn, whatever upstream does. -/
def Turn (a : ℕ × ℕ) (event : ResolveEvent) : Prop := ∃ response, event = .run a.1 a.2 response

/-- The calls after `n` steps of a schedule. -/
def moment {E : Type} [ToString E] (source : Source E) (cache₀ : ReadCache) (maxInFlight : ℕ)
    (requests : List (List StateKey)) (schedule : ℕ → ResolveEvent) (n : ℕ) : Resolves :=
  after (Resolves.step source.upstream source.batch.isSome) (start cache₀ maxInFlight requests)
    schedule n

/-- RUN LEMMA. -/
theorem running_moment {E : Type} [ToString E] (source : Source E) (cache₀ : ReadCache)
    (maxInFlight : ℕ) (requests : List (List StateKey)) (schedule : ℕ → ResolveEvent) (n : ℕ) :
    Running source.upstream cache₀ maxInFlight requests
      (moment source cache₀ maxInFlight requests schedule n) :=
  after_inv (P := Running source.upstream cache₀ maxInFlight requests)
    (fun _ event h => running_step h event) (running_start cache₀ maxInFlight requests) schedule n

/-- In a fair schedule all calls end. -/
theorem moment_ended {E : Type} [ToString E] (source : Source E) (cache₀ : ReadCache)
    (maxInFlight : ℕ) (requests : List (List StateKey)) (schedule : ℕ → ResolveEvent)
    (hfair : Fair Turn (Threads requests) schedule) :
    ∃ n, (moment source cache₀ maxInFlight requests schedule n).Ended := by
  have hlength : ∀ {s : Resolves}, Running source.upstream cache₀ maxInFlight requests s →
      s.calls.length = requests.length := fun h => by rw [← h.keys, List.length_map]
  refine fair_done hfair (P := Running source.upstream cache₀ maxInFlight requests)
    (μ := work (requests.length + 1))
    (fun _ event h => running_step h event) (fun s event h => ?_)
    (fun s h hunended => somebody_helps h hunended) ?_ (fun s event a h hhelps hsame => ?_)
    (running_start cache₀ maxInFlight requests)
  · rw [← hlength h]
    exact (work_step source.batch.isSome h.sound event).elim Nat.le_of_lt fun hsame => hsame.1.le
  · rintro s event a h hhelps ⟨response, rfl⟩
    rw [← hlength h]
    exact work_lower h.sound hhelps response
  · rw [← hlength h] at hsame
    rcases work_step source.batch.isSome h.sound event with hlower | ⟨-, hkeep⟩
    · omega
    · exact hkeep a hhelps

/-- EXACT: whatever the calls, their keys, their fetches' fates and their interleaving, all calls
    end if every thread gets its turn; and at every moment each flight in the air is held by a call
    under way, no call has begun more than two rounds more than other calls have failed, a call that
    ended well left upstream's value cached for every key, and one that did not had a fetch of its
    own fail. -/
theorem resolve_ends {E : Type} [ToString E] (source : Source E) (cache₀ : ReadCache)
    (hcache : cache₀.Agrees source.upstream) (maxInFlight : ℕ) (requests : List (List StateKey))
    (schedule : ℕ → ResolveEvent) :
    (Fair Turn (Threads requests) schedule →
      ∃ n, (moment source cache₀ maxInFlight requests schedule n).Ended) ∧
    ∀ n, let s := moment source cache₀ maxInFlight requests schedule n
      (∀ (f : ℕ) (flight : Flight), s.space.flights[f]? = some flight → flight.landed = false →
        ∃ call ∈ s.calls, flight.key ∈ call.phase.held) ∧
      ∀ i call, s.calls[i]? = some call → call.rounds ≤ s.failedOthers i + 2 ∧
        ∀ verdict, call.phase = .ended verdict →
          (verdict = .ok → ∀ key ∈ call.keys, s.space.cache.Serves source.upstream key) ∧
          (verdict ≠ .ok → ∃ key ∈ call.keys, key ∈ call.failures) := by
  refine ⟨moment_ended source cache₀ maxInFlight requests schedule, fun n => ?_⟩
  intro s
  have hrunning : Running source.upstream cache₀ maxInFlight requests s :=
    running_moment source cache₀ maxInFlight requests schedule n
  have hsound := hrunning.sound
  refine ⟨?_, fun i call hi => ⟨?_, fun verdict hended => ?_⟩⟩
  · rintro f ⟨key, landed⟩ hget hflying
    obtain rfl : landed = false := hflying
    have hlookup := (hsound.flights key f).mpr hget
    have hheld := (hsound.inFlight key).mp (by rw [hlookup]; rfl)
    exact List.mem_flatMap.mp hheld
  · exact rounds_le hsound hi
  · have hown := (hrunning.own call (List.mem_of_getElem? hi)).2
    obtain ⟨known, -, hok⟩ := hsound.calls i call hi
    obtain ⟨keys, rounds, failures, phase⟩ := call
    obtain rfl : phase = .ended verdict := hended
    obtain ⟨-, hfailing, hcached⟩ := hok
    refine ⟨fun hv key hkey => ?_, fun hv => ?_⟩
    · exact ReadCache.serves_of_has (hsound.agrees hcache) (hcached hv key hkey)
    · obtain ⟨key, failures', rfl⟩ := List.exists_cons_of_ne_nil (hfailing hv)
      exact ⟨key, hown key List.mem_cons_self, List.mem_cons_self⟩

/-! ### Two calls for one account, taking turns -/

def vacantSource : Source String := ⟨.vacant "missing", none⟩

def takingTurns (n : ℕ) : ResolveEvent := .run (n % 2) 0 .answer

theorem takingTurns_fair : Fair Turn (Threads [[.account 1], [.account 1]]) takingTurns := by
  rintro ⟨i, j⟩ ⟨keys, hkeys, hj⟩ n
  obtain ⟨hi, hget⟩ := List.getElem?_eq_some_iff.mp hkeys
  have hi' : i < 2 := hi
  have hlength : keys.length = 1 := by
    rw [← hget]
    interval_cases i <;> rfl
  obtain rfl : j = 0 := by
    dsimp only at hj
    omega
  refine ⟨2 * n + i, by omega, .answer, ?_⟩
  have hmod : (2 * n + i) % 2 = i := by omega
  rw [takingTurns, hmod]

/-- Both end, after two rounds at most. -/
theorem resolve_ends_pair :
    ∃ n, let s := moment vacantSource .empty 1 [[.account 1], [.account 1]] takingTurns n
      s.Ended ∧ ∀ i call, s.calls[i]? = some call → call.rounds ≤ s.failedOthers i + 2 := by
  obtain ⟨hends, htruth⟩ := resolve_ends vacantSource .empty (ReadCache.agrees_empty _) 1
    [[.account 1], [.account 1]] takingTurns
  obtain ⟨n, hended⟩ := hends takingTurns_fair
  exact ⟨n, hended, fun i call hi => ((htruth n).2 i call hi).1⟩

end Resolves

end Forkyard
