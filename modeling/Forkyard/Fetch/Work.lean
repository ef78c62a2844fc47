import Forkyard.Fetch.Flights

/-! The work left of a call of `resolve`: the rounds it may still begin, each worth more than a
    whole round costs, and what is left of the round it is in. A turn of a call that is ready takes
    some of it away, and a turn of one that is not takes nothing and adds nothing.

        entering   claiming     looking      fetching     descending   landing   waiting, sleeping
           0     18t+16m+f+46  (one less)  2m+f+4+fetch    2m+f+3       2m+f+2         f+1

        t keys to do, m of mine, f flights of theirs -/

namespace Forkyard

open Schemes

/-! ### The work of a fetch -/

def Stage.work (keys : List StateKey) : Stage → ℕ
  | .checking => 2 * keys.length + 5
  | .acquiring batch hashes => 2 * (batch.length + hashes.length) + 4
  | .sending batch hashes => 2 * (batch.length + hashes.length) + 3
  | .receiving batch hashes => 2 * (batch.length + hashes.length) + 2
  | .hashing hashes => 2 * hashes.length + 1
  | .asking _ hashes => 2 * hashes.length + 2
  | .returned _ => 0

def Reading.work : Reading → ℕ
  | .starting => 2
  | .asked => 1
  | .read _ => 0

def Fetching.work : Fetching → ℕ
  | .reads threads => (threads.map (·.2.work)).sum
  | .batched keys attempt stage =>
    (RATE_LIMIT_RETRIES - attempt) * (2 * keys.length + 6) + stage.work keys

/-- The `j`-th thread of the fetch can go on, or there is nothing left to do. -/
def Fetching.Ready (permits j : ℕ) : Fetching → Prop
  | .reads threads => (∀ thread ∈ threads, thread.2.verdict.isSome = true) ∨
    ∃ thread, threads[j]? = some thread ∧ thread.2.verdict = none
  | .batched _ _ (.acquiring _ _) => permits ≠ 0
  | .batched _ _ _ => True

variable {up : Upstream String} {batched : Bool} {space : Airspace}

/-- A retry is paid for by the attempts left. -/
theorem settle_work (keys : List StateKey) (attempt : ℕ) {verdict : Verdict} (h : verdict ≠ .ok) :
    (Fetching.batched keys (settle attempt verdict).1 (settle attempt verdict).2).work
      ≤ (RATE_LIMIT_RETRIES - attempt) * (2 * keys.length + 6) := by
  cases verdict with
  | ok => exact absurd rfl h
  | panicked => exact le_rfl
  | failed error =>
    simp only [settle]
    split
    · rename_i hretry
      obtain ⟨k, hk⟩ : ∃ k, RATE_LIMIT_RETRIES - attempt = k + 1 :=
        ⟨RATE_LIMIT_RETRIES - attempt - 1, by omega⟩
      have hk' : RATE_LIMIT_RETRIES - (attempt + 1) = k := by omega
      simp only [Fetching.work, Stage.work, hk, hk', Nat.succ_mul]
      omega
    · exact le_rfl

theorem ofMissing_work (keys missing : List StateKey) (h : missing.length ≤ keys.length) :
    (Stage.ofMissing missing).work keys < 2 * keys.length + 5 := by
  have hsplit : (missing.filter (·.isAccount) ++ missing.filter (·.isStorage)).length
      + (missing.filter (·.isBlockHash)).length ≤ missing.length := by
    clear h
    induction missing with
    | nil => rfl
    | cons key missing ih =>
      cases key <;> simp [StateKey.isAccount, StateKey.isStorage, StateKey.isBlockHash] at ih ⊢ <;>
        omega
  simp only [Stage.ofMissing]
  split
  · simp only [Stage.work]
    omega
  split
  · simp only [Stage.work]
    omega
  · simp only [Stage.work]
    omega

/-- STEP LEMMA: a step of a batch takes work away, or the batch waits for a permit. -/
theorem Stage.step_work (response : Response) (keys : List StateKey) (attempt : ℕ) {stage : Stage}
    (hready : (Fetching.batched keys attempt stage).Ready space.permits 0)
    (hnone : (Fetching.batched keys attempt stage).verdict = none) :
    (Fetching.batched keys (stage.step up response keys attempt space).1.1
        (stage.step up response keys attempt space).1.2).work
      < (Fetching.batched keys attempt stage).work := by
  cases stage with
  | checking =>
    have hmissing := ofMissing_work keys (keys.filter fun key => !space.cache.has key)
      (List.length_filter_le _ keys)
    simp only [Stage.step, Fetching.work]
    exact Nat.add_lt_add_left hmissing _
  | acquiring batch hashes =>
    have hpermit : space.permits ≠ 0 := hready
    simp only [Stage.step, if_neg hpermit, Fetching.work, Stage.work]
    omega
  | sending batch hashes =>
    cases response with
    | answer =>
      simp only [Stage.step, Fetching.work, Stage.work]
      omega
    | failed e =>
      have hsettle := settle_work keys attempt (Verdict.noConfusion : Verdict.failed e ≠ .ok)
      refine Nat.lt_of_le_of_lt hsettle ?_
      simp only [Fetching.work, Stage.work]
      omega
    | panic =>
      have hsettle := settle_work keys attempt (Verdict.noConfusion : Verdict.panicked ≠ .ok)
      refine Nat.lt_of_le_of_lt hsettle ?_
      simp only [Fetching.work, Stage.work]
      omega
  | receiving batch hashes =>
    cases batch with
    | nil =>
      simp only [Stage.step, Fetching.work, Stage.work, List.length_nil]
      omega
    | cons key batch =>
      rcases receive_cases response up key space.cache with
        ⟨cache', hreceive, -⟩ | ⟨verdict, hne, hreceive⟩
      · simp only [Stage.step, hreceive, Fetching.work, Stage.work, List.length_cons]
        omega
      · have hsettle := settle_work keys attempt hne
        simp only [Stage.step, hreceive]
        refine Nat.lt_of_le_of_lt hsettle ?_
        simp only [Fetching.work, Stage.work]
        omega
  | hashing hashes =>
    cases hashes with
    | nil =>
      simp only [Stage.step, Fetching.work, Stage.work, List.length_nil]
      omega
    | cons key hashes =>
      simp only [Stage.step]
      split <;> simp only [Fetching.work, Stage.work, List.length_cons] <;> omega
  | asking key hashes =>
    rcases receive_cases response up key space.cache with
      ⟨cache', hreceive, -⟩ | ⟨verdict, hne, hreceive⟩
    · simp only [Stage.step, hreceive, Fetching.work, Stage.work]
      omega
    · have hsettle := settle_work keys attempt hne
      simp only [Stage.step, hreceive]
      refine Nat.lt_of_le_of_lt hsettle ?_
      simp only [Fetching.work, Stage.work]
      omega
  | returned verdict => cases hnone

/-- STEP LEMMA: so does a step of a thread that has not read its key. -/
theorem Reading.step_work (up : Upstream String) (response : Response) (key : StateKey)
    (space : Airspace) {reading : Reading} (hnone : reading.verdict = none) :
    (reading.step up response key space).1.work < reading.work := by
  cases reading with
  | starting =>
    simp only [Reading.step]
    split <;> simp only [Reading.work] <;> omega
  | asked =>
    rcases receive_cases response up key space.cache with
      ⟨cache', hreceive, -⟩ | ⟨verdict, hne, hreceive⟩
    · simp only [Reading.step, hreceive, Reading.work]
      omega
    · have hread : Reading.asked.step up response key space = (.read verdict, space, [key]) := by
        simp only [Reading.step, hreceive]
      rw [hread]
      exact Nat.zero_lt_one
  | read verdict => cases hnone

/-- STEP LEMMA: a fetch that is ready and has not ended has less work after its step. -/
theorem Fetching.step_work (up : Upstream String) (response : Response) {j : ℕ} {fetch : Fetching}
    (hready : fetch.Ready space.permits j) (hnone : fetch.verdict = none) :
    (fetch.step up response j space).1.work < fetch.work := by
  cases fetch with
  | batched keys attempt stage =>
    refine Stage.step_work response keys attempt ?_ hnone
    cases stage <;> exact hready
  | reads threads =>
    rcases hready with hall | ⟨⟨key, reading⟩, hj, hreading⟩
    · rw [Fetching.verdict, if_pos (List.all_eq_true.mpr hall)] at hnone
      cases hnone
    · have hlower := Reading.step_work up response key space hreading
      have hsum := sum_map_set (fun thread : StateKey × Reading => thread.2.work)
        (key, (reading.step up response key space).1) hj
      simp only [Fetching.step, hj, Fetching.work]
      dsimp only at hlower hsum
      omega

theorem Fetching.step_keys (up : Upstream String) (response : Response) (j : ℕ) (space : Airspace)
    (fetch : Fetching) : (fetch.step up response j space).1.keys = fetch.keys := by
  cases fetch with
  | batched keys attempt stage => rfl
  | reads threads =>
    simp only [Fetching.step]
    split
    · rfl
    · rename_i key reading hj
      exact map_set_same Prod.fst hj rfl

/-- A fetch that is not ready stays as it is. -/
theorem Fetching.step_idle (up : Upstream String) (response : Response) {j : ℕ} {fetch : Fetching}
    (hready : ¬ fetch.Ready space.permits j) :
    fetch.verdict = none ∧ fetch.step up response j space = (fetch, space, []) := by
  cases fetch with
  | batched keys attempt stage =>
    cases stage with
    | acquiring batch hashes =>
      have hpermit : space.permits = 0 := not_not.mp hready
      refine ⟨rfl, ?_⟩
      simp only [Fetching.step, Stage.step, if_pos hpermit]
    | _ => exact absurd trivial hready
  | reads threads =>
    simp only [Fetching.Ready, not_or] at hready
    refine ⟨if_neg fun hall => hready.1 (List.all_eq_true.mp hall), ?_⟩
    simp only [Fetching.step]
    split
    · rfl
    · rename_i key reading hj
      cases reading with
      | read verdict =>
        obtain ⟨hlt, hget⟩ := List.getElem?_eq_some_iff.mp hj
        simp only [Reading.step, ← hget, List.set_getElem_self]
      | starting => exact absurd ⟨_, hj, rfl⟩ hready.2
      | asked => exact absurd ⟨_, hj, rfl⟩ hready.2

/-- What a fetch may cost is told by how many keys it has. -/
theorem Fetching.start_work (batched : Bool) (mine : List StateKey) :
    (Fetching.start batched mine).work ≤ 14 * mine.length + 41 := by
  cases batched with
  | true =>
    simp only [Fetching.start, if_pos, Fetching.work, Stage.work, RATE_LIMIT_RETRIES]
    omega
  | false =>
    have hsum : ((mine.map fun key => (key, Reading.starting)).map (·.2.work)).sum
        = 2 * mine.length := by
      simp [Reading.work, Function.comp_def, Nat.mul_comm]
    simp only [Fetching.start, Bool.false_eq_true, if_false, Fetching.work]
    omega

/-! ### The work of a call -/

def Phase.work : Phase → ℕ
  | .entering | .ended _ => 0
  | .claiming todo mine theirs => 18 * todo.length + 16 * mine.length + theirs.length + 46
  | .looking _ todo mine theirs => 18 * todo.length + 16 * mine.length + theirs.length + 63
  | .fetching fetch theirs => fetch.work + 2 * fetch.keys.length + theirs.length + 4
  | .descending _ mine theirs => 2 * mine.length + theirs.length + 3
  | .landing _ mine theirs => 2 * mine.length + theirs.length + 2
  | .notifying _ _ mine theirs => 2 * mine.length + theirs.length + 3
  | .waiting theirs | .sleeping theirs => theirs.length + 1

/-- What is left of the round, and a round's work for each that may follow, out of `limit`. -/
def Resolve.work (limit : ℕ) (call : Resolve) : ℕ :=
  (limit - call.rounds) * (18 * call.keys.length + 47) + call.phase.work

/-- The call's `j`-th thread can go on: the mutex is free, the permit there, the flight landed. -/
def Phase.Ready (space : Airspace) (j : ℕ) : Phase → Prop
  | .entering | .descending _ _ _ => space.lock = none
  | .fetching fetch _ => fetch.Ready space.permits j
  | .waiting (f :: _) => (space.flights[f]?.map Flight.landed).getD false = true
  | .sleeping _ | .ended _ => False
  | _ => True

/-- What a step leaves in place but the phase pays for itself. -/
theorem work_lt {limit : ℕ} {keys : List StateKey} {rounds : ℕ} {failures failures' : List StateKey}
    {phase phase' : Phase} (h : phase'.work < phase.work) :
    Resolve.work limit ⟨keys, rounds, failures', phase'⟩
      < Resolve.work limit ⟨keys, rounds, failures, phase⟩ :=
  Nat.add_lt_add_left h _

theorem await_work (theirs : List ℕ) : (Phase.await theirs).work ≤ theirs.length + 1 := by
  cases theirs with
  | nil => exact Nat.zero_le _
  | cons f theirs => exact le_rfl

theorem afterLanding_work (verdict : Verdict) (theirs : List ℕ) :
    (Phase.afterLanding verdict theirs).work ≤ theirs.length + 1 := by
  cases verdict with
  | ok =>
    cases theirs with
    | nil => exact Nat.zero_le _
    | cons f theirs => exact le_rfl
  | failed error => exact Nat.zero_le _
  | panicked => exact Nat.zero_le _

/-- STEP LEMMA: a turn of a call that is ready takes work away. -/
theorem Resolve.advance_work (up : Upstream String) (batched : Bool) (i : ℕ) {limit j : ℕ}
    (response : Response) {call : Resolve}
    (hroom : call.phase = .entering → call.rounds < limit) (hready : call.phase.Ready space j) :
    (call.advance up batched i j response space).1.work limit < call.work limit := by
  obtain ⟨keys, rounds, failures, phase⟩ := call
  cases phase with
  | entering =>
    have hfree : space.lock = none := hready
    have hrounds : rounds < limit := hroom rfl
    obtain ⟨k, hk⟩ : ∃ k, limit - rounds = k + 1 := ⟨limit - rounds - 1, by omega⟩
    have hk' : limit - (rounds + 1) = k := by omega
    simp only [Resolve.advance, hfree, Resolve.work, Phase.work, hk, hk', Nat.succ_mul,
      List.length_nil]
    omega
  | claiming todo mine theirs =>
    cases todo with
    | nil =>
      cases mine with
      | nil =>
        cases theirs with
        | nil => exact work_lt (Nat.succ_pos _)
        | cons f theirs =>
          refine work_lt ?_
          simp only [Phase.await, Phase.work, List.length_nil, List.length_cons]
          omega
      | cons key mine =>
        refine work_lt ?_
        have hstart := Fetching.start_work batched (key :: mine)
        have hkeys : (Fetching.start batched (key :: mine)).keys = key :: mine := by
          cases batched with
          | true => rfl
          | false => simp [Fetching.start, Fetching.keys, Function.comp_def]
        simp only [Phase.work, hkeys, List.length_nil]
        omega
    | cons key todo =>
      simp only [Resolve.advance]
      split <;> refine work_lt ?_ <;> simp only [Phase.work, List.length_cons] <;> omega
  | looking key todo mine theirs =>
    simp only [Resolve.advance]
    split <;> refine work_lt ?_ <;>
      simp only [Phase.work, List.length_append, List.length_singleton] <;> omega
  | fetching fetch theirs =>
    simp only [Resolve.advance]
    split
    · refine work_lt ?_
      simp only [Phase.work]
      omega
    · rename_i hnone
      have hlower := Fetching.step_work up response hready hnone
      have hkeys := Fetching.step_keys up response j space fetch
      refine work_lt ?_
      simp only [Phase.work, hkeys]
      omega
  | descending verdict mine theirs =>
    have hfree : space.lock = none := hready
    simp only [Resolve.advance, hfree]
    exact work_lt (Nat.lt_succ_self _)
  | landing verdict mine theirs =>
    cases mine with
    | nil =>
      refine work_lt (Nat.lt_of_le_of_lt (afterLanding_work verdict theirs) ?_)
      simp only [Phase.work, List.length_nil]
      omega
    | cons key mine =>
      simp only [Resolve.advance]
      split <;> refine work_lt ?_ <;> simp only [Phase.work, List.length_cons] <;> omega
  | notifying f verdict mine theirs => exact work_lt (Nat.lt_succ_self _)
  | waiting theirs =>
    cases theirs with
    | nil => exact work_lt (Nat.succ_pos _)
    | cons f rest =>
      have hlanded : (space.flights[f]?.map Flight.landed).getD false = true := hready
      simp only [Resolve.advance, if_pos hlanded]
      refine work_lt (Nat.lt_of_le_of_lt (await_work rest) ?_)
      simp only [Phase.work, List.length_cons]
      omega
  | sleeping theirs => exact hready.elim
  | ended verdict => exact hready.elim

/-- A turn of a call that is not ready does nothing, but that a call waiting for a flight in the air
    goes to sleep on it. -/
theorem Resolve.advance_idle (up : Upstream String) (batched : Bool) (i : ℕ) {j : ℕ}
    (response : Response) {call : Resolve}
    (hready : ¬ call.phase.Ready space j) :
    call.advance up batched i j response space = (call, space, none) ∨
      ∃ f rest, call.phase = .waiting (f :: rest) ∧
        (space.flights[f]?.map Flight.landed).getD false = false ∧
        call.advance up batched i j response space
          = ({ call with phase := .sleeping (f :: rest) }, space, none) := by
  obtain ⟨keys, rounds, failures, phase⟩ := call
  have hlocked : ¬ space.lock = none → ∃ holder, space.lock = some holder :=
    Option.ne_none_iff_exists'.mp
  cases phase with
  | entering =>
    obtain ⟨holder, hholder⟩ := hlocked hready
    left
    simp only [Resolve.advance, hholder]
  | descending verdict mine theirs =>
    obtain ⟨holder, hholder⟩ := hlocked hready
    left
    simp only [Resolve.advance, hholder]
  | fetching fetch theirs =>
    obtain ⟨hnone, hstep⟩ := Fetching.step_idle up response hready
    left
    simp only [Resolve.advance, hnone, hstep, List.append_nil]
  | waiting theirs =>
    cases theirs with
    | nil => exact absurd trivial hready
    | cons f rest =>
      have hflying := Bool.eq_false_iff.mpr hready
      refine .inr ⟨f, rest, rfl, hflying, ?_⟩
      simp only [Resolve.advance]
      exact if_neg hready
  | sleeping theirs => exact .inl rfl
  | ended verdict => exact .inl rfl
  | _ => exact absurd trivial hready

theorem Resolve.wake_work (limit f : ℕ) (call : Resolve) :
    (call.wake f).work limit = call.work limit := by
  rcases Resolves.wake_cases f call with hsame | ⟨theirs, hphase, hwake⟩
  · rw [hsame]
  · rw [hwake, Resolve.work, Resolve.work, hphase]
    rfl

end Forkyard
