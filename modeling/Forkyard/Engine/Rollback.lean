import Forkyard.Engine.Speculation
import Forkyard.Schemes.Steps

/-! A speculative pass, read by read. The fallback may answer a read, fail it or panic out of it,
    and be another one at the next read; a panic unwinds through the session and is caught somewhere
    above, with the session still there to be read again. Rolled back, the pass leaves the session
    it began on. Kept, it adds to the overlay what the fallback told, and nothing else.

        read:  overlay ──miss──▶ base ──miss──▶ fallback ──Ok──▶ cached, logged
                 └──hit──▶         └──hit──▶      ├──Err──▶ answered, nothing cached
                                                  └──panic──▶ unwinds, nothing cached -/

namespace Forkyard

open Schemes

variable {F W E R : Type}

/-! ### What a read may find -/

/-- What an overlay holds under a key. -/
abbrev ReadKey.Value : ReadKey → Type
  | .account _ => AccountInfo
  | .code _ => Bytecode
  | .storage _ _ => StorageValue

/-- The overlay's key a read looks for; a block hash has none. -/
def Query.key : Query → Option ReadKey
  | .basic address => some (.account address)
  | .codeByHash codeHash => some (.code codeHash)
  | .storage address index => some (.storage address index)
  | .blockHash _ => none

/-- One read, and the fallback it would come to: answers and errors, or a panic. -/
abbrev FallbackRead (E : Type) := Query × Option (Upstream E)

/-- A fallback as a read finds it: what it would answer in this world. -/
def DatabaseRef.now (db : DatabaseRef F W E) (f : F) (w : W) : Upstream E where
  basic address := (db.basicRef f address w).1
  codeByHash codeHash := (db.codeByHashRef f codeHash w).1
  storage address index := (db.storageRef f address index w).1
  blockHash number := (db.blockHashRef f number w).1

/-- The entry for a key that a fallback's answer to a read is. -/
def FallbackRead.tells : FallbackRead E → (key : ReadKey) → Option key.Value
  | (.basic address, some up), .account address' =>
    if address' = address then (up.basic address).toOption.join else none
  | (.codeByHash codeHash, some up), .code codeHash' =>
    if codeHash' = codeHash then (up.codeByHash codeHash).toOption else none
  | (.storage address index, some up), .storage address' index' =>
    if (address', index') = (address, index) then (up.storage address index).toOption else none
  | _, _ => none

def BaseSnapshot.entry (base : BaseSnapshot) : (key : ReadKey) → Option key.Value
  | .account address => base.accounts.lookup address
  | .code codeHash => base.code.lookup codeHash
  | .storage address index => base.storage.lookup (address, index)

namespace Session

/-- The three overlay maps as one. -/
def overlay (s : Session F) : (key : ReadKey) → Option key.Value
  | .account address => s.overlayAccounts.lookup address
  | .code codeHash => s.overlayCode.lookup codeHash
  | .storage address index => s.overlayStorage.lookup (address, index)

/-- What overlay or base answer to a read, if they do. -/
def held (s : Session F) : (q : Query) → Option (Answer E q)
  | .basic address =>
    ((s.overlayAccounts.lookup address).or (s.base.accounts.lookup address)).map
      fun info => .ok (some info)
  | .codeByHash codeHash =>
    ((s.overlayCode.lookup codeHash).or (s.base.code.lookup codeHash)).map .ok
  | .storage address index =>
    ((s.overlayStorage.lookup (address, index)).or (s.base.storage.lookup (address, index))).map .ok
  | .blockHash number => (s.base.blockHashes.lookup number).map .ok

/-- One read: its answer, `none` when it panics, and the session it leaves. -/
def reading (s : Session F) (r : FallbackRead E) : Option (Answer E r.1) × Session F :=
  match r.2 with
  | some up =>
    let out := answer (Upstream.db fun _ => up) r.1 (s, ())
    (some out.1, out.2.1)
  -- a fallback is called before anything is written, so a panic of its leaves the session alone
  | none => (s.held r.1, s)

/-- The session after a list of reads, the panicking ones caught. -/
def readAll (s : Session F) : List (FallbackRead E) → Session F := runAll (fun s r => (s.reading r).2) s

/-- Of a list of reads those that come to the fallback. -/
def fallbackReads : Session F → List (FallbackRead E) → List (FallbackRead E)
  | _, [] => []
  | s, r :: rs =>
    if (s.held r.1 : Option (Answer E r.1)).isNone then r :: fallbackReads (s.reading r).2 rs
    else fallbackReads (s.reading r).2 rs

/-! ### One read -/

/-- What overlay or base hold is answered out of them, and nothing changes. -/
theorem reading_held {s : Session F} {r : FallbackRead E} {a : Answer E r.1}
    (h : s.held r.1 = some a) : s.reading r = (some a, s) := by
  obtain ⟨q, _ | up⟩ := r
  · rw [reading, h]
  · cases q with
    | basic address =>
      simp only [reading, answer, basic]
      simp only [held] at h
      cases ho : s.overlayAccounts.lookup address with
      | some info => rw [ho] at h; cases h; rfl
      | none => cases hb : s.base.accounts.lookup address <;> rw [ho, hb] at h <;> cases h; rfl
    | codeByHash codeHash =>
      simp only [reading, answer, codeByHash]
      simp only [held] at h
      cases ho : s.overlayCode.lookup codeHash with
      | some code => rw [ho] at h; cases h; rfl
      | none => cases hb : s.base.code.lookup codeHash <;> rw [ho, hb] at h <;> cases h; rfl
    | storage address index =>
      simp only [reading, answer, storage]
      simp only [held] at h
      cases ho : s.overlayStorage.lookup (address, index) with
      | some value => rw [ho] at h; cases h; rfl
      | none =>
        cases hb : s.base.storage.lookup (address, index) <;> rw [ho, hb] at h <;> cases h; rfl
    | blockHash number =>
      simp only [reading, answer, blockHash]
      simp only [held] at h
      cases hb : s.base.blockHashes.lookup number <;> rw [hb] at h <;> cases h; rfl

/-- A read that comes to the fallback is of a key neither overlay nor base hold. -/
theorem held_none {s : Session F} {q : Query} (h : (s.held q : Option (Answer E q)) = none)
    {key : ReadKey} (hkey : q.key = some key) :
    s.overlay key = none ∧ s.base.entry key = none := by
  cases q with
  | blockHash number => cases hkey
  | _ =>
    cases hkey
    rwa [held, Option.map_eq_none_iff, Option.or_eq_none_iff] at h

/-- Such a read adds what the fallback tells. -/
theorem reading_free {s : Session F} {r : FallbackRead E}
    (h : (s.held r.1 : Option (Answer E r.1)) = none) (key : ReadKey) :
    (s.reading r).2.overlay key = (s.overlay key).or (r.tells key) := by
  obtain ⟨q, _ | up⟩ := r
  · cases q <;> simp [reading, FallbackRead.tells]
  · cases q with
    | basic address =>
      obtain ⟨ho, hb⟩ := held_none h rfl
      simp only [overlay, BaseSnapshot.entry] at ho hb
      simp only [reading, answer, basic, Upstream.db, ho, hb]
      cases hup : up.basic address with
      | error e => cases key <;> simp [FallbackRead.tells, hup, Except.toOption]
      | ok info =>
        cases info with
        | none => cases key <;> simp [FallbackRead.tells, hup, Except.toOption]
        | some info =>
          cases key with
          | account address' =>
            simp only [overlay, logRead, setAccount, Map.lookup_insert_free ho, FallbackRead.tells, hup]
            rfl
          | code codeHash => exact (Option.or_none).symm
          | storage address' index => exact (Option.or_none).symm
    | codeByHash codeHash =>
      obtain ⟨ho, hb⟩ := held_none h rfl
      simp only [overlay, BaseSnapshot.entry] at ho hb
      simp only [reading, answer, codeByHash, Upstream.db, ho, hb]
      cases hup : up.codeByHash codeHash with
      | error e => cases key <;> simp [FallbackRead.tells, hup, Except.toOption]
      | ok code =>
        cases key with
        | code codeHash' =>
          simp only [overlay, logRead, Map.lookup_insert_free ho, FallbackRead.tells, hup]
          rfl
        | account address => exact (Option.or_none).symm
        | storage address index => exact (Option.or_none).symm
    | storage address index =>
      obtain ⟨ho, hb⟩ := held_none h rfl
      simp only [overlay, BaseSnapshot.entry] at ho hb
      simp only [reading, answer, storage, Upstream.db, ho, hb]
      cases hup : up.storage address index with
      | error e => cases key <;> simp [FallbackRead.tells, hup, Except.toOption]
      | ok value =>
        cases key with
        | storage address' index' =>
          simp only [overlay, logRead, setStorage, Map.lookup_insert_free ho, FallbackRead.tells, hup]
          rfl
        | account address' => exact (Option.or_none).symm
        | code codeHash => exact (Option.or_none).symm
    | blockHash number =>
      have hb : s.base.blockHashes.lookup number = none := Option.map_eq_none_iff.mp h
      simp only [reading, answer, blockHash, Upstream.db, hb]
      cases up.blockHash number <;> cases key <;> exact (Option.or_none).symm

/-- A read tells nothing of any key but its own. -/
theorem tells_key {r : FallbackRead E} {key : ReadKey} {v : key.Value} (h : r.tells key = some v) :
    r.1.key = some key := by
  obtain ⟨q, _ | up⟩ := r
  · cases q <;> cases h
  · cases q <;> cases key <;> simp only [FallbackRead.tells, reduceCtorEq] at h
    all_goals
      split at h
      · simp_all [Query.key]
      · cases h

/-- STEP LEMMA: the overlay after a read holds what it held, and what the fallback told if the read
    came to it. -/
theorem reading_overlay (s : Session F) (r : FallbackRead E) (key : ReadKey) (v : key.Value) :
    (s.reading r).2.overlay key = some v ↔ s.overlay key = some v ∨
      (s.held r.1 : Option (Answer E r.1)) = none ∧ r.tells key = some v := by
  cases h : (s.held r.1 : Option (Answer E r.1)) with
  | some a =>
    rw [reading_held h]
    exact ⟨.inl, fun hold => hold.resolve_right fun hnew => nomatch hnew.1⟩
  | none =>
    rw [reading_free h, Option.or_eq_some_iff]
    refine or_congr_right ⟨fun hnew => ⟨rfl, hnew.2⟩, fun hnew => ⟨?_, hnew.2⟩⟩
    exact (held_none h (tells_key hnew.2)).1

/-- The base is shared and immutable. -/
theorem reading_base (s : Session F) (r : FallbackRead E) : (s.reading r).2.base = s.base := by
  obtain ⟨q, _ | up⟩ := r
  · rfl
  · rcases answer_cases (Upstream.db fun _ => up) q s () with h | ⟨s', key, hlearned, h⟩
    · simp only [reading, h]
    · simp only [reading, h]
      cases hlearned <;> rfl

/-- STEP LEMMA: no read breaks the undo log, whether it answers, fails or panics. -/
theorem reading_undoes {s₀ s : Session F} (h : Undoes s₀ s) (r : FallbackRead E) :
    Undoes s₀ (s.reading r).2 := by
  obtain ⟨q, _ | up⟩ := r
  · exact h
  · rcases answer_cases (Upstream.db fun _ => up) q s () with hs | ⟨s', key, hlearned, hs⟩
    · simp only [reading, hs]; exact h
    · simp only [reading, hs]; exact undoes_logRead h (learned_gained hlearned)

/-! ### A whole pass -/

/-- RUN LEMMA: the overlay after a list of reads holds what it held, and what the fallback told the
    reads that came to it. -/
theorem readAll_overlay (key : ReadKey) (v : key.Value) (s : Session F)
    (rs : List (FallbackRead E)) :
    (s.readAll rs).overlay key = some v ↔
      s.overlay key = some v ∨ ∃ r ∈ s.fallbackReads rs, r.tells key = some v := by
  induction rs generalizing s with
  | nil => simp [readAll, fallbackReads]
  | cons r rs ih =>
    have hrec := ih (s.reading r).2
    rw [reading_overlay, or_assoc] at hrec
    rw [readAll, runAll_cons]
    refine hrec.trans (or_congr_right ?_)
    rw [fallbackReads]
    cases (s.held r.1 : Option (Answer E r.1)) with
    | some a => simp
    | none => simp

/-- RUN LEMMA: reads that come to the fallback are of keys that neither overlay nor base held at the
    start of the list. -/
theorem fallbackReads_free : ∀ {s : Session F} {rs : List (FallbackRead E)} {r : FallbackRead E},
    r ∈ s.fallbackReads rs → ∀ key ∈ r.1.key, s.overlay key = none ∧ s.base.entry key = none
  | s, r' :: rs, r, hmem, key, hkey => by
    -- what the session holds it keeps, so a key free after the first read was free before it
    have hlater : r ∈ (s.reading r').2.fallbackReads rs →
        s.overlay key = none ∧ s.base.entry key = none := by
      intro h
      obtain ⟨ho, hb⟩ := fallbackReads_free h key hkey
      refine ⟨Option.eq_none_iff_forall_ne_some.mpr fun v hv => ?_, by rwa [reading_base] at hb⟩
      rw [(reading_overlay s r' key v).mpr (.inl hv)] at ho
      cases ho
    rw [fallbackReads] at hmem
    cases h : (s.held r'.1 : Option (Answer E r'.1)) with
    | some a =>
      rw [h] at hmem
      exact hlater hmem
    | none =>
      rw [h] at hmem
      rcases List.mem_cons.mp hmem with rfl | hmem
      · exact held_none h hkey
      · exact hlater hmem

/-- RUN LEMMA: the undo log holds through any list of reads. -/
theorem readAll_undoes {s₀ s : Session F} (h : Undoes s₀ s) (rs : List (FallbackRead E)) :
    Undoes s₀ (s.readAll rs) :=
  runAll_inv (P := Undoes s₀) (fun _ r hs => reading_undoes hs r) s rs h

/-! ### What a program reads -/

/-- A read is one of a fallback that answers as the real one does in this world. -/
theorem reading_answer (db : DatabaseRef F W E) (q : Query) (s : Session F) (w : W) :
    (s.reading (q, some (db.now s.fallback w))).2 = (answer db q (s, w)).2.1 := by
  cases q with
  | basic address =>
    simp only [reading, answer, basic, Upstream.db, DatabaseRef.now]
    cases s.overlayAccounts.lookup address <;> cases s.base.accounts.lookup address <;>
      rcases db.basicRef s.fallback address w with ⟨e | _ | info, w'⟩ <;> rfl
  | codeByHash codeHash =>
    simp only [reading, answer, codeByHash, Upstream.db, DatabaseRef.now]
    cases s.overlayCode.lookup codeHash <;> cases s.base.code.lookup codeHash <;>
      rcases db.codeByHashRef s.fallback codeHash w with ⟨e | code, w'⟩ <;> rfl
  | storage address index =>
    simp only [reading, answer, storage, Upstream.db, DatabaseRef.now]
    cases s.overlayStorage.lookup (address, index) <;>
      cases s.base.storage.lookup (address, index) <;>
        rcases db.storageRef s.fallback address index w with ⟨e | value, w'⟩ <;> rfl
  | blockHash number =>
    simp only [reading, answer, blockHash, Upstream.db, DatabaseRef.now]
    cases s.base.blockHashes.lookup number <;>
      rcases db.blockHashRef s.fallback number w with ⟨e | hash, w'⟩ <;> rfl

/-- REFINES: whatever a program reads, and however it ends, it leaves the session some list of reads
    does. -/
theorem run_readAll (db : DatabaseRef F W E) (p : ReadProg E R) (s : Session F) (w : W) :
    ∃ rs : List (FallbackRead E), (p.run (answer db) (s, w)).2.1 = s.readAll rs := by
  induction p generalizing s w with
  | ret r => exact ⟨[], rfl⟩
  | panic => exact ⟨[], rfl⟩
  | ask q k ih =>
    obtain ⟨rs, hrs⟩ := ih (answer db q (s, w)).1 (answer db q (s, w)).2.1 (answer db q (s, w)).2.2
    refine ⟨(q, some (db.now s.fallback w)) :: rs, ?_⟩
    rw [readAll, runAll_cons, reading_answer]
    exact hrs

/-- EXACT: reads between `begin_speculation` and `end_speculation`, hits and misses, errors and
    panics, in any order and any number of times a key: rolled back, the session is the one they
    began on; kept, each overlay map is the old one with exactly the entries added that the fallback
    told, all of them under keys that neither overlay nor base held. -/
theorem speculation_exact (s : Session F) (rs : List (FallbackRead E)) :
    (s.beginSpeculation.readAll rs).endSpeculation false = { s with readLog := none } ∧
    (∀ key v, ((s.beginSpeculation.readAll rs).endSpeculation true).overlay key = some v ↔
      s.overlay key = some v ∨
        ∃ r ∈ s.beginSpeculation.fallbackReads rs, r.tells key = some v) ∧
    (∀ r ∈ s.beginSpeculation.fallbackReads rs, ∀ key ∈ r.1.key,
      s.overlay key = none ∧ s.base.entry key = none) := by
  refine ⟨endSpeculation_false (readAll_undoes (undoes_begin s) rs), fun key v => ?_,
    fun r hr => fallbackReads_free (s := s.beginSpeculation) hr⟩
  rw [endSpeculation_true]
  exact readAll_overlay key v s.beginSpeculation rs

end Session

end Forkyard
