import Forkyard.Engine.View

/-! Speculation on one session. While a pass speculates, every entry it caches from the fallback is
    logged; ending it with `keep` false removes exactly the logged entries again. `Undoes` is the
    invariant of such a pass: whatever it has read so far, forgetting its log gives back the session
    it started from.

        begin ──▶ s ──read──▶ s₁ ──read──▶ s₂ … ──end false──▶ s, entry for entry
                  log: []     [k₁]         [k₁, k₂]  -/

namespace Forkyard.Session

open Schemes

variable {F W E R : Type}

/-- The session without its log. -/
def unlogged (s : Session F) : Session F := { s with readLog := none }

theorem unlogged_of_none {s : Session F} (h : s.readLog = none) : s.unlogged = s := by
  cases s
  exact congrArg _ h.symm

@[simp] theorem unlogged_logRead (s : Session F) (key : ReadKey) :
    (s.logRead key).unlogged = s.unlogged := rfl

theorem unlogged_forget (s : Session F) (key : ReadKey) :
    (s.forget key).unlogged = s.unlogged.forget key := by
  cases key <;> rfl

theorem forget_comm (s : Session F) (k k' : ReadKey) :
    (s.forget k).forget k' = (s.forget k').forget k := by
  cases k <;> cases k' <;> simp only [forget, Finmap.erase_erase]

theorem foldl_forget (log : List ReadKey) : ∀ (s : Session F) (key : ReadKey),
    log.foldl forget (s.forget key) = (log.foldl forget s).forget key := by
  induction log with
  | nil => intro s key; rfl
  | cons k log ih => intro s key; rw [List.foldl_cons, List.foldl_cons, forget_comm, ih]

/-! ### What one read can do to a session -/

/-- What a read caches: an entry its overlay had none of, told by the fallback, and the key it is
    logged under. -/
inductive Learned (db : DatabaseRef F W E) (s : Session F) (w : W) : Session F → ReadKey → Prop
  | account {address : Address} {info : AccountInfo}
    (free : s.overlayAccounts.lookup address = none)
    (told : (db.basicRef s.fallback address w).1 = .ok (some info)) :
    Learned db s w (s.setAccount address info) (.account address)
  | code {codeHash : B256} {code : Bytecode} (free : s.overlayCode.lookup codeHash = none)
    (told : (db.codeByHashRef s.fallback codeHash w).1 = .ok code) :
    Learned db s w { s with overlayCode := s.overlayCode.insert codeHash code } (.code codeHash)
  | storage {address : Address} {index : StorageKey} {value : StorageValue}
    (free : s.overlayStorage.lookup (address, index) = none)
    (told : (db.storageRef s.fallback address index w).1 = .ok value) :
    Learned db s w (s.setStorage address index value) (.storage address index)

/-- A read leaves the session as it was, or with one entry learned and logged. -/
theorem answer_cases (db : DatabaseRef F W E) (q : Query) (s : Session F) (w : W) :
    (answer db q (s, w)).2.1 = s ∨
      ∃ s' key, Learned db s w s' key ∧ (answer db q (s, w)).2.1 = s'.logRead key := by
  cases q with
  | basic address =>
    simp only [answer, basic]
    cases ho : s.overlayAccounts.lookup address with
    | some info => exact .inl rfl
    | none =>
      cases s.base.accounts.lookup address with
      | some info => exact .inl rfl
      | none =>
        rcases hr : db.basicRef s.fallback address w with ⟨e | _ | info, w'⟩
        · exact .inl rfl
        · exact .inl rfl
        · exact .inr ⟨_, _, .account ho (by rw [hr]), rfl⟩
  | codeByHash codeHash =>
    simp only [answer, codeByHash]
    cases ho : s.overlayCode.lookup codeHash with
    | some code => exact .inl rfl
    | none =>
      cases s.base.code.lookup codeHash with
      | some code => exact .inl rfl
      | none =>
        rcases hr : db.codeByHashRef s.fallback codeHash w with ⟨e | code, w'⟩
        · exact .inl rfl
        · exact .inr ⟨_, _, .code ho (by rw [hr]), rfl⟩
  | storage address index =>
    simp only [answer, storage]
    cases ho : s.overlayStorage.lookup (address, index) with
    | some value => exact .inl rfl
    | none =>
      cases s.base.storage.lookup (address, index) with
      | some value => exact .inl rfl
      | none =>
        rcases hr : db.storageRef s.fallback address index w with ⟨e | value, w'⟩
        · exact .inl rfl
        · exact .inr ⟨_, _, .storage ho (by rw [hr]), rfl⟩
  | blockHash number =>
    simp only [answer, blockHash]
    cases s.base.blockHashes.lookup number with
    | some hash => exact .inl rfl
    | none => rcases db.blockHashRef s.fallback number w with ⟨e | hash, w'⟩ <;> exact .inl rfl

/-- `s'` is `s` with one entry gained, which forgetting `key` takes away again. -/
structure Gained (s s' : Session F) (key : ReadKey) : Prop where
  forgotten : s'.forget key = s
  readLog : s'.readLog = s.readLog

theorem learned_gained {db : DatabaseRef F W E} {s s' : Session F} {w : W} {key : ReadKey}
    (h : Learned db s w s' key) : Gained s s' key := by
  cases h with
  | account free told => exact ⟨by simp only [forget, setAccount, Map.erase_insert _ free], rfl⟩
  | code free told => exact ⟨by simp only [forget, Map.erase_insert _ free], rfl⟩
  | storage free told => exact ⟨by simp only [forget, setStorage, Map.erase_insert _ free], rfl⟩

/-- A session without a log never gets one by reading. -/
theorem run_readLog (db : DatabaseRef F W E) (p : ReadProg E R) {s : Session F} (w : W)
    (h : s.readLog = none) : (p.run (answer db) (s, w)).2.1.readLog = none := by
  refine Tree.run_inv (P := fun sw => sw.1.readLog = none) ?_ p (s, w) h
  rintro q ⟨s, w⟩ hs
  rcases answer_cases db q s w with h | ⟨s', key, hlearned, h⟩
  · rw [h]; exact hs
  · rw [h, logRead, (learned_gained hlearned).readLog, hs]; rfl

/-! ### Rollback -/

/-- Forgetting what `s` has logged gives `s₀` back. -/
def Undoes (s₀ s : Session F) : Prop :=
  ∃ log, s.readLog = some log ∧ log.foldl forget s.unlogged = s₀

theorem undoes_begin (s : Session F) : Undoes s.unlogged s.beginSpeculation := ⟨[], rfl, rfl⟩

theorem undoes_logRead {s₀ s s' : Session F} {key : ReadKey} (h : Undoes s₀ s)
    (hg : Gained s s' key) : Undoes s₀ (s'.logRead key) := by
  obtain ⟨log, hlog, hundo⟩ := h
  refine ⟨log ++ [key], ?_, ?_⟩
  · rw [logRead, hg.readLog, hlog]; rfl
  · rw [unlogged_logRead, List.foldl_append, List.foldl_cons, List.foldl_nil, ← foldl_forget,
      ← unlogged_forget, hg.forgotten, hundo]

/-- No read breaks the undo log. -/
theorem run_undoes (db : DatabaseRef F W E) (p : ReadProg E R) {s₀ s : Session F} (w : W)
    (h : Undoes s₀ s) : Undoes s₀ (p.run (answer db) (s, w)).2.1 := by
  refine Tree.run_inv (P := fun sw => Undoes s₀ sw.1) ?_ p (s, w) h
  rintro q ⟨s, w⟩ hs
  rcases answer_cases db q s w with h | ⟨s', key, hlearned, h⟩
  · rw [h]; exact hs
  · rw [h]; exact undoes_logRead hs (learned_gained hlearned)

theorem endSpeculation_false {s₀ s : Session F} (h : Undoes s₀ s) :
    s.endSpeculation false = s₀ := by
  obtain ⟨log, hlog, hundo⟩ := h
  simp only [endSpeculation, hlog, Bool.false_eq_true, if_false]
  exact hundo

/-- EXACT: whatever a speculative pass reads, and however it ends, rolling it back gives back the
    session it started from, entry for entry. -/
theorem rollback (db : DatabaseRef F W E) (p : ReadProg E R) {s : Session F} (w : W)
    (h : s.readLog = none) :
    (p.run (answer db) (s.beginSpeculation, w)).2.1.endSpeculation false = s := by
  rw [endSpeculation_false (run_undoes db p w (undoes_begin s)), unlogged_of_none h]

/-! ### The log is no one's business -/

theorem endSpeculation_true (s : Session F) : s.endSpeculation true = s.unlogged := by
  unfold endSpeculation
  cases h : s.readLog with
  | none => exact (unlogged_of_none h).symm
  | some log => rfl

/-- Logging changes neither what a read answers nor what it caches. -/
theorem answer_unlogged (db : DatabaseRef F W E) (q : Query) {s t : Session F} (w : W)
    (h : s.unlogged = t.unlogged) :
    (answer db q (s, w)).1 = (answer db q (t, w)).1 ∧
      (answer db q (s, w)).2.1.unlogged = (answer db q (t, w)).2.1.unlogged ∧
      (answer db q (s, w)).2.2 = (answer db q (t, w)).2.2 := by
  obtain ⟨base, fallback, blockEnv, accounts, code, storage, inherited, log⟩ := s
  obtain ⟨base', fallback', blockEnv', accounts', code', storage', inherited', log'⟩ := t
  simp only [unlogged, mk.injEq, and_true] at h
  obtain ⟨rfl, rfl, rfl, rfl, rfl, rfl, rfl⟩ := h
  cases q with
  | basic address =>
    simp only [answer, basic]
    cases accounts.lookup address <;> cases base.accounts.lookup address <;>
      rcases db.basicRef fallback address w with ⟨e | _ | info, w'⟩ <;> exact ⟨rfl, rfl, rfl⟩
  | codeByHash codeHash =>
    simp only [answer, codeByHash]
    cases code.lookup codeHash <;> cases base.code.lookup codeHash <;>
      rcases db.codeByHashRef fallback codeHash w with ⟨e | code, w'⟩ <;> exact ⟨rfl, rfl, rfl⟩
  | storage address index =>
    simp only [answer, Session.storage]
    cases storage.lookup (address, index) <;> cases base.storage.lookup (address, index) <;>
      rcases db.storageRef fallback address index w with ⟨e | value, w'⟩ <;> exact ⟨rfl, rfl, rfl⟩
  | blockHash number =>
    simp only [answer, blockHash]
    cases base.blockHashes.lookup number <;>
      rcases db.blockHashRef fallback number w with ⟨e | hash, w'⟩ <;> exact ⟨rfl, rfl, rfl⟩

theorem run_unlogged (db : DatabaseRef F W E) (p : ReadProg E R) {s t : Session F} (w : W)
    (h : s.unlogged = t.unlogged) :
    (p.run (answer db) (s, w)).1 = (p.run (answer db) (t, w)).1 ∧
      (p.run (answer db) (s, w)).2.1.unlogged = (p.run (answer db) (t, w)).2.1.unlogged ∧
      (p.run (answer db) (s, w)).2.2 = (p.run (answer db) (t, w)).2.2 := by
  refine Tree.run_sim (P := fun sw tw => sw.1.unlogged = tw.1.unlogged ∧ sw.2 = tw.2) ?_ p (s, w)
    (t, w) ⟨h, rfl⟩
  rintro q ⟨s, w⟩ ⟨t, -⟩ ⟨hst, rfl⟩
  exact answer_unlogged db q w hst

end Forkyard.Session
