import Forkyard.Engine.Speculation
import Forkyard.Fetch.ReadThrough

/-! One pass of a job against its session. `attempt` runs a read program either blocking or
    speculatively; a speculative pass that missed anything hands back the missing keys and leaves
    the session as it found it. `execute` is that with an EVM run as the program and, after a clean
    pass only, the commit of its diff. The EVM itself is a parameter: a read program for every
    configuration, block and transaction.

        attempt ──blocking──────────────────────▶ done
                ──speculative──no miss──────────▶ done
                               ──misses─────────▶ missed, rolled back
                               ──panic──────────▶ panicked, rolled back -/

namespace Forkyard

open Schemes

/-! ### What the EVM takes and gives -/

inductive TxKind where
  | create
  | call (recipient : Address)
  deriving DecidableEq

structure TxEnv where
  caller : Address
  kind : TxKind
  value : U256
  data : Bytes
  gasLimit : UInt64
  gasPrice : BitVec 128
  nonce : UInt64
  chainId : Option UInt64
  deriving DecidableEq

/-- The switches of revm's configuration that a dry run turns on, and the chain it runs as. -/
structure CfgEnv where
  chainId : UInt64
  disableBalanceCheck : Bool
  disableBaseFee : Bool
  deriving DecidableEq

/-- revm's mainnet configuration. -/
def CfgEnv.mainnet : CfgEnv := ⟨1, false, false⟩

/-- Why revm rejects a transaction: the two reasons the surfaces tell apart, all others by text. -/
inductive InvalidTransaction where
  | gasPriceLessThanBasefee
  | lackOfFundForMaxFee (fee balance : U256)
  | other (text : String)
  deriving DecidableEq

/-- revm's `EVMError`: every variant but `Transaction` is only ever shown by its debug text. -/
inductive EVMError where
  | transaction (reason : InvalidTransaction)
  | other (debug : String)
  deriving DecidableEq

inductive ExecutionResult where
  | success (gasUsed : UInt64) (output : Bytes)
  | revert (gasUsed : UInt64) (output : Bytes)
  | halt (gasUsed : UInt64) (reason : String)
  deriving DecidableEq

inductive SessionError where
  | unknown (id : SessionId)
  | execution (msg : String)
  | invalidTransaction (reason : InvalidTransaction)
  deriving DecidableEq

/-- revm: which questions it asks of its database for a transaction, and what comes of the
    answers. -/
abbrev Evm (E : Type) :=
  CfgEnv → BlockEnv → TxEnv → ReadProg E (Except EVMError (ExecutionResult × EvmState))

/-- Keeps a validation rejection typed and stringifies everything else. -/
def executionError : EVMError → SessionError
  | .transaction reason => .invalidTransaction reason
  | .other debug => .execution debug

variable {F E R : Type}

/-- One read of the session's `Database`. -/
abbrev ask (q : Query) : ReadProg E (Answer E q) := Tree.query q

/-- One EVM pass over `tx`, uncommitted: the result and the diff it would write. -/
def transact (evm : Evm E) (tx : TxEnv) (disableChecks : Bool) (blockEnv : BlockEnv) :
    ReadProg E (Except SessionError (ExecutionResult × EvmState)) :=
  let cfg : CfgEnv :=
    if disableChecks then { CfgEnv.mainnet with disableBalanceCheck := true, disableBaseFee := true }
    else .mainnet
  (evm cfg blockEnv tx).map (·.mapError executionError)

/-- What `execute` runs: sender and recipient touched first, whatever they answer. -/
def executePass (evm : Evm E) (tx : TxEnv) (disableChecks : Bool) (blockEnv : BlockEnv) :
    ReadProg E (Except SessionError (ExecutionResult × EvmState)) :=
  (ask (.basic tx.caller)).bind fun _ =>
    match tx.kind with
    | .call recipient =>
      (ask (.basic recipient)).bind fun _ => transact evm tx disableChecks blockEnv
    | .create => transact evm tx disableChecks blockEnv

variable [ToString E]

/-- `map_err(|e| SessionError::Execution(format!("{e}")))`. -/
def displayed {V : Type} (r : Except (SessionDbError E) V) : Except SessionError V :=
  r.mapError fun e => .execution e.display

def basicOf (address : Address) : ReadProg E (Except SessionError (Option AccountInfo)) :=
  (ask (.basic address)).map displayed

def storageOf (address : Address) (key : StorageKey) :
    ReadProg E (Except SessionError StorageValue) :=
  (ask (.storage address key)).map displayed

/-- An account's bytecode: the inline copy, none for the empty hash, else a lookup by hash. -/
def codeOf (address : Address) : ReadProg E (Except SessionError Bytes) :=
  (ask (.basic address)).bind fun answer =>
    match displayed answer with
    | .error e => .ret (.error e)
    | .ok info =>
      let info := info.getD .default
      match info.code with
      | some code => .ret (.ok code.originalBytes)
      | none =>
        if info.codeHash = keccakEmpty then .ret (.ok [])
        else (ask (.codeByHash info.codeHash)).map fun code =>
          displayed (code.map (·.originalBytes))

/-! ### One pass -/

/-- How a pass over a session ended. -/
inductive Pass (R : Type) where
  | done (result : R)
  | missed (keys : List StateKey)
  | panicked
  deriving DecidableEq

def Pass.map {S : Type} (f : R → S) : Pass R → Pass S
  | .done result => .done (f result)
  | .missed keys => .missed keys
  | .panicked => .panicked

variable [DecidableEq F]

/-- Run `f` blocking, or speculatively and keeping what it cached only if nothing was missing. -/
def attempt (up : F → Upstream E) (blocking : Bool) (f : ReadProg E R) :
    Session F × Fetch F → Pass R × (Session F × Fetch F)
  | (s, w) =>
    if blocking then
      match f.run (Session.answer (ReadThrough.db up)) (s, w) with
      | (some result, sw) => (.done result, sw)
      | (none, sw) => (.panicked, sw)
    else
      match Fetch.speculate (f.run (Session.answer (ReadThrough.db up))) s.beginSpeculation w with
      | (some (result, misses), s, w) =>
        if misses.isEmpty then (.done result, s.endSpeculation true, w)
        else (.missed misses, s.endSpeculation false, w)
      -- rolled back before the panic travels on
      | (none, s, w) => (.panicked, s.endSpeculation false, w)

/-- Run `tx`; with `commit`, write its diff into the overlay, but only after a clean pass. -/
def execute (up : F → Upstream E) (evm : Evm E) (tx : TxEnv)
    (commit disableChecks blocking : Bool) :
    Session F × Fetch F → Pass (Except SessionError ExecutionResult) × (Session F × Fetch F)
  | (s, w) =>
    match attempt up blocking (executePass evm tx disableChecks s.blockEnv) (s, w) with
    | (.done (.ok (result, state)), s, w) =>
      (.done (.ok result), if commit then s.commit state else s, w)
    | (.done (.error e), s, w) => (.done (.error e), s, w)
    | (.missed keys, s, w) => (.missed keys, s, w)
    | (.panicked, s, w) => (.panicked, s, w)

/-! ### What a pass can do -/

/-- How an attempt at `f` on `s` can end: with the blocking run's own result and session, or with
    the session as it was. -/
inductive Attempted (up : F → Upstream E) (f : ReadProg E R) (s : Session F) (blocking : Bool) :
    Pass R → Session F → Prop
  | done {result : R} {s' : Session F}
      (hrun : f.run (Session.answer (Upstream.db up)) (s, ()) = (some result, s', ())) :
      Attempted up f s blocking (.done result) s'
  | missed {keys : List StateKey} (hb : blocking = false) :
      Attempted up f s blocking (.missed keys) s
  | unwound (hb : blocking = false) (hp : ¬ f.NoPanic) : Attempted up f s blocking .panicked s
  | panicked {s' : Session F} (hb : blocking = true)
      (hrun : f.run (Session.answer (Upstream.db up)) (s, ()) = (none, s', ())) :
      Attempted up f s blocking .panicked s'

omit [ToString E] in
/-- A clean speculative pass is the blocking run. -/
theorem speculate_clean (up : F → Upstream E) (f : ReadProg E R) {s : Session F} {w : Fetch F}
    (hs : s.readLog = none) (hw : w.Coherent up) {o : Option R} {s' : Session F} {w' : Fetch F}
    (hrun : f.run (Session.answer (ReadThrough.db up))
      (s.beginSpeculation, { w with misses := some [] }) = (o, s', w'))
    (hclean : w'.misses.getD [] = []) :
    f.run (Session.answer (Upstream.db up)) (s, ()) = (o, s'.unlogged, ()) := by
  have hunguessed : ReadThrough.Unguessed w' := by
    cases hm : w'.misses with
    | none => exact .inl hm
    | some misses => rw [hm] at hclean; exact .inr (hm.trans (congrArg some hclean))
  have hguess := Session.run_guessing (ReadThrough.guessing up) f s.beginSpeculation
    (Fetch.coherent_misses hw (some [])) (by rw [hrun]; exact hunguessed)
  have hlog := Session.run_unlogged (Upstream.db up) f (s := s.beginSpeculation) (t := s) () rfl
  have hnone := Session.run_readLog (Upstream.db up) f () hs
  rw [hrun] at hguess
  refine Prod.ext (hlog.1.symm.trans hguess.1.symm) (Prod.ext ?_ rfl)
  rw [← Session.unlogged_of_none hnone, ← hlog.2.1, ← hguess.2]

omit [ToString E] in
/-- ONE PASS: between jobs or between passes, an attempt ends in one of the ways `Attempted` lists
    and leaves the thread idle again. -/
theorem attempt_attempted (up : F → Upstream E) (blocking : Bool) (f : ReadProg E R)
    {s : Session F} {w : Fetch F} (hs : s.readLog = none) (hw : ReadThrough.Idle up w) :
    Attempted up f s blocking (attempt up blocking f (s, w)).1 (attempt up blocking f (s, w)).2.1 ∧
      ReadThrough.Idle up (attempt up blocking f (s, w)).2.2 := by
  cases blocking with
  | true =>
    have hkeeps := Session.run_keeps (ReadThrough.faithful up) f s hw
    have hguess := Session.run_guessing (ReadThrough.faithful up) f s hw trivial
    rcases hrun : f.run (Session.answer (ReadThrough.db up)) (s, w) with ⟨o, s', w'⟩
    rw [hrun] at hkeeps hguess
    have hpure : f.run (Session.answer (Upstream.db up)) (s, ()) = (o, s', ()) :=
      Prod.ext hguess.1.symm (Prod.ext hguess.2.symm rfl)
    simp only [attempt, if_true, hrun]
    cases o with
    | some result => exact ⟨.done hpure, hkeeps⟩
    | none => exact ⟨.panicked rfl hpure, hkeeps⟩
  | false =>
    have hkeeps := Session.run_keeps (ReadThrough.guessing up) f s.beginSpeculation
      (Fetch.coherent_misses hw.coherent (some []))
    have hback := Session.rollback (ReadThrough.db up) f { w with misses := some [] } hs
    rcases hrun : f.run (Session.answer (ReadThrough.db up))
      (s.beginSpeculation, { w with misses := some [] }) with ⟨o, s', w'⟩
    rw [hrun] at hkeeps hback
    have hidle : ReadThrough.Idle up { w' with misses := w.misses } :=
      ⟨Fetch.coherent_misses hkeeps w.misses, hw.misses⟩
    simp only [attempt, Bool.false_eq_true, if_false, Fetch.speculate, hrun]
    cases o with
    | none => simp only [hback]; exact ⟨.unwound rfl (Tree.not_noPanic hrun), hidle⟩
    | some result =>
      simp only
      by_cases hempty : (sortDedup (w'.misses.getD [])).isEmpty = true
      · have hclean : w'.misses.getD [] = [] :=
          (sortDedup_nil _).mp (List.isEmpty_iff.mp hempty)
        simp only [if_pos hempty, Session.endSpeculation_true]
        exact ⟨.done (speculate_clean up f hs hw.coherent hrun hclean), hidle⟩
      · simp only [if_neg hempty, hback]
        exact ⟨.missed rfl, hidle⟩

end Forkyard
