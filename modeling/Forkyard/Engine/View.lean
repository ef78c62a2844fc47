import Forkyard.Engine.Session

/-! What a session is for: to its reader it is one private total map. `view` is that map, the layers
    of a session seen as one; the operations of a session are the plain updates of it, and a read
    program run against the layers is the same program evaluated against the map. -/

namespace Forkyard

open Schemes

variable {F W E : Type}

/-- A private total map: for every key a value, or the error a read of it reports. -/
abbrev FullMap (E : Type) := Upstream E

namespace FullMap

/-- What a `Database` over the map answers. A slot without a value reads as zero. -/
def answer (m : FullMap E) : (q : Query) → Answer E q
  | .basic address => (m.basic address).mapError .fallback
  | .codeByHash codeHash => (m.codeByHash codeHash).mapError fun _ => .codeMiss codeHash
  | .storage address index => .ok ((m.storage address index).toOption.getD 0)
  | .blockHash number => (m.blockHash number).mapError .fallback

def setAccount (m : FullMap E) (address : Address) (info : AccountInfo) : FullMap E :=
  { m with basic := Function.update m.basic address (.ok (some info)) }

def setCode (m : FullMap E) (codeHash : B256) (code : Bytecode) : FullMap E :=
  { m with codeByHash := Function.update m.codeByHash codeHash (.ok code) }

def setStorage (m : FullMap E) (address : Address) (index : StorageKey) (value : StorageValue) :
    FullMap E :=
  { m with
    storage := fun a i => if (a, i) = (address, index) then .ok value else m.storage a i }

/-- The map that starts as `base` where it has an entry and as `source` elsewhere. -/
def ofBase (base : BaseSnapshot) (source : Upstream E) : FullMap E where
  basic address := match base.accounts.lookup address with
    | some info => .ok (some info)
    | none => source.basic address
  codeByHash codeHash := match base.code.lookup codeHash with
    | some code => .ok code
    | none => source.codeByHash codeHash
  storage address index := match base.storage.lookup (address, index) with
    | some value => .ok value
    | none => source.storage address index
  blockHash number := match base.blockHashes.lookup number with
    | some hash => .ok hash
    | none => source.blockHash number

/-- Lay a saved state over the map, entry by entry. -/
def overlay (m : FullMap E) (state : SessionState) : FullMap E :=
  let m := state.accounts.foldl (fun m kv => setAccount m kv.1 kv.2) m
  let m := state.code.foldl (fun m kv => setCode m kv.1 kv.2) m
  state.storage.foldl (fun m kv => setStorage m kv.1.1 kv.1.2 kv.2) m

/-- Write just the infos and slot values of a diff. -/
def commit (m : FullMap E) (changes : EvmState) : FullMap E :=
  changes.accounts.foldl (fun m change =>
    setAccount (change.2.storage.foldl
      (fun m slot => setStorage m change.1 slot.1 slot.2.presentValue) m) change.1 change.2.info) m

theorem setAccount_self {m : FullMap E} {address : Address} {info : AccountInfo}
    (h : m.basic address = .ok (some info)) : m.setAccount address info = m := by
  rw [setAccount, ← h, Function.update_eq_self]

theorem setCode_self {m : FullMap E} {codeHash : B256} {code : Bytecode}
    (h : m.codeByHash codeHash = .ok code) : m.setCode codeHash code = m := by
  rw [setCode, ← h, Function.update_eq_self]

theorem setStorage_self {m : FullMap E} {address : Address} {index : StorageKey}
    {value : StorageValue} (h : m.storage address index = .ok value) :
    m.setStorage address index value = m := by
  have hsame : (fun a i => if (a, i) = (address, index) then .ok value else m.storage a i)
      = m.storage := by
    funext a i
    by_cases hk : (a, i) = (address, index)
    · obtain ⟨rfl, rfl⟩ := Prod.mk.inj hk
      rw [if_pos rfl, h]
    · rw [if_neg hk]
  rw [setStorage, hsame]

end FullMap

namespace Session

/-- Base and overlay as one snapshot, the overlay winning. -/
def folded (s : Session F) : BaseSnapshot where
  accounts := s.overlayAccounts ∪ s.base.accounts
  code := s.overlayCode ∪ s.base.code
  storage := s.overlayStorage ∪ s.base.storage
  blockHashes := s.base.blockHashes

/-- The layers of a session as the one map its reader sees. -/
def view (up : F → Upstream E) (s : Session F) : FullMap E :=
  FullMap.ofBase s.folded (up s.fallback)

variable (up : F → Upstream E)

theorem view_basic (s : Session F) (address : Address) : (s.view up).basic address
    = match (s.overlayAccounts.lookup address).or (s.base.accounts.lookup address) with
      | some info => .ok (some info)
      | none => (up s.fallback).basic address := by
  simp only [view, folded, FullMap.ofBase, Map.lookup_union]

theorem view_codeByHash (s : Session F) (codeHash : B256) : (s.view up).codeByHash codeHash
    = match (s.overlayCode.lookup codeHash).or (s.base.code.lookup codeHash) with
      | some code => .ok code
      | none => (up s.fallback).codeByHash codeHash := by
  simp only [view, folded, FullMap.ofBase, Map.lookup_union]

theorem view_storage (s : Session F) (address : Address) (index : StorageKey) :
    (s.view up).storage address index = match
        (s.overlayStorage.lookup (address, index)).or (s.base.storage.lookup (address, index)) with
      | some value => .ok value
      | none => (up s.fallback).storage address index := by
  simp only [view, folded, FullMap.ofBase, Map.lookup_union]

/-! ### Every operation of a session is the plain update of its view -/

theorem view_fork (base : BaseSnapshot) (fallback : F) (blockEnv : BlockEnv) :
    (fork base fallback blockEnv).view up = FullMap.ofBase base (up fallback) := by
  simp only [view, folded, fork, Finmap.empty_union]

/-- A child starts exactly at its parent's current state. -/
theorem view_branch (s : Session F) : s.branch.view up = s.view up := by
  simp only [view, folded, branch, Finmap.empty_union]

theorem view_setAccount (s : Session F) (address : Address) (info : AccountInfo) :
    (s.setAccount address info).view up = (s.view up).setAccount address info := by
  simp only [view, folded, setAccount, FullMap.ofBase, FullMap.setAccount, ← Finmap.insert_union,
    Map.lookup_insert_eq]
  congr 1
  funext a
  by_cases h : a = address <;> simp [h]

theorem view_setCode (s : Session F) (codeHash : B256) (code : Bytecode) :
    ({ s with overlayCode := s.overlayCode.insert codeHash code } : Session F).view up
      = (s.view up).setCode codeHash code := by
  simp only [view, folded, FullMap.ofBase, FullMap.setCode, ← Finmap.insert_union,
    Map.lookup_insert_eq]
  congr 1
  funext h'
  by_cases h : h' = codeHash <;> simp [h]

theorem view_setStorage (s : Session F) (address : Address) (key : StorageKey)
    (value : StorageValue) :
    (s.setStorage address key value).view up = (s.view up).setStorage address key value := by
  simp only [view, folded, setStorage, FullMap.ofBase, FullMap.setStorage, ← Finmap.insert_union,
    Map.lookup_insert_eq]
  congr 1
  funext a i
  by_cases h : (a, i) = (address, key) <;> simp [h]

theorem view_logRead (s : Session F) (key : ReadKey) : (s.logRead key).view up = s.view up := rfl

theorem view_commitAccount (s : Session F) (change : Address × Account) :
    (s.commitAccount change).view up = ((change.2.storage.foldl
      (fun m slot => FullMap.setStorage m change.1 slot.1 slot.2.presentValue)
      (s.view up))).setAccount change.1 change.2.info := by
  have hslots : ∀ (slots : List (StorageKey × EvmStorageSlot)) (s : Session F),
      (slots.foldl (fun s slot => s.setStorage change.1 slot.1 slot.2.presentValue) s).view up
        = slots.foldl (fun m slot => FullMap.setStorage m change.1 slot.1 slot.2.presentValue)
            (s.view up) := by
    intro slots
    induction slots with
    | nil => intro s; rfl
    | cons slot slots ih => intro s; simp only [List.foldl_cons, ih, view_setStorage]
  rw [commitAccount, view_setAccount, hslots]

/-- A commit writes just the infos and slot values of its diff. -/
theorem view_commit (s : Session F) (changes : EvmState) :
    (s.commit changes).view up = (s.view up).commit changes := by
  obtain ⟨accounts, hnodup⟩ := changes
  simp only [commit, FullMap.commit]
  clear hnodup
  induction accounts generalizing s with
  | nil => rfl
  | cons change rest ih =>
    simp only [List.foldl_cons, ← view_commitAccount]
    exact ih (s.commitAccount change)

/-- Extending an overlay by a list is writing the list's entries one after another. -/
theorem view_restore (base : BaseSnapshot) (fallback : F) (blockEnv : BlockEnv)
    (state : SessionState) :
    (restore base fallback blockEnv state).view up
      = (FullMap.ofBase base (up fallback)).overlay state := by
  have haccounts : ∀ (kvs : List (Address × AccountInfo)) (s : Session F),
      ({ s with overlayAccounts := s.overlayAccounts.extend kvs } : Session F).view up
        = kvs.foldl (fun m kv => FullMap.setAccount m kv.1 kv.2) (s.view up) := by
    intro kvs
    induction kvs with
    | nil => intro s; rfl
    | cons kv kvs ih => intro s; rw [List.foldl_cons, ← view_setAccount, ← ih]; rfl
  have hcode : ∀ (kvs : List (B256 × Bytecode)) (s : Session F),
      ({ s with overlayCode := s.overlayCode.extend kvs } : Session F).view up
        = kvs.foldl (fun m kv => FullMap.setCode m kv.1 kv.2) (s.view up) := by
    intro kvs
    induction kvs with
    | nil => intro s; rfl
    | cons kv kvs ih => intro s; rw [List.foldl_cons, ← view_setCode, ← ih]; rfl
  have hstorage : ∀ (kvs : List ((Address × StorageKey) × StorageValue)) (s : Session F),
      ({ s with overlayStorage := s.overlayStorage.extend kvs } : Session F).view up
        = kvs.foldl (fun m kv => FullMap.setStorage m kv.1.1 kv.1.2 kv.2) (s.view up) := by
    intro kvs
    induction kvs with
    | nil => intro s; rfl
    | cons kv kvs ih => intro s; rw [List.foldl_cons, ← view_setStorage, ← ih]; rfl
  simp only [restore, FullMap.overlay]
  rw [← view_fork up base fallback blockEnv, ← haccounts, ← hcode, ← hstorage]

/-! ### Reading through a fallback that may guess -/

/-- A read that, in a world with `I`, is told `truth` unless it leaves the world unclean, and after
    which an unclean world stays so. -/
structure Tells {α : Type} (read : W → α × W) (truth : α) (I clean : W → Prop) : Prop where
  back : ∀ w, clean (read w).2 → clean w
  keeps : ∀ w, I w → I (read w).2
  tells : ∀ w, I w → clean (read w).2 → (read w).1 = truth

/-- A read that asks nothing of the world. -/
theorem Tells.of_const {α : Type} {read : W → α × W} {truth : α} (h : ∀ w, read w = (truth, w)) :
    Tells read truth I clean := by
  obtain rfl : read = fun w => (truth, w) := funext h
  exact ⟨fun _ h => h, fun _ h => h, fun _ _ _ => rfl⟩

/-- What is made of a read's answer is told as the read is. -/
theorem Tells.of_eq {α β : Type} {read : W → α × W} {truth : α} (h : Tells read truth I clean)
    (f : α → β) {read' : W → β × W} {truth' : β} (hread : ∀ w, read' w = (f (read w).1, (read w).2))
    (htruth : truth' = f truth) : Tells read' truth' I clean := by
  obtain rfl : read' = fun w => (f (read w).1, (read w).2) := funext hread
  exact ⟨h.back, h.keeps, fun w hw hc => by rw [htruth, h.tells w hw hc]⟩

/-- A fallback that answers as `up` does wherever it does not guess. -/
structure Guessing (db : DatabaseRef F W E) (up : F → Upstream E) (I clean : W → Prop) : Prop where
  basic : ∀ f address, Tells (db.basicRef f address) ((up f).basic address) I clean
  codeByHash : ∀ f codeHash, Tells (db.codeByHashRef f codeHash) ((up f).codeByHash codeHash) I clean
  storage : ∀ f address index,
    Tells (db.storageRef f address index) ((up f).storage address index) I clean
  blockHash : ∀ f number, Tells (db.blockHashRef f number) ((up f).blockHash number) I clean

/-- A fallback that never guesses. -/
def Faithful (db : DatabaseRef F W E) (up : F → Upstream E) (I : W → Prop) : Prop :=
  Guessing db up I fun _ => True

theorem faithful_upstream : Faithful (Upstream.db up) up fun _ => True :=
  ⟨fun _ _ => ⟨fun _ _ => trivial, fun _ _ => trivial, fun _ _ _ => rfl⟩,
    fun _ _ => ⟨fun _ _ => trivial, fun _ _ => trivial, fun _ _ _ => rfl⟩,
    fun _ _ _ => ⟨fun _ _ => trivial, fun _ _ => trivial, fun _ _ _ => rfl⟩,
    fun _ _ => ⟨fun _ _ => trivial, fun _ _ => trivial, fun _ _ _ => rfl⟩⟩

variable {up} {db : DatabaseRef F W E} {I clean : W → Prop}

/-- Unless the fallback guessed, a session answers and caches as if upstream sat right below it. -/
theorem answer_guessing (hdb : Guessing db up I clean) (q : Query) (s : Session F) :
    Tells (fun w => (((answer db q (s, w)).1, (answer db q (s, w)).2.1), (answer db q (s, w)).2.2))
      ((answer (Upstream.db up) q (s, ())).1, (answer (Upstream.db up) q (s, ())).2.1) I clean := by
  cases q with
  | basic address =>
    simp only [answer, basic, Upstream.db]
    cases s.overlayAccounts.lookup address with
    | some info => exact .of_const fun _ => rfl
    | none =>
      cases s.base.accounts.lookup address with
      | some info => exact .of_const fun _ => rfl
      | none =>
        refine (hdb.basic s.fallback address).of_eq (fun
          | .error e => (.error (.fallback e), s)
          | .ok none => (.ok none, s)
          | .ok (some info) =>
            (.ok (some info), (s.setAccount address info).logRead (.account address)))
          (fun w => ?_) ?_
        · rcases db.basicRef s.fallback address w with ⟨e | _ | info, w'⟩ <;> rfl
        · rcases (up s.fallback).basic address with e | _ | info <;> rfl
  | codeByHash codeHash =>
    simp only [answer, codeByHash, Upstream.db]
    cases s.overlayCode.lookup codeHash with
    | some code => exact .of_const fun _ => rfl
    | none =>
      cases s.base.code.lookup codeHash with
      | some code => exact .of_const fun _ => rfl
      | none =>
        refine (hdb.codeByHash s.fallback codeHash).of_eq (fun
          | .error _ => (.error (.codeMiss codeHash), s)
          | .ok code => (.ok code,
            { s with overlayCode := s.overlayCode.insert codeHash code }.logRead (.code codeHash)))
          (fun w => ?_) ?_
        · rcases db.codeByHashRef s.fallback codeHash w with ⟨e | code, w'⟩ <;> rfl
        · rcases (up s.fallback).codeByHash codeHash with e | code <;> rfl
  | storage address index =>
    simp only [answer, storage, Upstream.db]
    cases s.overlayStorage.lookup (address, index) with
    | some value => exact .of_const fun _ => rfl
    | none =>
      cases s.base.storage.lookup (address, index) with
      | some value => exact .of_const fun _ => rfl
      | none =>
        refine (hdb.storage s.fallback address index).of_eq (fun
          | .error _ => (.ok 0, s)
          | .ok value =>
            (.ok value, (s.setStorage address index value).logRead (.storage address index)))
          (fun w => ?_) ?_
        · rcases db.storageRef s.fallback address index w with ⟨e | value, w'⟩ <;> rfl
        · rcases (up s.fallback).storage address index with e | value <;> rfl
  | blockHash number =>
    simp only [answer, blockHash, Upstream.db]
    cases s.base.blockHashes.lookup number with
    | some hash => exact .of_const fun _ => rfl
    | none =>
      refine (hdb.blockHash s.fallback number).of_eq (fun
        | .error e => (.error (.fallback e), s)
        | .ok hash => (.ok hash, s)) (fun w => ?_) ?_
      · rcases db.blockHashRef s.fallback number w with ⟨e | hash, w'⟩ <;> rfl
      · rcases (up s.fallback).blockHash number with e | hash <;> rfl

/-- A run that ends without a guess is the run over upstream. -/
theorem run_guessing {R : Type} (hdb : Guessing db up I clean) (p : ReadProg E R) (s : Session F)
    {w : W} (hw : I w) (hclean : clean (p.run (answer db) (s, w)).2.2) :
    (p.run (answer db) (s, w)).1 = (p.run (answer (Upstream.db up)) (s, ())).1 ∧
      (p.run (answer db) (s, w)).2.1 = (p.run (answer (Upstream.db up)) (s, ())).2.1 := by
  have hrun := Tree.run_clean (h := answer db) (g := answer (Upstream.db up))
    (C := fun sw => clean sw.2) (P := fun sw tu => sw.1 = tu.1 ∧ I sw.2) ?_ ?_ p (s, w) (s, ())
    ⟨rfl, hw⟩ hclean
  · exact ⟨hrun.1, hrun.2.1⟩
  · rintro q ⟨s', w'⟩ ⟨t, -⟩ ⟨rfl, hI⟩ hc
    have hread := answer_guessing hdb q s'
    have heq := Prod.ext_iff.mp (hread.tells w' hI hc)
    exact ⟨heq.1, heq.2, hread.keeps w' hI⟩
  · rintro q ⟨s', w'⟩ hc
    exact (answer_guessing hdb q s').back w' hc

theorem run_keeps {R : Type} (hdb : Guessing db up I clean) (p : ReadProg E R) (s : Session F)
    {w : W} (hw : I w) : I (p.run (answer db) (s, w)).2.2 :=
  Tree.run_inv (P := fun sw => I sw.2)
    (fun q sw hI => (answer_guessing hdb q sw.1).keeps sw.2 hI) p (s, w) hw

/-- Read through a faithful fallback, a session answers and caches as if upstream sat right below
    it. -/
theorem answer_faithful (hdb : Faithful db up I) (q : Query) (s : Session F) (w : W) (hw : I w) :
    (answer db q (s, w)).1 = (answer (Upstream.db up) q (s, ())).1 ∧
      (answer db q (s, w)).2.1 = (answer (Upstream.db up) q (s, ())).2.1 ∧
      I (answer db q (s, w)).2.2 := by
  have hread := answer_guessing hdb q s
  have heq := Prod.ext_iff.mp (hread.tells w hw trivial)
  exact ⟨heq.1, heq.2, hread.keeps w hw⟩

variable (up) in
/-- A read answers what the view holds, and caching its answer does not change the view. -/
theorem answer_view (q : Query) (s : Session F) :
    (answer (Upstream.db up) q (s, ())).1 = (s.view up).answer q ∧
      (answer (Upstream.db up) q (s, ())).2.1.view up = s.view up := by
  cases q with
  | basic address =>
    have hview := view_basic up s address
    simp only [answer, basic, FullMap.answer, Upstream.db]
    cases ho : s.overlayAccounts.lookup address with
    | some info => rw [ho, Option.some_or] at hview; rw [hview]; exact ⟨rfl, rfl⟩
    | none =>
      rw [ho, Option.none_or] at hview
      cases hb : s.base.accounts.lookup address with
      | some info => rw [hb] at hview; rw [hview]; exact ⟨rfl, rfl⟩
      | none =>
        rw [hb] at hview
        rw [hview]
        rcases hu : (up s.fallback).basic address with e | _ | info
        · exact ⟨rfl, rfl⟩
        · exact ⟨rfl, rfl⟩
        · refine ⟨rfl, ?_⟩
          rw [view_logRead, view_setAccount, FullMap.setAccount_self (hview.trans hu)]
  | codeByHash codeHash =>
    have hview := view_codeByHash up s codeHash
    simp only [answer, codeByHash, FullMap.answer, Upstream.db]
    cases ho : s.overlayCode.lookup codeHash with
    | some code => rw [ho, Option.some_or] at hview; rw [hview]; exact ⟨rfl, rfl⟩
    | none =>
      rw [ho, Option.none_or] at hview
      cases hb : s.base.code.lookup codeHash with
      | some code => rw [hb] at hview; rw [hview]; exact ⟨rfl, rfl⟩
      | none =>
        rw [hb] at hview
        rw [hview]
        rcases hu : (up s.fallback).codeByHash codeHash with e | code
        · exact ⟨rfl, rfl⟩
        · refine ⟨rfl, ?_⟩
          rw [view_logRead, view_setCode, FullMap.setCode_self (hview.trans hu)]
  | storage address index =>
    have hview := view_storage up s address index
    simp only [answer, storage, FullMap.answer, Upstream.db]
    cases ho : s.overlayStorage.lookup (address, index) with
    | some value => rw [ho, Option.some_or] at hview; rw [hview]; exact ⟨rfl, rfl⟩
    | none =>
      rw [ho, Option.none_or] at hview
      cases hb : s.base.storage.lookup (address, index) with
      | some value => rw [hb] at hview; rw [hview]; exact ⟨rfl, rfl⟩
      | none =>
        rw [hb] at hview
        rw [hview]
        rcases hu : (up s.fallback).storage address index with e | value
        · exact ⟨rfl, rfl⟩
        · refine ⟨rfl, ?_⟩
          rw [view_logRead, view_setStorage, FullMap.setStorage_self (hview.trans hu)]
  | blockHash number =>
    simp only [answer, blockHash, FullMap.answer, Upstream.db, view, folded, FullMap.ofBase]
    cases s.base.blockHashes.lookup number with
    | some hash => exact ⟨rfl, rfl⟩
    | none => rcases (up s.fallback).blockHash number with e | hash <;> exact ⟨rfl, rfl⟩

/-- What a session answers to one question. -/
def reads (db : DatabaseRef F W E) (s : Session F) (w : W) (q : Query) : Answer E q :=
  (answer db q (s, w)).1

theorem reads_view (hdb : Faithful db up I) (s : Session F) {w : W} (hw : I w) :
    reads db s w = (s.view up).answer := by
  funext q
  rw [reads, (answer_faithful hdb q s w hw).1, (answer_view up q s).1]

/-- A read program run on a session evaluates against its view, and leaves the view as it was. -/
theorem run_view {R : Type} (hdb : Faithful db up I) (p : ReadProg E R) (s : Session F) (w : W)
    (hw : I w) :
    (p.run (answer db) (s, w)).1 = p.eval (s.view up).answer ∧
      (p.run (answer db) (s, w)).2.1.view up = s.view up ∧ I (p.run (answer db) (s, w)).2.2 := by
  refine Tree.run_eval (P := fun sw => sw.1.view up = s.view up ∧ I sw.2) ?_ p (s, w) ⟨rfl, hw⟩
  rintro q ⟨s', w'⟩ ⟨hv, hI⟩
  obtain ⟨ha, hs, hI'⟩ := answer_faithful hdb q s' w' hI
  obtain ⟨ha', hv'⟩ := answer_view up q s'
  exact ⟨by rw [ha, ha', hv], by rw [hs, hv', hv], hI'⟩

end Session

/-! ### A session on an empty chain -/

def vacantDb : DatabaseRef Unit Unit String := Upstream.db fun _ => .vacant "missing"

theorem vacant_faithful :
    Session.Faithful vacantDb (fun _ => Upstream.vacant "missing") fun _ => True :=
  Session.faithful_upstream _

def freshSession : Session Unit := .fork .empty () ⟨1, 0, 0, 30000000⟩

end Forkyard
