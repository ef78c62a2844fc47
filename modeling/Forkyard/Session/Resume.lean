import Forkyard.Engine.Commit
import Forkyard.Engine.Own
import Forkyard.Session.Attempt

/-! What a snapshot is for: laid over any base of its block, it is the session it was taken from.
    The file keeps no inline code, no inherited layer and no folded base, so the argument is about
    code: over a coherent base every account below the own entries has its code, and every own
    account has whatever code it had, since no two pieces of code share a hash.

        s ──state, store──▶ file ──load, restore──▶ t over another base
        reads of t = reads of s,  code of t = code of s wherever s has any -/

namespace Forkyard

open Schemes

variable {F F' W W' E : Type}

/-! ### Own entries over a coherent base -/

namespace FullMap

variable {book : Codebook} {base own : BaseSnapshot} {u : Upstream E}

/-- All the map tells about code is where it belongs. -/
structure CodeOk (book : Codebook) (m : FullMap E) : Prop where
  inline : ∀ address info, m.basic address = .ok (some info) → book.InfoOk info
  byHash : ∀ codeHash code, m.codeByHash codeHash = .ok code → book.Fits codeHash code

/-- The code of the account is somewhere to be found. -/
def HasCode (m : FullMap E) (info : AccountInfo) : Prop :=
  info.code ≠ none ∨ info.codeHash = keccakEmpty ∨ ∃ code, m.codeByHash info.codeHash = .ok code

theorem laid_basic (address : Address) :
    (ofBase (base.mergedWith own) u).basic address = match own.accounts.lookup address with
      | some info => .ok (some info)
      | none => (ofBase base u).basic address := by
  simp only [ofBase, BaseSnapshot.mergedWith, Map.lookup_union]
  cases own.accounts.lookup address <;> rfl

theorem laid_codeByHash (codeHash : B256) :
    (ofBase (base.mergedWith own) u).codeByHash codeHash = match own.code.lookup codeHash with
      | some code => .ok code
      | none => (ofBase base u).codeByHash codeHash := by
  simp only [ofBase, BaseSnapshot.mergedWith, Map.lookup_union]
  cases own.code.lookup codeHash <;> rfl

theorem laid_storage (hbase : base.CoherentWith book u) (address : Address) (index : StorageKey) :
    (ofBase (base.mergedWith own) u).storage address index
      = match own.storage.lookup (address, index) with
      | some value => .ok value
      | none => u.storage address index := by
  simp only [ofBase, BaseSnapshot.mergedWith, Map.lookup_union]
  cases own.storage.lookup (address, index) with
  | some value => rfl
  | none =>
    rw [Option.none_or]
    cases hget : base.storage.lookup (address, index) with
    | some value => exact (hbase.storage address index value hget).symm
    | none => rfl

theorem laid_blockHash (hbase : base.CoherentWith book u) (hown : own.blockHashes = ∅)
    (number : UInt64) : (ofBase (base.mergedWith own) u).blockHash number = u.blockHash number := by
  simp only [ofBase, BaseSnapshot.mergedWith, hown, Finmap.empty_union]
  cases hget : base.blockHashes.lookup number with
  | some hash => exact (hbase.blockHashes number hash hget).symm
  | none => rfl

/-- Below its own entries a map tells of accounts what upstream does, but for where code is kept. -/
theorem coherent_bare (hbase : base.CoherentWith book u) (address : Address) :
    ((ofBase base u).basic address).map (Option.map AccountInfo.bare)
      = (u.basic address).map (Option.map AccountInfo.bare) := by
  simp only [ofBase]
  cases hget : base.accounts.lookup address with
  | none => rfl
  | some info =>
    obtain ⟨read, hread, hbare⟩ := hbase.accounts address info hget
    simp only [hread, Except.map, Option.map_some, hbare]

/-- Own accounts refitted, over another coherent base, are the same but for where code is kept. -/
theorem refitted_bare {base' own' : BaseSnapshot} {code : Map B256 Bytecode}
    (hbase : base.CoherentWith book u) (hbase' : base'.CoherentWith book u)
    (haccounts : ∀ address, own'.accounts.lookup address
      = (own.accounts.lookup address).map (refit code)) (address : Address) :
    ((ofBase (base'.mergedWith own') u).basic address).map (Option.map AccountInfo.bare)
      = ((ofBase (base.mergedWith own) u).basic address).map (Option.map AccountInfo.bare) := by
  rw [laid_basic, laid_basic, haccounts]
  cases own.accounts.lookup address with
  | some info => rfl
  -- below the own entries both maps tell what upstream does
  | none => exact (coherent_bare hbase' address).trans (coherent_bare hbase address).symm

/-- Below its own entries a map finds the code of every account. -/
theorem coherent_hasCode (hbase : base.CoherentWith book u) (hup : book.Delivers u)
    {address : Address} {info : AccountInfo}
    (h : (ofBase base u).basic address = .ok (some info)) :
    HasCode (ofBase (base.mergedWith own) u) info := by
  by_cases hne : info.codeHash = keccakEmpty
  · exact .inr (.inl hne)
  by_cases hinline : info.code = none
  swap
  · exact .inl hinline
  cases hget : base.accounts.lookup address with
  | none =>
    simp only [ofBase, hget] at h
    exact absurd hinline ((hup.inline address info h).2 hne)
  | some info' =>
    simp only [ofBase, hget] at h
    obtain rfl := Option.some.inj (Except.ok.inj h)
    obtain ⟨code, hcode⟩ := Option.ne_none_iff_exists'.mp
      ((hbase.inline address info' hget).2 hne hinline)
    refine .inr (.inr ?_)
    rw [laid_codeByHash]
    cases own.code.lookup info'.codeHash with
    | some code => exact ⟨code, rfl⟩
    | none => exact ⟨code, by simp only [ofBase, hcode]⟩

theorem laid_codeOk (hbase : base.CoherentWith book u) (hup : book.Delivers u)
    (haccounts : ∀ address info, own.accounts.lookup address = some info → book.InfoOk info)
    (hcode : ∀ codeHash code, own.code.lookup codeHash = some code → book.Fits codeHash code) :
    CodeOk book (ofBase (base.mergedWith own) u) := by
  refine ⟨fun address info h => ?_, fun codeHash code h => ?_⟩
  · rw [laid_basic] at h
    cases hget : own.accounts.lookup address with
    | some info' =>
      rw [hget] at h
      obtain rfl := Option.some.inj (Except.ok.inj h)
      exact haccounts address info' hget
    | none =>
      simp only [hget, ofBase] at h
      cases hbelow : base.accounts.lookup address with
      | some info' =>
        rw [hbelow] at h
        obtain rfl := Option.some.inj (Except.ok.inj h)
        exact (hbase.inline address info' hbelow).1
      | none =>
        rw [hbelow] at h
        exact (hup.inline address info h).1
  · rw [laid_codeByHash] at h
    cases hget : own.code.lookup codeHash with
    | some code' =>
      rw [hget] at h
      obtain rfl := Except.ok.inj h
      exact hcode codeHash code' hget
    | none =>
      simp only [hget, ofBase] at h
      cases hbelow : base.code.lookup codeHash with
      | some code' =>
        rw [hbelow] at h
        obtain rfl := Except.ok.inj h
        exact hbase.code codeHash code' hbelow
      | none =>
        rw [hbelow] at h
        exact hup.byHash codeHash code h

theorem answer_bare (m : FullMap E) (address : Address) :
    (m.answer (.basic address)).map (Option.map AccountInfo.bare)
      = ((m.basic address).map (Option.map AccountInfo.bare)).mapError .fallback := by
  simp only [answer]
  cases m.basic address <;> rfl

/-! ### Code of an address -/

/-- What the map tells of an account's code. -/
def code (m : FullMap E) (info : AccountInfo) : Except (SessionDbError E) Bytes :=
  World.codeOf (fun codeHash => m.answer (.codeByHash codeHash)) info

theorem codeOf_eval [ToString E] (m : FullMap E) (address : Address) :
    (codeOf address).eval m.answer = some (match m.basic address with
      | .error e => displayed (.error (.fallback e))
      | .ok info => displayed (m.code (info.getD .default))) := by
  simp only [codeOf, ask, Tree.query, Tree.bind, Tree.eval, answer]
  cases m.basic address with
  | error e => rfl
  | ok info =>
    simp only [Except.mapError, displayed, code, World.codeOf]
    cases (info.getD .default).code with
    | some bytecode => rfl
    | none =>
      by_cases hne : (info.getD .default).codeHash = keccakEmpty
      · simp only [if_pos hne]
        rfl
      · simp only [if_neg hne]
        rfl

theorem code_found {m : FullMap E} (hm : m.CodeOk book) {info : AccountInfo}
    (hinfo : book.InfoOk info) (h : m.HasCode info) :
    ∃ bytecode, book.Fits info.codeHash bytecode ∧ m.code info = .ok bytecode.originalBytes := by
  unfold code World.codeOf
  cases hinline : info.code with
  | some bytecode => exact ⟨bytecode, hinfo bytecode hinline, rfl⟩
  | none =>
    by_cases hne : info.codeHash = keccakEmpty
    · refine ⟨⟨[]⟩, ?_, if_pos hne⟩
      rw [hne]
      exact Codebook.fits_empty
    · obtain ⟨bytecode, hget⟩ := (h.resolve_left (not_not.mpr hinline)).resolve_left hne
      refine ⟨bytecode, hm.byHash info.codeHash bytecode hget, ?_⟩
      simp only [if_neg hne, answer, hget]
      rfl

theorem code_missing {m : FullMap E} {info : AccountInfo} (h : ¬ m.HasCode info) :
    m.code info = .error (.codeMiss info.codeHash) := by
  rw [HasCode, not_or, not_or, not_not] at h
  obtain ⟨hinline, hne, hnone⟩ := h
  simp only [code, World.codeOf, hinline, if_neg hne, answer]
  cases hget : m.codeByHash info.codeHash with
  | ok bytecode => exact absurd ⟨bytecode, hget⟩ hnone
  | error e => rfl

/-- Two maps that tell the same of an account but for where its code is kept, and both find its code,
    tell the same code of it. -/
theorem codeOf_found [ToString E] {m m' : FullMap E} (hm : m.CodeOk book) (hm' : m'.CodeOk book)
    {address : Address}
    (hbare : (m'.basic address).map (Option.map AccountInfo.bare)
      = (m.basic address).map (Option.map AccountInfo.bare))
    (hfound : ∀ info info', m.basic address = .ok (some info) →
      m'.basic address = .ok (some info') → m.HasCode info ∧ m'.HasCode info') :
    (codeOf address).eval m'.answer = (codeOf address).eval m.answer := by
  rw [codeOf_eval, codeOf_eval]
  cases hget : m.basic address with
  | error e =>
    cases hget' : m'.basic address with
    | ok info' => rw [hget, hget'] at hbare; cases hbare
    | error e' =>
      rw [hget, hget'] at hbare
      obtain rfl := Except.error.inj hbare
      rfl
  | ok info =>
    cases hget' : m'.basic address with
    | error e' => rw [hget, hget'] at hbare; cases hbare
    | ok info' =>
      rw [hget, hget'] at hbare
      have hinfos := Except.ok.inj hbare
      cases info with
      | none =>
        obtain rfl := Option.map_eq_none_iff.mp hinfos
        rfl
      | some info =>
        obtain ⟨info', rfl, hsame⟩ := Option.map_eq_some_iff.mp hinfos
        have hhash : info'.bare.codeHash = info.bare.codeHash := by rw [hsame]
        change info'.codeHash = info.codeHash at hhash
        obtain ⟨hhas, hhas'⟩ := hfound info info' hget hget'
        obtain ⟨bytecode, hfits, hcode⟩ := code_found hm (hm.inline address info hget) hhas
        obtain ⟨bytecode', hfits', hcode'⟩ := code_found hm' (hm'.inline address info' hget') hhas'
        rw [hhash] at hfits'
        rw [Codebook.fits_unique hfits' hfits] at hcode'
        simp only [Option.getD_some, hcode, hcode']

/-- Two maps that tell the same of an account but for where its code is kept tell the same code of
    it, if the second finds whatever the first does. -/
theorem codeOf_agree [ToString E] {m m' : FullMap E} (hm : m.CodeOk book) (hm' : m'.CodeOk book)
    {address : Address}
    (hbare : (m'.basic address).map (Option.map AccountInfo.bare)
      = (m.basic address).map (Option.map AccountInfo.bare))
    (hfound : ∀ info info', m.basic address = .ok (some info) →
      m'.basic address = .ok (some info') → m.HasCode info → m'.HasCode info') :
    (codeOf address).eval m'.answer = (codeOf address).eval m.answer ∨
      ∃ codeHash, (codeOf address).eval m.answer
        = some (displayed (.error (.codeMiss codeHash : SessionDbError E))) := by
  by_cases hhas : ∀ info, m.basic address = .ok (some info) → m.HasCode info
  · exact .inl (codeOf_found hm hm' hbare fun info info' hget hget' =>
      ⟨hhas info hget, hfound info info' hget hget' (hhas info hget)⟩)
  · obtain ⟨info, hinfo⟩ := not_forall.mp hhas
    obtain ⟨hget, hmissing⟩ := Classical.not_imp.mp hinfo
    refine .inr ⟨info.codeHash, ?_⟩
    rw [codeOf_eval, hget]
    simp only [Option.getD_some, code_missing hmissing]

end FullMap

/-! ### Resuming a session -/

namespace Session

variable {book : Codebook} {root : Lineage.Root F}

/-- A refitted account has its code wherever the account it was made from had. -/
theorem Rooted.hasCode_refit {u : Upstream E} {s : Session F} (h : s.Rooted book root)
    {infos : List AccountInfo} {code : Map B256 Bytecode}
    (hgathered : Gathered book s.base infos s.ownCode code) {base own : BaseSnapshot}
    (hown : own.code = code) {info : AccountInfo} (hmem : info ∈ infos)
    (hhas : (FullMap.ofBase (root.base.mergedWith s.own) u).HasCode info) :
    (FullMap.ofBase (base.mergedWith own) u).HasCode (refit code info) := by
  by_cases hne : info.codeHash = keccakEmpty
  · exact .inr (.inl hne)
  by_cases hfound : code.lookup info.codeHash = none
  swap
  · exact .inl hfound
  -- not gathered: neither inline nor in any layer of the session, so upstream has it
  have hnowhere := mt (hgathered.finds info hmem hne) (not_not.mpr hfound)
  rw [not_or, not_not, not_not, h.code, Map.lookup_union, Option.or_eq_none_iff] at hnowhere
  obtain ⟨hinline, -, hrootless⟩ := hnowhere
  have hownless : s.own.code.lookup info.codeHash = none :=
    of_not_not (mt (hgathered.keeps info.codeHash) (not_not.mpr hfound))
  obtain ⟨bytecode, hget⟩ := (hhas.resolve_left (not_not.mpr hinline)).resolve_left hne
  rw [FullMap.laid_codeByHash, hownless] at hget
  simp only [FullMap.ofBase, hrootless] at hget
  refine .inr (.inr ?_)
  rw [FullMap.laid_codeByHash, hown]
  simp only [refit, hfound, FullMap.ofBase]
  cases base.code.lookup info.codeHash with
  | some other => exact ⟨other, rfl⟩
  | none => exact ⟨bytecode, hget⟩

/-- So does every account of the refitted session, own or not. -/
theorem Rooted.hasCode_refitted {u : Upstream E} {s : Session F} (h : s.Rooted book root)
    (hup : book.Delivers u) (hroot : root.base.CoherentWith book u) (order : HashOrder)
    {base own : BaseSnapshot} (hbase : base.CoherentWith book u)
    (haccounts : ∀ address, own.accounts.lookup address
      = (s.own.accounts.lookup address).map (refit (s.gathered order)))
    (hcode : own.code = s.gathered order) (address : Address) (info info' : AccountInfo)
    (hget : (FullMap.ofBase (root.base.mergedWith s.own) u).basic address = .ok (some info))
    (hget' : (FullMap.ofBase (base.mergedWith own) u).basic address = .ok (some info'))
    (hhas : (FullMap.ofBase (root.base.mergedWith s.own) u).HasCode info) :
    (FullMap.ofBase (base.mergedWith own) u).HasCode info' := by
  rw [FullMap.laid_basic] at hget
  rw [FullMap.laid_basic, haccounts] at hget'
  cases hlookup : s.own.accounts.lookup address with
  | some info₀ =>
    rw [hlookup] at hget hget'
    obtain rfl := Option.some.inj (Except.ok.inj hget)
    obtain rfl := Option.some.inj (Except.ok.inj hget')
    have hmem : info₀ ∈ (order.entries s.ownAccounts).map Prod.snd :=
      List.mem_map_of_mem (f := Prod.snd)
        (((order.enumerates s.ownAccounts).mem_iff address info₀).mpr hlookup)
    exact h.hasCode_refit (h.gathered hroot order) hcode hmem hhas
  | none =>
    rw [hlookup] at hget'
    exact FullMap.coherent_hasCode hbase hup hget'

variable [ToString E]

/-- `t` answers as `s` does: every account but for where its code is kept, every slot and block
    hash, and the code of every address, unless `s` cannot find it. -/
structure Reproduces (db : DatabaseRef F W E) (s : Session F) (w : W) (db' : DatabaseRef F' W' E)
    (t : Session F') (w' : W') : Prop where
  account : ∀ address, (reads db' t w' (.basic address)).map (Option.map AccountInfo.bare)
    = (reads db s w (.basic address)).map (Option.map AccountInfo.bare)
  code : ∀ address, ((codeOf address).run (answer db') (t, w')).1
      = ((codeOf address).run (answer db) (s, w)).1 ∨
    ∃ codeHash, ((codeOf address).run (answer db) (s, w)).1
      = some (displayed (.error (.codeMiss codeHash : SessionDbError E)))
  storage : ∀ address index,
    reads db' t w' (.storage address index) = reads db s w (.storage address index)
  blockHash : ∀ number, reads db' t w' (.blockHash number) = reads db s w (.blockHash number)

variable {up : F → Upstream E} {db : DatabaseRef F W E}
  {I : W → Prop} {up' : F' → Upstream E} {db' : DatabaseRef F' W' E} {I' : W' → Prop}

/-- A rooted session, written out and laid over any coherent base, is reproduced. -/
theorem restore_reproduces (hdb : Faithful db up I) (hup : book.Delivers (up root.fallback))
    (hroot : root.base.CoherentWith book (up root.fallback)) {s : Session F}
    (h : s.Rooted book root) {w : W} (hw : I w) (order : HashOrder) (hdb' : Faithful db' up' I')
    {fallback' : F'} (hup' : up' fallback' = up root.fallback) {base : BaseSnapshot}
    (hbase : base.CoherentWith book (up root.fallback)) (blockEnv : BlockEnv) {w' : W'}
    (hw' : I' w') :
    s.Reproduces db w db' (restore base fallback' blockEnv (s.state order).reloaded) w' := by
  set t := restore base fallback' blockEnv (s.state order).reloaded with ht
  have htrooted : t.Rooted book ⟨base, fallback', blockEnv⟩ :=
    rooted_restore (h.stateOk_reloaded hroot order)
  have hs : s.view up = FullMap.ofBase (root.base.mergedWith s.own) (up root.fallback) := h.view up
  have htv : t.view up' = FullMap.ofBase (base.mergedWith t.own) (up root.fallback) := by
    rw [← hup']
    exact htrooted.view up'
  obtain ⟨haccounts, hcode, hstorage⟩ := own_restore_reloaded order s base fallback' blockEnv
  rw [← ht] at haccounts hcode hstorage
  have hsok : (s.view up).CodeOk book := by
    rw [hs]
    exact FullMap.laid_codeOk hroot hup h.accountsOk fun _ _ => h.ownCodeOk
  have htok : (t.view up').CodeOk book := by
    rw [htv]
    exact FullMap.laid_codeOk hbase hup htrooted.accountsOk fun _ _ => htrooted.ownCodeOk
  have hbare : ∀ address, ((t.view up').basic address).map (Option.map AccountInfo.bare)
      = ((s.view up).basic address).map (Option.map AccountInfo.bare) := by
    rw [hs, htv]
    exact FullMap.refitted_bare hroot hbase haccounts
  have hfound : ∀ address info info', (s.view up).basic address = .ok (some info) →
      (t.view up').basic address = .ok (some info') → (s.view up).HasCode info →
        (t.view up').HasCode info' := by
    rw [hs, htv]
    exact h.hasCode_refitted hup hroot order hbase haccounts hcode
  refine ⟨fun address => ?_, fun address => ?_, fun address index => ?_, fun number => ?_⟩
  · rw [reads_view hdb s hw, reads_view hdb' t hw']
    rw [FullMap.answer_bare, FullMap.answer_bare, hbare address]
  · rw [(run_view hdb _ s w hw).1, (run_view hdb' _ t w' hw').1]
    exact FullMap.codeOf_agree hsok htok (hbare address) (hfound address)
  · rw [reads_view hdb s hw, reads_view hdb' t hw', hs, htv]
    simp only [FullMap.answer]
    rw [FullMap.laid_storage hroot, FullMap.laid_storage hbase, hstorage]
  · rw [reads_view hdb s hw, reads_view hdb' t hw', hs, htv]
    simp only [FullMap.answer]
    rw [FullMap.laid_blockHash hroot rfl, FullMap.laid_blockHash hbase rfl]

/-- CORRECT: whatever was done to the session, and over whichever coherent base it is resumed, its
    snapshot reproduces it. -/
theorem snapshot_reproduces (hdb : Faithful db up I) (hup : book.Delivers (up root.fallback))
    (hroot : root.base.CoherentWith book (up root.fallback)) {ops : List Lineage.Op}
    (hops : ∀ op ∈ ops, book.OpOk op) {w : W} (hw : I w) {id : SessionId} {s : Session F}
    (hs : (Lineage.run db root ops w).1.lookup id = some s) {json : Json SnapshotFile}
    {raw : RawCode} (hheld : ∀ code ∈ book.known, raw.newRawChecked code.originalBytes = .ok code)
    {store : SnapshotStore} {blockNumber : UInt64} {order : HashOrder} {disk disk' : Disk}
    {info : SnapshotInfo}
    (hstore : store.store json book.keccak256 blockNumber (s.state order) disk = .ok (info, disk'))
    (hreads : ∀ path, store.pathFor info.id = .ok path → disk.refuses path = none)
    (haddressed : ∀ bytes, json.toVec (store.encode blockNumber (s.state order)) = .ok bytes →
      store.Addressed book.keccak256 disk bytes)
    (hdb' : Faithful db' up' I') (fallback' : F') (hup' : up' fallback' = up root.fallback)
    {base : BaseSnapshot} (hbase : base.CoherentWith book (up root.fallback)) :
    ∃ state, store.load json raw info.id disk' = .ok (blockNumber, state) ∧
      ∀ blockEnv w', I' w' → s.Reproduces db (Lineage.run db root ops w).2 db'
        (restore base fallback' blockEnv state) w' := by
  obtain ⟨hrooted, hw⟩ := Lineage.allRooted_run hdb hup hops hw
  have h : s.Rooted book root := hrooted id s hs
  refine ⟨(s.state order).reloaded, load_store hstore hreads haddressed fun entry hmem => ?_,
    fun blockEnv w' hw' => ?_⟩
  · exact hheld entry.2 ((h.stateOk_reloaded hroot order).2 entry hmem).1
  · exact restore_reproduces hdb hup hroot h hw order hdb' hup' hbase blockEnv hw'

end Session

/-! ### A contract beside its twin -/

/-- The smallest contract, and the hash it goes by. -/
def stopCode : Bytecode := ⟨[0]⟩

def stopHash : B256 :=
  0xbc36789e7a1e281436464229828f817d6612f7b477d66591ff96a9e064bcc98a#256

/-- Upstream holds the contract at 0xc, and answers no code by hash. -/
def twinChain : Upstream String :=
  { Upstream.vacant "missing" with
    basic := fun address =>
      .ok (if address = 0xc then some ⟨0, 1, stopHash, some stopCode⟩ else none) }

def twinDb : DatabaseRef Unit Unit String := Upstream.db fun _ => twinChain

/-- What a cache file of that block holds. -/
def twinBase : BaseSnapshot :=
  ⟨Finmap.insert 0xc ⟨0, 1, stopHash, some stopCode⟩ ∅, Finmap.insert stopHash stopCode ∅, ∅, ∅⟩

def twinRoot : Lineage.Root Unit := ⟨.empty, (), ⟨1, 0, 0, 30000000⟩⟩

/-- The same contract at 0xa, set with or without its code. -/
def twinOps (code : Option Bytecode) : List Lineage.Op :=
  [.fork 1, .setAccount 1 0xa ⟨0, 1, stopHash, code⟩]

def twin (code : Option Bytecode) : Session Unit :=
  freshSession.setAccount 0xa ⟨0, 1, stopHash, code⟩

def twinFile (code : Option Bytecode) : SnapshotFile where
  format := some SNAPSHOT_FORMAT
  version := some SNAPSHOT_FORMAT_VERSION
  chainId := some 1
  blockNumber := some 1
  accounts := [⟨0xa, 0, 1, stopHash⟩]
  code := code.toList.map fun code => ⟨stopHash, code.originalBytes⟩
  storage := []

/-- The file's text around what it has of code. -/
def twinText (code : String) : Bytes :=
  ("\x7b\"format\":\"forkyard-session-snapshot\",\"version\":1,\"chain_id\":1,\"block_number\":1," ++
  "\"accounts\":[\x7b\"address\":\"0x000000000000000000000000000000000000000a\"," ++
  "\"balance\":\"0x0\",\"nonce\":1,\"code_hash\":" ++
  "\"0xbc36789e7a1e281436464229828f817d6612f7b477d66591ff96a9e064bcc98a\"\x7d]," ++
  "\"code\":[" ++ code ++ "],\"storage\":[]\x7d").toUTF8.toList

def contractText : Bytes := twinText
  ("\x7b\"hash\":\"0xbc36789e7a1e281436464229828f817d6612f7b477d66591ff96a9e064bcc98a\"," ++
  "\"bytes\":\"0x00\"\x7d")

def bareText : Bytes := twinText ""

/-- Keccak on everything that is hashed here. -/
def twinKeccak (bytes : Bytes) : B256 :=
  if bytes = [0] then stopHash
  else if bytes = contractText then
    0x67af09ec977da9bc78d8cfe07dd9ed5b47506766f35a37cb906c538bc64f22d7#256
  else 0x2aca6af868e2ea7e6324d350f8c2f3a17e11a24ab7dbe2796496f96ab4220d5b#256

def twinBook : Codebook where
  keccak256 := twinKeccak
  known := {⟨[]⟩, stopCode}
  empty := .inl rfl
  collisionFree := by
    rintro a (rfl | rfl) b (rfl | rfl) h
    · rfl
    · exact absurd h (by decide)
    · exact absurd h (by decide)
    · rfl

def twinRaw : RawCode := ⟨fun bytes => .ok ⟨bytes⟩, fun h => by rw [← Except.ok.inj h]⟩

def twinStore : SnapshotStore := ⟨["snapshots"], 1⟩

theorem stop_fits : twinBook.Fits stopHash stopCode := ⟨.inr rfl, by decide⟩

theorem twin_delivers : twinBook.Delivers twinChain := by
  refine ⟨fun address info h => ?_, fun codeHash code h => by cases h⟩
  have hinfo := Except.ok.inj h
  by_cases ha : address = 0xc
  · rw [if_pos ha] at hinfo
    obtain rfl := Option.some.inj hinfo
    refine ⟨?_, fun _ => Option.some_ne_none _⟩
    rintro code ⟨⟩
    exact stop_fits
  · rw [if_neg ha] at hinfo
    cases hinfo

theorem twinBase_coherent : twinBase.CoherentWith twinBook twinChain where
  accounts address info h := by
    rcases Map.of_lookup_insert h with ⟨rfl, rfl⟩ | hold
    · exact ⟨_, congrArg Except.ok (if_pos rfl), rfl⟩
    · cases hold
  inline address info h := by
    rcases Map.of_lookup_insert h with ⟨rfl, rfl⟩ | hold
    · refine ⟨?_, fun _ hnone => by cases hnone⟩
      rintro code ⟨⟩
      exact stop_fits
    · cases hold
  code codeHash code h := by
    rcases Map.of_lookup_insert h with ⟨rfl, rfl⟩ | hold
    · exact stop_fits
    · cases hold
  storage _ _ _ h := by simp [twinBase] at h
  blockHashes _ _ h := by simp [twinBase] at h

theorem twin_run (code : Option Bytecode) :
    (Lineage.run twinDb twinRoot (twinOps code) ()).1.lookup 1 = some (twin code) := by
  simp only [Lineage.run, twinOps, List.foldl_cons, List.foldl_nil, Lineage.step, Lineage.modify,
    Finmap.lookup_insert]
  rfl

theorem twin_opOk {code : Option Bytecode}
    (h : ∀ bytecode, code = some bytecode → bytecode = stopCode) :
    ∀ op ∈ twinOps code, twinBook.OpOk op := by
  intro op hmem
  rcases List.mem_cons.mp hmem with rfl | hmem
  · trivial
  · obtain rfl := List.mem_singleton.mp hmem
    rintro bytecode rfl
    rw [h bytecode rfl]
    exact stop_fits

theorem twin_state (order : HashOrder) (code : Option Bytecode) :
    (twin code).state order
      = ⟨[(0xa, ⟨0, 1, stopHash, code⟩)], code.toList.map (stopHash, ·), []⟩ := by
  have hne : stopHash ≠ keccakEmpty := by decide
  simp only [Session.state, twin, freshSession, Session.fork, Session.setAccount, Inherited.empty,
    Finmap.union_empty, order.entries_singleton, order.entries_empty, List.foldl_cons,
    List.foldl_nil, Session.gatherCode, Finmap.lookup_empty, BaseSnapshot.empty, hne,
    Option.isSome_none, Bool.false_eq_true, or_self, if_false, Option.or_none]
  cases code with
  | none => simp only [order.entries_empty]; rfl
  | some bytecode => simp only [order.entries_singleton]; rfl

/-- The file of either session is stored and loads as the state refitted. -/
theorem twin_stored (code : Option Bytecode) (text : Bytes) :
    let json := Json.only (twinFile code) text
    let state := (twin code).state .some
    ∃ info disk', twinStore.store json twinKeccak 1 state emptyDisk = .ok (info, disk') ∧
      twinStore.load json twinRaw info.id disk' = .ok (1, state.reloaded) := by
  intro json state
  have hbytes : json.toVec (twinStore.encode 1 state) = .ok text := by
    simp only [state, twin_state]
    exact if_pos (by cases code <;> rfl)
  have hopen : ∀ path, emptyDisk.refuses path = none := fun _ => rfl
  obtain ⟨info, disk', hstore⟩ := store_total twinKeccak hbytes hopen
  refine ⟨info, disk', hstore, load_store hstore (fun path _ => hopen path) ?_ fun _ _ => rfl⟩
  intro bytes _ path old _ hold
  cases hold

theorem snapshot_reproduces_contract :
    ∃ info disk' state,
      twinStore.store (.only (twinFile (some stopCode)) contractText) twinKeccak 1
        ((twin (some stopCode)).state .some) emptyDisk = .ok (info, disk') ∧
      twinStore.load (.only (twinFile (some stopCode)) contractText) twinRaw info.id disk'
        = .ok (1, state) ∧
      (twin (some stopCode)).Reproduces twinDb () twinDb
        (.restore twinBase () twinRoot.blockEnv state) () := by
  have hheld : ∀ code ∈ twinBook.known, twinRaw.newRawChecked code.originalBytes = .ok code :=
    fun _ _ => rfl
  obtain ⟨info, disk', hstore, -⟩ := twin_stored (some stopCode) contractText
  obtain ⟨state, hload, hreproduces⟩ := Session.snapshot_reproduces
    (Session.faithful_upstream fun _ => twinChain) twin_delivers (coherent_empty _ _)
    (twin_opOk fun _ h => (Option.some.inj h).symm) trivial (twin_run (some stopCode))
    hheld hstore (fun _ _ => rfl) (fun _ _ _ _ _ hold => nomatch hold)
    (Session.faithful_upstream fun _ => twinChain) () rfl twinBase_coherent
  exact ⟨info, disk', state, hstore, hload, hreproduces twinRoot.blockEnv () trivial⟩

/-- Set without its code, over a base that has none, the contract's code is missing; resumed beside
    its twin it is not. -/
theorem code_borrowed :
    ¬ ∀ ops : List Lineage.Op, (∀ op ∈ ops, twinBook.OpOk op) →
      ∀ s, (Lineage.run twinDb twinRoot ops ()).1.lookup 1 = some s →
      ∀ base : BaseSnapshot, base.CoherentWith twinBook twinChain → ∀ info disk' state,
        twinStore.store (.only (twinFile none) bareText) twinKeccak 1 (s.state .some) emptyDisk
          = .ok (info, disk') →
        twinStore.load (.only (twinFile none) bareText) twinRaw info.id disk' = .ok (1, state) →
        ∀ address, ((codeOf address).run (Session.answer twinDb)
            (.restore base () twinRoot.blockEnv state, ())).1
          = ((codeOf address).run (Session.answer twinDb) (s, ())).1 := by
  intro hexact
  obtain ⟨info, disk', hstore, hload⟩ := twin_stored none bareText
  have hcode := hexact (twinOps none) (twin_opOk nofun) (twin none) (twin_run none) twinBase
    twinBase_coherent info disk' _ hstore hload 0xa
  rw [twin_state] at hcode
  exact absurd hcode (by decide)

end Forkyard
