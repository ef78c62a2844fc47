import Forkyard.Engine.Lineage
import Forkyard.Engine.Snapshot
import Forkyard.Engine.Speculation
import Forkyard.Schemes.Steps

/-! What a session holds of its own. However it came about, every session of a forest is its own
    entries (what it inherited and, over that, its overlay) laid over the one base of the forest's
    root, and every piece of code it holds sits under its own hash. `state` writes the own entries
    out and gathers, wherever it is kept, the code their accounts need.

        inline code   ──┐
        overlay code  ──┤
        inherited code ─┼──gatherCode──▶ code of the file ──attach──▶ inline again
        base code     ──┘ -/

namespace Forkyard

open Schemes

variable {F W E : Type}

/-! ### Code under its hash -/

/-- Keccak on the code in play, no two pieces of which collide. -/
structure Codebook where
  keccak256 : Bytes → B256
  known : Set Bytecode
  empty : ⟨[]⟩ ∈ known
  collisionFree : Set.InjOn (Bytecode.hashSlow keccak256) known

namespace Codebook

variable (book : Codebook)

/-- The code is in play and belongs under the hash. -/
def Fits (codeHash : B256) (code : Bytecode) : Prop :=
  code ∈ book.known ∧ code.hashSlow book.keccak256 = codeHash

/-- The account's inline code, if it has any, matches its code hash. -/
def InfoOk (info : AccountInfo) : Prop := ∀ code, info.code = some code → book.Fits info.codeHash code

def StateOk (state : SessionState) : Prop :=
  (∀ kv ∈ state.accounts, book.InfoOk kv.2) ∧ ∀ kv ∈ state.code, book.Fits kv.1 kv.2

/-- Whatever the operation writes matches. -/
def OpOk : Lineage.Op → Prop
  | .restore _ state => book.StateOk state
  | .setAccount _ _ info => book.InfoOk info
  | .commit _ changes => ∀ change ∈ changes.accounts, book.InfoOk change.2.info
  | _ => True

/-- An upstream delivers every account's code inline, and code by hash under its hash. -/
structure Delivers (u : Upstream E) : Prop where
  inline : ∀ address info, u.basic address = .ok (some info) →
    book.InfoOk info ∧ (info.codeHash ≠ keccakEmpty → info.code ≠ none)
  byHash : ∀ codeHash code, u.codeByHash codeHash = .ok code → book.Fits codeHash code

variable {book}

theorem fits_unique {codeHash : B256} {code code' : Bytecode} (h : book.Fits codeHash code)
    (h' : book.Fits codeHash code') : code = code' :=
  book.collisionFree h.1 h'.1 (h.2.trans h'.2.symm)

theorem fits_empty : book.Fits keccakEmpty ⟨[]⟩ := ⟨book.empty, if_pos rfl⟩

end Codebook

/-- The account but for where its code is kept. -/
def AccountInfo.bare (info : AccountInfo) : AccountInfo := { info with code := none }

/-- The base describes the block of `u`, and can find the code of every account it holds. -/
structure BaseSnapshot.CoherentWith (base : BaseSnapshot) (book : Codebook) (u : Upstream E) :
    Prop where
  accounts : ∀ address info, base.accounts.lookup address = some info →
    ∃ read, u.basic address = .ok (some read) ∧ info.bare = read.bare
  inline : ∀ address info, base.accounts.lookup address = some info → book.InfoOk info ∧
    (info.codeHash ≠ keccakEmpty → info.code = none → base.code.lookup info.codeHash ≠ none)
  code : ∀ codeHash code, base.code.lookup codeHash = some code → book.Fits codeHash code
  storage : ∀ address index value, base.storage.lookup (address, index) = some value →
    u.storage address index = .ok value
  blockHashes : ∀ number hash, base.blockHashes.lookup number = some hash →
    u.blockHash number = .ok hash

theorem coherent_empty (book : Codebook) (u : Upstream E) :
    BaseSnapshot.empty.CoherentWith book u where
  accounts _ _ h := by simp [BaseSnapshot.empty] at h
  inline _ _ h := by simp [BaseSnapshot.empty] at h
  code _ _ h := by simp [BaseSnapshot.empty] at h
  storage _ _ _ h := by simp [BaseSnapshot.empty] at h
  blockHashes _ _ h := by simp [BaseSnapshot.empty] at h

/-! ### What a session holds of its own -/

namespace Session

def ownAccounts (s : Session F) : Map Address AccountInfo := s.overlayAccounts ∪ s.inherited.accounts

def ownCode (s : Session F) : Map B256 Bytecode := s.overlayCode ∪ s.inherited.code

def ownStorage (s : Session F) : Map (Address × StorageKey) StorageValue :=
  s.overlayStorage ∪ s.inherited.storage

/-- INVARIANT: the session's base is what it inherited over the root's, and all code it holds of its
    own is where it belongs. -/
structure Rooted (book : Codebook) (root : Lineage.Root F) (s : Session F) : Prop where
  fallback : s.fallback = root.fallback
  accounts : s.base.accounts = s.inherited.accounts ∪ root.base.accounts
  code : s.base.code = s.inherited.code ∪ root.base.code
  storage : s.base.storage = s.inherited.storage ∪ root.base.storage
  blockHashes : s.base.blockHashes = root.base.blockHashes
  accountsOk : ∀ address info, s.ownAccounts.lookup address = some info → book.InfoOk info
  codeOk : ∀ codeHash code, s.overlayCode.lookup codeHash = some code ∨
    s.inherited.code.lookup codeHash = some code → book.Fits codeHash code

variable {book : Codebook} {root : Lineage.Root F} {s : Session F}

theorem rooted_fork : (fork root.base root.fallback root.blockEnv).Rooted book root where
  fallback := rfl
  accounts := (Finmap.empty_union).symm
  code := (Finmap.empty_union).symm
  storage := (Finmap.empty_union).symm
  blockHashes := rfl
  accountsOk _ _ h := by simp [ownAccounts, fork, Inherited.empty] at h
  codeOk _ _ h := by simp [fork, Inherited.empty] at h

theorem rooted_restore {state : SessionState} (h : book.StateOk state) :
    (restore root.base root.fallback root.blockEnv state).Rooted book root where
  fallback := rfl
  accounts := (Finmap.empty_union).symm
  code := (Finmap.empty_union).symm
  storage := (Finmap.empty_union).symm
  blockHashes := rfl
  accountsOk address info hget := by
    rw [ownAccounts, restore, fork, Inherited.empty, Finmap.union_empty] at hget
    exact h.1 _ (Map.mem_of_lookup_extend hget)
  codeOk codeHash code hget := by
    rcases hget with hget | hget
    · exact h.2 _ (Map.mem_of_lookup_extend hget)
    · simp [restore, fork, Inherited.empty] at hget

theorem rooted_branch (h : s.Rooted book root) : s.branch.Rooted book root where
  fallback := h.fallback
  accounts := by rw [branch, h.accounts, Finmap.union_assoc]
  code := by rw [branch, h.code, Finmap.union_assoc]
  storage := by rw [branch, h.storage, Finmap.union_assoc]
  blockHashes := h.blockHashes
  accountsOk address info hget := h.accountsOk address info (by
    rwa [ownAccounts, branch, Finmap.empty_union] at hget)
  codeOk codeHash code hget := by
    rcases hget with hget | hget
    · cases hget
    · exact h.codeOk codeHash code (Map.of_lookup_union hget)

theorem rooted_setAccount (h : s.Rooted book root) (address : Address) {info : AccountInfo}
    (hinfo : book.InfoOk info) : (s.setAccount address info).Rooted book root where
  fallback := h.fallback
  accounts := h.accounts
  code := h.code
  storage := h.storage
  blockHashes := h.blockHashes
  accountsOk address' info' hget := by
    rw [ownAccounts, setAccount, ← Finmap.insert_union] at hget
    rcases Map.of_lookup_insert hget with ⟨-, rfl⟩ | hold
    · exact hinfo
    · exact h.accountsOk address' info' hold
  codeOk := h.codeOk

theorem rooted_setCode (h : s.Rooted book root) {codeHash : B256} {code : Bytecode}
    (hcode : book.Fits codeHash code) :
    ({ s with overlayCode := s.overlayCode.insert codeHash code } : Session F).Rooted book root where
  fallback := h.fallback
  accounts := h.accounts
  code := h.code
  storage := h.storage
  blockHashes := h.blockHashes
  accountsOk := h.accountsOk
  codeOk codeHash' code' hget := by
    rcases hget with hget | hget
    · rcases Map.of_lookup_insert hget with ⟨rfl, rfl⟩ | hold
      · exact hcode
      · exact h.codeOk codeHash' code' (.inl hold)
    · exact h.codeOk codeHash' code' (.inr hget)

theorem rooted_setStorage (h : s.Rooted book root) (address : Address) (key : StorageKey)
    (value : StorageValue) : (s.setStorage address key value).Rooted book root :=
  ⟨h.fallback, h.accounts, h.code, h.storage, h.blockHashes, h.accountsOk, h.codeOk⟩

theorem rooted_logRead (h : s.Rooted book root) (key : ReadKey) :
    (s.logRead key).Rooted book root :=
  ⟨h.fallback, h.accounts, h.code, h.storage, h.blockHashes, h.accountsOk, h.codeOk⟩

theorem rooted_commit {changes : EvmState} (h : s.Rooted book root)
    (hchanges : ∀ change ∈ changes.accounts, book.InfoOk change.2.info) :
    (s.commit changes).Rooted book root := by
  have hslots : ∀ (address : Address) (slots : List (StorageKey × EvmStorageSlot)) {s : Session F},
      s.Rooted book root →
      (slots.foldl (fun s slot => s.setStorage address slot.1 slot.2.presentValue) s).Rooted book
        root := by
    intro address slots
    induction slots with
    | nil => intro s h; exact h
    | cons slot slots ih => intro s h; exact ih (rooted_setStorage h address slot.1 _)
  have haccounts : ∀ (accounts : List (Address × Account)) {s : Session F},
      (∀ change ∈ accounts, book.InfoOk change.2.info) → s.Rooted book root →
      (accounts.foldl commitAccount s).Rooted book root := by
    intro accounts
    induction accounts with
    | nil => intro s _ h; exact h
    | cons change rest ih =>
      intro s hinfos h
      refine ih (fun other hmem => hinfos other (List.mem_cons_of_mem change hmem)) ?_
      exact rooted_setAccount (hslots change.1 change.2.storage h) change.1
        (hinfos change List.mem_cons_self)
  exact haccounts changes.accounts hchanges h

variable {up : F → Upstream E} {db : DatabaseRef F W E} {I : W → Prop}

theorem rooted_answer (hdb : Faithful db up I) (hup : book.Delivers (up root.fallback))
    (h : s.Rooted book root) (q : Query) {w : W} (hw : I w) :
    (answer db q (s, w)).2.1.Rooted book root := by
  rw [(answer_faithful hdb q s w hw).2.1]
  rcases answer_cases (Upstream.db up) q s () with hsame | ⟨s', key, hlearned, hs'⟩
  · rw [hsame]
    exact h
  · rw [hs']
    refine rooted_logRead ?_ key
    cases hlearned with
    | @account address info free told =>
      rw [h.fallback] at told
      exact rooted_setAccount h address (hup.inline address info told).1
    | @code codeHash code free told =>
      rw [h.fallback] at told
      exact rooted_setCode h (hup.byHash codeHash code told)
    | storage free told => exact rooted_setStorage h _ _ _

end Session

namespace Lineage

variable {book : Codebook} {root : Root F} {up : F → Upstream E} {db : DatabaseRef F W E}
  {I : W → Prop}

/-- Every session of the forest is rooted. -/
def AllRooted (book : Codebook) (root : Root F) (ss : Sessions F) : Prop :=
  ∀ id s, ss.lookup id = some s → s.Rooted book root

theorem allRooted_insert {ss : Sessions F} (h : AllRooted book root ss) (id : SessionId)
    {s : Session F} (hs : s.Rooted book root) : AllRooted book root (ss.insert id s) := by
  intro id' s' hget
  rcases Map.of_lookup_insert hget with ⟨-, rfl⟩ | hold
  · exact hs
  · exact h id' s' hold

theorem allRooted_modify {ss : Sessions F} (h : AllRooted book root ss) (id : SessionId)
    {f : Session F → Session F} (hf : ∀ s, s.Rooted book root → (f s).Rooted book root) :
    AllRooted book root (modify ss id f) := by
  unfold modify
  cases hs : ss.lookup id with
  | none => exact h
  | some s => exact allRooted_insert h id (hf s (h id s hs))

/-- STEP LEMMA: no operation uproots a session. -/
theorem allRooted_step (hdb : Session.Faithful db up I) (hup : book.Delivers (up root.fallback))
    {op : Op} (hop : book.OpOk op) {ss : Sessions F} {w : W} (hw : I w)
    (h : AllRooted book root ss) :
    AllRooted book root (step db root op (ss, w)).1 ∧ I (step db root op (ss, w)).2 := by
  cases op with
  | fork id => exact ⟨allRooted_insert h id Session.rooted_fork, hw⟩
  | branch parent child =>
    simp only [step]
    cases hs : ss.lookup parent with
    | none => exact ⟨h, hw⟩
    | some s => exact ⟨allRooted_insert h child (Session.rooted_branch (h parent s hs)), hw⟩
  | restore id state => exact ⟨allRooted_insert h id (Session.rooted_restore hop), hw⟩
  | setAccount id address info =>
    exact ⟨allRooted_modify h id fun s hs => Session.rooted_setAccount hs address hop, hw⟩
  | setStorage id address key value =>
    exact ⟨allRooted_modify h id fun s hs => Session.rooted_setStorage hs address key value, hw⟩
  | commit id changes =>
    exact ⟨allRooted_modify h id fun s hs => Session.rooted_commit hs hop, hw⟩
  | read id q =>
    simp only [step]
    cases hs : ss.lookup id with
    | none => exact ⟨h, hw⟩
    | some s =>
      exact ⟨allRooted_insert h id (Session.rooted_answer hdb hup (h id s hs) q hw),
        (Session.answer_faithful hdb q s w hw).2.2⟩
  | drop id => exact ⟨fun id' s hget => h id' s (Map.of_lookup_erase hget), hw⟩

/-- RUN LEMMA: in every forest all sessions are rooted. -/
theorem allRooted_run (hdb : Session.Faithful db up I) (hup : book.Delivers (up root.fallback))
    {ops : List Op} (hops : ∀ op ∈ ops, book.OpOk op) {w : W} (hw : I w) :
    AllRooted book root (run db root ops w).1 ∧ I (run db root ops w).2 :=
  runAll_inv_of (P := fun state : Sessions F × W => AllRooted book root state.1 ∧ I state.2)
    (fun _ _ h hop => allRooted_step hdb hup hop h.2 h.1) (∅, w) ops
    ⟨nofun, hw⟩ hops

end Lineage

/-! ### What `state` gathers -/

namespace Session

variable {book : Codebook} {root : Lineage.Root F} {s : Session F}

/-- `code'` is `code` and more: nothing lost, everything where it belongs, and what each of `infos`
    or the base has, found. -/
structure Gathered (book : Codebook) (base : BaseSnapshot) (infos : List AccountInfo)
    (code code' : Map B256 Bytecode) : Prop where
  fits : ∀ codeHash bytecode, code'.lookup codeHash = some bytecode → book.Fits codeHash bytecode
  keeps : ∀ codeHash, code.lookup codeHash ≠ none → code'.lookup codeHash ≠ none
  finds : ∀ info ∈ infos, info.codeHash ≠ keccakEmpty →
    info.code ≠ none ∨ base.code.lookup info.codeHash ≠ none → code'.lookup info.codeHash ≠ none

/-- STEP LEMMA: one account's code gathered. -/
theorem gatherCode_gathered {base : BaseSnapshot} {code : Map B256 Bytecode} {info : AccountInfo}
    (hinfo : book.InfoOk info)
    (hbase : ∀ codeHash bytecode, base.code.lookup codeHash = some bytecode →
      book.Fits codeHash bytecode)
    (hcode : ∀ codeHash bytecode, code.lookup codeHash = some bytecode →
      book.Fits codeHash bytecode) :
    Gathered book base [info] code (gatherCode base code info) := by
  unfold gatherCode
  by_cases hskip : info.codeHash = keccakEmpty ∨ (code.lookup info.codeHash).isSome
  · rw [if_pos hskip]
    refine ⟨hcode, fun _ h => h, fun info' hmem hne _ => ?_⟩
    rw [List.mem_singleton.mp hmem] at hne ⊢
    exact Option.isSome_iff_ne_none.mp (hskip.resolve_left hne)
  rw [if_neg hskip]
  cases hfound : info.code.or (base.code.lookup info.codeHash) with
  | none =>
    refine ⟨hcode, fun _ h => h, fun info' hmem _ hsome => ?_⟩
    rw [List.mem_singleton.mp hmem] at hsome
    rw [Option.or_eq_none_iff] at hfound
    exact absurd hfound (not_and_or.mpr hsome)
  | some bytecode =>
    have hfits : book.Fits info.codeHash bytecode := by
      rcases Option.or_eq_some_iff.mp hfound with h | ⟨-, h⟩
      · exact hinfo bytecode h
      · exact hbase info.codeHash bytecode h
    refine ⟨fun codeHash c hget => ?_, fun codeHash h => ?_, fun info' hmem _ _ => ?_⟩
    · rcases Map.of_lookup_insert hget with ⟨rfl, rfl⟩ | hold
      · exact hfits
      · exact hcode codeHash c hold
    · rw [Map.lookup_insert_eq]
      by_cases hh : codeHash = info.codeHash
      · rw [if_pos hh]
        exact Option.some_ne_none bytecode
      · rwa [if_neg hh]
    · rw [List.mem_singleton.mp hmem, Finmap.lookup_insert]
      exact Option.some_ne_none bytecode

/-- RUN LEMMA: the code of a list of accounts gathered, one after another. -/
theorem foldl_gathered {base : BaseSnapshot}
    (hbase : ∀ codeHash bytecode, base.code.lookup codeHash = some bytecode →
      book.Fits codeHash bytecode) :
    ∀ {accounts : List (Address × AccountInfo)} {code : Map B256 Bytecode},
      (∀ kv ∈ accounts, book.InfoOk kv.2) →
      (∀ codeHash bytecode, code.lookup codeHash = some bytecode → book.Fits codeHash bytecode) →
      Gathered book base (accounts.map Prod.snd) code
        (accounts.foldl (fun code kv => gatherCode base code kv.2) code)
  | [], _, _, hcode => ⟨hcode, fun _ h => h, fun _ hmem => absurd hmem List.not_mem_nil⟩
  | kv :: rest, code, hinfos, hcode => by
    have hone := gatherCode_gathered (hinfos kv List.mem_cons_self) hbase hcode
    have hrest := foldl_gathered hbase
      (fun other hmem => hinfos other (List.mem_cons_of_mem kv hmem)) hone.fits
    refine ⟨hrest.fits, fun codeHash h => hrest.keeps codeHash (hone.keeps codeHash h), ?_⟩
    intro info hmem hne hsome
    rcases List.mem_cons.mp hmem with rfl | hmem
    · exact hrest.keeps _ (hone.finds kv.2 List.mem_cons_self hne hsome)
    · exact hrest.finds info hmem hne hsome

/-- The code `state` writes out. -/
def gathered (order : HashOrder) (s : Session F) : Map B256 Bytecode :=
  (order.entries s.ownAccounts).foldl (fun code kv => gatherCode s.base code kv.2) s.ownCode

theorem Rooted.ownCodeOk (h : s.Rooted book root) {codeHash : B256} {bytecode : Bytecode}
    (hget : s.ownCode.lookup codeHash = some bytecode) : book.Fits codeHash bytecode :=
  h.codeOk codeHash bytecode (Map.of_lookup_union hget)

theorem Rooted.baseCodeOk (h : s.Rooted book root) {u : Upstream E}
    (hroot : root.base.CoherentWith book u) {codeHash : B256} {bytecode : Bytecode}
    (hget : s.base.code.lookup codeHash = some bytecode) : book.Fits codeHash bytecode := by
  rw [h.code] at hget
  rcases Map.of_lookup_union hget with hget | hget
  · exact h.codeOk codeHash bytecode (.inr hget)
  · exact hroot.code codeHash bytecode hget

theorem Rooted.gathered (h : s.Rooted book root) {u : Upstream E}
    (hroot : root.base.CoherentWith book u) (order : HashOrder) :
    Gathered book s.base ((order.entries s.ownAccounts).map Prod.snd) s.ownCode
      (s.gathered order) :=
  foldl_gathered (fun _ _ => h.baseCodeOk hroot)
    (fun kv hmem => h.accountsOk kv.1 kv.2 (((order.enumerates _).mem_iff kv.1 kv.2).mp hmem))
    fun _ _ => h.ownCodeOk

end Session

/-! ### A base loaded from a cache file -/

/-- An account as a file gives it back: its code inline iff the file has it. -/
def refit (code : Map B256 Bytecode) (info : AccountInfo) : AccountInfo :=
  { info with code := code.lookup info.codeHash }

theorem storedCode_injective : Function.Injective storedCode := by
  rintro ⟨hash, bytecode⟩ ⟨hash', bytecode'⟩ h
  cases bytecode
  cases bytecode'
  cases h
  rfl

/-- ROUND TRIP: a cache file gives back the snapshot it was written from, its accounts refitted. -/
theorem cache_decode_encode {raw : RawCode} {path : Path} {key : CacheKey} {order : HashOrder}
    {snapshot base : BaseSnapshot} {env : Option StoredBlockEnv} {blockEnv : Option BlockEnv}
    (h : ForkCache.decode raw path key (ForkCache.encode order key snapshot env)
      = .ok (base, blockEnv)) :
    (∀ address, base.accounts.lookup address
      = (snapshot.accounts.lookup address).map (refit snapshot.code)) ∧
      base.code = snapshot.code ∧ base.storage = snapshot.storage ∧
      base.blockHashes = snapshot.blockHashes := by
  simp only [ForkCache.decode, ForkCache.encode, ne_eq, not_true_eq_false, or_self, if_false] at h
  cases hcode : decodeCode raw path ((order.entries snapshot.code).map storedCode) with
  | error e => rw [hcode] at h; cases h
  | ok code =>
    rw [hcode] at h
    obtain ⟨rfl, -⟩ := Prod.mk.inj (Except.ok.inj h)
    obtain rfl : code = order.entries snapshot.code :=
      storedCode_injective.list_map (decodeCode_eq hcode)
    have hcodes := (order.enumerates snapshot.code).extend_eq
    refine ⟨fun address => ?_, hcodes, ?_, (order.enumerates snapshot.blockHashes).extend_eq⟩
    · simp only [BaseSnapshot.fromParts, attachCode, List.map_map, hcodes]
      exact (order.enumerates snapshot.accounts).lookup_extend_map (refit snapshot.code) address
    · simp only [BaseSnapshot.fromParts, List.map_map]
      exact (congrArg _ (List.map_id _)).trans (order.enumerates snapshot.storage).extend_eq

/-- A coherent snapshot whose code map has the code of all its accounts is coherent again once it
    has been through a cache file. -/
theorem coherent_loaded {book : Codebook} {u : Upstream E} {raw : RawCode} {path : Path}
    {key : CacheKey} {order : HashOrder} {snapshot base : BaseSnapshot}
    {env : Option StoredBlockEnv} {blockEnv : Option BlockEnv}
    (hsnapshot : snapshot.CoherentWith book u)
    (hcodes : ∀ address info, snapshot.accounts.lookup address = some info →
      info.codeHash ≠ keccakEmpty → snapshot.code.lookup info.codeHash ≠ none)
    (h : ForkCache.decode raw path key (ForkCache.encode order key snapshot env)
      = .ok (base, blockEnv)) : base.CoherentWith book u := by
  obtain ⟨haccounts, hcode, hstorage, hblockHashes⟩ := cache_decode_encode h
  refine ⟨fun address info hget => ?_, fun address info hget => ?_, ?_, ?_, ?_⟩
  · rw [haccounts] at hget
    obtain ⟨info, hold, rfl⟩ := Option.map_eq_some_iff.mp hget
    exact hsnapshot.accounts address info hold
  · rw [haccounts] at hget
    obtain ⟨info, hold, rfl⟩ := Option.map_eq_some_iff.mp hget
    refine ⟨fun code hinline => hsnapshot.code info.codeHash code hinline, fun hne _ => ?_⟩
    rw [hcode]
    exact hcodes address info hold hne
  · rw [hcode]
    exact hsnapshot.code
  · rw [hstorage]
    exact hsnapshot.storage
  · rw [hblockHashes]
    exact hsnapshot.blockHashes

namespace Session

variable {book : Codebook} {root : Lineage.Root F} {s : Session F}

/-! ### A session is what it holds of its own, over the root's base -/

/-- What a session holds of its own, as one snapshot. -/
def own (s : Session F) : BaseSnapshot := ⟨s.ownAccounts, s.ownCode, s.ownStorage, ∅⟩

theorem Rooted.view (h : s.Rooted book root) (up : F → Upstream E) :
    s.view up = FullMap.ofBase (root.base.mergedWith s.own) (up root.fallback) := by
  rw [Session.view, h.fallback]
  congr 1
  simp only [folded, BaseSnapshot.mergedWith, own, ownAccounts, ownCode, ownStorage, h.accounts,
    h.code, h.storage, h.blockHashes, Finmap.union_assoc, Finmap.empty_union]

/-- The state as the file gives it back lists the own accounts refitted with the code gathered, that
    code, and the own slots. -/
theorem reloaded_enumerates (order : HashOrder) (s : Session F) :
    (∃ accounts, Map.Enumerates s.ownAccounts accounts ∧ (s.state order).reloaded.accounts
        = accounts.map fun kv => (kv.1, refit (s.gathered order) kv.2)) ∧
      Map.Enumerates (s.gathered order) (s.state order).reloaded.code ∧
      Map.Enumerates s.ownStorage (s.state order).reloaded.storage := by
  have haccounts : Map.Enumerates s.ownAccounts (s.state order).accounts :=
    (order.enumerates s.ownAccounts).perm (List.perm_insertionSort _ _)
  have hcode : Map.Enumerates (s.gathered order) (s.state order).code :=
    (order.enumerates (s.gathered order)).perm (List.perm_insertionSort _ _)
  have hstorage : Map.Enumerates s.ownStorage (s.state order).storage :=
    (order.enumerates s.ownStorage).perm (List.perm_insertionSort _ _)
  refine ⟨⟨(s.state order).accounts, haccounts, ?_⟩, hcode, hstorage⟩
  simp only [SessionState.reloaded, attachCode, List.map_map, hcode.extend_eq]
  rfl

theorem Rooted.stateOk_reloaded (h : s.Rooted book root) {u : Upstream E}
    (hroot : root.base.CoherentWith book u) (order : HashOrder) :
    book.StateOk (s.state order).reloaded := by
  obtain ⟨⟨accounts, -, hattached⟩, hcode, -⟩ := s.reloaded_enumerates order
  have hgathered := h.gathered hroot order
  refine ⟨fun kv hmem => ?_, fun kv hmem => ?_⟩
  · rw [hattached, List.mem_map] at hmem
    obtain ⟨kv', -, rfl⟩ := hmem
    exact fun bytecode hget => hgathered.fits _ bytecode hget
  · exact hgathered.fits kv.1 kv.2 ((hcode.mem_iff kv.1 kv.2).mp hmem)

/-- What a session restored from the file holds of its own. -/
theorem own_restore_reloaded (order : HashOrder) (s : Session F) {F' : Type} (base : BaseSnapshot)
    (fallback : F') (blockEnv : BlockEnv) :
    let t := restore base fallback blockEnv (s.state order).reloaded
    (∀ address, t.own.accounts.lookup address
      = (s.own.accounts.lookup address).map (refit (s.gathered order))) ∧
      t.own.code = s.gathered order ∧ t.own.storage = s.own.storage := by
  obtain ⟨⟨accounts, haccounts, hattached⟩, hcode, hstorage⟩ := s.reloaded_enumerates order
  simp only [own, ownAccounts, ownCode, ownStorage, restore, fork, Inherited.empty,
    Finmap.union_empty]
  refine ⟨fun address => ?_, hcode.extend_eq, hstorage.extend_eq⟩
  rw [hattached]
  exact haccounts.lookup_extend_map _ address

end Session

end Forkyard
