import Forkyard.Session.Resume

/-! A session over a seeded base beside one over an empty base. The base answers what upstream would,
    but for where an account keeps its code, and whatever is then done to a session is done to both;
    so neither reader can tell whether the start was warm or cold, unless an account is written
    without its code.

        base ∪ upstream ──ops──▶ warm map
              ║                     ║   same accounts, slots, hashes; code found wherever cold finds it
           upstream ────ops──▶ cold map -/

namespace Forkyard

open Schemes

variable {F F' W W' E : Type}

/-- Its code comes with it. -/
def AccountInfo.Carries (info : AccountInfo) : Prop := info.codeHash ≠ keccakEmpty → info.code ≠ none

/-- What it writes carries its code. -/
def Lineage.Op.Carries : Lineage.Op → Prop
  | .restore _ state => ∀ kv ∈ state.accounts, kv.2.Carries
  | .setAccount _ _ info => info.Carries
  | .commit _ changes => ∀ change ∈ changes.accounts, change.2.info.Carries
  | _ => True

theorem BaseSnapshot.mergedWith_empty (base : BaseSnapshot) : base.mergedWith .empty = base := by
  simp only [mergedWith, empty, Finmap.empty_union]

/-! ### Warm and cold maps -/

namespace FullMap

variable {book : Codebook} {base : BaseSnapshot} {u : Upstream E} {m cold : FullMap E}

theorem ofBase_empty (u : Upstream E) : ofBase .empty u = u := by
  simp only [ofBase, BaseSnapshot.empty, Finmap.lookup_empty]

/-- The map tells what the cold one does, and finds whatever code that finds. -/
structure Warms (book : Codebook) (m cold : FullMap E) : Prop where
  basic : ∀ address, (m.basic address).map (Option.map AccountInfo.bare)
    = (cold.basic address).map (Option.map AccountInfo.bare)
  storage : m.storage = cold.storage
  blockHash : m.blockHash = cold.blockHash
  codeOk : m.CodeOk book
  coldOk : cold.CodeOk book
  inline : ∀ address info info', cold.basic address = .ok (some info) →
    m.basic address = .ok (some info') → info.code ≠ none → m.HasCode info'
  byHash : ∀ codeHash, (∃ code, cold.codeByHash codeHash = .ok code) →
    ∃ code, m.codeByHash codeHash = .ok code

/-- The code of every account it tells of is found. -/
def Complete (m : FullMap E) : Prop :=
  ∀ address info, m.basic address = .ok (some info) → m.HasCode info

/-- Whatever code of an account the cold map finds. -/
theorem Warms.finds (h : m.Warms book cold) {address : Address} (info info' : AccountInfo)
    (hget : cold.basic address = .ok (some info)) (hget' : m.basic address = .ok (some info'))
    (hhas : cold.HasCode info) : m.HasCode info' := by
  rcases hhas with hinline | hhas
  · exact h.inline address info info' hget hget' hinline
  · have hbare := h.basic address
    rw [hget, hget'] at hbare
    have hhash : info'.bare.codeHash = info.bare.codeHash :=
      congrArg AccountInfo.codeHash (Option.some.inj (Except.ok.inj hbare))
    change info'.codeHash = info.codeHash at hhash
    rw [HasCode, hhash]
    exact .inr (hhas.imp_right (h.byHash info.codeHash))

theorem complete_upstream (hup : book.Delivers u) : Complete u := by
  intro address info hget
  by_cases hne : info.codeHash = keccakEmpty
  · exact .inr (.inl hne)
  · exact .inl ((hup.inline address info hget).2 hne)

theorem warms_ofBase (hbase : base.CoherentWith book u) (hup : book.Delivers u) :
    (ofBase base u).Warms book u where
  basic := coherent_bare hbase
  storage := by
    funext address index
    rw [← base.mergedWith_empty, laid_storage hbase]
    rfl
  blockHash := by
    funext number
    rw [← base.mergedWith_empty, laid_blockHash hbase rfl]
  codeOk := by
    rw [← base.mergedWith_empty]
    refine laid_codeOk hbase hup (fun address info h => ?_) fun codeHash code h => ?_
    · simp [BaseSnapshot.empty] at h
    · simp [BaseSnapshot.empty] at h
  coldOk := ⟨fun address info h => (hup.inline address info h).1, hup.byHash⟩
  inline address info info' _ hget _ := by
    have hhas : HasCode (ofBase (base.mergedWith .empty) u) info' := coherent_hasCode hbase hup hget
    rwa [base.mergedWith_empty] at hhas
  byHash codeHash := by
    rintro ⟨code, hcode⟩
    simp only [ofBase]
    cases base.code.lookup codeHash with
    | some code' => exact ⟨code', rfl⟩
    | none => exact ⟨code, hcode⟩

/-! What is written to both. -/

theorem hasCode_setCode {info : AccountInfo} (h : m.HasCode info) (codeHash : B256)
    (code : Bytecode) : (m.setCode codeHash code).HasCode info := by
  refine h.imp_right (Or.imp_right ?_)
  rintro ⟨found, hfound⟩
  simp only [setCode, Function.update_apply]
  split
  · exact ⟨code, rfl⟩
  · exact ⟨found, hfound⟩

theorem codeOk_setAccount (h : m.CodeOk book) (address : Address) {info : AccountInfo}
    (hinfo : book.InfoOk info) : (m.setAccount address info).CodeOk book := by
  refine ⟨fun address' info' hget => ?_, h.byHash⟩
  simp only [setAccount, Function.update_apply] at hget
  split at hget
  · rwa [← Option.some.inj (Except.ok.inj hget)]
  · exact h.inline address' info' hget

theorem codeOk_setCode (h : m.CodeOk book) {codeHash : B256} {code : Bytecode}
    (hcode : book.Fits codeHash code) : (m.setCode codeHash code).CodeOk book := by
  refine ⟨h.inline, fun codeHash' code' hget => ?_⟩
  simp only [setCode, Function.update_apply] at hget
  split at hget
  · rename_i hhash
    rwa [hhash, ← Except.ok.inj hget]
  · exact h.byHash codeHash' code' hget

theorem warms_setAccount (h : m.Warms book cold) (address : Address) {info : AccountInfo}
    (hinfo : book.InfoOk info) :
    (m.setAccount address info).Warms book (cold.setAccount address info) where
  basic address' := by
    simp only [setAccount, Function.update_apply]
    split
    · rfl
    · exact h.basic address'
  storage := h.storage
  blockHash := h.blockHash
  codeOk := codeOk_setAccount h.codeOk address hinfo
  coldOk := codeOk_setAccount h.coldOk address hinfo
  inline address' info₀ info' hcold hget hinline := by
    simp only [setAccount, Function.update_apply] at hcold hget
    split at hcold
    · rename_i hsame
      rw [if_pos hsame] at hget
      obtain rfl := Option.some.inj (Except.ok.inj hcold)
      obtain rfl := Option.some.inj (Except.ok.inj hget)
      exact .inl hinline
    · rename_i hother
      rw [if_neg hother] at hget
      exact h.inline address' info₀ info' hcold hget hinline
  byHash := h.byHash

theorem warms_setCode (h : m.Warms book cold) {codeHash : B256} {code : Bytecode}
    (hcode : book.Fits codeHash code) :
    (m.setCode codeHash code).Warms book (cold.setCode codeHash code) where
  basic := h.basic
  storage := h.storage
  blockHash := h.blockHash
  codeOk := codeOk_setCode h.codeOk hcode
  coldOk := codeOk_setCode h.coldOk hcode
  inline address info info' hcold hget hinline :=
    hasCode_setCode (h.inline address info info' hcold hget hinline) codeHash code
  byHash codeHash' := by
    rintro ⟨found, hfound⟩
    simp only [setCode, Function.update_apply] at hfound ⊢
    split
    · exact ⟨code, rfl⟩
    · rename_i hother
      rw [if_neg hother] at hfound
      exact h.byHash codeHash' ⟨found, hfound⟩

theorem warms_setStorage (h : m.Warms book cold) (address : Address) (index : StorageKey)
    (value : StorageValue) :
    (m.setStorage address index value).Warms book (cold.setStorage address index value) where
  basic := h.basic
  storage := by simp only [setStorage, h.storage]
  blockHash := h.blockHash
  codeOk := ⟨h.codeOk.inline, h.codeOk.byHash⟩
  coldOk := ⟨h.coldOk.inline, h.coldOk.byHash⟩
  inline := h.inline
  byHash := h.byHash

theorem complete_setAccount (h : m.Complete) (address : Address) {info : AccountInfo}
    (hinfo : info.Carries) : (m.setAccount address info).Complete := by
  intro address' info' hget
  simp only [setAccount, Function.update_apply] at hget
  split at hget
  · obtain rfl := Option.some.inj (Except.ok.inj hget)
    by_cases hne : info.codeHash = keccakEmpty
    · exact .inr (.inl hne)
    · exact .inl (hinfo hne)
  · exact h address' info' hget

theorem complete_setCode (h : m.Complete) (codeHash : B256) (code : Bytecode) :
    (m.setCode codeHash code).Complete := fun address info hget =>
  hasCode_setCode (h address info hget) codeHash code

/-! A whole diff, or a whole saved state. -/

theorem warms_commit (h : m.Warms book cold) {changes : EvmState}
    (hchanges : ∀ change ∈ changes.accounts, book.InfoOk change.2.info) :
    (m.commit changes).Warms book (cold.commit changes) := by
  refine List.foldl_rel h fun change hmem m cold h => ?_
  refine warms_setAccount (List.foldl_rel h fun slot _ m cold h => ?_) change.1 (hchanges change hmem)
  exact warms_setStorage h change.1 slot.1 slot.2.presentValue

theorem warms_overlay (h : m.Warms book cold) {state : SessionState} (hstate : book.StateOk state) :
    (m.overlay state).Warms book (cold.overlay state) := by
  refine List.foldl_rel ?_ fun kv _ m cold h => warms_setStorage h kv.1.1 kv.1.2 kv.2
  refine List.foldl_rel ?_ fun kv hmem m cold h => warms_setCode h (hstate.2 kv hmem)
  exact List.foldl_rel h fun kv hmem m cold h => warms_setAccount h kv.1 (hstate.1 kv hmem)

theorem complete_commit (h : m.Complete) {changes : EvmState}
    (hchanges : ∀ change ∈ changes.accounts, change.2.info.Carries) : (m.commit changes).Complete := by
  refine List.foldlRecOn changes.accounts _ h fun m h change hmem => ?_
  refine complete_setAccount ?_ change.1 (hchanges change hmem)
  exact List.foldlRecOn change.2.storage _ h fun m h _ _ => h

theorem complete_overlay (h : m.Complete) {state : SessionState}
    (hstate : ∀ kv ∈ state.accounts, kv.2.Carries) : (m.overlay state).Complete := by
  refine List.foldlRecOn state.storage _ ?_ fun m h _ _ => h
  refine List.foldlRecOn state.code _ ?_ fun m h kv _ => complete_setCode h kv.1 kv.2
  exact List.foldlRecOn state.accounts _ h fun m h kv hmem =>
    complete_setAccount h kv.1 (hstate kv hmem)

end FullMap

/-! ### Forests over either -/

namespace Lineage

variable {book : Codebook} {start startCold : FullMap E} {ms cold : Maps E}

/-- The same sessions are open, each warm one beside its cold one. -/
def AllWarm (book : Codebook) (ms cold : Maps E) : Prop :=
  ∀ id, ms.lookup id = none ∧ cold.lookup id = none ∨
    ∃ m m', ms.lookup id = some m ∧ cold.lookup id = some m' ∧ m.Warms book m'

theorem allWarm_insert (h : AllWarm book ms cold) (id : SessionId) {m m' : FullMap E}
    (hm : m.Warms book m') : AllWarm book (ms.insert id m) (cold.insert id m') := by
  intro id'
  rw [Map.lookup_insert_eq, Map.lookup_insert_eq]
  split
  · exact .inr ⟨m, m', rfl, rfl, hm⟩
  · exact h id'

theorem allWarm_modify (h : AllWarm book ms cold) (id : SessionId) {f : FullMap E → FullMap E}
    (hf : ∀ m m', m.Warms book m' → (f m).Warms book (f m')) :
    AllWarm book (modify ms id f) (modify cold id f) := by
  unfold modify
  rcases h id with ⟨hm, hm'⟩ | ⟨m, m', hm, hm', hwarms⟩
  · rw [hm, hm']
    exact h
  · rw [hm, hm']
    exact allWarm_insert h id (hf m m' hwarms)

/-- STEP LEMMA: whatever is done to a forest, over the warm map or the cold. -/
theorem allWarm_step (hstart : start.Warms book startCold) {op : Op} (hop : book.OpOk op)
    (h : AllWarm book ms cold) :
    AllWarm book (refStep start op ms) (refStep startCold op cold) := by
  cases op with
  | fork id => exact allWarm_insert h id hstart
  | branch parent child =>
    simp only [refStep]
    rcases h parent with ⟨hm, hm'⟩ | ⟨m, m', hm, hm', hwarms⟩
    · rw [hm, hm']
      exact h
    · rw [hm, hm']
      exact allWarm_insert h child hwarms
  | restore id state => exact allWarm_insert h id (FullMap.warms_overlay hstart hop)
  | setAccount id address info =>
    exact allWarm_modify h id fun _ _ hm => FullMap.warms_setAccount hm address hop
  | setStorage id address key value =>
    exact allWarm_modify h id fun _ _ hm => FullMap.warms_setStorage hm address key value
  | commit id changes => exact allWarm_modify h id fun _ _ hm => FullMap.warms_commit hm hop
  | read id q => exact h
  | drop id =>
    intro id'
    simp only [refStep, Map.lookup_erase_eq]
    split
    · exact .inl ⟨rfl, rfl⟩
    · exact h id'

/-- RUN LEMMA: session by session, what is read over the warm map is read over the cold. -/
theorem allWarm_run (hstart : start.Warms book startCold) {ops : List Op}
    (hops : ∀ op ∈ ops, book.OpOk op) :
    AllWarm book (refRun start ops) (refRun startCold ops) :=
  List.foldl_rel (r := AllWarm book) (fun _ => .inl ⟨rfl, rfl⟩) fun op hmem _ _ h =>
    allWarm_step hstart (hops op hmem) h

/-- Every session finds the code of every account. -/
def AllComplete (ms : Maps E) : Prop := ∀ id m, ms.lookup id = some m → m.Complete

theorem allComplete_insert (h : AllComplete ms) (id : SessionId) {m : FullMap E} (hm : m.Complete) :
    AllComplete (ms.insert id m) := by
  intro id' m' hget
  rcases Map.of_lookup_insert hget with ⟨-, rfl⟩ | hold
  · exact hm
  · exact h id' m' hold

theorem allComplete_modify (h : AllComplete ms) (id : SessionId) {f : FullMap E → FullMap E}
    (hf : ∀ m, m.Complete → (f m).Complete) : AllComplete (modify ms id f) := by
  unfold modify
  cases hm : ms.lookup id with
  | none => exact h
  | some m => exact allComplete_insert h id (hf m (h id m hm))

/-- STEP LEMMA: code that is written along is not lost track of. -/
theorem allComplete_step (hstart : start.Complete) {op : Op} (hop : op.Carries)
    (h : AllComplete ms) : AllComplete (refStep start op ms) := by
  cases op with
  | fork id => exact allComplete_insert h id hstart
  | branch parent child =>
    simp only [refStep]
    cases hm : ms.lookup parent with
    | none => exact h
    | some m => exact allComplete_insert h child (h parent m hm)
  | restore id state => exact allComplete_insert h id (FullMap.complete_overlay hstart hop)
  | setAccount id address info =>
    exact allComplete_modify h id fun _ hm => FullMap.complete_setAccount hm address hop
  | setStorage id address key value => exact allComplete_modify h id fun _ hm => hm
  | commit id changes => exact allComplete_modify h id fun _ hm => FullMap.complete_commit hm hop
  | read id q => exact h
  | drop id => exact fun id' m hget => h id' m (Map.of_lookup_erase hget)

/-- RUN LEMMA: nor in a whole history. -/
theorem allComplete_run (hstart : start.Complete) {ops : List Op} (hops : ∀ op ∈ ops, op.Carries) :
    AllComplete (refRun start ops) :=
  List.foldlRecOn (motive := AllComplete) ops _ nofun fun _ h op hmem =>
    allComplete_step hstart (hops op hmem) h

end Lineage

/-! ### Sessions over either -/

namespace Session

variable [ToString E] {book : Codebook} {up : F → Upstream E} {db : DatabaseRef F W E} {I : W → Prop}
  {up' : F' → Upstream E} {db' : DatabaseRef F' W' E} {I' : W' → Prop}

/-- A session that shows a warm map reproduces one that shows the cold one. -/
theorem warm_reproduces (hdb : Faithful db up I) (hdb' : Faithful db' up' I') {s : Session F}
    {cold : Session F'} (h : (s.view up).Warms book (cold.view up')) {w : W} (hw : I w) {w' : W'}
    (hw' : I' w') : cold.Reproduces db' w' db s w := by
  refine ⟨fun address => ?_, fun address => ?_, fun address index => ?_, fun number => ?_⟩
  · rw [reads_view hdb s hw, reads_view hdb' cold hw', FullMap.answer_bare, FullMap.answer_bare,
      h.basic]
  · rw [(run_view hdb _ s w hw).1, (run_view hdb' _ cold w' hw').1]
    exact FullMap.codeOf_agree h.coldOk h.codeOk (h.basic address) h.finds
  · rw [reads_view hdb s hw, reads_view hdb' cold hw', FullMap.answer, FullMap.answer, h.storage]
  · rw [reads_view hdb s hw, reads_view hdb' cold hw', FullMap.answer, FullMap.answer, h.blockHash]

/-- And the code of every address, if it finds that of every account. -/
theorem warm_codeOf (hdb : Faithful db up I) (hdb' : Faithful db' up' I') {s : Session F}
    {cold : Session F'} (h : (s.view up).Warms book (cold.view up'))
    (hcomplete : (cold.view up').Complete) {w : W} (hw : I w) {w' : W'} (hw' : I' w')
    (address : Address) :
    ((codeOf address).run (answer db) (s, w)).1
      = ((codeOf address).run (answer db') (cold, w')).1 := by
  rw [(run_view hdb _ s w hw).1, (run_view hdb' _ cold w' hw').1]
  exact FullMap.codeOf_found h.coldOk h.codeOk (h.basic address) fun info info' hget hget' =>
    ⟨hcomplete address info hget, h.finds info info' hget hget' (hcomplete address info hget)⟩

end Session

end Forkyard
