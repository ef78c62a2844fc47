import Forkyard.Fetch.ReadThrough

/-! `speculate` within `speculate`, as one thread runs it. What the thread records is a thread-local
    that a guard swaps out on entry and puts back on return and on unwind alike, so the calls nest
    like brackets: each records the reads made directly in its own extent, and whatever surrounds it
    goes on recording where it was.

        misses:  outer ──enter──▶ [] ──miss k──▶ [k] ──return──▶ outer,  {k} handed to the caller
                                                  └────unwind──▶ outer -/

namespace Forkyard

open Schemes

variable {F E V : Type}

/-! ### The guard -/

/-- `Restore`: what to put back, until it has been put back. -/
structure Restore where
  outer : Option (Option (List StateKey))

namespace Restore

/-- Enter `speculate`: start an empty record, and guard what was recorded before. -/
def enter (w : Fetch F) : Restore × Fetch F := (⟨some w.misses⟩, { w with misses := some [] })

/-- The misses recorded since, with the record before them put back; `none` is the panic of a guard
    finished twice. The guard it leaves has nothing more to put back. -/
def finish (self : Restore) (w : Fetch F) : Option (Option (List StateKey) × Restore × Fetch F) :=
  match self.outer with
  | some outer => some (w.misses, ⟨none⟩, { w with misses := outer })
  | none => none

/-- Put back what has not been put back yet. -/
def drop (self : Restore) (w : Fetch F) : Fetch F :=
  match self.outer with
  | some outer => { w with misses := outer }
  | none => w

end Restore

/-- `speculate` with its guard: dropped by `finish` on return, by the unwinding on a panic. -/
def speculateGuarded {σ R : Type} (f : σ × Fetch F → Option R × (σ × Fetch F)) (s : σ)
    (w : Fetch F) : Option (R × List StateKey) × (σ × Fetch F) :=
  let (restore, w) := Restore.enter w
  match f (s, w) with
  | (some result, s, w) =>
    match restore.finish w with
    | some (misses, restore, w) => (some (result, sortDedup (misses.getD [])), s, restore.drop w)
    | none => (none, s, restore.drop w)
  | (none, s, w) => (none, s, restore.drop w)

/-- The guard is finished or dropped, never both. -/
theorem speculateGuarded_eq {σ R : Type} (f : σ × Fetch F → Option R × (σ × Fetch F)) (s : σ)
    (w : Fetch F) : speculateGuarded f s w = Fetch.speculate f s w := by
  simp only [speculateGuarded, Restore.enter, Fetch.speculate]
  rcases f (s, { w with misses := some [] }) with ⟨_ | result, s, w'⟩ <;> rfl

/-! ### Sorted, each key once -/

/-- The derived order is one of keys: no two stand in one place. -/
theorem rank_injective : Function.Injective StateKey.rank := by
  intro key key' h
  cases key <;> cases key' <;>
    simp_all [StateKey.rank, Prod.ext_iff, BitVec.toNat_inj, UInt64.toNat_inj]

theorem sortDedup_eq (keys : List StateKey) :
    sortDedup keys = (keys.insertionSort (·.rank ≤ ·.rank)).dedup := by
  have hantisymm : Std.Antisymm fun key key' : StateKey => key.rank ≤ key'.rank :=
    ⟨fun _ _ h h' => rank_injective (le_antisymm h h')⟩
  have htotal : Std.Total fun key key' : StateKey => key.rank ≤ key'.rank :=
    ⟨fun _ _ => le_total _ _⟩
  have htrans : IsTrans StateKey fun key key' => key.rank ≤ key'.rank := ⟨fun _ _ _ => le_trans⟩
  exact (List.pairwise_insertionSort _ keys).destutter_eq_dedup

theorem mem_sortDedup {key : StateKey} {keys : List StateKey} :
    key ∈ sortDedup keys ↔ key ∈ keys := by
  rw [sortDedup_eq, List.mem_dedup, List.mem_insertionSort]

theorem sortDedup_sorted (keys : List StateKey) : (sortDedup keys).Pairwise (·.rank < ·.rank) := by
  have htotal : Std.Total fun key key' : StateKey => key.rank ≤ key'.rank :=
    ⟨fun _ _ => le_total _ _⟩
  have htrans : IsTrans StateKey fun key key' => key.rank ≤ key'.rank := ⟨fun _ _ _ => le_trans⟩
  have hle := (List.pairwise_insertionSort (fun key key' : StateKey => key.rank ≤ key'.rank)
    keys).sublist (List.dedup_sublist _)
  rw [sortDedup_eq]
  -- in order, and no two the same: strictly in order
  refine (hle.and (List.nodup_dedup _)).imp fun h => ?_
  exact lt_of_le_of_ne h.1 fun hrank => h.2 (rank_injective hrank)

/-! ### What a thread does -/

/-- What an inner read may come to instead of a value: an error it returns, or a panic. -/
inductive Thrown (E : Type) where
  | error (e : E)
  | panic

/-- A panic unwinds, an error is an answer. -/
def Thrown.settle : Except (Thrown E) V → Option (Except E V)
  | .ok v => some (.ok v)
  | .error (.error e) => some (.error e)
  | .error .panic => none

/-- The type of what each of the four reads of a `DatabaseRef` returns. -/
abbrev RefAnswer (E : Type) : Query → Type
  | .basic _ => Except E (Option AccountInfo)
  | .codeByHash _ => Except E Bytecode
  | .storage _ _ => Except E StorageValue
  | .blockHash _ => Except E B256

/-- How a read was answered. -/
inductive Mark where
  | hit
  | placeholder (key : StateKey)
  | inner
  deriving DecidableEq

/-- The key a read records, if it records one. -/
def Mark.keys : Mark → List StateKey
  | .placeholder key => [key]
  | _ => []

namespace ReadThrough

variable [DecidableEq F]

/-- One of the four reads through a handle whose inner fallback comes to `now`; `none` is a panic of
    the inner read, on its way up. -/
def ask (now : Upstream (Thrown E)) (f : F) : (q : Query) → Fetch F →
    Option (RefAnswer E q) × Fetch F
  | .basic address, w => (basicRef (fun _ => now) f address w).map Thrown.settle id
  | .codeByHash codeHash, w => (codeByHashRef (fun _ => now) f codeHash w).map Thrown.settle id
  | .storage address index, w => (storageRef (fun _ => now) f address index w).map Thrown.settle id
  | .blockHash number, w => (blockHashRef (fun _ => now) f number w).map Thrown.settle id

end ReadThrough

/-- How a read of `key` is answered, given what the cache has of it. -/
def markOf (cached : Option V) (key : StateKey) (misses : Option (List StateKey)) : Mark :=
  match cached, misses with
  | some _, _ => .hit
  | none, some _ => .placeholder key
  | none, none => .inner

/-- How each of the four reads is answered; code by hash is neither cached nor recorded. -/
def Fetch.mark (w : Fetch F) (f : F) : Query → Mark
  | .basic address =>
    markOf ((w.land.caches f).accounts.lookup address) (.account address) w.misses
  | .codeByHash _ => .inner
  | .storage address index =>
    markOf ((w.land.caches f).storage.lookup (address, index)) (.storage address index) w.misses
  | .blockHash number =>
    markOf ((w.land.caches f).blockHashes.lookup number) (.blockHash number) w.misses

/-- One thread's execution: reads through any handles, each with what its inner fallback comes to
    should it be asked; `speculate` around a body, handed its value and its keys; `catch_unwind`
    around a body, handed `none` for a panic. -/
inductive Prog (F E V : Type) where
  | ret (v : V)
  | panic
  | read (f : F) (q : Query) (now : Upstream (Thrown E)) (k : RefAnswer E q → Prog F E V)
  | speculate (body : Prog F E V) (k : V → List StateKey → Prog F E V)
  | catchUnwind (body : Prog F E V) (k : Option V → Prog F E V)

namespace Prog

variable [DecidableEq F]

/-- Run it; `none` is a panic that nothing caught. -/
def run : Prog F E V → Fetch F → Option V × Fetch F
  | .ret v, w => (some v, w)
  | .panic, w => (none, w)
  | .read f q now k, w =>
    match ReadThrough.ask now f q w with
    | (some a, w) => (k a).run w
    | (none, w) => (none, w)
  | .speculate body k, w =>
    match speculateGuarded (fun sw => ((body.run sw.2).1, (), (body.run sw.2).2)) () w with
    | (some (v, keys), _, w) => (k v keys).run w
    | (none, _, w) => (none, w)
  | .catchUnwind body k, w => (k (body.run w).1).run (body.run w).2

end Prog

/-! ### What a thread is seen to do -/

/-- One call of `speculate`: the thread's recording state on entry and once it is over, how the
    reads made directly in its extent were answered, and the keys it returned, if it returned. -/
structure Extent where
  entry : Option (List StateKey)
  exit : Option (List StateKey)
  reads : List Mark
  returned : Option (List StateKey)

/-- What a stretch of execution did: how its own reads were answered, in order, and every call of
    `speculate` in it, at any depth. -/
structure Trail where
  reads : List Mark
  calls : List Extent

namespace Trail

def empty : Trail := ⟨[], []⟩

def append (a b : Trail) : Trail := ⟨a.reads ++ b.reads, a.calls ++ b.calls⟩

end Trail

namespace Prog

variable [DecidableEq F]

/-- `run`, watched: what it comes to, the state it leaves, and what it did. -/
def watch : Prog F E V → Fetch F → Option V × Fetch F × Trail
  | .ret v, w => (some v, w, .empty)
  | .panic, w => (none, w, .empty)
  | .read f q now k, w =>
    let mark := w.mark f q
    match ReadThrough.ask now f q w with
    | (some a, w) =>
      let (out, w, trail) := (k a).watch w
      (out, w, Trail.append ⟨[mark], []⟩ trail)
    | (none, w) => (none, w, ⟨[mark], []⟩)
  | .speculate body k, w =>
    let inside := body.watch { w with misses := some [] }
    match speculateGuarded (fun sw => ((body.run sw.2).1, (), (body.run sw.2).2)) () w with
    | (some (v, keys), _, w') =>
      let (out, w'', trail) := (k v keys).watch w'
      (out, w'', Trail.append
        ⟨[], inside.2.2.calls ++ [⟨w.misses, w'.misses, inside.2.2.reads, some keys⟩]⟩ trail)
    | (none, _, w') =>
      (none, w', ⟨[], inside.2.2.calls ++ [⟨w.misses, w'.misses, inside.2.2.reads, none⟩]⟩)
  | .catchUnwind body k, w =>
    let inside := body.watch w
    let (out, w', trail) := (k inside.1).watch inside.2.1
    (out, w', Trail.append inside.2.2 trail)

/-- Watching changes nothing. -/
theorem watch_run (p : Prog F E V) (w : Fetch F) :
    ((p.watch w).1, (p.watch w).2.1) = p.run w := by
  induction p generalizing w with
  | ret v => rfl
  | panic => rfl
  | read f q now k ih =>
    simp only [watch, run]
    rcases ReadThrough.ask now f q w with ⟨_ | a, w'⟩
    · rfl
    · exact ih a w'
  | speculate body k _ ih =>
    simp only [watch, run]
    rcases speculateGuarded _ () w with ⟨_ | ⟨v, keys⟩, -, w'⟩
    · rfl
    · exact ih v keys w'
  | catchUnwind body k ihbody ih =>
    have hbody := ihbody w
    simp only [watch, run, ← hbody]
    exact ih (body.watch w).1 (body.watch w).2.1

end Prog

/-! ### Reads -/

/-- A read is answered as marked, and recorded iff it is answered with a placeholder. -/
theorem read_marked [DecidableEq F] (cached : ReadCache → Option V)
    (insert : V → ReadCache → ReadCache) (key : StateKey) (placeholder : V)
    (inner : Except (Thrown E) V) (f : F) (w : Fetch F) :
    (Thrown.settle (ReadThrough.read cached insert key placeholder inner f w).1
      = match markOf (cached (w.land.caches f)) key w.misses with
        | .hit => (cached (w.land.caches f)).map .ok
        | .placeholder _ => some (.ok placeholder)
        | .inner => Thrown.settle inner) ∧
    (ReadThrough.read cached insert key placeholder inner f w).2.misses
      = w.misses.map (· ++ (markOf (cached (w.land.caches f)) key w.misses).keys) := by
  unfold ReadThrough.read markOf
  cases hc : cached (w.land.caches f) with
  | some hit => cases hm : w.misses <;> simp [hc, hm, Mark.keys, Thrown.settle]
  | none =>
    cases hm : w.misses with
    | some misses => simp [hc, hm, Fetch.recordMiss, Mark.keys, Thrown.settle]
    | none => cases inner <;> simp [hc, hm, Fetch.recordMiss, Mark.keys, Fetch.cache]

/-- What a cache has of a read. -/
def ReadCache.find (cache : ReadCache) : (q : Query) → Option (RefAnswer E q)
  | .basic address => (cache.accounts.lookup address).map .ok
  | .codeByHash _ => none
  | .storage address index => (cache.storage.lookup (address, index)).map .ok
  | .blockHash number => (cache.blockHashes.lookup number).map .ok

/-- What a recording thread is told instead: no account, a zero word. -/
def RefAnswer.placeholder : (q : Query) → Option (RefAnswer E q)
  | .basic _ => some (.ok none)
  | .codeByHash _ => none
  | .storage _ _ => some (.ok 0)
  | .blockHash _ => some (.ok 0)

/-- What the inner fallback comes to. -/
def Upstream.settle (now : Upstream (Thrown E)) : (q : Query) → Option (RefAnswer E q)
  | .basic address => Thrown.settle (now.basic address)
  | .codeByHash codeHash => Thrown.settle (now.codeByHash codeHash)
  | .storage address index => Thrown.settle (now.storage address index)
  | .blockHash number => Thrown.settle (now.blockHash number)

/-- STEP LEMMA: a read is told out of the cache, made up, or asked of the inner fallback, as its
    mark has it, and recorded iff it is made up. -/
theorem ask_marked [DecidableEq F] (now : Upstream (Thrown E)) (f : F) (q : Query) (w : Fetch F) :
    ((ReadThrough.ask now f q w).1 = match w.mark f q with
      | .hit => (w.land.caches f).find q
      | .placeholder _ => RefAnswer.placeholder q
      | .inner => now.settle q) ∧
    (ReadThrough.ask now f q w).2.misses = w.misses.map (· ++ (w.mark f q).keys) := by
  cases q with
  | basic address => exact read_marked (fun c => c.accounts.lookup address) _ _ _ _ f w
  | codeByHash codeHash =>
    refine ⟨rfl, ?_⟩
    cases hm : w.misses <;>
      simp [ReadThrough.ask, ReadThrough.codeByHashRef, Fetch.mark, Mark.keys, hm]
  | storage address index =>
    exact read_marked (fun c => c.storage.lookup (address, index)) _ _ _ _ f w
  | blockHash number => exact read_marked (fun c => c.blockHashes.lookup number) _ _ _ _ f w

/-- A thread that is not recording reads for real. -/
theorem mark_real {w : Fetch F} (h : w.misses = none) (f : F) (q : Query) (key : StateKey) :
    w.mark f q ≠ .placeholder key := by
  have hmark : ∀ {A : Type} (cached : Option A) (key' : StateKey),
      markOf cached key' none ≠ .placeholder key := by
    intro A cached key'
    cases cached <;> simp [markOf]
  cases q with
  | codeByHash codeHash => simp [Fetch.mark]
  | _ =>
    simp only [Fetch.mark, h]
    exact hmark _ _

theorem mem_keys {key : StateKey} {reads : List Mark} :
    key ∈ reads.flatMap Mark.keys ↔ .placeholder key ∈ reads := by
  rw [List.mem_flatMap]
  constructor
  · rintro ⟨mark, hmem, hkey⟩
    cases mark with
    | placeholder key' =>
      rw [Mark.keys, List.mem_singleton] at hkey
      rwa [hkey]
    | hit => cases hkey
    | inner => cases hkey
  · exact fun hmem => ⟨_, hmem, List.mem_singleton_self key⟩

/-! ### Brackets -/

/-- What a call of `speculate` does for the thread around it. -/
structure Extent.Bracketed (call : Extent) : Prop where
  restored : call.exit = call.entry
  sorted : ∀ keys ∈ call.returned, keys.Pairwise (·.rank < ·.rank)
  exact : ∀ keys ∈ call.returned, ∀ key, key ∈ keys ↔ .placeholder key ∈ call.reads

namespace Prog

variable [DecidableEq F]

/-- What `speculate` around a body comes to, and what it leaves. -/
theorem speculate_body (body : Prog F E V) (w : Fetch F) :
    speculateGuarded (fun sw => ((body.run sw.2).1, (), (body.run sw.2).2)) () w
      = ((body.run { w with misses := some [] }).1.map fun v =>
          (v, sortDedup ((body.run { w with misses := some [] }).2.misses.getD [])), (),
        { (body.run { w with misses := some [] }).2 with misses := w.misses }) := by
  rw [speculateGuarded_eq, Fetch.speculate]
  rcases body.run { w with misses := some [] } with ⟨_ | v, w'⟩ <;> rfl

/-- RUN LEMMA: a stretch of execution adds to the thread's record the keys of its own placeholder
    reads, in order, and nothing of the calls of `speculate` in it. -/
theorem watch_misses (p : Prog F E V) (w : Fetch F) :
    (p.watch w).2.1.misses = w.misses.map (· ++ (p.watch w).2.2.reads.flatMap Mark.keys) := by
  induction p generalizing w with
  | ret v => cases hm : w.misses <;> simp [watch, Trail.empty, hm]
  | panic => cases hm : w.misses <;> simp [watch, Trail.empty, hm]
  | read f q now k ih =>
    have hask := (ask_marked now f q w).2
    simp only [watch]
    rcases hout : ReadThrough.ask now f q w with ⟨_ | a, w'⟩
    · rw [hout] at hask
      simpa using hask
    · have hask : w'.misses = w.misses.map (· ++ (w.mark f q).keys) := by rwa [hout] at hask
      simp only [ih a w', hask, Option.map_map]
      simp [Trail.append, Function.comp_def]
  | speculate body k _ ih =>
    simp only [watch, speculate_body]
    cases (body.run { w with misses := some [] }).1 with
    | none => cases w.misses <;> simp
    | some v => simpa [Trail.append] using ih v _ _
  | catchUnwind body k ihbody ih =>
    have hbody := ihbody w
    simp only [watch]
    rw [ih (body.watch w).1 (body.watch w).2.1, hbody, Option.map_map]
    simp [Trail.append, Function.comp_def, List.append_assoc]

/-- The thread's recording state is on or off, and what it runs leaves it so. -/
theorem watch_off (p : Prog F E V) {w : Fetch F} (h : w.misses = none) :
    (p.watch w).2.1.misses = none := by
  rw [watch_misses, h]
  rfl

/-- RUN LEMMA: while a thread is not recording, none of its own reads is answered with a
    placeholder. -/
theorem watch_real (key : StateKey) (p : Prog F E V) {w : Fetch F} (h : w.misses = none) :
    .placeholder key ∉ (p.watch w).2.2.reads := by
  induction p generalizing w with
  | ret v => simp [watch, Trail.empty]
  | panic => simp [watch, Trail.empty]
  | read f q now k ih =>
    have hask : (ReadThrough.ask now f q w).2.misses = none := by
      rw [(ask_marked now f q w).2, h]
      rfl
    simp only [watch]
    rcases hout : ReadThrough.ask now f q w with ⟨_ | a, w'⟩
    · simpa using (mark_real h f q key).symm
    · rw [hout] at hask
      have hrest := ih a hask
      simpa [Trail.append, hrest] using (mark_real h f q key).symm
  | speculate body k _ ih =>
    simp only [watch, speculate_body]
    cases (body.run { w with misses := some [] }).1 with
    | none => simp
    | some v =>
      simpa [Trail.append] using ih v _
        (w := { (body.run { w with misses := some [] }).2 with misses := w.misses }) h
  | catchUnwind body k ihbody ih =>
    have hbody := ihbody h
    have hrest := ih (body.watch w).1 (watch_off body h)
    simp only [watch, Trail.append, List.mem_append, not_or]
    exact ⟨hbody, hrest⟩

/-- A call of `speculate`, whatever its body does, brackets the thread's recording state. -/
theorem bracketed_call (body : Prog F E V) (w : Fetch F) (returned : Option (List StateKey))
    (h : ∀ keys ∈ returned,
      keys = sortDedup ((body.run { w with misses := some [] }).2.misses.getD [])) :
    Extent.Bracketed ⟨w.misses, w.misses, (body.watch { w with misses := some [] }).2.2.reads,
      returned⟩ := by
  have hmisses : (body.run { w with misses := some [] }).2.misses
      = some ((body.watch { w with misses := some [] }).2.2.reads.flatMap Mark.keys) := by
    rw [← watch_run, watch_misses]
    rfl
  refine ⟨rfl, fun keys hkeys => ?_, fun keys hkeys key => ?_⟩
  · rw [h keys hkeys]
    exact sortDedup_sorted _
  · rw [h keys hkeys, mem_sortDedup, hmisses]
    exact mem_keys

/-- RUN LEMMA: every call of `speculate` in an execution is a bracket, at any depth, whether it
    returns or unwinds. -/
theorem watch_bracketed (p : Prog F E V) (w : Fetch F) :
    ∀ call ∈ (p.watch w).2.2.calls, call.Bracketed := by
  induction p generalizing w with
  | ret v => simp [watch, Trail.empty]
  | panic => simp [watch, Trail.empty]
  | read f q now k ih =>
    intro call hmem
    simp only [watch] at hmem
    rcases hout : ReadThrough.ask now f q w with ⟨_ | a, w'⟩
    · simp [hout] at hmem
    · simp only [hout, Trail.append, List.nil_append] at hmem
      exact ih a w' call hmem
  | speculate body k ihbody ih =>
    intro call hmem
    have hinside := ihbody { w with misses := some [] }
    simp only [watch, speculate_body] at hmem
    cases hv : (body.run { w with misses := some [] }).1 with
    | none =>
      simp only [hv, Option.map_none, List.mem_append, List.mem_singleton] at hmem
      rcases hmem with hmem | rfl
      · exact hinside call hmem
      · exact bracketed_call body w none (by simp)
    | some v =>
      simp only [hv, Option.map_some, Trail.append, List.mem_append, List.mem_singleton] at hmem
      rcases hmem with (hmem | rfl) | hmem
      · exact hinside call hmem
      · exact bracketed_call body w _ (by simp)
      · exact ih v _ _ call hmem
  | catchUnwind body k ihbody ih =>
    intro call hmem
    simp only [watch, Trail.append, List.mem_append] at hmem
    rcases hmem with hmem | hmem
    · exact ihbody w call hmem
    · exact ih (body.watch w).1 (body.watch w).2.1 call hmem

/-- BRACKETS: whatever a thread executes, reads through any handles, `speculate` in `speculate`,
    panics out of any of these and caught anywhere or nowhere. Every call of `speculate` leaves the
    thread recording what it was on entry, returning or unwinding, and one that returns hands over
    the keys missed directly in its own extent, in order and each once; the thread, which starts out
    not recording, ends so, and no read outside them all is answered with a placeholder. -/
theorem speculate_brackets (p : Prog F E V) (caches : F → ReadCache)
    (landed : List (F → ReadCache)) :
    (∀ call ∈ (p.watch ⟨caches, none, landed⟩).2.2.calls, call.Bracketed) ∧
    (p.run ⟨caches, none, landed⟩).2.misses = none ∧
    ∀ key, .placeholder key ∉ (p.watch ⟨caches, none, landed⟩).2.2.reads := by
  refine ⟨watch_bracketed p _, ?_, fun key => watch_real key p rfl⟩
  rw [← watch_run]
  exact watch_off p rfl

end Prog

end Forkyard
