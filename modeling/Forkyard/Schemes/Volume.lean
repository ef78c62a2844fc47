import Mathlib.Tactic

/-! One directory of a file system, seen by those who hold files open: names stand for files by
    number, what is written goes to the number, and a name may come to stand for another. What a
    power loss leaves of a file is anything, unless it was synced; a rename is atomic.

        name ──dir──▶ 3 ──inode──▶ ⟨bytes, synced⟩ -/

namespace Schemes

variable {N B : Type}

structure Inode (B : Type) where
  bytes : List B
  synced : Bool

structure Volume (N B : Type) where
  dir : N → Option ℕ
  inode : ℕ → Inode B
  next : ℕ

namespace Volume

/-- What a reader of the name sees. -/
def read (v : Volume N B) (name : N) : Option (List B) := (v.dir name).map fun i => (v.inode i).bytes

def put (v : Volume N B) (i : ℕ) (node : Inode B) : Volume N B :=
  { v with inode := Function.update v.inode i node }

def sync (v : Volume N B) (i : ℕ) : Volume N B := v.put i ⟨(v.inode i).bytes, true⟩

/-- `data` at an offset, over what is there. -/
def overwrite [Inhabited B] (bytes : List B) (offset : ℕ) (data : List B) : List B :=
  bytes.take offset ++ List.replicate (offset - bytes.length) default ++ data
    ++ bytes.drop (offset + data.length)

theorem overwrite_end [Inhabited B] (bytes data : List B) :
    overwrite bytes bytes.length data = bytes ++ data := by
  have hrest : bytes.drop (bytes.length + data.length) = [] := List.drop_eq_nil_of_le (by omega)
  rw [overwrite, List.take_length, Nat.sub_self, hrest]
  simp

def writeAt [Inhabited B] (v : Volume N B) (i offset : ℕ) (data : List B) : Volume N B :=
  v.put i ⟨overwrite (v.inode i).bytes offset data, false⟩

/-- All unsynced content is lost, or something like it is left. -/
def powerLoss (v : Volume N B) (left : ℕ → List B) : Volume N B :=
  { v with inode := fun i => if (v.inode i).synced then v.inode i else ⟨left i, false⟩ }

variable [DecidableEq N]

/-- Some files, each synced. -/
def ofFiles (files : List (N × List B)) : Volume N B where
  dir name := files.findIdx? fun file => file.1 = name
  inode i := ⟨(files[i]?.map Prod.snd).getD [], true⟩
  next := files.length

/-- Opened for writing: emptied if it is there, made if not. -/
def create (v : Volume N B) (name : N) : ℕ × Volume N B :=
  match v.dir name with
  | some i => (i, v.put i ⟨[], false⟩)
  | none => (v.next, ⟨Function.update v.dir name (some v.next),
      Function.update v.inode v.next ⟨[], false⟩, v.next + 1⟩)

def rename (v : Volume N B) (old new : N) : Option (Volume N B) :=
  (v.dir old).map fun i =>
    if old = new then v
    else { v with dir := Function.update (Function.update v.dir new (some i)) old none }

def remove (v : Volume N B) (name : N) : Option (Volume N B) :=
  (v.dir name).map fun _ => { v with dir := Function.update v.dir name none }

/-! ### One name a file -/

/-- INVARIANT: no two names stand for one file, and the numbers from `next` on are free. -/
structure Linked (v : Volume N B) : Prop where
  injective : ∀ name name' i, v.dir name = some i → v.dir name' = some i → name = name'
  bound : ∀ name i, v.dir name = some i → i < v.next

variable {v : Volume N B} {name : N}

theorem linked_ofFiles (files : List (N × List B)) : (ofFiles files).Linked where
  injective name name' i h h' := by
    obtain ⟨_, hname, -⟩ := List.findIdx?_eq_some_iff_getElem.mp h
    obtain ⟨_, hname', -⟩ := List.findIdx?_eq_some_iff_getElem.mp h'
    exact (of_decide_eq_true hname).symm.trans (of_decide_eq_true hname')
  bound name i h := (List.findIdx?_eq_some_iff_getElem.mp h).1

omit [DecidableEq N] in
theorem linked_put (h : v.Linked) (i : ℕ) (node : Inode B) : (v.put i node).Linked :=
  ⟨h.injective, h.bound⟩

/-- SPEC of `create`: the name stands for an empty file, which was the name's or no one's; nothing
    else has changed. -/
theorem create_spec (h : v.Linked) (name : N) :
    ∃ i v', v.create name = (i, v') ∧ v'.Linked ∧ v.next ≤ v'.next ∧ i < v'.next ∧
      (v.dir name = some i ∨ i = v.next) ∧ v'.dir name = some i ∧
      (∀ other, other ≠ name → v'.dir other = v.dir other) ∧ v'.inode i = ⟨[], false⟩ ∧
      ∀ j, j ≠ i → v'.inode j = v.inode j := by
  unfold create
  cases hdir : v.dir name with
  | some i =>
    refine ⟨i, _, rfl, linked_put h i _, le_rfl, h.bound name i hdir, .inl rfl, hdir, fun _ _ => rfl,
      ?_, fun j hj => ?_⟩
    · simp [put]
    · simp [put, hj]
  | none =>
    have hfree : ∀ other, v.dir other ≠ some v.next := fun other hother =>
      Nat.lt_irrefl _ (h.bound other _ hother)
    refine ⟨v.next, _, rfl, ⟨?_, ?_⟩, Nat.le_succ _, Nat.lt_succ_self _, .inr rfl, ?_, ?_, ?_, ?_⟩
    · intro a b i ha hb
      simp only [Function.update_apply] at ha hb
      split at ha <;> split at hb
      · rename_i ha' hb'
        rw [ha', hb']
      · exact absurd ((Option.some.inj ha) ▸ hb) (hfree b)
      · exact absurd ((Option.some.inj hb) ▸ ha) (hfree a)
      · exact h.injective a b i ha hb
    · intro other i hother
      simp only [Function.update_apply] at hother
      split at hother
      · exact (Option.some.inj hother) ▸ Nat.lt_succ_self _
      · exact Nat.lt_succ_of_lt (h.bound other i hother)
    · simp
    · intro other hother
      simp [hother]
    · simp
    · intro j hj
      simp [hj]

/-- SPEC of `rename` to another name: that name stands for the file, the old one for none. -/
theorem rename_spec (h : v.Linked) {old new : N} (hne : old ≠ new) {v' : Volume N B}
    (hrename : v.rename old new = some v') :
    ∃ i, v.dir old = some i ∧ v'.Linked ∧ v'.inode = v.inode ∧ v'.next = v.next ∧
      v'.dir new = some i ∧ v'.dir old = none ∧
      ∀ other, other ≠ old → other ≠ new → v'.dir other = v.dir other := by
  obtain ⟨i, hi, rfl⟩ := Option.map_eq_some_iff.mp hrename
  rw [if_neg hne]
  refine ⟨i, hi, ⟨?_, ?_⟩, rfl, rfl, ?_, ?_, ?_⟩
  · have hname : ∀ a j, Function.update (Function.update v.dir new (some i)) old none a = some j →
        a = new ∧ j = i ∨ a ≠ old ∧ v.dir a = some j := by
      intro a j ha
      simp only [Function.update_apply] at ha
      split at ha
      · cases ha
      · split at ha
        · rename_i hnew
          exact .inl ⟨hnew, (Option.some.inj ha).symm⟩
        · rename_i hold _
          exact .inr ⟨hold, ha⟩
    intro a b j ha hb
    rcases hname a j ha with ⟨hanew, hai⟩ | ⟨haold, ha'⟩
    · rcases hname b j hb with ⟨hbnew, -⟩ | ⟨hbold, hb'⟩
      · exact hanew.trans hbnew.symm
      · exact absurd (h.injective b old i (hai ▸ hb') hi) hbold
    · rcases hname b j hb with ⟨-, hbi⟩ | ⟨-, hb'⟩
      · exact absurd (h.injective a old i (hbi ▸ ha') hi) haold
      · exact h.injective a b j ha' hb'
  · intro a j ha
    simp only [Function.update_apply] at ha
    split at ha
    · cases ha
    · split at ha
      · rw [← Option.some.inj ha]
        exact h.bound old i hi
      · exact h.bound a j ha
  · simp [hne.symm]
  · simp
  · intro other hold hnew
    simp [hold, hnew]

/-- SPEC of `remove`: its file has no name any more. -/
theorem remove_spec (h : v.Linked) {v' : Volume N B} (hremove : v.remove name = some v') :
    ∃ i, v.dir name = some i ∧ v'.Linked ∧ v'.inode = v.inode ∧ v'.next = v.next ∧
      (∀ other, v'.dir other ≠ some i) ∧ v'.dir name = none ∧
      ∀ other, other ≠ name → v'.dir other = v.dir other := by
  obtain ⟨i, hi, rfl⟩ := Option.map_eq_some_iff.mp hremove
  have hgone : ∀ {a : N} {j : ℕ}, Function.update v.dir name none a = some j →
      a ≠ name ∧ v.dir a = some j := by
    intro a j ha
    simp only [Function.update_apply] at ha
    split at ha
    · cases ha
    · rename_i hne
      exact ⟨hne, ha⟩
  refine ⟨i, hi, ⟨fun a b j ha hb => ?_, fun a j ha => ?_⟩, rfl, rfl, fun other hother => ?_,
    Function.update_self .., fun other hother => ?_⟩
  · exact h.injective a b j (hgone ha).2 (hgone hb).2
  · exact h.bound a j (hgone ha).2
  · obtain ⟨hne, hother⟩ := hgone hother
    exact hne (h.injective other name i hother hi)
  · simp [hother]

/-! ### Who is not concerned -/

/-- FRAME: of the files there were only the one `name` stands for is written to, only `name` and
    `target` come to stand for another, and no file without a name gets one. -/
structure Touched (v : Volume N B) (name target : N) (v' : Volume N B) : Prop where
  linked : v'.Linked
  next : v.next ≤ v'.next
  dir : ∀ other, other ≠ name → other ≠ target → v'.dir other = v.dir other
  inode : ∀ i < v.next, v.dir name ≠ some i → v'.inode i = v.inode i
  free : ∀ i < v.next, (∀ other, v.dir other ≠ some i) → ∀ other, v'.dir other ≠ some i

omit [DecidableEq N] in
theorem touched_put (h : v.Linked) {i : ℕ} (hi : v.dir name = some i) (target : N) (node : Inode B) :
    v.Touched name target (v.put i node) where
  linked := linked_put h i node
  next := le_rfl
  dir _ _ _ := rfl
  inode j _ hj := by
    have hne : j ≠ i := fun hji => hj (hji ▸ hi)
    simp [put, hne]
  free _ _ hfree := hfree

theorem touched_create (h : v.Linked) (name target : N) :
    v.Touched name target (v.create name).2 := by
  obtain ⟨i, v', hcreate, hlinked, hnext, -, hi, hdir, hother, -, hinode⟩ := create_spec h name
  rw [hcreate]
  refine ⟨hlinked, hnext, fun other hne _ => hother other hne, fun j hj hname => hinode j ?_,
    fun j hj hfree other hdir' => ?_⟩
  · rintro rfl
    rcases hi with hi | hi
    · exact hname hi
    · omega
  · by_cases hne : other = name
    · rw [hne, hdir] at hdir'
      obtain rfl := Option.some.inj hdir'
      rcases hi with hi | hi
      · exact hfree name hi
      · omega
    · rw [hother other hne] at hdir'
      exact hfree other hdir'

theorem touched_rename (h : v.Linked) {target : N} (hne : name ≠ target) {v' : Volume N B}
    (hrename : v.rename name target = some v') : v.Touched name target v' := by
  obtain ⟨i, hi, hlinked, hinode, hnext, hnew, hold, hother⟩ := rename_spec h hne hrename
  refine ⟨hlinked, hnext.ge, hother, fun j _ _ => by rw [hinode], fun j _ hfree other hdir => ?_⟩
  by_cases hname : other = name
  · rw [hname, hold] at hdir
    cases hdir
  · by_cases htarget : other = target
    · rw [htarget, hnew] at hdir
      exact hfree name (hdir ▸ hi)
    · rw [hother other hname htarget] at hdir
      exact hfree other hdir

theorem touched_remove (h : v.Linked) {v' : Volume N B} (hremove : v.remove name = some v')
    (target : N) : v.Touched name target v' := by
  obtain ⟨i, hi, hlinked, hinode, hnext, -, hnone, hother⟩ := remove_spec h hremove
  refine ⟨hlinked, hnext.ge, fun other hne _ => hother other hne, fun j _ _ => by rw [hinode],
    fun j _ hfree other hdir => ?_⟩
  by_cases hname : other = name
  · rw [hname, hnone] at hdir
    cases hdir
  · rw [hother other hname] at hdir
    exact hfree other hdir

end Volume

end Schemes
