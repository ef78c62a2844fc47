import Mathlib.Data.List.TakeWhile
import Forkyard.Engine.Persist
import Forkyard.Schemes.Steps
import Forkyard.Schemes.Volume

/-! `write_atomically` by its system calls, for any number of threads and processes that write one
    path at once. A temp file is told apart by the process that writes it, as long as that lives, and
    by a counter of the process; a process that dies leaves its temp file behind, and the next to get
    its pid counts from zero and may empty that file and write into it.

        create_dir ─▶ fetch_add ─▶ create ─▶ write … ─▶ sync ─▶ rename ─▶ Ok
                                      └─────────┴────────┴────────┴─▶ remove ─▶ Err -/

namespace Forkyard

open Schemes

/-! ### Names -/

/-- `Path::file_stem`: the name up to its last dot, all of it if that leads or there is none. -/
def fileStem (name : String) : String :=
  -- `..` is no file name
  if name = ".." then ""
  else match name.toList.reverse.dropWhile (· ≠ '.') with
    | [] => name
    | [_] => name
    | _ :: stem => String.ofList stem.reverse

/-- The temp file of a process's `nonce`-th write; the counter has 64 bits. -/
def tempName (name : String) (pid : UInt32) (nonce : ℕ) : String :=
  s!"{fileStem name}.{pid.toNat}.{nonce % 2 ^ 64}.tmp"

theorem dot_notMem_repr (n : ℕ) : '.' ∉ (Nat.repr n).toList := by
  intro hmem
  rw [Nat.toList_repr] at hmem
  have hdigit : ('.' : Char).isDigit = true :=
    Nat.isDigit_of_mem_toDigits (by decide) (by decide) hmem
  revert hdigit
  decide

theorem eq_of_toList_repr {n m : ℕ} (h : (Nat.repr n).toList = (Nat.repr m).toList) : n = m := by
  rw [Nat.toList_repr, Nat.toList_repr] at h
  calc
    n = Nat.ofDigitChars 10 (Nat.toDigits 10 n) 0 := Nat.ofDigitChars_ten_toDigits.symm
    _ = Nat.ofDigitChars 10 (Nat.toDigits 10 m) 0 := by rw [h]
    _ = m := Nat.ofDigitChars_ten_toDigits

theorem toList_tempName (name : String) (pid : UInt32) (nonce : ℕ) :
    (tempName name pid nonce).toList = (fileStem name).toList ++ '.' ::
      (((Nat.repr pid.toNat).toList ++ '.' :: (Nat.repr (nonce % 2 ^ 64)).toList) ++ ".tmp".toList)
      := by
  simp only [tempName, String.toList_append, List.append_assoc, List.cons_append]
  rfl

/-- Pid and counter tell temp files apart. -/
theorem tempName_inj {name : String} {pid pid' : UInt32} {nonce nonce' : ℕ} (h : nonce < 2 ^ 64)
    (h' : nonce' < 2 ^ 64) (hsame : tempName name pid nonce = tempName name pid' nonce') :
    pid = pid' ∧ nonce = nonce' := by
  have hchars := congrArg String.toList hsame
  rw [toList_tempName, toList_tempName, List.append_cancel_left_eq, List.cons.injEq,
    List.append_cancel_right_eq, List.append_cons_inj_of_notMem (dot_notMem_repr _)
    (dot_notMem_repr _)] at hchars
  obtain ⟨-, hpid, -, hnonce⟩ := hchars
  refine ⟨UInt32.toNat_inj.mp (eq_of_toList_repr hpid), ?_⟩
  rw [← Nat.mod_eq_of_lt h, ← Nat.mod_eq_of_lt h', eq_of_toList_repr hnonce]

/-- What `dropWhile` takes off behind the last dot holds none. -/
theorem exists_extension {chars stem : List Char} {c : Char}
    (h : chars.reverse.dropWhile (· ≠ '.') = c :: stem) :
    ∃ ext, chars = stem.reverse ++ '.' :: ext ∧ '.' ∉ ext := by
  have hdot : c = '.' := by
    have hhead := List.head?_dropWhile_not (· ≠ '.') chars.reverse
    rw [h] at hhead
    simpa using hhead
  refine ⟨(chars.reverse.takeWhile (· ≠ '.')).reverse, ?_, fun hmem => ?_⟩
  · have hsplit := List.takeWhile_append_dropWhile (p := (· ≠ '.')) (l := chars.reverse)
    rw [h, hdot] at hsplit
    calc
      chars = chars.reverse.reverse := (List.reverse_reverse chars).symm
      _ = (chars.reverse.takeWhile (· ≠ '.') ++ '.' :: stem).reverse := by rw [hsplit]
      _ = stem.reverse ++ '.' :: (chars.reverse.takeWhile (· ≠ '.')).reverse := by
        rw [List.reverse_append, List.reverse_cons, List.append_assoc]
        rfl
  · have hnot := List.mem_takeWhile_imp (List.mem_reverse.mp hmem)
    simp at hnot

/-- No temp file stands in the place of the file. -/
theorem tempName_ne (name : String) (pid : UInt32) (nonce : ℕ) : tempName name pid nonce ≠ name := by
  intro hsame
  have hchars := toList_tempName name pid nonce
  rw [hsame] at hchars
  have hlonger : (fileStem name).toList.length < name.toList.length := by
    rw [hchars]
    simp
  unfold fileStem at hchars hlonger
  split at hchars
  · rename_i hdots
    rw [hdots] at hchars
    have hlength := congrArg List.length hchars
    simp at hlength
    omega
  · rename_i hdots
    rw [if_neg hdots] at hlonger
    split at hchars
    · rename_i hnone
      rw [hnone] at hlonger
      exact Nat.lt_irrefl _ hlonger
    · rename_i c hlast
      rw [hlast] at hlonger
      exact Nat.lt_irrefl _ hlonger
    · rename_i c stem hmany hrest
      obtain ⟨ext, hname, hext⟩ := exists_extension hrest
      -- the extension holds no dot, and that of a temp file holds two
      rw [String.toList_ofList, hname, List.append_cancel_left_eq, List.cons.injEq] at hchars
      refine hext ?_
      rw [hchars.2]
      simp

/-! ### Writers -/

/-- A process, and its `TEMP_NONCE`. -/
structure OsProcess where
  pid : UInt32
  alive : Bool
  nonce : ℕ

/-- The next thing a writer does, or how it ended. -/
inductive WriteStage where
  /-- `create_dir_all` -/
  | entered
  /-- `TEMP_NONCE.fetch_add` -/
  | numbering
  | creating
  | writing (written : ℕ)
  /-- `rename` -/
  | synced
  | removing (reason : CacheError)
  /-- It returned an error; `stray` if its temp file could not be removed. -/
  | failed (reason : CacheError) (stray : Bool)
  | done
  | killed

def WriteStage.active : WriteStage → Bool
  | .failed _ _ => false
  | .done => false
  | .killed => false
  | _ => true

/-- A call of `write_atomically`: its process, what it writes, the nonce it has drawn and the file it
    has opened. -/
structure Writer where
  process : ℕ
  pid : UInt32
  bytes : Bytes
  nonce : Option ℕ
  handle : Option ℕ
  stage : WriteStage

namespace Writer

def temp (name : String) (w : Writer) : Option String := w.nonce.map (tempName name w.pid)

/-- Its process is gone. -/
def die (w : Writer) : Writer := if w.stage.active then { w with stage := .killed } else w

@[simp] theorem die_process (w : Writer) : w.die.process = w.process := by
  unfold die
  split <;> rfl

@[simp] theorem die_nonce (w : Writer) : w.die.nonce = w.nonce := by
  unfold die
  split <;> rfl

@[simp] theorem die_bytes (w : Writer) : w.die.bytes = w.bytes := by
  unfold die
  split <;> rfl

end Writer

/-- The directory of the path, the processes, the calls, and which of them put their file in
    place. -/
structure Writers where
  volume : Volume String UInt8
  processes : List OsProcess
  writers : List Writer
  placed : List ℕ

/-- A process starts, one of its threads calls `write_atomically`, the `j`-th call's next step goes
    well (a `write` may take no more than some bytes) or fails, a process dies, or the machine. -/
inductive WritersEvent where
  | spawn (pid : UInt32)
  | call (process : ℕ) (bytes : Bytes)
  | advance (j count : ℕ)
  | fail (j : ℕ) (error : String)
  | kill (process : ℕ)
  | powerLoss (left : ℕ → Bytes)

namespace Writers

def start (files : List (String × Bytes)) : Writers := ⟨.ofFiles files, [], [], []⟩

def settle (s : Writers) (j : ℕ) (w : Writer) : Writers := { s with writers := s.writers.set j w }

variable (path : Path)

/-- The last component of the path. -/
def name : String := path.getLastD ""

/-- The next step of the `j`-th call goes well. -/
def advance (s : Writers) (j : ℕ) (w : Writer) (count : ℕ) : Writers :=
  match w.stage with
  | .entered => s.settle j { w with stage := .numbering }
  | .numbering =>
    match s.processes[w.process]? with
    | none => s
    | some process =>
      { s.settle j { w with nonce := process.nonce, stage := .creating } with
        processes := s.processes.set w.process { process with nonce := process.nonce + 1 } }
  | .creating =>
    match w.temp (name path) with
    | none => s
    | some temp =>
      let (handle, volume) := s.volume.create temp
      { s.settle j { w with handle := handle, stage := .writing 0 } with volume := volume }
  | .writing written =>
    match w.handle with
    | none => s
    | some handle =>
      if written < w.bytes.length then
        let chunk := (w.bytes.drop written).take (count + 1)
        { s.settle j { w with stage := .writing (written + chunk.length) } with
          volume := s.volume.writeAt handle written chunk }
      else
        { s.settle j { w with stage := .synced } with volume := s.volume.sync handle }
  | .synced =>
    match w.temp (name path) with
    | none => s
    | some temp =>
      match s.volume.rename temp (name path) with
      | none => s.settle j { w with stage := .removing (.io path "No such file or directory") }
      | some volume =>
        { s.settle j { w with stage := .done } with volume := volume, placed := s.placed ++ [j] }
  | .removing reason =>
    match w.temp (name path) with
    | none => s
    | some temp =>
      match s.volume.remove temp with
      | none => s.settle j { w with stage := .failed reason true }
      | some volume => { s.settle j { w with stage := .failed reason false } with volume := volume }
  | .failed _ _ => s
  | .done => s
  | .killed => s

/-- It fails. -/
def fail (s : Writers) (j : ℕ) (w : Writer) (error : String) : Writers :=
  let temp : Path := path.dropLast ++ (w.temp (name path)).toList
  match w.stage with
  | .entered => s.settle j { w with stage := .failed (.io path.dropLast error) false }
  | .numbering => s
  | .creating => s.settle j { w with stage := .removing (.io temp error) }
  | .writing _ => s.settle j { w with stage := .removing (.io temp error) }
  | .synced => s.settle j { w with stage := .removing (.io path error) }
  | .removing reason => s.settle j { w with stage := .failed reason true }
  | .failed _ _ => s
  | .done => s
  | .killed => s

def step (s : Writers) : WritersEvent → Writers
  | .spawn pid =>
    -- no two live processes have one pid
    if s.processes.any fun process => process.alive && process.pid == pid then s
    else { s with processes := s.processes ++ [⟨pid, true, 0⟩] }
  | .call k bytes =>
    match s.processes[k]? with
    | none => s
    | some process =>
      if process.alive then
        { s with writers := s.writers ++ [⟨k, process.pid, bytes, none, none, .entered⟩] }
      else s
  | .advance j count =>
    match s.writers[j]? with
    | none => s
    | some w => s.advance path j w count
  | .fail j error =>
    match s.writers[j]? with
    | none => s
    | some w => s.fail path j w error
  | .kill k =>
    { s with
      processes := s.processes.modify k fun process => { process with alive := false }
      writers := s.writers.map fun w => if w.process = k then w.die else w }
  | .powerLoss left =>
    { s with
      volume := s.volume.powerLoss left
      processes := s.processes.map fun process => { process with alive := false }
      writers := s.writers.map Writer.die }

/-- No process makes its counter go round. -/
def Numbered (s : Writers) (_ : WritersEvent) : Prop :=
  ∀ process ∈ s.processes, process.nonce < 2 ^ 64

instance (s : Writers) (event : WritersEvent) : Decidable (s.Numbered event) :=
  inferInstanceAs (Decidable (∀ process ∈ s.processes, process.nonce < 2 ^ 64))

end Writers

/-! ### The invariant -/

/-- What a writer has got done, as far as anyone can tell from the directory. -/
def Writer.Keeps (volume : Volume String UInt8) (w : Writer) : Prop :=
  match w.stage with
  | .entered => w.nonce = none ∧ w.handle = none
  | .numbering => w.nonce = none ∧ w.handle = none
  | .creating => w.nonce ≠ none ∧ w.handle = none
  | .writing written => w.nonce ≠ none ∧ written ≤ w.bytes.length ∧
    ∃ i, w.handle = some i ∧ (volume.inode i).bytes = w.bytes.take written
  | .synced => w.nonce ≠ none ∧ ∃ i, w.handle = some i ∧ volume.inode i = ⟨w.bytes, true⟩
  | .removing _ => w.nonce ≠ none
  | .failed _ false => ∀ i, w.handle = some i → ∀ other, volume.dir other ≠ some i
  | _ => True

/-- One writer: its process, which has drawn its nonce and is alive while it is; and its temp file,
    which is in the directory while it is. -/
structure Writer.Sound (name : String) (s : Writers) (w : Writer) : Prop where
  process : ∃ process, s.processes[w.process]? = some process ∧ process.pid = w.pid ∧
    (w.stage.active = true → process.alive = true) ∧ ∀ nonce, w.nonce = some nonce →
      nonce < process.nonce
  handle : ∀ i, w.handle = some i → i < s.volume.next
  bound : w.stage.active = true → ∀ temp i, w.temp name = some temp → w.handle = some i →
    s.volume.dir temp = some i
  keeps : w.Keeps s.volume

/-- INVARIANT: a file has one name, live processes have their own pids, no two calls of a process
    have one nonce, and the path holds what was there or what was put there last, synced. -/
structure Writers.Sound (name : String) (before : Option Bytes) (s : Writers) : Prop where
  linked : s.volume.Linked
  nonces : ∀ process ∈ s.processes, process.nonce ≤ 2 ^ 64
  pids : ∀ (k k' : ℕ) (process process' : OsProcess), s.processes[k]? = some process →
    s.processes[k']? = some process' → process.alive = true → process'.alive = true →
      process.pid = process'.pid → k = k'
  apart : ∀ (j j' : ℕ) (w w' : Writer) (nonce : ℕ), s.writers[j]? = some w →
    s.writers[j']? = some w' → w.process = w'.process → w.nonce = some nonce →
      w'.nonce = some nonce → j = j'
  writers : ∀ w ∈ s.writers, w.Sound name s
  synced : ∀ i, s.volume.dir name = some i → (s.volume.inode i).synced = true
  target : s.volume.read name = match s.placed.getLast? with
    | none => before
    | some j => s.writers[j]?.map Writer.bytes
  placed : ∀ j ∈ s.placed, ∃ w, s.writers[j]? = some w ∧ w.stage = .done

variable {name : String} {before : Option Bytes} {s s' : Writers} {w w' : Writer} {j : ℕ}

theorem Writer.temp_ne {temp : String} (h : w.temp name = some temp) : temp ≠ name := by
  obtain ⟨nonce, -, rfl⟩ := Option.map_eq_some_iff.mp h
  exact tempName_ne name w.pid nonce

/-- FRAME: a writer sees its process, its temp file and whether a file of its own has a name. -/
theorem Writer.Sound.frame (h : w.Sound name s)
    (hprocess : ∀ process, s.processes[w.process]? = some process →
      ∃ process', s'.processes[w.process]? = some process' ∧ process'.pid = process.pid ∧
        (w.stage.active = true → process.alive = true → process'.alive = true) ∧
        process.nonce ≤ process'.nonce)
    (hnext : s.volume.next ≤ s'.volume.next)
    (hdir : w.stage.active = true → ∀ temp i, w.temp name = some temp → w.handle = some i →
      s.volume.dir temp = some i → s'.volume.dir temp = some i)
    (hinode : w.stage.active = true → ∀ i, w.handle = some i →
      s'.volume.inode i = s.volume.inode i)
    (hfree : ∀ i, w.handle = some i → (∀ other, s.volume.dir other ≠ some i) →
      ∀ other, s'.volume.dir other ≠ some i) : w.Sound name s' where
  process := by
    obtain ⟨process, hget, hpid, halive, hnonce⟩ := h.process
    obtain ⟨process', hget', hpid', halive', hnonce'⟩ := hprocess process hget
    exact ⟨process', hget', hpid'.trans hpid, fun hactive => halive' hactive (halive hactive),
      fun nonce hdrawn => (hnonce nonce hdrawn).trans_le hnonce'⟩
  handle i hi := (h.handle i hi).trans_le hnext
  bound hactive temp i htemp hi := hdir hactive temp i htemp hi (h.bound hactive temp i htemp hi)
  keeps := by
    have hkeeps := h.keeps
    unfold Writer.Keeps at hkeeps ⊢
    cases hstage : w.stage with
    | entered => rwa [hstage] at hkeeps
    | numbering => rwa [hstage] at hkeeps
    | creating => rwa [hstage] at hkeeps
    | writing written =>
      rw [hstage] at hkeeps
      obtain ⟨hnonce, hle, i, hi, hbytes⟩ := hkeeps
      exact ⟨hnonce, hle, i, hi, by rw [hinode (by rw [hstage]; rfl) i hi, hbytes]⟩
    | synced =>
      rw [hstage] at hkeeps
      obtain ⟨hnonce, i, hi, hbytes⟩ := hkeeps
      exact ⟨hnonce, i, hi, by rw [hinode (by rw [hstage]; rfl) i hi, hbytes]⟩
    | removing reason => rwa [hstage] at hkeeps
    | failed reason stray =>
      rw [hstage] at hkeeps
      cases stray with
      | true => trivial
      | false => exact fun i hi => hfree i hi (hkeeps i hi)
    | done => trivial
    | killed => trivial

theorem Writer.temp_of_nonce (h : w.nonce ≠ none) (name : String) :
    ∃ temp, w.temp name = some temp := by
  obtain ⟨nonce, hnonce⟩ := Option.ne_none_iff_exists'.mp h
  exact ⟨tempName name w.pid nonce, by rw [Writer.temp, hnonce]; rfl⟩

/-- Nothing is opened before a nonce is drawn. -/
theorem Writer.Sound.nonce_of_handle (h : w.Sound name s) (hactive : w.stage.active = true) {i : ℕ}
    (hi : w.handle = some i) : w.nonce ≠ none := by
  have hkeeps := h.keeps
  unfold Writer.Keeps at hkeeps
  cases hstage : w.stage with
  | entered | numbering =>
    rw [hstage] at hkeeps
    rw [hkeeps.2] at hi
    cases hi
  | creating | writing written | synced =>
    rw [hstage] at hkeeps
    exact hkeeps.1
  | removing reason => rwa [hstage] at hkeeps
  | failed reason stray | done | killed =>
    rw [hstage] at hactive
    cases hactive

/-- A step of the writer itself leaves its process alone. -/
theorem Writer.Sound.process_active (h : w.Sound name s) (hactive : w.stage.active = true)
    (stage : WriteStage) : ∃ process, s.processes[w.process]? = some process ∧
      process.pid = w.pid ∧ (stage.active = true → process.alive = true) ∧
      ∀ nonce, w.nonce = some nonce → nonce < process.nonce := by
  obtain ⟨process, hget, hpid, halive, hnonce⟩ := h.process
  exact ⟨process, hget, hpid, fun _ => halive hactive, hnonce⟩

/-- What happens to no writer and not to the directory. -/
theorem Writer.Sound.of_volume (h : w.Sound name s) (hvolume : s'.volume = s.volume)
    (hprocess : ∀ process, s.processes[w.process]? = some process →
      ∃ process', s'.processes[w.process]? = some process' ∧ process'.pid = process.pid ∧
        (w.stage.active = true → process.alive = true → process'.alive = true) ∧
        process.nonce ≤ process'.nonce) : w.Sound name s' :=
  h.frame hprocess (by rw [hvolume]) (fun _ _ _ _ _ hdir => by rwa [hvolume])
    (fun _ _ _ => by rw [hvolume]) (fun _ _ hfree => by rwa [hvolume])

namespace Writers

/-- No two calls of live processes share a temp file. -/
theorem temp_apart (h : s.Sound name before) {j' : ℕ} (hj : s.writers[j]? = some w)
    (hj' : s.writers[j']? = some w') {process process' : OsProcess}
    (hprocess : s.processes[w.process]? = some process)
    (hprocess' : s.processes[w'.process]? = some process') (halive : process.alive = true)
    (halive' : process'.alive = true) {temp : String} (htemp : w.temp name = some temp)
    (htemp' : w'.temp name = some temp) : j = j' := by
  obtain ⟨nonce, hnonce, rfl⟩ := Option.map_eq_some_iff.mp htemp
  obtain ⟨nonce', hnonce', hsame⟩ := Option.map_eq_some_iff.mp htemp'
  have hbelow : ∀ {v : Writer} {p : OsProcess} {n : ℕ}, v ∈ s.writers →
      s.processes[v.process]? = some p → v.nonce = some n → p.pid = v.pid ∧ n < 2 ^ 64 := by
    intro v p n hmem hp hn
    obtain ⟨p', hp', hpid, -, hlt⟩ := (h.writers v hmem).process
    obtain rfl := Option.some.inj (hp.symm.trans hp')
    exact ⟨hpid, (hlt n hn).trans_le (h.nonces p (List.mem_of_getElem? hp))⟩
  obtain ⟨hpid, hlt⟩ := hbelow (List.mem_of_getElem? hj) hprocess hnonce
  obtain ⟨hpid', hlt'⟩ := hbelow (List.mem_of_getElem? hj') hprocess' hnonce'
  obtain ⟨hpids, rfl⟩ := tempName_inj hlt' hlt hsame
  refine h.apart j j' w w' nonce' hj hj' ?_ hnonce hnonce'
  refine h.pids _ _ process process' hprocess hprocess' halive halive' ?_
  rw [hpid, hpid', hpids]

theorem active_apart (h : s.Sound name before) {j' : ℕ} (hj : s.writers[j]? = some w)
    (hj' : s.writers[j']? = some w') (hactive : w.stage.active = true)
    (hactive' : w'.stage.active = true) {temp : String} (htemp : w.temp name = some temp)
    (htemp' : w'.temp name = some temp) : j = j' := by
  obtain ⟨process, hprocess, -, halive, -⟩ := (h.writers w (List.mem_of_getElem? hj)).process
  obtain ⟨process', hprocess', -, halive', -⟩ := (h.writers w' (List.mem_of_getElem? hj')).process
  exact temp_apart h hj hj' hprocess hprocess' (halive hactive) (halive' hactive') htemp htemp'

/-! What stays as it was of all writers when one of them goes on. -/

/-- Nonces stay apart where no writer changes its own. -/
theorem apart_of (h : s.Sound name before) {writers : List Writer}
    (hold : ∀ {i : ℕ} {u : Writer}, writers[i]? = some u →
      ∃ u', s.writers[i]? = some u' ∧ u'.process = u.process ∧ u'.nonce = u.nonce)
    (a b : ℕ) (v v' : Writer) (nonce : ℕ) (ha : writers[a]? = some v) (hb : writers[b]? = some v')
    (hsame : v.process = v'.process) (hv : v.nonce = some nonce) (hv' : v'.nonce = some nonce) :
    a = b := by
  obtain ⟨u, hu, hprocess, hnonce⟩ := hold ha
  obtain ⟨u', hu', hprocess', hnonce'⟩ := hold hb
  exact h.apart a b u u' nonce hu hu' (hprocess.trans (hsame.trans hprocess'.symm))
    (hnonce.trans hv) (hnonce'.trans hv')

/-- Pids stay apart where no process changes its own or comes back to life. -/
theorem pids_of (h : s.Sound name before) {processes : List OsProcess}
    (hold : ∀ {k : ℕ} {p : OsProcess}, processes[k]? = some p →
      ∃ q, s.processes[k]? = some q ∧ q.pid = p.pid ∧ (p.alive = true → q.alive = true))
    (k k' : ℕ) (p p' : OsProcess) (hk : processes[k]? = some p) (hk' : processes[k']? = some p')
    (halive : p.alive = true) (halive' : p'.alive = true) (hpid : p.pid = p'.pid) : k = k' := by
  obtain ⟨q, hq, hpidq, hq'⟩ := hold hk
  obtain ⟨r, hr, hpidr, hr'⟩ := hold hk'
  exact h.pids k k' q r hq hr (hq' halive) (hr' halive') (hpidq.trans (hpid.trans hpidr.symm))

/-- What the path should hold is down to the bytes of those that were put in place. -/
theorem whole_congr {placed : List ℕ} {writers writers' : List Writer}
    (h : ∀ k ∈ placed, writers[k]?.map Writer.bytes = writers'[k]?.map Writer.bytes) :
    (match placed.getLast? with
      | none => before
      | some k => writers[k]?.map Writer.bytes) =
    match placed.getLast? with
      | none => before
      | some k => writers'[k]?.map Writer.bytes := by
  cases hlast : placed.getLast? with
  | none => rfl
  | some k => exact h k (List.mem_of_getLast? hlast)

theorem apart_set (h : s.Sound name before) (hj : s.writers[j]? = some w)
    (hprocess : w'.process = w.process) (hnonce : w'.nonce = w.nonce) (a b : ℕ) (v v' : Writer)
    (nonce : ℕ) (ha : (s.writers.set j w')[a]? = some v) (hb : (s.writers.set j w')[b]? = some v')
    (hsame : v.process = v'.process) (hv : v.nonce = some nonce) (hv' : v'.nonce = some nonce) :
    a = b := by
  refine apart_of h (fun {i u} hi => ?_) a b v v' nonce ha hb hsame hv hv'
  rcases getElem?_set_cases hi with ⟨rfl, rfl⟩ | ⟨-, hi⟩
  · exact ⟨w, hj, hprocess.symm, hnonce.symm⟩
  · exact ⟨u, hi, rfl, rfl⟩

theorem bytes_set (hj : s.writers[j]? = some w) (hbytes : w'.bytes = w.bytes) (k : ℕ) :
    (s.writers.set j w')[k]?.map Writer.bytes = s.writers[k]?.map Writer.bytes := by
  rw [← List.getElem?_map, ← List.getElem?_map, map_set_same Writer.bytes hj hbytes]

theorem placed_set (h : s.Sound name before) (hj : s.writers[j]? = some w)
    (hactive : w.stage.active = true) {k : ℕ} (hk : k ∈ s.placed) :
    ∃ v, (s.writers.set j w')[k]? = some v ∧ v.stage = .done := by
  obtain ⟨v, hv, hdone⟩ := h.placed k hk
  have hne : j ≠ k := by
    rintro rfl
    obtain rfl := Option.some.inj (hj.symm.trans hv)
    rw [hdone] at hactive
    cases hactive
  exact ⟨v, by rw [List.getElem?_set_ne hne, hv], hdone⟩

/-- STEP LEMMA: a writer takes a step at its temp file, and the path holds what it should. -/
theorem sound_move (h : s.Sound name before) (hj : s.writers[j]? = some w)
    (hactive : w.stage.active = true) {temp : String} (htemp : w.temp name = some temp)
    {volume : Volume String UInt8} (htouched : s.volume.Touched temp name volume)
    {stage : WriteStage} {handle : Option ℕ} {placed : List ℕ}
    (hw : ({ w with handle := handle, stage := stage } : Writer).Sound name
      ⟨volume, s.processes, s.writers.set j { w with handle := handle, stage := stage }, placed⟩)
    (hsynced : ∀ i, volume.dir name = some i → (volume.inode i).synced = true)
    (htarget : volume.read name = match placed.getLast? with
      | none => before
      | some j => s.writers[j]?.map Writer.bytes)
    (hplaced : ∀ i ∈ placed, i ∈ s.placed ∨ i = j ∧ stage = .done) :
    Writers.Sound name before
      ⟨volume, s.processes, s.writers.set j { w with handle := handle, stage := stage }, placed⟩ := by
  refine ⟨htouched.linked, h.nonces, h.pids, apart_set h hj rfl rfl, ?_, hsynced, ?_, ?_⟩
  · intro v hmem
    obtain ⟨i, hi⟩ := List.mem_iff_getElem?.mp hmem
    rcases getElem?_set_cases hi with ⟨-, rfl⟩ | ⟨hij, hi⟩
    · exact hw
    · have hv := h.writers v (List.mem_of_getElem? hi)
      have hother : v.stage.active = true → ∀ temp', v.temp name = some temp' → temp' ≠ temp := by
        rintro hv' temp' htemp' rfl
        exact hij (active_apart h hi hj hv' hactive htemp' htemp)
      refine hv.frame (fun process hget => ⟨process, hget, rfl, fun _ => id, le_rfl⟩) htouched.next
        (fun hv' temp' i htemp' _ hdir => ?_) (fun hv' i hhandle => ?_)
        (fun i hhandle hfree => htouched.free i (hv.handle i hhandle) hfree)
      · rw [htouched.dir temp' (hother hv' temp' htemp') (Writer.temp_ne htemp'), hdir]
      · refine htouched.inode i (hv.handle i hhandle) fun hdir => ?_
        obtain ⟨temp', htemp'⟩ := Writer.temp_of_nonce (hv.nonce_of_handle hv' hhandle) name
        have hbound := hv.bound hv' temp' i htemp' hhandle
        exact hother hv' temp' htemp' (h.linked.injective _ _ i hbound hdir)
  · refine htarget.trans (whole_congr fun k _ => (bytes_set hj ?_ k).symm)
    rfl
  · intro k hmem
    rcases hplaced k hmem with hold | ⟨rfl, rfl⟩
    · exact placed_set h hj hactive hold
    · exact ⟨_, List.getElem?_set_self (List.getElem?_eq_some_iff.mp hj).1, rfl⟩

/-- Nothing that is done at a temp file is seen at the path. -/
theorem target_kept (h : s.Sound name before) {temp : String} (htemp : w.temp name = some temp)
    {volume : Volume String UInt8} (htouched : s.volume.Touched temp name volume)
    (hname : volume.dir name = s.volume.dir name) :
    (∀ i, volume.dir name = some i → (volume.inode i).synced = true) ∧
      volume.read name = match s.placed.getLast? with
        | none => before
        | some j => s.writers[j]?.map Writer.bytes := by
  have hinode : ∀ i, s.volume.dir name = some i → volume.inode i = s.volume.inode i := by
    intro i hi
    refine htouched.inode i (h.linked.bound name i hi) fun hdir => ?_
    exact Writer.temp_ne htemp (h.linked.injective _ _ i hdir hi)
  refine ⟨fun i hi => ?_, ?_⟩
  · rw [hname] at hi
    rw [hinode i hi, h.synced i hi]
  · rw [← h.target, Volume.read, Volume.read, hname]
    cases hdir : s.volume.dir name with
    | none => rfl
    | some i => rw [Option.map_some, Option.map_some, hinode i hdir]

/-- STEP LEMMA: a writer takes a step and the directory does not change. -/
theorem sound_settle (h : s.Sound name before) (hj : s.writers[j]? = some w)
    (hactive : w.stage.active = true) (stage : WriteStage)
    (hkeeps : ({ w with stage := stage } : Writer).Keeps s.volume) :
    (s.settle j { w with stage := stage }).Sound name before := by
  refine ⟨h.linked, h.nonces, h.pids, apart_set h hj rfl rfl, ?_, h.synced, ?_,
    fun k hk => placed_set h hj hactive hk⟩
  · intro v hmem
    rcases List.mem_or_eq_of_mem_set hmem with hmem | rfl
    · exact (h.writers v hmem).of_volume rfl fun process hget => ⟨process, hget, rfl, fun _ => id,
        le_rfl⟩
    · have hw := h.writers w (List.mem_of_getElem? hj)
      exact ⟨hw.process_active hactive stage, hw.handle, fun _ => hw.bound hactive, hkeeps⟩
  · refine h.target.trans (whole_congr fun k _ => (bytes_set hj ?_ k).symm)
    rfl

/-! One step. -/

/-- A process starts, under a pid no live one has. -/
theorem sound_spawn (h : s.Sound name before) {pid : UInt32}
    (hfree : ∀ process ∈ s.processes, process.alive = true → process.pid ≠ pid) :
    Writers.Sound name before { s with processes := s.processes ++ [⟨pid, true, 0⟩] } where
  linked := h.linked
  nonces process hmem := by
    rcases List.mem_append.mp hmem with hold | hnew
    · exact h.nonces process hold
    · rw [List.mem_singleton.mp hnew]
      exact Nat.zero_le _
  pids k k' p p' hk hk' halive halive' hpid := by
    rcases getElem?_concat_cases hk with hold | ⟨hlast, rfl⟩
    · rcases getElem?_concat_cases hk' with hold' | ⟨-, rfl⟩
      · exact h.pids k k' p p' hold hold' halive halive' hpid
      · exact absurd hpid (hfree p (List.mem_of_getElem? hold) halive)
    · rcases getElem?_concat_cases hk' with hold' | ⟨hlast', -⟩
      · exact absurd hpid.symm (hfree p' (List.mem_of_getElem? hold') halive')
      · rw [hlast, hlast']
  apart := h.apart
  writers w hmem := (h.writers w hmem).of_volume rfl fun process hget =>
    ⟨process, (List.getElem?_append_left (List.getElem?_eq_some_iff.mp hget).1).trans hget, rfl,
      fun _ => id, le_rfl⟩
  synced := h.synced
  target := h.target
  placed := h.placed

/-- A thread calls. -/
theorem sound_call (h : s.Sound name before) {k : ℕ} {process : OsProcess} (bytes : Bytes)
    (hprocess : s.processes[k]? = some process) (halive : process.alive = true) :
    Writers.Sound name before
      { s with writers := s.writers ++ [⟨k, process.pid, bytes, none, none, .entered⟩] } where
  linked := h.linked
  nonces := h.nonces
  pids := h.pids
  apart a b v v' nonce ha hb hsame hnonce hnonce' := by
    rcases getElem?_concat_cases ha with hold | ⟨-, rfl⟩
    · rcases getElem?_concat_cases hb with hold' | ⟨-, rfl⟩
      · exact h.apart a b v v' nonce hold hold' hsame hnonce hnonce'
      · cases hnonce'
    · cases hnonce
  writers w hmem := by
    rcases List.mem_append.mp hmem with hold | hnew
    · exact (h.writers w hold).of_volume rfl fun p hget => ⟨p, hget, rfl, fun _ => id, le_rfl⟩
    · rw [List.mem_singleton.mp hnew]
      exact ⟨⟨process, hprocess, rfl, fun _ => halive, nofun⟩, nofun, fun _ _ _ _ => nofun, rfl, rfl⟩
  synced := h.synced
  target := by
    refine h.target.trans (whole_congr fun j hj => ?_)
    obtain ⟨w, hw, -⟩ := h.placed j hj
    rw [List.getElem?_append_left (List.getElem?_eq_some_iff.mp hw).1]
  placed j hj := by
    obtain ⟨w, hw, hdone⟩ := h.placed j hj
    exact ⟨w, (List.getElem?_append_left (List.getElem?_eq_some_iff.mp hw).1).trans hw, hdone⟩

/-- A writer draws its nonce. -/
theorem sound_number (h : s.Sound name before) (hj : s.writers[j]? = some w)
    (hstage : w.stage = .numbering) {process : OsProcess}
    (hprocess : s.processes[w.process]? = some process) (hnumbered : process.nonce < 2 ^ 64) :
    Writers.Sound name before
      { s.settle j { w with nonce := some process.nonce, stage := .creating } with
        processes := s.processes.set w.process { process with nonce := process.nonce + 1 } } := by
  have hactive : w.stage.active = true := by rw [hstage]; rfl
  have hw := h.writers w (List.mem_of_getElem? hj)
  have hnone : w.nonce = none ∧ w.handle = none := by
    have hkeeps := hw.keeps
    rwa [Writer.Keeps, hstage] at hkeeps
  obtain ⟨p, hp, hpid, halive, -⟩ := hw.process
  obtain rfl := Option.some.inj (hprocess.symm.trans hp)
  have hself : (s.processes.set w.process { process with nonce := process.nonce + 1 })[w.process]?
      = some { process with nonce := process.nonce + 1 } :=
    List.getElem?_set_self (List.getElem?_eq_some_iff.mp hprocess).1
  have hbelow : ∀ {v : Writer} {nonce : ℕ}, v ∈ s.writers → v.process = w.process →
      v.nonce = some nonce → nonce < process.nonce := by
    intro v nonce hmem hsame hnonce
    obtain ⟨p, hp, -, -, hlt⟩ := (h.writers v hmem).process
    rw [hsame, hprocess] at hp
    obtain rfl := Option.some.inj hp
    exact hlt nonce hnonce
  refine ⟨h.linked, ?_, ?_, ?_, ?_, h.synced, ?_, fun k hk => placed_set h hj hactive hk⟩
  · intro p hmem
    rcases List.mem_or_eq_of_mem_set hmem with hold | rfl
    · exact h.nonces p hold
    · exact hnumbered
  · refine pids_of h fun {k p} hk => ?_
    rcases getElem?_set_cases hk with ⟨rfl, rfl⟩ | ⟨-, hk⟩
    · exact ⟨process, hprocess, rfl, id⟩
    · exact ⟨p, hk, rfl, id⟩
  · intro a b v v' nonce ha hb hsame hnonce hnonce'
    rcases getElem?_set_cases ha with ⟨rfl, rfl⟩ | ⟨-, hold⟩
    · rcases getElem?_set_cases hb with ⟨rfl, -⟩ | ⟨-, hold'⟩
      · rfl
      · obtain rfl := Option.some.inj hnonce
        exact absurd (hbelow (List.mem_of_getElem? hold') hsame.symm hnonce') (lt_irrefl _)
    · rcases getElem?_set_cases hb with ⟨rfl, rfl⟩ | ⟨-, hold'⟩
      · obtain rfl := Option.some.inj hnonce'
        exact absurd (hbelow (List.mem_of_getElem? hold) hsame hnonce) (lt_irrefl _)
      · exact h.apart a b v v' nonce hold hold' hsame hnonce hnonce'
  · intro v hmem
    rcases List.mem_or_eq_of_mem_set hmem with hmem | rfl
    · refine (h.writers v hmem).of_volume rfl fun p hp => ?_
      by_cases hsame : v.process = w.process
      · rw [hsame] at hp ⊢
        obtain rfl := Option.some.inj (hprocess.symm.trans hp)
        exact ⟨_, hself, rfl, fun _ => id, Nat.le_succ _⟩
      · exact ⟨p, by rw [List.getElem?_set_ne (Ne.symm hsame), hp], rfl, fun _ => id, le_rfl⟩
    · refine ⟨⟨_, hself, hpid, fun _ => halive hactive, fun nonce hnonce => ?_⟩, hw.handle,
        fun _ _ i _ hi => ?_, Option.some_ne_none _, hnone.2⟩
      · obtain rfl := Option.some.inj hnonce
        exact Nat.lt_succ_self _
      · rw [hnone.2] at hi
        cases hi
  · refine h.target.trans (whole_congr fun k _ => (bytes_set hj ?_ k).symm)
    rfl

variable {path : Path}

/-- A writer opens its temp file, made or emptied. -/
theorem sound_create (h : s.Sound (Writers.name path) before) (hj : s.writers[j]? = some w)
    (hstage : w.stage = .creating) (count : ℕ) :
    (s.advance path j w count).Sound (Writers.name path) before := by
  have hactive : w.stage.active = true := by rw [hstage]; rfl
  have hw := h.writers w (List.mem_of_getElem? hj)
  have hkeeps : w.nonce ≠ none ∧ w.handle = none := by
    have hkeeps := hw.keeps
    rwa [Writer.Keeps, hstage] at hkeeps
  obtain ⟨temp, htemp⟩ := Writer.temp_of_nonce hkeeps.1 (Writers.name path)
  have htouched := Volume.touched_create h.linked temp (Writers.name path)
  obtain ⟨i, volume, hcreate, -, -, hi, -, hdir, hother, hempty, -⟩ :=
    Volume.create_spec h.linked temp
  rw [hcreate] at htouched
  obtain ⟨hsynced, htarget⟩ := target_kept h htemp htouched
    (hother _ (Ne.symm (Writer.temp_ne htemp)))
  simp only [advance, hstage, htemp, hcreate, settle]
  refine sound_move h hj hactive htemp htouched ?_ hsynced htarget fun _ => .inl
  refine ⟨hw.process_active hactive _, fun k hk => ?_, fun _ temp' k htemp' hk => ?_, hkeeps.1,
    Nat.zero_le _, i, rfl, ?_⟩
  · rwa [← Option.some.inj hk]
  · obtain rfl := Option.some.inj (htemp.symm.trans htemp')
    exact hdir.trans hk
  · rw [hempty, List.take_zero]

theorem overwrite_end {bytes data : Bytes} {offset : ℕ} (h : bytes.length = offset) :
    Volume.overwrite bytes offset data = bytes ++ data := by
  subst h
  exact Volume.overwrite_end bytes data

theorem take_chunk (bytes : Bytes) (count : ℕ) :
    bytes.take (bytes.take count).length = bytes.take count :=
  (List.prefix_iff_eq_take.mp (List.take_prefix count bytes)).symm

/-- A writer writes, or syncs what it has written. -/
theorem sound_write (h : s.Sound (Writers.name path) before) (hj : s.writers[j]? = some w)
    {written : ℕ} (hstage : w.stage = .writing written) (count : ℕ) :
    (s.advance path j w count).Sound (Writers.name path) before := by
  have hactive : w.stage.active = true := by rw [hstage]; rfl
  have hw := h.writers w (List.mem_of_getElem? hj)
  obtain ⟨hnonce, hle, i, hi, hbytes⟩ : w.nonce ≠ none ∧ written ≤ w.bytes.length ∧
      ∃ i, w.handle = some i ∧ (s.volume.inode i).bytes = w.bytes.take written := by
    have hkeeps := hw.keeps
    rwa [Writer.Keeps, hstage] at hkeeps
  obtain ⟨temp, htemp⟩ := Writer.temp_of_nonce hnonce (Writers.name path)
  have hdir := hw.bound hactive temp i htemp hi
  have hput : ∀ (node : Inode UInt8) (stage : WriteStage),
      ({ w with stage := stage } : Writer).Keeps (s.volume.put i node) →
        Writers.Sound (Writers.name path) before ⟨s.volume.put i node, s.processes,
          s.writers.set j { w with stage := stage }, s.placed⟩ := by
    intro node stage hkeeps
    have htouched := Volume.touched_put h.linked hdir (Writers.name path) node
    obtain ⟨hsynced, htarget⟩ := target_kept h htemp htouched rfl
    refine sound_move h hj hactive htemp htouched ?_ hsynced htarget fun _ => .inl
    exact ⟨hw.process_active hactive stage, hw.handle, fun _ => hw.bound hactive, hkeeps⟩
  simp only [advance, hstage, hi, settle]
  rw [← hi]
  split
  · have hlength : (w.bytes.take written).length = written := by
      rw [List.length_take]
      omega
    refine hput ⟨Volume.overwrite (s.volume.inode i).bytes written _, false⟩ (.writing _)
      ⟨hnonce, ?_, i, hi, ?_⟩
    · dsimp only
      rw [List.length_take, List.length_drop]
      omega
    · simp only [Volume.put, Function.update_self, hbytes]
      rw [overwrite_end hlength, List.take_add (i := written), take_chunk]
  · refine hput ⟨(s.volume.inode i).bytes, true⟩ .synced ⟨hnonce, i, hi, ?_⟩
    simp only [Volume.put, Function.update_self, hbytes]
    rw [List.take_of_length_le (by omega)]

/-- A writer puts its file in place, whole and synced. -/
theorem sound_rename (h : s.Sound (Writers.name path) before) (hj : s.writers[j]? = some w)
    (hstage : w.stage = .synced) (count : ℕ) :
    (s.advance path j w count).Sound (Writers.name path) before := by
  have hactive : w.stage.active = true := by rw [hstage]; rfl
  have hw := h.writers w (List.mem_of_getElem? hj)
  obtain ⟨hnonce, i, hi, hbytes⟩ : w.nonce ≠ none ∧
      ∃ i, w.handle = some i ∧ s.volume.inode i = ⟨w.bytes, true⟩ := by
    have hkeeps := hw.keeps
    rwa [Writer.Keeps, hstage] at hkeeps
  obtain ⟨temp, htemp⟩ := Writer.temp_of_nonce hnonce (Writers.name path)
  have hdir := hw.bound hactive temp i htemp hi
  simp only [advance, hstage, htemp]
  split
  · exact sound_settle h hj hactive _ hnonce
  · rename_i volume hrename
    have hne := Writer.temp_ne htemp
    have htouched := Volume.touched_rename h.linked hne hrename
    obtain ⟨k, hk, -, hinode, -, hnew, -⟩ := Volume.rename_spec h.linked hne hrename
    obtain rfl := Option.some.inj (hdir.symm.trans hk)
    refine sound_move h hj hactive htemp htouched ?_ (fun k hk => ?_) ?_ fun k hk => ?_
    · exact ⟨hw.process_active hactive _, fun k hk => (hw.handle k hk).trans_le htouched.next,
        nofun, trivial⟩
    · obtain rfl := Option.some.inj (hnew.symm.trans hk)
      rw [hinode, hbytes]
    · rw [List.getLast?_concat, Volume.read, hnew, Option.map_some, hinode, hbytes]
      dsimp only
      rw [hj]
      rfl
    · rcases List.mem_append.mp hk with hold | hlast
      · exact .inl hold
      · exact .inr ⟨List.mem_singleton.mp hlast, rfl⟩

/-- A writer that has failed takes its temp file away. -/
theorem sound_remove (h : s.Sound (Writers.name path) before) (hj : s.writers[j]? = some w)
    {reason : CacheError} (hstage : w.stage = .removing reason) (count : ℕ) :
    (s.advance path j w count).Sound (Writers.name path) before := by
  have hactive : w.stage.active = true := by rw [hstage]; rfl
  have hw := h.writers w (List.mem_of_getElem? hj)
  have hnonce : w.nonce ≠ none := by
    have hkeeps := hw.keeps
    rwa [Writer.Keeps, hstage] at hkeeps
  obtain ⟨temp, htemp⟩ := Writer.temp_of_nonce hnonce (Writers.name path)
  simp only [advance, hstage, htemp]
  split
  · exact sound_settle h hj hactive _ trivial
  · rename_i volume hremove
    have htouched := Volume.touched_remove h.linked hremove (Writers.name path)
    obtain ⟨k, hk, -, -, -, hgone, -, hother⟩ := Volume.remove_spec h.linked hremove
    obtain ⟨hsynced, htarget⟩ := target_kept h htemp htouched
      (hother _ (Ne.symm (Writer.temp_ne htemp)))
    refine sound_move h hj hactive htemp htouched ?_ hsynced htarget fun _ => .inl
    refine ⟨hw.process_active hactive _, fun k hk => (hw.handle k hk).trans_le htouched.next,
      nofun, fun i hi other => ?_⟩
    obtain rfl := Option.some.inj (hk.symm.trans (hw.bound hactive temp i htemp hi))
    exact hgone other

theorem sound_advance (h : s.Sound (Writers.name path) before) (hj : s.writers[j]? = some w)
    (hnumbered : ∀ process ∈ s.processes, process.nonce < 2 ^ 64) (count : ℕ) :
    (s.advance path j w count).Sound (Writers.name path) before := by
  have hw := h.writers w (List.mem_of_getElem? hj)
  cases hstage : w.stage with
  | entered =>
    have hkeeps := hw.keeps
    rw [Writer.Keeps, hstage] at hkeeps
    simp only [advance, hstage]
    exact sound_settle h hj (by rw [hstage]; rfl) _ hkeeps
  | numbering =>
    obtain ⟨process, hprocess, -⟩ := hw.process
    simp only [advance, hstage, hprocess]
    exact sound_number h hj hstage hprocess (hnumbered process (List.mem_of_getElem? hprocess))
  | creating => exact sound_create h hj hstage count
  | writing written => exact sound_write h hj hstage count
  | synced => exact sound_rename h hj hstage count
  | removing reason => exact sound_remove h hj hstage count
  | failed reason stray => simpa only [advance, hstage] using h
  | done => simpa only [advance, hstage] using h
  | killed => simpa only [advance, hstage] using h

/-- Whatever fails, the writer's temp file is still its own. -/
theorem sound_fail (h : s.Sound (Writers.name path) before) (hj : s.writers[j]? = some w)
    (error : String) : (s.fail path j w error).Sound (Writers.name path) before := by
  have hkeeps := (h.writers w (List.mem_of_getElem? hj)).keeps
  unfold Writer.Keeps at hkeeps
  cases hstage : w.stage with
  | entered =>
    rw [hstage] at hkeeps
    simp only [fail, hstage]
    refine sound_settle h hj (by rw [hstage]; rfl) _ fun i hi => ?_
    rw [hkeeps.2] at hi
    cases hi
  | numbering => simpa only [fail, hstage] using h
  | creating =>
    rw [hstage] at hkeeps
    simp only [fail, hstage]
    exact sound_settle h hj (by rw [hstage]; rfl) _ hkeeps.1
  | writing written =>
    rw [hstage] at hkeeps
    simp only [fail, hstage]
    exact sound_settle h hj (by rw [hstage]; rfl) _ hkeeps.1
  | synced =>
    rw [hstage] at hkeeps
    simp only [fail, hstage]
    exact sound_settle h hj (by rw [hstage]; rfl) _ hkeeps.1
  | removing reason =>
    simp only [fail, hstage]
    exact sound_settle h hj (by rw [hstage]; rfl) _ trivial
  | failed reason stray => simpa only [fail, hstage] using h
  | done => simpa only [fail, hstage] using h
  | killed => simpa only [fail, hstage] using h

/-- Processes die, and what they had not synced may be lost if none is left. -/
theorem sound_die (h : s.Sound name before) (volume : Volume String UInt8) (dead : ℕ → Bool)
    (hdir : volume.dir = s.volume.dir) (hnext : volume.next = s.volume.next)
    (hsynced : ∀ i, (s.volume.inode i).synced = true → volume.inode i = s.volume.inode i)
    (hlive : ∀ k, dead k = false → volume.inode = s.volume.inode) :
    Writers.Sound name before ⟨volume,
      s.processes.mapIdx fun k process => if dead k then { process with alive := false } else process,
      s.writers.map fun w => if dead w.process then w.die else w, s.placed⟩ := by
  have hprocess : ∀ {k : ℕ} {p : OsProcess}, (s.processes.mapIdx fun k process =>
      if dead k then { process with alive := false } else process)[k]? = some p →
        ∃ q, s.processes[k]? = some q ∧ q.pid = p.pid ∧ q.nonce = p.nonce ∧
          (p.alive = true → q.alive = true) := by
    intro k p hk
    rw [List.getElem?_mapIdx] at hk
    obtain ⟨q, hq, rfl⟩ := Option.map_eq_some_iff.mp hk
    refine ⟨q, hq, ?_⟩
    split
    · exact ⟨rfl, rfl, nofun⟩
    · exact ⟨rfl, rfl, id⟩
  have hwriter : ∀ {j : ℕ} {v : Writer},
      (s.writers.map fun w => if dead w.process then w.die else w)[j]? = some v →
        ∃ u, s.writers[j]? = some u ∧ u.process = v.process ∧ u.nonce = v.nonce := by
    intro j v hj
    rw [List.getElem?_map] at hj
    obtain ⟨u, hu, rfl⟩ := Option.map_eq_some_iff.mp hj
    refine ⟨u, hu, ?_⟩
    split
    · exact ⟨(Writer.die_process u).symm, (Writer.die_nonce u).symm⟩
    · exact ⟨rfl, rfl⟩
  refine ⟨⟨hdir ▸ h.linked.injective, hdir ▸ hnext ▸ h.linked.bound⟩, ?_, ?_, ?_, ?_, ?_, ?_, ?_⟩
  · intro p hmem
    obtain ⟨k, hk⟩ := List.mem_iff_getElem?.mp hmem
    obtain ⟨q, hq, -, hnonce, -⟩ := hprocess hk
    exact hnonce ▸ h.nonces q (List.mem_of_getElem? hq)
  · refine pids_of h fun hk => ?_
    obtain ⟨q, hq, hpid, -, halive⟩ := hprocess hk
    exact ⟨q, hq, hpid, halive⟩
  · exact apart_of h hwriter
  · intro v hmem
    obtain ⟨u, hu, rfl⟩ := List.mem_map.mp hmem
    have hsound := h.writers u hu
    have hmapped : ∀ p, s.processes[u.process]? = some p → (s.processes.mapIdx fun k process =>
        if dead k then { process with alive := false } else process)[u.process]? =
          some (if dead u.process then { p with alive := false } else p) := by
      intro p hp
      rw [List.getElem?_mapIdx, hp]
      rfl
    have hkept : (u.stage.active = true → dead u.process = false) → u.Sound name ⟨volume,
        s.processes.mapIdx fun k process =>
          if dead k then { process with alive := false } else process,
        s.writers.map fun w => if dead w.process then w.die else w, s.placed⟩ := by
      intro hdead
      refine hsound.frame (fun p hp => ⟨_, hmapped p hp, ?_⟩) hnext.ge
        (fun _ _ _ _ _ htemp => by rwa [hdir]) (fun hactive i _ => ?_) (fun _ _ hfree => by rwa [hdir])
      · split
        · rename_i hgone
          exact ⟨rfl, fun hactive => by simp [hdead hactive] at hgone, le_rfl⟩
        · exact ⟨rfl, fun _ => id, le_rfl⟩
      · rw [hlive _ (hdead hactive)]
    split
    · rename_i hdead
      unfold Writer.die
      split
      · obtain ⟨p, hp, hpid, -, hnonce⟩ := hsound.process
        refine ⟨⟨_, hmapped p hp, ?_⟩, hnext ▸ hsound.handle, nofun, trivial⟩
        rw [if_pos hdead]
        exact ⟨hpid, nofun, hnonce⟩
      · rename_i hactive
        exact hkept fun h => absurd h hactive
    · rename_i hdead
      exact hkept fun _ => eq_false_of_ne_true hdead
  · intro i hi
    rw [hdir] at hi
    rw [hsynced i (h.synced i hi), h.synced i hi]
  · have hread : volume.read name = s.volume.read name := by
      rw [Volume.read, Volume.read, hdir]
      cases hi : s.volume.dir name with
      | none => rfl
      | some i => rw [Option.map_some, Option.map_some, hsynced i (h.synced i hi)]
    refine hread.trans (h.target.trans (whole_congr fun j _ => ?_))
    rw [List.getElem?_map, Option.map_map]
    refine Option.map_congr fun u _ => ?_
    simp only [Function.comp_apply, apply_ite Writer.bytes, Writer.die_bytes, ite_self]
  · intro j hj
    obtain ⟨u, hu, hdone⟩ := h.placed j hj
    refine ⟨u, ?_, hdone⟩
    rw [List.getElem?_map, hu, Option.map_some, Writer.die, hdone]
    simp [WriteStage.active]

theorem sound_kill (h : s.Sound (Writers.name path) before) (k : ℕ) :
    (step path s (.kill k)).Sound (Writers.name path) before := by
  have hdie := sound_die h s.volume (fun k' => k' == k) rfl rfl (fun _ _ => rfl) fun _ _ => rfl
  have hprocesses : s.processes.modify k (fun process => { process with alive := false })
      = s.processes.mapIdx fun k' process =>
          if k' == k then { process with alive := false } else process := by
    refine List.ext_getElem? fun k' => ?_
    rw [List.getElem?_modify, List.getElem?_mapIdx]
    by_cases hk : k = k'
    · simp [hk]
    · simp [hk, Ne.symm hk]
  simp only [step, hprocesses]
  simpa only [beq_iff_eq] using hdie

theorem sound_powerLoss (h : s.Sound (Writers.name path) before) (left : ℕ → Bytes) :
    (step path s (.powerLoss left)).Sound (Writers.name path) before := by
  have hdie := sound_die h (s.volume.powerLoss left) (fun _ => true) rfl rfl
    (fun i hi => if_pos hi) nofun
  have hprocesses : s.processes.map (fun process => { process with alive := false })
      = s.processes.mapIdx fun _ process => { process with alive := false } :=
    List.ext_getElem? fun k => by rw [List.getElem?_map, List.getElem?_mapIdx]
  simp only [step, hprocesses]
  exact hdie

/-- INVARIANT: the machine starts with any files, all of them synced. -/
theorem sound_start (name : String) (files : List (String × Bytes)) :
    (start files).Sound name ((Volume.ofFiles files).read name) where
  linked := Volume.linked_ofFiles files
  nonces := nofun
  pids _ _ _ _ := nofun
  apart _ _ _ _ _ := nofun
  writers := nofun
  synced _ _ := rfl
  target := rfl
  placed := nofun

/-- STEP LEMMA: whoever takes it, and whether it goes well, fails or is the last. -/
theorem sound_step (h : s.Sound (Writers.name path) before) (event : WritersEvent)
    (hnumbered : s.Numbered event) : (step path s event).Sound (Writers.name path) before := by
  cases event with
  | spawn pid =>
    simp only [step]
    split
    · exact h
    · rename_i hfree
      refine sound_spawn h fun process hmem halive hpid => hfree ?_
      rw [List.any_eq_true]
      exact ⟨process, hmem, by rw [halive, hpid, beq_self_eq_true]; rfl⟩
  | call k bytes =>
    simp only [step]
    split
    · exact h
    · rename_i hprocess
      split
      · rename_i halive
        exact sound_call h bytes hprocess halive
      · exact h
  | advance j count =>
    simp only [step]
    split
    · exact h
    · rename_i hj
      exact sound_advance h hj hnumbered count
  | fail j error =>
    simp only [step]
    split
    · exact h
    · rename_i hj
      exact sound_fail h hj error
  | kill k => exact sound_kill h k
  | powerLoss left => exact sound_powerLoss h left

/-! ### One step of all -/

theorem bytes_advance (hj : s.writers[j]? = some w) (count : ℕ) :
    (s.advance path j w count).writers.map Writer.bytes = s.writers.map Writer.bytes := by
  unfold advance settle
  repeat' split
  all_goals first | rfl | exact map_set_same Writer.bytes hj rfl

theorem bytes_fail (hj : s.writers[j]? = some w) (error : String) :
    (s.fail path j w error).writers.map Writer.bytes = s.writers.map Writer.bytes := by
  unfold fail settle
  split
  all_goals first | rfl | exact map_set_same Writer.bytes hj rfl

/-- No call writes something else than what it was called with. -/
theorem bytes_step (path : Path) (s : Writers) (event : WritersEvent) :
    s.writers.map Writer.bytes <+: (step path s event).writers.map Writer.bytes := by
  cases event with
  | spawn pid =>
    simp only [step]
    split <;> exact List.prefix_rfl
  | call k bytes =>
    simp only [step]
    split
    · exact List.prefix_rfl
    · split
      · rw [List.map_append]
        exact List.prefix_append _ _
      · exact List.prefix_rfl
  | advance j count =>
    simp only [step]
    split
    · exact List.prefix_rfl
    · rename_i hj
      rw [bytes_advance hj]
  | fail j error =>
    simp only [step]
    split
    · exact List.prefix_rfl
    · rename_i hj
      rw [bytes_fail hj]
  | kill k =>
    simp only [step, List.map_map]
    refine (List.map_congr_left fun w _ => ?_).symm ▸ List.prefix_rfl
    simp only [Function.comp_apply, apply_ite Writer.bytes, Writer.die_bytes, ite_self]
  | powerLoss left =>
    simp only [step, List.map_map]
    refine (List.map_congr_left fun w _ => ?_).symm ▸ List.prefix_rfl
    exact (Writer.die_bytes w).symm

theorem placed_advance (s : Writers) (j : ℕ) (w : Writer) (count : ℕ) :
    (s.advance path j w count).placed = s.placed ∨
      w.stage = .synced ∧ (s.advance path j w count).placed = s.placed ++ [j] := by
  unfold advance
  repeat' split
  all_goals first | exact .inl rfl | exact .inr ⟨‹_›, rfl⟩

/-- Only a rename puts a file in place. -/
theorem placed_step (path : Path) (s : Writers) (event : WritersEvent) :
    (step path s event).placed = s.placed ∨ ∃ j count w, event = .advance j count ∧
      s.writers[j]? = some w ∧ w.stage = .synced ∧ (step path s event).placed = s.placed ++ [j] := by
  cases event with
  | spawn pid =>
    simp only [step]
    split <;> exact .inl rfl
  | call k bytes =>
    simp only [step]
    repeat' split
    all_goals exact .inl rfl
  | advance j count =>
    cases hj : s.writers[j]? with
    | none => exact .inl (by simp only [step, hj])
    | some w =>
      simp only [step, hj]
      refine (placed_advance s j w count).imp_right fun h => ?_
      exact ⟨j, count, w, rfl, hj, h⟩
  | fail j error =>
    simp only [step]
    split
    · exact .inl rfl
    · unfold fail
      split <;> exact .inl rfl
  | kill k => exact .inl rfl
  | powerLoss left => exact .inl rfl

/-- What is at the path changes when a writer's rename goes well, to all of its bytes. -/
theorem read_step (h : s.Sound (Writers.name path) before) (event : WritersEvent)
    (hnumbered : s.Numbered event) :
    (step path s event).volume.read (Writers.name path) = s.volume.read (Writers.name path) ∨
      ∃ j count w w', event = .advance j count ∧ s.writers[j]? = some w ∧ w.stage = .synced ∧
        (step path s event).writers[j]? = some w' ∧ w'.stage = .done ∧
        (step path s event).volume.read (Writers.name path) = some w.bytes := by
  have hnext := sound_step h event hnumbered
  have hbytes : ∀ {j : ℕ} {w : Writer}, s.writers[j]? = some w →
      (step path s event).writers[j]?.map Writer.bytes = some w.bytes := by
    intro j w hj
    obtain ⟨new, hnew⟩ := bytes_step path s event
    have hlt : j < (s.writers.map Writer.bytes).length := by
      rw [List.length_map]
      exact (List.getElem?_eq_some_iff.mp hj).1
    rw [← List.getElem?_map, ← hnew, List.getElem?_append_left hlt, List.getElem?_map, hj,
      Option.map_some]
  rcases placed_step path s event with hplaced | ⟨j, count, w, hevent, hj, hstage, hplaced⟩
  · left
    rw [hnext.target, hplaced, h.target]
    refine whole_congr fun j hj => ?_
    obtain ⟨w, hw, -⟩ := h.placed j hj
    rw [hbytes hw, hw, Option.map_some]
  · right
    obtain ⟨w', hw', hdone⟩ := hnext.placed j (by rw [hplaced]; simp)
    refine ⟨j, count, w, w', hevent, hj, hstage, hw', hdone, ?_⟩
    rw [hnext.target, hplaced, List.getLast?_concat]
    exact hbytes hj

/-- The path in the one-step file system. -/
def disk (path : Path) (s : Writers) : Disk :=
  ⟨Function.update (fun _ => none) path (s.volume.read (Writers.name path)), fun _ => none⟩

/-- REFINEMENT: as far as the path can tell, a call of `write_atomically` takes one step, that of its
    rename, and all others take none. -/
theorem step_refines (h : s.Sound (Writers.name path) before) (event : WritersEvent)
    (hnumbered : s.Numbered event) :
    (step path s event).disk path = s.disk path ∨ ∃ j count w, event = .advance j count ∧
      s.writers[j]? = some w ∧
      writeAtomically (s.disk path) path w.bytes = .ok ((step path s event).disk path) := by
  refine (read_step h event hnumbered).imp (fun hread => ?_)
    fun ⟨j, count, w, _, hevent, hj, _, _, _, hread⟩ => ⟨j, count, w, hevent, hj, ?_⟩
  · rw [disk, disk, hread]
  · simp only [writeAtomically, disk, Function.update_idem, hread]

end Writers

/-- What readers and writers of a path rely on. -/
structure Writers.Atomic (path : Path) (before : Option Bytes) (s : Writers) : Prop where
  /-- The file is what it was, or one writer's bytes. -/
  whole : s.volume.read (Writers.name path) = match s.placed.getLast? with
    | none => before
    | some j => s.writers[j]?.map Writer.bytes
  /-- Live processes write to temp files of their own. -/
  own : ∀ (j j' : ℕ) (w w' : Writer) (process process' : OsProcess) (temp : String),
    s.writers[j]? = some w → s.writers[j']? = some w' → s.processes[w.process]? = some process →
      s.processes[w'.process]? = some process' → process.alive = true → process'.alive = true →
        w.temp (Writers.name path) = some temp → w'.temp (Writers.name path) = some temp → j = j'
  /-- Who has put a file in place has not failed. -/
  placed : ∀ j ∈ s.placed, ∃ w, s.writers[j]? = some w ∧ w.stage = .done
  /-- Who has failed has left no file, unless it could not be removed. -/
  removed : ∀ w ∈ s.writers, ∀ reason i, w.stage = .failed reason false → w.handle = some i →
    ∀ other, s.volume.dir other ≠ some i
  /-- What is at the path changes when a writer's rename goes well. -/
  step : ∀ event, s.Numbered event →
    (Writers.step path s event).volume.read (Writers.name path) = s.volume.read (Writers.name path) ∨
      ∃ j count w w', event = .advance j count ∧ s.writers[j]? = some w ∧ w.stage = .synced ∧
        (Writers.step path s event).writers[j]? = some w' ∧ w'.stage = .done ∧
        (Writers.step path s event).volume.read (Writers.name path) = some w.bytes

theorem Writers.Sound.atomic {path : Path} {before : Option Bytes} {s : Writers}
    (h : s.Sound (Writers.name path) before) : s.Atomic path before where
  whole := h.target
  own j j' w w' process process' temp hj hj' hprocess hprocess' halive halive' htemp htemp' :=
    temp_apart h hj hj' hprocess hprocess' halive halive' htemp htemp'
  placed := h.placed
  removed w hmem reason i hstage hi := by
    have hkeeps := (h.writers w hmem).keeps
    rw [Writer.Keeps, hstage] at hkeeps
    exact hkeeps i hi
  step event hnumbered := read_step h event hnumbered

/-- CORRECT: however many processes write a path, whatever fails and whoever dies when, the path holds
    what it held or all of one writer's bytes; as long as no process draws 2^64 nonces. -/
theorem writes_atomic (path : Path) (files : List (String × Bytes)) (events : List WritersEvent)
    (hnumbered : Guarded (Writers.step path) Writers.Numbered (.start files) events) :
    (runAll (Writers.step path) (.start files) events).Atomic path
      ((Volume.ofFiles files).read (Writers.name path)) :=
  (guarded_inv (P := Writers.Sound (Writers.name path) _)
    (fun _ event h hguard => Writers.sound_step h event hguard) _ events
    (Writers.sound_start _ files) hnumbered).atomic

/-- Two processes write two bytes each over another's one, system call by system call in turn. -/
def twoWrites : List WritersEvent :=
  [.spawn 7, .spawn 8, .call 0 [1, 2], .call 1 [3, 4]] ++
    (List.replicate 7 [.advance 0 0, .advance 1 0]).flatten

/-- With both temp files synced the old file is there; then the first writer's; then the second's. -/
theorem two_writes_atomic :
    let read := fun n => (runAll (Writers.step ["cache", "1.json"]) (.start [("1.json", [9])])
      (twoWrites.take n)).volume.read "1.json"
    read 16 = some [9] ∧ read 17 = some [1, 2] ∧ read 18 = some [3, 4] := by
  have hnumbered : ∀ n ∈ [16, 17, 18], Guarded (Writers.step ["cache", "1.json"]) Writers.Numbered
      (.start [("1.json", [9])]) (twoWrites.take n) := by
    decide +kernel
  have hatomic := fun n hn => writes_atomic ["cache", "1.json"] [("1.json", [9])] (twoWrites.take n)
    (hnumbered n hn)
  exact ⟨(hatomic 16 (by decide)).whole, (hatomic 17 (by decide)).whole,
    (hatomic 18 (by decide)).whole⟩

/-- A process dies with its temp file half written, and the next has its pid. -/
def pidAgain : List WritersEvent :=
  [.spawn 7, .call 0 [1, 2], .advance 0 0, .advance 0 0, .advance 0 0, .advance 0 0, .kill 0,
    .spawn 7, .call 1 [3, 4], .advance 1 0, .advance 1 0, .advance 1 0, .advance 1 0]

/-- Two writers have opened the temp file `1.7.0.tmp`, one file all along: the first has written its 1
    into it, and the second its 3. -/
theorem temp_written_twice :
    let s := runAll (Writers.step ["cache", "1.json"]) (.start [("1.json", [9])]) pidAgain
    (∃ w w', s.writers[0]? = some w ∧ s.writers[1]? = some w' ∧
      w.temp "1.json" = some "1.7.0.tmp" ∧ w'.temp "1.json" = some "1.7.0.tmp" ∧
      w.handle = some 1 ∧ w'.handle = some 1) ∧
    (runAll (Writers.step ["cache", "1.json"]) (.start [("1.json", [9])])
      (pidAgain.take 6)).volume.read "1.7.0.tmp" = some [1] ∧
    s.volume.read "1.7.0.tmp" = some [3] :=
  ⟨⟨_, _, rfl, rfl, by decide +kernel, by decide +kernel, by decide +kernel, by decide +kernel⟩,
    by decide +kernel, by decide +kernel⟩

end Forkyard
