import Forkyard.Session.Serial

/-! Jobs on sessions that are the same. Where two sessions show one map at one block, one job is
    answered alike on both and leaves them the same: equal replies, but for the two that hand out
    the session itself, which then hand out sessions that are the same.

        slot ══ Same ══ slot'
          │ job           │ job
        slot ══ Same ══ slot',  replies alike -/

namespace Forkyard

open Schemes

variable {F E : Type}

/-- No session, or sessions no later job can tell apart. -/
def SameSlot (up : F → Upstream E) : Option (Session F) → Option (Session F) → Prop
  | some s, some t => Same up s t
  | none, none => True
  | _, _ => False

/-- Replies that tell the same of sessions that are the same. -/
inductive Reply.Alike (up : F → Upstream E) (order : HashOrder) : Reply F → Reply F → Prop
  | refl (reply : Reply F) : Alike up order reply reply
  | state {s t : Session F} (h : Same up s t) :
    Alike up order (stateReply order s) (stateReply order t)
  | branch {s t : Session F} (h : Same up s t) :
    Alike up order (.branch (.ok s)) (.branch (.ok t))

variable {up : F → Upstream E} {evm : Evm E} {order : HashOrder}

theorem same_refl {s : Session F} (hs : s.readLog = none) : Same up s s := ⟨rfl, rfl, hs, hs⟩

theorem same_setAccount {s t : Session F} (h : Same up s t) (address : Address)
    (info : AccountInfo) :
    Same up (s.setAccount address info) (t.setAccount address info) :=
  ⟨by rw [Session.view_setAccount, Session.view_setAccount, h.view], h.blockEnv, h.left, h.right⟩

theorem same_setStorage {s t : Session F} (h : Same up s t) (address : Address) (key : StorageKey)
    (value : StorageValue) :
    Same up (s.setStorage address key value) (t.setStorage address key value) :=
  ⟨by rw [Session.view_setStorage, Session.view_setStorage, h.view], h.blockEnv, h.left, h.right⟩

theorem same_branch {s t : Session F} (h : Same up s t) : Same up s.branch t.branch :=
  ⟨by rw [Session.view_branch, Session.view_branch, h.view], h.blockEnv, rfl, rfl⟩

theorem sameSlot_refl {slot : Option (Session F)} (h : ∀ s, slot = some s → s.readLog = none) :
    SameSlot up slot slot := by
  match slot, h with
  | some s, h => exact same_refl (h s rfl)
  | none, _ => exact trivial

theorem sameSlot_trans {slot slot' slot'' : Option (Session F)} (h : SameSlot up slot slot')
    (h' : SameSlot up slot' slot'') : SameSlot up slot slot'' := by
  match slot, slot', slot'', h, h' with
  | some s, some t, some u, h, h' => exact same_trans h h'
  | none, none, none, _, _ => exact trivial

variable (order) in
/-- A command is answered alike on sessions that were the same, and leaves them the same. -/
theorem refCommand_alike (c : Command F) {slot slot' : Option (Session F)}
    (h : SameSlot up slot slot') :
    Reply.Alike up order (refCommand order c slot).1 (refCommand order c slot').1 ∧
      SameSlot up (refCommand order c slot).2 (refCommand order c slot').2 := by
  have hasked : ∀ (missing : Reply F) (f : Session F → Reply F × Session F),
      (∀ s t, Same up s t → Reply.Alike up order (f s).1 (f t).1 ∧ Same up (f s).2 (f t).2) →
        Reply.Alike up order (asked missing f slot).1 (asked missing f slot').1 ∧
          SameSlot up (asked missing f slot).2 (asked missing f slot').2 := by
    intro missing f hf
    match slot, slot', h with
    | some s, some t, h => exact hf s t h
    | none, none, _ => exact ⟨.refl _, trivial⟩
  cases c with
  | fork id base fallback blockEnv seed => cases seed <;> exact ⟨.refl _, same_refl rfl⟩
  | state id => exact hasked _ _ fun s t h => ⟨.state h, h⟩
  | branch parent => exact hasked _ _ fun s t h => ⟨.branch (same_branch h), h⟩
  | adopt id session => exact ⟨.refl _, same_refl session.2⟩
  | discard id => exact ⟨.refl _, trivial⟩
  | blockEnvOf id =>
    refine hasked _ _ fun s t h => ⟨?_, h⟩
    rw [h.blockEnv]
    exact .refl _
  | setAccount id address info =>
    exact hasked _ _ fun s t h => ⟨.refl _, same_setAccount h address info⟩
  | setStorage id address key value =>
    exact hasked _ _ fun s t h => ⟨.refl _, same_setStorage h address key value⟩

variable [ToString E]

variable (evm order) in
/-- ONE JOB on sessions that are the same: answered alike where it is answered, it leaves them the
    same. -/
theorem refStep_alike (job : Job F) {slot slot' : Option (Session F)} (h : SameSlot up slot slot') :
    (∀ reply, (refStep up evm order job slot).1 = some reply →
      ∃ reply', (refStep up evm order job slot').1 = some reply' ∧ reply.Alike up order reply') ∧
      SameSlot up (refStep up evm order job slot).2 (refStep up evm order job slot').2 := by
  cases job with
  | command c =>
    obtain ⟨halike, hsame⟩ := refCommand_alike order c h
    refine ⟨fun reply hreply => ⟨_, rfl, ?_⟩, hsame⟩
    obtain rfl := Option.some.inj hreply
    exact halike
  | read id request =>
    match slot, slot', h with
    | some s, some t, h =>
      obtain ⟨hresult, hsame⟩ := serve_same (request.task (F := F) evm) h
      refine ⟨fun reply hreply => ⟨reply, ?_, .refl reply⟩, hsame⟩
      simp only [refStep] at hreply ⊢
      rw [← hresult]
      exact hreply
    | none, none, _ => exact ⟨fun reply hreply => ⟨reply, hreply, .refl reply⟩, trivial⟩

end Forkyard
