import Forkyard.Api.Fees

/-! Siblings on the two surfaces. A look or a cheatcode of the JSON-RPC surface has its sibling among
    the tools. The two read the same texts, ask the same of the manager and end alike, so that in any
    run either may stand for the other: nobody else is answered anything else, and nothing is left
    behind that the other would not have left. The two discards are no such siblings, for the tool
    leaves the entry of the side table where it is.

        eth_getBalance ─── get_balance      forkyard_setBalance ───── set_balance
        eth_getStorageAt ─ get_storage      forkyard_setStorageAt ─── set_storage
        eth_getCode ────── get_code         forkyard_snapshot ─────── snapshot -/

namespace Forkyard

open Schemes

variable {F E : Type}

/-! ### Siblings -/

/-- A method and a tool for the same, of the same texts. -/
inductive SurfaceCall.Sibling : SurfaceCall → SurfaceCall → Prop
  | getBalance {id : SessionId} {params : List Value} {address : String}
    (h : Wire.paramStr params 0 = .ok address) :
    Sibling (.rpc id "eth_getBalance" params) (.tool (.getBalance id address))
  | getStorage {id : SessionId} {params : List Value} {address slot : String}
    (h : Wire.paramStr params 0 = .ok address) (hslot : Wire.paramStr params 1 = .ok slot) :
    Sibling (.rpc id "eth_getStorageAt" params) (.tool (.getStorage id address slot))
  | getCode {id : SessionId} {params : List Value} {address : String}
    (h : Wire.paramStr params 0 = .ok address) :
    Sibling (.rpc id "eth_getCode" params) (.tool (.getCode id address))
  | setBalance {id : SessionId} {params : List Value} {address balance : String}
    (h : Wire.paramStr params 0 = .ok address) (hbalance : Wire.paramStr params 1 = .ok balance) :
    Sibling (.rpc id "forkyard_setBalance" params) (.tool (.setBalance id address balance))
  | setStorage {id : SessionId} {params : List Value} {address slot value : String}
    (h : Wire.paramStr params 0 = .ok address) (hslot : Wire.paramStr params 1 = .ok slot)
    (hvalue : Wire.paramStr params 2 = .ok value) :
    Sibling (.rpc id "forkyard_setStorageAt" params) (.tool (.setStorage id address slot value))
  | snapshot (id : SessionId) (params : List Value) :
    Sibling (.rpc id "forkyard_snapshot" params) (.tool (.snapshot id))

/-- The same answer, as either surface puts it. -/
inductive SurfaceReply.Matches : SurfaceReply → SurfaceReply → Prop
  | same (r : SurfaceReply) : Matches r r
  | failed (e : RpcErrorObj) (e' : ErrorData) : Matches (.rpc (.error e)) (.tool (.error e'))
  | text (s : String) : Matches (.rpc (.ok (.text s))) (.tool (.ok (.text s)))
  | truth : Matches (.rpc (.ok .truth)) (.tool (.ok (.text "true")))
  | balance (info : Option AccountInfo) :
    Matches (.rpc (.ok (.text (hexText ((info.map AccountInfo.balance).getD 0).toNat))))
      (.tool (.ok (.text (balanceText (info.getD .default)))))
  | snapshot (info : SnapshotInfo) :
    Matches (.rpc (.ok (.snapshot info))) (.tool (.ok (.text (snapshotText info))))

section Programs

variable {ε ε' δ A R R' : Type}

theorem alongside_proceed {M : Except ε R → Except ε' R' → Prop}
    (herror : ∀ e e', M (.error e) (.error e')) {x : Except δ A} {f : δ → ε} {f' : δ → ε'}
    {k : A → Program F (Except ε R)} {k' : A → Program F (Except ε' R')}
    (hk : ∀ a, (k a).Alongside M (k' a)) :
    (proceed (x.mapError f) k).Alongside M (proceed (x.mapError f') k') := by
  cases x with
  | error e => exact .ret (herror _ _)
  | ok a => exact hk a

theorem alongside_request {M : Except ε R → Except ε' R' → Prop}
    (herror : ∀ e e', M (.error e) (.error e')) {job : { job : Job F // job.opens = false }}
    {receive : Option (Reply F) → Except ManagerError A} {tell : ManagerError → ε}
    {tell' : ManagerError → ε'} {k : A → Program F (Except ε R)}
    {k' : A → Program F (Except ε' R')} (hk : ∀ a, (k a).Alongside M (k' a)) :
    (request job receive tell k).Alongside M (request job receive tell' k') :=
  .ask fun _ => alongside_proceed herror hk

theorem param_read {parse : String → Except String A} {params : List Value} {idx : ℕ} {s : String}
    (h : Wire.paramStr params idx = .ok s) :
    Wire.param params parse idx = (parse s).mapError .invalidParams := by
  rw [Wire.param, h]
  rfl

/-- A method and a tool whose programs come in a pair. -/
theorem handle_alongside {w : Wire} {chainId : UInt64} {id : SessionId} {params : List Value}
    {name : String} {call : ToolCall} (method : RpcMethod)
    (hparse : RpcMethod.parse name = some method)
    (h : (w.handle chainId id params method : Rpc F).Alongside
      (fun r r' => (SurfaceReply.rpc r).Matches (.tool r')) (w.tool call)) :
    ((SurfaceCall.rpc id name params).program w chainId : Program F SurfaceReply).Alongside
      SurfaceReply.Matches ((SurfaceCall.tool call).program w chainId) := by
  rw [SurfaceCall.program, dispatch_handle method hparse]
  exact alongside_map SurfaceReply.rpc SurfaceReply.tool h

/-- Siblings ask the same and end alike. -/
theorem sibling_alongside (w : Wire) (chainId : UInt64) {call call' : SurfaceCall}
    (h : call.Sibling call') :
    (call.program w chainId : Program F SurfaceReply).Alongside SurfaceReply.Matches
      (call'.program w chainId) := by
  have herror : ∀ (e : RpcErrorObj) (e' : ErrorData),
      (SurfaceReply.rpc (.error e)).Matches (.tool (.error e')) := .failed
  cases h with
  | getBalance h =>
    refine handle_alongside .ethGetBalance rfl ?_
    simp only [Wire.handle, Wire.ethGetBalance, Wire.parseAddress, param_read h]
    exact alongside_proceed herror fun address => alongside_request herror fun info =>
      .ret (.balance info)
  | getStorage h hslot =>
    refine handle_alongside .ethGetStorageAt rfl ?_
    simp only [Wire.handle, Wire.ethGetStorageAt, Wire.parseAddress, Wire.parseU256, param_read h,
      param_read hslot]
    exact alongside_proceed herror fun address => alongside_proceed herror fun slot =>
      alongside_request herror fun value => .ret (.text _)
  | getCode h =>
    refine handle_alongside .ethGetCode rfl ?_
    simp only [Wire.handle, Wire.ethGetCode, Wire.parseAddress, param_read h]
    exact alongside_proceed herror fun address => alongside_request herror fun code =>
      .ret (.text _)
  | setBalance h hbalance =>
    refine handle_alongside .forkyardSetBalance rfl ?_
    simp only [Wire.handle, Wire.forkyardSetBalance, Wire.parseAddress, Wire.parseU256,
      param_read h, param_read hbalance]
    exact alongside_proceed herror fun address => alongside_proceed herror fun balance =>
      alongside_request herror fun info => alongside_request herror fun _ => .ret .truth
  | setStorage h hslot hvalue =>
    refine handle_alongside .forkyardSetStorageAt rfl ?_
    simp only [Wire.handle, Wire.forkyardSetStorageAt, Wire.parseAddress, Wire.parseU256,
      param_read h, param_read hslot, param_read hvalue]
    exact alongside_proceed herror fun address => alongside_proceed herror fun slot =>
      alongside_proceed herror fun value => alongside_request herror fun _ => .ret .truth
  | snapshot id params =>
    refine handle_alongside .forkyardSnapshot rfl ?_
    simp only [Wire.handle, Wire.forkyardSnapshot, Wire.tool, Wire.snapshot]
    split
    · exact alongside_request herror fun state => .ask fun stored =>
        alongside_proceed herror fun info => .ret (.snapshot info)
    · exact .ret (herror _ _)

end Programs

section Surfaces

variable [ToString E] {up : F → Upstream E} {evm : Evm E} {order : HashOrder}
  {stored : UInt64 → SessionState → Except String SnapshotInfo} {w : Wire} {chainId : UInt64}

/-- The same event, or a request made over the other surface. -/
inductive SurfaceEvent.Alongside : SurfaceEvent F → SurfaceEvent F → Prop
  | same (event : SurfaceEvent F) : Alongside event event
  | sibling {call call' : SurfaceCall} (h : call.Sibling call') :
    Alongside (.call call) (.call call')

theorem event_alongside (w : Wire) (chainId : UInt64) {event event' : SurfaceEvent F}
    (h : event.Alongside event') :
    (event.event w chainId).Alongside SurfaceReply.Matches (event'.event w chainId) := by
  cases h with
  | sibling h => exact .request (sibling_alongside w chainId h)
  | same =>
    cases event with
    | call call => exact .request (alongside_refl .same _)
    | move i => exact .move i
    | happen happening => exact .outside happening

/-- EITHER SURFACE WILL DO: with some requests made by their siblings, every run comes to the same
    sessions and the same side table, and everybody is answered the same. -/
theorem siblings_interchange {b : Backend F} {events events' : List (SurfaceEvent F)}
    (h : List.Forall₂ SurfaceEvent.Alongside events events') :
    (surfaces up evm order stored w chainId b events).store
        = (surfaces up evm order stored w chainId b events').store ∧
      ∀ i : ℕ,
        (∀ r, (surfaces up evm order stored w chainId b events).requests[i]? = some (.ret r) →
          ∃ r', (surfaces up evm order stored w chainId b events').requests[i]? = some (.ret r') ∧
            r.Matches r') ∧
        ∀ r', (surfaces up evm order stored w chainId b events').requests[i]? = some (.ret r') →
          ∃ r, (surfaces up evm order stored w chainId b events).requests[i]? = some (.ret r) ∧
            r.Matches r' := by
  have hevents : List.Forall₂ (CrowdEvent.Alongside SurfaceReply.Matches)
      (events.map (SurfaceEvent.event w chainId)) (events'.map (SurfaceEvent.event w chainId)) := by
    rw [List.forall₂_map_left_iff, List.forall₂_map_right_iff]
    exact h.imp fun _ _ => event_alongside w chainId
  have hstart : (Crowd.start b : Crowd (Hop F) Hop.Answer SurfaceReply (Backend F)).Alongside
      SurfaceReply.Matches (Crowd.start b) := ⟨rfl, [], rfl, rfl, fun p hp => by cases hp⟩
  have hrun : (surfaces up evm order stored w chainId b events).Alongside SurfaceReply.Matches
      (surfaces up evm order stored w chainId b events') := alongside_run hevents hstart
  exact ⟨hrun.store, alongside_ends hrun⟩

end Surfaces

/-- A slot is set and got, over one surface and over the other. -/
def overRpc : List (SurfaceEvent Unit) :=
  opening ++
    [.call (.rpc 0 "forkyard_setStorageAt" [addressA, .string "0x7", .string "0x2a"]),
      .call (.rpc 0 "eth_getStorageAt" [addressA, .string "0x7"]), .move 1, .move 2]

def overTools : List (SurfaceEvent Unit) :=
  opening ++
    [.call (.tool (.setStorage 0 "0x000000000000000000000000000000000000000a" "0x7" "0x2a")),
      .call (.tool (.getStorage 0 "0x000000000000000000000000000000000000000a" "0x7")),
      .move 1, .move 2]

theorem siblings_interchange_slot :
    (surfaces emptyUpstream inert .some (fun _ _ => .error "no store") numeralWire 1 idleBackend
        overRpc).store
      = (surfaces emptyUpstream inert .some (fun _ _ => .error "no store") numeralWire 1 idleBackend
        overTools).store ∧
    ∃ r', (surfaces emptyUpstream inert .some (fun _ _ => .error "no store") numeralWire 1
        idleBackend overTools).requests[2]? = some (.ret r') ∧
      (SurfaceReply.rpc (.ok (.text (wordText 42)))).Matches r' := by
  have halike : List.Forall₂ SurfaceEvent.Alongside overRpc overTools :=
    List.rel_append (List.forall₂_same.mpr fun event _ => .same event)
      (.cons (.sibling (.setStorage rfl rfl rfl)) (.cons (.sibling (.getStorage rfl rfl))
        (.cons (.same _) (.cons (.same _) .nil))))
  obtain ⟨hstore, hends⟩ := @siblings_interchange _ _ _ emptyUpstream inert .some
    (fun _ _ => .error "no store") numeralWire 1 idleBackend _ _ halike
  exact ⟨hstore, (hends 2).1 _ rfl⟩

end Forkyard
