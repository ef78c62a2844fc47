import Forkyard.Schemes.Map
import Forkyard.Schemes.ReadTree

/-! The values the engine passes around: addresses, words and hashes at their own widths, the parts
    of revm's account, block and diff types that any code here reads or writes, and the four
    questions a `Database` answers. A hash map that the code only walks (revm's diff, the slots of
    one of its accounts) is a list in the order of that walk, its keys distinct. -/

namespace Forkyard

open Schemes

abbrev Address := BitVec 160
abbrev B256 := BitVec 256
abbrev U256 := BitVec 256
abbrev StorageKey := U256
abbrev StorageValue := U256
abbrev Bytes := List UInt8
abbrev SessionId := UInt64

/-- Keccak of no bytes at all: the code hash of an account without code. -/
def keccakEmpty : B256 :=
  0xc5d2460186f7233c927e7db2dcc703c0e500b653ca82273b7bfad8045d85a470#256

/-- revm's analyzed bytecode, of which nothing here but its original bytes is ever looked at. -/
structure Bytecode where
  originalBytes : Bytes
  deriving DecidableEq

/-- `code` is the copy upstream delivers inline; `none` means look it up by `codeHash`. -/
structure AccountInfo where
  balance : U256
  nonce : UInt64
  codeHash : B256
  code : Option Bytecode
  deriving DecidableEq

/-- revm's `AccountInfo::default`: an empty account, its empty code inline. -/
def AccountInfo.default : AccountInfo := ⟨0, 0, keccakEmpty, some ⟨[]⟩⟩

/-- The fields of a block that a header fetch sets. -/
structure BlockEnv where
  number : U256
  timestamp : U256
  basefee : UInt64
  gasLimit : UInt64
  deriving DecidableEq

/-- One slot of a diff: what it held before the transaction and what it holds now. -/
structure EvmStorageSlot where
  originalValue : StorageValue
  presentValue : StorageValue
  deriving DecidableEq

/-- One account of a diff, with the two status flags that carry a meaning of their own. -/
structure Account where
  info : AccountInfo
  storage : List (StorageKey × EvmStorageSlot)
  created : Bool
  selfdestructed : Bool
  storageNodup : (storage.map Prod.fst).Nodup
  deriving DecidableEq

/-- revm's `EvmState`, the diff of one execution. -/
structure EvmState where
  accounts : List (Address × Account)
  nodup : (accounts.map Prod.fst).Nodup
  deriving DecidableEq

/-- Surfaced when a read misses the overlay, the shared base and the fallback. -/
inductive SessionDbError (E : Type) where
  | codeMiss (codeHash : B256)
  | fallback (error : E)
  deriving DecidableEq

/-- The text of `SessionDbError`'s `Display`. -/
def SessionDbError.display {E : Type} [ToString E] : SessionDbError E → String
  | .codeMiss codeHash => s!"no cached code for hash 0x{codeHash.toHex}"
  | .fallback e => s!"fallback lookup failed: {e}"

/-- What revm may ask of a `Database`. -/
inductive Query where
  | basic (address : Address)
  | codeByHash (codeHash : B256)
  | storage (address : Address) (index : StorageKey)
  | blockHash (number : UInt64)
  deriving DecidableEq

/-- The type of the answer to each question. -/
abbrev Answer (E : Type) : Query → Type
  | .basic _ => Except (SessionDbError E) (Option AccountInfo)
  | .codeByHash _ => Except (SessionDbError E) Bytecode
  | .storage _ _ => Except (SessionDbError E) StorageValue
  | .blockHash _ => Except (SessionDbError E) B256

/-- An adaptive read program over a `Database`. -/
abbrev ReadProg (E R : Type) := Tree Query (Answer E) R

/-- A fallback as the engine sees it: four reads, out of and into a world `W` outside the session
    (a shared cache, what the thread is recording). -/
structure DatabaseRef (F W E : Type) where
  basicRef : F → Address → W → Except E (Option AccountInfo) × W
  codeByHashRef : F → B256 → W → Except E Bytecode × W
  storageRef : F → Address → StorageKey → W → Except E StorageValue × W
  blockHashRef : F → UInt64 → W → Except E B256 × W

/-- A fixed source of state: one answer, or one error, per key. -/
structure Upstream (E : Type) where
  basic : Address → Except E (Option AccountInfo)
  codeByHash : B256 → Except E Bytecode
  storage : Address → StorageKey → Except E StorageValue
  blockHash : UInt64 → Except E B256

/-- An empty chain: no account, every slot zero, and `missing` for a code or a block hash. -/
def Upstream.vacant {E : Type} (missing : E) : Upstream E where
  basic _ := .ok none
  codeByHash _ := .error missing
  storage _ _ := .ok 0
  blockHash _ := .error missing

/-- Reading straight from upstream, with no world in between. -/
def Upstream.db {F E : Type} (up : F → Upstream E) : DatabaseRef F Unit E where
  basicRef f address w := ((up f).basic address, w)
  codeByHashRef f codeHash w := ((up f).codeByHash codeHash, w)
  storageRef f address index w := ((up f).storage address index, w)
  blockHashRef f number w := ((up f).blockHash number, w)

end Forkyard
