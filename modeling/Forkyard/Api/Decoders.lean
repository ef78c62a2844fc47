import Forkyard.Api.ChainId

/-! Two readers of a call object. `eth_call` and `eth_estimateGas` each decode one, field by field:
    caller, target and value alike, the calldata not. A call falls back on `input` where there is no
    `data`, takes every leading `0x` off and refuses a `gas` it cannot read; an estimate knows `data`
    only, as it is, and has no use for `gas`. `sameReading_iff` says for which objects that makes no
    difference.

                     from, to, value       data          input         gas
        eth_call     read                  trimmed       where no data read
        estimateGas  read                  as it is      –             –       -/

namespace Forkyard

open Schemes

/-! ### Reading hex -/

/-- What `hex::decode` takes for a prefix, `0x` and `0X` alike. -/
def Prefixed (chars : List Char) : Prop := ['0', 'x'] <+: chars ∨ ['0', 'X'] <+: chars

instance (chars : List Char) : Decidable (Prefixed chars) := inferInstanceAs (Decidable (_ ∨ _))

/-- What `hex::decode` is documented to do with a prefix: one is taken off, a second is no hex, and
    only nothing decodes to nothing. -/
structure HexParser.Documented (hex : HexParser) : Prop where
  once : ∀ x ∈ ['x', 'X'], ∀ chars : List Char, ¬ Prefixed chars →
    hex.bytes (.ofList ('0' :: x :: chars)) = hex.bytes (.ofList chars)
  twice : ∀ x ∈ ['x', 'X'], ∀ chars : List Char, Prefixed chars →
    ∀ bytes, hex.bytes (.ofList ('0' :: x :: chars)) ≠ .ok bytes
  nothing : ∀ chars : List Char, ¬ Prefixed chars →
    (hex.bytes (.ofList chars) = .ok [] ↔ chars = [])

/-- A `0x`, and behind it another prefix. -/
def PrefixedTwice (s : String) : Prop :=
  ['0', 'x', '0', 'x'] <+: s.toList ∨ ['0', 'x', '0', 'X'] <+: s.toList

instance (s : String) : Decidable (PrefixedTwice s) := inferInstanceAs (Decidable (_ ∨ _))

/-- The field is absent, or can be read. -/
def WellFormed {A : Type} (parse : String → Except String A) (value : Option String) : Prop :=
  ∀ s, value = some s → ∃ a, parse s = .ok a

/-- The object reads alike: it is refused for a field both read, or else its calldata and its `gas`
    are such that both readers take it the same way. -/
def CallObject.ReadsAlike (hex : HexParser) (call : CallObject) : Prop :=
  WellFormed hex.address call.caller → WellFormed hex.address call.recipient →
  WellFormed hex.parseU256HexStr call.value →
    (∀ s, call.data = some s →
      (WellFormed hex.parseU256HexStr call.gas → PrefixedTwice s →
        ∀ bytes, hex.bytes (trimHex s) ≠ .ok bytes) ∧
      (¬ WellFormed hex.parseU256HexStr call.gas → ∀ bytes, hex.bytes s ≠ .ok bytes)) ∧
    (call.data = none → WellFormed hex.parseU256HexStr call.gas ∧
      (trimHex (call.input.getD "") = "" ∨ trimHex (call.input.getD "") = "0X"))

/-- Both refuse the object as invalid params, or both build a transaction of one caller, one target,
    one value and one calldata. -/
def SameReading (hex : HexParser) (chainId : UInt64) (params : Option CallObject) : Prop :=
  (∃ message message', hex.ethCallTx chainId params = .error (.invalidParams message) ∧
    hex.ethEstimateGasTx params = .error (.invalidParams message')) ∨
  ∃ tx tx', hex.ethCallTx chainId params = .ok tx ∧ hex.ethEstimateGasTx params = .ok tx' ∧
    tx.caller = tx'.caller ∧ tx.kind = tx'.kind ∧ tx.value = tx'.value ∧ tx.data = tx'.data

/-- No prefix is left. -/
theorem not_prefix_trim : ∀ chars : List Char, ¬ ['0', 'x'] <+: trimHex.trim chars
  | [] => by simp [trimHex.trim]
  | [_] => by simp [trimHex.trim]
  | a :: b :: rest => by
    by_cases hstarts : a = '0' ∧ b = 'x'
    · obtain ⟨rfl, rfl⟩ := hstarts
      exact not_prefix_trim rest
    · rw [trimHex.trim]
      · simpa [List.cons_prefix_cons, eq_comm] using hstarts
      · rintro rest ⟨⟩
        exact hstarts ⟨rfl, rfl⟩

theorem trim_of_not_prefix : ∀ {chars : List Char}, ¬ ['0', 'x'] <+: chars →
    trimHex.trim chars = chars
  | [], _ => by simp [trimHex.trim]
  | [_], _ => by simp [trimHex.trim]
  | a :: b :: rest, h => by
    rw [trimHex.trim]
    rintro rest ⟨⟩
    exact h ⟨_, rfl⟩

variable {hex : HexParser}

theorem prefixedTwice_cons {s : String} {chars : List Char} (hs : s.toList = '0' :: 'x' :: chars) :
    PrefixedTwice s ↔ Prefixed chars := by
  simp [PrefixedTwice, Prefixed, hs, List.cons_prefix_cons]

/-- Where no second prefix hides the rest, trimmed and as it is a string reads the same. -/
theorem bytes_trimHex (hhex : hex.Documented) {s : String} (h : ¬ PrefixedTwice s) :
    hex.bytes (trimHex s) = hex.bytes s := by
  by_cases hstarts : ['0', 'x'] <+: s.toList
  · obtain ⟨rest, hrest⟩ := hstarts
    have hbare : ¬ Prefixed rest := fun hrest' => h ((prefixedTwice_cons hrest.symm).mpr hrest')
    have hs : s = .ofList ('0' :: 'x' :: rest) := by
      rw [← String.ofList_toList (s := s), ← hrest]
      rfl
    rw [hs, hhex.once 'x' (by simp) rest hbare, trimHex, String.toList_ofList, trimHex.trim,
      trim_of_not_prefix fun hlower => hbare (.inl hlower)]
  · rw [trimHex, trim_of_not_prefix hstarts, String.ofList_toList]

/-- With a second prefix a string is no hex as it is. -/
theorem bytes_twice (hhex : hex.Documented) {s : String} (h : PrefixedTwice s) (bytes : Bytes) :
    hex.bytes s ≠ .ok bytes := by
  obtain ⟨rest, hrest⟩ : ['0', 'x'] <+: s.toList := by
    rcases h with ⟨rest, hrest⟩ | ⟨rest, hrest⟩
    · exact ⟨'0' :: 'x' :: rest, hrest⟩
    · exact ⟨'0' :: 'X' :: rest, hrest⟩
  have hs : s = .ofList ('0' :: 'x' :: rest) := by
    rw [← String.ofList_toList (s := s), ← hrest]
    rfl
  have htwice : Prefixed rest := (prefixedTwice_cons hrest.symm).mp h
  rw [hs]
  exact hhex.twice 'x' (by simp) rest htwice bytes

/-- Without a `0x` in front, what reads as no bytes is nothing, or a bare `0X`. -/
theorem bytes_nil (hhex : hex.Documented) {chars : List Char} (h : ¬ ['0', 'x'] <+: chars) :
    hex.bytes (.ofList chars) = .ok [] ↔ chars = [] ∨ chars = ['0', 'X'] := by
  by_cases hupper : ['0', 'X'] <+: chars
  · obtain ⟨rest, rfl⟩ := hupper
    by_cases hrest : Prefixed rest
    · refine iff_of_false (hhex.twice 'X' (by simp) rest hrest []) ?_
      rintro (hnil | hbare)
      · cases hnil
      · obtain rfl : rest = [] := by simpa using hbare
        exact absurd hrest (by decide)
    · have honce : hex.bytes (.ofList (['0', 'X'] ++ rest)) = hex.bytes (.ofList rest) :=
        hhex.once 'X' (by simp) rest hrest
      rw [honce, hhex.nothing rest hrest]
      simp
  · rw [hhex.nothing chars (by rintro (hlower | hupper') <;> contradiction)]
    constructor
    · exact .inl
    · rintro (hnil | rfl)
      · exact hnil
      · exact absurd (List.prefix_refl _) hupper

/-- Trimmed, a string reads as no bytes iff nothing but a prefix is left of it. -/
theorem bytes_trimHex_nil (hhex : hex.Documented) (s : String) :
    hex.bytes (trimHex s) = .ok [] ↔ trimHex s = "" ∨ trimHex s = "0X" := by
  have hof : ∀ t : String, trimHex s = t ↔ trimHex.trim s.toList = t.toList := by
    intro t
    rw [trimHex, ← String.toList_inj, String.toList_ofList]
  rw [hof "", hof "0X", trimHex]
  exact bytes_nil hhex (not_prefix_trim _)

/-! ### What each reader takes -/

theorem wellFormed_iff {A : Type} {parse : String → Except String A} {value : Option String} :
    WellFormed parse value ↔ ∃ a, HexParser.field parse value = .ok a := by
  cases value with
  | none => exact ⟨fun _ => ⟨none, rfl⟩, fun _ _ h => by cases h⟩
  | some s =>
    simp only [WellFormed, HexParser.field, Option.some.injEq, forall_eq']
    cases parse s with
    | error message => simp
    | ok a => simp

/-- Reading alike is refusing alike, or building alike. -/
theorem sameReading_refused {chainId : UInt64} {params : Option CallObject}
    (hcall : ∀ tx, hex.ethCallTx chainId params ≠ .ok tx)
    (hestimate : ∀ tx, hex.ethEstimateGasTx params ≠ .ok tx) : SameReading hex chainId params := by
  cases hc : hex.ethCallTx chainId params with
  | ok tx => exact absurd hc (hcall tx)
  | error e =>
    cases he : hex.ethEstimateGasTx params with
    | ok tx => exact absurd he (hestimate tx)
    | error e' =>
      obtain ⟨message, rfl⟩ := ethCallTx_error hc
      obtain ⟨message', rfl⟩ := ethEstimateGasTx_error he
      exact .inl ⟨message, message', hc, he⟩

/-- With the fields both read well formed, it is down to the calldata and `gas`. -/
theorem sameReading_data {chainId : UInt64} {call : CallObject}
    (hcaller : WellFormed hex.address call.caller)
    (hrecipient : WellFormed hex.address call.recipient)
    (hvalue : WellFormed hex.parseU256HexStr call.value) :
    SameReading hex chainId (some call) ↔
      ((∀ data gas, HexParser.field (fun s => hex.bytes (trimHex s)) (call.data.or call.input) = .ok data →
          HexParser.field hex.parseU256HexStr call.gas ≠ .ok gas) ∧
        ∀ data, HexParser.field hex.bytes call.data ≠ .ok data) ∨
      ∃ data gas data', HexParser.field (fun s => hex.bytes (trimHex s)) (call.data.or call.input)
          = .ok data ∧ HexParser.field hex.parseU256HexStr call.gas = .ok gas ∧
        HexParser.field hex.bytes call.data = .ok data' ∧ data.getD [] = data'.getD [] := by
  obtain ⟨caller, hcaller⟩ := wellFormed_iff.mp hcaller
  obtain ⟨recipient, hrecipient⟩ := wellFormed_iff.mp hrecipient
  obtain ⟨value, hvalue⟩ := wellFormed_iff.mp hvalue
  constructor
  · rintro (⟨message, message', hcall, hestimate⟩ | ⟨tx, tx', hcall, hestimate, -, -, -, hdata⟩)
    · refine .inl ⟨fun data gas hdata hgas => ?_, fun data hdata => ?_⟩
      · rw [ethCallTx_iff.mpr ⟨caller, recipient, value, data, gas, hcaller, hrecipient, hvalue, hdata,
          hgas, rfl⟩] at hcall
        cases hcall
      · rw [ethEstimateGasTx_iff.mpr ⟨caller, recipient, value, data, hcaller, hrecipient, hvalue,
          hdata, rfl⟩] at hestimate
        cases hestimate
    · obtain ⟨_, _, _, data, gas, -, -, -, hread, hgas, rfl⟩ := ethCallTx_iff.mp hcall
      obtain ⟨_, _, _, data', -, -, -, hread', rfl⟩ := ethEstimateGasTx_iff.mp hestimate
      exact .inr ⟨data, gas, data', hread, hgas, hread', hdata⟩
  · rintro (⟨hcall, hestimate⟩ | ⟨data, gas, data', hread, hgas, hread', hdata⟩)
    · refine sameReading_refused (fun tx htx => ?_) fun tx htx => ?_
      · obtain ⟨_, _, _, data, gas, -, -, -, hread, hgas, -⟩ := ethCallTx_iff.mp htx
        exact hcall data gas hread hgas
      · obtain ⟨_, _, _, data, -, -, -, hread, -⟩ := ethEstimateGasTx_iff.mp htx
        exact hestimate data hread
    · exact .inr ⟨_, _, ethCallTx_iff.mpr ⟨caller, recipient, value, data, gas, hcaller, hrecipient,
        hvalue, hread, hgas, rfl⟩, ethEstimateGasTx_iff.mpr ⟨caller, recipient, value, data', hcaller,
        hrecipient, hvalue, hread', rfl⟩, rfl, rfl, rfl, hdata⟩

theorem field_some_iff {A : Type} {parse : String → Except String A} {s : String} {a : Option A} :
    HexParser.field parse (some s) = .ok a ↔ ∃ b, parse s = .ok b ∧ a = some b := by
  simp only [HexParser.field]
  cases parse s with
  | error message => simp
  | ok b => simp [eq_comm]

theorem field_some_ne {A : Type} {parse : String → Except String A} {s : String} :
    (∀ a, HexParser.field parse (some s) ≠ .ok a) ↔ ∀ b, parse s ≠ .ok b := by
  constructor
  · intro h b hb
    exact h _ (field_some_iff.mpr ⟨b, hb, rfl⟩)
  · intro h a ha
    obtain ⟨b, hb, -⟩ := field_some_iff.mp ha
    exact h b hb

/-- A string reads the same trimmed and as it is, if the call does not get past a second prefix. -/
theorem sameBytes_iff (hhex : hex.Documented) (s : String) :
    ((∀ bytes, hex.bytes (trimHex s) ≠ .ok bytes) ∧ (∀ bytes, hex.bytes s ≠ .ok bytes) ∨
      ∃ bytes, hex.bytes (trimHex s) = .ok bytes ∧ hex.bytes s = .ok bytes) ↔
    (PrefixedTwice s → ∀ bytes, hex.bytes (trimHex s) ≠ .ok bytes) := by
  by_cases hstarts : PrefixedTwice s
  · -- an estimate never reads it: the call must not either
    constructor
    · rintro (⟨hcall, -⟩ | ⟨bytes, -, hbytes⟩) _
      · exact hcall
      · exact absurd hbytes (bytes_twice hhex hstarts bytes)
    · intro hnever
      exact .inl ⟨hnever hstarts, bytes_twice hhex hstarts⟩
  · -- both read the same string
    rw [bytes_trimHex hhex hstarts]
    refine iff_of_true ?_ fun h => absurd h hstarts
    cases hex.bytes s with
    | error message => exact .inl ⟨nofun, nofun⟩
    | ok bytes => exact .inr ⟨bytes, rfl, rfl⟩

/-- Without `data` an estimate has none; a call has none iff its `input` comes to nothing. -/
theorem readsAlike_input (hhex : hex.Documented) (input : Option String) :
    (∃ data, HexParser.field (fun s => hex.bytes (trimHex s)) input = .ok data ∧ data.getD [] = []) ↔
      trimHex (input.getD "") = "" ∨ trimHex (input.getD "") = "0X" := by
  cases input with
  | none => exact ⟨fun _ => .inl rfl, fun _ => ⟨none, rfl, rfl⟩⟩
  | some s =>
    rw [Option.getD_some, ← bytes_trimHex_nil hhex]
    constructor
    · rintro ⟨data, hread, hnil⟩
      obtain ⟨bytes, hbytes, rfl⟩ := field_some_iff.mp hread
      rw [Option.getD_some] at hnil
      rwa [hnil] at hbytes
    · intro h
      exact ⟨some [], field_some_iff.mpr ⟨[], h, rfl⟩, rfl⟩

/-- EXACT: the two readers take an object the same way iff it reads alike. -/
theorem sameReading_iff (hhex : hex.Documented) (chainId : UInt64) (params : Option CallObject) :
    SameReading hex chainId params ↔ ∀ call, params = some call → call.ReadsAlike hex := by
  cases params with
  | none =>
    refine iff_of_true (.inl ⟨_, _, rfl, rfl⟩) fun call h => ?_
    cases h
  | some call =>
  simp only [Option.some.injEq, forall_eq']
  by_cases hcommon : WellFormed hex.address call.caller ∧ WellFormed hex.address call.recipient ∧
    WellFormed hex.parseU256HexStr call.value
  · obtain ⟨hcaller, hrecipient, hvalue⟩ := hcommon
    have halike : call.ReadsAlike hex ↔ _ :=
      ⟨fun h => h hcaller hrecipient hvalue, fun h _ _ _ => h⟩
    rw [sameReading_data hcaller hrecipient hvalue, halike]
    cases hdata : call.data with
    | none =>
      have hestimate : HexParser.field hex.bytes none = .ok none := rfl
      simp only [Option.none_or, reduceCtorEq, false_implies, implies_true, true_and, true_implies]
      rw [wellFormed_iff, ← readsAlike_input hhex]
      constructor
      · rintro (⟨-, hnever⟩ | ⟨data, gas, data', hread, hgas, hread', hsame⟩)
        · exact absurd hestimate (hnever none)
        · rw [hestimate] at hread'
          obtain rfl := Except.ok.inj hread'
          exact ⟨⟨gas, hgas⟩, data, hread, hsame⟩
      · rintro ⟨⟨gas, hgas⟩, data, hread, hnil⟩
        exact .inr ⟨data, gas, none, hread, hgas, hestimate, hnil⟩
    | some s =>
      simp only [Option.some_or, Option.some.injEq, forall_eq', reduceCtorEq, false_implies, and_true]
      by_cases hgas : WellFormed hex.parseU256HexStr call.gas
      · obtain ⟨gas, hread⟩ := wellFormed_iff.mp hgas
        simp only [hgas, true_implies, not_true_eq_false, false_implies, and_true]
        rw [← sameBytes_iff hhex]
        constructor
        · rintro (⟨hcall, hestimate⟩ | ⟨data, -, data', hdata, -, hdata', hsame⟩)
          · exact .inl ⟨field_some_ne.mp fun data hdata => hcall data gas hdata hread,
              field_some_ne.mp hestimate⟩
          · obtain ⟨bytes, hbytes, rfl⟩ := field_some_iff.mp hdata
            obtain ⟨bytes', hbytes', rfl⟩ := field_some_iff.mp hdata'
            obtain rfl : bytes = bytes' := hsame
            exact .inr ⟨bytes, hbytes, hbytes'⟩
        · rintro (⟨hcall, hestimate⟩ | ⟨bytes, hbytes, hbytes'⟩)
          · exact .inl ⟨fun data _ hdata _ => field_some_ne.mpr hcall data hdata,
              field_some_ne.mpr hestimate⟩
          · exact .inr ⟨some bytes, gas, some bytes, field_some_iff.mpr ⟨bytes, hbytes, rfl⟩, hread,
              field_some_iff.mpr ⟨bytes, hbytes', rfl⟩, rfl⟩
      · -- the call is refused for its `gas`
        simp only [hgas, false_implies, not_false_eq_true, true_implies, true_and]
        have hnever : ∀ gas, HexParser.field hex.parseU256HexStr call.gas ≠ .ok gas :=
          fun gas hread => hgas (wellFormed_iff.mpr ⟨gas, hread⟩)
        constructor
        · rintro (⟨-, hestimate⟩ | ⟨-, gas, -, -, hread, -⟩)
          · exact field_some_ne.mp hestimate
          · exact absurd hread (hnever gas)
        · intro hestimate
          exact .inl ⟨fun _ gas _ => hnever gas, field_some_ne.mpr hestimate⟩
  · refine iff_of_true (sameReading_refused (fun tx htx => hcommon ?_) fun tx htx => hcommon ?_) ?_
    · obtain ⟨_, _, _, _, _, hcaller, hrecipient, hvalue, -⟩ := ethCallTx_iff.mp htx
      exact ⟨wellFormed_iff.mpr ⟨_, hcaller⟩, wellFormed_iff.mpr ⟨_, hrecipient⟩,
        wellFormed_iff.mpr ⟨_, hvalue⟩⟩
    · obtain ⟨_, _, _, _, hcaller, hrecipient, hvalue, -⟩ := ethEstimateGasTx_iff.mp htx
      exact ⟨wellFormed_iff.mpr ⟨_, hcaller⟩, wellFormed_iff.mpr ⟨_, hrecipient⟩,
        wellFormed_iff.mpr ⟨_, hvalue⟩⟩
    · intro hcaller hrecipient hvalue
      exact absurd ⟨hcaller, hrecipient, hvalue⟩ hcommon

/-! ### Calldata under `input` -/

def hexValue (c : Char) : Option ℕ :=
  if '0' ≤ c ∧ c ≤ '9' then some (c.toNat - 48)
  else if 'a' ≤ c ∧ c ≤ 'f' then some (c.toNat - 87)
  else if 'A' ≤ c ∧ c ≤ 'F' then some (c.toNat - 55)
  else none

def decodeDigits : List Char → Except String Bytes
  | [] => .ok []
  | [_] => .error "odd number of digits"
  | a :: b :: rest =>
    match hexValue a, hexValue b with
    | some x, some y => (decodeDigits rest).map (UInt8.ofNat (16 * x + y) :: ·)
    | _, _ => .error "invalid character"

/-- `hex::decode`. -/
def hexDecode (s : String) : Except String Bytes :=
  if Prefixed s.toList then decodeDigits (s.toList.drop 2) else decodeDigits s.toList

/-- Bytes as they are decoded, and the one address that is asked for. -/
def plainHex : HexParser := ⟨fun _ => .ok 0xa, .error, hexDecode⟩

theorem decodeDigits_nil_iff : ∀ chars : List Char, decodeDigits chars = .ok [] ↔ chars = []
  | [] => by simp [decodeDigits]
  | [_] => by simp [decodeDigits]
  | a :: b :: rest => by
    rw [decodeDigits]
    cases hexValue a with
    | none => simp
    | some x =>
      cases hexValue b with
      | none => simp
      | some y => cases decodeDigits rest <;> simp [Except.map]

/-- A prefix is no hex. -/
theorem decodeDigits_prefixed {chars : List Char} (h : Prefixed chars) (bytes : Bytes) :
    decodeDigits chars ≠ .ok bytes := by
  have hlower : hexValue 'x' = none := by decide
  have hupper : hexValue 'X' = none := by decide
  rcases h with ⟨rest, rfl⟩ | ⟨rest, rfl⟩
  · simp [decodeDigits, hlower]
  · simp [decodeDigits, hupper]

theorem hexDecode_cons {x : Char} (hx : x ∈ ['x', 'X']) (chars : List Char) :
    hexDecode (.ofList ('0' :: x :: chars)) = decodeDigits chars := by
  have hprefixed : Prefixed ('0' :: x :: chars) := by
    rcases List.mem_pair.mp hx with rfl | rfl
    · exact .inl ⟨chars, rfl⟩
    · exact .inr ⟨chars, rfl⟩
  rw [hexDecode, String.toList_ofList, if_pos hprefixed]
  rfl

theorem plainHex_documented : plainHex.Documented where
  once x hx chars h := by
    change hexDecode _ = hexDecode _
    rw [hexDecode_cons hx, hexDecode, String.toList_ofList, if_neg h]
  twice x hx chars h bytes := by
    change hexDecode _ ≠ _
    rw [hexDecode_cons hx]
    exact decodeDigits_prefixed h bytes
  nothing chars h := by
    change hexDecode _ = _ ↔ _
    rw [hexDecode, String.toList_ofList, if_neg h]
    exact decodeDigits_nil_iff chars

/-- A call with its calldata under `data`. -/
def dataCall : CallObject :=
  ⟨none, some "0x000000000000000000000000000000000000000a", none, some "0x01", none, none⟩

/-- The same call with its calldata under `input`. -/
def inputCall : CallObject := { dataCall with data := none, input := some "0x01" }

theorem sameReading_data_field : SameReading plainHex 1 (some dataCall) := by
  refine (sameReading_iff plainHex_documented 1 (some dataCall)).mpr ?_
  rintro call ⟨⟩ - - -
  refine ⟨?_, fun h => by cases h⟩
  rintro s ⟨⟩
  refine ⟨fun _ h => absurd h (by decide), fun hgas => absurd ?_ hgas⟩
  rintro s ⟨⟩

/-- Run by `eth_call` with its calldata, estimated without it. -/
theorem input_ignored : ¬ SameReading plainHex 1 (some inputCall) := by
  have hcall : plainHex.ethCallTx 1 (some inputCall)
      = .ok { TxEnv.builder with kind := .call 0xa, data := [1], gasLimit := estimateGasLimit } := by
    decide +kernel
  have hestimate : plainHex.ethEstimateGasTx (some inputCall)
      = .ok { TxEnv.builder with kind := .call 0xa, data := [], gasLimit := estimateGasLimit } := by
    decide +kernel
  rintro (⟨message, -, h, -⟩ | ⟨tx, tx', h, h', -, -, -, hdata⟩)
  · rw [hcall] at h
    cases h
  · rw [hcall] at h
    rw [hestimate] at h'
    obtain rfl := Except.ok.inj h
    obtain rfl := Except.ok.inj h'
    cases hdata

end Forkyard
