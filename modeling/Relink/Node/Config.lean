import Mathlib.Data.Fintype.Pi
import Mathlib.Data.List.TakeWhile
import Relink.Library.Run
import Relink.Wire.Frame

/-! The configuration of a node.

Each setter checks its argument at some point, and throws. Those that write before they check leave
part of a rejected argument behind: `throwing_unchanged_iff` says after which arguments, from which
configurations. The discovery mode is selected for good. -/
namespace Relink.Node
open Transition (Throughout)
open Wire (Bytes utf8)

/-! ### The settings -/

inductive DiscoveryMode where
  | none
  | rlCore
  | multicast
deriving DecidableEq, Repr

def kRlCoreDefaultPort : UInt16 := 8445
def kRelayDefaultPort : UInt16 := 8446
def kAesKeyBytes : Nat := 32

abbrev Key := Fin kAesKeyBytes → UInt8

structure RlCoreConfig where
  ipSet : Bool := false
  rlcoreIp : UInt32 := 0
  rlcorePort : UInt16 := kRlCoreDefaultPort
  hasEncryptKey : Bool := false
  encryptKey : Key := fun _ => 0
  relayRequested : Bool := false
deriving DecidableEq

/-- What the calls before the start of a node set. -/
structure Config where
  mode : DiscoveryMode := .none
  setRlcore : RlCoreConfig := {}
  relayEnabled : Bool := false
  relayIp : UInt32 := 0
  relayPort : UInt16 := kRelayDefaultPort
deriving DecidableEq

/-! ### Keys in hexadecimal -/

def nibble (c : UInt8) : Option UInt8 :=
  if 0x30 ≤ c ∧ c ≤ 0x39 then some (c - 0x30)
  else if 0x61 ≤ c ∧ c ≤ 0x66 then some (c - 0x61 + 10)
  else if 0x41 ≤ c ∧ c ≤ 0x46 then some (c - 0x41 + 10)
  else none

/-- Byte `i`, unless one of its digits is none. -/
def hexByte (hex : Bytes) (i : Fin kAesKeyBytes) : Option UInt8 :=
  match nibble (hex.getD (i * 2) 0), nibble (hex.getD (i * 2 + 1) 0) with
  | some hi, some lo => some (hi <<< 4 ||| lo)
  | _, _ => none

/-- The loop of `hex_to_key32`, which writes each byte before it looks at the next. -/
def writeKey (hex : Bytes) : List (Fin kAesKeyBytes) → Key → Key × Bool
  | [], key => (key, true)
  | i :: rest, key =>
    match hexByte hex i with
    | none => (key, false)
    | some byte => writeKey hex rest (Function.update key i byte)

/-- The key it leaves, and whether it returns true. -/
def hexToKey32 (hex : Bytes) (key : Key) : Key × Bool :=
  if hex.length ≠ kAesKeyBytes * 2 then (key, false)
  else writeKey hex (List.finRange kAesKeyBytes) key

/-! ### The setters -/

inductive ConfigCall where
  | ip (addr : Bytes)
  | port (p : UInt16)
  | setEncryptKey (hexKey : Bytes)
  | requestRelay (enabled : Bool)
  | setRelay (ip : Bytes) (port : UInt16)
  | useMulticastDiscovery
deriving DecidableEq

inductive ConfigError where
  | modeAlreadySet
  | notAKey
  | invalidAddress (dotted : Bytes)
deriving DecidableEq

def ConfigError.what : ConfigError → Bytes
  | .modeAlreadySet =>
    utf8 ("discovery mode already set; cannot enable a second, mutually " ++
      "exclusive discovery mode on the same node")
  | .notAKey =>
    utf8 ("set_rlcore.setEncryptKey: expected 64 hex characters (a 32-byte AES-256 " ++
      "key) -- generate one with \x60relink-rlcore --generate-key\x60")
  | .invalidAddress dotted => utf8 "invalid IPv4 address: " ++ dotted

namespace Config
variable (inetPton : Bytes → Option UInt32) (c : Config)

def selectMode (requested : DiscoveryMode) : Except ConfigError Config :=
  if c.mode ≠ .none ∧ c.mode ≠ requested then .error .modeAlreadySet
  else .ok {c with mode := requested}

/-- What `inet_pton` makes of a string; nothing if it does not return 1. -/
def ipv4ToHostOrder (dotted : Bytes) : Except ConfigError UInt32 :=
  match inetPton dotted with
  | none => .error (.invalidAddress dotted)
  | some ip => .ok ip

/-- `set_rlcore.ip`: the mode first, then the address. What a setter leaves, and what it throws. -/
def ip (addr : Bytes) : Config × Option ConfigError :=
  match c.selectMode .rlCore with
  | .error e => (c, some e)
  | .ok c =>
    match ipv4ToHostOrder inetPton addr with
    | .error e => (c, some e)
    | .ok ip => ({c with setRlcore := {c.setRlcore with rlcoreIp := ip, ipSet := true}}, none)

def port (p : UInt16) : Config := {c with setRlcore := {c.setRlcore with rlcorePort := p}}

def setEncryptKey (hexKey : Bytes) : Config × Option ConfigError :=
  match hexToKey32 hexKey c.setRlcore.encryptKey with
  | (key, false) => ({c with setRlcore := {c.setRlcore with encryptKey := key}}, some .notAKey)
  | (key, true) =>
    ({c with setRlcore := {c.setRlcore with encryptKey := key, hasEncryptKey := true}}, none)

/-- `set_rlcore.setRelay`. -/
def requestRelay (enabled : Bool) : Config :=
  {c with setRlcore := {c.setRlcore with relayRequested := enabled}}

/-- `set_relay` of the node. -/
def setRelay (ip : Bytes) (port : UInt16) : Config × Option ConfigError :=
  let c := {c with relayEnabled := true}
  match ipv4ToHostOrder inetPton ip with
  | .error e => (c, some e)
  | .ok ip => ({c with relayIp := ip, relayPort := port}, none)

def useMulticastDiscovery : Config × Option ConfigError :=
  match c.selectMode .multicast with
  | .error e => (c, some e)
  | .ok c => (c, none)

def call : ConfigCall → Config × Option ConfigError
  | .ip addr => c.ip inetPton addr
  | .port p => (c.port p, none)
  | .setEncryptKey hexKey => c.setEncryptKey hexKey
  | .requestRelay enabled => (c.requestRelay enabled, none)
  | .setRelay ip port => c.setRelay inetPton ip port
  | .useMulticastDiscovery => c.useMulticastDiscovery

/-- A call, and whether it returns: not if it throws. -/
def step (call : ConfigCall) : Config × Bool :=
  ((c.call inetPton call).1, (c.call inetPton call).2.isNone)

def next (call : ConfigCall) : Config := (c.step inetPton call).1

def run (calls : List ConfigCall) : Config := calls.foldl (next inetPton) c

end Config

/-! ### What a call that throws leaves, and which do no harm -/

section
variable (inetPton : Bytes → Option UInt32)

def Unchanged (c : Config) (call : ConfigCall) : Prop :=
  (c.step inetPton call).2 = false → c.next inetPton call = c

/-- The mode that a call asks for. -/
def ConfigCall.mode : ConfigCall → Option DiscoveryMode
  | .ip _ => some .rlCore
  | .useMulticastDiscovery => some .multicast
  | _ => none

/-- The bytes before the first digit that is none. -/
def spelled (hex : Bytes) : List (Fin kAesKeyBytes) :=
  (List.finRange kAesKeyBytes).takeWhile fun i => (hexByte hex i).isSome

/-- A bad address does no harm where a mode is selected, or the relay is enabled; a bad key does none
if it has a bad length, or what it spells before the first bad digit is in the key already. -/
def Harmless (c : Config) : ConfigCall → Prop
  | .ip addr => inetPton addr = none → c.mode ≠ .none
  | .setEncryptKey hexKey => hexKey.length = kAesKeyBytes * 2 → (∃ i, hexByte hexKey i = none) →
      ∀ i ∈ spelled hexKey, hexByte hexKey i = some (c.setRlcore.encryptKey i)
  | .setRelay ip _ => inetPton ip = none → c.relayEnabled
  | _ => True

end

/-! ### One call -/

/-- It fails if there is a byte that is none, and what it has written by then are those before. -/
theorem writeKey_false_iff (hex : Bytes) (is : List (Fin kAesKeyBytes)) (key : Key) :
    (writeKey hex is key).2 = false ↔ ∃ i ∈ is, hexByte hex i = none := by
  induction is generalizing key with
  | nil => simp [writeKey]
  | cons i rest ih =>
    rw [writeKey]
    cases hbyte : hexByte hex i with
    | none => simp [hbyte]
    | some byte => simp [ih, hbyte]

theorem writeKey_apply (hex : Bytes) {is : List (Fin kAesKeyBytes)} (hnodup : is.Nodup) (key : Key)
    (j : Fin kAesKeyBytes) : (writeKey hex is key).1 j =
      if j ∈ is.takeWhile fun i => (hexByte hex i).isSome then (hexByte hex j).getD 0 else key j := by
  induction is generalizing key with
  | nil => rfl
  | cons i rest ih =>
    obtain ⟨hfresh, hrest⟩ := List.nodup_cons.mp hnodup
    rw [writeKey]
    cases hbyte : hexByte hex i with
    | none => simp [hbyte]
    | some byte =>
      have htake : (i :: rest).takeWhile (fun i => (hexByte hex i).isSome) =
          i :: rest.takeWhile fun i => (hexByte hex i).isSome := by
        rw [List.takeWhile_cons, hbyte]
        rfl
      rw [htake]
      show (writeKey hex rest (Function.update key i byte)).1 j = _
      rw [ih hrest]
      by_cases hj : j = i
      · subst hj
        have hlater : j ∉ rest.takeWhile fun i => (hexByte hex i).isSome :=
          fun h => hfresh ((List.takeWhile_sublist _).subset h)
        rw [if_neg hlater, if_pos List.mem_cons_self, Function.update_self, hbyte]
        rfl
      · rw [Function.update_of_ne hj]
        simp [hj]

theorem hexToKey32_false_iff (hex : Bytes) (key : Key) : (hexToKey32 hex key).2 = false ↔
    (hex.length = kAesKeyBytes * 2 → ∃ i, hexByte hex i = none) := by
  unfold hexToKey32
  by_cases hlength : hex.length ≠ kAesKeyBytes * 2
  · rw [if_pos hlength]
    exact iff_of_true rfl fun h => absurd h hlength
  · rw [if_neg hlength, writeKey_false_iff]
    simp [not_not.mp hlength]

/-- What is left of a bad key is what it spells. -/
theorem hexToKey32_unchanged_iff {hex : Bytes} {key : Key} (hbad : (hexToKey32 hex key).2 = false) :
    (hexToKey32 hex key).1 = key ↔ (hex.length = kAesKeyBytes * 2 → (∃ i, hexByte hex i = none) →
      ∀ i ∈ spelled hex, hexByte hex i = some (key i)) := by
  unfold hexToKey32 at hbad ⊢
  by_cases hlength : hex.length ≠ kAesKeyBytes * 2
  · rw [if_pos hlength]
    exact iff_of_true rfl fun h => absurd h hlength
  · rw [if_neg hlength] at hbad ⊢
    obtain ⟨i, _, hnone⟩ := (writeKey_false_iff ..).mp hbad
    have hwritten : (writeKey hex (List.finRange kAesKeyBytes) key).1 = key ↔
        ∀ i ∈ spelled hex, hexByte hex i = some (key i) := by
      rw [funext_iff]
      refine forall_congr' fun j => ?_
      rw [writeKey_apply hex (List.nodup_finRange _)]
      show (if j ∈ spelled hex then _ else _) = _ ↔ _
      by_cases hj : j ∈ spelled hex
      · have hsome : (hexByte hex j).isSome := List.mem_takeWhile_imp (p := fun i => (hexByte hex i).isSome) hj
        obtain ⟨byte, hbyte⟩ := Option.isSome_iff_exists.mp hsome
        simp [hj, hbyte]
      · simp [hj]
    rw [hwritten]
    exact ⟨fun h _ _ => h, fun h => h (not_not.mp hlength) ⟨i, hnone⟩⟩

section
variable {inetPton : Bytes → Option UInt32} {c : Config}

variable (c) in
theorem selectMode_cases (requested : DiscoveryMode) :
    (c.selectMode requested = .error .modeAlreadySet ∧ c.mode ≠ .none ∧ c.mode ≠ requested) ∨
      (c.mode = .none ∨ c.mode = requested) ∧
        c.selectMode requested = .ok {c with mode := requested} := by
  unfold Config.selectMode
  by_cases hmode : c.mode ≠ .none ∧ c.mode ≠ requested
  · rw [if_pos hmode]
    exact Or.inl ⟨rfl, hmode⟩
  · rw [if_neg hmode]
    refine Or.inr ⟨?_, rfl⟩
    by_contra hneither
    exact hmode (not_or.mp hneither)

section
variable (inetPton c)

/-- The mode is another one; or it is selected, whether the address is one or not. -/
theorem ip_cases (addr : Bytes) :
    (c.ip inetPton addr = (c, some .modeAlreadySet) ∧ c.mode ≠ .none ∧ c.mode ≠ .rlCore) ∨
      (c.mode = .none ∨ c.mode = .rlCore) ∧
        (inetPton addr = none ∧
            c.ip inetPton addr = ({c with mode := .rlCore}, some (.invalidAddress addr)) ∨
          ∃ ip, inetPton addr = some ip ∧ c.ip inetPton addr =
            ({c with mode := .rlCore,
                     setRlcore := {c.setRlcore with rlcoreIp := ip, ipSet := true}}, none)) := by
  unfold Config.ip Config.ipv4ToHostOrder
  obtain ⟨hselect, hmode⟩ | ⟨hmode, hselect⟩ := selectMode_cases c .rlCore
  · rw [hselect]
    exact Or.inl ⟨rfl, hmode⟩
  · rw [hselect]
    refine Or.inr ⟨hmode, ?_⟩
    cases inetPton addr with
    | none => exact Or.inl ⟨rfl, rfl⟩
    | some ip => exact Or.inr ⟨ip, rfl, rfl⟩

/-- The key is written either way, as far as it goes. -/
theorem setEncryptKey_cases (hexKey : Bytes) :
    let r := hexToKey32 hexKey c.setRlcore.encryptKey
    (r.2 = false ∧ c.setEncryptKey hexKey =
        ({c with setRlcore := {c.setRlcore with encryptKey := r.1}}, some .notAKey)) ∨
      r.2 = true ∧ c.setEncryptKey hexKey =
        ({c with setRlcore := {c.setRlcore with encryptKey := r.1, hasEncryptKey := true}}, none) := by
  unfold Config.setEncryptKey
  generalize hexToKey32 hexKey c.setRlcore.encryptKey = r
  obtain ⟨key, returns⟩ := r
  cases returns with
  | false => exact Or.inl ⟨rfl, rfl⟩
  | true => exact Or.inr ⟨rfl, rfl⟩

/-- The relay is enabled either way. -/
theorem setRelay_cases (ip : Bytes) (port : UInt16) :
    (inetPton ip = none ∧ c.setRelay inetPton ip port =
        ({c with relayEnabled := true}, some (.invalidAddress ip))) ∨
      ∃ ip', inetPton ip = some ip' ∧ c.setRelay inetPton ip port =
        ({c with relayEnabled := true, relayIp := ip', relayPort := port}, none) := by
  unfold Config.setRelay Config.ipv4ToHostOrder
  cases inetPton ip with
  | none => exact Or.inl ⟨rfl, rfl⟩
  | some ip' => exact Or.inr ⟨ip', rfl, rfl⟩

theorem useMulticastDiscovery_cases :
    (c.useMulticastDiscovery = (c, some .modeAlreadySet) ∧ c.mode ≠ .none ∧ c.mode ≠ .multicast) ∨
      (c.mode = .none ∨ c.mode = .multicast) ∧
        c.useMulticastDiscovery = ({c with mode := .multicast}, none) := by
  unfold Config.useMulticastDiscovery
  obtain ⟨hselect, hmode⟩ | ⟨hmode, hselect⟩ := selectMode_cases c .multicast
  · rw [hselect]
    exact Or.inl ⟨rfl, hmode⟩
  · rw [hselect]
    exact Or.inr ⟨hmode, rfl⟩

end

theorem ip_unchanged_iff (addr : Bytes) :
    Unchanged inetPton c (.ip addr) ↔ Harmless inetPton c (.ip addr) := by
  show ((c.ip inetPton addr).2.isNone = false → (c.ip inetPton addr).1 = c) ↔
    (inetPton addr = none → c.mode ≠ .none)
  obtain ⟨hip, hset, -⟩ | ⟨hmode, ⟨hnone, hip⟩ | ⟨ip, hsome, hip⟩⟩ := ip_cases inetPton c addr
  · rw [hip]
    exact iff_of_true (fun _ => rfl) fun _ => hset
  · rw [hip]
    constructor
    · intro hsame _ hunset
      have hrlCore := congrArg Config.mode (hsame rfl)
      rw [hunset] at hrlCore
      cases hrlCore
    · intro hselected _
      rw [← hmode.resolve_left (hselected hnone)]
  · rw [hip, hsome]
    exact iff_of_true (fun h => by cases h) fun h => by cases h

theorem setEncryptKey_unchanged_iff (hexKey : Bytes) :
    Unchanged inetPton c (.setEncryptKey hexKey) ↔ Harmless inetPton c (.setEncryptKey hexKey) := by
  show ((c.setEncryptKey hexKey).2.isNone = false → (c.setEncryptKey hexKey).1 = c) ↔
    (hexKey.length = kAesKeyBytes * 2 → (∃ i, hexByte hexKey i = none) →
      ∀ i ∈ spelled hexKey, hexByte hexKey i = some (c.setRlcore.encryptKey i))
  have hfalse := hexToKey32_false_iff hexKey c.setRlcore.encryptKey
  obtain ⟨hbad, hcall⟩ | ⟨hgood, hcall⟩ := setEncryptKey_cases c hexKey
  · rw [hcall, ← hexToKey32_unchanged_iff hbad]
    constructor
    · intro hsame
      exact congrArg (fun c : Config => c.setRlcore.encryptKey) (hsame rfl)
    · intro hsame _
      rw [hsame]
  · rw [hcall]
    refine iff_of_true (fun h => by cases h) fun _ hbad => ?_
    cases hgood.symm.trans (hfalse.mpr fun _ => hbad)

theorem setRelay_unchanged_iff (ip : Bytes) (port : UInt16) :
    Unchanged inetPton c (.setRelay ip port) ↔ Harmless inetPton c (.setRelay ip port) := by
  show ((c.setRelay inetPton ip port).2.isNone = false → (c.setRelay inetPton ip port).1 = c) ↔
    (inetPton ip = none → c.relayEnabled)
  obtain ⟨hnone, hcall⟩ | ⟨ip', hsome, hcall⟩ := setRelay_cases inetPton c ip port
  · rw [hcall]
    constructor
    · intro hsame _
      exact (congrArg Config.relayEnabled (hsame rfl)).symm
    · intro henabled _
      rw [← henabled hnone]
  · rw [hcall, hsome]
    exact iff_of_true (fun h => by cases h) fun h => by cases h

theorem unchanged_iff (call : ConfigCall) :
    Unchanged inetPton c call ↔ Harmless inetPton c call := by
  cases call with
  | ip addr => exact ip_unchanged_iff addr
  | port p => exact iff_of_true (fun h => by cases h) trivial
  | setEncryptKey hexKey => exact setEncryptKey_unchanged_iff hexKey
  | requestRelay enabled => exact iff_of_true (fun h => by cases h) trivial
  | setRelay ip port => exact setRelay_unchanged_iff ip port
  | useMulticastDiscovery =>
    refine iff_of_true ?_ trivial
    show c.useMulticastDiscovery.2.isNone = false → c.useMulticastDiscovery.1 = c
    obtain ⟨hcall, -⟩ | ⟨-, hcall⟩ := useMulticastDiscovery_cases c
    · rw [hcall]
      exact fun _ => rfl
    · rw [hcall]
      exact fun h => by cases h

/-- What an error says is so: the node has another mode than the call asks for; or it is the call's
address that `inet_pton` does not take; or the call's key is none. -/
def ConfigError.Explains (e : ConfigError) (inetPton : Bytes → Option UInt32) (c : Config)
    (call : ConfigCall) : Prop :=
  match e with
  | .modeAlreadySet => ∃ mode, call.mode = some mode ∧ c.mode ≠ .none ∧ c.mode ≠ mode
  | .invalidAddress dotted =>
    inetPton dotted = none ∧ (call = .ip dotted ∨ ∃ port, call = .setRelay dotted port)
  | .notAKey => ∃ hexKey, call = .setEncryptKey hexKey ∧
    (hexToKey32 hexKey c.setRlcore.encryptKey).2 = false

theorem thrown_explains {call : ConfigCall} {e : ConfigError}
    (hthrows : (c.call inetPton call).2 = some e) : e.Explains inetPton c call := by
  cases call with
  | ip addr =>
    rw [Config.call] at hthrows
    obtain ⟨hip, hmode⟩ | ⟨-, ⟨hnone, hip⟩ | ⟨ip, -, hip⟩⟩ := ip_cases inetPton c addr
    · rw [hip] at hthrows
      cases hthrows
      exact ⟨_, rfl, hmode⟩
    · rw [hip] at hthrows
      cases hthrows
      exact ⟨hnone, Or.inl rfl⟩
    · rw [hip] at hthrows
      cases hthrows
  | port p => cases hthrows
  | setEncryptKey hexKey =>
    rw [Config.call] at hthrows
    obtain ⟨hbad, hcall⟩ | ⟨-, hcall⟩ := setEncryptKey_cases c hexKey
    · rw [hcall] at hthrows
      cases hthrows
      exact ⟨hexKey, rfl, hbad⟩
    · rw [hcall] at hthrows
      cases hthrows
  | requestRelay enabled => cases hthrows
  | setRelay ip port =>
    rw [Config.call] at hthrows
    obtain ⟨hnone, hcall⟩ | ⟨ip', -, hcall⟩ := setRelay_cases inetPton c ip port
    · rw [hcall] at hthrows
      cases hthrows
      exact ⟨hnone, Or.inr ⟨port, rfl⟩⟩
    · rw [hcall] at hthrows
      cases hthrows
  | useMulticastDiscovery =>
    rw [Config.call] at hthrows
    obtain ⟨hcall, hmode⟩ | ⟨-, hcall⟩ := useMulticastDiscovery_cases c
    · rw [hcall] at hthrows
      cases hthrows
      exact ⟨_, rfl, hmode⟩
    · rw [hcall] at hthrows
      cases hthrows

/-- A mode that is selected stays. -/
theorem mode_stays (call : ConfigCall) (hselected : c.mode ≠ .none) :
    (c.next inetPton call).mode = c.mode := by
  show (c.call inetPton call).1.mode = c.mode
  cases call with
  | ip addr =>
    rw [Config.call]
    obtain ⟨hip, -⟩ | ⟨hmode, ⟨-, hip⟩ | ⟨ip, -, hip⟩⟩ := ip_cases inetPton c addr
    · rw [hip]
    · rw [hip]
      exact (hmode.resolve_left hselected).symm
    · rw [hip]
      exact (hmode.resolve_left hselected).symm
  | port p => rfl
  | setEncryptKey hexKey =>
    rw [Config.call]
    obtain ⟨-, hcall⟩ | ⟨-, hcall⟩ := setEncryptKey_cases c hexKey <;> rw [hcall]
  | requestRelay enabled => rfl
  | setRelay ip port =>
    rw [Config.call]
    obtain ⟨-, hcall⟩ | ⟨ip', -, hcall⟩ := setRelay_cases inetPton c ip port <;> rw [hcall]
  | useMulticastDiscovery =>
    rw [Config.call]
    obtain ⟨hcall, -⟩ | ⟨hmode, hcall⟩ := useMulticastDiscovery_cases c
    · rw [hcall]
    · rw [hcall]
      exact (hmode.resolve_left hselected).symm

/-- A call that asks for a mode and returns has selected it. -/
theorem mode_selected {call : ConfigCall} {mode : DiscoveryMode} (hmode : call.mode = some mode)
    (hreturns : (c.step inetPton call).2) : (c.next inetPton call).mode = mode ∧ mode ≠ .none := by
  replace hreturns : (c.call inetPton call).2.isNone := hreturns
  show (c.call inetPton call).1.mode = mode ∧ mode ≠ .none
  cases call with
  | ip addr =>
    cases hmode
    rw [Config.call] at hreturns ⊢
    obtain ⟨hip, -⟩ | ⟨-, ⟨-, hip⟩ | ⟨ip, -, hip⟩⟩ := ip_cases inetPton c addr
    · rw [hip] at hreturns
      cases hreturns
    · rw [hip] at hreturns
      cases hreturns
    · rw [hip]
      exact ⟨rfl, nofun⟩
  | useMulticastDiscovery =>
    cases hmode
    rw [Config.call] at hreturns ⊢
    obtain ⟨hcall, -⟩ | ⟨-, hcall⟩ := useMulticastDiscovery_cases c
    · rw [hcall] at hreturns
      cases hreturns
    · rw [hcall]
      exact ⟨rfl, nofun⟩
  | port p => cases hmode
  | setEncryptKey hexKey => cases hmode
  | requestRelay enabled => cases hmode
  | setRelay ip port => cases hmode

/-! ### Runs -/

theorem mode_run (calls : List ConfigCall) (hselected : c.mode ≠ .none) :
    (c.run inetPton calls).mode = c.mode :=
  Transition.foldl_invariant (fun c' : Config => c'.mode = c.mode) (fun _ => True) _
    (fun _ call h _ => (mode_stays call (h ▸ hselected)).trans h) calls c rfl fun _ _ => trivial

end

/-- **A call that throws changes nothing**, all through a run from a fresh node, exactly if each does
no harm. A mode that a call has selected is the node's from then on. -/
theorem throwing_unchanged_iff (inetPton : Bytes → Option UInt32) :
    (∀ calls, Throughout (Config.next inetPton) (Unchanged inetPton) {} calls ↔
      Throughout (Config.next inetPton) (Harmless inetPton) {} calls) ∧
    ∀ before call later, ((Config.run inetPton {} before).step inetPton call).2 →
      ∀ mode ∈ call.mode, (Config.run inetPton {} (before ++ call :: later)).mode = mode := by
  constructor
  · intro calls
    exact Throughout.congr (C := fun _ _ => True) (fun _ => True) (fun _ call _ _ => unchanged_iff call)
      (fun _ _ _ _ _ => trivial) trivial (Throughout.of_mem (fun _ _ _ => trivial) _)
  · intro before call later hreturns mode hmode
    obtain ⟨hselected, hsome⟩ := mode_selected hmode hreturns
    rw [Config.run, List.foldl_append]
    exact (mode_run later (hselected.symm ▸ hsome)).trans hselected

/-- One of four numbers, of up to three digits. -/
def octet (digits : Bytes) : Option UInt32 :=
  let n := digits.foldl (fun n c => n * 10 + (c.toUInt32 - 0x30)) 0
  if digits = [] ∨ 3 < digits.length ∨ (digits.head? = some 0x30 ∧ digits.length ≠ 1) ∨ 255 < n then none
  else if digits.all fun c => 0x30 ≤ c ∧ c ≤ 0x39 then some n
  else none

/-- A dotted quad, in host order. -/
def dottedQuad (addr : Bytes) : Option UInt32 :=
  match (addr.splitOn 0x2E).map octet with
  | [some a, some b, some c, some d] => some (a <<< 24 ||| b <<< 16 ||| c <<< 8 ||| d)
  | _ => none

/-- 10.0.0.1 -/
example : dottedQuad [0x31, 0x30, 0x2E, 0x30, 0x2E, 0x30, 0x2E, 0x31] = some 0x0A000001 := by decide +kernel

/-- The address is "relay"; the good key is all zeros, the bad one has one byte 0xff and no other
digits. The address leaves a mode or an enabled relay behind, and the bad key one byte of it. -/
theorem throwing_changes :
    let addr : Bytes := [0x72, 0x65, 0x6C, 0x61, 0x79]
    let goodKey : Bytes := List.replicate 64 0x30
    let badKey : Bytes := [0x66, 0x66] ++ List.replicate 62 0x7A
    let keyed := Config.run dottedQuad {} [.setEncryptKey goodKey]
    ((({} : Config).step dottedQuad (.ip addr)).2 = false ∧
      (({} : Config).next dottedQuad (.ip addr)).mode = .rlCore) ∧
    ((({} : Config).step dottedQuad (.setRelay addr 8446)).2 = false ∧
      (({} : Config).next dottedQuad (.setRelay addr 8446)).relayEnabled) ∧
    (keyed.step dottedQuad (.setEncryptKey badKey)).2 = false ∧
      keyed.setRlcore.encryptKey ⟨0, by decide⟩ = 0 ∧ keyed.setRlcore.hasEncryptKey ∧
      (keyed.next dottedQuad (.setEncryptKey badKey)).setRlcore.encryptKey ⟨0, by decide⟩ = 0xFF ∧
      (keyed.next dottedQuad (.setEncryptKey badKey)).setRlcore.hasEncryptKey := by
  decide +kernel

end Relink.Node
