import Butterfly.Foundation.OrderedMap

/-!
# The object model of the server

`model.h` and `model.cc`: addresses, NICs, rules, security groups and the two
maps that make up `app::model`.  What the code takes from the C library is
collected in `Platform`; nothing else is assumed about it than what its manual
pages promise.
-/

namespace Butterfly

open Std

/--
The parts of the C and C++ libraries the model calls.  `hashString` is
`std::hash<std::string>`, about which nothing is known; the two address
families of `inet_pton` and `inet_ntop` are separate functions.
-/
structure Platform where
  hashString : String → UInt64
  inetPton4 : String → Option (Vector UInt8 4)
  inetNtop4 : Vector UInt8 4 → String
  inetPton6 : String → Option (Vector UInt8 16)
  inetNtop6 : Vector UInt8 16 → String
  /-- `pg_vhost_socket_path` of the vhost brick with this name. -/
  vhostSocketPath : String → String
  /-- `pg_tap_ifname` of the tap brick with this name. -/
  tapIfname : String → String
  pton4_ntop4 : ∀ address, inetPton4 (inetNtop4 address) = some address
  pton6_ntop6 : ∀ address, inetPton6 (inetNtop6 address) = some address
  pton6_of_pton4 : ∀ {text address},
    inetPton4 text = some address → inetPton6 text = none

/-! ## Addresses -/

inductive IpType where
  | v4
  | v6
  | none
  deriving DecidableEq, Repr

structure Ip where
  broken : Bool := false
  ip : String := ""
  type : IpType := .none
  data : Vector UInt8 16 := Vector.replicate 16 0
  deriving DecidableEq

namespace Ip

/-- The `memcpy` of an IPv4 address over the first four bytes. -/
def copy4 (data : Vector UInt8 16) (address : Vector UInt8 4) :
    Vector UInt8 16 :=
  Vector.ofFn fun i => if h : i.val < 4 then address[i.val] else data[i.val]

def set (P : Platform) (self : Ip) (a : String) : Ip :=
  match P.inetPton4 a with
  | some a4 =>
      { broken := false, ip := P.inetNtop4 a4, type := .v4,
        data := copy4 self.data a4 }
  | none =>
      match P.inetPton6 a with
      | some a6 =>
          { broken := false, ip := P.inetNtop6 a6, type := .v6, data := a6 }
      | none => { self with broken := true }

def str (self : Ip) : String := self.ip

/-- The bytes `Ip::Bytes` copies out, if it copies any. -/
def bytes (self : Ip) : Option (List UInt8) :=
  match self.type with
  | .v4 => some (self.data.toList.take 4)
  | .v6 => some self.data.toList
  | .none => none

/-- `Ip::operator==` compares the sixteen bytes and not the family. -/
def eq (self a : Ip) : Bool := decide (self.data = a.data)

@[simp] theorem eq_refl (self : Ip) : self.eq self = true := by
  simp [eq]

end Ip

/-- `std::vector<Ip>::operator==`. -/
def ipListEq (left right : List Ip) : Bool := left.isEqv right Ip.eq

@[simp] theorem ipListEq_refl (ips : List Ip) : ipListEq ips ips = true := by
  induction ips with
  | nil => rfl
  | cons ip ips ih => simpa [ipListEq, List.isEqv] using ih

/-- `std::find` over a vector of addresses. -/
def findIp (ips : List Ip) (ip : Ip) : Bool := ips.any fun known => known.eq ip

/-! ## MAC addresses -/

def hexDigit? (c : Char) : Option Nat :=
  if c.isDigit then some (c.toNat - '0'.toNat)
  else if 'a' ≤ c ∧ c ≤ 'f' then some (c.toNat - 'a'.toNat + 10)
  else if 'A' ≤ c ∧ c ≤ 'F' then some (c.toNat - 'A'.toNat + 10)
  else none

def isSpace (c : Char) : Bool :=
  c = ' ' || c = '\t' || c = '\n' || c = '\x0b' || c = '\x0c' || c = '\r'

/-- The digits of a `%x` conversion with `width` characters left. -/
def scanDigits (width : Nat) (cs : List Char) : Option (Nat × List Char) :=
  match width, cs with
  | 0, _ => none
  | _, [] => none
  | width + 1, c :: rest =>
      match hexDigit? c with
      | none => none
      | some high =>
          match width, rest with
          | _ + 1, d :: rest' =>
              if c = '0' ∧ (d = 'x' ∨ d = 'X') then some (0, rest')
              else match hexDigit? d with
                | some low => some (16 * high + low, rest')
                | none => some (high, rest)
          | _, _ => some (high, rest)

/-- One `%2x` conversion of `sscanf`: white space is free, a sign is not. -/
def scanHex2 (cs : List Char) : Option (Nat × List Char) :=
  match cs.dropWhile isSpace with
  | '-' :: rest =>
      (scanDigits 1 rest).map fun (n, rest) => ((2 ^ 32 - n) % 2 ^ 32, rest)
  | '+' :: rest => scanDigits 1 rest
  | cs => scanDigits 2 cs

/-- `sscanf` with `count` conversions `%2x` separated by literal colons. -/
def scanHexFields : Nat → List Char → Option (List Nat)
  | 0, _ => some []
  | count + 1, cs =>
      match scanHex2 cs with
      | none => none
      | some (n, rest) =>
          if count = 0 then some [n]
          else match rest with
            | ':' :: rest => (scanHexFields count rest).map (n :: ·)
            | _ => none

theorem scanHexFields_length {count : Nat} {cs : List Char} {addr : List Nat}
    (h : scanHexFields count cs = some addr) : addr.length = count := by
  induction count generalizing cs addr with
  | zero =>
      cases h
      rfl
  | succ count ih =>
      rw [scanHexFields] at h
      split at h
      · cases h
      · split at h
        · next hlast =>
            cases h
            rw [hlast]
            rfl
        · split at h
          · obtain ⟨rest, hrest, rfl⟩ := Option.map_eq_some_iff.mp h
            rw [List.length_cons, ih hrest]
          · cases h

/-- The bytes that `ValidateMac` accepts a text for. -/
def scanMac (a : String) : Option (List UInt8) :=
  if a.utf8ByteSize ≠ 17 then none
  else match scanHexFields 6 a.toList with
    | none => none
    | some addr =>
        if addr.all (· ≤ 255) then some (addr.map UInt8.ofNat) else none

structure Mac where
  mac : String := ""
  data : List UInt8 := List.replicate 6 0
  deriving DecidableEq

namespace Mac

/-- The loop of `Set` from `data_[i]` on, with what it returns. -/
def setFields (self : Mac) (i : Nat) : List Nat → Mac × Bool
  | [] => (self, true)
  | n :: addr =>
      if n > 255 then (self, false)
      else setFields { self with data := self.data.set i (UInt8.ofNat n) } (i + 1) addr

def set (self : Mac) (a : String) : Mac :=
  if a.utf8ByteSize ≠ 17 then self
  else match scanHexFields 6 a.toList with
    | none => self
    | some addr =>
        let (stored, done) := self.setFields 0 addr
        if done then { stored with mac := a } else stored

theorem setFields_eq {addr : List Nat} (h : ∀ n ∈ addr, n ≤ 255) (mac : String)
    (before after : List UInt8) (hlength : after.length = addr.length) :
    setFields ⟨mac, before ++ after⟩ before.length addr =
      (⟨mac, before ++ addr.map UInt8.ofNat⟩, true) := by
  induction addr generalizing before after with
  | nil =>
      obtain rfl := List.eq_nil_of_length_eq_zero hlength
      rfl
  | cons n addr ih =>
      obtain ⟨hn, hrest⟩ := List.forall_mem_cons.mp h
      cases after with
      | nil => cases hlength
      | cons b after =>
          have hnext := ih hrest (before ++ [UInt8.ofNat n]) after (Nat.succ.inj hlength)
          rw [List.length_append] at hnext
          rw [setFields, if_neg (Nat.not_lt.mpr hn)]
          simpa using hnext

/-- What the validator accepts is stored. -/
theorem set_of_scanMac {a : String} {bytes : List UInt8} (h : scanMac a = some bytes)
    (self : Mac) (hself : self.data.length = 6) : self.set a = { mac := a, data := bytes } := by
  unfold scanMac at h
  unfold set
  split at h
  · cases h
  next hsize =>
  rw [if_neg hsize]
  cases hscan : scanHexFields 6 a.toList with
  | none =>
      rw [hscan] at h
      cases h
  | some addr =>
      rw [hscan] at h
      simp only at h
      split at h
      · next hall =>
          cases h
          have hfields := setFields_eq (by simpa using hall) self.mac [] self.data
            (hself.trans (scanHexFields_length hscan).symm)
          simp only [List.nil_append, List.length_nil] at hfields
          simp only [hfields, if_true]
      · cases h

def str (self : Mac) : String := self.mac

end Mac

/-! ## NICs, rules and security groups -/

structure Cidr where
  address : Ip := {}
  maskSize : UInt32 := 0
  deriving DecidableEq

namespace Cidr

def str (self : Cidr) : String :=
  self.address.str ++ "/" ++ toString self.maskSize.toNat

def eq (self a : Cidr) : Bool :=
  self.address.eq a.address && decide (self.maskSize = a.maskSize)

end Cidr

inductive NicType where
  | vhostUserServer
  | tap
  | bench
  deriving DecidableEq, Repr

inductive BenchType where
  | icmpSndLike
  | icmpRcvLike
  deriving DecidableEq, Repr

/-- `btype` has no initial value in the source, hence the option. -/
structure Nic where
  id : String := ""
  mac : Mac := {}
  dmac : Mac := {}
  dip : Ip := {}
  vni : UInt32 := 0
  ipList : List Ip := []
  securityGroups : List String := []
  packetTrace : Bool := false
  packetTracePath : String := ""
  ipAntiSpoof : Bool := false
  sniffTargetNicId : String := ""
  bypassFiltering : Bool := false
  type : NicType := .vhostUserServer
  btype : Option BenchType := none
  path : String := ""
  deriving DecidableEq

inductive Direction where
  | inbound
  | outbound
  | directionNb
  deriving DecidableEq, Repr

def Direction.toNat : Direction → Nat
  | .inbound => 0
  | .outbound => 1
  | .directionNb => 2

structure Rule where
  direction : Direction := .directionNb
  protocol : Int16 := 0
  portStart : Int32 := 0
  portEnd : Int32 := 0
  cidr : Cidr := {}
  securityGroup : String := ""
  deriving DecidableEq

namespace Rule

/-- `Rule::operator==`, which leaves the group name out. -/
def eq (self a : Rule) : Bool :=
  decide (self.direction = a.direction) && decide (self.protocol = a.protocol) &&
    decide (self.portStart = a.portStart) && decide (self.portEnd = a.portEnd) &&
    self.cidr.eq a.cidr

/-- The text `std::hash<app::Rule>` hashes. -/
def hashText (a : Rule) : String :=
  toString a.direction.toNat ++ "-" ++ toString a.protocol.toInt ++ "-" ++
    toString a.portStart.toInt ++ "-" ++ toString a.portEnd.toInt ++ "-" ++
    a.cidr.str ++ "-" ++ a.securityGroup

def hash (P : Platform) (a : Rule) : UInt64 := P.hashString a.hashText

@[simp] theorem eq_refl (self : Rule) : self.eq self = true := by
  simp [eq, Cidr.eq]

end Rule

structure Sg where
  id : String := ""
  members : List Ip := []
  /-- hash(rule) -> rule -/
  rules : ExtTreeMap UInt64 Rule := ∅
  deriving DecidableEq

/-- `std::map<std::size_t, Rule>::operator==`. -/
def rulesEq (left right : ExtTreeMap UInt64 Rule) : Bool :=
  left.toList.isEqv right.toList fun l r => decide (l.1 = r.1) && l.2.eq r.2

namespace Sg

def eq (self a : Sg) : Bool :=
  decide (self.id = a.id) && ipListEq self.members a.members &&
    rulesEq self.rules a.rules

@[simp] theorem eq_refl (self : Sg) : self.eq self = true := by
  have hrules : rulesEq self.rules self.rules = true := by
    unfold rulesEq
    generalize self.rules.toList = entries
    induction entries with
    | nil => rfl
    | cons entry entries ih => simpa [List.isEqv] using ih
  simp [eq, hrules]

end Sg

structure Model where
  /-- SG id -> SG -/
  securityGroups : ExtTreeMap String Sg := ∅
  /-- NIC id -> NIC -/
  nics : ExtTreeMap String Nic := ∅
  deriving DecidableEq

end Butterfly
