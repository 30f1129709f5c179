import Butterfly.Server

/-!
# The packet graph

`graph.cc` from the side of the API thread: insertion and removal of NIC
branches, packet tracing, antispoofing and the firewall rules.  A function that
would follow a null pointer, or read past the end of a vector, returns `none`.
-/

namespace Butterfly.Graph

open Std Foundation

/-! ## Polling list -/

def graphVhostMaxSize : Nat := 50

/-- The inner loop of `update_poll`, left by `break` when the table is full. -/
def pollBranch : List GraphNic → PollList → PollList
  | [], p => p
  | n :: rest, p =>
      if p.length + 1 ≥ graphVhostMaxSize then p
      else if !n.enable then pollBranch rest p
      else pollBranch rest (p ++ [(n.vhost, n.firewall)])

def pollables (vnis : ExtTreeMap UInt32 GraphVni) : PollList :=
  (mapValues vnis).foldl (fun p vni => pollBranch (mapValues vni.nics) p) []

def updatePoll (s : Server) : Server := s.push (.updatePoll (pollables s.vnis))

/-! ## Firewall -/

def setDefaultOutboundRule (value : Bool) (n : GraphNic) : GraphNic :=
  { n with defaultOutboundRule := value }

def fwUpdate (ok : PgCall → Bool) (nic : Nic) (s : Server) : Server :=
  if !s.started then s
  else if nic.bypassFiltering then s
  else match s.findNic nic with
    | none => s
    | some gn =>
        let fw := gn.firewall
        let inText := inRules s.model.securityGroups nic
        let outText := outRules nic
        let s := s.updateNic nic (setDefaultOutboundRule true)
        let s := s.direct (.ruleFlush fw)
        if inText ≠ "" ∧ !ok (.ruleAdd fw inText .west) then s
        else
          let s := if inText ≠ "" then s.direct (.ruleAdd fw inText .west false)
            else s
          if outText ≠ "" ∧ !ok (.ruleAdd fw outText .east) then s
          else
            let s := if outText ≠ "" then s.direct (.ruleAdd fw outText .east true)
              else s
            s.push (.fwReload fw)

def ruleSide (rule : Rule) : Side :=
  if rule.direction = .outbound then .east else .west

def fwAddRule (ok : PgCall → Bool) (nic : Nic) (rule : Rule) (s : Server) :
    Server :=
  if !s.started then s
  else if nic.bypassFiltering then s
  else
    let r := fwBuildRule s.model.securityGroups rule
    if r = "" then s
    else match s.findNic nic with
      | none => s
      | some gn =>
          let fw := gn.firewall
          let s := if rule.direction = .outbound ∧ gn.defaultOutboundRule then
              (s.direct (.ruleFlushSide fw .east)).updateNic nic
                (setDefaultOutboundRule false)
            else s
          if !ok (.ruleAdd fw r (ruleSide rule)) then s
          else (s.direct (.ruleAdd fw r (ruleSide rule) false)).push (.fwReload fw)

/-! ## NIC insertion -/

def openVni (vni : UInt32) (s : Server) : Server :=
  { s with vnis := s.vnis.insertIfNew vni { vni := vni } }

def vhostCall (nic : Nic) : PgCall :=
  match nic.type with
  | .vhostUserServer => .vhostNew ("vhost-" ++ nic.id)
  | .tap => .tapNew nic.id
  | .bench =>
      if nic.btype = some .icmpSndLike then .rxtxNew ("bench-snd-" ++ nic.id)
      else .rxtxNew ("bench-rcv-" ++ nic.id)

def benchSnd (nic : Nic) (ip : Ip) : Option BenchSnd :=
  if nic.type = .bench ∧ nic.btype = some .icmpSndLike then
    some { dmac := nic.dmac.data, smac := nic.mac.data
           ipdest := nic.dip.bytes, ipsrc := ip.bytes }
  else none

def benchRcv (nic : Nic) (ip : Ip) : Option BenchRcv :=
  if nic.type = .bench ∧ nic.btype ≠ some .icmpSndLike then
    some { smac := nic.mac.data, ipsrc := ip.bytes }
  else none

def arpAddAll (P : Platform) (ok : PgCall → Bool) (b : Brick) (ips : List Ip)
    (s : Server) : Server :=
  ips.foldl (fun s ip =>
    if ok (.arpAdd b ip) then s.direct (.arpAdd b (P.inetPton4 ip.str)) else s) s

def setupAntispoof (P : Platform) (ok : PgCall → Bool) (nic : Nic) (b : Brick)
    (s : Server) : Server :=
  if nic.ipAntiSpoof then
    (arpAddAll P ok b nic.ipList s).direct (.arpEnable b)
  else s

def openTrace (nic : Nic) (sniffer : Brick) (s : Server) : Server :=
  if nic.packetTrace then s.direct (.printNew sniffer nic.packetTracePath) else s

def linkAndStalk (ok : PgCall → Bool) (west east : Brick)
    (sniffer : Option Brick) (s : Server) : Server :=
  if s.config.packetTrace then
    -- A null sniffer ends the variadic list: nothing is linked.
    match sniffer with
    | none => s
    | some sniffer =>
        if ok (.chainedLinks west sniffer east) then
          (s.direct (.link west sniffer)).direct (.link sniffer east)
        else s
  else if ok (.brickLink west east) then s.direct (.link west east)
  else s

/-- The local `gn` once its bricks exist and its head is set. -/
def newBranch (nic : Nic) (serial : Nat) : GraphNic :=
  { id := nic.id
    head := if !nic.bypassFiltering then ⟨.firewall, serial⟩
      else if nic.packetTrace then ⟨.sniffer, serial⟩ else ⟨.vhost, serial⟩
    firewall := ⟨.firewall, serial⟩
    antispoof := ⟨.antispoof, serial⟩
    vhost := ⟨.vhost, serial⟩
    sniffer := if nic.packetTrace then some ⟨.sniffer, serial⟩ else none
    bsnd := benchSnd nic (nic.ipList.headD {})
    brcv := benchRcv nic (nic.ipList.headD {}) }

/--
Create the bricks of a branch and link them.  On failure the bricks held by the
local `gn` are destroyed, except the firewall, whose pointer has an empty
deleter.
-/
def createBranch (P : Platform) (ok : PgCall → Bool) (nic : Nic) (s : Server) :
    Option (Option GraphNic × Server) :=
  let serial := s.nextSerial
  let firewall : Brick := ⟨.firewall, serial⟩
  let antispoof : Brick := ⟨.antispoof, serial⟩
  let vhost : Brick := ⟨.vhost, serial⟩
  let sniffer : Brick := ⟨.sniffer, serial⟩
  let s := s.takeSerial
  let fwName := "firewall-" ++ nic.id
  let s := (s.push (.fwNew fwName
    (if ok (.firewallNew fwName) then some firewall else none))).waitEmptyQueue
  if !ok (.firewallNew fwName) then some (none, s)
  else if !ok (.antispoofNew ("antispoof-" ++ nic.id)) then some (none, s)
  else
    let s := setupAntispoof P ok nic antispoof s
    if nic.type = .bench ∧ nic.ipList = [] then none
    else if !ok (vhostCall nic) then some (none, s.release [antispoof])
    else if nic.packetTrace ∧
        !ok (.printNew ("sniffer-" ++ nic.id) nic.packetTracePath) then
      some (none, s.release [vhost, antispoof])
    else
      let s := openTrace nic sniffer s
      let gn := newBranch nic serial
      if nic.bypassFiltering then
        if nic.packetTrace then
          if !ok (.brickLink sniffer vhost) then
            some (none, s.release [vhost, antispoof, sniffer])
          else some (some gn, s.direct (.link sniffer vhost))
        else some (some gn, s)
      else if !ok (.brickLink firewall antispoof) then
        some (none, s.release (gn.sniffer.toList ++ [vhost, antispoof]))
      else
        some (some gn, linkAndStalk ok antispoof vhost gn.sniffer
          (s.direct (.link firewall antispoof)))

/-- The bricks that go with the last copy of a branch, in order. -/
def branchBricks (gn : GraphNic) : List Brick :=
  (gn.sniffer.toList ++ [gn.vhost, gn.antispoof]).filter (· ≠ gn.head) ++
    if gn.head = gn.firewall then [] else [gn.head]

/-- `vni.sw = BrickShrPtr(...)`; the former switch loses its last pointer. -/
def setSwitch (vni : UInt32) (sw : Option Brick) (s : Server) : Server :=
  match s.vnis[vni]? with
  | none => s
  | some v =>
      (s.release v.sw.toList).updateVni vni fun v => { v with sw := sw }

def linkBranch (ok : PgCall → Bool) (nic : Nic) (gn : GraphNic) (s : Server) :
    Option (Bool × Server) := do
  let vni ← s.vnis[nic.vni]?
  if vni.nics.size = 0 then
    some (true, (s.push (.link vtepBrick gn.head)).push
      (.addVni vtepBrick gn.head nic.vni))
  else if vni.nics.size = 1 then
    let name := "switch-" ++ toString nic.vni.toNat
    let sw : Brick := ⟨.switch, s.nextSerial⟩
    let s := s.takeSerial
    if !ok (.switchNew name) then some (false, setSwitch nic.vni none s)
    else
      let s := setSwitch nic.vni (some sw) s
      let head1 ← (mapValues vni.nics).head?.map GraphNic.head
      if !ok (.unlinkEdge vtepBrick head1) then some (false, s)
      else
        some (true, ((((s.direct (.unlinkEdge vtepBrick head1)).push
          (.link vtepBrick sw)).push (.addVni vtepBrick sw nic.vni)).push
          (.link sw head1)).push (.link sw gn.head))
  else
    let sw ← vni.sw
    some (true, s.push (.link sw gn.head))

def nicPath (P : Platform) (nic : Nic) : String :=
  match nic.type with
  | .vhostUserServer => P.vhostSocketPath ("vhost-" ++ nic.id)
  | .tap => P.tapIfname nic.id
  | .bench => "(nil)"

/-- `none` in the first place is the `false` of the source. -/
def nicAdd (P : Platform) (ok : PgCall → Bool) (nic : Nic) (s : Server) :
    Option (Option Nic × Server) := do
  if !s.started then some (none, s)
  else
    let (branch, s) ← createBranch P ok nic (openVni nic.vni s)
    match branch with
    | none => some (none, s)
    | some gn =>
        let (linked, s) ← linkBranch ok nic gn s
        if !linked then some (none, s.release (branchBricks gn))
        else
          let known := (s.findNic nic).isSome
          let s := s.updateVni nic.vni fun vni =>
            { vni with nics := vni.nics.insertIfNew nic.id gn }
          let s := fwUpdate ok nic (updatePoll s)
          -- `insert` keeps a branch that is there; the new one goes with `gn`.
          let s := if known then s.release (branchBricks gn) else s
          some (some { nic with path := nicPath P nic }, s)

/-! ## NIC removal -/

/-- The branch of a two-NIC VNI that is not the one named. -/
def otherBranch (vni : GraphVni) (id : String) : Option GraphNic :=
  match mapValues vni.nics with
  | [] => none
  | first :: rest => if first.id = id then rest.head? else some first

def unlinkBranch (nic : Nic) (vni : GraphVni) (n : GraphNic) (s : Server) :
    Option Server := do
  if vni.nics.size = 1 then some (s.push (.unlink n.head))
  else if vni.nics.size = 2 then
    let other ← otherBranch vni nic.id
    let sw ← vni.sw
    some (setSwitch nic.vni none
      (((s.push (.unlink sw)).push (.link vtepBrick other.head)).push
        (.addVni vtepBrick other.head nic.vni)).waitEmptyQueue)
  else some (s.push (.unlink n.head))

/-- `vni.nics.erase` and, for the last NIC, `vnis_.erase`. -/
def eraseBranch (nic : Nic) (s : Server) : Server :=
  match s.vnis[nic.vni]? with
  | none => s
  | some vni =>
      let s := s.release ((vni.nics[nic.id]?.map branchBricks).getD [])
      let nics := vni.nics.erase nic.id
      if nics.isEmpty then (s.release vni.sw.toList).eraseVni vni.vni
      else s.updateVni nic.vni fun vni => { vni with nics := nics }

def disable (n : GraphNic) : GraphNic := { n with enable := false }

def nicDel (nic : Nic) (s : Server) : Option Server := do
  if !s.started then some s
  else match s.vnis[nic.vni]? with
    | none => some s
    | some vni =>
        match vni.nics[nic.id]? with
        | none => some s
        | some n =>
            let s := updatePoll (s.updateNic nic disable)
            let s ← unlinkBranch nic vni n s
            some (eraseBranch nic (s.push (.brickDestroy n.firewall)).waitEmptyQueue)

/-! ## Statistics and antispoofing -/

def nicGetStats (ambient : Ambient) (nic : Nic) (s : Server) : UInt64 × UInt64 :=
  match s.findNic nic with
  | none => (0, 0)
  | some gn => (ambient.rxBytes gn.vhost, ambient.txBytes gn.vhost)

def nicConfigAntiSpoof (P : Platform) (ok : PgCall → Bool) (nic : Nic)
    (enable : Bool) (s : Server) : Server :=
  match s.findNic nic with
  | none => s
  | some gn =>
      if enable then
        (arpAddAll P ok gn.antispoof nic.ipList
          (s.direct (.arpDelAll gn.antispoof))).direct (.arpEnable gn.antispoof)
      else s.direct (.arpDisable gn.antispoof)

/-! ## Packet tracing -/

/-- `g_nic->head = head`.  A head that no other member holds is destroyed. -/
def setHead (nic : Nic) (gNic : GraphNic) (head : Brick) (s : Server) : Server :=
  let held := [gNic.firewall, gNic.antispoof, gNic.vhost, head] ++
    gNic.sniffer.toList
  (s.release (if gNic.head ∈ held then [] else [gNic.head])).updateNic nic
    fun n => { n with head := head }

def linkSniffer (nic : Nic) (nSniffer : Brick) (s : Server) : Option Server := do
  let gNic ← s.findNic nic
  if nic.bypassFiltering then
    let s := setHead nic gNic nSniffer (s.push (.unlink gNic.vhost))
    some (((s.push (.link nSniffer gNic.vhost)).push
      (.link vtepBrick nSniffer)).push (.addVni vtepBrick nSniffer nic.vni))
  else
    let s := setHead nic gNic nSniffer
      (s.push (.unlinkEdge gNic.antispoof gNic.vhost))
    some ((s.push (.link gNic.antispoof nSniffer)).push
      (.link nSniffer gNic.vhost))

def enablePacketTrace (ok : PgCall → Bool) (nic : Nic) (s : Server) :
    Option Server := do
  if nic.packetTrace then some s
  else
    let gNic ← s.findNic nic
    match gNic.sniffer with
    | some sniffer => linkSniffer nic sniffer s
    | none =>
        if !ok (.printNew ("sniffer-" ++ gNic.id) nic.packetTracePath) then some s
        else
          let sniffer : Brick := ⟨.sniffer, s.nextSerial⟩
          let s := s.takeSerial
          linkSniffer nic sniffer
            ((s.direct (.printNew sniffer nic.packetTracePath)).updateNic nic
              fun n => { n with sniffer := some sniffer })

def disablePacketTrace (nic : Nic) (s : Server) : Option Server := do
  if !nic.packetTrace then some s
  else
    let gNic ← s.findNic nic
    match gNic.sniffer with
    | none => some s
    | some sniffer =>
        let s := s.push (.unlink sniffer)
        if nic.bypassFiltering then
          let s := setHead nic gNic gNic.vhost s
          some ((s.push (.link vtepBrick gNic.vhost)).push
            (.addVni vtepBrick gNic.vhost nic.vni))
        else
          let s := setHead nic gNic gNic.antispoof s
          some (s.push (.link gNic.antispoof gNic.vhost))

def nicConfigPacketTrace (ok : PgCall → Bool) (nic : Nic) (isTraceSet : Bool)
    (s : Server) : Option Server := do
  let s ← if isTraceSet then enablePacketTrace ok nic s
    else disablePacketTrace nic s
  some (updatePoll s)

/-- The new sniffer is kept alive by `head` alone. -/
def nicConfigPacketTracePath (ok : PgCall → Bool) (nic : Nic)
    (updatePath : String) (s : Server) : Option Server := do
  if nic.packetTracePath = updatePath then some s
  else
    let s ← disablePacketTrace nic s
    let gNic ← s.findNic nic
    if !ok (.printNew ("sniffer-" ++ gNic.id) updatePath) then some s
    else
      let nSniffer : Brick := ⟨.sniffer, s.nextSerial⟩
      let s := s.takeSerial
      let s ← linkSniffer nic nSniffer (s.direct (.printNew nSniffer updatePath))
      some (updatePoll s)

end Butterfly.Graph
