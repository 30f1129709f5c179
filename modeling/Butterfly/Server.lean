import Butterfly.Convert
import Butterfly.Filter
import Butterfly.Packetgraph

/-!
# The state of the API thread

`app::model`, the `vnis_` of `Graph` and the log of what the thread does to
packetgraph.  The thread never reads back what the poller writes: the outcome of
a call is part of `Ambient`, and every access to the queue or to a brick is
appended to `ops`.  `CommandQueue` says what such a list of operations does next
to the poller.
-/

namespace Butterfly

open Std Foundation

/-- The calls whose failure the API thread reacts to. -/
inductive PgCall where
  | firewallNew (name : String)
  | antispoofNew (name : String)
  | arpAdd (b : Brick) (ip : Ip)
  | vhostNew (name : String)
  | tapNew (name : String)
  | rxtxNew (name : String)
  | printNew (name path : String)
  | brickLink (w e : Brick)
  | chainedLinks (w m e : Brick)
  | switchNew (name : String)
  | unlinkEdge (w e : Brick)
  | ruleAdd (b : Brick) (filter : String) (side : Side)
  deriving DecidableEq

/-- What the outside world decides while one request is handled. -/
structure Ambient where
  ok : PgCall → Bool := fun _ => true
  garbage : Api0.Garbage := {}
  rxBytes : Brick → UInt64 := fun _ => 0
  txBytes : Brick → UInt64 := fun _ => 0
  time : UInt64 := 0
  dot : String := ""

structure BenchSnd where
  dmac : List UInt8
  smac : List UInt8
  ipdest : Option (List UInt8)
  ipsrc : Option (List UInt8)
  deriving DecidableEq

structure BenchRcv where
  smac : List UInt8
  ipsrc : Option (List UInt8)
  deriving DecidableEq

/-- A VM branch.  `head` is the first brick of the branch. -/
structure GraphNic where
  id : String
  head : Brick
  firewall : Brick
  antispoof : Brick
  vhost : Brick
  sniffer : Option Brick := none
  defaultOutboundRule : Bool := false
  enable : Bool := true
  brcv : Option BenchRcv := none
  bsnd : Option BenchSnd := none
  deriving DecidableEq

structure GraphVni where
  vni : UInt32
  sw : Option Brick := none
  /-- nic id -> nic branch -/
  nics : ExtTreeMap String GraphNic := ∅
  deriving DecidableEq

structure AppConfig where
  packetTrace : Bool := false
  encryptionKey : List UInt8 := []
  deriving DecidableEq

structure Server where
  config : AppConfig := {}
  pid : Nat := 0
  startDate : UInt64 := 0
  requestCounter : UInt64 := 0
  requestExit : Bool := false
  logLevel : String := "error"
  /-- The thread-local `api_0_error`. -/
  api0Error : String := ""
  model : Model := {}
  started : Bool := false
  /-- vni -> vni branch -/
  vnis : ExtTreeMap UInt32 GraphVni := ∅
  nextSerial : Nat := 0
  ops : List (Op Rpc Direct) := []
  deriving DecidableEq

/-- The bricks `Graph::Start` creates. -/
def nicBrick : Brick := ⟨.nic, 0⟩
def mainSniffer : Brick := ⟨.mainSniffer, 0⟩
def vtepBrick : Brick := ⟨.vtep, 0⟩

namespace Server

/-! ## Packetgraph and the queue -/

def emit (op : Op Rpc Direct) (s : Server) : Server :=
  { s with ops := s.ops ++ [op] }

def push (a : Rpc) (s : Server) : Server := s.emit (.push a)

def direct (d : Direct) (s : Server) : Server := s.emit (.direct d)

def waitEmptyQueue (s : Server) : Server := (s.push .nothing).emit .wait

/-- `pg_brick_destroy` of each brick whose last pointer goes away. -/
def release (bricks : List Brick) (s : Server) : Server :=
  bricks.foldl (fun s b => s.direct (.destroy b)) s

/-- Serials name the bricks of one creation apart from all others. -/
def takeSerial (s : Server) : Server := { s with nextSerial := s.nextSerial + 1 }

/-! ## The two stores -/

def modifyModel (f : Model → Model) (s : Server) : Server :=
  { s with model := f s.model }

def updateVni (vni : UInt32) (f : GraphVni → GraphVni) (s : Server) : Server :=
  { s with vnis := s.vnis.modify vni f }

def eraseVni (vni : UInt32) (s : Server) : Server :=
  { s with vnis := s.vnis.erase vni }

def updateNic (nic : Nic) (f : GraphNic → GraphNic) (s : Server) : Server :=
  s.updateVni nic.vni fun vni => { vni with nics := vni.nics.modify nic.id f }

def findNic (nic : Nic) (s : Server) : Option GraphNic := do
  let vni ← s.vnis[nic.vni]?
  vni.nics[nic.id]?

/-! ## Start -/

/-- The state after a successful `Graph::Start`. -/
def start (config : AppConfig) (pid : Nat) (startDate : UInt64) : Server :=
  ({ config := config, pid := pid, startDate := startDate, started := true
     nextSerial := 1 } : Server).push .vhostStart

section Start

variable (config : AppConfig) (pid : Nat) (startDate : UInt64)

@[simp] theorem start_vnis (v : UInt32) : (start config pid startDate).vnis[v]? = none :=
  ExtTreeMap.getElem?_empty

@[simp] theorem start_nics (id : String) : (start config pid startDate).model.nics[id]? = none :=
  ExtTreeMap.getElem?_empty

@[simp] theorem start_securityGroups (id : String) :
    (start config pid startDate).model.securityGroups[id]? = none :=
  ExtTreeMap.getElem?_empty

end Start

/--
The bricks `Graph::Start` leaves to the poller.  They are linked before the
poller thread exists.
-/
def startGraph (s : Server) : Packetgraph :=
  if s.config.packetTrace then
    { graph := { edges :=
        [{ west := nicBrick, east := mainSniffer },
         { west := mainSniffer, east := vtepBrick }] }
      files := Function.update (fun _ => none) mainSniffer
        (some ("/tmp/butterfly-" ++ toString s.pid ++ "-main.pcap")) }
  else { graph := { edges := [{ west := nicBrick, east := vtepBrick }] } }

/-- Packetgraph once the poller has executed everything the server asked for. -/
def settled (s : Server) : Packetgraph :=
  Packetgraph.machine.sync s.ops s.startGraph

/-! ## Operations on packetgraph as appended lists -/

/-- Append to the log.  Proofs bring every operation to this form. -/
def emits (ops : List (Op Rpc Direct)) (s : Server) : Server :=
  { s with ops := s.ops ++ ops }

section Emits

variable (s : Server) (ops more : List (Op Rpc Direct))

@[simp] theorem emits_nil : s.emits [] = s := by simp [emits]

@[simp] theorem emits_emits : (s.emits ops).emits more = s.emits (ops ++ more) := by
  simp [emits]

@[simp] theorem emit_eq (op : Op Rpc Direct) : s.emit op = s.emits [op] := rfl

@[simp] theorem push_eq (a : Rpc) : s.push a = s.emits [.push a] := rfl

@[simp] theorem direct_eq (d : Direct) : s.direct d = s.emits [.direct d] := rfl

@[simp] theorem waitEmptyQueue_eq :
    s.waitEmptyQueue = s.emits [.push .nothing, .wait] := by
  simp [waitEmptyQueue]

@[simp] theorem release_eq (bricks : List Brick) :
    s.release bricks = s.emits (bricks.map fun b => .direct (.destroy b)) := by
  induction bricks generalizing s with
  | nil => simp [release]
  | cons b bricks ih =>
      rw [release, List.foldl_cons, ← release, ih]
      simp

@[simp] theorem emits_config : (s.emits ops).config = s.config := rfl

@[simp] theorem emits_pid : (s.emits ops).pid = s.pid := rfl

@[simp] theorem emits_model : (s.emits ops).model = s.model := rfl

@[simp] theorem emits_started : (s.emits ops).started = s.started := rfl

@[simp] theorem emits_vnis : (s.emits ops).vnis = s.vnis := rfl

@[simp] theorem emits_nextSerial : (s.emits ops).nextSerial = s.nextSerial := rfl

@[simp] theorem emits_ops : (s.emits ops).ops = s.ops ++ ops := rfl

@[simp] theorem emits_api0Error : (s.emits ops).api0Error = s.api0Error := rfl

@[simp] theorem emits_findNic (nic : Nic) :
    (s.emits ops).findNic nic = s.findNic nic := rfl

@[simp] theorem emits_updateVni (vni : UInt32) (f : GraphVni → GraphVni) :
    (s.emits ops).updateVni vni f = (s.updateVni vni f).emits ops := rfl

@[simp] theorem emits_eraseVni (vni : UInt32) :
    (s.emits ops).eraseVni vni = (s.eraseVni vni).emits ops := rfl

@[simp] theorem emits_updateNic (nic : Nic) (f : GraphNic → GraphNic) :
    (s.emits ops).updateNic nic f = (s.updateNic nic f).emits ops := rfl

@[simp] theorem emits_modifyModel (f : Model → Model) :
    (s.emits ops).modifyModel f = (s.modifyModel f).emits ops := rfl

@[simp] theorem emits_takeSerial :
    (s.emits ops).takeSerial = s.takeSerial.emits ops := rfl

@[simp] theorem emits_startGraph : (s.emits ops).startGraph = s.startGraph := rfl

end Emits

/-! ## What an update of one branch leaves alone -/

section Updates

variable (s : Server) (vni : UInt32) (f : GraphVni → GraphVni) (nic : Nic)
  (g : GraphNic → GraphNic) (h : Model → Model)

@[simp] theorem updateVni_config : (s.updateVni vni f).config = s.config := rfl

@[simp] theorem updateVni_pid : (s.updateVni vni f).pid = s.pid := rfl

@[simp] theorem updateVni_model : (s.updateVni vni f).model = s.model := rfl

@[simp] theorem updateVni_started : (s.updateVni vni f).started = s.started := rfl

@[simp] theorem updateVni_nextSerial :
    (s.updateVni vni f).nextSerial = s.nextSerial := rfl

@[simp] theorem updateVni_ops : (s.updateVni vni f).ops = s.ops := rfl

@[simp] theorem updateVni_api0Error :
    (s.updateVni vni f).api0Error = s.api0Error := rfl

@[simp] theorem updateNic_config : (s.updateNic nic g).config = s.config := rfl

@[simp] theorem updateNic_pid : (s.updateNic nic g).pid = s.pid := rfl

@[simp] theorem updateNic_model : (s.updateNic nic g).model = s.model := rfl

@[simp] theorem updateNic_started : (s.updateNic nic g).started = s.started := rfl

@[simp] theorem updateNic_nextSerial :
    (s.updateNic nic g).nextSerial = s.nextSerial := rfl

@[simp] theorem updateNic_ops : (s.updateNic nic g).ops = s.ops := rfl

@[simp] theorem updateNic_api0Error :
    (s.updateNic nic g).api0Error = s.api0Error := rfl

@[simp] theorem takeSerial_config : s.takeSerial.config = s.config := rfl

@[simp] theorem takeSerial_pid : s.takeSerial.pid = s.pid := rfl

@[simp] theorem takeSerial_model : s.takeSerial.model = s.model := rfl

@[simp] theorem takeSerial_started : s.takeSerial.started = s.started := rfl

@[simp] theorem takeSerial_vnis : s.takeSerial.vnis = s.vnis := rfl

@[simp] theorem takeSerial_nextSerial :
    s.takeSerial.nextSerial = s.nextSerial + 1 := rfl

@[simp] theorem takeSerial_ops : s.takeSerial.ops = s.ops := rfl

@[simp] theorem takeSerial_api0Error : s.takeSerial.api0Error = s.api0Error := rfl

@[simp] theorem takeSerial_findNic : s.takeSerial.findNic nic = s.findNic nic := rfl

@[simp] theorem modifyModel_config : (s.modifyModel h).config = s.config := rfl

@[simp] theorem modifyModel_pid : (s.modifyModel h).pid = s.pid := rfl

@[simp] theorem modifyModel_model : (s.modifyModel h).model = h s.model := rfl

@[simp] theorem modifyModel_started : (s.modifyModel h).started = s.started := rfl

@[simp] theorem modifyModel_vnis : (s.modifyModel h).vnis = s.vnis := rfl

@[simp] theorem modifyModel_nextSerial :
    (s.modifyModel h).nextSerial = s.nextSerial := rfl

@[simp] theorem modifyModel_ops : (s.modifyModel h).ops = s.ops := rfl

@[simp] theorem modifyModel_api0Error :
    (s.modifyModel h).api0Error = s.api0Error := rfl

@[simp] theorem modifyModel_findNic :
    (s.modifyModel h).findNic nic = s.findNic nic := rfl

theorem updateVni_updateVni (f' : GraphVni → GraphVni) :
    (s.updateVni vni f).updateVni vni f' = s.updateVni vni fun v => f' (f v) := by
  simp only [updateVni, modify_modify]

theorem updateNic_eraseVni :
    (s.updateNic nic g).eraseVni nic.vni = s.eraseVni nic.vni := by
  simp only [updateNic, updateVni, eraseVni, modify_erase]

theorem updateNic_updateVni :
    (s.updateNic nic g).updateVni nic.vni f =
      s.updateVni nic.vni fun v => f { v with nics := v.nics.modify nic.id g } := by
  simp only [updateNic, updateVni_updateVni]

end Updates

theorem updateVni_congr {s : Server} {v : UInt32} {f g : GraphVni → GraphVni}
    (h : ∀ vni, s.vnis[v]? = some vni → f vni = g vni) :
    s.updateVni v f = s.updateVni v g := by
  have hvnis : s.vnis.modify v f = s.vnis.modify v g := by
    apply ExtTreeMap.ext_getElem?
    intro a
    simp only [lookup_modify]
    cases hv : s.vnis[v]? with
    | none => rfl
    | some vni => simp [h vni hv]
  simp only [updateVni, hvnis]

def branch (v : UInt32) (id : String) (s : Server) : Option GraphNic :=
  s.vnis[v]?.bind fun vni => vni.nics[id]?

@[simp] theorem start_branch (config : AppConfig) (pid : Nat) (startDate : UInt64) (v : UInt32)
    (id : String) : (start config pid startDate).branch v id = none := by
  rw [branch, start_vnis]
  rfl

theorem findNic_eq (nic : Nic) (s : Server) :
    s.findNic nic = s.branch nic.vni nic.id := rfl

theorem branch_eq_some {s : Server} {v : UInt32} {id : String} {gn : GraphNic} :
    s.branch v id = some gn ↔
      ∃ vni, s.vnis[v]? = some vni ∧ vni.nics[id]? = some gn := by
  simp [branch, Option.bind_eq_some_iff]

@[simp] theorem emits_branch (s : Server) (ops : List (Op Rpc Direct))
    (v : UInt32) (id : String) : (s.emits ops).branch v id = s.branch v id := rfl

@[simp] theorem takeSerial_branch (s : Server) (v : UInt32) (id : String) :
    s.takeSerial.branch v id = s.branch v id := rfl

@[simp] theorem modifyModel_branch (s : Server) (h : Model → Model)
    (v : UInt32) (id : String) :
    (s.modifyModel h).branch v id = s.branch v id := rfl

theorem branch_updateNic (s : Server) (nic : Nic) (g : GraphNic → GraphNic)
    (v : UInt32) (id : String) :
    (s.updateNic nic g).branch v id =
      if nic.vni = v ∧ nic.id = id then (s.branch v id).map g
      else s.branch v id := by
  simp only [branch, updateNic, updateVni, lookup_modify]
  by_cases hv : nic.vni = v
  · subst hv
    cases s.vnis[nic.vni]? with
    | none => simp
    | some vni =>
        simp only [if_true, Option.map_some, Option.bind_some, lookup_modify,
          true_and]
        by_cases hid : nic.id = id
        · subst hid
          simp
        · simp [hid]
  · simp [hv]

end Server

end Butterfly
