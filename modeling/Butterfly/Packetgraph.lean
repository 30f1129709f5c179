import Butterfly.Foundation.CommandQueue
import Butterfly.Model

/-!
# Packetgraph as the server sees it

Bricks, the edges between them, the rules of firewall bricks and the ARP tables
of antispoof bricks.  `Rpc` is the command queue of `graph.h`; `Direct` lists
the packetgraph calls the API thread makes itself.  A call that fails changes
nothing, so only the successful ones occur here.
-/

namespace Butterfly

open Foundation

inductive BrickKind where
  | nic
  | mainSniffer
  | vtep
  | switch
  | firewall
  | antispoof
  | vhost
  | sniffer
  deriving DecidableEq, Repr

/-- The address of a `struct pg_brick`.  No two creations share a serial. -/
structure Brick where
  kind : BrickKind
  serial : Nat
  deriving DecidableEq, Repr

/-- An edge and the VNIs a vtep at its west end has recorded on it. -/
structure Edge where
  west : Brick
  east : Brick
  vnis : List UInt32 := []
  deriving DecidableEq

inductive Side where
  | west
  | east
  deriving DecidableEq, Repr

/-! ## Commands and calls -/

/-- `pollables` and `firewalls` of `RpcUpdatePoll`, index by index. -/
abbrev PollList := List (Brick × Brick)

inductive Rpc where
  | exit
  | vhostStart
  | vhostStop
  | link (w e : Brick)
  | unlink (b : Brick)
  | unlinkEdge (w e : Brick)
  | addVni (vtep neighbor : Brick) (vni : UInt32)
  | updatePoll (list : PollList)
  | fwReload (firewall : Brick)
  /-- `result` is what the command writes through its pointer. -/
  | fwNew (name : String) (result : Option Brick)
  | nothing
  | brickDestroy (b : Brick)
  deriving DecidableEq

def Rpc.refs : Rpc → List Brick
  | .link w e | .unlinkEdge w e => [w, e]
  | .addVni vtep neighbor _ => [vtep, neighbor]
  | .unlink b | .fwReload b | .brickDestroy b => [b]
  | .updatePoll list => list.flatMap fun entry => [entry.1, entry.2]
  | .exit | .vhostStart | .vhostStop | .fwNew _ _ | .nothing => []

inductive Direct where
  | link (w e : Brick)
  | unlinkEdge (w e : Brick)
  | destroy (b : Brick)
  | printNew (b : Brick) (path : String)
  /-- An address that `inet_pton` did not write is unspecified. -/
  | arpAdd (b : Brick) (ip : Option (Vector UInt8 4))
  | arpDelAll (b : Brick)
  | arpEnable (b : Brick)
  | arpDisable (b : Brick)
  | ruleFlush (b : Brick)
  | ruleFlushSide (b : Brick) (side : Side)
  | ruleAdd (b : Brick) (filter : String) (side : Side) (stateful : Bool)
  deriving DecidableEq

/-! ## The brick graph -/

structure BrickGraph where
  edges : List Edge := []
  /-- Bricks given to `pg_brick_destroy`. -/
  dead : List Brick := []
  /-- The list the poller holds. -/
  poll : PollList := []
  deriving DecidableEq

namespace BrickGraph

def link (w e : Brick) (g : BrickGraph) : BrickGraph :=
  { g with edges := g.edges ++ [{ west := w, east := e }] }

/-- `pg_brick_unlink`: all edges of the brick go, with their VNI entries. -/
def unlink (b : Brick) (g : BrickGraph) : BrickGraph :=
  { g with edges := g.edges.filter fun edge => edge.west ≠ b ∧ edge.east ≠ b }

def unlinkEdge (w e : Brick) (g : BrickGraph) : BrickGraph :=
  { g with edges := g.edges.eraseP fun edge => edge.west = w ∧ edge.east = e }

def addVni (vtep neighbor : Brick) (vni : UInt32) (g : BrickGraph) :
    BrickGraph :=
  { g with edges := g.edges.map fun edge =>
      if edge.west = vtep ∧ edge.east = neighbor then
        { edge with vnis := edge.vnis ++ [vni] }
      else edge }

def destroy (b : Brick) (g : BrickGraph) : BrickGraph :=
  { g.unlink b with dead := b :: g.dead }

def exec : Rpc → BrickGraph → BrickGraph
  | .link w e, g => g.link w e
  | .unlink b, g => g.unlink b
  | .unlinkEdge w e, g => g.unlinkEdge w e
  | .addVni vtep neighbor vni, g => g.addVni vtep neighbor vni
  | .updatePoll list, g => { g with poll := list }
  | .brickDestroy b, g => g.destroy b
  | .exit, g | .vhostStart, g | .vhostStop, g | .fwReload _, g
  | .fwNew _ _, g | .nothing, g => g

def act : Direct → BrickGraph → BrickGraph
  | .link w e, g => g.link w e
  | .unlinkEdge w e, g => g.unlinkEdge w e
  | .destroy b, g => g.destroy b
  | .printNew _ _, g
  | .arpAdd _ _, g | .arpDelAll _, g | .arpEnable _, g | .arpDisable _, g
  | .ruleFlush _, g | .ruleFlushSide _ _, g | .ruleAdd _ _ _ _, g => g

def machine : Machine BrickGraph Rpc Direct where
  exec := exec
  act := act
  idle := .nothing
  exec_idle _ := rfl

end BrickGraph

/-! ## Firewalls -/

structure FwRule where
  filter : String
  stateful : Bool
  deriving DecidableEq

abbrev FwRules := Side → List FwRule

/--
Rules are added to a staged set by the API thread; `pg_firewall_reload`, in the
poller, makes the staged set the one packets are checked against.
-/
structure Firewalls where
  staged : Brick → FwRules := fun _ _ => []
  loaded : Brick → FwRules := fun _ _ => []

namespace Firewalls

def stage (b : Brick) (rules : FwRules) (f : Firewalls) : Firewalls :=
  { f with staged := Function.update f.staged b rules }

def exec : Rpc → Firewalls → Firewalls
  | .fwReload b, f => { f with loaded := Function.update f.loaded b (f.staged b) }
  | _, f => f

def act : Direct → Firewalls → Firewalls
  | .ruleFlush b, f => f.stage b fun _ => []
  | .ruleFlushSide b side, f => f.stage b (Function.update (f.staged b) side [])
  | .ruleAdd b filter side stateful, f =>
      f.stage b (Function.update (f.staged b) side
        (f.staged b side ++ [⟨filter, stateful⟩]))
  | _, f => f

end Firewalls

/-! ## ARP antispoofing -/

structure ArpTable where
  enabled : Bool := false
  allowed : List (Option (Vector UInt8 4)) := []
  deriving DecidableEq

abbrev Antispoofs := Brick → ArpTable

namespace Antispoofs

def act : Direct → Antispoofs → Antispoofs
  | .arpAdd b ip, t =>
      Function.update t b { t b with allowed := (t b).allowed ++ [ip] }
  | .arpDelAll b, t => Function.update t b { t b with allowed := [] }
  | .arpEnable b, t => Function.update t b { t b with enabled := true }
  | .arpDisable b, t => Function.update t b { t b with enabled := false }
  | _, t => t

end Antispoofs

/-! ## All of it -/

/-- `files` has the file each sniffer writes to. -/
structure Packetgraph where
  graph : BrickGraph := {}
  firewalls : Firewalls := {}
  antispoofs : Antispoofs := fun _ => {}
  files : Brick → Option String := fun _ => none

namespace Packetgraph

def machine : Machine Packetgraph Rpc Direct where
  exec c s :=
    { s with graph := BrickGraph.exec c s.graph
             firewalls := Firewalls.exec c s.firewalls }
  act d s :=
    { graph := BrickGraph.act d s.graph
      firewalls := Firewalls.act d s.firewalls
      antispoofs := Antispoofs.act d s.antispoofs
      files := match d with
        | .printNew b path => Function.update s.files b (some path)
        | _ => s.files }
  idle := .nothing
  exec_idle _ := rfl

end Packetgraph

end Butterfly
