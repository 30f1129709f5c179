import Butterfly.Detachment

/-!
# What the poller polls

`update_poll` fills a table of fixed size and hands it to the poller.  Below its
capacity the table has every NIC of the graph; above it the NICs that come last
in the order of VNIs and ids are left out, and `NicAdd` succeeds all the same.
-/

namespace Butterfly

open Std Foundation Butterfly.Graph

/-! ## The table -/

def GraphNic.slot (n : GraphNic) : Brick × Brick := (n.vhost, n.firewall)

theorem take_take_append {α : Type} (n : Nat) (l r : List α) :
    (l.take n ++ r).take n = (l ++ r).take n := by
  have hlength : n - min n l.length = n - l.length := by omega
  simp [List.take_append, hlength]

theorem pollBranch_eq (nics : List GraphNic) {p : PollList}
    (hp : p.length < graphVhostMaxSize) :
    pollBranch nics p =
      (p ++ (nics.filter GraphNic.enable).map GraphNic.slot).take
        (graphVhostMaxSize - 1) := by
  induction nics generalizing p with
  | nil =>
      rw [List.filter_nil, List.map_nil, List.append_nil, List.take_of_length_le (by omega)]
      rfl
  | cons n nics ih =>
      rw [pollBranch]
      split
      · next hfull =>
          rw [List.take_append_of_le_length (by omega), List.take_of_length_le (by omega)]
      · next hroom =>
          cases henable : n.enable with
          | false => simpa [henable] using ih hp
          | true =>
              have hnext := ih (p := p ++ [(n.vhost, n.firewall)]) (by
                rw [List.length_append, List.length_singleton]
                omega)
              simpa [henable, GraphNic.slot] using hnext

theorem pollables_eq (vnis : ExtTreeMap UInt32 GraphVni) :
    pollables vnis =
      ((((nested GraphVni.nics vnis).map Prod.snd).filter GraphNic.enable).map
        GraphNic.slot).take (graphVhostMaxSize - 1) := by
  have hfold : ∀ (entries : List GraphVni) (p : PollList), p.length < graphVhostMaxSize →
      entries.foldl (fun p vni => pollBranch (mapValues vni.nics) p) p =
        (p ++ ((entries.flatMap fun vni => mapValues vni.nics).filter
          GraphNic.enable).map GraphNic.slot).take (graphVhostMaxSize - 1) := by
    intro entries
    induction entries with
    | nil =>
        intro p hp
        simp [List.take_of_length_le (Nat.le_sub_one_of_lt hp)]
    | cons vni entries ih =>
        intro p hp
        rw [List.foldl_cons, pollBranch_eq _ hp, ih _ (by
          rw [List.length_take]
          have : graphVhostMaxSize = 50 := rfl
          omega), take_take_append]
        simp
  rw [pollables, hfold _ [] (by decide), List.nil_append, values_nested]

theorem pollables_length (vnis : ExtTreeMap UInt32 GraphVni) :
    (pollables vnis).length < graphVhostMaxSize := by
  rw [pollables_eq, List.length_take]
  have : graphVhostMaxSize = 50 := rfl
  omega

def Enabled (s : Server) (v : UInt32) (id : String) (slot : Brick × Brick) : Prop :=
  ∃ gn, s.branch v id = some gn ∧ gn.enable = true ∧ gn.slot = slot

theorem pollables_congr {s s' : Server}
    (h : ∀ v id slot, Enabled s v id slot ↔ Enabled s' v id slot) :
    pollables s.vnis = pollables s'.vnis := by
  have hkeyed : ∀ vnis : ExtTreeMap UInt32 GraphVni,
      (((nested GraphVni.nics vnis).map Prod.snd).filter GraphNic.enable).map
          GraphNic.slot =
        (((nested GraphVni.nics vnis).filter fun e => e.2.enable).map
          fun e => (e.1, e.2.slot)).map Prod.snd := by
    intro vnis
    simp [List.filter_map, Function.comp_def]
  have hordered : ∀ vnis : ExtTreeMap UInt32 GraphVni,
      (((nested GraphVni.nics vnis).filter fun e => e.2.enable).map
        fun e => (e.1, e.2.slot)).Pairwise fun a b => Precedes a.1 b.1 := by
    intro vnis
    rw [List.pairwise_map]
    exact (nested_ordered GraphVni.nics vnis).filter _
  have hmem : ∀ (s : Server) (e : (UInt32 × String) × Brick × Brick),
      e ∈ ((nested GraphVni.nics s.vnis).filter fun e => e.2.enable).map
        (fun e => (e.1, e.2.slot)) ↔ Enabled s e.1.1 e.1.2 e.2 := by
    rintro s ⟨⟨v, id⟩, slot⟩
    simp only [List.mem_map, List.mem_filter, Prod.exists, Prod.mk.injEq, mem_nested]
    constructor
    · rintro ⟨v', id', gn, ⟨⟨vni, hvni, hgn⟩, henable⟩, ⟨rfl, rfl⟩, hslot⟩
      exact ⟨gn, Server.branch_eq_some.mpr ⟨vni, hvni, hgn⟩, henable, hslot⟩
    · rintro ⟨gn, hgn, henable, hslot⟩
      obtain ⟨vni, hvni, hgn⟩ := Server.branch_eq_some.mp hgn
      exact ⟨v, id, gn, ⟨⟨vni, hvni, hgn⟩, henable⟩, ⟨rfl, rfl⟩, hslot⟩
  rw [pollables_eq, pollables_eq, hkeyed, hkeyed,
    eq_of_precedes (hordered s.vnis) (hordered s'.vnis) fun e => by
      rw [hmem, hmem, h]]

/-! ## The table the poller ends with -/

namespace PollList

def exec : Rpc → PollList → PollList
  | .updatePoll list, _ => list
  | _, p => p

def machine : Machine PollList Rpc Direct where
  exec := exec
  act _ p := p
  idle := .nothing
  exec_idle _ := rfl

end PollList

theorem projects_poll :
    Packetgraph.machine.Projects PollList.machine fun pg => pg.graph.poll := by
  refine ⟨fun c pg => ?_, fun d pg => ?_⟩
  · cases c <;> rfl
  · cases d <;> rfl

def Server.lastPoll (s : Server) : PollList := PollList.machine.sync s.ops []

def handover : Discipline PollList.machine where
  free _ := True
  inv _ := True
  pre _ _ := True
  safe _ _ := True
  free_comm _ := rfl
  free_inv _ _ := trivial
  free_pre _ _ := trivial
  free_safe _ := trivial
  pre_of_exec _ := trivial
  pre_idle _ := trivial

theorem startGraph_poll (s : Server) : s.startGraph.graph.poll = [] := by
  unfold Server.startGraph
  split <;> rfl

theorem Drained.poll {s : Server} {pg : Packetgraph} (h : Drained s pg) :
    pg.graph.poll = s.lastPoll := by
  obtain ⟨c, hc, htodo, hpending, rfl⟩ := h
  have hreach := projects_poll.reachable hc
  rw [show (Machine.start s.ops s.startGraph).map (fun pg => pg.graph.poll) =
    Machine.start s.ops s.startGraph.graph.poll from rfl, startGraph_poll] at hreach
  have hsettle := handover.settle_of_reachable trivial
    (handover.checked_of_free (fun _ => trivial) (fun _ _ => trivial)
      fun _ _ => trivial) hreach htodo
  have hsame : (c.map fun pg => pg.graph.poll).pending = [] := hpending
  rw [Machine.settle, hsame] at hsettle
  exact hsettle

def NoPoll (op : Op Rpc Direct) : Prop := ∀ list, op ≠ .push (.updatePoll list)

theorem sync_noPoll {ops : List (Op Rpc Direct)} (h : ∀ op ∈ ops, NoPoll op)
    (p : PollList) : PollList.machine.sync ops p = p := by
  induction ops generalizing p with
  | nil => rfl
  | cons op ops ih =>
      have hop : PollList.machine.syncOp p op = p := by
        have hno := h op List.mem_cons_self
        cases op with
        | push c =>
            cases c with
            | updatePoll list => exact absurd rfl (hno list)
            | _ => rfl
        | wait => rfl
        | direct d => rfl
      rw [Machine.sync_cons, hop]
      exact ih (fun op hop => h op (List.mem_cons_of_mem _ hop)) p

/-! ## The invariant -/

/-- Every branch is enabled, and the last table was made from the branches there are. -/
structure Listed (s : Server) : Prop where
  started : s.started = true
  keyed : KeyedVnis s
  enabled : ∀ {v id gn}, s.branch v id = some gn → gn.enable = true
  serial : ∀ {v id gn}, s.branch v id = some gn → gn.vhost.serial < s.nextSerial
  distinct : ∀ {v id gn v' id' gn'}, s.branch v id = some gn →
    s.branch v' id' = some gn' → gn.vhost = gn'.vhost → v = v' ∧ id = id'
  last : s.lastPoll = pollables s.vnis
  bounded : ∀ list, .push (.updatePoll list) ∈ s.ops → list.length < graphVhostMaxSize

theorem listed_start (config : AppConfig) (pid : Nat) (startDate : UInt64) :
    Listed (Server.start config pid startDate) := by
  constructor
  · rfl
  · intro v vni hvni
    simp at hvni
  · intro v id gn hgn
    simp at hgn
  · intro v id gn hgn
    simp at hgn
  · intro v id gn v' id' gn' hgn
    simp at hgn
  · have hempty : mapValues (Server.start config pid startDate).vnis = [] :=
      mapValues_empty
    rw [pollables, hempty]
    rfl
  · intro list hlist
    have hops : (Server.start config pid startDate).ops = [.push .vhostStart] := rfl
    rw [hops] at hlist
    simp at hlist

structure Quiet (s s' : Server) : Prop where
  started : s'.started = s.started
  serial : s.nextSerial ≤ s'.nextSerial
  keyed : KeyedVnis s → KeyedVnis s'
  branch : ∀ v id,
    (s'.branch v id).map GraphNic.kin = (s.branch v id).map GraphNic.kin
  appends : Appends NoPoll s s'

theorem slot_of_kin {gn gn' : GraphNic} (h : gn'.kin = gn.kin) :
    gn'.enable = gn.enable ∧ gn'.slot = gn.slot := by
  have henable := congrArg GraphNic.enable h
  have hslot := congrArg GraphNic.slot h
  exact ⟨henable, hslot⟩

theorem Quiet.back {s s' : Server} (h : Quiet s s') {v : UInt32} {id : String}
    {gn' : GraphNic} (hgn' : s'.branch v id = some gn') :
    ∃ gn, s.branch v id = some gn ∧ gn'.enable = gn.enable ∧ gn'.slot = gn.slot := by
  have hbranch := h.branch v id
  rw [hgn', Option.map_some] at hbranch
  obtain ⟨gn, hgn, hkin⟩ := Option.map_eq_some_iff.mp hbranch.symm
  exact ⟨gn, hgn, slot_of_kin hkin.symm⟩

theorem Quiet.enabled {s s' : Server} (h : Quiet s s') (v : UInt32) (id : String)
    (slot : Brick × Brick) : Enabled s v id slot ↔ Enabled s' v id slot := by
  constructor
  · rintro ⟨gn, hgn, henable, hslot⟩
    have hbranch := h.branch v id
    rw [hgn, Option.map_some] at hbranch
    obtain ⟨gn', hgn', hkin⟩ := Option.map_eq_some_iff.mp hbranch
    obtain ⟨henable', hslot'⟩ := slot_of_kin hkin
    exact ⟨gn', hgn', henable'.trans henable, hslot'.trans hslot⟩
  · rintro ⟨gn', hgn', henable, hslot⟩
    obtain ⟨gn, hgn, henable', hslot'⟩ := h.back hgn'
    exact ⟨gn, hgn, henable'.symm.trans henable, hslot'.symm.trans hslot⟩

theorem Server.lastPoll_appends {s s' : Server} (h : Appends NoPoll s s') :
    s'.lastPoll = s.lastPoll := by
  obtain ⟨ops, hops, hno⟩ := h
  rw [Server.lastPoll, hops, Machine.sync_append, sync_noPoll hno]
  rfl

theorem Listed.quiet {s s' : Server} (h : Listed s) (hq : Quiet s s') : Listed s' := by
  constructor
  · exact hq.started.trans h.started
  · exact hq.keyed h.keyed
  · intro v id gn' hgn'
    obtain ⟨gn, hgn, henable, -⟩ := hq.back hgn'
    exact henable.trans (h.enabled hgn)
  · intro v id gn' hgn'
    obtain ⟨gn, hgn, -, hslot⟩ := hq.back hgn'
    have hvhost : gn'.vhost = gn.vhost := congrArg Prod.fst hslot
    rw [hvhost]
    exact Nat.lt_of_lt_of_le (h.serial hgn) hq.serial
  · intro v id gn v' id' gn' hgn hgn' heq
    obtain ⟨a, ha, -, haslot⟩ := hq.back hgn
    obtain ⟨b, hb, -, hbslot⟩ := hq.back hgn'
    have havhost : gn.vhost = a.vhost := congrArg Prod.fst haslot
    have hbvhost : gn'.vhost = b.vhost := congrArg Prod.fst hbslot
    exact h.distinct ha hb (by rw [← havhost, ← hbvhost, heq])
  · rw [Server.lastPoll_appends hq.appends, h.last]
    exact pollables_congr hq.enabled
  · intro list hlist
    obtain ⟨ops, hops, hno⟩ := hq.appends
    rw [hops] at hlist
    rcases List.mem_append.mp hlist with hold | hnew
    · exact h.bounded list hold
    · exact absurd rfl (hno _ hnew list)

theorem Tuned.quiet {s s' : Server} (h : Tuned NoPoll s s') : Quiet s s' := by
  refine ⟨h.frame.started, h.serial, fun hkeyed v vni' hvni' => ?_, h.branch, h.appends⟩
  have hvni := h.vni v
  rw [hvni', Option.map_some] at hvni
  obtain ⟨vni, hlookup, hkin⟩ := Option.map_eq_some_iff.mp hvni.symm
  have hsame := congrArg GraphVni.vni hkin
  change vni.vni = vni'.vni at hsame
  rw [← hsame]
  exact hkeyed v vni hlookup

theorem quiet_of_entry {v : UInt32} {s s' : Server} {entry : GraphVni}
    (hframe : Frame s s') (hserial : s.nextSerial ≤ s'.nextSerial)
    (hvnis : ∀ a : UInt32, s'.vnis[a]? = if v = a then some entry else s.vnis[a]?)
    (hkey : entry.vni = (vniEntry v s).vni) (hnics : entry.nics = (vniEntry v s).nics)
    (happends : Appends NoPoll s s') : Quiet s s' := by
  refine ⟨hframe.started, hserial, fun hkeyed a vni hvni => ?_, fun a id => ?_, happends⟩
  · rw [hvnis a] at hvni
    split at hvni
    · next ha =>
        cases hvni
        subst ha
        rw [hkey, vniEntry]
        cases hold : s.vnis[v]? with
        | none => rfl
        | some old => simpa using hkeyed _ _ hold
    · exact hkeyed a vni hvni
  · congr 1
    rw [Server.branch, hvnis a]
    split
    · next ha =>
        subst ha
        rw [Option.bind_some, hnics, vniEntry_lookup]
    · rfl

/-! ## Adding and deleting NICs -/

theorem noPoll_direct (d : Direct) : NoPoll (.direct d) := by
  intro list heq
  cases heq

theorem noPoll_calm {op : Op Rpc Direct} (h : CalmOp op) : NoPoll op := by
  cases h <;> exact noPoll_direct _

theorem noPoll_scrap {serial : Nat} {op : Op Rpc Direct} (h : ScrapOp serial op) :
    NoPoll op := by
  cases h with
  | calm hcalm => exact noPoll_calm hcalm
  | destroy _ => exact noPoll_direct _

theorem noPoll_destroyOps (bricks : List Brick) : ∀ op ∈ destroyOps bricks, NoPoll op := by
  intro op hop
  obtain ⟨b, -, rfl⟩ := List.mem_map.mp hop
  exact noPoll_direct _

theorem noPoll_fwNewOps (ok : PgCall → Bool) (nic : Nic) (serial : Nat) :
    ∀ op ∈ fwNewOps ok nic serial, NoPoll op := by
  simp [fwNewOps, NoPoll]

theorem noPoll_destroyFirewallOps (n : GraphNic) :
    ∀ op ∈ destroyFirewallOps n, NoPoll op := by
  simp [destroyFirewallOps, NoPoll]

theorem noPoll_of_firewallOp {op : Op Rpc Direct} (h : ∃ b, FirewallOp b op) :
    NoPoll op := by
  obtain ⟨b, hb⟩ := h
  intro list heq
  subst heq
  cases hb

theorem Graph.Created.noPoll {ok : PgCall → Bool} {nic : Nic} {s s₁ : Server}
    (h : Created ok nic (openVni nic.vni s) s₁) : Appends NoPoll s s₁ := by
  obtain ⟨-, -, ops, hcalm, rfl⟩ := h
  refine ⟨_, rfl, ?_⟩
  refine List.forall_mem_append.mpr ⟨List.forall_mem_append.mpr
    ⟨noPoll_fwNewOps _ _ _, fun op hop => noPoll_calm (hcalm op hop)⟩, fun op hop => ?_⟩
  obtain ⟨link, -, rfl⟩ := List.mem_map.mp hop
  exact noPoll_direct _

structure Held (nic : Nic) (s s₂ : Server) : Prop where
  quiet : Quiet s s₂
  serial : s.nextSerial < s₂.nextSerial
  entry : ∃ vni, s₂.vnis[nic.vni]? = some vni

theorem Graph.Created.held {ok : PgCall → Bool} {nic : Nic} {s s₁ : Server}
    (h : Created ok nic (openVni nic.vni s) s₁) {ops : List (Op Rpc Direct)}
    (hops : ∀ op ∈ ops, NoPoll op) : Held nic s (s₁.emits ops) := by
  obtain ⟨hframe, -, hserial, hvnis⟩ := Created.effect h
  refine ⟨?_, hserial, _, h.lookup⟩
  exact quiet_of_entry ⟨hframe.config, hframe.pid, hframe.started, hframe.api0Error⟩
    (Nat.le_of_lt hserial) hvnis rfl rfl (h.noPoll.trans ⟨ops, rfl, hops⟩)

theorem Graph.Created.held_switch {ok : PgCall → Bool} {nic : Nic} {s s₁ : Server}
    (h : Created ok nic (openVni nic.vni s) s₁) (sw : Option Brick)
    {ops : List (Op Rpc Direct)} (hops : ∀ op ∈ ops, NoPoll op) :
    Held nic s ((s₁.takeSerial.updateVni nic.vni (withSwitch sw)).emits ops) := by
  obtain ⟨hframe, -, hserial, hvnis⟩ := Created.effect h
  have hlookup : s₁.takeSerial.vnis[nic.vni]? = some (vniEntry nic.vni s) := h.lookup
  have hafter : ∀ a : UInt32,
      ((s₁.takeSerial.updateVni nic.vni (withSwitch sw)).emits ops).vnis[a]? =
        if nic.vni = a then some (withSwitch sw (vniEntry nic.vni s))
        else s.vnis[a]? := by
    intro a
    rw [Server.emits_vnis, lookup_updateVni _ hlookup, Server.takeSerial_vnis, hvnis a]
    split <;> rfl
  refine ⟨?_, Nat.lt_succ_of_lt hserial, _, by rw [hafter, if_pos rfl]⟩
  exact quiet_of_entry ⟨hframe.config, hframe.pid, hframe.started, hframe.api0Error⟩
    (Nat.le_succ_of_le (Nat.le_of_lt hserial)) hafter rfl rfl
    (h.noPoll.trans ⟨ops, rfl, hops⟩)

theorem Graph.NicAdded.quiet {ok : PgCall → Bool} {nic : Nic} {s s' : Server}
    {accepted : Bool} (h : NicAdded ok nic s accepted s') :
    (accepted = false ∧ Quiet s s') ∨
    (accepted = true ∧ ∃ s₂, Held nic s s₂ ∧
      s' = keepBranch ok nic (newBranch nic s.nextSerial) s₂) := by
  cases h with
  | abandoned h =>
      obtain ⟨-, ops, hscrap, rfl⟩ := h
      have hquiet : ∀ ops : List (Op Rpc Direct), (∀ op ∈ ops, NoPoll op) →
          Quiet s ((openVni nic.vni s).takeSerial.emits ops) := fun ops hops =>
        quiet_of_entry ⟨rfl, rfl, rfl, rfl⟩ (Nat.le_succ _)
          (fun a => lookup_openVni nic.vni a s) rfl rfl ⟨ops, rfl, hops⟩
      exact .inl ⟨rfl, hquiet _ (List.forall_mem_append.mpr ⟨noPoll_fwNewOps _ _ _,
        fun op hop => noPoll_scrap (hscrap op hop)⟩)⟩
  | first hcreated _ =>
      exact .inr ⟨rfl, _, hcreated.held (by simp [NoPoll]), rfl⟩
  | noSwitch hcreated _ _ =>
      exact .inl ⟨rfl, (hcreated.held_switch none
        (List.forall_mem_append.mpr ⟨noPoll_destroyOps _, noPoll_destroyOps _⟩)).quiet⟩
  | stuck hcreated _ _ _ _ =>
      exact .inl ⟨rfl, (hcreated.held_switch (some ⟨.switch, s.nextSerial + 1⟩)
        (List.forall_mem_append.mpr ⟨noPoll_destroyOps _, noPoll_destroyOps _⟩)).quiet⟩
  | second hcreated _ _ _ _ =>
      exact .inr ⟨rfl, _, hcreated.held_switch (some ⟨.switch, s.nextSerial + 1⟩)
        (List.forall_mem_append.mpr ⟨noPoll_destroyOps _, by simp [NoPoll]⟩), rfl⟩
  | further hcreated _ _ =>
      exact .inr ⟨rfl, _, hcreated.held (by simp [NoPoll]), rfl⟩

theorem Listed.insert {s : Server} (h : Listed s) {v : UInt32} {vni : GraphVni}
    (hvni : s.vnis[v]? = some vni) (id : String) {gn : GraphNic} (henable : gn.enable = true)
    (hserial : gn.vhost.serial < s.nextSerial)
    (hfresh : ∀ {a id' gn'}, s.branch a id' = some gn' → gn'.vhost ≠ gn.vhost) :
    Listed (updatePoll (s.updateVni v (withBranch id gn))) := by
  have hbranch := branch_withBranch hvni id gn
  have hcases : ∀ {a id' gn'}, (s.updateVni v (withBranch id gn)).branch a id' = some gn' →
      s.branch a id' = some gn' ∨ (v = a ∧ id = id' ∧ gn' = gn) := by
    intro a id' gn' hgn'
    rw [hbranch] at hgn'
    split at hgn'
    · next hsame =>
        obtain ⟨rfl, rfl⟩ := hsame
        cases hold : s.branch v id with
        | none =>
            rw [hold] at hgn'
            cases hgn'
            exact .inr ⟨rfl, rfl, rfl⟩
        | some old =>
            rw [hold] at hgn'
            exact .inl hgn'
    · exact .inl hgn'
  constructor
  · exact h.started
  · exact h.keyed.updateVni fun _ => rfl
  · intro a id' gn' hgn'
    rcases hcases hgn' with hold | ⟨-, -, rfl⟩
    · exact h.enabled hold
    · exact henable
  · intro a id' gn' hgn'
    rcases hcases hgn' with hold | ⟨-, -, rfl⟩
    · exact h.serial hold
    · exact hserial
  · intro a i gn₁ a' i' gn₂ hgn₁ hgn₂ heq
    rcases hcases hgn₁ with hold₁ | ⟨rfl, rfl, rfl⟩ <;>
      rcases hcases hgn₂ with hold₂ | ⟨rfl, rfl, rfl⟩
    · exact h.distinct hold₁ hold₂ heq
    · exact absurd heq (hfresh hold₁)
    · exact absurd heq.symm (hfresh hold₂)
    · exact ⟨rfl, rfl⟩
  · rw [updatePoll, Server.push_eq, Server.lastPoll, Server.emits_ops, Machine.sync_append]
    rfl
  · intro list hlist
    rw [updatePoll, Server.push_eq, Server.emits_ops] at hlist
    rcases List.mem_append.mp hlist with hold | hnew
    · exact h.bounded list hold
    · obtain heq := List.mem_singleton.mp hnew
      cases heq
      exact pollables_length _

theorem Listed.keep {ok : PgCall → Bool} {nic : Nic} {s s₂ : Server} (h : Listed s)
    (hheld : Held nic s s₂) :
    Listed (keepBranch ok nic (newBranch nic s.nextSerial) s₂) ∧
      ∀ v id, ((keepBranch ok nic (newBranch nic s.nextSerial) s₂).branch v id).isSome ↔
        (v, id) = (nic.vni, nic.id) ∨ (s.branch v id).isSome := by
  obtain ⟨vni, hvni⟩ := hheld.entry
  have hfresh : ∀ {a id' gn'}, s₂.branch a id' = some gn' →
      gn'.vhost ≠ (newBranch nic s.nextSerial).vhost := by
    intro a id' gn' hgn' heq
    obtain ⟨gn, hgn, -, hslot⟩ := hheld.quiet.back hgn'
    have hvhost : gn'.vhost = gn.vhost := congrArg Prod.fst hslot
    have hlt := h.serial hgn
    rw [← hvhost, heq] at hlt
    exact Nat.lt_irrefl _ hlt
  have henable : (newBranch nic s.nextSerial).enable = true := rfl
  have hinserted := (h.quiet hheld.quiet).insert hvni nic.id henable hheld.serial hfresh
  have hupdate := (fwUpdate_tuned ok nic (updatePoll
    (s₂.updateVni nic.vni (withBranch nic.id (newBranch nic s.nextSerial))))).mono
      fun op hop => noPoll_of_firewallOp hop
  have htuned : Tuned NoPoll (updatePoll
      (s₂.updateVni nic.vni (withBranch nic.id (newBranch nic s.nextSerial))))
      (keepBranch ok nic (newBranch nic s.nextSerial) s₂) := by
    rw [keepBranch]
    split
    · rw [Server.release_eq]
      exact hupdate.trans (.emits (noPoll_destroyOps _))
    · exact hupdate
  refine ⟨hinserted.quiet htuned.quiet, fun v id => ?_⟩
  have hsame : (s₂.branch v id).isSome = (s.branch v id).isSome := by
    have hmap := congrArg Option.isSome (hheld.quiet.branch v id)
    simpa using hmap
  rw [htuned.branch_isSome v id]
  change ((s₂.updateVni nic.vni (withBranch nic.id
    (newBranch nic s.nextSerial))).branch v id).isSome ↔ _
  rw [branch_withBranch hvni, ← hsame, Prod.mk.injEq]
  by_cases hkey : nic.vni = v ∧ nic.id = id
  · simp [hkey]
  · have hne : ¬(v = nic.vni ∧ id = nic.id) := by
      rintro ⟨rfl, rfl⟩
      exact hkey ⟨rfl, rfl⟩
    simp [hkey, hne]

theorem Graph.NicDeleted.ops {nic : Nic} {s s' : Server} (h : NicDeleted nic s s')
    (hbranch : s.branch nic.vni nic.id ≠ none) :
    ∃ ops, s'.ops = s.ops ++ .push (.updatePoll (pollWithout nic s)) :: ops ∧
      ∀ op ∈ ops, NoPoll op := by
  cases h with
  | absent hnone => exact absurd hnone hbranch
  | @last vni n =>
      refine ⟨_, rfl, List.forall_mem_cons.mpr ⟨by simp [NoPoll], ?_⟩⟩
      exact List.forall_mem_append.mpr ⟨List.forall_mem_append.mpr
        ⟨noPoll_destroyFirewallOps _, noPoll_destroyOps _⟩, noPoll_destroyOps _⟩
  | @ofTwo vni n other sw =>
      refine ⟨[.push (.unlink sw), .push (.link vtepBrick other.head),
        .push (.addVni vtepBrick other.head nic.vni), .push .nothing, .wait,
        .direct (.destroy sw)] ++ (destroyFirewallOps n ++ destroyOps (branchBricks n)),
        rfl, List.forall_mem_append.mpr ⟨by simp [NoPoll], ?_⟩⟩
      exact List.forall_mem_append.mpr ⟨noPoll_destroyFirewallOps _, noPoll_destroyOps _⟩
  | @ofMany vni n =>
      refine ⟨_, rfl, List.forall_mem_cons.mpr ⟨by simp [NoPoll], ?_⟩⟩
      exact List.forall_mem_append.mpr ⟨noPoll_destroyFirewallOps _, noPoll_destroyOps _⟩

theorem pollWithout_eq {nic : Nic} {s s' : Server}
    (h : ∀ v id, s'.branch v id =
      if nic.vni = v ∧ nic.id = id then none else s.branch v id) :
    pollWithout nic s = pollables s'.vnis := by
  refine pollables_congr fun v id slot => ?_
  unfold Enabled
  rw [h, Server.branch_updateNic]
  split
  · constructor
    · rintro ⟨gn, hgn, henable, -⟩
      obtain ⟨old, -, rfl⟩ := Option.map_eq_some_iff.mp hgn
      simp [disable] at henable
    · rintro ⟨gn, hgn, -⟩
      cases hgn
  · exact Iff.rfl

theorem Listed.deleted {nic : Nic} {s s' : Server} (h : Listed s)
    (hdel : NicDeleted nic s s') : Listed s' := by
  by_cases hnone : s.branch nic.vni nic.id = none
  · cases hdel with
    | absent _ => exact h
    | last hvni hn =>
        rw [Server.branch_eq_some.mpr ⟨_, hvni, hn⟩] at hnone
        cases hnone
    | ofTwo hvni hn =>
        rw [Server.branch_eq_some.mpr ⟨_, hvni, hn⟩] at hnone
        cases hnone
    | ofMany hvni hn =>
        rw [Server.branch_eq_some.mpr ⟨_, hvni, hn⟩] at hnone
        cases hnone
  obtain ⟨ops, hops, hno⟩ := hdel.ops hnone
  have heffect := hdel.effect
  have hback : ∀ {v id gn}, s'.branch v id = some gn → s.branch v id = some gn := by
    intro v id gn hgn
    rw [heffect.branch] at hgn
    split at hgn
    · cases hgn
    · exact hgn
  constructor
  · exact heffect.frame.started.trans h.started
  · intro v vni' hvni'
    obtain ⟨vni, hvni, hsame, -⟩ := heffect.entries hvni'
    rw [hsame]
    exact h.keyed v vni hvni
  · exact fun hgn => h.enabled (hback hgn)
  · intro v id gn hgn
    rw [heffect.serial]
    exact h.serial (hback hgn)
  · exact fun hgn hgn' => h.distinct (hback hgn) (hback hgn')
  · rw [Server.lastPoll, hops, Machine.sync_append, Machine.sync_cons, sync_noPoll hno,
      ← pollWithout_eq heffect.branch]
    rfl
  · intro list hlist
    rw [hops] at hlist
    rcases List.mem_append.mp hlist with hold | hnew
    · exact h.bounded list hold
    rcases List.mem_cons.mp hnew with heq | hnew
    · cases heq
      exact pollables_length _
    · exact absurd rfl (hno _ hnew list)

/-! ## Runs -/

/--
Any calls of `NicAdd` and `NicDel`, packetgraph failing or not, with the NICs
whose `NicAdd` has returned true and that have not been deleted since.  The
model may change in between.
-/
inductive Calls (P : Platform) : Set (UInt32 × String) → Server → Prop
  | start (config : AppConfig) (pid : Nat) (startDate : UInt64) :
      Calls P ∅ (Server.start config pid startDate)
  | model {live s} (f : Model → Model) : Calls P live s → Calls P live (s.modifyModel f)
  | refused {live s s' ok nic} : Calls P live s →
      Graph.nicAdd P ok nic s = some (none, s') → Calls P live s'
  | accepted {live s s' ok nic nic'} : Calls P live s →
      Graph.nicAdd P ok nic s = some (some nic', s') →
      Calls P (insert (nic.vni, nic.id) live) s'
  | del {live s s' nic} : Calls P live s → Graph.nicDel nic s = some s' →
      Calls P (live \ {(nic.vni, nic.id)}) s'

theorem listed_of_calls {P : Platform} {live : Set (UInt32 × String)} {s : Server}
    (h : Calls P live s) :
    Listed s ∧ ∀ v id, (s.branch v id).isSome ↔ (v, id) ∈ live := by
  induction h with
  | start config pid startDate =>
      refine ⟨listed_start config pid startDate, fun v id => ?_⟩
      simp
  | model f _ ih =>
      obtain ⟨hlisted, hlive⟩ := ih
      exact ⟨⟨hlisted.started, hlisted.keyed, hlisted.enabled, hlisted.serial,
        hlisted.distinct, hlisted.last, hlisted.bounded⟩, hlive⟩
  | refused _ hadd ih =>
      obtain ⟨hlisted, hlive⟩ := ih
      rcases nicAdd_cases hlisted.started hadd with ⟨-, hadded⟩ | ⟨heq, -⟩
      · rcases hadded.quiet with ⟨-, hquiet⟩ | ⟨hfalse, -⟩
        · refine ⟨hlisted.quiet hquiet, fun v id => ?_⟩
          have hsame := congrArg Option.isSome (hquiet.branch v id)
          rw [Option.isSome_map, Option.isSome_map] at hsame
          rw [hsame]
          exact hlive v id
        · cases hfalse
      · cases heq
  | accepted _ hadd ih =>
      obtain ⟨hlisted, hlive⟩ := ih
      rcases nicAdd_cases hlisted.started hadd with ⟨heq, -⟩ | ⟨-, hadded⟩
      · cases heq
      · rcases hadded.quiet with ⟨hfalse, -⟩ | ⟨-, s₂, hheld, rfl⟩
        · cases hfalse
        · obtain ⟨hkept, hbranch⟩ := hlisted.keep hheld
          refine ⟨hkept, fun v id => ?_⟩
          rw [hbranch, hlive, Set.mem_insert_iff]
  | @del live s s' nic _ hdel ih =>
      obtain ⟨hlisted, hlive⟩ := ih
      have hdeleted := nicDel_cases hlisted.started hlisted.keyed hdel
      refine ⟨hlisted.deleted hdeleted, fun v id => ?_⟩
      rw [hdeleted.effect.branch, Set.mem_sdiff, Set.mem_singleton_iff, Prod.mk.injEq,
        ← hlive]
      by_cases hkey : nic.vni = v ∧ nic.id = id
      · simp [hkey]
      · have hne : ¬(v = nic.vni ∧ id = nic.id) := by
          rintro ⟨rfl, rfl⟩
          exact hkey ⟨rfl, rfl⟩
        simp [hkey, hne]

/-! ## Who is polled -/

def Server.nicCount (s : Server) : Nat :=
  ((mapValues s.vnis).map fun vni => vni.nics.size).sum

structure Polled (live : Set (UInt32 × String)) (s : Server) (pg : Packetgraph) :
    Prop where
  once : ∀ {v id gn}, (v, id) ∈ live → s.branch v id = some gn →
    (pg.graph.poll.map Prod.fst).count gn.vhost = 1
  beside : ∀ {v id gn}, (v, id) ∈ live → s.branch v id = some gn →
    (gn.vhost, gn.firewall) ∈ pg.graph.poll
  only : ∀ slot ∈ pg.graph.poll, ∃ v id gn, (v, id) ∈ live ∧
    s.branch v id = some gn ∧ slot = (gn.vhost, gn.firewall)
  bounded : ∀ list, .push (.updatePoll list) ∈ s.ops → list.length ≤ graphVhostMaxSize

def Server.slots (s : Server) : PollList :=
  (nested GraphVni.nics s.vnis).map fun e => e.2.slot

theorem Server.length_slots (s : Server) : s.slots.length = s.nicCount := by
  rw [slots, List.length_map, length_nested]
  rfl

theorem Server.mem_slots {s : Server} {slot : Brick × Brick} :
    slot ∈ s.slots ↔ ∃ v id gn, s.branch v id = some gn ∧ slot = gn.slot := by
  simp only [slots, List.mem_map, Prod.exists, mem_nested]
  constructor
  · rintro ⟨v, id, gn, ⟨vni, hvni, hgn⟩, rfl⟩
    exact ⟨v, id, gn, Server.branch_eq_some.mpr ⟨vni, hvni, hgn⟩, rfl⟩
  · rintro ⟨v, id, gn, hgn, rfl⟩
    obtain ⟨vni, hvni, hgn⟩ := Server.branch_eq_some.mp hgn
    exact ⟨v, id, gn, ⟨vni, hvni, hgn⟩, rfl⟩

namespace Listed

variable {s : Server}

theorem lastPoll_eq (h : Listed s) :
    s.lastPoll = s.slots.take (graphVhostMaxSize - 1) := by
  rw [h.last, pollables_eq, List.filter_eq_self.mpr, List.map_map]
  · rfl
  · intro gn hgn
    obtain ⟨⟨⟨v, id⟩, _⟩, hmem, rfl⟩ := List.mem_map.mp hgn
    obtain ⟨vni, hvni, hgn⟩ := (mem_nested _ _).mp hmem
    exact h.enabled (Server.branch_eq_some.mpr ⟨vni, hvni, hgn⟩)

theorem nodup_vhosts (h : Listed s) : (s.slots.map Prod.fst).Nodup := by
  rw [Server.slots, List.map_map, List.Nodup, List.pairwise_map]
  refine (nested_ordered GraphVni.nics s.vnis).imp_of_mem ?_
  rintro ⟨⟨v, id⟩, gn⟩ ⟨⟨v', id'⟩, gn'⟩ hmem hmem' hlt heq
  obtain ⟨vni, hvni, hgn⟩ := (mem_nested _ _).mp hmem
  obtain ⟨vni', hvni', hgn'⟩ := (mem_nested _ _).mp hmem'
  obtain ⟨rfl, rfl⟩ := h.distinct (Server.branch_eq_some.mpr ⟨vni, hvni, hgn⟩)
    (Server.branch_eq_some.mpr ⟨vni', hvni', hgn'⟩) heq
  exact hlt.asymm hlt

end Listed

/--
After any calls of `NicAdd` and `NicDel` the poller polls what it should if and
only if the graph holds fewer NICs than the table has slots.
-/
theorem polled_iff_nicCount_lt {P : Platform} {live : Set (UInt32 × String)} {s : Server}
    (h : Calls P live s) {pg : Packetgraph} (hdrained : Drained s pg) :
    Polled live s pg ↔ s.nicCount < graphVhostMaxSize := by
  obtain ⟨hlisted, hlive⟩ := listed_of_calls h
  have hpoll : pg.graph.poll = s.slots.take (graphVhostMaxSize - 1) :=
    hdrained.poll.trans hlisted.lastPoll_eq
  have haccepted : ∀ {v id gn}, s.branch v id = some gn → (v, id) ∈ live := by
    intro v id gn hgn
    rw [← hlive, hgn]
    rfl
  rw [← s.length_slots]
  constructor
  · intro hpolled
    -- Otherwise the branches, all distinct, fit into a table that is too small.
    have hsubset : s.slots ⊆ s.slots.take (graphVhostMaxSize - 1) := by
      intro slot hslot
      obtain ⟨v, id, gn, hgn, rfl⟩ := Server.mem_slots.mp hslot
      rw [← hpoll]
      exact hpolled.beside (haccepted hgn) hgn
    have hlength := (List.subperm_of_subset hlisted.nodup_vhosts.of_map hsubset).length_le
    rw [List.length_take] at hlength
    have hsize : graphVhostMaxSize = 50 := rfl
    omega
  · intro hroom
    rw [List.take_of_length_le (Nat.le_sub_one_of_lt hroom)] at hpoll
    constructor
    · intro v id gn _ hgn
      rw [hpoll]
      apply List.count_eq_one_of_mem hlisted.nodup_vhosts
      exact List.mem_map.mpr ⟨gn.slot, Server.mem_slots.mpr ⟨v, id, gn, hgn, rfl⟩, rfl⟩
    · intro v id gn _ hgn
      rw [hpoll]
      exact Server.mem_slots.mpr ⟨v, id, gn, hgn, rfl⟩
    · intro slot hslot
      rw [hpoll] at hslot
      obtain ⟨v, id, gn, hgn, rfl⟩ := Server.mem_slots.mp hslot
      exact ⟨v, id, gn, haccepted hgn, hgn, rfl⟩
    · exact fun list hlist => Nat.le_of_lt (hlisted.bounded list hlist)

theorem Calls.addAll {P : Platform} {nics : List Nic} {live : Set (UInt32 × String)}
    {s s' : Server} (h : Calls P live s) (hadd : Butterfly.addAll P nics s = some s') :
    ∃ live', Calls P live' s' := by
  induction nics generalizing s live with
  | nil =>
      cases hadd
      exact ⟨live, h⟩
  | cons nic nics ih =>
      obtain ⟨⟨added, s₁⟩, hs₁, hrest⟩ := Option.bind_eq_some_iff.mp hadd
      cases added with
      | none => exact ih (h.refused hs₁) hrest
      | some nic' => exact ih (h.accepted hs₁) hrest

theorem polled_three_nics :
    ∃ live s, Calls Libc.platform live s ∧ s.nicCount = 2 ∧ Polled live s s.settled := by
  have hrun : ∃ s₁ s₂, addAll Libc.platform threeNics (Server.start {} 1 0) = some s₁ ∧
      Graph.nicDel { id := "a", vni := 42 } s₁ = some s₂ ∧ s₂.nicCount = 2 := by
    refine ⟨(addAll Libc.platform threeNics (Server.start {} 1 0)).get ?_,
      (Graph.nicDel { id := "a", vni := 42 }
        ((addAll Libc.platform threeNics (Server.start {} 1 0)).get ?_)).get ?_,
      ?_, ?_, ?_⟩
    · decide +kernel
    · decide +kernel
    · decide +kernel
    · simp
    · simp
    · decide +kernel
  obtain ⟨s₁, s₂, hs₁, hs₂, hcount⟩ := hrun
  obtain ⟨live, hcalls⟩ := (Calls.start {} 1 0).addAll hs₁
  have hdel := hcalls.del hs₂
  refine ⟨_, s₂, hdel, hcount, ?_⟩
  rw [polled_iff_nicCount_lt hdel (drained_settled s₂), hcount]
  decide

def fiftyNics : List Nic :=
  (List.range graphVhostMaxSize).map fun i =>
    { id := "nic-" ++ toString i, vni := UInt32.ofNat i, bypassFiltering := true }

theorem fiftyNics_last_unpolled :
    (addAll Libc.platform fiftyNics (Server.start {} 1 0)).any (fun s =>
      (s.branch 49 "nic-49").any fun gn =>
        !s.lastPoll.contains (gn.vhost, gn.firewall)) = true := by
  decide +kernel

theorem polled_fails_fifty_nics :
    ¬∀ live s pg, Calls Libc.platform live s → Drained s pg → Polled live s pg := by
  intro hclaim
  obtain ⟨s, hs, hlast⟩ := (Option.any_eq_true _ _).mp fiftyNics_last_unpolled
  obtain ⟨gn, hgn, hunpolled⟩ := (Option.any_eq_true _ _).mp hlast
  obtain ⟨live, hcalls⟩ := (Calls.start {} 1 0).addAll hs
  obtain ⟨-, hlive⟩ := listed_of_calls hcalls
  have hpolled := hclaim live s s.settled hcalls (drained_settled s)
  have hlisted : (49, "nic-49") ∈ live := by
    rw [← hlive, hgn]
    rfl
  have hmem := hpolled.beside hlisted hgn
  rw [(drained_settled s).poll] at hmem
  simp only [Bool.not_eq_true', List.contains_eq_mem, decide_eq_false_iff_not] at hunpolled
  exact hunpolled hmem

end Butterfly
