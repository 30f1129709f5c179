import Butterfly.Access
import Butterfly.Numbering
import Butterfly.WellFormed

/-!
# ARP tables

`NicAdd` fills the ARP table of a new antispoof brick, and
`NicConfigAntiSpoof` empties and fills the table of a NIC that is there.  Only
the API thread edits tables, so the log says what is in them.
-/

namespace Butterfly

open Std Foundation Butterfly.Graph

/-! ## The table of one brick -/

namespace ArpTable

def step (b : Brick) (t : ArpTable) : Op Rpc Direct → ArpTable
  | .direct d => Antispoofs.act d (fun _ => t) b
  | _ => t

def after (b : Brick) (ops : List (Op Rpc Direct)) (t : ArpTable) : ArpTable :=
  ops.foldl (step b) t

@[simp] theorem after_nil (b : Brick) (t : ArpTable) : t.after b [] = t := rfl

@[simp] theorem after_cons (b : Brick) (op : Op Rpc Direct) (ops : List (Op Rpc Direct))
    (t : ArpTable) : t.after b (op :: ops) = (t.step b op).after b ops := rfl

@[simp] theorem after_append (b : Brick) (first second : List (Op Rpc Direct))
    (t : ArpTable) : t.after b (first ++ second) = (t.after b first).after b second := by
  simp [after, List.foldl_append]

end ArpTable

theorem Antispoofs.act_eq (d : Direct) (ts : Antispoofs) (b : Brick) :
    Antispoofs.act d ts b = (ts b).step b (.direct d) := by
  cases d with
  | arpAdd a ip | arpDelAll a | arpEnable a | arpDisable a =>
      by_cases h : b = a
      · subst h
        simp [Antispoofs.act, ArpTable.step]
      · simp [Antispoofs.act, ArpTable.step, h]
  | _ => rfl

def OffArp (b : Brick) (op : Op Rpc Direct) : Prop := ∀ t : ArpTable, t.step b op = t

theorem ArpTable.after_of_off {b : Brick} {ops : List (Op Rpc Direct)}
    (h : ∀ op ∈ ops, OffArp b op) (t : ArpTable) : t.after b ops = t := by
  induction ops generalizing t with
  | nil => rfl
  | cons op ops ih =>
      rw [after_cons, h op List.mem_cons_self]
      exact ih (fun op hop => h op (List.mem_cons_of_mem _ hop)) t

def arpTable (b : Brick) (s : Server) : ArpTable := ArpTable.after b s.ops {}

theorem arpTable_emits (b : Brick) (s : Server) (ops : List (Op Rpc Direct)) :
    arpTable b (s.emits ops) = (arpTable b s).after b ops := by
  simp [arpTable]

theorem arpTable_of_off {b : Brick} {s s' : Server} (h : Appends (OffArp b) s s') :
    arpTable b s' = arpTable b s := by
  obtain ⟨ops, hops, hoff⟩ := h
  rw [arpTable, hops, ArpTable.after_append, ArpTable.after_of_off hoff, arpTable]

theorem startGraph_antispoofs (s : Server) : s.startGraph.antispoofs = fun _ => {} := by
  unfold Server.startGraph
  split <;> rfl

theorem arpTable_of_reachable {s : Server} {c : Config Packetgraph Rpc Direct}
    (h : Packetgraph.machine.Reachable (Machine.start s.ops s.startGraph) c) :
    ∃ done, s.ops = done ++ c.todo ∧
      ∀ b, c.state.antispoofs b = ArpTable.after b done {} := by
  induction h with
  | refl => exact ⟨[], rfl, fun b => by simp [Machine.start, startGraph_antispoofs]⟩
  | tail _ hstep ih =>
      obtain ⟨done, hops, htable⟩ := ih
      rcases hstep with hproducer | hconsumer
      · cases hproducer with
        | push k todo queue running polling pg =>
            refine ⟨done ++ [.push k], by simp [hops], fun b => ?_⟩
            rw [ArpTable.after_append]
            exact htable b
        | wait todo running polling pg =>
            refine ⟨done ++ [.wait], by simp [hops], fun b => ?_⟩
            rw [ArpTable.after_append]
            exact htable b
        | direct d todo queue running polling pg =>
            refine ⟨done ++ [.direct d], by simp [hops], fun b => ?_⟩
            rw [ArpTable.after_append, ← htable]
            exact Antispoofs.act_eq d pg.antispoofs b
      · cases hconsumer with
        | enter | pop | run | leave => exact ⟨done, hops, htable⟩

/-! ## Operations on other things -/

theorem offArp_of_firewall {b fw : Brick} {op : Op Rpc Direct} (h : FirewallOp fw op) :
    OffArp b op := by
  intro t
  cases h <;> rfl

theorem offArp_of_trace {b : Brick} {op : Op Rpc Direct} (h : TraceOp op) : OffArp b op := by
  intro t
  cases h <;> rfl

theorem offArp_push (b : Brick) (c : Rpc) : OffArp b (.push c) := fun _ => rfl

theorem offArp_wait (b : Brick) : OffArp b .wait := fun _ => rfl

theorem offArp_destroyOps {b : Brick} {bricks : List Brick} :
    ∀ op ∈ destroyOps bricks, OffArp b op :=
  fun op hop => offArp_of_trace (traceOp_destroyOps op hop)

theorem offArp_fwNewOps (b : Brick) (ok : PgCall → Bool) (nic : Nic) (serial : Nat) :
    ∀ op ∈ fwNewOps ok nic serial, OffArp b op := by
  simp only [fwNewOps, List.forall_mem_cons]
  exact ⟨offArp_push _ _, offArp_push _ _, offArp_wait _, by simp⟩

/-! ## Filling a table -/

/-- The addresses of a list, as `inet_pton` leaves them. -/
def arpAddOps (P : Platform) (ok : PgCall → Bool) (b : Brick) (ips : List Ip) :
    List (Op Rpc Direct) :=
  (ips.filter fun ip => ok (.arpAdd b ip)).map fun ip =>
    .direct (.arpAdd b (P.inetPton4 ip.str))

theorem arpAddAll_ops (P : Platform) (ok : PgCall → Bool) (b : Brick) (ips : List Ip)
    (s : Server) : arpAddAll P ok b ips s = s.emits (arpAddOps P ok b ips) := by
  induction ips generalizing s with
  | nil => simp [arpAddAll, arpAddOps]
  | cons ip ips ih =>
      rw [arpAddAll, List.foldl_cons, ← arpAddAll]
      split
      · next hok =>
          rw [ih]
          simp [arpAddOps, hok]
      · next hok =>
          rw [ih]
          simp [arpAddOps, hok]

def setupOps (P : Platform) (ok : PgCall → Bool) (nic : Nic) (b : Brick) :
    List (Op Rpc Direct) :=
  if nic.ipAntiSpoof then arpAddOps P ok b nic.ipList ++ [.direct (.arpEnable b)] else []

theorem setupAntispoof_ops (P : Platform) (ok : PgCall → Bool) (nic : Nic) (b : Brick)
    (s : Server) : setupAntispoof P ok nic b s = s.emits (setupOps P ok nic b) := by
  unfold setupAntispoof setupOps
  split
  · simp [arpAddAll_ops]
  · simp

def configOps (P : Platform) (ok : PgCall → Bool) (nic : Nic) (b : Brick) (enable : Bool) :
    List (Op Rpc Direct) :=
  if enable then .direct (.arpDelAll b) ::
    (arpAddOps P ok b nic.ipList ++ [.direct (.arpEnable b)])
  else [.direct (.arpDisable b)]

theorem nicConfigAntiSpoof_ops {P : Platform} {ok : PgCall → Bool} {nic : Nic}
    {s : Server} {gn : GraphNic} (hgn : s.findNic nic = some gn) (enable : Bool) :
    nicConfigAntiSpoof P ok nic enable s =
      s.emits (configOps P ok nic gn.antispoof enable) := by
  unfold nicConfigAntiSpoof configOps
  rw [hgn]
  dsimp only
  split
  · simp [arpAddAll_ops]
  · simp

def ArpOf (b : Brick) (op : Op Rpc Direct) : Prop := ∀ b', b' ≠ b → OffArp b' op

theorem arpOf_arpAddOps (P : Platform) (ok : PgCall → Bool) (b : Brick) (ips : List Ip) :
    ∀ op ∈ arpAddOps P ok b ips, ArpOf b op := by
  intro op hop b' hne t
  obtain ⟨ip, -, rfl⟩ := List.mem_map.mp hop
  simp [ArpTable.step, Antispoofs.act, hne]

theorem arpOf_setupOps (P : Platform) (ok : PgCall → Bool) (nic : Nic) (b : Brick) :
    ∀ op ∈ setupOps P ok nic b, ArpOf b op := by
  unfold setupOps
  split
  · refine List.forall_mem_append.mpr ⟨arpOf_arpAddOps P ok b nic.ipList, ?_⟩
    intro op hop b' hne t
    obtain rfl := List.mem_singleton.mp hop
    simp [ArpTable.step, Antispoofs.act, hne]
  · simp

theorem arpOf_configOps (P : Platform) (ok : PgCall → Bool) (nic : Nic) (b : Brick)
    (enable : Bool) : ∀ op ∈ configOps P ok nic b enable, ArpOf b op := by
  have hself : ∀ d, (d = .arpDelAll b ∨ d = .arpEnable b ∨ d = .arpDisable b) →
      ArpOf b (.direct d) := by
    rintro d (rfl | rfl | rfl) b' hne t <;> simp [ArpTable.step, Antispoofs.act, hne]
  unfold configOps
  split
  · simp only [List.forall_mem_cons, List.forall_mem_append]
    exact ⟨hself _ (by simp), arpOf_arpAddOps P ok b nic.ipList, hself _ (by simp), by simp⟩
  · simpa using hself _ (by simp)

structure Guards (P : Platform) (nic : Nic) (t : ArpTable) : Prop where
  enabled : t.enabled = nic.ipAntiSpoof
  allowed : nic.ipAntiSpoof = true → ∀ a, a ∈ t.allowed ↔
    ∃ ip ∈ nic.ipList, ∃ v, P.inetPton4 ip.str = some v ∧ a = some v

def AcceptsArp (P : Platform) (ok : PgCall → Bool) (nic : Nic) : Prop :=
  nic.ipAntiSpoof = true → ∀ ip ∈ nic.ipList,
    (P.inetPton4 ip.str).isSome ∧ ∀ b, ok (.arpAdd b ip) = true

theorem after_arpAddOps (P : Platform) (ok : PgCall → Bool) (b : Brick) (ips : List Ip)
    (t : ArpTable) : t.after b (arpAddOps P ok b ips) =
      { t with allowed := t.allowed ++
          (ips.filter fun ip => ok (.arpAdd b ip)).map fun ip => P.inetPton4 ip.str } := by
  unfold arpAddOps
  induction ips.filter fun ip => ok (.arpAdd b ip) generalizing t with
  | nil => simp
  | cons ip ips ih =>
      rw [List.map_cons, ArpTable.after_cons, ih]
      simp [ArpTable.step, Antispoofs.act]

theorem mem_filled {P : Platform} {ok : PgCall → Bool} {nic : Nic}
    (h : AcceptsArp P ok nic) (hon : nic.ipAntiSpoof = true) (b : Brick)
    (a : Option (Vector UInt8 4)) :
    a ∈ (nic.ipList.filter fun ip => ok (.arpAdd b ip)).map (fun ip => P.inetPton4 ip.str) ↔
      ∃ ip ∈ nic.ipList, ∃ v, P.inetPton4 ip.str = some v ∧ a = some v := by
  simp only [List.mem_map, List.mem_filter]
  constructor
  · rintro ⟨ip, ⟨hip, -⟩, rfl⟩
    obtain ⟨v, hv⟩ := Option.isSome_iff_exists.mp (h hon ip hip).1
    exact ⟨ip, hip, v, hv, hv⟩
  · rintro ⟨ip, hip, v, hv, rfl⟩
    exact ⟨ip, ⟨hip, (h hon ip hip).2 b⟩, hv⟩

theorem guards_setup {P : Platform} {ok : PgCall → Bool} {nic : Nic}
    (h : AcceptsArp P ok nic) (b : Brick) :
    Guards P nic (ArpTable.after b (setupOps P ok nic b) {}) := by
  unfold setupOps
  split
  · next hon =>
      rw [ArpTable.after_append, after_arpAddOps]
      refine ⟨by simp [ArpTable.step, Antispoofs.act, hon], fun _ a => ?_⟩
      simpa [ArpTable.step, Antispoofs.act] using mem_filled h hon b a
  · next hoff =>
      have hfalse : nic.ipAntiSpoof = false := by simpa using hoff
      exact ⟨hfalse.symm, fun hon => by rw [hfalse] at hon; cases hon⟩

theorem guards_config {P : Platform} {ok : PgCall → Bool} {nic : Nic}
    (h : AcceptsArp P ok nic) (b : Brick) (t : ArpTable) :
    Guards P nic (t.after b (configOps P ok nic b nic.ipAntiSpoof)) := by
  unfold configOps
  split
  · next hon =>
      rw [ArpTable.after_cons, ArpTable.after_append, after_arpAddOps]
      refine ⟨by simp [ArpTable.step, Antispoofs.act, hon], fun _ a => ?_⟩
      simpa [ArpTable.step, Antispoofs.act] using mem_filled h hon b a
  · next hoff =>
      have hfalse : nic.ipAntiSpoof = false := by simpa using hoff
      refine ⟨by simp [ArpTable.step, Antispoofs.act, hfalse], fun hon => ?_⟩
      rw [hfalse] at hon
      cases hon

/-! ## What a change of the server does to the tables -/

structure ArpChange (arp : List (Op Rpc Direct)) (s s' : Server) : Prop where
  kin : ∀ v id, (s'.branch v id).map GraphNic.kin = (s.branch v id).map GraphNic.kin
  serial : s.nextSerial ≤ s'.nextSerial
  tables : ∀ b, arpTable b s' = (arpTable b s).after b arp

namespace ArpChange

variable {arp more : List (Op Rpc Direct)} {p : Op Rpc Direct → Prop} {a b c s s' : Server}

theorem refl (s : Server) : ArpChange [] s s := ⟨fun _ _ => rfl, Nat.le_refl _, fun _ => rfl⟩

theorem trans (hab : ArpChange arp a b) (hbc : ArpChange more b c) :
    ArpChange (arp ++ more) a c :=
  ⟨fun v id => (hbc.kin v id).trans (hab.kin v id), hab.serial.trans hbc.serial,
    fun b => by rw [hbc.tables, hab.tables, ArpTable.after_append]⟩

theorem then_quiet (hab : ArpChange arp a b) (hbc : ArpChange [] b c) : ArpChange arp a c := by
  simpa using hab.trans hbc

theorem modifyModel (f : Model → Model) (s : Server) : ArpChange [] s (s.modifyModel f) :=
  ⟨fun _ _ => rfl, Nat.le_refl _, fun _ => rfl⟩

theorem tuned (h : Tuned p s s') (hp : ∀ op, p op → ∀ b, OffArp b op) : ArpChange [] s s' :=
  ⟨h.branch, h.serial, fun b => arpTable_of_off (h.appends.mono fun op hop => hp op hop b)⟩

theorem emits (arp : List (Op Rpc Direct)) (s : Server) : ArpChange arp s (s.emits arp) :=
  ⟨fun _ _ => rfl, Nat.le_refl _, fun b => arpTable_emits b s arp⟩

end ArpChange

/-! ## Creation and removal of a NIC -/

section Nics

variable {P : Platform} {ok : PgCall → Bool} {nic : Nic} {s s' : Server}

def NoArp (op : Op Rpc Direct) : Prop := ∀ b, OffArp b op

theorem noArp_destroyOps (bricks : List Brick) : ∀ op ∈ destroyOps bricks, NoArp op :=
  fun op hop _ => offArp_destroyOps op hop

theorem noArp_direct {d : Direct} (h : ∀ t b, Antispoofs.act d (fun _ => t) b = t) :
    NoArp (.direct d) := fun b t => h t b

theorem appends_release (s : Server) (bricks : List Brick) :
    Appends NoArp s (s.release bricks) := by
  rw [Server.release_eq]
  exact ⟨_, rfl, noArp_destroyOps bricks⟩

theorem appends_emits {p : Op Rpc Direct → Prop} {ops : List (Op Rpc Direct)} (s : Server)
    (h : ∀ op ∈ ops, p op) : Appends p s (s.emits ops) := ⟨ops, rfl, h⟩

theorem createBranch_arp {branch : Option GraphNic}
    (h : createBranch P ok nic s = some (branch, s')) :
    ∃ arp, (branch = none ∧ arp = [] ∨ arp = setupOps P ok nic ⟨.antispoof, s.nextSerial⟩) ∧
      Appends NoArp (s.emits (fwNewOps ok nic s.nextSerial ++ arp)) s' := by
  have hstart : Server.waitEmptyQueue (Server.push
      (.fwNew ("firewall-" ++ nic.id)
        (if ok (.firewallNew ("firewall-" ++ nic.id)) then
          some ⟨.firewall, s.nextSerial⟩ else none))
      s.takeSerial) =
        s.takeSerial.emits (fwNewOps ok nic s.nextSerial) := by
    simp [fwNewOps]
  have hopen : ∀ b (t : Server), Appends NoArp t (openTrace nic b t) := by
    intro b t
    unfold openTrace
    split
    · exact appends_emits t (by simpa using noArp_direct fun _ _ => rfl)
    · exact .refl _ t
  have hlink : ∀ w e (t : Server), Appends NoArp t (t.direct (.link w e)) := fun w e t =>
    appends_emits t (by simpa using noArp_direct fun _ _ => rfl)
  have hstalk : ∀ w e b (t : Server), Appends NoArp t (linkAndStalk ok w e b t) := by
    intro w e b t
    unfold linkAndStalk
    split
    · split
      · exact .refl _ t
      · split
        · exact (hlink _ _ _).trans (hlink _ _ _)
        · exact .refl _ t
    · split
      · exact hlink _ _ _
      · exact .refl _ t
  simp only [createBranch, hstart, setupAntispoof_ops, Server.emits_emits] at h
  have hserial : ∀ ops, Appends NoArp (s.emits ops) (s.takeSerial.emits ops) :=
    fun ops => ⟨[], by simp, by simp⟩
  -- One case for each return, in the order of the source.
  split at h
  · cases h
    exact ⟨[], .inl ⟨rfl, rfl⟩, by simpa using hserial _⟩
  split at h
  · cases h
    exact ⟨[], .inl ⟨rfl, rfl⟩, by simpa using hserial _⟩
  refine ⟨setupOps P ok nic ⟨.antispoof, s.nextSerial⟩, .inr rfl, (hserial _).trans ?_⟩
  split at h
  · cases h
  split at h
  · cases h
    exact appends_release _ _
  split at h
  · cases h
    exact appends_release _ _
  split at h
  · split at h
    · split at h
      · cases h
        exact (hopen _ _).trans (appends_release _ _)
      · cases h
        exact (hopen _ _).trans (hlink _ _ _)
    · cases h
      exact hopen _ _
  · split at h
    · cases h
      exact (hopen _ _).trans (appends_release _ _)
    · cases h
      exact (hopen _ _).trans ((hlink _ _ _).trans (hstalk _ _ _ _))

theorem linkBranch_noArp {gn : GraphNic} {linked : Bool}
    (h : linkBranch ok nic gn s = some (linked, s')) : Appends NoArp s s' := by
  have hswitch : ∀ sw (t : Server), Appends NoArp t (setSwitch nic.vni sw t) := by
    intro sw t
    unfold setSwitch
    split
    · exact .refl _ t
    · next v hv =>
        have hrelease := appends_release t v.sw.toList
        exact hrelease
  have hpush : ∀ c (t : Server), Appends NoArp t (t.push c) := fun c t =>
    appends_emits t fun op hop b => List.mem_singleton.mp hop ▸ offArp_push b c
  unfold linkBranch at h
  obtain ⟨vni, -, h⟩ := Option.bind_eq_some_iff.mp h
  split at h
  · cases h
    exact (hpush _ _).trans (hpush _ _)
  split at h
  · dsimp only at h
    split at h
    · cases h
      exact Appends.trans ⟨[], by simp, by simp⟩ (hswitch _ _)
    · obtain ⟨head, -, h⟩ := Option.bind_eq_some_iff.mp h
      have hnew := Appends.trans (a := s) (b := s.takeSerial) ⟨[], by simp, by simp⟩
        (hswitch (some ⟨.switch, s.nextSerial⟩) s.takeSerial)
      split at h
      · cases h
        exact hnew
      · cases h
        refine hnew.trans (Appends.trans ?_ ((hpush _ _).trans ((hpush _ _).trans
          ((hpush _ _).trans (hpush _ _)))))
        exact appends_emits _ (by simpa using noArp_direct fun _ _ => rfl)
  · obtain ⟨sw, -, h⟩ := Option.bind_eq_some_iff.mp h
    cases h
    exact hpush _ _

theorem nicAdd_arp {added : Option Nic} (hstarted : s.started = true)
    (h : nicAdd P ok nic s = some (added, s')) :
    ∃ arp, (added = none ∧ arp = [] ∨ arp = setupOps P ok nic ⟨.antispoof, s.nextSerial⟩) ∧
      Appends NoArp (s.emits (fwNewOps ok nic s.nextSerial ++ arp)) s' := by
  simp only [nicAdd, hstarted, Bool.not_true, Bool.false_eq_true, if_false] at h
  obtain ⟨⟨branch, s₁⟩, hcreate, h⟩ := Option.bind_eq_some_iff.mp h
  obtain ⟨arp, harp, happends⟩ := createBranch_arp hcreate
  cases branch with
  | none =>
      cases h
      exact ⟨arp, harp.imp (fun hnone => ⟨rfl, hnone.2⟩) id, happends⟩
  | some gn =>
      obtain ⟨⟨linked, s₂⟩, hlink, h⟩ := Option.bind_eq_some_iff.mp h
      have hsetup : arp = setupOps P ok nic ⟨.antispoof, s.nextSerial⟩ :=
        harp.resolve_left fun hnone => Option.some_ne_none _ hnone.1
      refine ⟨arp, .inr hsetup, happends.trans ((linkBranch_noArp hlink).trans ?_)⟩
      have hupdate : ∀ t : Server, Appends NoArp t (fwUpdate ok nic t) := fun t =>
        (fwUpdate_tuned ok nic t).appends.mono fun op hop _ =>
          offArp_of_firewall hop.choose_spec
      have hpoll : ∀ t : Server, Appends NoArp t (updatePoll t) := fun t =>
        (updatePoll_tuned t).appends.mono fun op hop _ => offArp_of_trace hop
      split at h
      · cases h
        exact appends_release _ _
      · cases h
        have hkeep := (hpoll (s₂.updateVni nic.vni (withBranch nic.id gn))).trans (hupdate _)
        have hbefore : Appends NoArp s₂ (s₂.updateVni nic.vni (withBranch nic.id gn)) :=
          ⟨[], by simp, by simp⟩
        split
        · exact hbefore.trans (hkeep.trans (appends_release _ _))
        · exact hbefore.trans hkeep

end Nics

theorem Graph.NicDeleted.noArp {nic : Nic} {s s' : Server} (h : NicDeleted nic s s') :
    Appends NoArp s s' := by
  have hfirewall : ∀ n, ∀ op ∈ destroyFirewallOps n, NoArp op := by
    intro n op hop b t
    simp only [destroyFirewallOps, List.mem_cons, List.not_mem_nil, or_false] at hop
    rcases hop with rfl | rfl | rfl <;> rfl
  have hpush : ∀ c, NoArp (.push c) := fun c b => offArp_push b c
  cases h with
  | absent hnone => exact .refl _ s
  | last =>
      refine ⟨_, rfl, ?_⟩
      simp only [List.forall_mem_cons, List.forall_mem_append]
      exact ⟨hpush _, hpush _, ⟨hfirewall _, noArp_destroyOps _⟩, noArp_destroyOps _⟩
  | @ofTwo vni n other sw =>
      refine ⟨_, rfl, ?_⟩
      simp only [List.forall_mem_cons, List.forall_mem_append]
      exact ⟨⟨hpush _, hpush _, hpush _, hpush _, hpush _, offArp_wait,
        noArp_direct fun _ _ => rfl, by simp⟩, hfirewall _, noArp_destroyOps _⟩
  | ofMany =>
      refine ⟨_, rfl, ?_⟩
      simp only [List.forall_mem_cons, List.forall_mem_append]
      exact ⟨hpush _, hpush _, hfirewall _, noArp_destroyOps _⟩

/-! ## Tables and the model -/

/-- The table of a brick that is not there yet is empty, the others suit their NICs. -/
structure Guarded (P : Platform) (s : Server) : Prop where
  fresh : ∀ n, s.nextSerial ≤ n → arpTable ⟨.antispoof, n⟩ s = {}
  guards : ∀ {id : String} {nic gn}, s.model.nics[id]? = some nic →
    s.findNic nic = some gn → Guards P nic (arpTable gn.antispoof s)

structure SameGuard (nic nic' : Nic) : Prop where
  id : nic'.id = nic.id
  vni : nic'.vni = nic.vni
  ips : nic'.ipList = nic.ipList
  flag : nic'.ipAntiSpoof = nic.ipAntiSpoof

theorem SameGuard.refl (nic : Nic) : SameGuard nic nic := ⟨rfl, rfl, rfl, rfl⟩

theorem Guards.congr {P : Platform} {nic nic' : Nic} {t : ArpTable} (h : Guards P nic t)
    (hsame : SameGuard nic nic') : Guards P nic' t :=
  ⟨h.enabled.trans hsame.flag.symm, fun hon a => by
    rw [hsame.ips]
    exact h.allowed (hsame.flag ▸ hon) a⟩

section Steps

variable {P : Platform} {ambient : Ambient} {s s' : Server}

theorem ArpChange.findNic {arp : List (Op Rpc Direct)} (h : ArpChange arp s s')
    {nic nic' : Nic} {gn' : GraphNic} (hid : nic'.id = nic.id) (hvni : nic'.vni = nic.vni)
    (hgn' : s'.findNic nic' = some gn') :
    ∃ gn, s.findNic nic = some gn ∧ gn.antispoof = gn'.antispoof := by
  rw [Server.findNic_eq, hid, hvni] at hgn'
  have hkin := h.kin nic.vni nic.id
  rw [hgn', Option.map_some] at hkin
  obtain ⟨gn, hgn, heq⟩ := Option.map_eq_some_iff.mp hkin.symm
  have hbrick := congrArg GraphNic.antispoof heq
  exact ⟨gn, hgn, hbrick⟩

theorem Guarded.quiet (h : Guarded P s) (hchange : ArpChange [] s s')
    (hnics : ∀ {id : String} {nic'}, s'.model.nics[id]? = some nic' →
      ∃ nic, s.model.nics[id]? = some nic ∧ SameGuard nic nic') : Guarded P s' := by
  refine ⟨fun n hn => ?_, fun hnic' hgn' => ?_⟩
  · rw [hchange.tables]
    exact h.fresh n (hchange.serial.trans hn)
  · obtain ⟨nic, hnic, hsame⟩ := hnics hnic'
    obtain ⟨gn, hgn, hbrick⟩ := hchange.findNic hsame.id hsame.vni hgn'
    rw [hchange.tables, ← hbrick]
    exact (h.guards hnic hgn).congr hsame

theorem Agree.antispoof_ne (h : Agree s) {id id' : String} {nic nic' : Nic}
    {gn gn' : GraphNic} (hnic : s.model.nics[id]? = some nic)
    (hnic' : s.model.nics[id']? = some nic') (hgn : s.findNic nic = some gn)
    (hgn' : s.findNic nic' = some gn') (hne : id ≠ id') : gn.antispoof ≠ gn'.antispoof := by
  intro heq
  obtain ⟨n, -, hfw, hanti, -⟩ := h.graph.bricks hgn
  obtain ⟨n', -, hfw', hanti', -⟩ := h.graph.bricks hgn'
  rw [hanti, hanti', Brick.mk.injEq] at heq
  have hsame := h.graph.distinct hgn hgn' (by rw [hfw, hfw', heq.2])
  rw [h.nicIds hnic, h.nicIds hnic'] at hsame
  exact hne hsame.2

theorem Guarded.removeNic (h : Guarded P s) (hagree : Agree s) {id : String}
    (hdel : Api.removeNic id s = some s') : Guarded P s' := by
  unfold Api.removeNic at hdel
  split at hdel
  · cases hdel
    exact h
  · next old hold =>
      obtain ⟨s₁, hs₁, heq⟩ := Option.bind_eq_some_iff.mp hdel
      cases heq
      have hdeleted := nicDel_cases hagree.graph.started hagree.graph.keyed hs₁
      have htable : ∀ b, arpTable b s₁ = arpTable b s := fun b =>
        arpTable_of_off (hdeleted.noArp.mono fun _ hop => hop b)
      have heffect := hdeleted.effect
      refine ⟨fun n hn => ?_, fun {id' nic gn} hnic hgn => ?_⟩
      · exact (htable _).trans (h.fresh n (heffect.serial ▸ hn))
      · simp only [Server.modifyModel_model, heffect.model, lookup_erase] at hnic
        split at hnic
        · cases hnic
        next hne =>
        rw [Server.modifyModel_findNic, Server.findNic_eq, heffect.branch,
          if_neg (by rw [hagree.nicIds hold, hagree.nicIds hnic]; exact fun h => hne h.2)] at hgn
        exact (htable gn.antispoof).symm ▸ h.guards hnic hgn

theorem Guarded.insertNic (h : Guarded P s) (hagree : Agree s) {nic : Nic}
    {added : Option Nic} (hnew : s.model.nics[nic.id]? = none)
    (harp : AcceptsArp P ambient.ok nic)
    (hadd : Graph.nicAdd P ambient.ok nic s = some (added, s')) :
    s.nextSerial ≤ s'.nextSerial ∧
    (∀ n, s'.nextSerial ≤ n → arpTable ⟨.antispoof, n⟩ s' = {}) ∧
    (∀ {id : String} {other gn}, s.model.nics[id]? = some other →
      s'.findNic other = some gn → Guards P other (arpTable gn.antispoof s')) ∧
    (added.isSome → ∀ {gn}, s'.findNic nic = some gn →
      Guards P nic (arpTable gn.antispoof s')) := by
  have hbranch := hagree.branch_eq_none hnew nic.vni
  have hentry : (vniEntry nic.vni s).nics[nic.id]? = none := by
    rw [vniEntry_lookup, hbranch]
  obtain ⟨accepted, haccepted, hadded⟩ : ∃ accepted, added.isSome = accepted ∧
      NicAdded ambient.ok nic s accepted s' := by
    rcases nicAdd_cases hagree.graph.started hadd with ⟨rfl, hadded⟩ | ⟨rfl, hadded⟩
    · exact ⟨false, rfl, hadded⟩
    · exact ⟨true, rfl, hadded⟩
  have heffect := hadded.effect hagree.graph.started hentry
  have hbranches := heffect.branch hbranch
  obtain ⟨arp, hcases, happends⟩ := nicAdd_arp hagree.graph.started hadd
  have htable : ∀ b, arpTable b s' = (arpTable b s).after b arp := by
    intro b
    rw [arpTable_of_off (happends.mono fun _ hop => hop b), arpTable_emits,
      ArpTable.after_append, ArpTable.after_of_off (offArp_fwNewOps b _ _ _)]
  have hothers : ∀ b, b ≠ ⟨.antispoof, s.nextSerial⟩ → arpTable b s' = arpTable b s := by
    intro b hne
    rw [htable, ArpTable.after_of_off]
    intro op hop
    rcases hcases with ⟨-, rfl⟩ | rfl
    · cases hop
    · exact arpOf_setupOps _ _ _ _ op hop b hne
  refine ⟨heffect.serial.le, fun n hn => ?_, fun {id other gn} hother hgn => ?_,
    fun hsome gn hgn => ?_⟩
  · have hlt := heffect.serial
    rw [hothers _ (by rw [Ne, Brick.mk.injEq]; omega)]
    exact h.fresh n (by omega)
  · have hne : nic.id ≠ other.id := by
      rw [hagree.nicIds hother]
      rintro rfl
      rw [hnew] at hother
      cases hother
    rw [Server.findNic_eq, hbranches, if_neg fun hsame => hne hsame.2.2] at hgn
    obtain ⟨n, hlt, -, hanti, -⟩ := hagree.graph.bricks hgn
    rw [hothers _ (by rw [hanti, Ne, Brick.mk.injEq]; omega)]
    exact h.guards hother hgn
  · rw [hsome] at haccepted
    subst haccepted
    rw [Server.findNic_eq, hbranches, if_pos ⟨rfl, rfl, rfl⟩] at hgn
    cases hgn
    have hanti : (filled nic (newBranch nic s.nextSerial)).antispoof =
        ⟨.antispoof, s.nextSerial⟩ := by
      unfold filled
      split <;> rfl
    have hsetup := hcases.resolve_left fun hnone => by rw [hnone.1] at hsome; cases hsome
    rw [hanti, htable, h.fresh _ le_rfl, hsetup]
    exact guards_setup harp _

theorem Guarded.actionNicAdd (h : Guarded P s) (hagree : Agree s) {nic : Nic}
    {added : Option Nic} (harp : AcceptsArp P ambient.ok nic)
    (hadd : Api.actionNicAdd P ambient nic s = some (added, s')) : Guarded P s' := by
  simp only [Api.actionNicAdd, Option.bind_eq_bind] at hadd
  obtain ⟨s₀, hs₀, hadd⟩ := Option.bind_eq_some_iff.mp hadd
  obtain ⟨⟨result, s₁⟩, hs₁, hadd⟩ := Option.bind_eq_some_iff.mp hadd
  obtain ⟨hagree₀, -, hmodel⟩ := hagree.removeNic hs₀
  have hnew : s₀.model.nics[nic.id]? = none := by simp [hmodel]
  obtain ⟨-, hfresh, hothers, hown⟩ :=
    (h.removeNic hagree hs₀).insertNic hagree₀ hnew harp hs₁
  have hmodel₁ : s₁.model = s₀.model := by
    have hbranch := hagree₀.branch_eq_none hnew nic.vni
    rw [← vniEntry_lookup] at hbranch
    rcases nicAdd_cases hagree₀.graph.started hs₁ with ⟨-, hadded⟩ | ⟨-, hadded⟩ <;>
      exact (hadded.effect hagree₀.graph.started hbranch).model
  rcases nicAdd_cases hagree₀.graph.started hs₁ with ⟨rfl, -⟩ | ⟨rfl, -⟩
  · cases hadd
    exact ⟨hfresh, fun hnic hgn => hothers (hmodel₁ ▸ hnic) hgn⟩
  · cases hadd
    refine ⟨hfresh, fun {id other gn} hother hgn => ?_⟩
    simp only [Server.modifyModel_model, lookup_insertIfNew, hmodel₁, hnew,
      Option.getD_none] at hother
    split at hother
    · cases hother
      exact (hown rfl hgn).congr ⟨rfl, rfl, rfl, rfl⟩
    · exact hothers hother hgn

/-! ### Updates -/

theorem Api.updateTrace_change {update : NicUpdate} {n n' : Nic}
    (h : Api.updateTrace ambient update n s = some (n', s')) : ArpChange [] s s' := by
  unfold Api.updateTrace at h
  split at h
  · obtain ⟨t, ht, heq⟩ := Option.bind_eq_some_iff.mp h
    cases heq
    exact (ArpChange.tuned (nicConfigPacketTrace_tuned ht) fun _ hop _ =>
      offArp_of_trace hop).then_quiet (.modifyModel _ _)
  · cases h
    exact .refl s

theorem Api.updateTracePath_change {update : NicUpdate} {n n' : Nic}
    (h : Api.updateTracePath ambient update n s = some (n', s')) : ArpChange [] s s' := by
  unfold Api.updateTracePath at h
  split at h
  · obtain ⟨t, ht, heq⟩ := Option.bind_eq_some_iff.mp h
    cases heq
    exact (ArpChange.tuned (nicConfigPacketTracePath_tuned ht) fun _ hop _ =>
      offArp_of_trace hop).then_quiet (.modifyModel _ _)
  · cases h
    exact .refl s

theorem actionNicUpdate_change {update : NicUpdate} {old n₂ n₃ : Nic}
    {s₁ s₂ s₃ : Server} {gn : GraphNic} (hgn : s.findNic old = some gn)
    (hstages : UpdateStages P ambient update old s s' n₂ n₃ s₁ s₂ s₃) :
    ArpChange (if Api.ipChanged update old || Api.antiSpoofChanged update old then
      configOps P ambient.ok (Api.revise update old) gn.antispoof
        (Api.revise update old).ipAntiSpoof else []) s s' := by
  have hone : ArpChange (if Api.ipChanged update old || Api.antiSpoofChanged update old then
      configOps P ambient.ok (Api.revise update old) gn.antispoof
        (Api.revise update old).ipAntiSpoof else []) s s₁ := by
    have hset : ArpChange [] s (Api.setNic update.id (Api.revise update old) s) :=
      .modifyModel _ _
    have hfind : (Api.setNic update.id (Api.revise update old) s).findNic
        (Api.revise update old) = some gn := hgn
    rw [hstages.antiSpoof]
    unfold Api.refreshAntiSpoof
    split
    · rw [nicConfigAntiSpoof_ops hfind]
      exact hset.trans (.emits _ _)
    · exact hset
  have hlast : ArpChange [] s₃ s' := by
    rw [hstages.firewall]
    exact .tuned (refreshFirewall_tuned _ _ _ _) fun _ ⟨_, hop⟩ _ => offArp_of_firewall hop
  exact ((hone.then_quiet (Api.updateTrace_change hstages.trace)).then_quiet
    (Api.updateTracePath_change hstages.path)).then_quiet hlast

theorem sameGuard_updatedNic (update : NicUpdate) (old : Nic) :
    SameGuard (Api.revise update old) (updatedNic update old) := by
  unfold updatedNic pathedNic tracedNic
  split <;> split <;> exact ⟨rfl, rfl, rfl, rfl⟩

theorem Guarded.actionNicUpdate (h : Guarded P s) (hagree : Agree s) {update : NicUpdate}
    {error : Option String}
    (harp : ∀ old, s.model.nics[update.id]? = some old →
      (Api.ipChanged update old || Api.antiSpoofChanged update old) = true →
        AcceptsArp P ambient.ok (Api.revise update old))
    (hupdate : Api.actionNicUpdate P ambient update s = some (error, s')) :
    Guarded P s' := by
  have hnics := (stored_nicUpdate hupdate).nics
  rcases actionNicUpdate_cases hupdate with ⟨-, -, rfl⟩ |
      ⟨-, old, hold, n₂, n₃, s₁, s₂, s₃, hstages⟩
  · exact h
  obtain ⟨gn, hgn⟩ := Option.isSome_iff_exists.mp (hagree.findNic hold)
  have hchange := actionNicUpdate_change hgn hstages
  rw [nicsAfter, hold] at hnics
  have hoff : ∀ b, b ≠ gn.antispoof → arpTable b s' = arpTable b s := by
    intro b hne
    rw [hchange.tables, ArpTable.after_of_off]
    intro op hop
    split at hop
    · exact arpOf_configOps _ _ _ _ _ op hop b hne
    · cases hop
  refine ⟨fun n hn => ?_, fun {id nic' gn'} hnic' hgn' => ?_⟩
  · obtain ⟨k, hlt, -, hanti, -⟩ := hagree.graph.bricks hgn
    have hserial := hchange.serial
    rw [hoff _ (by rw [hanti, Ne, Brick.mk.injEq]; omega)]
    exact h.fresh n (by omega)
  · rw [hnics] at hnic'
    simp only [lookup_insert] at hnic'
    split at hnic'
    · next hid =>
        subst hid
        cases hnic'
        have hsame := sameGuard_updatedNic update old
        obtain ⟨gn₀, hgn₀, hbrick⟩ := hchange.findNic hsame.id hsame.vni hgn'
        obtain rfl : gn = gn₀ := Option.some.inj (hgn.symm.trans hgn₀)
        rw [← hbrick, hchange.tables]
        refine Guards.congr ?_ hsame
        split
        · next hchanged => exact guards_config (harp old hold hchanged) _ _
        · next hchanged =>
            simp only [Bool.or_eq_true, not_or, Bool.not_eq_true] at hchanged
            exact (h.guards hold hgn).congr ⟨rfl, rfl, by simp [Api.revise, hchanged.1],
              by simp [Api.revise, hchanged.2]⟩
    · next hid =>
        obtain ⟨gn₀, hgn₀, hbrick⟩ := hchange.findNic rfl rfl hgn'
        have hne := hagree.antispoof_ne hnic' hold hgn₀ hgn (Ne.symm hid)
        rw [← hbrick, hoff _ hne]
        exact h.guards hnic' hgn₀

/-! ## Runs -/

def Action.ArpSafe (P : Platform) (ambient : Ambient) (s : Server) : Action → Prop
  | .nicAdd nic => AcceptsArp P ambient.ok nic
  | .nicUpdate update => ∀ old, s.model.nics[update.id]? = some old →
      (Api.ipChanged update old || Api.antiSpoofChanged update old) = true →
        AcceptsArp P ambient.ok (Api.revise update old)
  | _ => True

theorem Guarded.perform (h : Guarded P s) (hagree : Agree s) {a : Action} {accepted : Bool}
    (harp : a.ArpSafe P ambient s) (hperform : perform P ambient a s = some (accepted, s')) :
    Guarded P s' := by
  cases a with
  | nicAdd nic =>
      obtain ⟨⟨added, t⟩, hadd, heq⟩ := Option.map_eq_some_iff.mp hperform
      cases heq
      exact h.actionNicAdd hagree harp hadd
  | nicUpdate update =>
      obtain ⟨⟨error, t⟩, hupdate, heq⟩ := Option.map_eq_some_iff.mp hperform
      cases heq
      exact h.actionNicUpdate hagree harp hupdate
  | nicDel id =>
      obtain ⟨t, hdel, heq⟩ := Option.map_eq_some_iff.mp hperform
      cases heq
      exact h.removeNic hagree hdel
  | sgAdd | sgDel | sgRuleAdd | sgRuleDel | sgMemberAdd | sgMemberDel =>
      have hchange : ArpChange [] s s' := perform_group_invariant
        (fun _ f _ ht => ht.then_quiet (.modifyModel f _))
        (fun t nic ht => ht.then_quiet (.tuned (fwUpdate_tuned _ nic t)
          fun _ ⟨_, hop⟩ _ => offArp_of_firewall hop))
        (fun t nic rule ht => ht.then_quiet (.tuned (fwAddRule_tuned _ nic rule t)
          fun _ ⟨_, hop⟩ _ => offArp_of_firewall hop))
        (by exact trivial) (ArpChange.refl s) hperform
      have hnics := (perform_stored hagree hperform).nics
      refine h.quiet hchange fun {id nic'} hnic' => ⟨nic', ?_, .refl nic'⟩
      rw [hnics] at hnic'
      exact hnic'

theorem Guarded.sameCore (h : Guarded P s) (hcore : SameCore s s') : Guarded P s' := by
  refine h.quiet ⟨fun v id => ?_, hcore.nextSerial.ge, fun b => ?_⟩ fun {id nic'} hnic' =>
    ⟨nic', hcore.model ▸ hnic', .refl nic'⟩
  · rw [Server.branch, hcore.vnis, Server.branch]
  · rw [arpTable, hcore.ops, arpTable]
    rfl

theorem guarded_start (config : AppConfig) (pid : Nat) (startDate : UInt64) :
    Guarded P (Server.start config pid startDate) := by
  refine ⟨fun n _ => rfl, fun {id nic gn} hnic => ?_⟩
  rw [Server.start_nics] at hnic
  cases hnic

end Steps

def arpSafe (P : Platform) : Allowed := fun s ambient request =>
  ∀ rq c a, request = some rq → Api0.command rq = some c → Asks P ambient s c a →
    a.ArpSafe P ambient s

theorem Reachable.guarded {P : Platform} {s : Server} (h : Reachable P (arpSafe P) s) :
    Guarded P s :=
  h.invariant guarded_start (fun hcore hguarded => hguarded.sameCore hcore)
    fun ht hallowed hc hasks hguarded hperform =>
      hguarded.perform ht.sound.agree (hallowed _ _ _ rfl hc hasks) hperform

theorem setup_eq_config {P : Platform} {ok : PgCall → Bool} {nic : Nic}
    (hon : nic.ipAntiSpoof = true) {s t : Server} {gn : GraphNic}
    (hgn : s.findNic nic = some gn) (hnew : arpTable gn.antispoof t = {}) :
    arpTable gn.antispoof (nicConfigAntiSpoof P ok nic true s) =
      arpTable gn.antispoof (setupAntispoof P ok nic gn.antispoof t) := by
  rw [nicConfigAntiSpoof_ops hgn, setupAntispoof_ops, arpTable_emits, arpTable_emits, hnew]
  simp only [configOps, setupOps, hon, if_true, ArpTable.after_cons, ArpTable.after_append,
    after_arpAddOps]
  simp [ArpTable.step, Antispoofs.act]

def SpoofExact (P : Platform) (s : Server) : Prop :=
  ∀ c : Config Packetgraph Rpc Direct,
    Packetgraph.machine.Reachable (Machine.start s.ops s.startGraph) c → c.todo = [] →
      ∀ (id : String) (nic : Nic), s.model.nics[id]? = some nic →
        ∃ gn, s.findNic nic = some gn ∧ Guards P nic (c.state.antispoofs gn.antispoof)

/--
As long as the addresses of NICs with `ip_anti_spoof` are IPv4 addresses, the
table of such a NIC has exactly its addresses, from whichever of the two
functions it comes, and the table of any other NIC is disabled.
-/
theorem arp_tables_exact {P : Platform} {s : Server} (h : Reachable P (arpSafe P) s) :
    SpoofExact P s ∧
      ∀ (ok : PgCall → Bool) (nic : Nic) (t : Server) (gn : GraphNic),
        nic.ipAntiSpoof = true → s.findNic nic = some gn →
          arpTable gn.antispoof t = {} →
            arpTable gn.antispoof (nicConfigAntiSpoof P ok nic true s) =
              arpTable gn.antispoof (setupAntispoof P ok nic gn.antispoof t) := by
  refine ⟨fun c hc htodo id nic hnic => ?_, fun ok nic t gn hon hgn hnew =>
    setup_eq_config hon hgn hnew⟩
  obtain ⟨gn, hgn⟩ := Option.isSome_iff_exists.mp (h.sound.agree.findNic hnic)
  obtain ⟨done, hops, htables⟩ := arpTable_of_reachable hc
  rw [htodo, List.append_nil] at hops
  refine ⟨gn, hgn, ?_⟩
  rw [htables, ← hops]
  exact h.guarded.guards hnic hgn

theorem convertNicUpdate_hasIpAntiSpoof {P : Platform} {pid : Nat} {garbage : Api0.Garbage}
    {m : MessageV0.NicUpdateReq} {update : NicUpdate}
    (h : Api0.convertNicUpdate P pid garbage m = .ok update) :
    update.hasIpAntiSpoof = m.ipAntiSpoof.isSome := by
  unfold Api0.convertNicUpdate at h
  cases hips : Api0.convertIps P (m.ip.filter (· ≠ "")) [] with
  | error error =>
      rw [hips] at h
      cases h
  | ok ips =>
      rw [hips] at h
      cases h
      rfl

def guardedNic : List MessageV0.Request :=
  [{ nicAdd := some { id := "nic-1", mac := "42:42:42:42:42:42", vni := 321
                      ip := ["1.2.3.4", "1.2.3.5"], ipAntiSpoof := some true } },
   { nicUpdate := some { id := "nic-1", ip := ["4.3.2.1"] } }]

theorem arpSafe_guardedNic : ∀ rq ∈ guardedNic, ∀ s, arpSafe Libc.platform s {} (some rq) := by
  have hips : ∀ texts ∈ [["1.2.3.4", "1.2.3.5"], ["4.3.2.1"]],
      (Api0.convertIps Libc.platform texts []).toOption.any
        (fun ips => ips.all fun ip => (Libc.platform.inetPton4 ip.str).isSome) = true := by
    decide +kernel
  have hsafe : ∀ {texts ips}, texts ∈ [["1.2.3.4", "1.2.3.5"], ["4.3.2.1"]] →
      Api0.convertIps Libc.platform texts [] = .ok ips →
        ∀ ip ∈ ips, (Libc.platform.inetPton4 ip.str).isSome ∧
          ∀ b, ({} : Ambient).ok (.arpAdd b ip) = true := by
    intro texts ips htexts hconvert ip hip
    have hall := hips texts htexts
    rw [hconvert] at hall
    exact ⟨List.all_eq_true.mp hall ip hip, fun _ => rfl⟩
  simp only [guardedNic, List.forall_mem_cons, List.not_mem_nil, false_implies, implies_true,
    and_true]
  constructor
  · rintro s rq c a ⟨⟩ ⟨⟩ hasks
    cases hasks with
    | nicAdd _ hconvert =>
        exact fun _ => hsafe (by simp) (convertNic_fields hconvert).2.2.1
  · rintro s rq c a ⟨⟩ ⟨⟩ hasks
    cases hasks with
    | @nicUpdate _ update _ hconvert =>
        intro old _ hchanged _ ip hip
        have hflag := convertNicUpdate_hasIpAntiSpoof hconvert
        have hlist := (convertNicUpdate_fields hconvert).2.2.1
        have hips : Api.ipChanged update old = true := by
          simpa [Api.antiSpoofChanged, hflag] using hchanged
        simp only [Api.revise, hips, if_true] at hip
        exact hsafe (by simp) hlist ip hip

theorem arp_tables_exact_two_requests :
    ∃ s, Reachable Libc.platform (arpSafe Libc.platform) s ∧ s.model.nics.size = 1 ∧
      SpoofExact Libc.platform s := by
  have hserve : ∃ s, serve Libc.platform {} guardedNic (Server.start {} 1 0) = some s ∧
      s.model.nics.size = 1 := by
    refine ⟨(serve Libc.platform {} guardedNic (Server.start {} 1 0)).get ?_, ?_, ?_⟩
    · decide +kernel
    · simp
    · decide +kernel
  obtain ⟨s, hs, hsize⟩ := hserve
  have hreachable : Reachable Libc.platform (arpSafe Libc.platform) s :=
    (Reachable.start {} 1 0).serve arpSafe_guardedNic hs
  exact ⟨s, hreachable, hsize, (arp_tables_exact hreachable).1⟩

/-- The first NIC of the test of NICs: two IPv4 addresses and one IPv6 address. -/
def mixedNic : List MessageV0.Request :=
  [{ nicAdd := some { id := "nic-1", mac := "42:42:42:42:42:42", vni := 321
                      ip := ["1.2.3.4", "1.2.3.5", "2001:0db8:0000:85a3:0000:0000:ac1f:8001"]
                      securityGroup := ["sg-1", "sg-2"], ipAntiSpoof := some true } }]

/-- Its table also has whatever `inet_pton` left in `ip` for the IPv6 address. -/
theorem mixed_nic_allows_garbage :
    ¬∀ s, Reachable Libc.platform anything s → SpoofExact Libc.platform s := by
  intro h
  have hserve : (serve Libc.platform {} mixedNic (Server.start {} 1 0)).any (fun s =>
      (s.model.nics["nic-1"]?).any fun nic => nic.ipAntiSpoof &&
        (s.findNic nic).any fun gn => (arpTable gn.antispoof s).allowed.contains none) = true := by
    decide +kernel
  obtain ⟨s, hs, hany⟩ := (Option.any_eq_true _ _).mp hserve
  obtain ⟨nic, hnic, hany⟩ := (Option.any_eq_true _ _).mp hany
  obtain ⟨hon, hany⟩ := Bool.and_eq_true_iff.mp hany
  obtain ⟨gn, hgn, hnone⟩ := (Option.any_eq_true _ _).mp hany
  have hreachable : Reachable Libc.platform anything s :=
    (Reachable.start {} 1 0).serve (fun _ _ _ => trivial) hs
  obtain ⟨c, hc, htodo, -, -⟩ := drained_settled s
  obtain ⟨done, hops, htables⟩ := arpTable_of_reachable hc
  rw [htodo, List.append_nil] at hops
  obtain ⟨gn', hgn', hguards⟩ := h s hreachable c hc htodo "nic-1" nic hnic
  obtain rfl : gn = gn' := Option.some.inj (hgn.symm.trans hgn')
  rw [htables, ← hops] at hguards
  obtain ⟨ip, -, v, -, hv⟩ := (hguards.allowed hon none).mp (List.contains_iff_mem.mp hnone)
  cases hv

end Butterfly
