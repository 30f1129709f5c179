import Butterfly.GraphSpec

/-!
# What is destroyed

A brick goes with the last pointer to it, by `pg_brick_destroy` in the API thread, or by a
`BRICK_DESTROY` if it is the firewall of a branch.  `NicAdd` gives back what it has created
when it cannot go on.
-/

namespace Butterfly

open Foundation Butterfly.Graph

def victim : Op Rpc Direct → Option Brick
  | .push (.brickDestroy b) | .direct (.destroy b) => some b
  | _ => none

def destroyed (ops : List (Op Rpc Direct)) : List Brick := ops.filterMap victim

@[simp] theorem destroyed_append (first second : List (Op Rpc Direct)) :
    destroyed (first ++ second) = destroyed first ++ destroyed second :=
  List.filterMap_append

@[simp] theorem destroyed_destroyOps (bricks : List Brick) :
    destroyed (destroyOps bricks) = bricks := by
  induction bricks with
  | nil => rfl
  | cons b bricks ih =>
      change b :: destroyed (destroyOps bricks) = _
      rw [ih]

theorem destroyed_retireOps (n : GraphNic) :
    destroyed (retireOps n) = n.firewall :: branchBricks n := by
  rw [retireOps, destroyed_append, destroyed_destroyOps]
  rfl

@[simp] theorem destroyed_fwNewOps (ok : PgCall → Bool) (nic : Nic) (serial : Nat) :
    destroyed (fwNewOps ok nic serial) = [] := rfl

theorem destroyed_eq_nil {ops : List (Op Rpc Direct)} (h : ∀ op ∈ ops, victim op = none) :
    destroyed ops = [] :=
  List.filterMap_eq_nil_iff.mpr h

theorem calm_destroys_nothing {op : Op Rpc Direct} (h : CalmOp op) : victim op = none := by
  cases h <;> rfl

theorem firewallOp_destroys_nothing {op : Op Rpc Direct} (h : ∃ b, FirewallOp b op) :
    victim op = none := by
  obtain ⟨b, hb⟩ := h
  cases hb <;> rfl

theorem destroyed_links (links : List (Brick × Brick)) : destroyed (links.map linkOp) = [] := by
  refine destroyed_eq_nil fun op hop => ?_
  obtain ⟨link, -, rfl⟩ := List.mem_map.mp hop
  rfl

/-! ## A refused NIC -/

section Refused

variable {s s' : Server}

/-- The branch gives back what it has created, each brick once. -/
theorem createBranch_once {P : Platform} {ok : PgCall → Bool} {nic : Nic}
    (h : createBranch P ok nic s = some (none, s')) :
    ∃ ops, s'.ops = s.ops ++ ops ∧ (destroyed ops).Nodup := by
  obtain ⟨arp, harp, harpEq⟩ := setupAntispoof_eq P ok nic ⟨.antispoof, s.nextSerial⟩
    (s.takeSerial.emits (fwNewOps ok nic s.nextSerial))
  obtain ⟨trace, htrace, htraceEq⟩ := openTrace_eq nic ⟨.sniffer, s.nextSerial⟩
    ((s.takeSerial.emits (fwNewOps ok nic s.nextSerial)).emits arp)
  have hcalm : ∀ {ops}, (∀ op ∈ ops, CalmOp op) → destroyed ops = [] :=
    fun hops => destroyed_eq_nil fun op hop => calm_destroys_nothing (hops op hop)
  have hstart : Server.waitEmptyQueue (Server.push
      (.fwNew ("firewall-" ++ nic.id)
        (if ok (.firewallNew ("firewall-" ++ nic.id)) then
          some ⟨.firewall, s.nextSerial⟩ else none))
      s.takeSerial) =
        s.takeSerial.emits (fwNewOps ok nic s.nextSerial) := by
    simp [fwNewOps]
  -- What is released after the calls of `NicAdd` that went well.
  have hrelease : ∀ bricks : List Brick, bricks.Nodup →
      (destroyed (fwNewOps ok nic s.nextSerial ++ (arp ++ destroyOps bricks))).Nodup ∧
      (destroyed (fwNewOps ok nic s.nextSerial ++
        (arp ++ (trace ++ destroyOps bricks)))).Nodup := by
    intro bricks hbricks
    simpa [hcalm harp, hcalm htrace] using hbricks
  have hnodup : ∀ {a b : BrickKind}, a ≠ b →
      [(⟨a, s.nextSerial⟩ : Brick), ⟨b, s.nextSerial⟩].Nodup := by
    intro a b hab
    simpa using hab
  simp only [createBranch, hstart, harpEq, htraceEq] at h
  -- One case for each early return, in the order of the source.
  split at h
  · cases h
    exact ⟨_, rfl, by simp⟩
  split at h
  · cases h
    exact ⟨_, rfl, by simp⟩
  split at h
  · cases h
  split at h
  · cases h
    exact ⟨_, by simp [destroyOps], (hrelease [⟨.antispoof, s.nextSerial⟩] (by simp)).1⟩
  split at h
  · cases h
    exact ⟨_, by simp [destroyOps],
      (hrelease [⟨.vhost, s.nextSerial⟩, ⟨.antispoof, s.nextSerial⟩] (hnodup (by decide))).1⟩
  split at h
  · split at h
    · split at h
      · cases h
        exact ⟨_, by simp [destroyOps], (hrelease [⟨.vhost, s.nextSerial⟩,
          ⟨.antispoof, s.nextSerial⟩, ⟨.sniffer, s.nextSerial⟩] (by simp)).2⟩
      · cases h
    · cases h
  · split at h
    · cases h
      refine ⟨_, by simp [destroyOps], (hrelease ((newBranch nic s.nextSerial).sniffer.toList ++
        [⟨.vhost, s.nextSerial⟩, ⟨.antispoof, s.nextSerial⟩]) ?_).2⟩
      cases htraced : nic.packetTrace <;> simp [newBranch, htraced]
    · cases h

def GivesBack (ok : PgCall → Bool) (nic : Nic) (s s' : Server) : Prop :=
  creates ok nic s.nextSerial = false → ∃ ops, s'.ops = s.ops ++ ops ∧ (destroyed ops).Nodup

theorem nicAdd_givesBack {P : Platform} {ok : PgCall → Bool} {nic : Nic} {added : Option Nic}
    (hstarted : s.started = true) (h : nicAdd P ok nic s = some (added, s')) :
    GivesBack ok nic s s' := by
  intro hfail
  simp only [nicAdd, hstarted, Bool.not_true, Bool.false_eq_true, if_false,
    Option.bind_eq_bind, Option.bind_eq_some_iff, Prod.exists] at h
  obtain ⟨branch, s₁, hcreate, h⟩ := h
  cases branch with
  | none =>
      cases h
      obtain ⟨ops, hops, honce⟩ := createBranch_once hcreate
      exact ⟨ops, hops, honce⟩
  | some gn =>
      rcases createBranch_cases hcreate with ⟨hnone, -⟩ | ⟨-, hcreated⟩
      · cases hnone
      · have hsame : (openVni nic.vni s).nextSerial = s.nextSerial := rfl
        have hsucceed := hcreated.1
        rw [hsame, hfail] at hsucceed
        cases hsucceed

end Refused

end Butterfly
