import Butterfly.Holding

/-!
# Every brick is destroyed at most once

The log of the API thread is a ledger of the bricks that are gone: what it names once is
not held any more, and what is held is not in it.
-/

namespace Butterfly

open Std Foundation MessageV0 Butterfly.Graph

structure Switched (s : Server) : Prop where
  kind : ∀ {v sw}, s.switch? v = some sw → sw.kind = .switch
  used : ∀ {v}, (s.switch? v).isSome → ∃ id, (s.branch v id).isSome
  apart : ∀ {v v' sw}, s.switch? v = some sw → s.switch? v' = some sw → v = v'

/-- What the log says of the bricks that are gone, and of those that were held at one time. -/
structure Ledger (once : Set Brick) (s : Server) : Prop where
  nodup : (destroyed s.ops).Nodup
  taken : ∀ b ∈ destroyed s.ops, b.serial < s.nextSerial
  held : ∀ b, s.Holds b → b ∉ destroyed s.ops
  all : ∀ b ∈ once, s.Holds b ∨ b ∈ destroyed s.ops

structure Tidy (once : Set Brick) (s : Server) : Prop where
  numbered : Numbered s
  owned : Owned s
  switched : Switched s
  ledger : Ledger once s

section Steps

variable {once : Set Brick} {s s' : Server}

/--
What a step destroys was held or is new, and nobody holds it afterwards.  What was held
is held still or destroyed.
-/
theorem Ledger.step (h : Ledger once s) (hnumbered : Numbered s) {ops : List (Op Rpc Direct)}
    (hops : s'.ops = s.ops ++ ops) (hserial : s.nextSerial ≤ s'.nextSerial)
    (hnodup : (destroyed ops).Nodup)
    (hvictim : ∀ b ∈ destroyed ops,
      (s.Holds b ∨ s.nextSerial ≤ b.serial ∧ b.serial < s'.nextSerial) ∧ ¬s'.Holds b)
    (hback : ∀ b, s'.Holds b → s.Holds b ∨ s.nextSerial ≤ b.serial)
    (hkept : ∀ b, s.Holds b → s'.Holds b ∨ b ∈ destroyed ops) : Ledger once s' := by
  have hfresh : ∀ b ∈ destroyed s.ops, ¬(s.Holds b ∨ s.nextSerial ≤ b.serial) := by
    rintro b hb (hheld | hnew)
    · exact h.held b hheld hb
    · exact absurd (h.taken b hb) (Nat.not_lt.mpr hnew)
  have hmem : ∀ b, b ∈ destroyed s'.ops ↔ b ∈ destroyed s.ops ∨ b ∈ destroyed ops := by
    intro b
    rw [hops, destroyed_append, List.mem_append]
  refine ⟨?_, fun b hb => ?_, fun b hb hdead => ?_, fun b hb => ?_⟩
  · rw [hops, destroyed_append]
    refine List.nodup_append.mpr ⟨h.nodup, hnodup, ?_⟩
    rintro b hb _ hb' rfl
    exact hfresh b hb ((hvictim b hb').1.imp_right And.left)
  · rcases (hmem b).mp hb with hold | hnew
    · exact Nat.lt_of_lt_of_le (h.taken b hold) hserial
    · rcases (hvictim b hnew).1 with hheld | ⟨-, hlt⟩
      · exact Nat.lt_of_lt_of_le (hnumbered.holds hheld) hserial
      · exact hlt
  · rcases (hmem b).mp hdead with hold | hnew
    · exact hfresh b hold (hback b hb)
    · exact (hvictim b hnew).2 hb
  · rw [hmem]
    rcases h.all b hb with hheld | hgone
    · exact (hkept b hheld).imp_right .inr
    · exact .inr (.inl hgone)

/-- A step that destroys nothing and lets nothing go. -/
theorem Ledger.spared (h : Ledger once s) (hnumbered : Numbered s) {ops : List (Op Rpc Direct)}
    (hops : s'.ops = s.ops ++ ops) (hserial : s.nextSerial ≤ s'.nextSerial)
    (hnone : destroyed ops = []) (hholds : ∀ b, s'.Holds b ↔ s.Holds b) : Ledger once s' := by
  refine h.step hnumbered hops hserial ?_ ?_ (fun b hb => .inl ((hholds b).mp hb))
    fun b hb => .inl ((hholds b).mpr hb)
  · rw [hnone]
    exact List.nodup_nil
  · rw [hnone]
    simp

theorem Switched.same (h : Switched s) (hsw : ∀ v, s'.switch? v = s.switch? v)
    (hbranch : ∀ v id, (s.branch v id).isSome → (s'.branch v id).isSome) : Switched s' := by
  refine ⟨fun hs => h.kind (hsw _ ▸ hs), fun {v} hs => ?_,
    fun hs hs' => h.apart (hsw _ ▸ hs) (hsw _ ▸ hs')⟩
  rw [hsw v] at hs
  obtain ⟨id, hid⟩ := h.used hs
  exact ⟨id, hbranch v id hid⟩

theorem Switched.emits (h : Switched s) (ops : List (Op Rpc Direct)) : Switched (s.emits ops) :=
  h.same (fun _ => rfl) fun _ _ hid => hid

/-! ## What a step keeps -/

namespace Tidy

theorem emits (h : Tidy once s) {ops : List (Op Rpc Direct)} (hnumbered : Numbered (s.emits ops))
    (hnone : ∀ op ∈ ops, victim op = none) : Tidy once (s.emits ops) :=
  ⟨hnumbered, h.owned.same fun _ _ => rfl, h.switched.emits ops,
    h.ledger.spared h.numbered rfl le_rfl (destroyed_eq_nil hnone) fun _ => Iff.rfl⟩

theorem modifyModel (h : Tidy once s) (f : Model → Model) : Tidy once (s.modifyModel f) :=
  ⟨h.numbered.modifyModel f, h.owned.same fun _ _ => rfl,
    h.switched.same (fun _ => rfl) fun _ _ hid => hid,
    ⟨h.ledger.nodup, h.ledger.taken, h.ledger.held, h.ledger.all⟩⟩

/-- One branch gets another head, and the old one goes if no pointer is left to it. -/
theorem reshape (h : Tidy once s) {nic : Butterfly.Nic} {gn gn' : GraphNic}
    {ops : List (Op Rpc Direct)} (hr : Reshapes nic gn gn' ops s s') (hnumbered : Numbered s')
    (howned : Owned s') : Tidy once s' := by
  have hgn : s.branch nic.vni nic.id = some gn := (Server.findNic_eq nic s).symm.trans hr.found
  have hhead : gn.head ∈ gn.bricks := by simp [GraphNic.bricks]
  have hkind := h.owned.kinds hgn gn.head hhead
  have hholds : ∀ b, s'.Holds b → b ∈ gn'.bricks ∨
      (∃ v id g, ¬(nic.vni = v ∧ nic.id = id) ∧ s.branch v id = some g ∧ b ∈ g.bricks) ∨
        ∃ v, s.switch? v = some b := by
    rintro b (⟨v, id, g, hg, hb⟩ | ⟨v, hv⟩)
    · rw [hr.branch] at hg
      split at hg
      · cases hg
        exact .inl hb
      · next hkey => exact .inr (.inl ⟨v, id, g, hkey, hg, hb⟩)
    · exact .inr (.inr ⟨v, hr.switches v ▸ hv⟩)
  refine ⟨hnumbered, howned, h.switched.same hr.switches fun v id hid => ?_,
    h.ledger.step h.numbered hr.log hr.serial ?_ (fun b hb => ?_) (fun b hb => ?_)
      fun b hb => ?_⟩
  · rw [hr.branch]
    split
    · rfl
    · exact hid
  · rw [hr.gone]
    split
    · exact List.nodup_nil
    · exact List.nodup_singleton _
  · rw [hr.gone] at hb
    split at hb
    · cases hb
    · next hnone =>
        obtain rfl := List.mem_singleton.mp hb
        refine ⟨.inl (.inl ⟨_, _, gn, hgn, hhead⟩), fun hafter => ?_⟩
        rcases hholds _ hafter with hmem | ⟨v, id, g, hkey, hg, hmem⟩ | ⟨v, hv⟩
        · exact hnone hmem
        · exact hkey (h.owned.apart hgn hg hhead hmem)
        · rw [h.switched.kind hv] at hkind
          cases hkind
  · rcases hholds b hb with hmem | ⟨v, id, g, -, hg, hmem⟩ | hv
    · exact (hr.bricks b hmem).imp_left fun hold => .inl ⟨_, _, gn, hgn, hold⟩
    · exact .inl (.inl ⟨v, id, g, hg, hmem⟩)
    · exact .inl (.inr hv)
  · rw [hr.gone]
    have hhere : ∀ b ∈ gn'.bricks, s'.Holds b := fun b hb =>
      .inl ⟨nic.vni, nic.id, gn', by rw [hr.branch, if_pos ⟨rfl, rfl⟩], hb⟩
    rcases hb with ⟨v, id, g, hg, hb⟩ | ⟨v, hv⟩
    · by_cases hkey : nic.vni = v ∧ nic.id = id
      · obtain ⟨rfl, rfl⟩ := hkey
        obtain rfl := Option.some.inj (hg.symm.trans hgn)
        rcases hr.kept b hb with rfl | hmem
        · split
          · next hmem => exact .inl (hhere _ hmem)
          · exact .inr List.mem_cons_self
        · exact .inl (hhere b hmem)
      · exact .inl (.inl ⟨v, id, g, by rw [hr.branch, if_neg hkey, hg], hb⟩)
    · exact .inl (.inr ⟨v, by rw [hr.switches, hv]⟩)

theorem fwUpdate (h : Tidy once s) (ok : PgCall → Bool) (nic : Butterfly.Nic) :
    Tidy once (Graph.fwUpdate ok nic s) := by
  rcases fwUpdate_reshapes ok nic s with heq | ⟨-, gn, gn', ops, hr⟩
  · rwa [heq]
  · exact h.reshape hr (h.numbered.fwUpdate ok nic) (h.owned.fwUpdate h.numbered ok nic)

theorem fwAddRule (h : Tidy once s) (ok : PgCall → Bool) (nic : Butterfly.Nic)
    (rule : Butterfly.Rule) : Tidy once (Graph.fwAddRule ok nic rule s) := by
  rcases fwAddRule_reshapes ok nic rule s with heq | ⟨-, gn, gn', ops, hr⟩
  · rwa [heq]
  · exact h.reshape hr (h.numbered.fwAddRule ok nic rule) (h.owned.fwAddRule h.numbered ok nic rule)

theorem traceStep (h : Tidy once s) {nic : Butterfly.Nic} (hstep : TraceStep nic s s') :
    Tidy once s' := by
  rcases hstep.reshapes with rfl | ⟨gn, gn', ops, hr⟩
  · exact h.emits h.numbered.updatePoll (by simp [victim])
  · exact h.reshape hr (h.numbered.traceStep hstep) (h.owned.traceStep h.numbered hstep)

/-- A branch goes with its bricks, and perhaps the switch of its VNI. -/
theorem retire (h : Tidy once s) (hok : GraphOk s) {nic : Butterfly.Nic} {gn : GraphNic}
    {sw : Option Brick} {ops : List (Op Rpc Direct)} (hr : Retires nic gn sw ops s s')
    (hnumbered : Numbered s') (howned : Owned s') : Tidy once s' := by
  have hsubset : ∀ b ∈ gn.firewall :: branchBricks gn, b ∈ gn.bricks := by
    refine List.forall_mem_cons.mpr ⟨by simp [GraphNic.bricks], fun b hb => ?_⟩
    exact branchBricks_subset gn hb
  have hback : ∀ {v id g}, s'.branch v id = some g →
      ¬(nic.vni = v ∧ nic.id = id) ∧ s.branch v id = some g := by
    intro v id g hg
    rw [hr.effect.branch] at hg
    split at hg
    · cases hg
    · next hkey => exact ⟨hkey, hg⟩
  refine ⟨hnumbered, howned, ⟨fun hb => h.switched.kind (hr.switches hb).1, fun {v} hv => ?_,
    fun hb hb' => h.switched.apart (hr.switches hb).1 (hr.switches hb').1⟩,
    h.ledger.step h.numbered hr.log hr.effect.serial.ge ?_ (fun b hb => ?_) (fun b hb => .inl ?_)
      fun b hb => ?_⟩
  · obtain ⟨b, hb⟩ := Option.isSome_iff_exists.mp hv
    obtain ⟨hsame, hused⟩ := hr.switches hb
    by_cases hkey : nic.vni = v
    · exact (hused hkey).2
    · obtain ⟨id, hid⟩ := h.switched.used (v := v) (by rw [hsame]; rfl)
      refine ⟨id, ?_⟩
      rwa [hr.effect.branch, if_neg fun hboth => hkey hboth.1]
  · rw [hr.gone.nodup_iff]
    refine List.nodup_append.mpr ⟨h.owned.nodup hok hr.found, ?_, ?_⟩
    · cases sw with
      | none => exact List.nodup_nil
      | some b => exact List.nodup_singleton b
    · rintro b hb b' hb' rfl
      have hkind := h.owned.kinds hr.found b (hsubset b hb)
      rw [h.switched.kind (hr.old b (Option.mem_toList.mp hb'))] at hkind
      cases hkind
  · rcases List.mem_append.mp (hr.gone.mem_iff.mp hb) with hmem | hmem
    · have hbrick := hsubset b hmem
      refine ⟨.inl (.inl ⟨_, _, gn, hr.found, hbrick⟩), ?_⟩
      rintro (⟨v, id, g, hg, hmem'⟩ | ⟨v, hv⟩)
      · obtain ⟨hkey, hg⟩ := hback hg
        exact hkey (h.owned.apart hr.found hg hbrick hmem')
      · have hkind := h.owned.kinds hr.found b hbrick
        rw [h.switched.kind (hr.switches hv).1] at hkind
        cases hkind
    · have hsw := hr.old b (Option.mem_toList.mp hmem)
      refine ⟨.inl (.inr ⟨_, hsw⟩), ?_⟩
      rintro (⟨v, id, g, hg, hmem'⟩ | ⟨v, hv⟩)
      · have hkind := h.owned.kinds (hback hg).2 b hmem'
        rw [h.switched.kind hsw] at hkind
        cases hkind
      · obtain ⟨hv, hgone⟩ := hr.switches hv
        rw [(hgone (h.switched.apart hsw hv)).1] at hmem
        cases hmem
  · rcases hb with ⟨v, id, g, hg, hmem⟩ | ⟨v, hv⟩
    · exact .inl ⟨v, id, g, (hback hg).2, hmem⟩
    · exact .inr ⟨v, (hr.switches hv).1⟩
  · rw [hr.gone.mem_iff, List.mem_append]
    rcases hb with ⟨v, id, g, hg, hb⟩ | ⟨v, hv⟩
    · by_cases hkey : nic.vni = v ∧ nic.id = id
      · obtain ⟨rfl, rfl⟩ := hkey
        obtain rfl := Option.some.inj (hg.symm.trans hr.found)
        exact .inr (.inl (bricks_subset g b hb))
      · exact .inl (.inl ⟨v, id, g, by rw [hr.effect.branch, if_neg hkey, hg], hb⟩)
    · rcases hr.kept hv with hv | hmem
      · exact .inl (.inr ⟨v, hv⟩)
      · exact .inr (.inr (Option.mem_toList.mpr hmem))

theorem deleted (h : Tidy once s) (hok : GraphOk s) {nic : Butterfly.Nic}
    (hdel : NicDeleted nic s s') : Tidy once s' := by
  rcases hdel.retires hok with rfl | ⟨gn, sw, ops, hr⟩
  · exact h
  · exact h.retire hok hr (h.numbered.deleted hdel) (h.owned.deleted hdel)

/-- A branch comes or not, and the switch of its VNI is kept or destroyed. -/
theorem grow (h : Tidy once s) {nic : Butterfly.Nic} {accepted : Bool} {sw : Option Brick}
    {ops : List (Op Rpc Direct)} (hg : Grows nic accepted sw ops s s')
    (hnew : s.branch nic.vni nic.id = none) (hnumbered : Numbered s') (howned : Owned s') :
    Tidy once s' := by
  have hbranch := hg.effect.branch hnew
  -- A switch is one of before, or the new one.
  have hback : ∀ {v b}, s'.switch? v = some b → s.switch? v = some b ∨
      nic.vni = v ∧ b = ⟨.switch, s.nextSerial + 1⟩ ∧ ∃ id, (s.branch nic.vni id).isSome := by
    intro v b hb
    rw [hg.switches] at hb
    split at hb
    · next hv =>
        subst hv
        rcases hg.choice with rfl | rfl | ⟨rfl, hused⟩
        · exact .inl hb
        · cases hb
        · cases hb
          exact .inr ⟨rfl, rfl, hused⟩
    · exact .inl hb
  have hholds : ∀ b, s'.Holds b → s.Holds b ∨ s.nextSerial ≤ b.serial := by
    rintro b (⟨v, id, gn, hgn, hb⟩ | ⟨v, hv⟩)
    · rw [hbranch] at hgn
      split at hgn
      · cases hgn
        rw [filled_bricks] at hb
        exact .inr (newBranch_bricks nic _ b hb).ge
      · exact .inl (.inl ⟨v, id, gn, hgn, hb⟩)
    · rcases hback hv with hv | ⟨-, rfl, -⟩
      · exact .inl (.inr ⟨v, hv⟩)
      · exact .inr (Nat.le_succ _)
  have hstill : ∀ b, s.Holds b → s'.Holds b ∨ b ∈ destroyed ops := by
    rintro b (⟨v, id, gn, hgn, hb⟩ | ⟨v, hv⟩)
    · refine .inl (.inl ⟨v, id, gn, ?_, hb⟩)
      rw [hbranch, if_neg, hgn]
      rintro ⟨-, rfl, rfl⟩
      rw [hnew] at hgn
      cases hgn
    · by_cases hkey : nic.vni = v
      · subst hkey
        exact (hg.kept b hv).imp_left fun hb => .inr ⟨nic.vni, by rw [hg.switches, if_pos rfl, hb]⟩
      · exact .inl (.inr ⟨v, by rw [hg.switches, if_neg hkey, hv]⟩)
  have hswitched : Switched s' := by
    refine ⟨fun hb => ?_, fun {v} hv => ?_, fun {v v' b} hb hb' => ?_⟩
    · rcases hback hb with hb | ⟨-, rfl, -⟩
      · exact h.switched.kind hb
      · rfl
    · obtain ⟨b, hb⟩ := Option.isSome_iff_exists.mp hv
      have hused : ∃ id, (s.branch v id).isSome := by
        rcases hback hb with hb | ⟨rfl, -, hused⟩
        · exact h.switched.used (by rw [hb]; rfl)
        · exact hused
      obtain ⟨id, hid⟩ := hused
      refine ⟨id, ?_⟩
      rw [hbranch]
      split
      · rfl
      · exact hid
    · rcases hback hb with hold | ⟨rfl, rfl, -⟩
      · rcases hback hb' with hold' | ⟨rfl, rfl, -⟩
        · exact h.switched.apart hold hold'
        · have hlt := h.numbered.holds (.inr ⟨v, hold⟩)
          simp at hlt
      · rcases hback hb' with hold' | ⟨hv', -, -⟩
        · have hlt := h.numbered.holds (.inr ⟨v', hold'⟩)
          simp at hlt
        · exact hv'
  refine ⟨hnumbered, howned, hswitched, h.ledger.step h.numbered hg.log hg.effect.serial.le hg.nodup
    (fun b hb => ?_) hholds hstill⟩
  rcases hg.gone b hb with ⟨hold, hne⟩ | ⟨rfl, hkind, hserial⟩
  · have hlt := h.numbered.holds (.inr ⟨_, hold⟩)
    refine ⟨.inl (.inr ⟨_, hold⟩), ?_⟩
    rintro (⟨v, id, gn, hgn, hmem⟩ | ⟨v, hv⟩)
    · have hkind := howned.kinds hgn b hmem
      rw [h.switched.kind hold] at hkind
      cases hkind
    · rcases hback hv with hv' | ⟨-, rfl, -⟩
      · obtain rfl := h.switched.apart hold hv'
        rw [hg.switches, if_pos rfl] at hv
        exact hne hv
      · simp at hlt
  · refine ⟨.inr ⟨hserial.ge, hserial ▸ hg.effect.serial⟩, ?_⟩
    rintro (⟨v, id, gn, hgn, hmem⟩ | ⟨v, hv⟩)
    · rw [hbranch, if_neg (by simp)] at hgn
      exact absurd (h.numbered.branches hgn b hmem) (by omega)
    · rw [hswitched.kind hv] at hkind
      cases hkind

theorem added (h : Tidy once s) {ok : PgCall → Bool} {nic : Butterfly.Nic} {accepted : Bool}
    (hstarted : s.started = true) (hnew : s.branch nic.vni nic.id = none)
    (hadded : NicAdded ok nic s accepted s') (hback : GivesBack ok nic s s') :
    Tidy once s' := by
  obtain ⟨sw, ops, hg⟩ := hadded.grows h.numbered h.switched.kind hstarted hnew hback
  have hentry : (vniEntry nic.vni s).nics[nic.id]? = none := by rw [vniEntry_lookup, hnew]
  exact h.grow hg hnew (h.numbered.added hstarted hentry hadded)
    (h.owned.added h.numbered hstarted hnew hadded)

end Tidy

end Steps

/-! ## Runs -/

section Runs

variable {P : Platform} {once : Set Brick} {s s' : Server}

theorem Tidy.sameCore (h : Tidy once s) (hcore : SameCore s s') : Tidy once s' := by
  have hbranch : ∀ v id, s'.branch v id = s.branch v id := fun v id => by
    rw [Server.branch, hcore.vnis, Server.branch]
  have hsw : ∀ v, s'.switch? v = s.switch? v := fun v => by
    rw [Server.switch?, hcore.vnis, Server.switch?]
  refine ⟨h.numbered.sameCore hcore, h.owned.same hbranch,
    h.switched.same hsw fun v id hid => by rwa [hbranch],
    h.ledger.spared h.numbered (hcore.ops.trans (List.append_nil _).symm) hcore.nextSerial.ge rfl
      fun b => ?_⟩
  simp only [Server.Holds, hbranch, hsw]

theorem tidy_start (config : AppConfig) (pid : Nat) (startDate : UInt64) :
    Tidy ∅ (Server.start config pid startDate) := by
  have hsw : ∀ v, (Server.start config pid startDate).switch? v = none := fun v => by
    rw [Server.switch?, Server.start_vnis]
    rfl
  have hnone : destroyed (Server.start config pid startDate).ops = [] := rfl
  refine ⟨numbered_start config pid startDate, owned_start config pid startDate,
    ⟨fun {v sw} h => ?_, fun {v} h => ?_, fun {v v' sw} h => ?_⟩, ⟨?_, ?_, ?_, ?_⟩⟩
  · simp [hsw] at h
  · simp [hsw] at h
  · simp [hsw] at h
  · rw [hnone]
    exact List.nodup_nil
  · simp [hnone]
  · simp [hnone]
  · simp

theorem tidy_kept (ambient : Ambient) (once : Set Brick) : KeptByStep ambient (Tidy once) where
  model f h := h.modifyModel f
  calm h hops := h.emits ((numbered_kept ambient).calm h.numbered hops) fun op hop =>
    calm_destroys_nothing (hops op hop)
  trace h hstep := h.traceStep hstep
  update nic h := h.fwUpdate ambient.ok nic
  rule nic rule h := h.fwAddRule ambient.ok nic rule
  added h hstarted hnew hadded hback := h.added hstarted hnew hadded hback
  deleted h hok hdeleted := h.deleted hok hdeleted

theorem Reachable.tidy {allowed : Allowed} (h : Reachable P allowed s) : Tidy ∅ s :=
  h.invariant tidy_start (fun hcore h => h.sameCore hcore)
    fun hs _ _ _ h hperform => (tidy_kept _ _).perform hs.sound.agree h hperform

theorem Later.tidy {allowed : Allowed} (h : Later P allowed s s') (hs : Reachable P allowed s) :
    Tidy {b | s.Holds b} s' := by
  have htidy := hs.tidy
  exact h.invariant hs (fun hcore h => h.sameCore hcore)
    (fun ht _ _ _ h hperform => (tidy_kept _ _).perform ht.sound.agree h hperform)
    ⟨htidy.numbered, htidy.owned, htidy.switched, htidy.ledger.nodup, htidy.ledger.taken,
      htidy.ledger.held, fun _ hb => .inl hb⟩

/-! ## Interleavings -/

/-- A brick is counted for every operation that destroys it. -/
theorem counts_dead (b : Brick) : BrickGraph.machine.Counts (fun g => g.dead.count b)
    (fun op => if victim op = some b then 1 else 0) where
  exec c g := by
    cases c with
    | brickDestroy x => simp [BrickGraph.machine, BrickGraph.exec, BrickGraph.destroy, victim,
        List.count_cons]
    | _ => rfl
  wait := rfl
  act d g := by
    cases d with
    | destroy x => simp [BrickGraph.machine, BrickGraph.act, BrickGraph.destroy, victim,
        List.count_cons]
    | _ => rfl

theorem sum_victims (b : Brick) (ops : List (Op Rpc Direct)) :
    (ops.map fun op => if victim op = some b then 1 else 0).sum = (destroyed ops).count b := by
  induction ops with
  | nil => rfl
  | cons op ops ih =>
      rw [List.map_cons, List.sum_cons, ih, destroyed, destroyed]
      cases hvictim : victim op with
      | none => simp [hvictim]
      | some x =>
          rw [List.filterMap_cons_some hvictim, List.count_cons]
          by_cases hx : x = b
          · simp [hx, Nat.add_comm]
          · simp [hx]

theorem startGraph_dead (s : Server) : s.startGraph.graph.dead = [] := by
  unfold Server.startGraph
  split <;> rfl

theorem count_dead_le (s : Server) {c : Config Packetgraph Rpc Direct}
    (hc : Packetgraph.machine.Reachable (Machine.start s.ops s.startGraph) c) (b : Brick) :
    c.state.graph.dead.count b ≤ (destroyed s.ops).count b := by
  have hle := (counts_dead b).le_of_reachable (reachable_graph hc)
  rw [sum_victims, startGraph_dead, List.count_nil, Nat.zero_add] at hle
  exact hle

theorem count_dead_eq (s : Server) {c : Config Packetgraph Rpc Direct}
    (hc : Packetgraph.machine.Reachable (Machine.start s.ops s.startGraph) c)
    (htodo : c.todo = []) (hpending : c.pending = []) (b : Brick) :
    c.state.graph.dead.count b = (destroyed s.ops).count b := by
  have hall := (counts_dead b).eq_of_reachable (reachable_graph hc) htodo hpending
  rw [sum_victims, startGraph_dead, List.count_nil, Nat.zero_add] at hall
  exact hall

/--
Whatever the interleaving, no brick is destroyed twice, and none that the server has a
pointer to.  A brick that it had a pointer to before, and has not any more, is destroyed
when the poller has executed everything.
-/
theorem bricks_are_destroyed_once (hs : Reachable P anything s) (hlater : Later P anything s s')
    {c : Config Packetgraph Rpc Direct}
    (hc : Packetgraph.machine.Reachable (Machine.start s'.ops s'.startGraph) c) :
    c.state.graph.dead.Nodup ∧ (∀ b, s'.Holds b → b ∉ c.state.graph.dead) ∧
      (c.todo = [] → c.pending = [] →
        ∀ b, s.Holds b → ¬s'.Holds b → b ∈ c.state.graph.dead) := by
  have hledger := (hlater.tidy hs).ledger
  refine ⟨List.nodup_iff_count_le_one.mpr fun b => ?_, fun b hb hdead => ?_,
    fun htodo hpending b hb hgone => ?_⟩
  · exact (count_dead_le s' hc b).trans (List.nodup_iff_count_le_one.mp hledger.nodup b)
  · have hle := count_dead_le s' hc b
    rw [List.count_eq_zero_of_not_mem (hledger.held b hb)] at hle
    exact absurd hdead (List.count_eq_zero.mp (Nat.le_zero.mp hle))
  · rw [← List.count_pos_iff, count_dead_eq s' hc htodo hpending, List.count_pos_iff]
    exact (hledger.all b hb).resolve_left hgone

/-- The second NIC goes again, and the switch with it. -/
theorem bricks_are_destroyed_once_two_nics :
    ∃ s s', Reachable Libc.platform anything s ∧ Later Libc.platform anything s s' ∧
      s.Holds ⟨.vhost, 2⟩ ∧ s'.settled.graph.dead.length = 4 ∧
      ∀ c, Packetgraph.machine.Reachable (Machine.start s'.ops s'.startGraph) c →
        c.state.graph.dead.Nodup ∧ (∀ b, s'.Holds b → b ∉ c.state.graph.dead) ∧
          (c.todo = [] → c.pending = [] →
            ∀ b, s.Holds b → ¬s'.Holds b → b ∈ c.state.graph.dead) := by
  have hserve : (serve Libc.platform {} twoNics (Server.start {} 1 0)).any (fun s =>
      (s.branch 42 "nic-2").any (fun gn => gn.vhost = ⟨.vhost, 2⟩) &&
        (Api0.respond Libc.platform {} (some { nicDel := some "nic-2" }) s).any fun answer =>
          decide (answer.2.settled.graph.dead.length = 4)) = true := by
    decide +kernel
  obtain ⟨s, hs, hany⟩ := (Option.any_eq_true _ _).mp hserve
  obtain ⟨hbranch, hanswer⟩ := Bool.and_eq_true_iff.mp hany
  obtain ⟨gn, hgn, hvhost⟩ := (Option.any_eq_true _ _).mp hbranch
  obtain ⟨⟨response, s'⟩, hrespond, hdead⟩ := (Option.any_eq_true _ _).mp hanswer
  have hreachable : Reachable Libc.platform anything s :=
    (Reachable.start {} 1 0).serve (fun _ _ _ => trivial) hs
  have hlater : Later Libc.platform anything s s' := .respond .refl trivial hrespond
  refine ⟨s, s', hreachable, hlater, .inl ⟨42, "nic-2", gn, hgn, ?_⟩, of_decide_eq_true hdead,
    fun c hc => bricks_are_destroyed_once hreachable hlater hc⟩
  rw [← of_decide_eq_true hvhost]
  simp [GraphNic.bricks]

end Runs

end Butterfly
