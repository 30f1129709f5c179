import Butterfly.Disposal
import Butterfly.Progress

/-!
# Stopping the graph

`Stop` deletes every NIC of the model, has the poller leave, frees what is left on the
queue and drops `vnis_`.  The API server has left its loop by then, so the API thread
runs through the program of all requests and that of `Stop` after it.
-/

namespace Butterfly

open Std Foundation Butterfly.Graph

namespace Graph

def clearVnis (s : Server) : Server :=
  let bricks := (mapValues s.vnis).flatMap fun vni =>
    (mapValues vni.nics).flatMap branchBricks ++ vni.sw.toList
  { s.release bricks with vnis := ∅ }

/-- `Threads` joins the poller and empties the queue after the `EXIT`. -/
def stop (s : Server) : Option Server := do
  if !s.started then some s
  else
    let s ← (mapValues s.model.nics).foldlM (fun s nic => nicDel nic s) s
    let s := clearVnis ((s.push .vhostStop).push .exit)
    some { s with started := false }

end Graph

/-! ## All NICs go -/

structure Deletes (once : Set Brick) (nics : List Nic) (s s' : Server) : Prop where
  tidy : Tidy once s'
  ok : GraphOk s'
  noExit : .push .exit ∉ s'.ops
  gone : ∀ nic ∈ nics, s'.branch nic.vni nic.id = none
  less : ∀ {v id}, s.branch v id = none → s'.branch v id = none

section Stop

variable {once : Set Brick} {s s' : Server}

theorem nicDels_deletes (nics : List Nic) (h : Tidy once s) (hok : GraphOk s)
    (hno : .push .exit ∉ s.ops) :
    ∃ s', nics.foldlM (fun s nic => nicDel nic s) s = some s' ∧ Deletes once nics s s' := by
  induction nics generalizing s with
  | nil => exact ⟨s, rfl, h, hok, hno, by simp, fun hnone => hnone⟩
  | cons nic nics ih =>
      obtain ⟨s₁, hs₁⟩ := Option.isSome_iff_exists.mp (nicDel_isSome nic hok)
      have hdel := nicDel_cases hok.started hok.keyed hs₁
      have hbranch := hdel.effect.branch
      obtain ⟨s', hs', hrest⟩ := ih (h.deleted hok hdel) (hok.deleted hdel.effect)
        (exit_not_mem hno hdel.noExit)
      refine ⟨s', ?_, hrest.tidy, hrest.ok, hrest.noExit, ?_, fun {v id} hnone => hrest.less ?_⟩
      · rw [List.foldlM_cons, hs₁]
        exact hs'
      · refine List.forall_mem_cons.mpr ⟨hrest.less ?_, hrest.gone⟩
        rw [hbranch, if_pos ⟨rfl, rfl⟩]
      · rw [hbranch]
        split
        · rfl
        · exact hnone

/-- Without branches there is nothing left to destroy in `vnis_`. -/
theorem clearVnis_eq (h : Switched s) (hnone : ∀ v id, s.branch v id = none) :
    clearVnis s = { s with vnis := ∅ } := by
  have hempty : ((mapValues s.vnis).flatMap fun vni =>
      (mapValues vni.nics).flatMap branchBricks ++ vni.sw.toList) = [] := by
    refine List.flatMap_eq_nil_iff.mpr fun vni hvni => ?_
    obtain ⟨v, hlookup⟩ := mem_mapValues.mp hvni
    have hnics : mapValues vni.nics = [] := by
      refine List.eq_nil_iff_forall_not_mem.mpr fun gn hgn => ?_
      obtain ⟨id, hid⟩ := mem_mapValues.mp hgn
      have hbranch := hnone v id
      rw [Server.branch_eq_some.mpr ⟨vni, hlookup, hid⟩] at hbranch
      cases hbranch
    have hsw : vni.sw = none := by
      cases hsw : vni.sw with
      | none => rfl
      | some sw =>
          have hswitch : s.switch? v = some sw := by rw [Server.switch?, hlookup]; exact hsw
          obtain ⟨id, hid⟩ := h.used (v := v) (by rw [hswitch]; rfl)
          rw [hnone v id] at hid
          cases hid
    rw [hnics, hsw]
    rfl
  unfold clearVnis
  rw [hempty]
  rfl

/-- What `Stop` makes of a server that has no branch left. -/
def Server.stopped (s : Server) : Server :=
  { s.emits [.push .vhostStop, .push .exit] with vnis := ∅, started := false }

theorem Server.stopped_ops (s : Server) :
    s.stopped.ops = s.ops ++ [.push .vhostStop, .push .exit] := rfl

theorem Server.stopped_holds (s : Server) (b : Brick) : ¬s.stopped.Holds b := by
  have hvnis : ∀ v : UInt32, s.stopped.vnis[v]? = none := fun v => ExtTreeMap.getElem?_empty
  rintro (⟨v, id, gn, hgn, -⟩ | ⟨v, hv⟩)
  · simp [Server.branch, hvnis] at hgn
  · simp [Server.switch?, hvnis] at hv

theorem stop_eq (h : Tidy once s) (hagree : Agree s) (hno : .push .exit ∉ s.ops) :
    ∃ s₁, Graph.stop s = some s₁.stopped ∧ Tidy once s₁ ∧ .push .exit ∉ s₁.ops ∧
      ∀ v id, s₁.branch v id = none := by
  obtain ⟨s₁, hs₁, hdeletes⟩ := nicDels_deletes (mapValues s.model.nics) h hagree.graph hno
  have hnone : ∀ v id, s₁.branch v id = none := by
    intro v id
    by_cases hbranch : (s.branch v id).isSome
    · obtain ⟨nic, hnic, rfl⟩ := (hagree.branches v id).mp hbranch
      have hgone := hdeletes.gone nic (mem_mapValues.mpr ⟨id, hnic⟩)
      rwa [hagree.nicIds hnic] at hgone
    · exact hdeletes.less (Option.not_isSome_iff_eq_none.mp hbranch)
  refine ⟨s₁, ?_, hdeletes.tidy, hdeletes.noExit, hnone⟩
  have hclear : clearVnis ((s₁.push .vhostStop).push .exit) =
      { s₁.emits [.push .vhostStop, .push .exit] with vnis := ∅ } := by
    have hemits : (s₁.push .vhostStop).push .exit =
        s₁.emits [.push .vhostStop, .push .exit] := by simp
    rw [hemits]
    exact clearVnis_eq (hdeletes.tidy.switched.emits _) hnone
  simp only [Graph.stop, hagree.graph.started, Bool.not_true, Bool.false_eq_true, if_false, hs₁,
    Option.bind_eq_bind, Option.bind_some, hclear, Server.stopped]

end Stop

/-! ## What the poller leaves -/

namespace Threads

variable {ops : List (Op Rpc Direct)} {stop : Bool} {pg : Packetgraph} {t : Threads}

/-- What `Stop` frees is freed behind the last command. -/
theorem joined_of_draining (h : Reachable (start ops stop pg) t) (hdraining : t.Draining) :
    ∃ t₁, Reachable (start ops stop pg) t₁ ∧ ¬t₁.Draining ∧ t₁.todo = [] ∧
      t₁.poller = .gone ∧ t₁.pg = t.pg := by
  induction h with
  | refl => cases stop <;> simp [start, Draining] at hdraining
  | @tail t t' hreach hstep ih =>
      by_cases hbefore : t.Draining
      · obtain ⟨t₁, ht₁, hnot, htodo, hpoller, hpg⟩ := ih hbefore
        refine ⟨t₁, ht₁, hnot, htodo, hpoller, hpg.trans ?_⟩
        have hfifo := fifo_of_reachable hreach
        have hdone := hfifo.done hbefore
        cases hstep with
        | poller => simp [pollerStep, hfifo.gone hbefore]
        | api hstep =>
            cases apiStep_cases hstep with
            | push htodo | wait htodo | direct htodo =>
                simp [hdone] at htodo
            | join | drain | stop => rfl
      · cases hstep with
        | poller =>
            have hapi := (pollerStep_frame t).2.1
            exact absurd (by simpa [Draining, hapi] using hdraining) hbefore
        | api hstep =>
            cases apiStep_cases hstep with
            | push | wait | direct => exact absurd hdraining hbefore
            | join htodo _ hgone => exact ⟨t, hreach, hbefore, htodo, hgone, rfl⟩
            | drain _ hdrain => exact absurd (.inl hdrain) hbefore
            | stop _ hdrain => exact absurd (.inl hdrain) hbefore

theorem last_of_append_cons {α : Type} {x : α} {first rest before : List α}
    (h : first ++ x :: rest = before ++ [x]) (hx : x ∉ before) :
    rest = [] ∧ first = before := by
  rcases List.eq_nil_or_concat rest with rfl | ⟨most, y, rfl⟩
  · exact ⟨rfl, List.append_cancel_right h⟩
  · rw [List.concat_eq_append, ← List.cons_append, ← List.append_assoc] at h
    have hsame := List.append_inj_left' h rfl
    exact absurd (hsame ▸ List.mem_append_right _ List.mem_cons_self) hx

/-- The threads after `Stop` on a program of the API thread. -/
structure Ended (ops : List (Op Rpc Direct)) (t : Threads) : Prop where
  todo : t.todo = []
  api : t.api = .stopped
  poller : t.poller = .gone
  queue : t.queue = []
  executed : t.executed ++ [.exit] = commands ops
  freed : ∀ a, t.freed.count a = if a ∈ t.pushed then 1 else 0

theorem commands_wellEnded (hended : WellEnded ops true) :
    ∃ before, commands ops = before ++ [.exit] ∧ .exit ∉ before := by
  obtain ⟨before, rfl, hno⟩ := hended
  refine ⟨commands before, ?_, exit_mem_commands.not.mpr hno⟩
  simp [commands]

theorem Done.ended (hdone : t.Done) (h : Reachable (start ops true pg) t)
    (hended : WellEnded ops true) : Ended ops t := by
  have hstopped : t.api = .stopped := by
    rcases hdone.2 with hstopped | ⟨hserve, -⟩
    · exact hstopped
    · cases (api_serve_iff h).mp hserve
  have hfifo := fifo_of_reachable h
  have howned := owned_of_reachable h
  have hgone := hfifo.gone (.inr hstopped)
  obtain ⟨ran, hops, hran⟩ := follows_of_reachable h
  rw [hdone.1, List.append_nil] at hops
  refine ⟨hdone.1, hstopped, hgone, (howned.stopped hstopped).1, ?_, fun a => ?_⟩
  · obtain ⟨before, hbefore, hno⟩ := commands_wellEnded hended
    obtain ⟨drained, hall, -⟩ := hfifo.exited (.inr hgone)
    rw [hran, ← hops, hbefore] at hall
    rw [(last_of_append_cons hall hno).2, hbefore]
  · have hcount := howned.count a
    have hheld : t.held = [] := by simp [held, howned.gone hgone, hgone]
    rw [hheld, (howned.stopped hstopped).1, List.count_nil, Nat.add_zero] at hcount
    rw [hcount]
    split
    · next hmem => exact howned.count_pushed hmem
    · next hmem => exact List.count_eq_zero_of_not_mem hmem

/-- When the poller is joined, every command has been executed. -/
theorem Ended.config (h : Ended ops t) (hreach : Reachable (start ops true pg) t)
    (hended : WellEnded ops true) :
    ∃ c, Packetgraph.machine.Reachable (Machine.start ops pg) c ∧ c.todo = [] ∧
      c.pending = [] ∧ c.state = t.pg := by
  obtain ⟨t₁, ht₁, hnot, htodo, hgone, hpg⟩ := joined_of_draining hreach (.inr h.api)
  obtain ⟨before, hbefore, hno⟩ := commands_wellEnded hended
  obtain ⟨drained, hall, hdrained⟩ := (fifo_of_reachable ht₁).exited (.inr hgone)
  obtain ⟨ran, hops, hran⟩ := follows_of_reachable ht₁
  rw [htodo, List.append_nil] at hops
  rw [hdrained hnot, List.nil_append, hran, ← hops, hbefore] at hall
  refine ⟨t₁.config, config_reachable ht₁ hnot, htodo, ?_, hpg⟩
  simp [Threads.config, Config.pending, inHand, hgone, (last_of_append_cons hall hno).1]

end Threads

/-! ## The end of the program -/

def Server.afterStop (s : Server) (turns : ℕ → Threads.Turn) (n : ℕ) : Threads :=
  runFor Threads.turn turns (.start s.ops true s.startGraph) n

/--
`Stop` is never stuck.  Whenever it is called and however the turns fall as long as each
thread gets its own again and again: in the end the poller has left after the last command,
the queue is empty and each message has been freed once, and so has each brick that a
branch or a VNI had at any time.
-/
theorem stop_ends {P : Platform} {s₀ s : Server} (hs : Reachable P anything s₀)
    (hlater : Later P anything s₀ s) {turns : ℕ → Threads.Turn} (hfair : Fair turns) :
    ∃ s', Graph.stop s = some s' ∧ s'.started = false ∧ (∀ b, ¬s'.Holds b) ∧
      ∃ n, ∀ m, n ≤ m → Threads.Ended s'.ops (s'.afterStop turns m) ∧
        (s'.afterStop turns m).pg.graph.dead.Nodup ∧
        ∀ b, s₀.Holds b → b ∈ (s'.afterStop turns m).pg.graph.dead := by
  have hreachable := hlater.reachable hs
  obtain ⟨s₁, hstop, htidy, hno, hnone⟩ :=
    stop_eq (hlater.tidy hs) hreachable.sound.agree hreachable.noExit
  have hfree : ∀ b, ¬s₁.Holds b := by
    rintro b (⟨v, id, gn, hgn, -⟩ | ⟨v, hv⟩)
    · simp [hnone v id] at hgn
    · obtain ⟨id, hid⟩ := htidy.switched.used (v := v) (by rw [hv]; rfl)
      simp [hnone v id] at hid
  have hended : Threads.WellEnded s₁.stopped.ops true :=
    ⟨s₁.ops ++ [.push .vhostStop], by simp [Server.stopped_ops], by simp [hno]⟩
  refine ⟨s₁.stopped, hstop, rfl, s₁.stopped_holds, ?_⟩
  obtain ⟨n, hn⟩ := @Threads.eventually_done s₁.stopped.ops true s₁.stopped.startGraph hended
    turns hfair
  refine ⟨n, fun m hm => ?_⟩
  obtain ⟨hreach, hdone⟩ := hn m hm
  have hend := hdone.ended hreach hended
  obtain ⟨c, hc, htodo, hpending, hstate⟩ := hend.config hreach hended
  have hsame : destroyed s₁.stopped.ops = destroyed s₁.ops := by
    rw [Server.stopped_ops, destroyed_append]
    exact List.append_nil _
  have hcount : ∀ b, (s₁.stopped.afterStop turns m).pg.graph.dead.count b =
      (destroyed s₁.ops).count b := by
    intro b
    have hall := count_dead_eq s₁.stopped hc htodo hpending b
    rw [hstate, hsame] at hall
    exact hall
  refine ⟨hend, List.nodup_iff_count_le_one.mpr fun b => ?_, fun b hb => ?_⟩
  · rw [hcount]
    exact List.nodup_iff_count_le_one.mp htidy.ledger.nodup b
  · rw [← List.count_pos_iff, hcount, List.count_pos_iff]
    exact (htidy.ledger.all b hb).resolve_left (hfree b)

theorem stop_ends_two_nics :
    ∃ s s', Reachable Libc.platform anything s ∧ Graph.stop s = some s' ∧
      (Threads.commands s'.ops).length = 28 ∧ s.Holds ⟨.switch, 3⟩ ∧
      ∃ n, ∀ m, n ≤ m → Threads.Ended s'.ops (s'.afterStop alternate m) ∧
        (s'.afterStop alternate m).pg.graph.dead.Nodup ∧
        ∀ b, s.Holds b → b ∈ (s'.afterStop alternate m).pg.graph.dead := by
  have hserve : (serve Libc.platform {} twoNics (Server.start {} 1 0)).any (fun s =>
      decide (s.switch? 42 = some ⟨.switch, 3⟩) && (Graph.stop s).any fun s' =>
        decide ((Threads.commands s'.ops).length = 28)) = true := by
    decide +kernel
  obtain ⟨s, hs, hany⟩ := (Option.any_eq_true _ _).mp hserve
  obtain ⟨hswitch, hstopped⟩ := Bool.and_eq_true_iff.mp hany
  obtain ⟨s', hs', hlength⟩ := (Option.any_eq_true _ _).mp hstopped
  have hreachable : Reachable Libc.platform anything s :=
    (Reachable.start {} 1 0).serve (fun _ _ _ => trivial) hs
  obtain ⟨t, ht, -, -, hend⟩ := stop_ends hreachable .refl fair_alternate
  obtain rfl : t = s' := Option.some.inj (ht.symm.trans hs')
  exact ⟨s, t, hreachable, ht, of_decide_eq_true hlength, .inr ⟨42, of_decide_eq_true hswitch⟩,
    hend⟩

end Butterfly
