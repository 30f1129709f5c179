import Butterfly.Tuning

/-!
# The rules of one firewall

What the log says about one firewall brick, independently of the poller, and why
every interleaving ends with just those rules loaded.
-/

namespace Butterfly

open Std Foundation Butterfly.Graph

/-! ## Edits of rules -/

def Direct.firewall? : Direct → Option Brick
  | .ruleFlush b | .ruleFlushSide b _ | .ruleAdd b _ _ _ => some b
  | .link _ _ | .unlinkEdge _ _ | .destroy _ | .printNew _ _ | .arpAdd _ _
  | .arpDelAll _ | .arpEnable _ | .arpDisable _ => none

def Direct.edit : Direct → FwRules → FwRules
  | .ruleFlush _, _ => fun _ => []
  | .ruleFlushSide _ side, rules => Function.update rules side []
  | .ruleAdd _ filter side stateful, rules =>
      Function.update rules side (rules side ++ [⟨filter, stateful⟩])
  | _, rules => rules

theorem Firewalls.act_staged (d : Direct) (f : Firewalls) (b : Brick) :
    (Firewalls.act d f).staged b =
      if d.firewall? = some b then d.edit (f.staged b) else f.staged b := by
  cases d <;> simp only [Firewalls.act, Firewalls.stage, Direct.firewall?,
    Direct.edit, Option.some.injEq, reduceCtorEq, if_false]
  all_goals
    split
    · next h =>
        subst h
        simp
    · next h => exact Function.update_of_ne (Ne.symm h) _ _

theorem Firewalls.act_loaded (d : Direct) (f : Firewalls) :
    (Firewalls.act d f).loaded = f.loaded := by
  cases d <;> rfl

@[simp] theorem Graph.offFirewall_push_iff (c : Rpc) :
    OffFirewall (.push c) ↔ ∀ b, c ≠ .fwReload b := by
  constructor
  · rintro h b rfl
    exact h b .reload
  · rintro h b ⟨⟩
    exact h b rfl

@[simp] theorem Graph.offFirewall_wait : OffFirewall .wait := by
  rintro b ⟨⟩

@[simp] theorem Graph.offFirewall_direct_iff (d : Direct) :
    OffFirewall (.direct d) ↔ d.firewall? = none := by
  constructor
  · intro h
    cases d with
    | ruleFlush b => exact absurd .flush (h b)
    | ruleFlushSide b side => exact absurd (.flushSide side) (h b)
    | ruleAdd b filter side stateful => exact absurd (.add filter side stateful) (h b)
    | _ => rfl
  · intro h b hb
    cases hb <;> cases h

/-! ## The view of the log -/

/-- The rules of a firewall and whether a reload was asked for since. -/
structure FwView where
  rules : FwRules
  reloaded : Bool

namespace FwView

def empty : FwView := ⟨fun _ => [], true⟩

def step (b : Brick) (view : FwView) : Op Rpc Direct → FwView
  | .direct d => if d.firewall? = some b then ⟨d.edit view.rules, false⟩ else view
  | .push c => if c = .fwReload b then ⟨view.rules, true⟩ else view
  | .wait => view

def after (b : Brick) (ops : List (Op Rpc Direct)) (view : FwView) : FwView :=
  ops.foldl (step b) view

@[simp] theorem after_nil (b : Brick) (view : FwView) : view.after b [] = view := rfl

@[simp] theorem after_cons (b : Brick) (op : Op Rpc Direct)
    (ops : List (Op Rpc Direct)) (view : FwView) :
    view.after b (op :: ops) = (view.step b op).after b ops := rfl

@[simp] theorem after_append (b : Brick) (first second : List (Op Rpc Direct))
    (view : FwView) :
    view.after b (first ++ second) = (view.after b first).after b second := by
  simp [after, List.foldl_append]

theorem step_of_off {b : Brick} {op : Op Rpc Direct} (h : ¬FirewallOp b op)
    (view : FwView) : view.step b op = view := by
  cases op with
  | push c =>
      rw [step, if_neg]
      rintro rfl
      exact h .reload
  | wait => rfl
  | direct d =>
      rw [step, if_neg]
      intro hd
      cases d <;> simp only [Direct.firewall?, Option.some.injEq, reduceCtorEq] at hd
      all_goals
        subst hd
        exact h (by constructor)

theorem after_of_off {b : Brick} {ops : List (Op Rpc Direct)}
    (h : ∀ op ∈ ops, ¬FirewallOp b op) (view : FwView) :
    view.after b ops = view := by
  induction ops generalizing view with
  | nil => rfl
  | cons op ops ih =>
      rw [after_cons, step_of_off (h op List.mem_cons_self)]
      exact ih (fun op hop => h op (List.mem_cons_of_mem _ hop)) view

end FwView

theorem Graph.FirewallOp.unique {b c : Brick} {op : Op Rpc Direct}
    (hb : FirewallOp b op) (hc : FirewallOp c op) : b = c := by
  cases hb <;> cases hc <;> rfl

def fwView (b : Brick) (ops : List (Op Rpc Direct)) : FwView :=
  FwView.empty.after b ops

@[simp] theorem fwView_append (b : Brick) (first second : List (Op Rpc Direct)) :
    fwView b (first ++ second) = (fwView b first).after b second := by
  simp [fwView]

/-! ## Rebuilding -/

def builtRules (inText outText : String) : FwRules
  | .west => if inText = "" then [] else [⟨inText, false⟩]
  | .east => [⟨outText, true⟩]

theorem FwView.after_rebuildOps (b : Brick) (inText outText : String)
    (view : FwView) :
    view.after b (rebuildOps b inText outText) =
      ⟨builtRules inText outText, true⟩ := by
  have hrules : ∀ first : FwRules, first .west = (builtRules inText outText) .west →
      first .east = [] →
      Function.update first .east (first .east ++ [⟨outText, true⟩]) =
        builtRules inText outText := by
    intro first hwest heast
    funext side
    cases side with
    | west => simpa using hwest
    | east => simp [heast, builtRules]
  by_cases hin : inText = ""
  · subst hin
    have hempty := hrules (fun _ => []) rfl rfl
    simp only [List.nil_append] at hempty
    simp [rebuildOps, step, Direct.firewall?, Direct.edit, hempty]
  · have hone := hrules (Function.update (fun _ => []) .west [⟨inText, false⟩])
      (by simp [builtRules, hin]) (by simp)
    simp only [rebuildOps, hin, if_false, List.nil_append, List.cons_append,
      after_cons, after_nil, step, Direct.firewall?, Direct.edit, if_true, hone]

/-! ## Every interleaving loads what the log says -/

/-- What holds of one firewall along a run next to the poller. -/
structure FirewallTracks (b : Brick) (done : List (Op Rpc Direct))
    (c : Config Packetgraph Rpc Direct) : Prop where
  staged : c.state.firewalls.staged b = (fwView b done).rules
  loaded : (fwView b done).reloaded = true → .fwReload b ∈ c.pending ∨
    c.state.firewalls.loaded b = c.state.firewalls.staged b

theorem FirewallTracks.producerStep {b : Brick} {done : List (Op Rpc Direct)}
    {c c' : Config Packetgraph Rpc Direct} (h : FirewallTracks b done c)
    (hstep : Packetgraph.machine.ProducerStep c c') :
    ∃ op, c.todo = op :: c'.todo ∧ FirewallTracks b (done ++ [op]) c' := by
  obtain ⟨hstaged, hloaded⟩ := h
  cases hstep with
  | push k todo queue running polling s =>
      refine ⟨_, rfl, ?_, ?_⟩
      · rw [fwView_append, FwView.after_cons, FwView.after_nil, FwView.step]
        split <;> exact hstaged
      · rw [fwView_append, FwView.after_cons, FwView.after_nil, FwView.step]
        split
        · next hk =>
            intro _
            left
            simp [Config.pending, hk]
        · intro hreloaded
          rcases hloaded hreloaded with hpending | heq
          · left
            simp only [Config.pending, List.mem_append] at hpending ⊢
            rcases hpending with hrunning | hqueue
            · exact .inl hrunning
            · exact .inr (.inl hqueue)
          · exact .inr heq
  | wait todo running polling s =>
      refine ⟨_, rfl, ?_, ?_⟩
      · rw [fwView_append, FwView.after_cons, FwView.after_nil]
        exact hstaged
      · rw [fwView_append, FwView.after_cons, FwView.after_nil]
        exact hloaded
  | direct d todo queue running polling s =>
      refine ⟨_, rfl, ?_, ?_⟩
      · rw [fwView_append, FwView.after_cons, FwView.after_nil, FwView.step]
        change (Firewalls.act d s.firewalls).staged b = _
        rw [Firewalls.act_staged]
        split
        · rw [← hstaged]
        · exact hstaged
      · rw [fwView_append, FwView.after_cons, FwView.after_nil, FwView.step]
        change _ → _ ∨ (Firewalls.act d s.firewalls).loaded b =
          (Firewalls.act d s.firewalls).staged b
        rw [Firewalls.act_staged, Firewalls.act_loaded]
        split
        · simp
        · exact hloaded

theorem FirewallTracks.consumerStep {b : Brick} {done : List (Op Rpc Direct)}
    {c c' : Config Packetgraph Rpc Direct} (h : FirewallTracks b done c)
    (hstep : Packetgraph.machine.ConsumerStep c c') :
    c'.todo = c.todo ∧ FirewallTracks b done c' := by
  obtain ⟨hstaged, hloaded⟩ := h
  cases hstep with
  | enter todo queue s => exact ⟨rfl, hstaged, hloaded⟩
  | pop k todo queue s => exact ⟨rfl, hstaged, hloaded⟩
  | leave todo s => exact ⟨rfl, hstaged, hloaded⟩
  | run k todo queue s =>
      have hsame : (Firewalls.exec k s.firewalls).staged = s.firewalls.staged := by
        cases k <;> rfl
      refine ⟨rfl, ?_, fun hreloaded => ?_⟩
      · change (Firewalls.exec k s.firewalls).staged b = _
        rw [hsame]
        exact hstaged
      · change _ ∨ (Firewalls.exec k s.firewalls).loaded b =
          (Firewalls.exec k s.firewalls).staged b
        rw [hsame]
        -- Reloading this firewall loads what is staged; other commands leave it.
        by_cases hk : k = .fwReload b
        · right
          subst hk
          simp [Firewalls.exec]
        · have hother : (Firewalls.exec k s.firewalls).loaded b =
              s.firewalls.loaded b := by
            cases k with
            | fwReload a =>
                have hne : b ≠ a := by
                  rintro rfl
                  exact hk rfl
                simp [Firewalls.exec, hne]
            | _ => rfl
          rcases hloaded hreloaded with hpending | heq
          · left
            simp only [Config.pending, Option.toList_some, List.cons_append,
              List.nil_append, List.mem_cons] at hpending
            rcases hpending with heq | hqueue
            · exact absurd heq.symm hk
            · simpa [Config.pending] using hqueue
          · exact .inr (hother.trans heq)

/--
Packetgraph in some interleaving, once the API thread has done all it had to and
the poller has emptied the queue.
-/
def Drained (s : Server) (pg : Packetgraph) : Prop :=
  ∃ c, Packetgraph.machine.Reachable (Machine.start s.ops s.startGraph) c ∧
    c.todo = [] ∧ c.pending = [] ∧ c.state = pg

theorem drained_settled (s : Server) : Drained s s.settled := by
  refine ⟨⟨[], [], none, true, s.settled⟩, ?_, rfl, rfl, rfl⟩
  have hsync := Packetgraph.machine.reachable_sync s.ops [] s.startGraph
  rwa [List.append_nil] at hsync

theorem startGraph_firewalls (s : Server) : s.startGraph.firewalls = {} := by
  unfold Server.startGraph
  split <;> rfl

theorem firewallTracks_of_reachable {s : Server}
    {c : Config Packetgraph Rpc Direct} (b : Brick)
    (h : Packetgraph.machine.Reachable (Machine.start s.ops s.startGraph) c) :
    ∃ done, s.ops = done ++ c.todo ∧ FirewallTracks b done c := by
  induction h with
  | refl =>
      refine ⟨[], rfl, ?_, fun _ => .inr ?_⟩
      · simp [Machine.start, startGraph_firewalls, fwView, FwView.empty]
      · simp [Machine.start, startGraph_firewalls]
  | tail _ hstep ih =>
      obtain ⟨done, hops, htracks⟩ := ih
      rcases hstep with hproducer | hconsumer
      · obtain ⟨op, htodo, htracks'⟩ := htracks.producerStep hproducer
        exact ⟨done ++ [op], by rw [hops, htodo]; simp, htracks'⟩
      · obtain ⟨htodo, htracks'⟩ := htracks.consumerStep hconsumer
        exact ⟨done, by rw [hops, htodo], htracks'⟩

theorem Drained.staged {s : Server} {pg : Packetgraph} (h : Drained s pg) (b : Brick) :
    pg.firewalls.staged b = (fwView b s.ops).rules := by
  obtain ⟨c, hc, htodo, -, rfl⟩ := h
  obtain ⟨done, hops, htracks⟩ := firewallTracks_of_reachable b hc
  rw [htodo, List.append_nil] at hops
  rw [hops]
  exact htracks.staged

theorem Drained.loaded {s : Server} {pg : Packetgraph} (h : Drained s pg)
    {b : Brick} (hb : (fwView b s.ops).reloaded = true) :
    pg.firewalls.loaded b = (fwView b s.ops).rules := by
  obtain ⟨c, hc, htodo, hpending, rfl⟩ := h
  obtain ⟨done, hops, htracks⟩ := firewallTracks_of_reachable b hc
  rw [htodo, List.append_nil] at hops
  rw [hops] at hb ⊢
  rcases htracks.loaded hb with hmem | heq
  · rw [hpending] at hmem
    cases hmem
  · rw [heq, htracks.staged]

end Butterfly
