import Butterfly.Detachment
import Butterfly.Foundation.Fairness
import Butterfly.Polling
import Butterfly.Steps
import Butterfly.Threads

/-!
# Both threads get on

The API thread waits for the poller in `WaitEmptyQueue` and in `Stop`.  In every
fair run it gets through its program all the same, and the poller executes what
has been pushed.
-/

namespace Butterfly

open Std Foundation Butterfly.Graph

namespace Threads

/-! ## Turns -/

inductive Turn where
  | api
  | poller
  deriving DecidableEq

def turn : Turn → Threads → Threads
  | .api, t => t.apiStep.getD t
  | .poller, t => t.pollerStep

theorem reachable_turn {t₀ t : Threads} (i : Turn) (h : Reachable t₀ t) :
    Reachable t₀ (turn i t) := by
  cases i with
  | poller => exact h.tail .poller
  | api =>
      cases hstep : t.apiStep with
      | none => rwa [turn, hstep]
      | some t' =>
          rw [turn, hstep]
          exact h.tail (.api hstep)

/-- An `EXIT` is the last operation of a program that ends in `Stop`, and the only one. -/
def WellEnded (ops : List (Op Rpc Direct)) : Bool → Prop
  | true => ∃ before, ops = before ++ [.push .exit] ∧ .push .exit ∉ before
  | false => .push .exit ∉ ops

def Done (t : Threads) : Prop :=
  t.todo = [] ∧ (t.api = .stopped ∨ t.api = .serve ∧ t.inHand = none ∧ t.queue = [])

/-- The API thread does not have to wait. -/
def Ready (t : Threads) : Prop :=
  match t.todo with
  | .wait :: _ => t.queue = []
  | .push _ :: _ | .direct _ :: _ => True
  | [] => t.api = .drain ∨ t.api = .join ∧ t.poller = .gone

instance (t : Threads) : Decidable t.Ready := by
  unfold Ready
  split <;> infer_instance

theorem isSome_apiStep (t : Threads) : t.apiStep.isSome ↔ t.Ready := by
  unfold apiStep Ready
  cases htodo : t.todo with
  | cons op todo =>
      cases op with
      | push c | direct d => simp
      | wait => by_cases hqueue : t.queue = [] <;> simp [hqueue]
  | nil =>
      cases hapi : t.api with
      | serve | stopped => simp
      | join => by_cases hgone : t.poller = .gone <;> simp [hgone]
      | drain => cases t.queue <;> simp

theorem apiStep_eq_none {t : Threads} (h : ¬t.Ready) : t.apiStep = none := by
  rwa [← isSome_apiStep, Option.not_isSome_iff_eq_none] at h

/-! ## What a wait is for -/

section Reachable

variable {ops : List (Op Rpc Direct)} {stop : Bool} {pg : Packetgraph} {t : Threads}

theorem exit_mem_commands {ops : List (Op Rpc Direct)} :
    .exit ∈ commands ops ↔ .push .exit ∈ ops := by
  simp only [commands, List.mem_filterMap]
  constructor
  · rintro ⟨op, hop, heq⟩
    split at heq
    · cases heq
      exact hop
    · cases heq
  · exact fun h => ⟨_, h, rfl⟩

theorem Exited.pushed (h : Reachable (start ops stop pg) t) (hexited : t.Exited) :
    ∃ ran, ops = ran ++ t.todo ∧ .push .exit ∈ ran := by
  obtain ⟨ran, hops, hran⟩ := follows_of_reachable h
  obtain ⟨drained, hall, -⟩ := (fifo_of_reachable h).exited hexited
  refine ⟨ran, hops, exit_mem_commands.mp ?_⟩
  rw [← hran, ← hall]
  simp

/-- The poller is there as long as there are operations left. -/
theorem not_exited_of_todo (h : Reachable (start ops stop pg) t) (hended : WellEnded ops stop)
    (htodo : t.todo ≠ []) : ¬t.Exited := by
  intro hexited
  obtain ⟨ran, hops, hran⟩ := hexited.pushed h
  cases stop with
  | false => exact hended (hops ▸ List.mem_append_left _ hran)
  | true =>
      obtain ⟨before, hbefore, hno⟩ := hended
      have hlast := congrArg List.dropLast (hbefore.symm.trans hops)
      rw [List.dropLast_concat, List.dropLast_append_of_ne_nil htodo] at hlast
      exact hno (hlast ▸ List.mem_append_left _ hran)

theorem not_exited_of_serve (h : Reachable (start ops false pg) t)
    (hended : WellEnded ops false) : ¬t.Exited := by
  intro hexited
  obtain ⟨ran, hops, hran⟩ := hexited.pushed h
  exact hended (hops ▸ List.mem_append_left _ hran)

theorem api_serve_iff (h : Reachable (start ops stop pg) t) :
    t.api = .serve ↔ stop = false := by
  refine h.invariant (I := fun t => t.api = .serve ↔ stop = false) ?_ ?_ ?_
  · intro t ht
    rwa [(pollerStep_frame t).2.1]
  · intro t t' ht hstep
    cases apiStep_cases hstep with
    | push | wait | direct => exact ht
    | join _ hjoin =>
        rw [hjoin] at ht
        simpa using ht
    | drain _ hdrain => exact ht
    | stop _ hdrain =>
        rw [hdrain] at ht
        simpa using ht
  · cases stop <;> simp [start]

/-- While `Stop` waits, the poller still has an `EXIT` before it. -/
theorem exit_pending (h : Reachable (start ops true pg) t) (hended : WellEnded ops true)
    (htodo : t.todo = []) (hlive : ¬t.Exited) :
    .exit ∈ actions (t.inHand.toList ++ t.queue) := by
  obtain ⟨ran, hops, hran⟩ := follows_of_reachable h
  obtain ⟨before, hbefore, -⟩ := hended
  have hfifo := fifo_of_reachable h
  have hpushed : .exit ∈ actions t.pushed := by
    rw [hran, exit_mem_commands]
    rw [htodo, List.append_nil] at hops
    rw [← hops, hbefore]
    simp
  rw [← hfifo.serving hlive] at hpushed
  rcases List.mem_append.mp hpushed with hexecuted | hpending
  · exact absurd hexecuted hfifo.noExit
  · exact hpending

/-- What the API thread waits for is still to come. -/
theorem poller_owes (h : Reachable (start ops stop pg) t) (hended : WellEnded ops stop)
    (hready : ¬t.Ready) (hdone : ¬t.Done) :
    t.poller ≠ .gone ∧ (t.poller = .unqueue → t.queue ≠ []) := by
  have hserve := api_serve_iff h
  cases htodo : t.todo with
  | cons op todo =>
      have hlive := not_exited_of_todo h hended (by simp [htodo])
      refine ⟨fun hgone => hlive (.inr hgone), fun _ => ?_⟩
      cases op with
      | wait => simpa [Ready, htodo] using hready
      | push | direct => simp [Ready, htodo] at hready
  | nil =>
      cases hapi : t.api with
      | stopped => exact absurd ⟨htodo, .inl hapi⟩ hdone
      | drain => simp [Ready, htodo, hapi] at hready
      | serve =>
          obtain rfl := hserve.mp hapi
          refine ⟨fun hgone => not_exited_of_serve h hended (.inr hgone), ?_⟩
          intro hunqueue hqueue
          have hhand : t.inHand = none := by simp [inHand, hunqueue]
          exact hdone ⟨htodo, .inr ⟨hapi, hhand, hqueue⟩⟩
      | join =>
          have hgone : t.poller ≠ .gone := by simpa [Ready, htodo, hapi] using hready
          refine ⟨hgone, fun hunqueue hqueue => ?_⟩
          obtain rfl : stop = true := by
            cases stop with
            | true => rfl
            | false => simp [hapi] at hserve
          have hpending := exit_pending h hended htodo (by simp [Exited, hunqueue])
          simp [inHand, hunqueue, hqueue, actions] at hpending

end Reachable

/-! ## The rank of a state -/

/-- Steps of the poller until it takes the next message off the queue, or is gone. -/
def phase : PollerAt → ℕ
  | .gone => 0
  | .leave => 1
  | .unqueue => 2
  | .poll | .release _ => 3
  | .switch _ => 4

/-- Steps of `Stop` behind the program, but for the messages it frees. -/
def stage : ApiAt → ℕ
  | .join => 2
  | .drain => 1
  | .serve | .stopped => 0

/-- What is to be done before the API thread gets on. -/
def work (t : Threads) : ℕ :=
  if t.Ready then (if t.api = .drain then t.queue.length else 0)
  else 3 * t.queue.length + phase t.poller

def rank (t : Threads) : ℕ ×ₗ ℕ := toLex (t.todo.length + stage t.api, t.work)

def helpful (t : Threads) : Turn := if t.Ready then .api else .poller

theorem rank_apiStep {t t' : Threads} (hstep : t.apiStep = some t') : rank t' < rank t := by
  simp only [rank, Prod.Lex.toLex_lt_toLex]
  cases apiStep_cases hstep with
  | push htodo | wait htodo | direct htodo =>
      left
      simp [htodo, Threads.push]
  | join htodo hjoin | stop htodo hdrain =>
      left
      simp_all [stage]
  | drain htodo hdrain hqueue =>
      right
      simp [work, Ready, htodo, hdrain, hqueue]

theorem work_pollerStep {t : Threads} (hgone : t.poller ≠ .gone)
    (hunqueue : t.poller = .unqueue → t.queue ≠ []) :
    3 * t.pollerStep.queue.length + phase t.pollerStep.poller <
      3 * t.queue.length + phase t.poller := by
  unfold pollerStep
  split
  · next hpoll => simp [phase, hpoll]
  · next hpoller =>
      split
      · next hqueue => exact absurd hqueue (hunqueue hpoller)
      · next a queue hqueue =>
          simp only [phase, hpoller, hqueue, List.length_cons]
          omega
  · next a hswitch =>
      rcases pollerSwitch_cases a t with ⟨-, heq⟩ | ⟨list, -, heq⟩ | ⟨-, -, heq⟩ <;>
        simp [heq, hswitch, phase, execute]
  · next a hrelease => simp [phase, hrelease]
  · next hleave => simp [phase, hleave]
  · next hpoller => exact absurd hpoller hgone

theorem queue_pollerStep {t : Threads} (hqueue : t.queue = []) : t.pollerStep.queue = [] := by
  unfold pollerStep
  split
  · exact hqueue
  · rw [hqueue]
  · next a _ =>
      rcases pollerSwitch_cases a t with ⟨-, heq⟩ | ⟨list, -, heq⟩ | ⟨-, -, heq⟩ <;>
        rw [heq] <;> exact hqueue
  · exact hqueue
  · exact hqueue
  · exact hqueue

theorem pollerStep_gone {t : Threads} (hgone : t.poller = .gone) : t.pollerStep = t := by
  simp [pollerStep, hgone]

/-- A step of the poller does not make the API thread wait. -/
theorem Ready.pollerStep {t : Threads} (hfifo : Fifo t) (h : t.Ready) :
    t.pollerStep.Ready ∧ t.pollerStep.work = t.work := by
  obtain ⟨htodo, hapi, -⟩ := pollerStep_frame t
  by_cases hgone : t.poller = .gone
  · rw [pollerStep_gone hgone]
    exact ⟨h, rfl⟩
  have hdrain : t.api ≠ .drain := fun hdrain => hgone (hfifo.gone (.inl hdrain))
  have hready : t.pollerStep.Ready := by
    unfold Ready at h ⊢
    rw [htodo, hapi]
    split at h
    · exact queue_pollerStep h
    · trivial
    · trivial
    · rcases h with hdrain' | ⟨-, hgone'⟩
      · exact absurd hdrain' hdrain
      · exact absurd hgone' hgone
  refine ⟨hready, ?_⟩
  simp [work, h, hready, hapi, hdrain]

theorem rank_pollerStep {t : Threads} (hfifo : Fifo t) (hready : ¬t.Ready)
    (hgone : t.poller ≠ .gone) (hunqueue : t.poller = .unqueue → t.queue ≠ []) :
    rank t.pollerStep < rank t := by
  obtain ⟨htodo, hapi, -⟩ := pollerStep_frame t
  simp only [rank, Prod.Lex.toLex_lt_toLex, htodo, hapi]
  refine .inr ⟨trivial, ?_⟩
  have hwork := work_pollerStep hgone hunqueue
  have hdrain : t.api ≠ .drain := fun hdrain => hgone (hfifo.gone (.inl hdrain))
  by_cases hafter : t.pollerStep.Ready
  · simp only [work, hafter, hready, hapi, hdrain, if_true, if_false]
    omega
  · simpa only [work, hafter, hready, if_false] using hwork

/-! ## Every fair run -/

section Runs

variable {ops : List (Op Rpc Direct)} {stop : Bool} {pg : Packetgraph} {t : Threads}

theorem converges (hended : WellEnded ops stop) :
    Converges turn (Reachable (start ops stop pg)) Done rank helpful where
  keeps i _ h := reachable_turn i h
  stays i t h hdone := by
    by_cases hready : t.Ready
    · cases i with
      | api =>
          obtain ⟨t', hstep⟩ := Option.isSome_iff_exists.mp ((isSome_apiStep t).mpr hready)
          left
          simpa [turn, hstep] using rank_apiStep hstep
      | poller =>
          obtain ⟨hafter, hwork⟩ := hready.pollerStep (fifo_of_reachable h)
          obtain ⟨htodo, hapi, -⟩ := pollerStep_frame t
          right
          simp [turn, rank, helpful, hready, hafter, hwork, htodo, hapi]
    · cases i with
      | api =>
          right
          simp [turn, apiStep_eq_none hready]
      | poller =>
          obtain ⟨hgone, hunqueue⟩ := poller_owes h hended hready hdone
          exact .inl (rank_pollerStep (fifo_of_reachable h) hready hgone hunqueue)
  helps t h hdone := by
    by_cases hready : t.Ready
    · obtain ⟨t', hstep⟩ := Option.isSome_iff_exists.mp ((isSome_apiStep t).mpr hready)
      simpa [helpful, hready, turn, hstep] using rank_apiStep hstep
    · obtain ⟨hgone, hunqueue⟩ := poller_owes h hended hready hdone
      simpa [helpful, hready, turn] using
        rank_pollerStep (fifo_of_reachable h) hready hgone hunqueue

/-- Neither thread undoes it. -/
theorem Done.turn (i : Turn) (h : t.Done) : (turn i t).Done := by
  obtain ⟨htodo, hend⟩ := h
  cases i with
  | api =>
      have hready : ¬t.Ready := by
        rcases hend with hapi | ⟨hapi, -⟩ <;> simp [Ready, htodo, hapi]
      rw [Threads.turn, apiStep_eq_none hready]
      exact ⟨htodo, hend⟩
  | poller =>
      obtain ⟨htodo', hapi', -⟩ := pollerStep_frame t
      refine ⟨htodo'.trans htodo, ?_⟩
      rw [Threads.turn, hapi']
      rcases hend with hapi | ⟨hapi, hhand, hqueue⟩
      · exact .inl hapi
      · refine .inr ⟨hapi, ?_, queue_pollerStep hqueue⟩
        unfold inHand at hhand ⊢
        unfold pollerStep
        cases hpoller : t.poller with
        | switch a => simp [hpoller] at hhand
        | _ => simp [hqueue, hpoller]

theorem eventually_done (hended : WellEnded ops stop) {turns : ℕ → Turn} (hfair : Fair turns) :
    ∃ n, ∀ m, n ≤ m → Reachable (start ops stop pg) (runFor turn turns (start ops stop pg) m) ∧
      (runFor turn turns (start ops stop pg) m).Done := by
  have hconverges := @converges ops stop pg hended
  obtain ⟨n, hn⟩ := hconverges.eventually_always (fun i _ _ h => h.turn i) hfair .refl
  exact ⟨n, fun m hm => ⟨runFor_invariant hconverges.keeps turns .refl m, hn m hm⟩⟩

end Runs

end Threads

/-! ## No request pushes an `EXIT` -/

def NoExit (op : Op Rpc Direct) : Prop := op ≠ .push .exit

theorem noExit_direct (d : Direct) : NoExit (.direct d) := nofun

theorem noExit_calm {op : Op Rpc Direct} (h : CalmOp op) : NoExit op := by
  cases h <;> exact noExit_direct _

theorem noExit_scrap {serial : Nat} {op : Op Rpc Direct} (h : ScrapOp serial op) : NoExit op := by
  cases h with
  | calm hcalm => exact noExit_calm hcalm
  | destroy => exact noExit_direct _

theorem noExit_of_firewallOp {op : Op Rpc Direct} (h : ∃ b, FirewallOp b op) : NoExit op := by
  obtain ⟨b, hb⟩ := h
  cases hb <;> exact nofun

theorem noExit_destroyOps (bricks : List Brick) : ∀ op ∈ destroyOps bricks, NoExit op := by
  simp [destroyOps, NoExit]

theorem noExit_destroyFirewallOps (n : GraphNic) : ∀ op ∈ destroyFirewallOps n, NoExit op := by
  simp [destroyFirewallOps, NoExit]

theorem noExit_fwNewOps (ok : PgCall → Bool) (nic : Nic) (serial : Nat) :
    ∀ op ∈ fwNewOps ok nic serial, NoExit op := by
  simp [fwNewOps, NoExit]

section Requests

variable {ok : PgCall → Bool} {nic : Nic} {s s' : Server}

theorem Graph.Created.noExit {s₁ : Server} (h : Created ok nic (openVni nic.vni s) s₁) :
    Appends NoExit s s₁ := by
  obtain ⟨-, -, ops, hcalm, rfl⟩ := h
  refine ⟨_, rfl, List.forall_mem_append.mpr ⟨List.forall_mem_append.mpr
    ⟨noExit_fwNewOps _ _ _, fun op hop => noExit_calm (hcalm op hop)⟩, fun op hop => ?_⟩⟩
  obtain ⟨link, -, rfl⟩ := List.mem_map.mp hop
  exact noExit_direct _

theorem noExit_keepBranch (gn : GraphNic) {ops : List (Op Rpc Direct)}
    (hops : ∀ op ∈ ops, NoExit op) (h : Appends NoExit s s') :
    Appends NoExit s (keepBranch ok nic gn (s'.emits ops)) := by
  have hpoll : Appends NoExit (s'.emits ops)
      (updatePoll ((s'.emits ops).updateVni nic.vni (withBranch nic.id gn))) :=
    ⟨[_], rfl, by simp [NoExit]⟩
  have hupdate := (fwUpdate_tuned ok nic (updatePoll
    ((s'.emits ops).updateVni nic.vni (withBranch nic.id gn)))).appends.mono
      fun op hop => noExit_of_firewallOp hop
  refine h.trans (Appends.trans ⟨ops, rfl, hops⟩ (hpoll.trans ?_))
  rw [keepBranch]
  split
  · rw [Server.release_eq]
    exact hupdate.trans ⟨_, rfl, noExit_destroyOps _⟩
  · exact hupdate

theorem Graph.NicAdded.noExit {accepted : Bool} (h : NicAdded ok nic s accepted s') :
    Appends NoExit s s' := by
  cases h with
  | abandoned h =>
      obtain ⟨-, ops, hscrap, rfl⟩ := h
      exact ⟨_, rfl, List.forall_mem_append.mpr ⟨noExit_fwNewOps _ _ _,
        fun op hop => noExit_scrap (hscrap op hop)⟩⟩
  | first hcreated => exact noExit_keepBranch _ (by simp [NoExit]) hcreated.noExit
  | further hcreated => exact noExit_keepBranch _ (by simp [NoExit]) hcreated.noExit
  | noSwitch hcreated | stuck hcreated =>
      exact hcreated.noExit.trans ⟨_, rfl, List.forall_mem_append.mpr
        ⟨noExit_destroyOps _, noExit_destroyOps _⟩⟩
  | second hcreated =>
      refine noExit_keepBranch _ (List.forall_mem_append.mpr ⟨noExit_destroyOps _, ?_⟩)
        hcreated.noExit
      simp [NoExit]

theorem Graph.NicDeleted.noExit (h : NicDeleted nic s s') : Appends NoExit s s' := by
  cases h with
  | absent => exact .refl _ s
  | last =>
      refine ⟨_, rfl, ?_⟩
      simp only [List.forall_mem_cons, List.forall_mem_append]
      exact ⟨nofun, nofun, ⟨noExit_destroyFirewallOps _, noExit_destroyOps _⟩,
        noExit_destroyOps _⟩
  | ofTwo =>
      refine ⟨_, rfl, ?_⟩
      simp only [List.forall_mem_append]
      exact ⟨by simp [NoExit], noExit_destroyFirewallOps _, noExit_destroyOps _⟩
  | ofMany =>
      refine ⟨_, rfl, ?_⟩
      simp only [List.forall_mem_cons, List.forall_mem_append]
      exact ⟨nofun, nofun, noExit_destroyFirewallOps _, noExit_destroyOps _⟩

theorem noExit_traceStep (h : TraceStep nic s s') : Appends NoExit s s' := by
  have hlinked : ∀ {t : Server} (gn b), Appends NoExit t (linked nic gn b t) := by
    intro t gn b
    refine ⟨linkOps nic gn b, rfl, ?_⟩
    unfold linkOps
    split <;> exact List.forall_mem_cons.mpr ⟨nofun,
      List.forall_mem_append.mpr ⟨noExit_destroyOps _, by simp [NoExit]⟩⟩
  have hprinted : ∀ path, Appends NoExit s (printed path s) :=
    fun path => ⟨_, rfl, by simp [NoExit]⟩
  cases h with
  | poll => exact ⟨[_], rfl, by simp [NoExit]⟩
  | link => exact hlinked _ _
  | linkNew => exact (hprinted _).trans (hlinked (t := sniffed nic _ s) _ _)
  | linkPath => exact (hprinted _).trans (hlinked _ _)
  | @unlink gn b =>
      refine ⟨unlinkOps nic gn b, rfl, ?_⟩
      unfold unlinkOps
      split <;> exact List.forall_mem_cons.mpr ⟨nofun,
        List.forall_mem_append.mpr ⟨noExit_destroyOps _, by simp [NoExit]⟩⟩

theorem exit_not_mem {t : Server} (hs : .push .exit ∉ s.ops) (h : Appends NoExit s t) :
    .push .exit ∉ t.ops := by
  obtain ⟨ops, heq, hops⟩ := h
  rw [heq, List.mem_append]
  rintro (hold | hnew)
  · exact hs hold
  · exact hops _ hnew rfl

theorem noExit_kept (ambient : Ambient) :
    KeptByStep ambient fun s => .push .exit ∉ s.ops where
  model _ h := h
  calm h hops := exit_not_mem h ⟨_, rfl, fun op hop => noExit_calm (hops op hop)⟩
  trace h hstep := exit_not_mem h (noExit_traceStep hstep)
  update _ h := exit_not_mem h ((fwUpdate_tuned _ _ _).appends.mono
    fun _ hop => noExit_of_firewallOp hop)
  rule _ _ h := exit_not_mem h ((fwAddRule_tuned _ _ _ _).appends.mono
    fun _ hop => noExit_of_firewallOp hop)
  added h _ _ hadded _ := exit_not_mem h hadded.noExit
  deleted h _ hdeleted := exit_not_mem h hdeleted.noExit

theorem Reachable.noExit {P : Platform} {allowed : Allowed} (h : Reachable P allowed s) :
    .push .exit ∉ s.ops := by
  refine h.invariant (I := fun s => .push .exit ∉ s.ops) ?_ ?_ ?_
  · intro config pid startDate
    simp [Server.start]
  · intro t t' hcore ht
    rwa [hcore.ops]
  · intro ambient t t' rq c a accepted ht _ _ _ hnone hperform
    exact (noExit_kept ambient).perform ht.sound.agree hnone hperform

theorem GraphRun.noExit {P : Platform} {live : Set (UInt32 × String)} (h : GraphRun P live s) :
    .push .exit ∉ s.ops := by
  induction h with
  | start => simp [Server.start]
  | model _ _ ih => exact ih
  | add hrun _ hadd ih =>
      have hok := (lives_of_graphRun hrun).wired.ok
      exact exit_not_mem ih (graphRun_add hok.started hadd).noExit
  | del hrun hdel ih =>
      have hok := (lives_of_graphRun hrun).wired.ok
      exact exit_not_mem ih (nicDel_cases hok.started hok.keyed hdel).noExit

end Requests

/-! ## What has been asked for is done -/

def Server.afterTurns (s : Server) (turns : ℕ → Threads.Turn) (n : ℕ) : Threads :=
  runFor Threads.turn turns (.start s.ops false s.startGraph) n

/-- Everything the API thread has pushed is executed, and both threads are there. -/
structure CaughtUp (s : Server) (t : Threads) : Prop where
  todo : t.todo = []
  live : ¬t.Exited
  executed : t.executed = Threads.commands s.ops
  drained : Drained s t.pg

theorem CaughtUp.of_done {s : Server} {t : Threads} (hno : .push .exit ∉ s.ops)
    (h : Threads.Reachable (.start s.ops false s.startGraph) t) (hdone : t.Done) :
    CaughtUp s t := by
  obtain ⟨htodo, hend⟩ := hdone
  have hapi : t.api = .serve := (Threads.api_serve_iff h).mpr rfl
  have hlive := Threads.not_exited_of_serve h hno
  rcases hend with hstopped | ⟨-, hhand, hqueue⟩
  · rw [hapi] at hstopped
    cases hstopped
  refine ⟨htodo, hlive, ?_, t.config, Threads.config_reachable h ?_, htodo, ?_, rfl⟩
  · obtain ⟨ran, hops, hran⟩ := Threads.follows_of_reachable h
    have hserving := (Threads.fifo_of_reachable h).serving hlive
    rw [hhand, hqueue, hran] at hserving
    rw [htodo, List.append_nil] at hops
    simpa [Threads.actions, hops] using hserving
  · simp [Threads.Draining, hapi]
  · simp [Threads.config, Config.pending, hhand, hqueue, Threads.actions]

theorem caughtUp_eventually {s : Server} (hno : .push .exit ∉ s.ops) {turns : ℕ → Threads.Turn}
    (hfair : Fair turns) : ∃ n, ∀ m, n ≤ m → CaughtUp s (s.afterTurns turns m) := by
  obtain ⟨n, hn⟩ := @Threads.eventually_done s.ops false s.startGraph hno turns hfair
  exact ⟨n, fun m hm => .of_done hno (hn m hm).1 (hn m hm).2⟩

/--
Whatever has been requested, and however the turns fall as long as each thread
gets its own again and again: the API thread comes out of every wait, and from
some time on the poller has executed every command, in the order of the pushes.
-/
theorem every_command_is_executed {P : Platform} {s : Server} (h : Reachable P anything s)
    {turns : ℕ → Threads.Turn} (hfair : Fair turns) :
    ∃ n, ∀ m, n ≤ m → CaughtUp s (s.afterTurns turns m) :=
  caughtUp_eventually h.noExit hfair

def alternate (n : ℕ) : Threads.Turn := if n % 2 = 0 then .api else .poller

theorem fair_alternate : Fair alternate := by
  intro i n
  cases i with
  | api => exact ⟨2 * n, by omega, by simp [alternate]⟩
  | poller => exact ⟨2 * n + 1, by omega, by simp [alternate]⟩

theorem every_command_is_executed_two_nics :
    ∃ s, Reachable Libc.platform anything s ∧ (Threads.commands s.ops).length = 15 ∧
      ∃ n, ∀ m, n ≤ m → CaughtUp s (s.afterTurns alternate m) := by
  have hserve : (serve Libc.platform {} twoNics (Server.start {} 1 0)).any (fun s =>
      (Threads.commands s.ops).length = 15) = true := by
    decide +kernel
  obtain ⟨s, hs, hlength⟩ := (Option.any_eq_true _ _).mp hserve
  have hreachable : Reachable Libc.platform anything s :=
    (Reachable.start {} 1 0).serve (fun _ _ _ => trivial) hs
  exact ⟨s, hreachable, by simpa using hlength,
    every_command_is_executed hreachable fair_alternate⟩

/--
If NICs are only added and deleted and no call fails, the edges at the vtep and
at the switches are in the end, in every fair run, those of the branches: a
branch alone in its VNI hangs on the vtep, others on their switch.
-/
theorem fair_runs_attach {P : Platform} {live : Set (UInt32 × String)} {s : Server}
    (h : GraphRun P live s) {turns : ℕ → Threads.Turn} (hfair : Fair turns) :
    ∃ n, ∀ m, n ≤ m →
      (s.afterTurns turns m).pg.graph.attachments.Nodup ∧
      ∀ e, e ∈ (s.afterTurns turns m).pg.graph.attachments ↔ CanonicalEdge s e := by
  have hwired := (lives_of_graphRun h).wired
  obtain ⟨n, hn⟩ := caughtUp_eventually h.noExit hfair
  refine ⟨n, fun m hm => ?_⟩
  rw [(hn m hm).drained.graph hwired.paced]
  exact ⟨hwired.nodup, hwired.edges⟩

theorem fair_runs_attach_three_nics :
    ∃ live s, GraphRun Libc.platform live s ∧ s.wiring.attachments.length = 4 ∧
      ∃ n, ∀ m, n ≤ m → (s.afterTurns alternate m).pg.graph.attachments.Nodup ∧
        ∀ e, e ∈ (s.afterTurns alternate m).pg.graph.attachments ↔ CanonicalEdge s e := by
  have hrun : (addAll Libc.platform threeNics (Server.start {} 1 0)).any (fun s =>
      s.wiring.attachments.length = 4) = true := by
    decide +kernel
  obtain ⟨s, hs, hlength⟩ := (Option.any_eq_true _ _).mp hrun
  obtain ⟨live, hlive⟩ := (GraphRun.start {} 1 0).addAll (by decide) (by simp [Afresh]) hs
  exact ⟨live, s, hlive, by simpa using hlength, fair_runs_attach hlive fair_alternate⟩

end Butterfly
