import Butterfly.GraphSpec
import Butterfly.Libc

/-!
# The API thread and the poller thread

`PollerUpdate` takes messages off the queue one by one, executes each and frees
it; the list of `UPDATE_POLL` stays with the poller until the next one.  Here a
message is an allocation, and both threads go step by step.  `CommandQueue` is
the same system without the messages: every run of the threads is one of its
runs.
-/

namespace Butterfly

open Foundation

/-- `struct RpcQueue`.  `address` tells one allocation from another. -/
structure RpcQueue where
  address : Nat
  action : Rpc
  deriving DecidableEq

inductive PollerAt where
  /-- In the packet loop of `Poller`, between two calls of `PollerUpdate`. -/
  | poll
  /-- Before `g_async_queue_try_pop`. -/
  | unqueue
  | switch (a : RpcQueue)
  /-- Before the `g_free(a)` after the switch, where `a` may be null. -/
  | release (a : Option RpcQueue)
  /-- `PollerUpdate` has returned false. -/
  | leave
  | gone
  deriving DecidableEq

inductive ApiAt where
  | serve
  /-- `Stop` waits for the poller thread. -/
  | join
  /-- `Stop` empties the queue. -/
  | drain
  | stopped
  deriving DecidableEq

structure Threads where
  todo : List (Op Rpc Direct)
  api : ApiAt
  queue : List RpcQueue := []
  poller : PollerAt := .poll
  /-- `q` of `Poller`: the message whose list is polled. -/
  q : Option RpcQueue := none
  pg : Packetgraph
  /-- The variable an `FW_NEW` points to, by the address of the message. -/
  tmpFw : Nat → Option Brick := fun _ => none
  /-- Every message pushed, oldest first. -/
  pushed : List RpcQueue := []
  /-- Every command executed, oldest first. -/
  executed : List Rpc := []
  /-- Every message given to `g_free`, oldest first. -/
  freed : List RpcQueue := []

namespace Threads

/-! ## The poller thread -/

def execute (a : RpcQueue) (t : Threads) : Threads :=
  { t with pg := Packetgraph.machine.exec a.action t.pg
           tmpFw := match a.action with
             | .fwNew _ result => Function.update t.tmpFw a.address result
             | _ => t.tmpFw
           executed := t.executed ++ [a.action] }

def pollerSwitch (a : RpcQueue) (t : Threads) : Threads :=
  match a.action with
  | .exit => { t with freed := t.freed ++ [a], poller := .leave }
  | .updatePoll _ => { t.execute a with q := some a, poller := .release t.q }
  | _ => { t.execute a with poller := .release (some a) }

def pollerStep (t : Threads) : Threads :=
  match t.poller with
  | .poll => { t with poller := .unqueue }
  | .unqueue =>
      match t.queue with
      | [] => { t with poller := .poll }
      | a :: queue => { t with queue := queue, poller := .switch a }
  | .switch a => t.pollerSwitch a
  | .release a => { t with freed := t.freed ++ a.toList, poller := .unqueue }
  -- `g_free(q)` at the end of `Poller`.
  | .leave => { t with freed := t.freed ++ t.q.toList, q := none, poller := .gone }
  | .gone => t

/-! ## The API thread -/

def push (c : Rpc) (t : Threads) : Threads :=
  let a : RpcQueue := { address := t.pushed.length, action := c }
  { t with queue := t.queue ++ [a], pushed := t.pushed ++ [a] }

/-- A step of the API thread, which may have to wait for the poller. -/
def apiStep (t : Threads) : Option Threads :=
  match t.todo with
  | .push c :: todo => some ({ t with todo := todo }.push c)
  | .wait :: todo => if t.queue = [] then some { t with todo := todo } else none
  | .direct d :: todo =>
      some { t with todo := todo, pg := Packetgraph.machine.act d t.pg }
  | [] =>
      match t.api with
      | .serve => none
      | .join => if t.poller = .gone then some { t with api := .drain } else none
      | .drain =>
          match t.queue with
          | a :: queue => some { t with queue := queue, freed := t.freed ++ [a] }
          | [] => some { t with api := .stopped }
      | .stopped => none

/-! ## Interleavings -/

inductive Step (t : Threads) : Threads → Prop
  | poller : Step t t.pollerStep
  | api {t'} : t.apiStep = some t' → Step t t'

def Reachable (t t' : Threads) : Prop := Relation.ReflTransGen Step t t'

/-- `stop` says whether the program ends in `Stop`. -/
def start (ops : List (Op Rpc Direct)) (stop : Bool) (pg : Packetgraph) : Threads :=
  { todo := ops, api := if stop then .join else .serve, pg := pg }

def follow : List Bool → Threads → Option Threads
  | [], t => some t
  | true :: turns, t => t.apiStep.bind (follow turns)
  | false :: turns, t => follow turns t.pollerStep

theorem reachable_follow {turns : List Bool} {t t' : Threads}
    (h : follow turns t = some t') : Reachable t t' := by
  induction turns generalizing t with
  | nil =>
      cases h
      exact .refl
  | cons api turns ih =>
      cases api with
      | true =>
          obtain ⟨t₁, hstep, hrest⟩ := Option.bind_eq_some_iff.mp h
          exact .head (.api hstep) (ih hrest)
      | false => exact .head .poller (ih h)

/-- The message taken off the queue and not executed yet. -/
def inHand (t : Threads) : Option RpcQueue :=
  match t.poller with
  | .switch a => some a
  | _ => none

def held (t : Threads) : List RpcQueue :=
  t.q.toList ++
    match t.poller with
    | .switch a => [a]
    | .release a => a.toList
    | _ => []

def Exited (t : Threads) : Prop := t.poller = .leave ∨ t.poller = .gone

/-- `Stop` may be taking messages off the queue. -/
def Draining (t : Threads) : Prop := t.api = .drain ∨ t.api = .stopped

/-! ## The order of execution -/

def commands (ops : List (Op Rpc Direct)) : List Rpc :=
  ops.filterMap fun
    | .push c => some c
    | _ => none

def actions (messages : List RpcQueue) : List Rpc := messages.map (·.action)

/-- Commands are executed in the order of the pushes, up to an `EXIT`. -/
structure Fifo (t : Threads) : Prop where
  serving : ¬t.Exited →
    t.executed ++ actions (t.inHand.toList ++ t.queue) = actions t.pushed
  exited : t.Exited → ∃ drained,
    t.executed ++ .exit :: (drained ++ actions t.queue) = actions t.pushed ∧
      (¬t.Draining → drained = [])
  noExit : .exit ∉ t.executed
  gone : t.Draining → t.poller = .gone
  done : t.Draining → t.todo = []

theorem pollerSwitch_cases (a : RpcQueue) (t : Threads) :
    (a.action = .exit ∧
      t.pollerSwitch a = { t with freed := t.freed ++ [a], poller := .leave }) ∨
    (∃ list, a.action = .updatePoll list ∧
      t.pollerSwitch a = { t.execute a with q := some a, poller := .release t.q }) ∨
    (a.action ≠ .exit ∧ (∀ list, a.action ≠ .updatePoll list) ∧
      t.pollerSwitch a = { t.execute a with poller := .release (some a) }) := by
  unfold pollerSwitch
  cases haction : a.action with
  | exit => exact .inl ⟨rfl, rfl⟩
  | updatePoll list => exact .inr (.inl ⟨list, rfl, rfl⟩)
  | _ => exact .inr (.inr ⟨nofun, nofun, rfl⟩)

inductive ApiStep (t : Threads) : Threads → Prop
  | push {c todo} : t.todo = .push c :: todo → ApiStep t ({ t with todo := todo }.push c)
  | wait {todo} : t.todo = .wait :: todo → t.queue = [] →
      ApiStep t { t with todo := todo }
  | direct {d todo} : t.todo = .direct d :: todo →
      ApiStep t { t with todo := todo, pg := Packetgraph.machine.act d t.pg }
  | join : t.todo = [] → t.api = .join → t.poller = .gone →
      ApiStep t { t with api := .drain }
  | drain {a queue} : t.todo = [] → t.api = .drain → t.queue = a :: queue →
      ApiStep t { t with queue := queue, freed := t.freed ++ [a] }
  | stop : t.todo = [] → t.api = .drain → t.queue = [] →
      ApiStep t { t with api := .stopped }

theorem apiStep_cases {t t' : Threads} (h : t.apiStep = some t') : ApiStep t t' := by
  unfold apiStep at h
  split at h
  · next htodo => cases h; exact .push htodo
  · next htodo =>
      split at h
      · next hqueue => cases h; exact .wait htodo hqueue
      · cases h
  · next htodo => cases h; exact .direct htodo
  · next htodo =>
      split at h
      · cases h
      · next hjoin =>
          split at h
          · next hgone => cases h; exact .join htodo hjoin hgone
          · cases h
      · next hdrain =>
          split at h
          · next hqueue => cases h; exact .drain htodo hdrain hqueue
          · next hqueue => cases h; exact .stop htodo hdrain hqueue
      · cases h

theorem fifo_start (ops : List (Op Rpc Direct)) (stop : Bool) (pg : Packetgraph) :
    Fifo (start ops stop pg) where
  serving _ := rfl
  exited h := by simp [start, Exited] at h
  noExit := by simp [start]
  gone h := by cases stop <;> simp [start, Draining] at h
  done h := by cases stop <;> simp [start, Draining] at h

theorem Fifo.pollerStep {t : Threads} (h : Fifo t) : Fifo t.pollerStep := by
  have hnot : t.poller ≠ .gone → ¬t.Draining := fun hne hdraining => hne (h.gone hdraining)
  obtain ⟨hserving, hexited, hno, hgone, hdone⟩ := h
  unfold Threads.pollerStep
  split
  · next hpoll =>
      have hserved := hserving (by simp [Exited, hpoll])
      have hnot := hnot (by simp [hpoll])
      refine ⟨fun _ => ?_, fun h => ?_, hno, fun h => absurd h hnot, hdone⟩
      · simpa [inHand, hpoll] using hserved
      · simp [Exited] at h
  · next hunqueue =>
      have hserved := hserving (by simp [Exited, hunqueue])
      have hnot := hnot (by simp [hunqueue])
      split
      · refine ⟨fun _ => ?_, fun h => ?_, hno, fun h => absurd h hnot, hdone⟩
        · simpa [inHand, hunqueue] using hserved
        · simp [Exited] at h
      · next a queue hqueue =>
          refine ⟨fun _ => ?_, fun h => ?_, hno, fun h => absurd h hnot, hdone⟩
          · simpa [inHand, hunqueue, hqueue] using hserved
          · simp [Exited] at h
  · next a hswitch =>
      have hserved := hserving (by simp [Exited, hswitch])
      have hnot := hnot (by simp [hswitch])
      simp only [inHand, hswitch, Option.toList_some, List.singleton_append, actions,
        List.map_cons] at hserved
      rcases pollerSwitch_cases a t with ⟨hexit, heq⟩ | ⟨list, hlist, heq⟩ | ⟨hexit, -, heq⟩
      · rw [heq]
        refine ⟨fun h => absurd (.inl rfl) h, fun _ => ⟨[], ?_, fun _ => rfl⟩, hno,
          fun h => absurd h hnot, hdone⟩
        simpa [hexit, actions] using hserved
      · rw [heq]
        refine ⟨fun _ => ?_, fun h => ?_, ?_, fun h => absurd h hnot, hdone⟩
        · simpa [inHand, execute, actions] using hserved
        · simp [Exited] at h
        · simp [execute, hno, hlist]
      · rw [heq]
        refine ⟨fun _ => ?_, fun h => ?_, ?_, fun h => absurd h hnot, hdone⟩
        · simpa [inHand, execute, actions] using hserved
        · simp [Exited] at h
        · simpa [execute, hno] using hexit.symm
  · next a hrelease =>
      have hserved := hserving (by simp [Exited, hrelease])
      have hnot := hnot (by simp [hrelease])
      refine ⟨fun _ => ?_, fun h => ?_, hno, fun h => absurd h hnot, hdone⟩
      · simpa [inHand, hrelease] using hserved
      · simp [Exited] at h
  · next hleave =>
      exact ⟨fun h => absurd (.inr rfl) h, fun _ => hexited (.inl hleave), hno, fun _ => rfl,
        hdone⟩
  · exact ⟨hserving, hexited, hno, hgone, hdone⟩

theorem Fifo.apiStep {t t' : Threads} (h : Fifo t) (hstep : t.apiStep = some t') :
    Fifo t' := by
  obtain ⟨hserving, hexited, hno, hgone, hdone⟩ := h
  cases apiStep_cases hstep with
  | @push c todo htodo =>
      have hnot : ¬t.Draining := fun h => by simpa [htodo] using hdone h
      refine ⟨fun h => ?_, fun h => ?_, hno, hgone, fun h => absurd h hnot⟩
      · have hserved := congrArg (· ++ [c]) (hserving h)
        simpa [Threads.push, actions, inHand] using hserved
      · obtain ⟨drained, hall, hnone⟩ := hexited h
        obtain rfl := hnone hnot
        have hserved := congrArg (· ++ [c]) hall
        exact ⟨[], by simpa [Threads.push, actions] using hserved, fun _ => rfl⟩
  | wait htodo hqueue =>
      exact ⟨hserving, hexited, hno, hgone, fun h => by simpa [htodo] using hdone h⟩
  | direct htodo =>
      exact ⟨hserving, hexited, hno, hgone, fun h => by simpa [htodo] using hdone h⟩
  | join htodo hjoin hpoller =>
      obtain ⟨drained, hall, -⟩ := hexited (.inr hpoller)
      exact ⟨hserving, fun _ => ⟨drained, hall, fun h => absurd (.inl rfl) h⟩, hno,
        fun _ => hpoller, fun _ => htodo⟩
  | @drain a queue htodo hdrain hqueue =>
      have hpoller := hgone (.inl hdrain)
      obtain ⟨drained, hall, -⟩ := hexited (.inr hpoller)
      refine ⟨fun h => absurd (.inr hpoller) h, fun _ => ⟨drained ++ [a.action], ?_,
        fun h => absurd (.inl hdrain) h⟩, hno, fun _ => hpoller, fun _ => htodo⟩
      simpa [hqueue, actions] using hall
  | stop htodo hdrain hqueue =>
      have hpoller := hgone (.inl hdrain)
      obtain ⟨drained, hall, -⟩ := hexited (.inr hpoller)
      exact ⟨hserving, fun _ => ⟨drained, hall, fun h => absurd (.inr rfl) h⟩, hno,
        fun _ => hpoller, fun _ => htodo⟩

theorem Reachable.invariant {I : Threads → Prop}
    (hpoller : ∀ {t : Threads}, I t → I t.pollerStep)
    (hapi : ∀ {t t' : Threads}, I t → t.apiStep = some t' → I t')
    {t t' : Threads} (h : Reachable t t') (hstart : I t) : I t' := by
  induction h with
  | refl => exact hstart
  | tail _ hstep ih =>
      cases hstep with
      | poller => exact hpoller ih
      | api hstep => exact hapi ih hstep

theorem fifo_of_reachable {ops : List (Op Rpc Direct)} {stop : Bool} {pg : Packetgraph}
    {t : Threads} (h : Reachable (start ops stop pg) t) : Fifo t :=
  h.invariant (I := Fifo) Fifo.pollerStep Fifo.apiStep (fifo_start ops stop pg)

/-! ## The program of the API thread -/

def Follows (ops : List (Op Rpc Direct)) (t : Threads) : Prop :=
  ∃ ran, ops = ran ++ t.todo ∧ actions t.pushed = commands ran

theorem pollerStep_frame (t : Threads) :
    t.pollerStep.todo = t.todo ∧ t.pollerStep.api = t.api ∧
      t.pollerStep.pushed = t.pushed := by
  unfold pollerStep
  split
  · exact ⟨rfl, rfl, rfl⟩
  · split <;> exact ⟨rfl, rfl, rfl⟩
  · next a _ =>
      rcases pollerSwitch_cases a t with ⟨-, heq⟩ | ⟨list, -, heq⟩ | ⟨-, -, heq⟩ <;>
        rw [heq] <;> exact ⟨rfl, rfl, rfl⟩
  · exact ⟨rfl, rfl, rfl⟩
  · exact ⟨rfl, rfl, rfl⟩
  · exact ⟨rfl, rfl, rfl⟩

theorem Follows.pollerStep {ops : List (Op Rpc Direct)} {t : Threads} (h : Follows ops t) :
    Follows ops t.pollerStep := by
  obtain ⟨htodo, -, hpushed⟩ := pollerStep_frame t
  obtain ⟨ran, hops, hran⟩ := h
  exact ⟨ran, by rw [htodo, hops], by rw [hpushed, hran]⟩

theorem Follows.apiStep {ops : List (Op Rpc Direct)} {t t' : Threads} (h : Follows ops t)
    (hstep : t.apiStep = some t') : Follows ops t' := by
  obtain ⟨ran, hops, hran⟩ := h
  cases apiStep_cases hstep with
  | @push c todo htodo =>
      refine ⟨ran ++ [.push c], by simp [hops, htodo, Threads.push], ?_⟩
      rw [commands, List.filterMap_append, ← commands, ← hran]
      simp [Threads.push, actions]
  | wait htodo hqueue =>
      exact ⟨ran ++ [.wait], by simp [hops, htodo], by simp [commands, hran]⟩
  | @direct d todo htodo =>
      exact ⟨ran ++ [.direct d], by simp [hops, htodo], by simp [commands, hran]⟩
  | join | drain | stop => exact ⟨ran, hops, hran⟩

theorem follows_of_reachable {ops : List (Op Rpc Direct)} {stop : Bool} {pg : Packetgraph}
    {t : Threads} (h : Reachable (start ops stop pg) t) : Follows ops t :=
  h.invariant (I := Follows ops) Follows.pollerStep Follows.apiStep ⟨[], rfl, rfl⟩

/-! ## Who frees a message -/

/-- Every message pushed has one owner: the queue, the poller, or nobody. -/
structure Owned (t : Threads) : Prop where
  count : ∀ a, t.freed.count a + t.held.count a + t.queue.count a = t.pushed.count a
  address : t.pushed.map (·.address) = List.range t.pushed.length
  gone : t.poller = .gone → t.q = none
  stopped : t.api = .stopped → t.queue = [] ∧ t.todo = []

theorem owned_start (ops : List (Op Rpc Direct)) (stop : Bool) (pg : Packetgraph) :
    Owned (start ops stop pg) where
  count a := rfl
  address := rfl
  gone h := by cases h
  stopped h := by cases stop <;> cases h

theorem Owned.pollerStep {t : Threads} (h : Owned t) : Owned t.pollerStep := by
  obtain ⟨hcount, haddress, hgone, hstopped⟩ := h
  unfold Threads.pollerStep
  split
  · next hpoll =>
      exact ⟨fun b => by simpa [held, hpoll] using hcount b, haddress, nofun, hstopped⟩
  · next hunqueue =>
      split
      · exact ⟨fun b => by simpa [held, hunqueue] using hcount b, haddress, nofun, hstopped⟩
      · next a queue hqueue =>
          refine ⟨fun b => ?_, haddress, nofun, fun h => ?_⟩
          · have hb := hcount b
            simp only [held, hunqueue, hqueue, List.append_nil, List.count_cons,
              List.count_append, List.count_nil] at hb ⊢
            omega
          · simpa [hqueue] using (hstopped h).1
  · next a hswitch =>
      have hb : ∀ b, t.freed.count b + (t.q.toList.count b + [a].count b) + t.queue.count b =
          t.pushed.count b := fun b => by simpa [held, hswitch] using hcount b
      rcases pollerSwitch_cases a t with ⟨-, heq⟩ | ⟨list, -, heq⟩ | ⟨-, -, heq⟩
      · rw [heq]
        refine ⟨fun b => ?_, haddress, nofun, hstopped⟩
        have hb := hb b
        simp only [held, List.append_nil, List.count_append]
        omega
      · rw [heq]
        refine ⟨fun b => ?_, haddress, nofun, hstopped⟩
        have hb := hb b
        simp only [held, execute, Option.toList_some, List.count_append]
        omega
      · rw [heq]
        refine ⟨fun b => ?_, haddress, nofun, hstopped⟩
        have hb := hb b
        simp only [held, execute, Option.toList_some, List.count_append]
        omega
  · next a hrelease =>
      refine ⟨fun b => ?_, haddress, nofun, hstopped⟩
      have hb := hcount b
      simp only [held, hrelease, List.append_nil, List.count_append] at hb ⊢
      omega
  · next hleave =>
      refine ⟨fun b => ?_, haddress, fun _ => rfl, hstopped⟩
      have hb := hcount b
      simp only [held, hleave, List.append_nil, List.count_append, Option.toList_none,
        List.count_nil] at hb ⊢
      omega
  · exact ⟨hcount, haddress, hgone, hstopped⟩

theorem Owned.apiStep {t t' : Threads} (h : Owned t) (hstep : t.apiStep = some t') :
    Owned t' := by
  obtain ⟨hcount, haddress, hgone, hstopped⟩ := h
  cases apiStep_cases hstep with
  | @push c todo htodo =>
      refine ⟨fun b => ?_, ?_, hgone, fun h => ?_⟩
      · have hb := hcount b
        simp only [held, Threads.push, List.count_append] at hb ⊢
        omega
      · simp [Threads.push, haddress, List.range_succ]
      · simpa [htodo] using (hstopped h).2
  | wait htodo =>
      exact ⟨hcount, haddress, hgone, fun h => by simpa [htodo] using (hstopped h).2⟩
  | direct htodo =>
      exact ⟨hcount, haddress, hgone, fun h => by simpa [htodo] using (hstopped h).2⟩
  | join => exact ⟨hcount, haddress, hgone, nofun⟩
  | @drain a queue _ hdrain hqueue =>
      refine ⟨fun b => ?_, haddress, hgone, fun h => ?_⟩
      · have hb := hcount b
        simp only [held, hqueue, List.count_cons, List.count_append, List.count_nil] at hb ⊢
        omega
      · rw [hdrain] at h
        cases h
  | stop htodo hdrain hqueue => exact ⟨hcount, haddress, hgone, fun _ => ⟨hqueue, htodo⟩⟩

theorem owned_of_reachable {ops : List (Op Rpc Direct)} {stop : Bool} {pg : Packetgraph}
    {t : Threads} (h : Reachable (start ops stop pg) t) : Owned t :=
  h.invariant (I := Owned) Owned.pollerStep Owned.apiStep (owned_start ops stop pg)

theorem Owned.count_pushed {t : Threads} (h : Owned t) {a : RpcQueue} (ha : a ∈ t.pushed) :
    t.pushed.count a = 1 := by
  have hnodup : (t.pushed.map (·.address)).Nodup := by
    rw [h.address]
    exact List.nodup_range
  exact List.count_eq_one_of_mem hnodup.of_map ha

/-! ## The effects of the commands -/

def directs (ops : List (Op Rpc Direct)) : List Direct :=
  ops.filterMap fun
    | .direct d => some d
    | _ => none

/-- Packetgraph after the commands and the direct calls of `log`. -/
def effects (log : List (Rpc ⊕ Direct)) (pg : Packetgraph) : Packetgraph :=
  log.foldl
    (fun pg => Sum.elim (Packetgraph.machine.exec · pg) (Packetgraph.machine.act · pg)) pg

theorem effects_append (log more : List (Rpc ⊕ Direct)) (pg : Packetgraph) :
    effects (log ++ more) pg = effects more (effects log pg) := List.foldl_append

/-- A step of the poller executes a command, or leaves packetgraph alone. -/
theorem pollerStep_executes (t : Threads) :
    (t.pollerStep.executed = t.executed ∧ t.pollerStep.pg = t.pg ∧
      t.pollerStep.tmpFw = t.tmpFw) ∨
    ∃ a, t.poller = .switch a ∧ t.pollerStep.executed = (t.execute a).executed ∧
      t.pollerStep.pg = (t.execute a).pg ∧ t.pollerStep.tmpFw = (t.execute a).tmpFw := by
  unfold pollerStep
  split
  · exact .inl ⟨rfl, rfl, rfl⟩
  · split <;> exact .inl ⟨rfl, rfl, rfl⟩
  · next a hswitch =>
      rcases pollerSwitch_cases a t with ⟨-, heq⟩ | ⟨list, -, heq⟩ | ⟨-, -, heq⟩
      · rw [heq]
        exact .inl ⟨rfl, rfl, rfl⟩
      · rw [heq]
        exact .inr ⟨a, hswitch, rfl, rfl, rfl⟩
      · rw [heq]
        exact .inr ⟨a, hswitch, rfl, rfl, rfl⟩
  · exact .inl ⟨rfl, rfl, rfl⟩
  · exact .inl ⟨rfl, rfl, rfl⟩
  · exact .inl ⟨rfl, rfl, rfl⟩

/--
Packetgraph is what the commands executed and the direct calls made of it, in
some order that keeps the order of each.
-/
def Effective (ops : List (Op Rpc Direct)) (pg : Packetgraph) (t : Threads) : Prop :=
  ∃ ran log, ops = ran ++ t.todo ∧ log.filterMap Sum.getLeft? = t.executed ∧
    log.filterMap Sum.getRight? = directs ran ∧ t.pg = effects log pg

theorem Effective.pollerStep {ops : List (Op Rpc Direct)} {pg : Packetgraph} {t : Threads}
    (h : Effective ops pg t) : Effective ops pg t.pollerStep := by
  obtain ⟨ran, log, hops, hexecuted, hdirects, hpg⟩ := h
  have htodo : ops = ran ++ t.pollerStep.todo := by rw [(pollerStep_frame t).1, hops]
  rcases pollerStep_executes t with ⟨hsame, hpg', -⟩ | ⟨a, -, hmore, hpg', -⟩
  · exact ⟨ran, log, htodo, by rw [hsame, hexecuted], hdirects, by rw [hpg', hpg]⟩
  · refine ⟨ran, log ++ [.inl a.action], htodo, ?_, ?_, ?_⟩
    · rw [hmore, List.filterMap_append, hexecuted]
      rfl
    · rw [List.filterMap_append, hdirects]
      exact List.append_nil _
    · rw [hpg', effects_append, ← hpg]
      rfl

theorem Effective.apiStep {ops : List (Op Rpc Direct)} {pg : Packetgraph} {t t' : Threads}
    (h : Effective ops pg t) (hstep : t.apiStep = some t') : Effective ops pg t' := by
  obtain ⟨ran, log, hops, hexecuted, hdirects, hpg⟩ := h
  cases apiStep_cases hstep with
  | @push c todo htodo =>
      exact ⟨ran ++ [.push c], log, by simp [hops, htodo, Threads.push], hexecuted,
        by simp [directs, hdirects], hpg⟩
  | wait htodo =>
      exact ⟨ran ++ [.wait], log, by simp [hops, htodo], hexecuted,
        by simp [directs, hdirects], hpg⟩
  | @direct d todo htodo =>
      refine ⟨ran ++ [.direct d], log ++ [.inr d], by simp [hops, htodo], ?_, ?_, ?_⟩
      · rw [List.filterMap_append, hexecuted]
        exact List.append_nil _
      · rw [List.filterMap_append, hdirects, directs, directs, List.filterMap_append]
        rfl
      · rw [effects_append, ← hpg]
        rfl
  | join | drain | stop => exact ⟨ran, log, hops, hexecuted, hdirects, hpg⟩

theorem effective_of_reachable {ops : List (Op Rpc Direct)} {stop : Bool} {pg : Packetgraph}
    {t : Threads} (h : Reachable (start ops stop pg) t) : Effective ops pg t :=
  h.invariant (I := Effective ops pg) Effective.pollerStep Effective.apiStep
    ⟨[], [], rfl, rfl, rfl, rfl⟩

/-- With pushes and waits only, packetgraph is what the commands make of it. -/
theorem effects_of_commands {log : List (Rpc ⊕ Direct)} {pg : Packetgraph}
    (h : log.filterMap Sum.getRight? = []) :
    effects log pg = Packetgraph.machine.execAll (log.filterMap Sum.getLeft?) pg := by
  induction log generalizing pg with
  | nil => rfl
  | cons e log ih =>
      cases e with
      | inl c => exact ih (by simpa using h)
      | inr d => simp at h

theorem executes_of_reachable {ops : List (Op Rpc Direct)} {stop : Bool} {pg : Packetgraph}
    {t : Threads} (h : Reachable (start ops stop pg) t) (hops : ∀ d, .direct d ∉ ops) :
    t.pg = Packetgraph.machine.execAll t.executed pg := by
  obtain ⟨ran, log, hran, hexecuted, hdirects, hpg⟩ := effective_of_reachable h
  have hnone : directs ran = [] := by
    refine List.filterMap_eq_nil_iff.mpr fun op hop => ?_
    cases op with
    | direct d => exact absurd (hran ▸ List.mem_append_left _ hop) (hops d)
    | push c => rfl
    | wait => rfl
  rw [hpg, effects_of_commands (hdirects.trans hnone), hexecuted]

/--
The messages in hand and in the queue are the last ones pushed, and an `FW_NEW`
executed has written its variable.
-/
structure Written (t : Threads) : Prop where
  pending : t.inHand.toList ++ t.queue <:+ t.pushed
  written : ∀ i name result, t.executed[i]? = some (.fwNew name result) →
    t.tmpFw i = result

/-- What is in hand has the number of the commands executed as its address. -/
theorem address_inHand {t : Threads} (hfifo : Fifo t) (howned : Owned t) (h : Written t)
    {a : RpcQueue} (hswitch : t.poller = .switch a) : a.address = t.executed.length := by
  obtain ⟨ran, hran⟩ := h.pending
  have hserving := hfifo.serving (by simp [Exited, hswitch])
  simp only [inHand, hswitch, Option.toList_some, List.singleton_append] at hran hserving
  have hlength : t.executed.length = ran.length := by
    have hlengths := congrArg List.length hserving
    simp only [← hran, actions, List.length_append, List.length_map, List.length_cons]
      at hlengths
    omega
  have haddress := congrArg (·[ran.length]?) howned.address
  simpa [← hran, hlength] using haddress

theorem Written.pollerStep {t : Threads} (hfifo : Fifo t) (howned : Owned t) (h : Written t) :
    Written t.pollerStep where
  pending := by
    have hpushed := h.pending
    unfold Threads.pollerStep
    split
    · next hpoll => simpa [inHand, hpoll] using hpushed
    · next hunqueue =>
        split
        · simpa [inHand, hunqueue] using hpushed
        · next a queue hqueue => simpa [inHand, hunqueue, hqueue] using hpushed
    · next a hswitch =>
        have hqueue : t.queue <:+ t.pushed := (List.suffix_append _ _).trans hpushed
        rcases pollerSwitch_cases a t with ⟨-, heq⟩ | ⟨list, -, heq⟩ | ⟨-, -, heq⟩
        · rw [heq]
          exact hqueue
        · rw [heq]
          exact hqueue
        · rw [heq]
          exact hqueue
    · next hrelease => simpa [inHand, hrelease] using hpushed
    · next hleave => simpa [inHand, hleave] using hpushed
    · exact hpushed
  written i name result hi := by
    rcases pollerStep_executes t with ⟨hsame, -, htmp⟩ | ⟨a, hswitch, hmore, -, htmp⟩
    · rw [hsame] at hi
      rw [htmp]
      exact h.written i name result hi
    · have haddress := address_inHand hfifo howned h hswitch
      rw [hmore, execute, List.getElem?_append] at hi
      rw [htmp]
      split at hi
      · next hlt =>
          have hbefore := h.written i name result hi
          cases haction : a.action with
          | fwNew name' result' =>
              simpa [execute, haction, Function.update_of_ne (show i ≠ a.address by omega)]
          | _ => simpa [execute, haction]
      · next hle =>
          obtain ⟨hzero, haction⟩ : i - t.executed.length = 0 ∧
              a.action = .fwNew name result := by
            rw [List.getElem?_eq_some_iff] at hi
            obtain ⟨hlt, haction⟩ := hi
            have hzero : i - t.executed.length = 0 := by
              simp only [List.length_singleton] at hlt
              omega
            exact ⟨hzero, by simpa [hzero] using haction⟩
          have hi : i = a.address := by omega
          simp [execute, haction, hi]

theorem Written.apiStep {t t' : Threads} (hfifo : Fifo t) (h : Written t)
    (hstep : t.apiStep = some t') : Written t' := by
  obtain ⟨hpending, hwritten⟩ := h
  cases apiStep_cases hstep with
  | @push c todo htodo =>
      obtain ⟨ran, hran⟩ := hpending
      exact ⟨⟨ran, by simp [Threads.push, inHand, ← hran]⟩, hwritten⟩
  | wait | direct | join | stop => exact ⟨hpending, hwritten⟩
  | @drain a queue htodo hdrain hqueue =>
      have hnone : t.inHand = none := by simp [inHand, hfifo.gone (.inl hdrain)]
      rw [hnone, hqueue] at hpending
      have hrest : queue <:+ t.pushed := (List.suffix_cons a queue).trans hpending
      refine ⟨?_, hwritten⟩
      change t.inHand.toList ++ queue <:+ t.pushed
      rw [hnone]
      exact hrest

theorem written_of_reachable {ops : List (Op Rpc Direct)} {stop : Bool} {pg : Packetgraph}
    {t : Threads} (h : Reachable (start ops stop pg) t) : Written t := by
  have hall : Fifo t ∧ Owned t ∧ Written t := by
    refine h.invariant (I := fun t => Fifo t ∧ Owned t ∧ Written t)
      (fun ⟨hfifo, howned, hwritten⟩ =>
        ⟨hfifo.pollerStep, howned.pollerStep, hwritten.pollerStep hfifo howned⟩)
      (fun ⟨hfifo, howned, hwritten⟩ hstep =>
        ⟨hfifo.apiStep hstep, howned.apiStep hstep, hwritten.apiStep hfifo hstep⟩)
      ⟨fifo_start _ _ _, owned_start _ _ _, ⟨List.suffix_refl _, ?_⟩⟩
    simp [start]
  exact hall.2.2

/-! ## `WaitEmptyQueue` -/

/--
Where the queue was empty the poller is still there, and what it may have in its
hand is the `NOTHING` pushed last.
-/
def Returned (before after : List (Op Rpc Direct)) (t : Threads) : Prop :=
  t.todo = after → ¬t.Exited ∧ t.queue = [] ∧
    t.executed ++ actions t.inHand.toList = commands before ++ [.nothing]

theorem Returned.pollerStep {before after : List (Op Rpc Direct)} {t : Threads}
    (h : Returned before after t) : Returned before after t.pollerStep := by
  intro htodo
  obtain ⟨hlive, hqueue, hdone⟩ := h ((pollerStep_frame t).1 ▸ htodo)
  unfold Threads.pollerStep at htodo ⊢
  split
  · next hpoll => exact ⟨by simp [Exited], hqueue, by simpa [inHand, hpoll] using hdone⟩
  · next hunqueue =>
      rw [hqueue]
      exact ⟨by simp [Exited], rfl, by simpa [inHand, hunqueue] using hdone⟩
  · next a hswitch =>
      simp only [inHand, hswitch, Option.toList_some, actions, List.map_cons, List.map_nil] at hdone
      obtain ⟨hbefore, hlast⟩ := List.append_inj' hdone rfl
      have hnothing : a.action = .nothing := by simpa using hlast
      have heq : t.pollerSwitch a = { t.execute a with poller := .release (some a) } := by
        simp [pollerSwitch, hnothing]
      rw [heq]
      exact ⟨by simp [Exited], hqueue, by simpa [inHand, execute, actions] using hdone⟩
  · next hrelease =>
      exact ⟨by simp [Exited], hqueue, by simpa [inHand, hrelease] using hdone⟩
  · next hleave => exact absurd (.inl hleave) hlive
  · next hgone => exact absurd (.inr hgone) hlive

theorem Returned.apiStep {before after : List (Op Rpc Direct)} {t t' : Threads}
    (hfifo : Fifo t) (hfollows : Follows (before ++ [.push .nothing, .wait] ++ after) t)
    (h : Returned before after t) (hstep : t.apiStep = some t') :
    Returned before after t' := by
  obtain ⟨ran, hops, hran⟩ := hfollows
  -- A step of the program that ends at `after` is the wait itself.
  have hwait : ∀ op, t.todo = op :: after →
      op = .wait ∧ actions t.pushed = commands before ++ [.nothing] := by
    intro op htodo
    have hboth : before ++ [.push .nothing] ++ [.wait] ++ after = ran ++ [op] ++ after := by
      simpa [htodo] using hops
    have hsplit := List.append_cancel_right hboth
    obtain ⟨hran', hop⟩ := List.append_inj' hsplit rfl
    refine ⟨by simpa using hop.symm, ?_⟩
    rw [hran, ← hran']
    simp [commands]
  have hstop : t.todo = [] → t.poller = .gone → after ≠ [] := by
    rintro htodo hgone rfl
    exact (h htodo).1 (.inr hgone)
  cases apiStep_cases hstep with
  | push htodo =>
      rintro rfl
      cases (hwait _ htodo).1
  | wait htodo hqueue =>
      rintro rfl
      obtain ⟨-, hpushed⟩ := hwait _ htodo
      have hlive : ¬t.Exited := by
        intro hexited
        obtain ⟨drained, hall, hnone⟩ := hfifo.exited hexited
        have hserving : ¬t.Draining := fun h => by simpa [htodo] using hfifo.done h
        obtain rfl := hnone hserving
        rw [hpushed, hqueue] at hall
        have hlast := (List.append_inj' hall rfl).2
        simp at hlast
      have hdone := hfifo.serving hlive
      rw [hqueue, List.append_nil, hpushed] at hdone
      exact ⟨hlive, hqueue, hdone⟩
  | direct htodo =>
      rintro rfl
      cases (hwait _ htodo).1
  | join htodo _ hgone => exact fun hafter => absurd (hafter ▸ htodo) (hstop htodo hgone)
  | drain htodo hdrain =>
      exact fun hafter => absurd (hafter ▸ htodo) (hstop htodo (hfifo.gone (.inl hdrain)))
  | stop htodo hdrain =>
      exact fun hafter => absurd (hafter ▸ htodo) (hstop htodo (hfifo.gone (.inl hdrain)))

theorem returned_of_reachable {before after : List (Op Rpc Direct)} {stop : Bool}
    {pg : Packetgraph} {t : Threads}
    (h : Reachable (start (before ++ [.push .nothing, .wait] ++ after) stop pg) t) :
    Returned before after t := by
  have hall : Fifo t ∧ Follows (before ++ [.push .nothing, .wait] ++ after) t ∧
      Returned before after t := by
    refine h.invariant (I := fun t => Fifo t ∧ Follows _ t ∧ Returned before after t)
      (fun ⟨hfifo, hfollows, hreturned⟩ =>
        ⟨hfifo.pollerStep, hfollows.pollerStep, hreturned.pollerStep⟩)
      (fun ⟨hfifo, hfollows, hreturned⟩ hstep => ⟨hfifo.apiStep hstep,
        hfollows.apiStep hstep, hreturned.apiStep hfifo hfollows hstep⟩)
      ⟨fifo_start _ _ _, ⟨[], rfl, rfl⟩, fun hafter => ?_⟩
    have hlength := congrArg List.length hafter
    simp [start] at hlength
    omega
  exact hall.2.2

/-- What `FW_NEW` writes through its pointer, with the name it was given. -/
def firewallNew? : Rpc → Option (String × Option Brick)
  | .fwNew name result => some (name, result)
  | _ => none

theorem prefix_emits (s : Server) (ops : List (Op Rpc Direct)) :
    s.ops <+: (s.emits ops).ops := ⟨ops, rfl⟩

theorem prefix_fwUpdate (ok : PgCall → Bool) (nic : Nic) (s : Server) :
    s.ops <+: (Graph.fwUpdate ok nic s).ops := by
  rcases Graph.fwUpdate_cases ok nic s with heq | ⟨gn, hstarted, hfilter, hfind⟩
  · rw [heq]
  · rw [Graph.fwUpdate_eq hstarted hfilter hfind]
    exact prefix_emits _ _

theorem prefix_keepBranch (ok : PgCall → Bool) (nic : Nic) (gn : GraphNic) (s : Server) :
    s.ops <+: (Graph.keepBranch ok nic gn s).ops := by
  have hpoll : s.ops <+: (Graph.updatePoll
      (s.updateVni nic.vni (Graph.withBranch nic.id gn))).ops := prefix_emits _ _
  have hupdate := hpoll.trans (prefix_fwUpdate ok nic _)
  unfold Graph.keepBranch
  dsimp only
  split
  · rw [Server.release_eq]
    exact hupdate.trans (prefix_emits _ _)
  · exact hupdate

/--
On a started graph, before anything else, `NicAdd` pushes `FW_NEW` and waits for
the empty queue.
-/
theorem prefix_nicAdd {P : Platform} {ok : PgCall → Bool} {nic : Nic} {s s' : Server}
    {added : Option Nic} (hstarted : s.started = true)
    (h : Graph.nicAdd P ok nic s = some (added, s')) :
    s.ops ++ Graph.fwNewOps ok nic s.nextSerial <+: s'.ops := by
  have hcreated : ∀ {s₁}, Graph.Created ok nic (Graph.openVni nic.vni s) s₁ →
      s.ops ++ Graph.fwNewOps ok nic s.nextSerial <+: s₁.ops := by
    rintro s₁ ⟨-, -, ops, -, rfl⟩
    refine ⟨ops ++ (Graph.innerLinks ok nic s.nextSerial s.config.packetTrace).map
      Graph.linkOp, ?_⟩
    simp [Graph.openVni]
  have hcases : ∃ accepted, Graph.NicAdded ok nic s accepted s' := by
    rcases Graph.nicAdd_cases hstarted h with ⟨-, h⟩ | ⟨-, h⟩
    · exact ⟨_, h⟩
    · exact ⟨_, h⟩
  obtain ⟨accepted, hadded⟩ := hcases
  cases hadded with
  | abandoned hscrap =>
      obtain ⟨-, ops, -, rfl⟩ := hscrap
      exact ⟨ops, by simp [Graph.openVni]⟩
  | first hnew =>
      refine List.IsPrefix.trans ?_ (prefix_keepBranch _ _ _ _)
      exact (hcreated hnew).trans (List.prefix_append _ _)
  | noSwitch hnew => exact (hcreated hnew).trans (List.prefix_append _ _)
  | stuck hnew => exact (hcreated hnew).trans (List.prefix_append _ _)
  | second hnew =>
      refine List.IsPrefix.trans ?_ (prefix_keepBranch _ _ _ _)
      exact (hcreated hnew).trans (List.prefix_append _ _)
  | further hnew =>
      refine List.IsPrefix.trans ?_ (prefix_keepBranch _ _ _ _)
      exact (hcreated hnew).trans (List.prefix_append _ _)

theorem barrier {s : Server} {rest : List (Op Rpc Direct)} {stop : Bool}
    {pg : Packetgraph} {t : Threads}
    (h : Reachable (start (s.waitEmptyQueue.ops ++ rest) stop pg) t)
    (htodo : t.todo = rest) :
    t.queue = [] ∧
      (t.executed = commands s.ops ∨ t.executed = commands s.ops ++ [.nothing]) ∧
      ∀ a ∈ t.inHand, a.action = .nothing := by
  have hreturned : Returned s.ops rest t := returned_of_reachable (by simpa using h)
  obtain ⟨-, hqueue, hdone⟩ := hreturned htodo
  refine ⟨hqueue, ?_⟩
  cases hhand : t.inHand with
  | none =>
      rw [hhand] at hdone
      exact ⟨.inr (by simpa [actions] using hdone), nofun⟩
  | some a =>
      rw [hhand] at hdone
      obtain ⟨hbefore, hlast⟩ := List.append_inj' hdone rfl
      have hnothing : a.action = .nothing := by simpa [actions] using hlast
      exact ⟨.inl hbefore, by simpa using hnothing⟩

/--
When the wait returns, packetgraph has gone through the commands executed and
the calls before it.
-/
theorem effects_at_barrier {s : Server} {rest : List (Op Rpc Direct)} {stop : Bool}
    {pg : Packetgraph} {t : Threads}
    (h : Reachable (start (s.waitEmptyQueue.ops ++ rest) stop pg) t) (htodo : t.todo = rest) :
    ∃ log, log.filterMap Sum.getLeft? = t.executed ∧
      log.filterMap Sum.getRight? = directs s.ops ∧ t.pg = effects log pg := by
  obtain ⟨ran, log, hops, hexecuted, hdirects, hpg⟩ := effective_of_reachable h
  rw [htodo] at hops
  have hran : ran = s.waitEmptyQueue.ops := (List.append_cancel_right hops).symm
  refine ⟨log, hexecuted, ?_, hpg⟩
  rw [hdirects, hran]
  simp [directs]

/-- `NicAdd`'s own message is the one behind those pushed before. -/
theorem own_message {s : Server} {c : Rpc} {rest : List (Op Rpc Direct)} {stop : Bool}
    {pg : Packetgraph} {t : Threads}
    (h : Reachable (start ((s.push c).waitEmptyQueue.ops ++ rest) stop pg) t)
    (htodo : t.todo = rest) :
    ∃ a ∈ t.pushed, a.address = (commands s.ops).length ∧ a.action = c := by
  obtain ⟨ran, hops, hpushed⟩ := follows_of_reachable h
  have haddress := (owned_of_reachable h).address
  rw [htodo] at hops
  have hran : ran = (s.push c).waitEmptyQueue.ops := (List.append_cancel_right hops).symm
  have hactions : actions t.pushed = commands s.ops ++ [c, .nothing] := by
    rw [hpushed, hran]
    simp [commands]
  have hlength : t.pushed.length = (commands s.ops).length + 2 := by
    simpa [actions] using congrArg List.length hactions
  have hlt : (commands s.ops).length < t.pushed.length := by omega
  refine ⟨t.pushed[(commands s.ops).length], List.getElem_mem _, ?_, ?_⟩
  · have hat := congrArg (·[(commands s.ops).length]?) haddress
    simpa [hlt] using hat
  · have hat := congrArg (·[(commands s.ops).length]?) hactions
    simpa [actions, hlt] using hat

/--
When `WaitEmptyQueue` returns, the commands pushed before have been executed in
the order of the pushes, packetgraph has gone through them and the direct calls
before, and the poller has nothing in its hand but the `NOTHING` of the wait.
So `NicAdd` finds the result of its own `FW_NEW` in `tmp_fw`.
-/
theorem wait_empty_queue_is_a_barrier (stop : Bool) (pg : Packetgraph) :
    (∀ (s : Server) (rest : List (Op Rpc Direct)) (t : Threads),
      Reachable (start (s.waitEmptyQueue.ops ++ rest) stop pg) t → t.todo = rest →
        t.queue = [] ∧
        (t.executed = commands s.ops ∨ t.executed = commands s.ops ++ [.nothing]) ∧
        (∃ log, log.filterMap Sum.getLeft? = t.executed ∧
          log.filterMap Sum.getRight? = directs s.ops ∧ t.pg = effects log pg) ∧
        ∀ a ∈ t.inHand, a.action = .nothing ∧ a.action.refs = [] ∧
          firewallNew? a.action = none) ∧
      ∀ (P : Platform) (ok : PgCall → Bool) (nic : Nic) (s s' : Server)
        (added : Option Nic), s.started = true →
        Graph.nicAdd P ok nic s = some (added, s') →
          let name := "firewall-" ++ nic.id
          let result := if ok (.firewallNew name) then some ⟨.firewall, s.nextSerial⟩
            else none
          let asked := (s.push (.fwNew name result)).waitEmptyQueue
          asked.ops <+: s'.ops ∧
            ∀ (rest : List (Op Rpc Direct)) (t : Threads), s'.ops = asked.ops ++ rest →
              Reachable (start s'.ops stop pg) t → t.todo = rest →
                (t.executed.filterMap firewallNew?).getLast? = some (name, result) ∧
                ∃ a ∈ t.pushed, a.address = (commands s.ops).length ∧
                  a.action = .fwNew name result ∧ t.tmpFw a.address = result := by
  constructor
  · intro s rest t h htodo
    obtain ⟨hqueue, hexecuted, hhand⟩ := barrier h htodo
    refine ⟨hqueue, hexecuted, effects_at_barrier h htodo, fun a ha => ?_⟩
    have hnothing := hhand a ha
    exact ⟨hnothing, by rw [hnothing]; rfl, by rw [hnothing]; rfl⟩
  · intro P ok nic s s' added hstarted hadd name result asked
    have hasked : asked.ops = s.ops ++ Graph.fwNewOps ok nic s.nextSerial := by
      simp [asked, Graph.fwNewOps, name, result]
    refine ⟨hasked ▸ prefix_nicAdd hstarted hadd, fun rest t hops h htodo => ?_⟩
    rw [hops] at h
    obtain ⟨-, hexecuted, -⟩ := barrier h htodo
    have hlast : commands (s.push (.fwNew name result)).ops =
        commands s.ops ++ [.fwNew name result] := by
      simp [commands]
    rw [hlast] at hexecuted
    have hat : t.executed[(commands s.ops).length]? = some (.fwNew name result) := by
      rcases hexecuted with hexecuted | hexecuted
      · simp [hexecuted]
      · simp [hexecuted]
    obtain ⟨a, ha, haddress, haction⟩ := own_message h htodo
    refine ⟨?_, a, ha, haddress, haction,
      haddress ▸ (written_of_reachable h).written _ name result hat⟩
    rcases hexecuted with hexecuted | hexecuted
    · rw [hexecuted, List.filterMap_append]
      simp [firewallNew?]
    · have hnone : [Rpc.nothing].filterMap firewallNew? = [] := rfl
      rw [hexecuted, List.filterMap_append, List.filterMap_append, hnone]
      simp [firewallNew?]

/-- `NicAdd` gives up after the firewall, while the poller has the `NOTHING`. -/
theorem wait_empty_queue_is_a_barrier_new_firewall :
    ∃ (s' : Server) (t : Threads),
      Reachable (start s'.ops false {}) t ∧ t.todo = [] ∧ t.inHand.isSome = true ∧
        (∀ a ∈ t.inHand, a.action = .nothing) ∧
        (t.executed.filterMap firewallNew?).getLast? =
          some ("firewall-nic-1", some ⟨.firewall, 1⟩) ∧
        ∃ a ∈ t.pushed, t.tmpFw a.address = some ⟨.firewall, 1⟩ := by
  let ok : PgCall → Bool := fun
    | .firewallNew _ => true
    | _ => false
  let nic : Nic := { id := "nic-1", type := .tap }
  let s : Server := Server.start {} 1 0
  let s' := (Graph.openVni nic.vni s).takeSerial.emits (Graph.fwNewOps ok nic 1)
  obtain ⟨t, ht, htodo, hhand⟩ : ∃ t,
      follow [true, true, true, false, false, false, false, false, false, false, false, true]
        (start s'.ops false {}) = some t ∧ t.todo = [] ∧ t.inHand.isSome = true :=
    ⟨_, rfl, rfl, rfl⟩
  have hadd : Graph.nicAdd Libc.platform ok nic s = some (none, s') := rfl
  have hbarrier := wait_empty_queue_is_a_barrier false {}
  obtain ⟨-, -, -, hnothing⟩ := hbarrier.1
    (s.push (.fwNew "firewall-nic-1" (some ⟨.firewall, 1⟩))) [] t (reachable_follow ht) htodo
  obtain ⟨hlast, a, ha, -, -, hresult⟩ := (hbarrier.2 Libc.platform ok nic s _ none rfl hadd).2
    [] t rfl (reachable_follow ht) htodo
  exact ⟨s', t, reachable_follow ht, htodo, hhand, fun a ha => (hnothing a ha).1, hlast, a, ha,
    hresult⟩

/-! ## The list in use -/

def isUpdatePoll : Rpc → Bool
  | .updatePoll _ => true
  | _ => false

/-- The poller uses the list of the last `UPDATE_POLL` it has executed. -/
def Retains (t : Threads) : Prop :=
  t.poller ≠ .gone → t.q.map (·.action) = (t.executed.filter isUpdatePoll).getLast?

theorem Retains.pollerStep {t : Threads} (h : Retains t) : Retains t.pollerStep := by
  unfold Threads.pollerStep
  split
  · next hpoll => exact fun _ => h (by simp [hpoll])
  · next hunqueue =>
      split <;> exact fun _ => h (by simp [hunqueue])
  · next a hswitch =>
      have hlast := h (by simp [hswitch])
      rcases pollerSwitch_cases a t with ⟨-, heq⟩ | ⟨list, hlist, heq⟩ | ⟨-, hother, heq⟩
      · rw [heq]
        exact fun _ => hlast
      · rw [heq]
        intro _
        simp [execute, hlist, isUpdatePoll]
      · have hskip : isUpdatePoll a.action = false := by
          cases haction : a.action with
          | updatePoll list => exact absurd haction (hother list)
          | _ => rfl
        rw [heq]
        intro _
        simpa [execute, hskip] using hlast
  · next hrelease => exact fun _ => h (by simp [hrelease])
  · exact fun hne => absurd rfl hne
  · exact h

theorem Retains.apiStep {t t' : Threads} (h : Retains t) (hstep : t.apiStep = some t') :
    Retains t' := by
  cases apiStep_cases hstep <;> exact h

theorem retains_of_reachable {ops : List (Op Rpc Direct)} {stop : Bool} {pg : Packetgraph}
    {t : Threads} (h : Reachable (start ops stop pg) t) : Retains t :=
  h.invariant (I := Retains) Retains.pollerStep Retains.apiStep fun _ => rfl

/-! ## Batches -/

theorem prefix_executed {t : Threads} (h : Fifo t) :
    t.executed <+: (actions t.pushed).takeWhile (· ≠ .exit) := by
  have hexecuted : t.executed <+: actions t.pushed := by
    by_cases hexited : t.Exited
    · obtain ⟨drained, hall, -⟩ := h.exited hexited
      exact ⟨_, hall⟩
    · exact ⟨_, h.serving hexited⟩
  obtain ⟨rest, hrest⟩ := hexecuted
  rw [← hrest, List.takeWhile_append_of_pos]
  · exact List.prefix_append _ _
  · intro c hc
    simpa using fun heq : c = .exit => h.noExit (heq ▸ hc)

theorem executed_gone {t : Threads} (h : Fifo t) (hgone : t.poller = .gone) :
    t.executed = (actions t.pushed).takeWhile (· ≠ .exit) := by
  obtain ⟨drained, hall, -⟩ := h.exited (.inr hgone)
  rw [← hall, List.takeWhile_append_of_pos]
  · simp
  · intro c hc
    simpa using fun heq : c = .exit => h.noExit (heq ▸ hc)

/--
However the messages fall into calls of `PollerUpdate`: they are executed in the
order of the pushes up to the first `EXIT`; between two calls the poller uses
the list of the last `UPDATE_POLL` executed, whose message is not freed; and
after `Stop` every message has been freed once.
-/
theorem batches_do_not_matter {ops : List (Op Rpc Direct)} {stop : Bool}
    {pg : Packetgraph} {t : Threads} (h : Reachable (start ops stop pg) t) :
    t.executed <+: (actions t.pushed).takeWhile (· ≠ .exit) ∧
    ((∀ d, .direct d ∉ ops) → t.pg = Packetgraph.machine.execAll t.executed pg) ∧
    (t.poller = .poll →
      t.executed ++ actions t.queue = actions t.pushed ∧
      t.q.map (·.action) = (t.executed.filter isUpdatePoll).getLast? ∧
      ∀ a ∈ t.q, a ∈ t.pushed ∧ a ∉ t.freed) ∧
    (t.poller = .gone → t.executed = (actions t.pushed).takeWhile (· ≠ .exit)) ∧
    (t.api = .stopped →
      actions t.pushed = commands ops ∧ (t.pushed.map (·.address)).Nodup ∧
      (∀ a ∈ t.pushed, t.freed.count a = 1) ∧ ∀ a ∈ t.freed, a ∈ t.pushed) := by
  have hfifo := fifo_of_reachable h
  have howned := owned_of_reachable h
  refine ⟨prefix_executed hfifo, executes_of_reachable h,
    fun hpoll => ⟨?_, ?_, fun a ha => ?_⟩, executed_gone hfifo, fun hstopped => ?_⟩
  · simpa [inHand, hpoll] using hfifo.serving (by simp [Exited, hpoll])
  · exact retains_of_reachable h (by simp [hpoll])
  · have hcount := howned.count a
    have hheld : t.held.count a = 1 := by simp [held, hpoll, Option.mem_def.mp ha]
    have hpushed : a ∈ t.pushed := List.count_pos_iff.mp (by omega)
    have hone := howned.count_pushed hpushed
    exact ⟨hpushed, List.count_eq_zero.mp (by omega)⟩
  · have hgone := hfifo.gone (.inr hstopped)
    obtain ⟨hqueue, htodo⟩ := howned.stopped hstopped
    have hfreed : ∀ a, t.freed.count a = t.pushed.count a := by
      intro a
      have hcount := howned.count a
      simpa [held, hgone, howned.gone hgone, hqueue] using hcount
    obtain ⟨ran, hops, hran⟩ := follows_of_reachable h
    refine ⟨by rw [hran, hops, htodo, List.append_nil], ?_, fun a ha => ?_, fun a ha => ?_⟩
    · rw [howned.address]
      exact List.nodup_range
    · rw [hfreed, howned.count_pushed ha]
    · exact List.count_pos_iff.mp (hfreed a ▸ List.count_pos_iff.mpr ha)

/--
Two lists and an `EXIT` behind them: the first list is freed by the second, the
`EXIT` in the switch, the second list at the end of `Poller`, and the last
message by `Stop`.
-/
theorem batches_do_not_matter_two_lists :
    ∃ t : Threads,
      Reachable (start [.push (.updatePoll []), .push (.updatePoll []), .push .exit,
        .push .nothing] true {}) t ∧
      t.freed.map (·.address) = [0, 2, 1, 3] ∧ t.executed = [.updatePoll [], .updatePoll []] ∧
      ∀ a ∈ t.pushed, t.freed.count a = 1 := by
  obtain ⟨t, ht, hstopped, hfreed, hexecuted⟩ : ∃ t,
      follow [true, false, false, false, true, false, false, false, false, true, true, false,
        false, false, false, true, true, true]
        (start [.push (.updatePoll []), .push (.updatePoll []), .push .exit,
          .push .nothing] true {}) = some t ∧ t.api = .stopped ∧
        t.freed.map (·.address) = [0, 2, 1, 3] ∧
        t.executed = [.updatePoll [], .updatePoll []] := ⟨_, rfl, rfl, rfl, rfl⟩
  obtain ⟨-, -, -, -, hstop⟩ := batches_do_not_matter (reachable_follow ht)
  exact ⟨t, reachable_follow ht, hfreed, hexecuted, (hstop hstopped).2.2.1⟩

/-! ## The command queue without messages -/

/-- The threads as a configuration of `CommandQueue`. -/
def config (t : Threads) : Config Packetgraph Rpc Direct :=
  ⟨t.todo, actions t.queue, t.inHand.map (·.action), t.poller == .poll, t.pg⟩

theorem config_pollerStep (t : Threads) :
    Packetgraph.machine.Reachable t.config t.pollerStep.config := by
  unfold Threads.pollerStep
  split
  · next hpoll =>
      simp only [config, inHand, hpoll]
      exact .single (.inr (.enter _ _ _))
  · next hunqueue =>
      split
      · next hqueue =>
          simp only [config, inHand, hunqueue, hqueue]
          exact .single (.inr (.leave _ _))
      · next a queue hqueue =>
          simp only [config, inHand, hunqueue, hqueue]
          exact .single (.inr (.pop _ _ _ _))
  · next a hswitch =>
      have hrun : Packetgraph.machine.Reachable t.config
          ⟨t.todo, actions t.queue, none, false, Packetgraph.machine.exec a.action t.pg⟩ := by
        simp only [config, inHand, hswitch]
        exact .single (.inr (.run _ _ _ _))
      rcases pollerSwitch_cases a t with ⟨hexit, heq⟩ | ⟨list, -, heq⟩ | ⟨-, -, heq⟩
      · rw [hexit] at hrun
        rw [heq]
        exact hrun
      · rw [heq]
        exact hrun
      · rw [heq]
        exact hrun
  · next hrelease =>
      simp only [config, inHand, hrelease]
      exact .refl
  · next hleave =>
      simp only [config, inHand, hleave]
      exact .refl
  · exact .refl

theorem config_apiStep {t t' : Threads} (hstep : t.apiStep = some t')
    (hdraining : ¬t'.Draining) : Packetgraph.machine.Reachable t.config t'.config := by
  cases apiStep_cases hstep with
  | @push c todo htodo =>
      have hqueue : (({ t with todo := todo } : Threads).push c).config =
          ⟨todo, actions t.queue ++ [c], t.inHand.map (·.action), t.poller == .poll,
            t.pg⟩ := by
        simp [config, Threads.push, actions, inHand]
      rw [hqueue]
      simp only [config, htodo]
      exact .single (.inl (.push _ _ _ _ _ _))
  | wait htodo hqueue =>
      simp only [config, htodo, hqueue]
      exact .single (.inl (.wait _ _ _ _))
  | direct htodo =>
      simp only [config, htodo]
      exact .single (.inl (.direct _ _ _ _ _ _))
  | join => exact absurd (.inl rfl) hdraining
  | drain _ hdrain => exact absurd (.inl hdrain) hdraining
  | stop => exact absurd (.inr rfl) hdraining

theorem draining_apiStep {t t' : Threads} (hstep : t.apiStep = some t')
    (htodo : t.todo = []) : t'.Draining := by
  cases apiStep_cases hstep with
  | push heq | wait heq | direct heq => rw [htodo] at heq; cases heq
  | join => exact .inl rfl
  | drain _ hdrain => exact .inl hdrain
  | stop => exact .inr rfl

theorem config_reachable {ops : List (Op Rpc Direct)} {stop : Bool} {pg : Packetgraph}
    {t : Threads} (h : Reachable (start ops stop pg) t) (hdraining : ¬t.Draining) :
    Packetgraph.machine.Reachable (Machine.start ops pg) t.config := by
  induction h with
  | refl => exact .refl
  | @tail t t' hreach hstep ih =>
      cases hstep with
      | poller =>
          have hapi := (pollerStep_frame t).2.1
          have hbefore : ¬t.Draining := by simpa [Draining, hapi] using hdraining
          exact (ih hbefore).trans (config_pollerStep t)
      | api hstep =>
          have hbefore : ¬t.Draining := fun h =>
            hdraining (draining_apiStep hstep ((fifo_of_reachable hreach).done h))
          exact (ih hbefore).trans (config_apiStep hstep hdraining)

end Threads

end Butterfly
