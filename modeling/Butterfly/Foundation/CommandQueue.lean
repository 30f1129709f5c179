import Mathlib

/-!
# A producer and a consumer around a command queue

One thread, the producer, runs a list of operations: it pushes commands on a
queue, waits until the queue is empty, or touches the shared state directly.
The other thread, the consumer, alternates between polling and emptying the
queue; it takes a command off the queue first and executes it afterwards.  The
threads interleave freely.

The file relates every interleaving to the synchronous run, in which a command
is executed the moment it is pushed, and gives the rule by which a property
checked along the synchronous run holds in every interleaving.
-/

namespace Butterfly.Foundation

inductive Op (κ δ : Type) where
  | push (command : κ)
  | wait
  | direct (operation : δ)
  deriving DecidableEq

/--
What commands and direct operations do to the shared state.  `idle` is a
command without effect: a producer that pushes it and then waits for the empty
queue knows that everything pushed before has been executed.
-/
structure Machine (σ κ δ : Type) where
  exec : κ → σ → σ
  act : δ → σ → σ
  idle : κ
  exec_idle : ∀ s, exec idle s = s

structure Config (σ κ δ : Type) where
  todo : List (Op κ δ)
  queue : List κ
  /-- The command taken off the queue and not executed yet. -/
  running : Option κ
  /-- The consumer is not between the start and the end of a queue update. -/
  polling : Bool
  state : σ

def Config.pending {σ κ δ : Type} (c : Config σ κ δ) : List κ :=
  c.running.toList ++ c.queue

namespace Machine

variable {σ κ δ : Type} (M : Machine σ κ δ)

/-! ## The interleaving semantics -/

def start (ops : List (Op κ δ)) (s : σ) : Config σ κ δ :=
  ⟨ops, [], none, true, s⟩

inductive ProducerStep : Config σ κ δ → Config σ κ δ → Prop
  | push (c todo queue running polling s) :
      ProducerStep ⟨.push c :: todo, queue, running, polling, s⟩
        ⟨todo, queue ++ [c], running, polling, s⟩
  | wait (todo running polling s) :
      ProducerStep ⟨.wait :: todo, [], running, polling, s⟩
        ⟨todo, [], running, polling, s⟩
  | direct (d todo queue running polling s) :
      ProducerStep ⟨.direct d :: todo, queue, running, polling, s⟩
        ⟨todo, queue, running, polling, M.act d s⟩

inductive ConsumerStep : Config σ κ δ → Config σ κ δ → Prop
  | enter (todo queue s) :
      ConsumerStep ⟨todo, queue, none, true, s⟩ ⟨todo, queue, none, false, s⟩
  | pop (c todo queue s) :
      ConsumerStep ⟨todo, c :: queue, none, false, s⟩
        ⟨todo, queue, some c, false, s⟩
  | run (c todo queue s) :
      ConsumerStep ⟨todo, queue, some c, false, s⟩
        ⟨todo, queue, none, false, M.exec c s⟩
  | leave (todo s) :
      ConsumerStep ⟨todo, [], none, false, s⟩ ⟨todo, [], none, true, s⟩

def Step (c c' : Config σ κ δ) : Prop :=
  M.ProducerStep c c' ∨ M.ConsumerStep c c'

def Reachable (c c' : Config σ κ δ) : Prop := Relation.ReflTransGen M.Step c c'

/-! ## The synchronous semantics -/

def syncOp (s : σ) : Op κ δ → σ
  | .push c => M.exec c s
  | .wait => s
  | .direct d => M.act d s

def sync (ops : List (Op κ δ)) (s : σ) : σ := ops.foldl M.syncOp s

@[simp] theorem sync_nil (s : σ) : M.sync [] s = s := rfl

@[simp] theorem sync_cons (op : Op κ δ) (ops : List (Op κ δ)) (s : σ) :
    M.sync (op :: ops) s = M.sync ops (M.syncOp s op) := rfl

@[simp] theorem sync_append (first second : List (Op κ δ)) (s : σ) :
    M.sync (first ++ second) s = M.sync second (M.sync first s) := by
  simp [sync, List.foldl_append]

/-- The schedule in which the consumer empties the queue after every push. -/
theorem reachable_sync (ops rest : List (Op κ δ)) (s : σ) :
    M.Reachable ⟨ops ++ rest, [], none, true, s⟩
      ⟨rest, [], none, true, M.sync ops s⟩ := by
  induction ops generalizing s with
  | nil => exact .refl
  | cons op ops ih =>
      refine Relation.ReflTransGen.trans ?_ (ih (M.syncOp s op))
      cases op with
      | push c =>
          refine .head (.inl (.push c (ops ++ rest) [] none true s)) ?_
          refine .head (.inr (.enter (ops ++ rest) [c] s)) ?_
          refine .head (.inr (.pop c (ops ++ rest) [] s)) ?_
          refine .head (.inr (.run c (ops ++ rest) [] s)) ?_
          exact .single (.inr (.leave (ops ++ rest) (M.exec c s)))
      | wait => exact .single (.inl (.wait (ops ++ rest) none true s))
      | direct d => exact .single (.inl (.direct d (ops ++ rest) [] none true s))

def ahead : List (Op κ δ) → List κ → σ → List κ × σ
  | [], queue, s => (queue, s)
  | .push c :: ops, queue, s => ahead ops (queue ++ [c]) s
  | .wait :: ops, queue, s => ahead ops queue s
  | .direct d :: ops, queue, s => ahead ops queue (M.act d s)

/-- The schedule in which the consumer does nothing, until the producer waits. -/
theorem reachable_ahead (ops rest : List (Op κ δ)) (queue : List κ) (s : σ) (h : .wait ∉ ops) :
    M.Reachable ⟨ops ++ rest, queue, none, true, s⟩
      ⟨rest, (M.ahead ops queue s).1, none, true, (M.ahead ops queue s).2⟩ := by
  induction ops generalizing queue s with
  | nil => exact .refl
  | cons op ops ih =>
      obtain ⟨hop, hops⟩ := not_or.mp (mt List.mem_cons.mpr h)
      cases op with
      | push c =>
          exact .head (.inl (.push c (ops ++ rest) queue none true s)) (ih (queue ++ [c]) s hops)
      | wait => exact absurd rfl hop
      | direct d =>
          exact .head (.inl (.direct d (ops ++ rest) queue none true s))
            (ih queue (M.act d s) hops)

def execAll (commands : List κ) (s : σ) : σ :=
  commands.foldl (fun s c => M.exec c s) s

@[simp] theorem execAll_nil (s : σ) : M.execAll [] s = s := rfl

@[simp] theorem execAll_cons (c : κ) (commands : List κ) (s : σ) :
    M.execAll (c :: commands) s = M.execAll commands (M.exec c s) := rfl

@[simp] theorem execAll_append (first second : List κ) (s : σ) :
    M.execAll (first ++ second) s = M.execAll second (M.execAll first s) := by
  simp [execAll, List.foldl_append]

/-- The shared state once the consumer has executed what is pending. -/
def settle (c : Config σ κ δ) : σ := M.execAll c.pending c.state

end Machine

/-! ## A part of the shared state -/

section Projection

variable {σ τ κ δ : Type} {M : Machine σ κ δ} {N : Machine τ κ δ} {π : σ → τ}

def Config.map (π : σ → τ) (c : Config σ κ δ) : Config τ κ δ :=
  ⟨c.todo, c.queue, c.running, c.polling, π c.state⟩

/-- Commands and operations act on the part by themselves. -/
structure Machine.Projects (M : Machine σ κ δ) (N : Machine τ κ δ) (π : σ → τ) :
    Prop where
  exec : ∀ c s, π (M.exec c s) = N.exec c (π s)
  act : ∀ d s, π (M.act d s) = N.act d (π s)

theorem Machine.Projects.producerStep (h : M.Projects N π) {c c' : Config σ κ δ}
    (hstep : M.ProducerStep c c') : N.ProducerStep (c.map π) (c'.map π) := by
  cases hstep with
  | push k todo queue running polling s => exact .push k todo queue running polling (π s)
  | wait todo running polling s => exact .wait todo running polling (π s)
  | direct d todo queue running polling s =>
      simp only [Config.map, h.act]
      exact .direct d todo queue running polling (π s)

theorem Machine.Projects.consumerStep (h : M.Projects N π) {c c' : Config σ κ δ}
    (hstep : M.ConsumerStep c c') : N.ConsumerStep (c.map π) (c'.map π) := by
  cases hstep with
  | enter todo queue s => exact .enter todo queue (π s)
  | pop k todo queue s => exact .pop k todo queue (π s)
  | run k todo queue s =>
      simp only [Config.map, h.exec]
      exact .run k todo queue (π s)
  | leave todo s => exact .leave todo (π s)

theorem Machine.Projects.reachable (h : M.Projects N π) {c c' : Config σ κ δ}
    (hc : M.Reachable c c') : N.Reachable (c.map π) (c'.map π) := by
  induction hc with
  | refl => exact .refl
  | tail _ hstep ih =>
      refine ih.tail ?_
      rcases hstep with hproducer | hconsumer
      · exact .inl (h.producerStep hproducer)
      · exact .inr (h.consumerStep hconsumer)

theorem Machine.Projects.settle (h : M.Projects N π) (c : Config σ κ δ) :
    π (M.settle c) = N.settle (c.map π) := by
  have hexec : ∀ (commands : List κ) (s : σ),
      π (M.execAll commands s) = N.execAll commands (π s) := by
    intro commands
    induction commands with
    | nil => exact fun s => rfl
    | cons k commands ih =>
        intro s
        rw [Machine.execAll_cons, Machine.execAll_cons, ih, h.exec]
  exact hexec c.pending c.state

end Projection

/-! ## Checking a run of the producer -/

/--
What the producer knows about the queue: nothing, that the last command it
pushed is idle, or that it has waited since.
-/
inductive Mode where
  | dirty
  | fenced
  | clean
  deriving DecidableEq

/--
A discipline for the producer.  Free operations commute with every command and
may be done at any time, the others only on a settled state.  `inv` is to hold
in every state, `pre` of every pending command, `safe` of every direct
operation.
-/
structure Discipline {σ κ δ : Type} (M : Machine σ κ δ) where
  free : δ → Prop
  inv : σ → Prop
  pre : κ → σ → Prop
  safe : δ → σ → Prop
  free_comm : ∀ {d c s}, free d → M.exec c (M.act d s) = M.act d (M.exec c s)
  free_inv : ∀ {d s}, free d → inv s → inv (M.act d s)
  free_pre : ∀ {d c s}, free d → pre c s → pre c (M.act d s)
  free_safe : ∀ {d s}, free d → safe d s
  pre_of_exec : ∀ {c c' s}, pre c (M.exec c' s) → pre c s
  pre_idle : ∀ s, pre M.idle s

namespace Discipline

variable {σ κ δ : Type} {M : Machine σ κ δ} (D : Discipline M)

def Along : List κ → σ → Prop
  | [], s => D.inv s
  | c :: commands, s => D.inv s ∧ D.pre c s ∧ Along commands (M.exec c s)

theorem Along.inv {D : Discipline M} {commands : List κ} {s : σ}
    (h : D.Along commands s) : D.inv s := by
  cases commands with
  | nil => exact h
  | cons c commands => exact h.1

theorem along_snoc (commands : List κ) (c : κ) (s : σ) :
    D.Along (commands ++ [c]) s ↔
      D.Along commands s ∧ D.pre c (M.execAll commands s) ∧
        D.inv (M.exec c (M.execAll commands s)) := by
  induction commands generalizing s with
  | nil => simp [Along]
  | cons first commands ih => simp [Along, ih, and_assoc]

theorem Along.pre {D : Discipline M} {commands : List κ} {s : σ}
    (h : D.Along commands s) : ∀ c ∈ commands, D.pre c s := by
  induction commands generalizing s with
  | nil => simp
  | cons first commands ih =>
      obtain ⟨-, hfirst, hrest⟩ := h
      intro c hc
      rcases List.mem_cons.mp hc with rfl | hc
      · exact hfirst
      · exact D.pre_of_exec (ih hrest c hc)

theorem Along.act {D : Discipline M} {commands : List κ} {s : σ} {d : δ}
    (hd : D.free d) (h : D.Along commands s) : D.Along commands (M.act d s) := by
  induction commands generalizing s with
  | nil => exact D.free_inv hd h
  | cons first commands ih =>
      obtain ⟨hinv, hpre, hrest⟩ := h
      refine ⟨D.free_inv hd hinv, D.free_pre hd hpre, ?_⟩
      rw [D.free_comm hd]
      exact ih hrest

theorem execAll_act {D : Discipline M} {d : δ} (hd : D.free d)
    (commands : List κ) (s : σ) :
    M.execAll commands (M.act d s) = M.act d (M.execAll commands s) := by
  induction commands generalizing s with
  | nil => rfl
  | cons c commands ih => simp [D.free_comm hd, ih]

variable [DecidableEq κ]

def nextMode (M : Machine σ κ δ) (mode : Mode) : Op κ δ → Mode
  | .push c => if c = M.idle then .fenced else .dirty
  | .wait => if mode = .dirty then .dirty else .clean
  | .direct _ => mode

def modeAfter (M : Machine σ κ δ) (mode : Mode) (ops : List (Op κ δ)) : Mode :=
  ops.foldl (nextMode M) mode

/-- The discipline is kept along the synchronous run of the operations. -/
def Checked : Mode → σ → List (Op κ δ) → Prop
  | _, _, [] => True
  | mode, s, .push c :: ops =>
      D.pre c s ∧ D.inv (M.exec c s) ∧
        Checked (nextMode M mode (.push c)) (M.exec c s) ops
  | mode, s, .wait :: ops => Checked (nextMode M mode .wait) s ops
  | mode, s, .direct d :: ops =>
      (mode = .clean ∨ D.free d) ∧ D.safe d s ∧ D.inv (M.act d s) ∧
        Checked mode (M.act d s) ops

theorem checked_append (mode : Mode) (s : σ) (first second : List (Op κ δ)) :
    D.Checked mode s (first ++ second) ↔
      D.Checked mode s first ∧
        D.Checked (modeAfter M mode first) (M.sync first s) second := by
  induction first generalizing mode s with
  | nil => simp [Checked, modeAfter]
  | cons op ops ih =>
      cases op <;>
        simp [Checked, ih, modeAfter, nextMode, Machine.syncOp, and_assoc]

/-- A run of pushes and waits and of free operations, where nothing else is asked. -/
theorem checked_of_free {mode : Mode} {s : σ} {ops : List (Op κ δ)}
    (hinv : ∀ s, D.inv s) (hpre : ∀ c s, D.pre c s)
    (hops : ∀ d, .direct d ∈ ops → D.free d) : D.Checked mode s ops := by
  induction ops generalizing mode s with
  | nil => trivial
  | cons op ops ih =>
      have hrest : ∀ d, .direct d ∈ ops → D.free d :=
        fun d hd => hops d (List.mem_cons_of_mem _ hd)
      cases op with
      | push c => exact ⟨hpre _ _, hinv _, ih hrest⟩
      | wait => exact ih hrest
      | direct d =>
          have hfree := hops d List.mem_cons_self
          exact ⟨.inr hfree, D.free_safe hfree, hinv _, ih hrest⟩

/--
The invariant of the interleaving semantics.  The settled state is the one the
synchronous run has reached, and the rest of the run is still checked there.
-/
structure Tracks (ops : List (Op κ δ)) (s₀ : σ) (mode : Mode)
    (c : Config σ κ δ) : Prop where
  along : D.Along c.pending c.state
  checked : D.Checked mode (M.settle c) c.todo
  final : M.sync c.todo (M.settle c) = M.sync ops s₀
  fence : mode ≠ .dirty → ∀ k, c.pending.getLast? = some k → k = M.idle
  empty : mode = .clean → c.queue = []

/-- After a wait behind an idle command nothing with an effect is pending. -/
theorem Tracks.settle_clean {D : Discipline M} {ops : List (Op κ δ)} {s₀ : σ}
    {c : Config σ κ δ} (h : D.Tracks ops s₀ .clean c) :
    M.settle c = c.state := by
  have hqueue := h.empty rfl
  have hfence := h.fence (by decide)
  cases hrunning : c.running with
  | none => simp [Machine.settle, Config.pending, hqueue, hrunning]
  | some k =>
      have hidle : k = M.idle := hfence k (by
        simp [Config.pending, hqueue, hrunning])
      simp [Machine.settle, Config.pending, hqueue, hrunning, hidle,
        M.exec_idle]

theorem tracks_start {ops : List (Op κ δ)} {s₀ : σ} (hinv : D.inv s₀)
    (hops : D.Checked .clean s₀ ops) :
    D.Tracks ops s₀ .clean (Machine.start ops s₀) where
  along := hinv
  checked := hops
  final := rfl
  fence := by simp [Machine.start, Config.pending]
  empty := fun _ => rfl

theorem Tracks.producerStep {D : Discipline M} {ops : List (Op κ δ)} {s₀ : σ}
    {mode : Mode} {c c' : Config σ κ δ} (h : D.Tracks ops s₀ mode c)
    (hstep : M.ProducerStep c c') : ∃ mode', D.Tracks ops s₀ mode' c' := by
  cases hstep with
  | push k todo queue running polling s =>
      obtain ⟨halong, hchecked, hfinal, -, -⟩ := h
      obtain ⟨hpre, hinv, hrest⟩ := hchecked
      have hpending : Config.pending
          (⟨todo, queue ++ [k], running, polling, s⟩ : Config σ κ δ) =
            Config.pending
              (⟨.push k :: todo, queue, running, polling, s⟩ : Config σ κ δ) ++
              [k] := by
        simp [Config.pending]
      have hsettle : M.settle
          (⟨todo, queue ++ [k], running, polling, s⟩ : Config σ κ δ) =
            M.exec k (M.settle
              (⟨.push k :: todo, queue, running, polling, s⟩ : Config σ κ δ)) := by
        simp [Machine.settle, hpending]
      refine ⟨nextMode M mode (.push k), ?_, ?_, ?_, ?_, ?_⟩
      · rw [hpending, along_snoc]
        exact ⟨halong, hpre, hinv⟩
      · rw [hsettle]
        exact hrest
      · rw [hsettle]
        exact hfinal
      · intro hmode last hlast
        rw [hpending, List.getLast?_append] at hlast
        by_cases hk : k = M.idle
        · simpa [hk, eq_comm] using hlast
        · exact absurd (by simp [nextMode, hk]) hmode
      · intro hmode
        simp only [nextMode] at hmode
        split at hmode <;> cases hmode
  | wait todo running polling s =>
      obtain ⟨halong, hchecked, hfinal, hfence, -⟩ := h
      refine ⟨nextMode M mode .wait, halong, hchecked, hfinal, ?_, fun _ => rfl⟩
      intro hmode
      apply hfence
      rintro rfl
      exact hmode (by simp [nextMode])
  | direct d todo queue running polling s =>
      have hclean : mode = .clean → M.settle
          (⟨.direct d :: todo, queue, running, polling, s⟩ : Config σ κ δ) = s := by
        rintro rfl
        exact h.settle_clean
      obtain ⟨halong, hchecked, hfinal, hfence, hempty⟩ := h
      obtain ⟨hallowed, -, hinv, hrest⟩ := hchecked
      have hboth : D.Along
            (⟨todo, queue, running, polling, M.act d s⟩ : Config σ κ δ).pending
            (M.act d s) ∧
          M.settle (⟨todo, queue, running, polling, M.act d s⟩ : Config σ κ δ) =
            M.act d (M.settle
              (⟨.direct d :: todo, queue, running, polling, s⟩ :
                Config σ κ δ)) := by
        rcases hallowed with hmode | hfree
        · -- Only an idle command can be pending, so the state is settled.
          have hs := hclean hmode
          rw [hs] at hinv ⊢
          have hqueue : queue = [] := hempty hmode
          subst hqueue
          cases running with
          | none => exact ⟨hinv, rfl⟩
          | some k =>
              have hk : k = M.idle := hfence (by simp [hmode]) k rfl
              subst hk
              refine ⟨⟨hinv, D.pre_idle _, ?_⟩, M.exec_idle _⟩
              simpa [Along, M.exec_idle] using hinv
        · exact ⟨halong.act hfree, execAll_act hfree _ _⟩
      refine ⟨mode, hboth.1, ?_, ?_, hfence, hempty⟩
      · rw [hboth.2]
        exact hrest
      · rw [hboth.2]
        exact hfinal

theorem Tracks.consumerStep {D : Discipline M} {ops : List (Op κ δ)} {s₀ : σ}
    {mode : Mode} {c c' : Config σ κ δ} (h : D.Tracks ops s₀ mode c)
    (hstep : M.ConsumerStep c c') : D.Tracks ops s₀ mode c' := by
  obtain ⟨halong, hchecked, hfinal, hfence, hempty⟩ := h
  cases hstep with
  | enter todo queue s => exact ⟨halong, hchecked, hfinal, hfence, hempty⟩
  | pop k todo queue s =>
      exact ⟨halong, hchecked, hfinal, hfence, fun hmode => by
        cases hempty hmode⟩
  | run k todo queue s =>
      refine ⟨halong.2.2, hchecked, hfinal, ?_, hempty⟩
      intro hmode last hlast
      apply hfence hmode
      simp only [Config.pending, Option.toList_none, List.nil_append] at hlast
      simp [Config.pending, List.getLast?_cons, hlast]
  | leave todo s => exact ⟨halong, hchecked, hfinal, hfence, hempty⟩

theorem Tracks.reachable {D : Discipline M} {ops : List (Op κ δ)} {s₀ : σ} {mode : Mode}
    {c c' : Config σ κ δ} (h : D.Tracks ops s₀ mode c) (hc : M.Reachable c c') :
    ∃ mode', D.Tracks ops s₀ mode' c' := by
  induction hc with
  | refl => exact ⟨mode, h⟩
  | tail _ hstep ih =>
      obtain ⟨mode', htracks⟩ := ih
      rcases hstep with hproducer | hconsumer
      · exact htracks.producerStep hproducer
      · exact ⟨mode', htracks.consumerStep hconsumer⟩

theorem tracks_of_reachable {ops : List (Op κ δ)} {s₀ : σ} (hinv : D.inv s₀)
    (hops : D.Checked .clean s₀ ops) {c : Config σ κ δ}
    (hc : M.Reachable (Machine.start ops s₀) c) :
    ∃ mode, D.Tracks ops s₀ mode c :=
  (D.tracks_start hinv hops).reachable hc

/-! ## What a checked run guarantees in every interleaving -/

section Guarantees

variable {ops : List (Op κ δ)} {s₀ : σ} {c : Config σ κ δ}

theorem inv_of_reachable (hinv : D.inv s₀) (hops : D.Checked .clean s₀ ops)
    (hc : M.Reachable (Machine.start ops s₀) c) : D.inv c.state := by
  obtain ⟨mode, htracks⟩ := D.tracks_of_reachable hinv hops hc
  exact htracks.along.inv

theorem pre_of_reachable (hinv : D.inv s₀) (hops : D.Checked .clean s₀ ops)
    (hc : M.Reachable (Machine.start ops s₀) c) :
    ∀ k ∈ c.pending, D.pre k c.state := by
  obtain ⟨mode, htracks⟩ := D.tracks_of_reachable hinv hops hc
  exact htracks.along.pre

theorem safe_of_reachable (hinv : D.inv s₀) (hops : D.Checked .clean s₀ ops)
    (hc : M.Reachable (Machine.start ops s₀) c) {d : δ} {todo : List (Op κ δ)}
    (htodo : c.todo = .direct d :: todo) : D.safe d c.state := by
  obtain ⟨mode, htracks⟩ := D.tracks_of_reachable hinv hops hc
  have hchecked := htracks.checked
  rw [htodo] at hchecked
  obtain ⟨hallowed, hsafe, -⟩ := hchecked
  rcases hallowed with rfl | hfree
  · rwa [htracks.settle_clean] at hsafe
  · exact D.free_safe hfree

/-- Once the producer is done, the settled state is the synchronous one. -/
theorem settle_of_reachable (hinv : D.inv s₀) (hops : D.Checked .clean s₀ ops)
    (hc : M.Reachable (Machine.start ops s₀) c) (hdone : c.todo = []) :
    M.settle c = M.sync ops s₀ := by
  obtain ⟨mode, htracks⟩ := D.tracks_of_reachable hinv hops hc
  simpa [hdone] using htracks.final

/-- More operations after a run whose commands may still be pending. -/
theorem settle_of_resumed {c' : Config σ κ δ} (halong : D.Along c.pending c.state)
    (hops : D.Checked .dirty (M.settle c) ops)
    (hc : M.Reachable { c with todo := ops } c') (hdone : c'.todo = []) :
    M.settle c' = M.sync ops (M.settle c) := by
  have hstart : D.Tracks ops (M.settle c) .dirty { c with todo := ops } :=
    ⟨halong, hops, rfl, fun hmode => absurd rfl hmode, fun hmode => nomatch hmode⟩
  obtain ⟨mode, htracks⟩ := hstart.reachable hc
  simpa [hdone] using htracks.final

end Guarantees

end Discipline

/-! ## What operations of one kind keep -/

section Keeping

variable {σ κ δ : Type} {M : Machine σ κ δ} {Q : Op κ δ → Prop} {I : σ → Prop}

structure Machine.Keeps (M : Machine σ κ δ) (Q : Op κ δ → Prop) (I : σ → Prop) : Prop where
  exec : ∀ {c s}, Q (.push c) → I s → I (M.exec c s)
  act : ∀ {d s}, Q (.direct d) → I s → I (M.act d s)

structure Config.Kept (Q : Op κ δ → Prop) (I : σ → Prop) (c : Config σ κ δ) : Prop where
  state : I c.state
  todo : ∀ op ∈ c.todo, Q op
  pending : ∀ k ∈ c.pending, Q (.push k)

theorem Machine.Keeps.step (h : M.Keeps Q I) {c c' : Config σ κ δ} (hc : c.Kept Q I)
    (hstep : M.Step c c') : c'.Kept Q I := by
  obtain ⟨hstate, htodo, hpending⟩ := hc
  rcases hstep with hproducer | hconsumer
  · cases hproducer with
    | push k todo queue running polling s =>
        refine ⟨hstate, fun op hop => htodo op (List.mem_cons_of_mem _ hop), ?_⟩
        intro k' hk'
        simp only [Config.pending, ← List.append_assoc] at hk'
        rcases List.mem_append.mp hk' with hold | hnew
        · exact hpending k' hold
        · rw [List.mem_singleton.mp hnew]
          exact htodo _ List.mem_cons_self
    | wait todo running polling s =>
        exact ⟨hstate, fun op hop => htodo op (List.mem_cons_of_mem _ hop), hpending⟩
    | direct d todo queue running polling s =>
        exact ⟨h.act (htodo _ List.mem_cons_self) hstate,
          fun op hop => htodo op (List.mem_cons_of_mem _ hop), hpending⟩
  · cases hconsumer with
    | enter todo queue s => exact ⟨hstate, htodo, hpending⟩
    | pop k todo queue s => exact ⟨hstate, htodo, hpending⟩
    | run k todo queue s =>
        exact ⟨h.exec (hpending k List.mem_cons_self) hstate, htodo,
          fun k' hk' => hpending k' (List.mem_cons_of_mem _ hk')⟩
    | leave todo s => exact ⟨hstate, htodo, hpending⟩

/-- What each operation of the program keeps, holds in every interleaving. -/
theorem Machine.Keeps.of_reachable (h : M.Keeps Q I) {ops : List (Op κ δ)} {s₀ : σ}
    {c : Config σ κ δ} (hs₀ : I s₀) (hops : ∀ op ∈ ops, Q op)
    (hc : M.Reachable (Machine.start ops s₀) c) : I c.state := by
  have hstart : (Machine.start ops s₀ : Config σ κ δ).Kept Q I :=
    ⟨hs₀, hops, by simp [Machine.start, Config.pending]⟩
  have hkept : c.Kept Q I := by
    induction hc with
    | refl => exact hstart
    | tail _ hstep ih => exact h.step ih hstep
  exact hkept.state

end Keeping

/-! ## What is counted -/

section Counting

variable {σ κ δ : Type} {M : Machine σ κ δ} {m : σ → ℕ} {w : Op κ δ → ℕ}

structure Machine.Counts (M : Machine σ κ δ) (m : σ → ℕ) (w : Op κ δ → ℕ) : Prop where
  exec : ∀ c s, m (M.exec c s) = m s + w (.push c)
  wait : w .wait = 0
  act : ∀ d s, m (M.act d s) = m s + w (.direct d)

def Config.total (m : σ → ℕ) (w : Op κ δ → ℕ) (c : Config σ κ δ) : ℕ :=
  m c.state + (c.pending.map fun k => w (.push k)).sum + (c.todo.map w).sum

theorem Machine.Counts.step (h : M.Counts m w) {c c' : Config σ κ δ} (hstep : M.Step c c') :
    c'.total m w = c.total m w := by
  rcases hstep with hproducer | hconsumer
  · cases hproducer with
    | push k todo queue running polling s =>
        simp only [Config.total, Config.pending, List.map_append, List.sum_append, List.map_cons,
          List.sum_cons, List.map_nil, List.sum_nil]
        omega
    | wait todo running polling s => simp [Config.total, Config.pending, h.wait]
    | direct d todo queue running polling s =>
        simp only [Config.total, Config.pending, h.act, List.map_cons, List.sum_cons]
        omega
  · cases hconsumer with
    | enter todo queue s => rfl
    | pop k todo queue s => simp [Config.total, Config.pending]
    | run k todo queue s =>
        simp only [Config.total, Config.pending, h.exec, Option.toList_some, Option.toList_none,
          List.singleton_append, List.nil_append, List.map_cons, List.sum_cons]
        omega
    | leave todo s => rfl

theorem Machine.Counts.reachable (h : M.Counts m w) {c c' : Config σ κ δ}
    (hc : M.Reachable c c') : c'.total m w = c.total m w := by
  induction hc with
  | refl => rfl
  | tail _ hstep ih => exact (h.step hstep).trans ih

/-- No more is counted in any interleaving than all operations add. -/
theorem Machine.Counts.le_of_reachable (h : M.Counts m w) {ops : List (Op κ δ)} {s₀ : σ}
    {c : Config σ κ δ} (hc : M.Reachable (Machine.start ops s₀) c) :
    m c.state ≤ m s₀ + (ops.map w).sum := by
  have htotal := h.reachable hc
  simp only [Config.total, Machine.start, Config.pending, Option.toList_none, List.append_nil,
    List.map_nil, List.sum_nil] at htotal
  omega

/-- When everything is executed, what all operations add is counted. -/
theorem Machine.Counts.eq_of_reachable (h : M.Counts m w) {ops : List (Op κ δ)} {s₀ : σ}
    {c : Config σ κ δ} (hc : M.Reachable (Machine.start ops s₀) c) (htodo : c.todo = [])
    (hpending : c.pending = []) : m c.state = m s₀ + (ops.map w).sum := by
  have htotal := h.reachable hc
  rw [Config.total, htodo, hpending] at htotal
  simpa [Config.total, Machine.start, Config.pending] using htotal

end Counting

end Butterfly.Foundation
