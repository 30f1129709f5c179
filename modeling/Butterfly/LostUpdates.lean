import Butterfly.Foundation.Interleaving
import Butterfly.NicSg

/-!
# Two clients at one NIC

Two `nic sg add` or `nic sg del` commands whose requests the server handles in any order.
Each reads the groups with one request and overwrites them with another, and nothing makes
the server refuse a list that was computed from groups read too early.

The first part knows the phases of the clients and the groups of the NIC only; the second
one shows that the clients at a server take these steps and no others.
-/

namespace Butterfly.Client

open Std Foundation MessageV0 Proto

/-- `nic sg add` or `nic sg del`, with the arguments behind the NIC. -/
structure Command where
  edit : Edit
  rest : List String

def Command.names (command : Command) : List String := takeNames command.rest

def Command.compute (command : Command) (groups : List String) : Option (List String) :=
  command.edit.compute groups command.names

def Command.Wanted (command : Command) (groups : List String) (sg : String) : Prop :=
  command.edit.Wanted groups command.names sg

/-- Every added name is there, or every deleted name is not. -/
def Command.Reflected (command : Command) (groups : List String) : Prop :=
  command.edit.Reflected command.names groups

/-! ## Groups under two commands -/

section Groups

variable {command other : Command} {old new groups : List String}

theorem Command.reflected_congr (h : ∀ sg ∈ command.names, sg ∈ new ↔ sg ∈ old) :
    command.Reflected new ↔ command.Reflected old := by
  unfold Command.Reflected Edit.Reflected
  cases command.edit with
  | add => exact forall₂_congr h
  | del => exact forall₂_congr fun sg hsg => not_congr (h sg hsg)

theorem Command.wanted_of_not_mem {sg : String} (h : sg ∉ command.names) :
    command.Wanted groups sg ↔ sg ∈ groups := by
  unfold Command.Wanted Edit.Wanted
  cases command.edit with
  | add => exact or_iff_left h
  | del => exact and_iff_left h

theorem Command.wanted_congr {sg : String} (h : sg ∈ new ↔ sg ∈ old) :
    command.Wanted new sg ↔ command.Wanted old sg := by
  unfold Command.Wanted Edit.Wanted
  cases command.edit with
  | add => exact or_congr_left h
  | del => exact and_congr_left' h

theorem Command.reflected_of_wanted
    (h : ∀ sg ∈ command.names, sg ∈ new ↔ command.Wanted old sg) : command.Reflected new := by
  unfold Command.Wanted Edit.Wanted at h
  unfold Command.Reflected Edit.Reflected
  cases hedit : command.edit with
  | add =>
      rw [hedit] at h
      exact fun sg hsg => (h sg hsg).mpr (.inr hsg)
  | del =>
      rw [hedit] at h
      exact fun sg hsg hmem => ((h sg hsg).mp hmem).2 hsg

theorem mem_written_of_ne {list : List String} (hlist : list ≠ []) {sg : String} (hsg : sg ≠ "") :
    sg ∈ written old list ↔ sg ∈ list := by
  rw [written, if_neg hlist]
  simp [mem_addNames, hsg]

theorem written_nodup {list : List String} (hold : old.Nodup) : (written old list).Nodup := by
  unfold written
  split
  · exact hold
  · exact addNames_nodup List.nodup_nil

end Groups

/-! ## Phases and groups -/

structure Shared where
  phase : Bool → Phase
  groups : List String

def Shared.move (v : Shared) (i : Bool) (phase : Phase) (groups : List String) : Shared :=
  ⟨Function.update v.phase i phase, groups⟩

inductive Shared.Step (command : Bool → Command) (i : Bool) (v : Shared) : Shared → Prop
  | done : v.phase i = .started → (command i).compute v.groups = none →
      Step command i v (v.move i (.exited 0) v.groups)
  | list {list : List String} : v.phase i = .started →
      (command i).compute v.groups = some list →
      Step command i v (v.move i (.listed list) v.groups)
  | write {list : List String} : v.phase i = .listed list →
      Step command i v (v.move i (.exited 0) (written v.groups list))
  | stay : v.phase i = .exited 0 → Step command i v v

/--
A client writes although the other one has read and not written yet, and what it writes is
not there so far.
-/
def Interferes (command : Bool → Command) (step : Shared × Bool) : Prop :=
  (∃ list, step.1.phase step.2 = .listed list) ∧
    (∃ list, step.1.phase (!step.2) = .listed list) ∧
    ¬(command step.2).Reflected step.1.groups

/-- No client is about to write the empty list, which the server would not take for one. -/
def NothingEmpty (step : Shared × Bool) : Prop := ∀ i, step.1.phase i ≠ .listed []

@[simp] theorem Shared.move_groups (v : Shared) (i : Bool) (phase : Phase)
    (groups : List String) : (v.move i phase groups).groups = groups := rfl

@[simp] theorem Shared.move_phase_self (v : Shared) (i : Bool) (phase : Phase)
    (groups : List String) : (v.move i phase groups).phase i = phase :=
  Function.update_self ..

@[simp] theorem Shared.move_phase_other (v : Shared) (i : Bool) (phase : Phase)
    (groups : List String) : (v.move i phase groups).phase (!i) = v.phase (!i) :=
  Function.update_of_ne (by simp) ..

theorem forall_client {p : Bool → Prop} (i : Bool) : (∀ j, p j) ↔ p i ∧ p (!i) := by
  cases i <;> simp [Bool.forall_bool, and_comm]

/-! ## Runs without interference -/

/-- As long as nothing interfered, lists belong to the groups of now. -/
structure Clean (command : Bool → Command) (v : Shared) (i : Bool) : Prop where
  exited : v.phase i = .exited 0 → (command i).Reflected v.groups
  listed : ∀ {list}, v.phase i = .listed list →
    ∀ sg, sg ≠ "" → (sg ∈ list ↔ (command i).Wanted v.groups sg)

/-- The command of one client is lost, or will be. -/
structure Lost (command : Bool → Command) (v : Shared) (i : Bool) : Prop where
  exited : v.phase i = .exited 0
  other : (∃ list, v.phase (!i) = .listed list ∧ ¬(command i).Reflected list) ∨
    v.phase (!i) = .exited 0 ∧ ¬(command i).Reflected v.groups

section Runs

variable {command : Bool → Command} {v v' : Shared} {i : Bool} {trace : List (Shared × Bool)}

theorem Shared.Step.nodup (h : Shared.Step command i v v') (hv : v.groups.Nodup) :
    v'.groups.Nodup := by
  cases h with
  | done => exact hv
  | list => exact hv
  | write => exact written_nodup hv
  | stay => exact hv

theorem not_mem_names (hdisjoint : ∀ sg ∈ (command true).names, sg ∉ (command false).names)
    {sg : String} (hsg : sg ∈ (command i).names) : sg ∉ (command (!i)).names := by
  cases i with
  | true => exact hdisjoint sg hsg
  | false => exact fun h => hdisjoint sg h hsg

theorem Shared.Step.clean (hempty : ∀ i, "" ∉ (command i).names)
    (hdisjoint : ∀ sg ∈ (command true).names, sg ∉ (command false).names)
    (h : Shared.Step command i v v') (hnodup : v.groups.Nodup) (hclean : ∀ j, Clean command v j)
    (hnothing : NothingEmpty (v, i)) (hno : ¬Interferes command (v, i)) :
    ∀ j, Clean command v' j := by
  rw [forall_client i]
  cases h with
  | done _ hcompute =>
      refine ⟨⟨fun _ => ?_, fun hphase => ?_⟩, ⟨fun hphase => ?_, fun hphase => ?_⟩⟩
      · exact reflected_of_compute hnodup hcompute
      · simp at hphase
      · exact (hclean (!i)).exited (by simpa using hphase)
      · exact (hclean (!i)).listed (by simpa using hphase)
  | list _ hcompute =>
      refine ⟨⟨fun hphase => ?_, fun hphase sg _ => ?_⟩, ⟨fun hphase => ?_, fun hphase => ?_⟩⟩
      · simp at hphase
      · obtain rfl : _ = _ := by simpa using hphase
        exact mem_compute hcompute sg
      · exact (hclean (!i)).exited (by simpa using hphase)
      · exact (hclean (!i)).listed (by simpa using hphase)
  | @write list hlisted =>
      have hne : list ≠ [] := fun h => hnothing i (h ▸ hlisted)
      have hwritten : ∀ sg, sg ≠ "" →
          (sg ∈ written v.groups list ↔ (command i).Wanted v.groups sg) := fun sg hsg =>
        (mem_written_of_ne hne hsg).trans ((hclean i).listed hlisted sg hsg)
      have hne_empty : ∀ {j sg}, sg ∈ (command j).names → sg ≠ "" :=
        fun hsg h => hempty _ (h ▸ hsg)
      refine ⟨⟨fun _ => ?_, fun hphase => ?_⟩, ⟨fun hphase => ?_, fun hphase sg hsg => ?_⟩⟩
      · exact Command.reflected_of_wanted fun sg hsg => hwritten sg (hne_empty hsg)
      · simp at hphase
      · have hreflected := (hclean (!i)).exited (by simpa using hphase)
        refine (Command.reflected_congr fun sg hsg => ?_).mpr hreflected
        have hother : sg ∉ (command i).names := by
          simpa using not_mem_names hdisjoint hsg
        exact (hwritten sg (hne_empty hsg)).trans (Command.wanted_of_not_mem hother)
      · -- Both have read, so what is written must have been there already.
        rw [Shared.move_phase_other] at hphase
        have hreflected : (command i).Reflected v.groups :=
          not_not.mp fun hnot => hno ⟨⟨_, hlisted⟩, ⟨_, hphase⟩, hnot⟩
        have hsame : sg ∈ written v.groups list ↔ sg ∈ v.groups :=
          (hwritten sg hsg).trans (hreflected.wanted_iff sg)
        exact ((hclean (!i)).listed hphase sg hsg).trans (Command.wanted_congr hsame).symm
  | stay => exact (forall_client i).mp hclean

theorem Shared.Step.lost_of_interferes (hempty : ∀ i, "" ∉ (command i).names)
    (hdisjoint : ∀ sg ∈ (command true).names, sg ∉ (command false).names)
    (h : Shared.Step command i v v') (hclean : ∀ j, Clean command v j)
    (hinterferes : Interferes command (v, i)) : Lost command v' i := by
  obtain ⟨⟨list, hlisted⟩, ⟨other, hother⟩, hnot⟩ := hinterferes
  simp only at hlisted hother hnot
  cases h with
  | done hphase => cases hphase.symm.trans hlisted
  | list hphase => cases hphase.symm.trans hlisted
  | stay hphase => cases hphase.symm.trans hlisted
  | write =>
      refine ⟨by simp, .inl ⟨other, by simpa using hother, fun hreflected => hnot ?_⟩⟩
      refine (Command.reflected_congr fun sg hsg => ?_).mp hreflected
      have hne : sg ≠ "" := fun h => hempty i (h ▸ hsg)
      exact ((hclean (!i)).listed hother sg hne).trans
        (Command.wanted_of_not_mem (not_mem_names hdisjoint hsg))

theorem Shared.Step.lost {j : Bool} (hempty : ∀ i, "" ∉ (command i).names)
    (h : Shared.Step command i v v') (hnothing : NothingEmpty (v, i)) (hlost : Lost command v j) :
    Lost command v' j := by
  obtain rfl | rfl : i = j ∨ i = !j := by cases i <;> cases j <;> simp
  · cases h with
    | done hphase => cases hphase.symm.trans hlost.exited
    | list hphase => cases hphase.symm.trans hlost.exited
    | write hphase => cases hphase.symm.trans hlost.exited
    | stay => exact hlost
  · obtain ⟨hexited, ⟨sgs, hlisted, hnot⟩ | hother⟩ := hlost
    · cases h with
      | done hphase => cases hphase.symm.trans hlisted
      | list hphase => cases hphase.symm.trans hlisted
      | stay hphase => cases hphase.symm.trans hlisted
      | write hphase =>
          obtain rfl : sgs = _ := by simpa using hlisted.symm.trans hphase
          have hne : sgs ≠ [] := fun h => hnothing (!j) (h ▸ hphase)
          refine ⟨?_, .inr ⟨by simp, fun hreflected => hnot ?_⟩⟩
          · have hkeep := v.move_phase_other (!j) (.exited 0) (written v.groups sgs)
            rw [Bool.not_not] at hkeep
            exact hkeep.trans hexited
          · refine (Command.reflected_congr fun sg hsg => ?_).mp hreflected
            exact mem_written_of_ne hne fun h => hempty j (h ▸ hsg)
    · cases h with
      | done hphase => cases hphase.symm.trans hother.1
      | list hphase => cases hphase.symm.trans hother.1
      | write hphase => cases hphase.symm.trans hother.1
      | stay => exact ⟨hexited, .inr hother⟩

theorem shared_run (hempty : ∀ i, "" ∉ (command i).names)
    (hdisjoint : ∀ sg ∈ (command true).names, sg ∉ (command false).names)
    {groups : List String} (hnodup : groups.Nodup)
    (h : Interleaving (Shared.Step command) id ⟨fun _ => .started, groups⟩ trace v)
    (hnothing : ∀ step ∈ trace, NothingEmpty step) :
    v.groups.Nodup ∧
      ((∀ step ∈ trace, ¬Interferes command step) ∧ (∀ j, Clean command v j) ∨
        (∃ step ∈ trace, Interferes command step) ∧ ∃ j, Lost command v j) := by
  induction h with
  | start => exact ⟨hnodup, .inl ⟨by simp, fun j => ⟨(nomatch ·), (nomatch ·)⟩⟩⟩
  | @step trace i v v' _ hstep ih =>
      obtain ⟨hnow, hbefore⟩ := List.forall_mem_cons.mp hnothing
      obtain ⟨hnodup', ⟨hnone, hclean⟩ | ⟨⟨step, hmem, hsome⟩, j, hlost⟩⟩ := ih hbefore
      · refine ⟨hstep.nodup hnodup', ?_⟩
        by_cases hinterferes : Interferes command (v, i)
        · exact .inr ⟨⟨_, List.mem_cons_self, hinterferes⟩, i,
            hstep.lost_of_interferes hempty hdisjoint hclean hinterferes⟩
        · exact .inl ⟨List.forall_mem_cons.mpr ⟨hinterferes, hnone⟩,
            hstep.clean hempty hdisjoint hnodup' hclean hnow hinterferes⟩
      · exact ⟨hstep.nodup hnodup', .inr ⟨⟨step, List.mem_cons_of_mem _ hmem, hsome⟩, j,
          hstep.lost hempty hnow hlost⟩⟩

theorem shared_reflected_iff (hempty : ∀ i, "" ∉ (command i).names)
    (hdisjoint : ∀ sg ∈ (command true).names, sg ∉ (command false).names)
    {groups : List String} (hnodup : groups.Nodup)
    (h : Interleaving (Shared.Step command) id ⟨fun _ => .started, groups⟩ trace v)
    (hnothing : ∀ step ∈ trace, NothingEmpty step) (hexited : ∀ i, v.phase i = .exited 0) :
    (∀ i, (command i).Reflected v.groups) ↔ ∀ step ∈ trace, ¬Interferes command step := by
  obtain ⟨-, ⟨hnone, hclean⟩ | ⟨⟨step, hmem, hsome⟩, j, hlost⟩⟩ :=
    shared_run hempty hdisjoint hnodup h hnothing
  · exact iff_of_true (fun i => (hclean i).exited (hexited i)) hnone
  · refine iff_of_false (fun hall => ?_) fun hnone => hnone step hmem hsome
    obtain ⟨-, ⟨list, hlisted, -⟩ | ⟨-, hnot⟩⟩ := hlost
    · cases hlisted.symm.trans (hexited _)
    · exact hnot (hall j)

end Runs

/-! ## The clients at the server -/

structure Clients where
  phase : Bool → Phase
  server : Server

def groupsOf (nic : String) (s : Server) : List String :=
  ((s.model.nics[nic]?).map Nic.securityGroups).getD []

def Clients.view (nic : String) (c : Clients) : Shared := ⟨c.phase, groupsOf nic c.server⟩

/-- One client sends its next request, over a link of its own. -/
inductive Clients.Step (P : Platform) (T : TextFormat) (nic : String) (command : Bool → Command)
    (i : Bool) (c : Clients) : Clients → Prop
  | move {link : Link} {phase : Phase} {s' : Server} : link.context.P = P →
      proceed (command i).edit nic (command i).names T link (c.phase i) c.server =
        some (phase, s') →
      Step P T nic command i c ⟨Function.update c.phase i phase, s'⟩

def Clients.Good (c : Clients) : Prop := ∀ i status, c.phase i = .exited status → status = 0

structure Clients.Plain (P : Platform) (nic : String) (ok : String → Prop) (c : Clients) :
    Prop where
  reachable : Reachable P anything c.server
  present : ∃ n, c.server.model.nics[nic]? = some n
  groups : ∀ sg ∈ groupsOf nic c.server, ok sg
  lists : ∀ {i list}, c.phase i = .listed list → ∀ sg ∈ list, ok sg

section Clients

variable {P : Platform} {T : TextFormat} {nic : String} {command : Bool → Command}
  {ok : String → Prop} {c c' : Clients} {i : Bool} {s s' : Server} {n : Butterfly.Nic}

theorem groupsOf_some (hn : s.model.nics[nic]? = some n) : groupsOf nic s = n.securityGroups := by
  rw [groupsOf, hn]
  rfl

theorem Clients.Step.good (h : Clients.Step P T nic command i c c') (hgood : c'.Good) :
    c.Good := by
  obtain ⟨-, hproceed⟩ := h
  intro j status hphase
  by_cases hj : j = i
  · subst hj
    rw [hphase] at hproceed
    cases hproceed
    exact hgood j status (Function.update_self ..)
  · exact hgood j status ((Function.update_of_ne hj ..).trans hphase)

theorem Clients.Plain.move (hplain : c.Plain P nic ok) {phase : Phase}
    (hreachable : Reachable P anything s') (hn : s'.model.nics[nic]? = some n)
    (hgroups : ∀ sg ∈ n.securityGroups, ok sg)
    (hlists : ∀ {list}, phase = .listed list → ∀ sg ∈ list, ok sg) :
    Clients.Plain P nic ok ⟨Function.update c.phase i phase, s'⟩ := by
  refine ⟨hreachable, ⟨n, hn⟩, by rwa [groupsOf_some hn], fun {j list} hphase => ?_⟩
  by_cases hj : j = i
  · subst hj
    exact hlists ((Function.update_self ..).symm.trans hphase)
  · exact hplain.lists ((Function.update_of_ne hj ..).symm.trans hphase)

theorem forall_mem_written {old list : List String} (hold : ∀ sg ∈ old, ok sg)
    (hlist : ∀ sg ∈ list, ok sg) : ∀ sg ∈ written old list, ok sg := by
  intro sg hsg
  unfold written at hsg
  split at hsg
  · exact hold sg hsg
  · simp only [mem_addNames, List.not_mem_nil, false_or, List.mem_filter] at hsg
    exact hlist sg hsg.1

theorem Clients.Step.shared (hok : ∀ sg, ok sg → Unescaped sg) (hnic : Unescaped nic)
    (hline : OneLine nic) (hnames : ∀ i, ∀ sg ∈ (command i).names, ok sg)
    (hplain : c.Plain P nic ok) (h : Clients.Step P T nic command i c c') (hgood : c'.Good) :
    c'.Plain P nic ok ∧ Shared.Step command i (c.view nic) (c'.view nic) := by
  obtain ⟨n, hn⟩ := hplain.present
  have hgroups := hplain.groups
  have hview : c.view nic = ⟨c.phase, n.securityGroups⟩ := by rw [Clients.view, groupsOf_some hn]
  rw [groupsOf_some hn] at hgroups
  cases h with
  | @move link phase s' hP hproceed =>
      have hmoved : ∀ {n' : Butterfly.Nic}, s'.model.nics[nic]? = some n' →
          Clients.view nic ⟨Function.update c.phase i phase, s'⟩ =
            (c.view nic).move i phase n'.securityGroups := by
        intro n' hn'
        rw [Clients.view, groupsOf_some hn']
        rfl
      cases hphase : c.phase i with
      | started =>
          rw [hphase] at hproceed
          obtain ⟨⟨list, t⟩, hlist, hproceed⟩ := Option.bind_eq_some_iff.mp hproceed
          cases list with
          | none =>
              cases hproceed
              exact nomatch hgood i 1 (Function.update_self ..)
          | some allSg =>
              obtain ⟨rfl, hmodel, hreachable⟩ :=
                sgList_spec hP hplain.reachable hnic hline hn hlist
              rw [← hmodel] at hn
              simp only at hproceed
              split at hproceed
              · next hcompute =>
                  cases hproceed
                  refine ⟨hplain.move hreachable hn hgroups (nomatch ·), ?_⟩
                  rw [hmoved hn, hview]
                  exact .done hphase hcompute
              · next list hcompute =>
                  cases hproceed
                  refine ⟨hplain.move hreachable hn hgroups fun hlisted => ?_, ?_⟩
                  · cases hlisted
                    exact forall_mem_compute hgroups (hnames i) hcompute
                  · rw [hmoved hn, hview]
                    exact .list hphase hcompute
      | listed list =>
          rw [hphase] at hproceed
          obtain ⟨⟨status, t⟩, hupdate, hproceed⟩ := Option.bind_eq_some_iff.mp hproceed
          cases hproceed
          obtain rfl : status = 0 := hgood i status (Function.update_self ..)
          have hlist := hplain.lists hphase
          obtain ⟨hreachable, n', hn', hwritten⟩ := sgUpdate_spec hP hplain.reachable hnic hline
            (fun sg hsg => hok sg (hlist sg hsg)) hn hupdate
          refine ⟨hplain.move hreachable hn' ?_ (nomatch ·), ?_⟩
          · rw [hwritten]
            exact forall_mem_written hgroups hlist
          · rw [hmoved hn', hwritten, hview]
            exact .write hphase
      | exited status =>
          rw [hphase] at hproceed
          cases hproceed
          obtain rfl : status = 0 := hgood i status (Function.update_self ..)
          rw [← hphase, Function.update_eq_self]
          exact ⟨hplain, .stay hphase⟩

theorem Clients.Step.perfect {phase : Phase}
    (h : proceed (command i).edit nic (command i).names T (perfectLink P) (c.phase i) c.server =
      some (phase, s')) :
    Clients.Step P T nic command i c ⟨Function.update c.phase i phase, s'⟩ :=
  .move (rfl : (perfectLink P).context.P = P) h

theorem Clients.exists_step (T : TextFormat) (hok : ∀ sg, ok sg → Unescaped sg ∧ OneLine sg)
    (hnic : Unescaped nic) (hline : OneLine nic)
    (hnames : ∀ i, ∀ sg ∈ (command i).names, ok sg) (hplain : c.Plain P nic ok) {v : Shared}
    (h : Shared.Step command i (c.view nic) v) :
    ∃ c', Clients.Step P T nic command i c c' ∧ c'.Plain P nic ok ∧ c'.view nic = v := by
  obtain ⟨n, hn⟩ := hplain.present
  have hgroups := hplain.groups
  have hview : c.view nic = ⟨c.phase, n.securityGroups⟩ := by rw [Clients.view, groupsOf_some hn]
  rw [groupsOf_some hn] at hgroups
  rw [hview] at h
  obtain ⟨s₁, hlist, hmodel⟩ := sgList_perfect (T := T) (P := P) hnic hline hn
  obtain ⟨-, -, hreachable⟩ := sgList_spec (P := P) rfl hplain.reachable hnic hline hn hlist
  have hn₁ := hn
  rw [← hmodel] at hn₁
  cases h with
  | done hphase hcompute =>
      refine ⟨⟨Function.update c.phase i (.exited 0), s₁⟩, .perfect ?_,
        hplain.move hreachable hn₁ hgroups (nomatch ·), ?_⟩
      · rw [show c.phase i = .started from hphase, proceed, hlist]
        simp only [Option.bind_eq_bind, Option.bind_some]
        rw [show (command i).edit.compute n.securityGroups (command i).names = none from hcompute]
      · rw [Clients.view, groupsOf_some hn₁]
        rfl
  | @list list hphase hcompute =>
      refine ⟨⟨Function.update c.phase i (.listed list), s₁⟩, .perfect ?_,
        hplain.move hreachable hn₁ hgroups fun hlisted => ?_, ?_⟩
      · rw [show c.phase i = .started from hphase, proceed, hlist]
        simp only [Option.bind_eq_bind, Option.bind_some]
        rw [show (command i).edit.compute n.securityGroups (command i).names = some list
          from hcompute]
      · cases hlisted
        exact forall_mem_compute hgroups (hnames i) hcompute
      · rw [Clients.view, groupsOf_some hn₁]
        rfl
  | @write list hphase =>
      have hlists := hplain.lists hphase
      obtain ⟨s', hupdate, n', hn', hwritten⟩ := sgUpdate_perfect (P := P) (T := T)
        hplain.reachable hnic hline hn (fun sg hsg => (hok sg (hlists sg hsg)).1)
        (fun sg hsg => (hok sg (hlists sg hsg)).2)
      obtain ⟨hreachable', -⟩ := sgUpdate_spec (P := P) rfl hplain.reachable hnic hline
        (fun sg hsg => (hok sg (hlists sg hsg)).1) hn hupdate
      refine ⟨⟨Function.update c.phase i (.exited 0), s'⟩, .perfect ?_,
        hplain.move hreachable' hn' ?_ (nomatch ·), ?_⟩
      · rw [show c.phase i = .listed list from hphase, proceed, hupdate]
        rfl
      · rw [hwritten]
        exact forall_mem_written hgroups hlists
      · rw [Clients.view, groupsOf_some hn', hwritten]
        rfl
  | stay hphase =>
      refine ⟨⟨Function.update c.phase i (.exited 0), c.server⟩, .perfect ?_, ?_, ?_⟩
      · rw [show c.phase i = .exited 0 from hphase, proceed]
      · exact hplain.move hplain.reachable hn hgroups (nomatch ·)
      · rw [← show c.phase i = .exited 0 from hphase, Function.update_eq_self]
        exact hview

/-- Both commands have read their arguments. -/
def Clients.started (nic : String) (command : Bool → Command) (s : Server) : Clients :=
  ⟨fun i => firstPhase (nic :: (command i).rest), s⟩

/-- A command that nothing comes between is a run of the clients. -/
theorem Clients.alone {first second : Link} {status : Nat} (hfirst : first.context.P = P)
    (hsecond : second.context.P = P)
    (h : subNicSgEdit (command i).edit T first second (nic :: (command i).rest) s =
      some (status, s')) :
    ∃ trace c, Interleaving (Clients.Step P T nic command) (Clients.view nic)
        (Clients.started nic command s) trace c ∧
      c.phase i = .exited status ∧ c.server = s' := by
  rw [subNicSgEdit_eq] at h
  obtain ⟨⟨phase₁, s₁⟩, hone, h⟩ := Option.bind_eq_some_iff.mp h
  obtain ⟨⟨phase₂, s₂⟩, htwo, h⟩ := Option.bind_eq_some_iff.mp h
  have hmove : Clients.Step P T nic command i (Clients.started nic command s)
      ⟨Function.update (Clients.started nic command s).phase i phase₁, s₁⟩ :=
    .move hfirst hone
  have hlast : Clients.Step P T nic command i
      ⟨Function.update (Clients.started nic command s).phase i phase₁, s₁⟩
      ⟨Function.update (Function.update (Clients.started nic command s).phase i phase₁) i phase₂,
        s₂⟩ :=
    .move hsecond (by simp only [Function.update_self]; exact htwo)
  refine ⟨_, _, (Interleaving.start.step hmove).step hlast, ?_⟩
  cases phase₂ with
  | exited =>
      cases h
      exact ⟨Function.update_self .., rfl⟩
  | started => cases h
  | listed => cases h

theorem Clients.good_start {c₀ : Clients} {trace : List (Shared × Bool)}
    (h : Interleaving (Clients.Step P T nic command) (Clients.view nic) c₀ trace c)
    (hgood : c.Good) : c₀.Good := by
  induction h with
  | start => exact hgood
  | step _ hmove ih => exact ih (hmove.good hgood)

/-- Commands that have exited send nothing. -/
theorem Clients.stay {c₀ : Clients} {trace : List (Shared × Bool)}
    (hc₀ : ∀ i, c₀.phase i = .exited 0)
    (h : Interleaving (Clients.Step P T nic command) (Clients.view nic) c₀ trace c) :
    c = c₀ ∧ ∀ step ∈ trace, ¬Interferes command step := by
  induction h with
  | start => exact ⟨rfl, by simp⟩
  | @step trace i c c' _ hmove ih =>
      obtain ⟨rfl, hnone⟩ := ih
      refine ⟨?_, List.forall_mem_cons.mpr ⟨?_, hnone⟩⟩
      · obtain ⟨-, hproceed⟩ := hmove
        rw [hc₀ i] at hproceed
        cases hproceed
        rw [← hc₀ i, Function.update_eq_self]
      · rintro ⟨⟨list, hlisted⟩, -⟩
        cases (hc₀ i).symm.trans hlisted

theorem Clients.started_help (command : Bool → Command) (s : Server) (i : Bool) :
    (Clients.started "help" command s).phase i = .exited 0 := by
  simp [Clients.started, firstPhase]

theorem Clients.started_of_good (hhelp : nic ≠ "help")
    (h : (Clients.started nic command s).Good) :
    Clients.started nic command s = ⟨fun _ => .started, s⟩ := by
  rw [Clients.started, Clients.mk.injEq]
  refine ⟨funext fun i => ?_, rfl⟩
  have hfirst := h i
  simp only [Clients.started, firstPhase, hhelp, if_false] at hfirst ⊢
  split_ifs at hfirst ⊢
  · cases hfirst 1 rfl
  · cases hfirst 1 rfl
  · rfl

theorem Clients.plain_start (hs : Reachable P anything s) (hn : s.model.nics[nic]? = some n)
    (hgroups : ∀ sg ∈ n.securityGroups, ok sg) :
    Clients.Plain P nic ok ⟨fun _ => .started, s⟩ :=
  ⟨hs, ⟨n, hn⟩, by rwa [groupsOf_some hn], (nomatch ·)⟩

/--
When both commands have exited with 0, the groups reflect both of them if and only if no
client wrote, with something left to do, while the other one was between its two requests;
and if a NIC named like the help argument had the right groups before.
-/
theorem no_lost_update_iff (T : TextFormat) (hs : Reachable P anything s)
    (hn : s.model.nics[nic]? = some n) (hnic : Unescaped nic) (hline : OneLine nic)
    (hgroups : ∀ sg ∈ n.securityGroups, Unescaped sg) (hempty : ∀ i, "" ∉ (command i).names)
    (hnames : ∀ i, ∀ sg ∈ (command i).names, Unescaped sg)
    (hdisjoint : ∀ sg ∈ (command true).names, sg ∉ (command false).names)
    {trace : List (Shared × Bool)}
    (h : Interleaving (Clients.Step P T nic command) (Clients.view nic)
      (Clients.started nic command s) trace c)
    (hexited : ∀ i, c.phase i = .exited 0) (hnothing : ∀ step ∈ trace, NothingEmpty step) :
    (∃ n', c.server.model.nics[nic]? = some n' ∧
      ∀ i, (command i).Reflected n'.securityGroups) ↔
      (nic = "help" → ∀ i, (command i).Reflected n.securityGroups) ∧
        ∀ step ∈ trace, ¬Interferes command step := by
  by_cases hhelp : nic = "help"
  · subst hhelp
    obtain ⟨rfl, hnone⟩ := Clients.stay (Clients.started_help command s) h
    have hserver : (Clients.started "help" command s).server.model.nics["help"]? = some n := hn
    constructor
    · rintro ⟨n', hn', hall⟩
      cases hserver.symm.trans hn'
      exact ⟨fun _ => hall, hnone⟩
    · exact fun hright => ⟨n, hn, hright.1 rfl⟩
  · have hgood : c.Good := by
      intro i status hphase
      cases (hexited i).symm.trans hphase
      rfl
    rw [Clients.started_of_good hhelp (Clients.good_start h hgood)] at h
    obtain ⟨hplain, hshared⟩ := h.refines (Clients.plain_start hs hn hgroups)
      (fun _ _ _ => Clients.Step.good) (fun _ _ _ hplain hstep hgood' =>
        hstep.shared (fun _ => id) hnic hline hnames hplain hgood') hgood
    have hstart : Clients.view nic ⟨fun _ => .started, s⟩ =
        ⟨fun _ => .started, n.securityGroups⟩ := by
      rw [Clients.view, groupsOf_some hn]
    rw [hstart] at hshared
    obtain ⟨n', hn'⟩ := hplain.present
    have hview : (c.view nic).groups = n'.securityGroups := groupsOf_some hn'
    rw [and_iff_right fun heq => absurd heq hhelp, ← shared_reflected_iff hempty hdisjoint
      (hs.wellFormed.nics _ _ hn).groups hshared hnothing hexited, hview]
    exact ⟨fun ⟨n'', hn'', hall⟩ => Option.some.inj (hn''.symm.trans hn') ▸ hall,
      fun hall => ⟨n', hn', hall⟩⟩

end Clients

/-! ## Two additions -/

def twoAdds (i : Bool) : Command := ⟨.add, [if i then "sg-2" else "sg-3"]⟩

theorem twoAdds_started (s : Server) :
    Clients.started "nic-1" twoAdds s = ⟨fun _ => .started, s⟩ := by
  rw [Clients.started, Clients.mk.injEq]
  exact ⟨funext fun i => by cases i <;> decide, rfl⟩

theorem twoAdds_run {trace : List (Shared × Bool)} {v : Shared}
    (h : Interleaving (Shared.Step twoAdds) id ⟨fun _ => .started, ["sg-1"]⟩ trace v) :
    ∃ c, Interleaving (Clients.Step Libc.platform sampleFormat "nic-1" twoAdds)
        (Clients.view "nic-1") (Clients.started "nic-1" twoAdds groupedServer) trace c ∧
      c.Plain Libc.platform "nic-1" (fun sg => Unescaped sg ∧ OneLine sg) ∧
      c.view "nic-1" = v := by
  obtain ⟨n, hn, hgroups⟩ := groupedServer_nic
  have hplain : (Clients.started "nic-1" twoAdds groupedServer).Plain Libc.platform "nic-1"
      (fun sg => Unescaped sg ∧ OneLine sg) := by
    rw [twoAdds_started]
    refine Clients.plain_start groupedServer_reachable hn ?_
    rw [hgroups]
    decide
  have hstart : (Clients.started "nic-1" twoAdds groupedServer).view "nic-1" =
      ⟨fun _ => .started, ["sg-1"]⟩ := by
    rw [twoAdds_started, Clients.view, groupsOf_some hn, hgroups]
  rw [← hstart] at h
  exact h.realises hplain fun _ _ _ hplain hstep =>
    Clients.exists_step sampleFormat (fun _ => id) (by decide) (by decide)
      (fun i => by cases i <;> decide) hplain hstep

theorem exited_of_view {nic : String} {c : Clients} {v : Shared} (hview : c.view nic = v)
    (hv : ∀ i, v.phase i = .exited 0) (i : Bool) : c.phase i = .exited 0 :=
  (congrFun (congrArg Shared.phase hview) i).trans (hv i)

/-- One after the other, no addition is lost. -/
theorem no_lost_update_iff_in_turn :
    ∃ trace c, Interleaving (Clients.Step Libc.platform sampleFormat "nic-1" twoAdds)
        (Clients.view "nic-1") (Clients.started "nic-1" twoAdds groupedServer) trace c ∧
      (∀ i, c.phase i = .exited 0) ∧
      ∃ n', c.server.model.nics["nic-1"]? = some n' ∧
        ∀ i, (twoAdds i).Reflected n'.securityGroups := by
  have hshared : Interleaving (Shared.Step twoAdds) id ⟨fun _ => .started, ["sg-1"]⟩ _ _ :=
    .step (.step (.step (.step .start (.list (i := true) rfl (by rfl))) (.write (i := true) rfl))
      (.list (i := false) rfl (by rfl))) (.write (i := false) rfl)
  obtain ⟨c, hrun, -, hview⟩ := twoAdds_run hshared
  obtain ⟨n, hn, hgroups⟩ := groupedServer_nic
  have hexited : ∀ i, c.phase i = .exited 0 :=
    exited_of_view hview fun i => by cases i <;> rfl
  refine ⟨_, c, hrun, hexited, (no_lost_update_iff sampleFormat groupedServer_reachable hn
    (by decide) (by decide) (by rw [hgroups]; decide) (fun i => by cases i <;> decide)
    (fun i => by cases i <;> decide) (by decide) hrun hexited ?_).mpr
      ⟨fun hhelp => absurd hhelp (by decide), ?_⟩⟩
  · simp only [List.forall_mem_cons, List.not_mem_nil, NothingEmpty, Bool.forall_bool]
    refine ⟨?_, ?_, ?_, ?_, nofun⟩ <;> decide
  · simp only [List.forall_mem_cons, List.not_mem_nil, Interferes]
    refine ⟨?_, ?_, ?_, ?_, nofun⟩ <;> rintro ⟨⟨list, hlisted⟩, ⟨other, hother⟩, -⟩
    · exact nomatch hother
    · exact nomatch hlisted
    · exact nomatch hother
    · exact nomatch hlisted

/-- Both commands read first, and the first addition is lost. -/
theorem addition_lost :
    ¬∀ trace c, Interleaving (Clients.Step Libc.platform sampleFormat "nic-1" twoAdds)
        (Clients.view "nic-1") (Clients.started "nic-1" twoAdds groupedServer) trace c →
      (∀ i, c.phase i = .exited 0) →
        ∀ n', c.server.model.nics["nic-1"]? = some n' →
          ∀ i, (twoAdds i).Reflected n'.securityGroups := by
  intro hall
  have hshared : Interleaving (Shared.Step twoAdds) id ⟨fun _ => .started, ["sg-1"]⟩ _ _ :=
    .step (.step (.step (.step .start (.list (i := true) rfl (by rfl)))
      (.list (i := false) rfl (by rfl))) (.write (i := true) rfl)) (.write (i := false) rfl)
  obtain ⟨c, hrun, hplain, hview⟩ := twoAdds_run hshared
  have hexited : ∀ i, c.phase i = .exited 0 :=
    exited_of_view hview fun i => by cases i <;> rfl
  obtain ⟨n', hn'⟩ := hplain.present
  have hgroups : n'.securityGroups = ["sg-1", "sg-3"] :=
    (groupsOf_some hn').symm.trans (congrArg Shared.groups hview)
  have hsg := hall _ c hrun hexited n' hn' true "sg-2" (by decide)
  rw [hgroups] at hsg
  exact absurd hsg (by decide)

end Butterfly.Client
