import Butterfly.Refresh
import Butterfly.Run

/-!
# Which firewalls a change of a group updates

`SgUpdate` and `SgUpdateRuleMembers` of `api.cc` as the list of their calls of `FwUpdate`,
and which NICs are on that list.
-/

namespace Butterfly

open Std Foundation

namespace Api

/-! ## The calls -/

def sgUpdateCalls (id : String) (m : Model) : List Nic :=
  (mapValues m.nics).flatMap fun nic =>
    (nic.securityGroups.filter fun name => name = id).map fun _ => nic

/-- The rule loop of `SgUpdateRuleMembers`, with `updated_sgs` and the calls so far. -/
def callsIfRefers (modifiedSg sg : Sg) (m : Model) (state : List String × List Nic) :
    List String × List Nic :=
  if (mapValues sg.rules).any (fun rule => rule.securityGroup = modifiedSg.id) ∧
      sg.id ∉ state.1 then
    (state.1 ++ [sg.id], state.2 ++ sgUpdateCalls sg.id m)
  else state

def callsReferring (modifiedSg : Sg) (m : Model) (state : List String × List Nic)
    (name : String) : List String × List Nic :=
  match m.securityGroups[name]? with
  | none => state
  | some sg => callsIfRefers modifiedSg sg m state

def sgUpdateRuleMembersCalls (modifiedSg : Sg) (m : Model) : List Nic :=
  ((mapValues m.nics).foldl (fun state nic =>
    nic.securityGroups.foldl (callsReferring modifiedSg m) state) ([], [])).2

def fwUpdates (ambient : Ambient) (nics : List Nic) (s : Server) : Server :=
  nics.foldl (fun s nic => Graph.fwUpdate ambient.ok nic s) s

/-! ### The functions make these calls -/

section Calls

variable (ambient : Ambient) {m : Model} {s : Server}

theorem fwUpdates_append (nics nics' : List Nic) (s : Server) :
    fwUpdates ambient (nics ++ nics') s = fwUpdates ambient nics' (fwUpdates ambient nics s) :=
  List.foldl_append

theorem fwUpdates_model (nics : List Nic) (s : Server) :
    (fwUpdates ambient nics s).model = s.model := by
  induction nics generalizing s with
  | nil => rfl
  | cons nic nics ih => exact (ih _).trans (Graph.fwUpdate_tunedOwn ambient.ok nic s).model

theorem forGroup_eq (id : String) (refresh : Nic → Server → Server) (s : Server) :
    forGroup id refresh s =
      (sgUpdateCalls id s.model).foldl (fun s nic => refresh nic s) s := by
  have hnames : ∀ (nic : Nic) (names : List String) (s : Server),
      names.foldl (fun s name => if name = id then refresh nic s else s) s =
        ((names.filter fun name => name = id).map fun _ => nic).foldl
          (fun s nic => refresh nic s) s := by
    intro nic names s
    rw [List.foldl_map, List.foldl_filter]
    simp only [decide_eq_true_eq]
  rw [forGroup, sgUpdateCalls, List.foldl_flatMap]
  simp only [hnames]

theorem sgUpdate_eq (sg : Sg) (s : Server) :
    sgUpdate ambient sg s = fwUpdates ambient (sgUpdateCalls sg.id s.model) s :=
  forGroup_eq sg.id (Graph.fwUpdate ambient.ok) s

theorem foldl_names {σ : Type} (step : σ → String → σ) (nics : List Nic) (state : σ) :
    nics.foldl (fun state nic => nic.securityGroups.foldl step state) state =
      (nics.flatMap Nic.securityGroups).foldl step state :=
  List.foldl_flatMap.symm

theorem updateReferring_eq (modifiedSg : Sg) (s : Server) (calls : List String × List Nic)
    (name : String) :
    updateReferring ambient modifiedSg (calls.1, fwUpdates ambient calls.2 s) name =
      ((callsReferring modifiedSg s.model calls name).1,
        fwUpdates ambient (callsReferring modifiedSg s.model calls name).2 s) := by
  simp only [updateReferring, callsReferring, fwUpdates_model]
  cases s.model.securityGroups[name]? with
  | none => rfl
  | some sg =>
      simp only [updateIfRefers, callsIfRefers]
      split
      · rw [sgUpdate_eq, fwUpdates_model, fwUpdates_append]
      · rfl

theorem sgUpdateRuleMembers_eq (modifiedSg : Sg) (s : Server) :
    sgUpdateRuleMembers ambient modifiedSg s =
      fwUpdates ambient (sgUpdateRuleMembersCalls modifiedSg s.model) s := by
  have hfold : ∀ (names : List String) (calls : List String × List Nic),
      names.foldl (updateReferring ambient modifiedSg) (calls.1, fwUpdates ambient calls.2 s) =
        ((names.foldl (callsReferring modifiedSg s.model) calls).1,
          fwUpdates ambient (names.foldl (callsReferring modifiedSg s.model) calls).2 s) := by
    intro names
    induction names with
    | nil => exact fun _ => rfl
    | cons name names ih =>
        intro calls
        rw [List.foldl_cons, updateReferring_eq, ih, List.foldl_cons]
  rw [sgUpdateRuleMembers, sgUpdateRuleMembersCalls, foldl_names, foldl_names]
  exact congrArg Prod.snd (hfold _ ([], []))

end Calls

/-! ## The NICs that are called -/

/-- A group is stored under its own id. -/
def SgKeys (m : Model) : Prop :=
  ∀ (id : String) (sg : Sg), m.securityGroups[id]? = some sg → sg.id = id

section Members

variable {m : Model} {nic : Nic}

theorem mem_sgUpdateCalls {id : String} :
    nic ∈ sgUpdateCalls id m ↔ nic ∈ mapValues m.nics ∧ id ∈ nic.securityGroups := by
  simp only [sgUpdateCalls, List.mem_flatMap, List.mem_map, List.mem_filter, decide_eq_true_eq]
  constructor
  · rintro ⟨nic', hnic, name, ⟨hname, rfl⟩, rfl⟩
    exact ⟨hnic, hname⟩
  · rintro ⟨hnic, hid⟩
    exact ⟨nic, hnic, id, ⟨hid, rfl⟩, rfl⟩

/-- The cache holds the groups that were updated, and their NICs were called. -/
structure Cached (modifiedSg : Sg) (m : Model) (names : List String)
    (state : List String × List Nic) : Prop where
  updated : ∀ id, id ∈ state.1 ↔ id ∈ names ∧ Refers m.securityGroups id modifiedSg.id
  called : ∀ nic, nic ∈ state.2 ↔ ∃ id ∈ state.1, nic ∈ sgUpdateCalls id m

theorem Cached.step (hkeys : SgKeys m) {modifiedSg : Sg} {names : List String}
    {state : List String × List Nic} (h : Cached modifiedSg m names state) (name : String) :
    Cached modifiedSg m (names ++ [name]) (callsReferring modifiedSg m state name) := by
  have hskip : (Refers m.securityGroups name modifiedSg.id → name ∈ state.1) →
      Cached modifiedSg m (names ++ [name]) state := by
    intro hdone
    refine ⟨fun id => ?_, h.called⟩
    rw [h.updated, List.mem_append, List.mem_singleton]
    constructor
    · rintro ⟨hid, hrefers⟩
      exact ⟨.inl hid, hrefers⟩
    · rintro ⟨hid | rfl, hrefers⟩
      · exact ⟨hid, hrefers⟩
      · exact (h.updated _).mp (hdone hrefers)
  unfold callsReferring
  cases hsg : m.securityGroups[name]? with
  | none =>
      refine hskip ?_
      rintro ⟨sg, hsg', -⟩
      cases hsg.symm.trans hsg'
  | some sg =>
      obtain rfl : sg.id = name := hkeys _ _ hsg
      have hrefers : Refers m.securityGroups sg.id modifiedSg.id ↔
          (mapValues sg.rules).any (fun rule => rule.securityGroup = modifiedSg.id) = true := by
        simp [Refers, hsg]
      simp only [callsIfRefers]
      split
      · next hnew =>
          refine ⟨fun id => ?_, fun nic => ?_⟩
          · simp only [List.mem_append, List.mem_singleton, h.updated, or_and_right]
            refine or_congr_right ⟨?_, And.left⟩
            rintro rfl
            exact ⟨rfl, hrefers.mpr hnew.1⟩
          · simp only [List.mem_append, List.mem_singleton, h.called, or_and_right, exists_or,
              exists_eq_left]
      · next hold =>
          exact hskip fun hrefers' =>
            by_contra fun hnot => hold ⟨hrefers.mp hrefers', hnot⟩

theorem mem_sgUpdateRuleMembersCalls (hkeys : SgKeys m) {modifiedSg : Sg} :
    nic ∈ sgUpdateRuleMembersCalls modifiedSg m ↔ nic ∈ mapValues m.nics ∧
      ∃ name ∈ nic.securityGroups, Refers m.securityGroups name modifiedSg.id := by
  have hfold : ∀ (names before : List String) (state : List String × List Nic),
      Cached modifiedSg m before state →
      Cached modifiedSg m (before ++ names)
        (names.foldl (callsReferring modifiedSg m) state) := by
    intro names
    induction names with
    | nil => exact fun before state h => by simpa using h
    | cons name names ih =>
        intro before state h
        simpa using ih _ _ (h.step hkeys name)
  have hstart : Cached modifiedSg m [] ([], []) := ⟨by simp, by simp⟩
  have hall := hfold ((mapValues m.nics).flatMap Nic.securityGroups) [] _ hstart
  rw [sgUpdateRuleMembersCalls, foldl_names, hall.called]
  simp only [hall.updated, mem_sgUpdateCalls, List.nil_append, List.mem_flatMap]
  constructor
  · rintro ⟨id, ⟨-, hrefers⟩, hnic, hid⟩
    exact ⟨hnic, id, hid, hrefers⟩
  · rintro ⟨hnic, name, hname, hrefers⟩
    exact ⟨name, ⟨⟨nic, hnic, hname⟩, hrefers⟩, hnic, hname⟩

theorem sgKeys_of_reachable {P : Platform} {allowed : Allowed} {s : Server}
    (hs : Reachable P allowed s) : SgKeys s.model :=
  fun _ _ => hs.sound.agree.sgIds

theorem SgKeys.setSg {s : Server} (h : SgKeys s.model) {id : String} {sg : Sg}
    (hid : sg.id = id) : SgKeys (setSg id sg s).model := by
  intro id' sg' hsg'
  change (s.model.securityGroups.insert id sg)[id']? = some sg' at hsg'
  rw [lookup_insert] at hsg'
  split at hsg'
  · next heq =>
      cases hsg'
      exact hid.trans heq
  · exact h _ _ hsg'

end Members

/--
Whatever groups and NICs there are, a change of a group updates the firewalls of the NICs
with a group that has a rule about it, or of those that list it, and no others.
-/
theorem sg_refresh_exact {s : Server} (hkeys : SgKeys s.model) (ambient : Ambient) (sg : Sg) :
    (sgUpdateRuleMembers ambient sg s =
        fwUpdates ambient (sgUpdateRuleMembersCalls sg s.model) s ∧
      ∀ nic, nic ∈ sgUpdateRuleMembersCalls sg s.model ↔ nic ∈ mapValues s.model.nics ∧
        ∃ name ∈ nic.securityGroups, Refers s.model.securityGroups name sg.id) ∧
    (sgUpdate ambient sg s = fwUpdates ambient (sgUpdateCalls sg.id s.model) s ∧
      ∀ nic, nic ∈ sgUpdateCalls sg.id s.model ↔ nic ∈ mapValues s.model.nics ∧
        sg.id ∈ nic.securityGroups) :=
  ⟨⟨sgUpdateRuleMembers_eq ambient sg s, fun _ => mem_sgUpdateRuleMembersCalls hkeys⟩,
    sgUpdate_eq ambient sg s, fun _ => mem_sgUpdateCalls⟩

def referringServer : Server :=
  setNic "nic-1" { id := "nic-1", securityGroups := ["sg-1"] }
    (setSg "sg-1" ⟨"sg-1", [], (∅ : ExtTreeMap UInt64 Rule).insert 0 { securityGroup := "sg-2" }⟩
      (Server.start {} 1 0))

theorem sg_refresh_exact_referring :
    (sgUpdateRuleMembers {} { id := "sg-2" } referringServer =
        fwUpdates {} (sgUpdateRuleMembersCalls { id := "sg-2" } referringServer.model)
          referringServer ∧
      ∀ nic, nic ∈ sgUpdateRuleMembersCalls { id := "sg-2" } referringServer.model ↔
        nic ∈ mapValues referringServer.model.nics ∧
          ∃ name ∈ nic.securityGroups,
            Refers referringServer.model.securityGroups name "sg-2") ∧
    (sgUpdate {} { id := "sg-2" } referringServer =
        fwUpdates {} (sgUpdateCalls "sg-2" referringServer.model) referringServer ∧
      ∀ nic, nic ∈ sgUpdateCalls "sg-2" referringServer.model ↔
        nic ∈ mapValues referringServer.model.nics ∧ "sg-2" ∈ nic.securityGroups) :=
  have hstart : SgKeys (Server.start {} 1 0).model :=
    sgKeys_of_reachable (Reachable.start {} 1 0 : Reachable Libc.platform anything _)
  have hkeys : SgKeys referringServer.model := hstart.setSg rfl
  sg_refresh_exact hkeys {} { id := "sg-2" }

end Api

end Butterfly
