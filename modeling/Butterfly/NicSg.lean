import Butterfly.NicUpdates
import Butterfly.Reply

/-!
# The `nic sg` commands of the client

`SubNicSgAdd`, `SubNicSgDel` and `SubNicSgSet` of the client's `nic.cc`.  A command pastes
names into the text of a request, which the text format of protocol buffers makes a message
of; the first two read the groups of the NIC, compute a list and overwrite the groups with
it, while for the server an empty list means that the groups stay as they are.
-/

namespace Butterfly.Client

open Std Foundation MessageV0 Proto

/-! ## The texts of requests -/

def quoted (name : String) : String := "\"" ++ name ++ "\""

def nicDetailsHead (revision : UInt32) : String :=
  "messages \x7b  revision: " ++ toString revision.toNat ++
    "  message_0 \x7b    request \x7b      nic_details: "

def nicDetailsTail : String := "    \x7d  \x7d\x7d"

def nicDetailsText (revision : UInt32) (nic : String) : String :=
  nicDetailsHead revision ++ quoted nic ++ nicDetailsTail

def sgUpdateHead (revision : UInt32) : String :=
  "messages \x7b  revision: " ++ toString revision.toNat ++
    "  message_0 \x7b    request \x7b      nic_update: \x7b        id: "

def sgUpdateTail : String := "      \x7d    \x7d  \x7d\x7d"

def securityGroupHead : String := " security_group: "

def securityGroupText (sg : String) : String := securityGroupHead ++ quoted sg

def sgUpdateText (revision : UInt32) (nic : String) (list : List String) : String :=
  sgUpdateHead revision ++ quoted nic ++ String.join (list.map securityGroupText) ++
    sgUpdateTail

def requestMessage (revision : UInt32) (rq : MessageV0.Request) : Messages :=
  { messages := [{ revision := revision, message0 := some { request := some rq } }] }

/-- A name that means itself between double quotes. -/
def Unescaped (name : String) : Prop := ∀ c ∈ name.toList, c ≠ '"' ∧ c ≠ '\\'

instance (name : String) : Decidable (Unescaped name) :=
  decidable_of_iff (name.toList.all (fun c => c != '"' && c != '\\') = true)
    (by simp [Unescaped])

/-- A name that does not end the line or the text. -/
def OneLine (name : String) : Prop := ∀ c ∈ name.toList, c ≠ '\n' ∧ c ≠ '\x00'

instance (name : String) : Decidable (OneLine name) :=
  decidable_of_iff (name.toList.all (fun c => c != '\n' && c != '\x00') = true)
    (by simp [OneLine])

/--
`TextFormat::ParseFromString` on the two texts above: a string stands for what is between
its quotes, and may not go over the end of a line.
-/
structure TextFormat where
  revision : UInt32
  parse : String → Option Messages
  parse_nicDetails : ∀ {nic}, Unescaped nic → OneLine nic →
    parse (nicDetailsText revision nic) = some (requestMessage revision { nicDetails := some nic })
  parse_sgUpdate : ∀ {nic list}, Unescaped nic → OneLine nic →
    (∀ sg ∈ list, Unescaped sg) → (∀ sg ∈ list, OneLine sg) →
      parse (sgUpdateText revision nic list) =
        some (requestMessage revision { nicUpdate := some { id := nic, securityGroup := list } })
  parse_broken : ∀ {nic list}, Unescaped nic → (∀ sg ∈ list, Unescaped sg) →
    (∃ sg ∈ list, ¬OneLine sg) → parse (sgUpdateText revision nic list) = none

/-! ## Requests -/

structure Link where
  context : Api.Context
  received : Bool := true

/--
`Request`, of which serialisation and encryption are left out: the response, if the exit
status is 0, and the server afterwards.
-/
def request (T : TextFormat) (link : Link) (text : String) (s : Server) :
    Option (Option Messages × Server) :=
  match T.parse text with
  | none => some (none, s)
  | some req =>
      match Api.dispatchMessages link.context req (Api.count s) with
      | (.error .undefined, _) => none
      | (.error _, s) => some (none, s)
      | (.ok res, s) =>
          if link.received ∧ checkRequestResult res = .ok then some (some res, s)
          else some (none, s)

/-- `res.messages(0).message_0().response()` -/
def response0 (res : Messages) : Response :=
  ((res.messages.head?.bind Message.message0).bind MessageV0.response).getD {}

def sgList (T : TextFormat) (link : Link) (nic : String) (s : Server) :
    Option (Option (List String) × Server) := do
  let (res, s) ← request T link (nicDetailsText T.revision nic) s
  some (res.bind fun res =>
    (response0 res).nicDetails.head?.map MessageV0.Nic.securityGroup, s)

def sgUpdate (T : TextFormat) (link : Link) (nic : String) (list : List String)
    (s : Server) : Option (Nat × Server) := do
  let (res, s) ← request T link (sgUpdateText T.revision nic list) s
  some (if res.isSome then 0 else 1, s)

/-! ## Commands -/

/-- `std::unique` on a vector of strings. -/
def unique : List String → List String
  | [] => []
  | [sg] => [sg]
  | sg :: next :: rest =>
      if sg = next then unique (next :: rest) else sg :: unique (next :: rest)

inductive Edit where
  | add
  | del
  deriving DecidableEq

/-- The list to write, unless there is nothing to do.  The old size is kept in 32 bits. -/
def Edit.compute (edit : Edit) (allSg names : List String) : Option (List String) :=
  match edit with
  | .add =>
      let merged := unique ((allSg ++ names).insertionSort (· ≤ ·))
      if merged.length = allSg.length % 2 ^ 32 then none else some merged
  | .del =>
      let newSg := allSg.filter fun sg => decide (sg ∉ names)
      if newSg.length = allSg.length then none else some newSg

/-- Where a command is: before its first request, before the second one, or done. -/
inductive Phase where
  | started
  | listed (list : List String)
  | exited (status : Nat)
  deriving DecidableEq

/-- `SubNicSgAdd` and `SubNicSgDel` from one request to the next. -/
def proceed (edit : Edit) (nic : String) (names : List String) (T : TextFormat) (link : Link) :
    Phase → Server → Option (Phase × Server)
  | .started, s => do
      let (list, s) ← sgList T link nic s
      match list with
      | none => some (.exited 1, s)
      | some allSg =>
          match edit.compute allSg names with
          | none => some (.exited 0, s)
          | some list => some (.listed list, s)
  | .listed list, s => do
      let (status, s) ← sgUpdate T link nic list s
      some (.exited status, s)
  | .exited status, s => some (.exited status, s)

def takeNames (args : List String) : List String :=
  args.takeWhile fun a => decide (a.toList.head? ≠ some '-')

def firstPhase : List String → Phase
  | [] => .exited 1
  | nic :: rest =>
      if nic = "help" then .exited 0
      else if rest = [] then .exited 1
      else if takeNames rest = [] then .exited 1
      else .started

/-- `args` is the command line from `argv[4]` on. -/
def subNicSgEdit (edit : Edit) (T : TextFormat) (first second : Link) (args : List String)
    (s : Server) : Option (Nat × Server) :=
  match args with
  | [] => some (1, s)
  | nic :: rest =>
      if nic = "help" then some (0, s)
      else if rest = [] then some (1, s)
      else if takeNames rest = [] then some (1, s)
      else do
        let (phase, s) ← proceed edit nic (takeNames rest) T first .started s
        let (phase, s) ← proceed edit nic (takeNames rest) T second phase s
        match phase with
        | .exited status => some (status, s)
        | _ => none

/-- A command is its phases, from the arguments on. -/
theorem subNicSgEdit_eq (edit : Edit) (T : TextFormat) (first second : Link) (nic : String)
    (rest : List String) (s : Server) :
    subNicSgEdit edit T first second (nic :: rest) s =
      (proceed edit nic (takeNames rest) T first (firstPhase (nic :: rest)) s).bind fun r =>
        (proceed edit nic (takeNames rest) T second r.1 r.2).bind fun r =>
          match r.1 with
          | .exited status => some (status, r.2)
          | _ => none := by
  simp only [subNicSgEdit, firstPhase]
  split_ifs <;> rfl

def subNicSgAdd : TextFormat → Link → Link → List String → Server → Option (Nat × Server) :=
  subNicSgEdit .add

def subNicSgDel : TextFormat → Link → Link → List String → Server → Option (Nat × Server) :=
  subNicSgEdit .del

def subNicSgSet (T : TextFormat) (link : Link) (args : List String) (s : Server) :
    Option (Nat × Server) :=
  match args with
  | [] => some (1, s)
  | nic :: rest =>
      if nic = "help" then some (0, s)
      else if rest = [] then some (1, s)
      else
        -- One empty name is the way to ask for no group at all.
        sgUpdate T link nic (if takeNames rest = [] then [""] else takeNames rest) s

/-! ## The computed list -/

/-- The groups as they should be after an edit. -/
def Edit.Wanted (edit : Edit) (groups names : List String) (sg : String) : Prop :=
  match edit with
  | .add => sg ∈ groups ∨ sg ∈ names
  | .del => sg ∈ groups ∧ sg ∉ names

/-- There is nothing left to do. -/
def Edit.Reflected (edit : Edit) (names groups : List String) : Prop :=
  match edit with
  | .add => ∀ sg ∈ names, sg ∈ groups
  | .del => ∀ sg ∈ names, sg ∉ groups

theorem mem_unique (sg : String) (list : List String) : sg ∈ unique list ↔ sg ∈ list := by
  fun_induction unique list with
  | case1 => rfl
  | case2 => rfl
  | case3 a rest ih =>
      rw [ih]
      simp
  | case4 a b rest hne ih => rw [List.mem_cons, ih, List.mem_cons (b := a)]

theorem mem_compute {edit : Edit} {allSg names list : List String}
    (h : edit.compute allSg names = some list) (sg : String) :
    sg ∈ list ↔ edit.Wanted allSg names sg := by
  cases edit with
  | add =>
      simp only [Edit.compute] at h
      split at h
      · cases h
      · cases h
        simp [mem_unique, Edit.Wanted]
  | del =>
      simp only [Edit.compute] at h
      split at h
      · cases h
      · cases h
        simp [Edit.Wanted]

theorem reflected_of_compute {edit : Edit} {allSg names : List String} (hnodup : allSg.Nodup)
    (h : edit.compute allSg names = none) : edit.Reflected names allSg := by
  cases edit with
  | add =>
      simp only [Edit.compute, ite_eq_left_iff, reduceCtorEq, imp_false, not_not] at h
      have hmem : ∀ sg, sg ∈ unique ((allSg ++ names).insertionSort (· ≤ ·)) ↔
          sg ∈ allSg ∨ sg ∈ names := by simp [mem_unique]
      have hsub : allSg ⊆ unique ((allSg ++ names).insertionSort (· ≤ ·)) :=
        fun sg hsg => (hmem sg).mpr (.inl hsg)
      have hlength : (unique ((allSg ++ names).insertionSort (· ≤ ·))).length ≤ allSg.length :=
        h ▸ Nat.mod_le _ _
      have hperm := (List.subperm_of_subset hnodup hsub).perm_of_length_le hlength
      exact fun sg hsg => hperm.mem_iff.mpr ((hmem sg).mpr (.inr hsg))
  | del =>
      simp only [Edit.compute, ite_eq_left_iff, reduceCtorEq, imp_false, not_not] at h
      intro sg hsg hmem
      have hall := List.length_filter_eq_length_iff.mp h sg hmem
      exact of_decide_eq_true hall hsg

theorem Edit.Reflected.wanted_iff {edit : Edit} {groups names : List String}
    (h : edit.Reflected names groups) (sg : String) :
    edit.Wanted groups names sg ↔ sg ∈ groups := by
  cases edit with
  | add => exact ⟨fun hsg => hsg.elim id (h sg), .inl⟩
  | del => exact ⟨And.left, fun hsg => ⟨hsg, fun hname => h sg hname hsg⟩⟩

theorem compute_eq_nil {edit : Edit} {allSg names : List String} (hnames : names ≠ []) :
    edit.compute allSg names = some [] ↔
      edit = .del ∧ allSg ≠ [] ∧ ∀ sg ∈ allSg, sg ∈ names := by
  constructor
  · intro h
    have hmem := mem_compute h
    cases edit with
    | add =>
        obtain ⟨sg, hsg⟩ := List.exists_mem_of_ne_nil names hnames
        exact absurd ((hmem sg).mpr (.inr hsg)) List.not_mem_nil
    | del =>
        refine ⟨rfl, ?_, fun sg hsg => ?_⟩
        · rintro rfl
          cases h
        · by_contra hname
          exact absurd ((hmem sg).mpr ⟨hsg, hname⟩) List.not_mem_nil
  · rintro ⟨rfl, hne, hall⟩
    have hfilter : (allSg.filter fun sg => decide (sg ∉ names)) = [] := by
      simpa [List.filter_eq_nil_iff] using hall
    rw [Edit.compute, hfilter, if_neg]
    exact fun hlength => hne (List.eq_nil_of_length_eq_zero hlength.symm)

/-! ## Requests and the server -/

section Server

variable {P : Platform} {T : TextFormat} {link : Link} {nic : String} {list : List String}
  {s s' : Server} {n : Butterfly.Nic}

theorem check_response (revision : UInt32) (response : Response) (id : Option String) :
    checkRequestResult { messages := [{
      revision := revision
      message0 := some { response := some response, messageId := id } }] } = .ok ↔
        Accepted response := by
  unfold checkRequestResult Accepted
  simp only [List.cons_ne_nil, if_false, checkMessages]
  cases response.status.status with
  | none => simp
  | some value => cases value <;> simp

theorem request_accepted {text : String} {rq : MessageV0.Request} {res : Messages}
    (hparse : T.parse text = some (requestMessage T.revision rq))
    (h : request T link text s = some (some res, s')) :
    Api0.respond link.context.P link.context.ambient (some rq) (Api.count s) =
      some (response0 res, s') ∧ Accepted (response0 res) := by
  unfold request at h
  rw [hparse] at h
  simp only [requestMessage, Api.dispatchMessages, Api.dispatchAll, Api.dispatch,
    Api0.process] at h
  cases hthrown : link.context.exception { request := some rq } (Api.count s) with
  | some t =>
      rw [hthrown] at h
      cases h
  | none =>
      cases hrespond : Api0.respond link.context.P link.context.ambient (some rq)
          (Api.count s) with
      | none => simp [hthrown, hrespond, Api.Answer.map, Except.map] at h
      | some r =>
          simp only [hthrown, hrespond, Option.bind_eq_bind, Option.bind_some, Api.Answer.map,
            Except.map] at h
          split at h
          · next hcheck =>
              cases h
              exact ⟨rfl, (check_response _ _ _).mp hcheck.2⟩
          · cases h

/-- A server that answers and a link that loses nothing. -/
def perfectLink (P : Platform) : Link := { context := { Api.sampleContext with P := P } }

theorem request_answered {text : String} {rq : MessageV0.Request} {response : Response}
    (hparse : T.parse text = some (requestMessage T.revision rq))
    (h : Api0.respond P {} (some rq) (Api.count s) = some (response, s'))
    (hok : Accepted response) :
    ∃ res, request T (perfectLink P) text s = some (some res, s') ∧ response0 res = response := by
  refine ⟨{ messages := [{ revision := 0, message0 := some { response := some response } }] },
    ?_, rfl⟩
  unfold request
  rw [hparse]
  simp only [requestMessage, Api.dispatchMessages, Api.dispatchAll, Api.dispatch, Api0.process,
    perfectLink, Api.sampleContext, h, Option.bind_eq_bind, Option.bind_some, Api.Answer.map,
    Except.map]
  exact if_pos ⟨trivial, (check_response _ _ _).mpr hok⟩

/-! ### What the server does with the two requests -/

theorem not_compare_empty (name : String) : compare name "" ≠ .lt := by
  rw [Ne, compare_lt_iff_lt, String.lt_iff_toList_lt]
  exact List.not_lt_nil _

theorem respond_nicDetails (P : Platform) (ambient : Ambient) (hn : s.model.nics[nic]? = some n) :
    ∃ rest, Api0.respond P ambient (some { nicDetails := some nic }) s =
      some (Api0.buildOkRes { nicDetails := Api0.nicToMessage n :: rest }, s) := by
  have hhandle : Api0.respond P ambient (some { nicDetails := some nic }) s =
      some (Api0.nicDetails nic s) := rfl
  rw [hhandle, Api0.nicDetails]
  split
  · rw [hn]
    exact ⟨[], rfl⟩
  · next hempty =>
      obtain rfl : nic = "" := not_not.mp hempty
      obtain ⟨rest, hrest⟩ := mapValues_of_least hn fun k => not_compare_empty k
      exact ⟨rest.map Api0.nicToMessage, by rw [hrest, List.map_cons]⟩

theorem sgList_spec (hP : link.context.P = P) (hs : Reachable P anything s)
    (hnic : Unescaped nic) (hline : OneLine nic) (hn : s.model.nics[nic]? = some n)
    (h : sgList T link nic s = some (some list, s')) :
    list = n.securityGroups ∧ s'.model = s.model ∧ Reachable P anything s' := by
  subst hP
  obtain ⟨⟨res, t⟩, hrequest, heq⟩ := Option.bind_eq_some_iff.mp h
  cases res with
  | none => cases heq
  | some res =>
      obtain ⟨hrespond, -⟩ := request_accepted (T.parse_nicDetails hnic hline) hrequest
      obtain ⟨rest, hdetails⟩ := respond_nicDetails link.context.P link.context.ambient
        (s := Api.count s) hn
      have hsame := hrespond.symm.trans hdetails
      simp only [Option.some.injEq, Prod.mk.injEq] at hsame heq
      obtain ⟨hres, rfl⟩ := hsame
      rw [Option.bind_some, hres] at heq
      obtain ⟨hlist, rfl⟩ := heq
      cases hlist
      exact ⟨rfl, rfl, .count hs⟩

/-- The groups that `nic_update` leaves: an empty list changes nothing. -/
def written (old list : List String) : List String :=
  if list = [] then old else Api0.addNames (list.filter (· ≠ "")) []

theorem respond_sgUpdate (hs : Reachable P anything s) (ambient : Ambient)
    (hn : s.model.nics[nic]? = some n) (list : List String) :
    ∃ s', Api0.respond P ambient
        (some { nicUpdate := some { id := nic, securityGroup := list } }) s =
          some (Api0.okRes, s') ∧
      ∃ n', s'.model.nics[nic]? = some n' ∧
        n'.securityGroups = written n.securityGroups list := by
  have hvalid : Api0.validateNicUpdate P { id := nic, securityGroup := list } = true := rfl
  obtain ⟨s', hrespond, hmodel⟩ := respond_nicUpdate hs.sound.agree hvalid hn rfl ambient
  refine ⟨s', hrespond, ?_⟩
  rw [hmodel]
  exact ⟨_, by rw [lookup_insert, if_pos rfl], rfl⟩

theorem sgUpdate_spec (hP : link.context.P = P) (hs : Reachable P anything s)
    (hnic : Unescaped nic) (hline : OneLine nic) (hlist : ∀ sg ∈ list, Unescaped sg)
    (hn : s.model.nics[nic]? = some n) (h : sgUpdate T link nic list s = some (0, s')) :
    Reachable P anything s' ∧ ∃ n', s'.model.nics[nic]? = some n' ∧
      n'.securityGroups = written n.securityGroups list := by
  subst hP
  obtain ⟨⟨res, t⟩, hrequest, heq⟩ := Option.bind_eq_some_iff.mp h
  cases res with
  | none => cases heq
  | some res =>
      cases heq
      by_cases hlines : ∀ sg ∈ list, OneLine sg
      · obtain ⟨hrespond, -⟩ := request_accepted
          (T.parse_sgUpdate hnic hline hlist hlines) hrequest
        have hcount : Reachable link.context.P anything (Api.count s) := .count hs
        obtain ⟨s'', hupdate, hn'⟩ := respond_sgUpdate hcount link.context.ambient hn list
        have hsame := hrespond.symm.trans hupdate
        simp only [Option.some.injEq, Prod.mk.injEq] at hsame
        obtain ⟨-, rfl⟩ := hsame
        exact ⟨.respond hcount trivial hupdate, hn'⟩
      · have hbroken := T.parse_broken hnic hlist (by simpa using hlines)
        rw [request, hbroken] at hrequest
        cases hrequest

theorem sgList_perfect (hnic : Unescaped nic) (hline : OneLine nic)
    (hn : s.model.nics[nic]? = some n) :
    ∃ s', sgList T (perfectLink P) nic s = some (some n.securityGroups, s') ∧
      s'.model = s.model := by
  obtain ⟨rest, hdetails⟩ := respond_nicDetails P {} (s := Api.count s) hn
  obtain ⟨res, hrequest, hres⟩ := request_answered (T.parse_nicDetails hnic hline) hdetails rfl
  refine ⟨Api.count s, ?_, rfl⟩
  rw [sgList, hrequest]
  simp only [Option.bind_eq_bind, Option.bind_some, hres]
  rfl

theorem sgUpdate_perfect (hs : Reachable P anything s) (hnic : Unescaped nic)
    (hline : OneLine nic) (hn : s.model.nics[nic]? = some n)
    (hlist : ∀ sg ∈ list, Unescaped sg) (hlines : ∀ sg ∈ list, OneLine sg) :
    ∃ s', sgUpdate T (perfectLink P) nic list s = some (0, s') ∧
      ∃ n', s'.model.nics[nic]? = some n' ∧
        n'.securityGroups = written n.securityGroups list := by
  have hcount : Reachable P anything (Api.count s) := .count hs
  obtain ⟨s', hupdate, hn'⟩ := respond_sgUpdate hcount {} hn list
  obtain ⟨res, hrequest, -⟩ := request_answered
    (T.parse_sgUpdate hnic hline hlist hlines) hupdate rfl
  refine ⟨s', ?_, hn'⟩
  rw [sgUpdate, hrequest]
  rfl

end Server

/-! ## The commands compute the right set -/

inductive SgCommand where
  | edit (edit : Edit)
  | set

/-- The command on the arguments from `argv[4]` on; the last one sends one request only. -/
def SgCommand.run : SgCommand → TextFormat → Link → Link → List String → Server →
    Option (Nat × Server)
  | .edit .add => subNicSgAdd
  | .edit .del => subNicSgDel
  | .set => fun T _ => subNicSgSet T

def SgCommand.Wanted : SgCommand → List String → List String → String → Prop
  | .edit e => e.Wanted
  | .set => fun _ names sg => sg ∈ names

/-- If the command exits with 0, the NIC has the groups that are wanted. -/
def ComputesRightSet (P : Platform) (T : TextFormat) (command : SgCommand) (nic : String)
    (names options : List String) (groups : List String) (s : Server) : Prop :=
  ∀ (first second : Link) (s' : Server), first.context.P = P → second.context.P = P →
    command.run T first second (nic :: (names ++ options)) s = some (0, s') →
      ∃ n', s'.model.nics[nic]? = some n' ∧
        ∀ sg, sg ∈ n'.securityGroups ↔ command.Wanted groups names sg

/-- Names of groups as they are given on a command line. -/
structure Names (names : List String) : Prop where
  nonempty : "" ∉ names
  noOption : ∀ sg ∈ names, sg.toList.head? ≠ some '-'
  unescaped : ∀ sg ∈ names, Unescaped sg

/-- What follows the names starts with an option. -/
def Options (options : List String) : Prop :=
  ∀ a ∈ options.head?, a.toList.head? = some '-'

theorem takeNames_append {names options : List String}
    (hnames : ∀ sg ∈ names, sg.toList.head? ≠ some '-') (hoptions : Options options) :
    takeNames (names ++ options) = names := by
  have hnone : options.takeWhile (fun a => decide (a.toList.head? ≠ some '-')) = [] := by
    cases options with
    | nil => rfl
    | cons a rest => exact List.takeWhile_cons_of_neg (by simpa using hoptions a rfl)
  rw [takeNames, List.takeWhile_append_of_pos (by simpa using hnames), hnone, List.append_nil]

section Commands

variable {P : Platform} {T : TextFormat} {nic : String} {names options : List String}
  {s s' : Server} {n : Butterfly.Nic}

theorem mem_written {old list : List String} (hlist : "" ∉ list) (sg : String) :
    sg ∈ written old list ↔ if list = [] then sg ∈ old else sg ∈ list := by
  rw [written]
  split
  · rfl
  · simp only [mem_addNames, List.not_mem_nil, false_or, List.mem_filter, decide_eq_true_eq]
    exact ⟨And.left, fun hsg => ⟨hsg, fun hempty => hlist (hempty ▸ hsg)⟩⟩

theorem edit_requests {edit : Edit} {first second : Link} {rest : List String}
    (hhelp : nic ≠ "help")
    (h : subNicSgEdit edit T first second (nic :: rest) s = some (0, s')) :
    takeNames rest ≠ [] ∧ ∃ allSg s₁, sgList T first nic s = some (some allSg, s₁) ∧
      match edit.compute allSg (takeNames rest) with
      | none => s' = s₁
      | some list => sgUpdate T second nic list s₁ = some (0, s') := by
  rw [subNicSgEdit, if_neg hhelp] at h
  split at h
  · cases h
  split at h
  · cases h
  next hnames =>
    refine ⟨hnames, ?_⟩
    obtain ⟨⟨phase, s₁⟩, hfirst, h⟩ := Option.bind_eq_some_iff.mp h
    obtain ⟨⟨phase', s₂⟩, hsecond, h⟩ := Option.bind_eq_some_iff.mp h
    obtain ⟨⟨list, t⟩, hlist, hphase⟩ := Option.bind_eq_some_iff.mp hfirst
    cases list with
    | none =>
        cases hphase
        cases hsecond
        cases h
    | some allSg =>
        refine ⟨allSg, t, hlist, ?_⟩
        simp only at hphase ⊢
        split at hphase
        · cases hphase
          cases hsecond
          cases h
          rfl
        · cases hphase
          obtain ⟨⟨status, t'⟩, hupdate, hphase'⟩ := Option.bind_eq_some_iff.mp hsecond
          cases hphase'
          cases h
          exact hupdate

theorem forall_mem_compute {p : String → Prop} {edit : Edit} {allSg list : List String}
    (hall : ∀ sg ∈ allSg, p sg) (hnames : ∀ sg ∈ names, p sg)
    (h : edit.compute allSg names = some list) : ∀ sg ∈ list, p sg := by
  intro sg hsg
  have hwanted := (mem_compute h sg).mp hsg
  cases edit with
  | add => exact hwanted.elim (hall sg) (hnames sg)
  | del => exact hall sg hwanted.1

theorem edit_right {edit : Edit} {first second : Link} {rest : List String}
    (hfirst : first.context.P = P) (hsecond : second.context.P = P)
    (hs : Reachable P anything s) (hnic : Unescaped nic) (hline : OneLine nic)
    (hn : s.model.nics[nic]? = some n) (hempty : "" ∉ n.securityGroups)
    (hgroups : ∀ sg ∈ n.securityGroups, Unescaped sg) (hnames : Names (takeNames rest))
    (hhelp : nic ≠ "help")
    (h : subNicSgEdit edit T first second (nic :: rest) s = some (0, s')) :
    ∃ n', s'.model.nics[nic]? = some n' ∧
      ∀ sg, sg ∈ n'.securityGroups ↔
        if edit.compute n.securityGroups (takeNames rest) = some [] then sg ∈ n.securityGroups
        else edit.Wanted n.securityGroups (takeNames rest) sg := by
  obtain ⟨-, allSg, s₁, hlist, hrest⟩ := edit_requests hhelp h
  obtain ⟨rfl, hmodel, hs₁⟩ := sgList_spec hfirst hs hnic hline hn hlist
  cases hcompute : edit.compute n.securityGroups (takeNames rest) with
  | none =>
      rw [hcompute] at hrest
      cases hrest
      have hreflected := reflected_of_compute (hs.wellFormed.nics _ _ hn).groups hcompute
      refine ⟨n, by rw [hmodel]; exact hn, fun sg => ?_⟩
      rw [if_neg (by simp)]
      exact (hreflected.wanted_iff sg).symm
  | some list =>
      rw [hcompute] at hrest
      obtain ⟨-, n', hn', hwritten⟩ := sgUpdate_spec hsecond hs₁ hnic hline
        (forall_mem_compute hgroups hnames.unescaped hcompute) (by rw [hmodel]; exact hn) hrest
      have hmem := mem_compute hcompute
      have hlist : "" ∉ list := by
        intro hmem'
        have hwanted := (hmem "").mp hmem'
        cases edit with
        | add => exact hwanted.elim hempty hnames.nonempty
        | del => exact hempty hwanted.1
      refine ⟨n', hn', fun sg => ?_⟩
      rw [hwritten, mem_written hlist, hmem]
      simp

theorem set_right {link : Link} (hP : link.context.P = P) (hs : Reachable P anything s)
    (hnic : Unescaped nic) (hline : OneLine nic) (hn : s.model.nics[nic]? = some n)
    (hnames : Names names) (hoptions : Options options) (hhelp : nic ≠ "help")
    (h : subNicSgSet T link (nic :: (names ++ options)) s = some (0, s')) :
    ∃ n', s'.model.nics[nic]? = some n' ∧ ∀ sg, sg ∈ n'.securityGroups ↔ sg ∈ names := by
  rw [subNicSgSet, if_neg hhelp] at h
  split at h
  · cases h
  rw [takeNames_append hnames.noOption hoptions] at h
  have hunescaped : ∀ sg ∈ (if names = [] then [""] else names), Unescaped sg := by
    split
    · intro sg hsg
      rw [List.mem_singleton.mp hsg]
      exact fun c hc => absurd hc (by simp)
    · exact hnames.unescaped
  obtain ⟨-, n', hn', hwritten⟩ := sgUpdate_spec hP hs hnic hline hunescaped hn h
  refine ⟨n', hn', fun sg => ?_⟩
  rw [hwritten]
  split
  · next hnone =>
      rw [hnone]
      rfl
  · next hsome => rw [mem_written hnames.nonempty, if_neg hsome]

theorem del_all_runs (hs : Reachable P anything s) (hnic : Unescaped nic) (hline : OneLine nic)
    (hn : s.model.nics[nic]? = some n) (hnames : Names names) (hoptions : Options options)
    (hhelp : nic ≠ "help") (hne : n.securityGroups ≠ [])
    (hall : ∀ sg ∈ n.securityGroups, sg ∈ names) :
    ∃ s', subNicSgDel T (perfectLink P) (perfectLink P) (nic :: (names ++ options)) s =
        some (0, s') ∧
      ∃ n', s'.model.nics[nic]? = some n' ∧ n'.securityGroups = n.securityGroups := by
  obtain ⟨sg, hsg⟩ := List.exists_mem_of_ne_nil _ hne
  have hsome : names ≠ [] := List.ne_nil_of_mem (hall sg hsg)
  have hcompute : Edit.compute .del n.securityGroups names = some [] :=
    (compute_eq_nil hsome).mpr ⟨rfl, hne, hall⟩
  obtain ⟨s₁, hlist, hmodel⟩ := sgList_perfect (T := T) (P := P) hnic hline hn
  obtain ⟨-, -, hs₁⟩ := sgList_spec (P := P) rfl hs hnic hline hn hlist
  have hnone : ∀ sg ∈ ([] : List String), Unescaped sg := fun _ h => nomatch h
  obtain ⟨s', hupdate, n', hn', hwritten⟩ := sgUpdate_perfect (P := P) (T := T) hs₁ hnic hline
    (by rw [hmodel]; exact hn) hnone (fun _ h => nomatch h)
  refine ⟨s', ?_, n', hn', hwritten⟩
  have hrest : names ++ options ≠ [] := fun h => hsome (List.append_eq_nil_iff.mp h).1
  rw [subNicSgDel, subNicSgEdit, if_neg hhelp, if_neg hrest,
    takeNames_append hnames.noOption hoptions, if_neg hsome]
  simp [proceed, hlist, hcompute, hupdate]

/--
A command that exits with 0 leaves the right groups, unless the NIC is named like the help
argument, or a deletion takes all its groups away.
-/
theorem nic_sg_right_iff (T : TextFormat) (hs : Reachable P anything s)
    (hn : s.model.nics[nic]? = some n) (hnic : Unescaped nic) (hline : OneLine nic)
    (hnames : Names names) (hoptions : Options options) (command : SgCommand)
    (hgroups : command ≠ .set → ∀ sg ∈ n.securityGroups, sg ≠ "" ∧ Unescaped sg) :
    ComputesRightSet P T command nic names options n.securityGroups s ↔
      (nic = "help" → ∀ sg, sg ∈ n.securityGroups ↔
        command.Wanted n.securityGroups names sg) ∧
      ¬(command = .edit .del ∧ n.securityGroups ≠ [] ∧ ∀ sg ∈ n.securityGroups, sg ∈ names) := by
  constructor
  · intro hright
    have hhelp : nic = "help" → ∀ sg, sg ∈ n.securityGroups ↔
        command.Wanted n.securityGroups names sg := by
      rintro rfl
      obtain ⟨n', hn', hmem⟩ := hright (perfectLink P) (perfectLink P) s rfl rfl (by
        rcases command with (_ | _) | _ <;> rfl)
      cases hn.symm.trans hn'
      exact hmem
    refine ⟨hhelp, ?_⟩
    rintro ⟨rfl, hne, hall⟩
    obtain ⟨sg, hsg⟩ := List.exists_mem_of_ne_nil _ hne
    by_cases hname : nic = "help"
    · exact ((hhelp hname sg).mp hsg).2 (hall sg hsg)
    · obtain ⟨s', hrun, n', hn', hsame⟩ := del_all_runs (T := T) hs hnic hline hn hnames
        hoptions hname hne hall
      obtain ⟨n'', hn'', hmem⟩ := hright _ _ s' rfl rfl hrun
      cases hn'.symm.trans hn''
      rw [hsame] at hmem
      exact ((hmem sg).mp hsg).2 (hall sg hsg)
  · rintro ⟨hhelp, hdel⟩ first second s' hfirst hsecond h
    by_cases hname : nic = "help"
    · subst hname
      have hsame : s' = s := by
        rcases command with (_ | _) | _ <;> cases h <;> rfl
      rw [hsame]
      exact ⟨n, hn, hhelp rfl⟩
    · have htake := takeNames_append hnames.noOption hoptions
      have hedit : ∀ edit : Edit, command = .edit edit →
          subNicSgEdit edit T first second (nic :: (names ++ options)) s = some (0, s') →
          ∃ n', s'.model.nics[nic]? = some n' ∧
            ∀ sg, sg ∈ n'.securityGroups ↔ edit.Wanted n.securityGroups names sg := by
        intro edit hcommand h
        have hold := hgroups (by rw [hcommand]; simp)
        have hsome := (edit_requests hname h).1
        obtain ⟨n', hn', hmem⟩ := edit_right hfirst hsecond hs hnic hline hn
          (fun hempty => (hold _ hempty).1 rfl) (fun sg hsg => (hold sg hsg).2)
          (by rw [htake]; exact hnames) hname h
        rw [htake] at hsome hmem
        refine ⟨n', hn', fun sg => ?_⟩
        rw [hmem, if_neg]
        intro hnil
        obtain ⟨rfl, hall⟩ := (compute_eq_nil hsome).mp hnil
        exact hdel ⟨hcommand, hall⟩
      rcases command with (_ | _) | _
      · exact hedit .add rfl h
      · exact hedit .del rfl h
      · exact set_right hsecond hs hnic hline hn hnames hoptions hname h

end Commands

/-! ## A text format -/

def parseGroups : List (List Char) → Option (List String)
  | [] => none
  | [tail] => if tail = sgUpdateTail.toList then some [] else none
  | field :: sg :: rest =>
      if field = securityGroupHead.toList ∧ '\n' ∉ sg ∧ '\x00' ∉ sg then
        (parseGroups rest).map (String.ofList sg :: ·)
      else none

def parsePieces : List (List Char) → Option Messages
  | head :: nic :: rest =>
      if head = (nicDetailsHead 0).toList then
        if rest = [nicDetailsTail.toList] then
          some (requestMessage 0 { nicDetails := some (String.ofList nic) })
        else none
      else if head = (sgUpdateHead 0).toList then
        (parseGroups rest).map fun list => requestMessage 0
          { nicUpdate := some { id := String.ofList nic, securityGroup := list } }
      else none
  | _ => none

theorem quote_not_mem {name : String} (hname : Unescaped name) : '"' ∉ name.toList :=
  fun h => (hname _ h).1 rfl

theorem toList_quoted (name : String) :
    (quoted name).toList = '"' :: (name.toList ++ ['"']) := by
  simp [quoted]

theorem splitOn_nicDetailsText {nic : String} (hnic : Unescaped nic) :
    (nicDetailsText 0 nic).toList.splitOn '"' =
      [(nicDetailsHead 0).toList, nic.toList, nicDetailsTail.toList] := by
  have htext : (nicDetailsText 0 nic).toList = (nicDetailsHead 0).toList ++ '"' ::
      (nic.toList ++ '"' :: nicDetailsTail.toList) := by
    simp only [nicDetailsText, toList_quoted, String.toList_append, List.append_assoc,
      List.cons_append, List.nil_append]
  rw [htext, List.splitOn_append_cons_self_of_not_mem (by decide +kernel),
    List.splitOn_append_cons_self_of_not_mem (quote_not_mem hnic),
    List.splitOn_eq_singleton (by decide +kernel)]

/-- What `securityGroupText` writes, cut at the double quotes. -/
def groupPieces : List String → List (List Char)
  | [] => [sgUpdateTail.toList]
  | sg :: list => securityGroupHead.toList :: sg.toList :: groupPieces list

theorem splitOn_groups {list : List String} (hlist : ∀ sg ∈ list, Unescaped sg) :
    (String.join (list.map securityGroupText) ++ sgUpdateTail).toList.splitOn '"' =
      groupPieces list := by
  induction list with
  | nil => exact List.splitOn_eq_singleton (by decide +kernel)
  | cons sg list ih =>
      obtain ⟨hsg, hlist⟩ := List.forall_mem_cons.mp hlist
      have htext : (String.join ((sg :: list).map securityGroupText) ++
            sgUpdateTail).toList =
          securityGroupHead.toList ++ '"' :: (sg.toList ++ '"' ::
            (String.join (list.map securityGroupText) ++
              sgUpdateTail).toList) := by
        simp only [List.map_cons, String.join_cons, securityGroupText, toList_quoted,
          String.toList_append, List.append_assoc, List.cons_append, List.nil_append]
      rw [htext, List.splitOn_append_cons_self_of_not_mem (by decide +kernel),
        List.splitOn_append_cons_self_of_not_mem (quote_not_mem hsg), ih hlist, groupPieces]

theorem splitOn_sgUpdateText {nic : String} {list : List String} (hnic : Unescaped nic)
    (hlist : ∀ sg ∈ list, Unescaped sg) :
    (sgUpdateText 0 nic list).toList.splitOn '"' =
      (sgUpdateHead 0).toList :: nic.toList :: groupPieces list := by
  have htext : (sgUpdateText 0 nic list).toList = (sgUpdateHead 0).toList ++ '"' ::
      (nic.toList ++ '"' :: (String.join (list.map securityGroupText) ++
        sgUpdateTail).toList) := by
    simp only [sgUpdateText, toList_quoted, String.toList_append, List.append_assoc,
      List.cons_append, List.nil_append]
  rw [htext, List.splitOn_append_cons_self_of_not_mem (by decide +kernel),
    List.splitOn_append_cons_self_of_not_mem (quote_not_mem hnic), splitOn_groups hlist]

theorem parseGroups_pieces {list : List String} (hlist : ∀ sg ∈ list, OneLine sg) :
    parseGroups (groupPieces list) = some list := by
  induction list with
  | nil => rfl
  | cons sg list ih =>
      obtain ⟨hsg, hlist⟩ := List.forall_mem_cons.mp hlist
      rw [groupPieces, parseGroups, if_pos, ih hlist, Option.map_some, String.ofList_toList]
      exact ⟨rfl, fun h => (hsg _ h).1 rfl, fun h => (hsg _ h).2 rfl⟩

theorem parseGroups_broken {list : List String} (hlist : ∃ sg ∈ list, ¬OneLine sg) :
    parseGroups (groupPieces list) = none := by
  induction list with
  | nil => simp at hlist
  | cons sg list ih =>
      rw [groupPieces, parseGroups]
      split
      · next hfield =>
          have hline : OneLine sg :=
            fun c hc => ⟨fun h => hfield.2.1 (h ▸ hc), fun h => hfield.2.2 (h ▸ hc)⟩
          have hrest : ∃ sg ∈ list, ¬OneLine sg := by simpa [hline] using hlist
          rw [ih hrest, Option.map_none]
      · rfl

def sampleFormat : TextFormat where
  revision := 0
  parse text := parsePieces (text.toList.splitOn '"')
  parse_nicDetails hnic _ := by
    rw [splitOn_nicDetailsText hnic, parsePieces, if_pos rfl, if_pos rfl, String.ofList_toList]
  parse_sgUpdate hnic _ hlist hlines := by
    rw [splitOn_sgUpdateText hnic hlist, parsePieces, if_neg (by decide +kernel), if_pos rfl,
      parseGroups_pieces hlines, Option.map_some, String.ofList_toList]
  parse_broken hnic hlist hlines := by
    rw [splitOn_sgUpdateText hnic hlist, parsePieces, if_neg (by decide +kernel), if_pos rfl,
      parseGroups_broken hlines, Option.map_none]

def groupedServer : Server :=
  (serve Libc.platform {}
    [{ nicAdd := some { id := "nic-1", mac := "52:54:00:12:34:01", vni := 42
                        ip := ["42.0.0.1"], securityGroup := ["sg-1"] } }]
    (Server.start {} 1 0)).getD (Server.start {} 1 0)

theorem groupedServer_reachable : Reachable Libc.platform anything groupedServer := by
  have hsome : (serve Libc.platform {}
      [{ nicAdd := some { id := "nic-1", mac := "52:54:00:12:34:01", vni := 42
                          ip := ["42.0.0.1"], securityGroup := ["sg-1"] } }]
      (Server.start {} 1 0)).isSome = true := by
    decide +kernel
  obtain ⟨s, hs⟩ := Option.isSome_iff_exists.mp hsome
  rw [groupedServer, hs]
  exact (Reachable.start {} 1 0).serve (fun _ _ _ => trivial) hs

theorem groupedServer_nic :
    ∃ n, groupedServer.model.nics["nic-1"]? = some n ∧ n.securityGroups = ["sg-1"] :=
  ⟨(groupedServer.model.nics["nic-1"]?).get (by decide +kernel), (Option.some_get _).symm,
    by decide +kernel⟩

theorem nic_sg_right_iff_second_group :
    ComputesRightSet Libc.platform sampleFormat (.edit .add) "nic-1" ["sg-2"] ["-v"] ["sg-1"]
      groupedServer := by
  obtain ⟨n, hn, hgroups⟩ := groupedServer_nic
  rw [← hgroups]
  refine (nic_sg_right_iff sampleFormat groupedServer_reachable hn (by decide) (by decide)
    ⟨by decide, by decide, by decide⟩ ?_ _ fun _ => by rw [hgroups]; decide).mpr
    ⟨fun h => absurd h (by decide), fun h => nomatch h.1⟩
  unfold Options
  decide

/-- The deletion of the only group succeeds, and the group stays. -/
theorem last_group_stays :
    ∃ n, Reachable Libc.platform anything groupedServer ∧
      groupedServer.model.nics["nic-1"]? = some n ∧ n.securityGroups = ["sg-1"] ∧
      ¬ComputesRightSet Libc.platform sampleFormat (.edit .del) "nic-1" ["sg-1"] []
        n.securityGroups groupedServer := by
  obtain ⟨n, hn, hgroups⟩ := groupedServer_nic
  refine ⟨n, groupedServer_reachable, hn, hgroups, fun hright => ?_⟩
  have hnames : Names ["sg-1"] := ⟨by decide, by decide, by decide⟩
  have hoptions : Options [] := fun _ h => nomatch h
  obtain ⟨s', hrun, n', hn', hsame⟩ := del_all_runs (T := sampleFormat) groupedServer_reachable
    (by decide) (by decide) hn hnames hoptions (by decide) (by rw [hgroups]; decide)
    (by rw [hgroups]; decide)
  obtain ⟨n'', hn'', hmem⟩ := hright _ _ s' rfl rfl hrun
  cases hn'.symm.trans hn''
  have hsg : "sg-1" ∈ n'.securityGroups := by rw [hsame, hgroups]; decide
  exact ((hmem "sg-1").mp hsg).2 (List.mem_singleton_self _)

end Butterfly.Client
