import Mathlib

/-!
# Arguments of the client

The loop in the client's `main` that cuts the arguments into commands at `+`, and the
reader of a `--cidr` argument.
-/

namespace Butterfly.Client

/-! ## Commands -/

/-- `command` is a position of the argument vector. -/
structure Cmd where
  command : Nat
  size : Nat
  deriving DecidableEq

/-- `command[1]` up to `command[size - 1]` -/
def Cmd.tokens (argv : List String) (c : Cmd) : List String :=
  (argv.drop (c.command + 1)).take (c.size - 1)

/-- The variables of the loop; `argv` is how far the pointer was moved. -/
structure Splitter where
  argv : Nat := 0
  idCommand : Nat := 0
  idInsert : Nat := 0
  cmds : List Cmd := [⟨0, 0⟩]
  /-- The positions read so far. -/
  examined : List Nat := []
  deriving DecidableEq

def Splitter.close (sp : Splitter) : List Cmd :=
  sp.cmds.modify sp.idCommand fun c => { c with size := sp.idInsert }

/-- One round of the loop; there is no text at `argc` or behind it. -/
def Splitter.step (argv : List String) (sp : Splitter) : Option Splitter := do
  let position := sp.argv + sp.idInsert
  let cmd ← argv[position]?
  let examined := sp.examined ++ [position]
  if cmd = "+" then
    some ⟨position, sp.idCommand + 1, 1, sp.close ++ [⟨position, 0⟩], examined⟩
  else some { sp with idInsert := sp.idInsert + 1, examined := examined }

def Splitter.run (argv : List String) : Nat → Splitter → Option Splitter
  | 0, sp => some sp
  | rounds + 1, sp => (sp.step argv).bind (Splitter.run argv rounds)

/-- The commands, and the positions that were read. -/
def splitCommands (argv : List String) : Option (List Cmd × List Nat) :=
  (Splitter.run argv argv.length {}).map fun sp => (sp.close, sp.examined)

/-! ### The loop against the separators -/

def Cmd.Exact (argv : List String) (c : Cmd) : Prop := c.size = (c.tokens argv).length + 1

def Splitter.current (sp : Splitter) : Cmd := ⟨sp.argv, sp.idInsert⟩

/-- All commands but the last one are closed, and `rest` is not read yet. -/
structure Open (argv : List String) (closed : List Cmd) (rest : List String)
    (sp : Splitter) : Prop where
  rest : argv.drop (sp.argv + sp.idInsert) = rest
  index : sp.idCommand = closed.length
  cmds : sp.cmds = closed ++ [⟨sp.argv, 0⟩]
  examined : sp.examined = List.range (sp.argv + sp.idInsert)
  closed : ∀ c ∈ closed, c.Exact argv
  current : sp.current.Exact argv

section Splitting

variable {argv rest : List String} {sp : Splitter} {closed : List Cmd}

theorem modify_last (closed : List Cmd) (c : Cmd) (f : Cmd → Cmd) :
    (closed ++ [c]).modify closed.length f = closed ++ [f c] := by
  induction closed with
  | nil => rfl
  | cons first closed ih => simp [ih]

theorem Open.close (h : Open argv closed rest sp) : sp.close = closed ++ [sp.current] := by
  rw [Splitter.close, h.cmds, h.index, modify_last]
  rfl

theorem Open.close_exact (h : Open argv closed rest sp) : ∀ c ∈ sp.close, c.Exact argv := by
  rw [h.close]
  intro c hc
  rcases List.mem_append.mp hc with hc | hc
  · exact h.closed c hc
  · rw [List.mem_singleton.mp hc]
    exact h.current

theorem Open.read {token : String} (h : Open argv closed (token :: rest) sp) :
    argv[sp.argv + sp.idInsert]? = some token ∧
      argv.drop (sp.argv + sp.idInsert + 1) = rest := by
  constructor
  · rw [← List.head?_drop, h.rest]
    rfl
  · rw [← List.drop_drop, h.rest]
    rfl

theorem Open.step_separator (h : Open argv closed ("+" :: rest) sp) :
    ∃ sp', sp.step argv = some sp' ∧ Open argv (closed ++ [sp.current]) rest sp' ∧
      sp'.argv + sp'.idInsert = sp.argv + sp.idInsert + 1 ∧ sp'.current.tokens argv = [] := by
  obtain ⟨hread, hrest⟩ := h.read
  refine ⟨⟨sp.argv + sp.idInsert, sp.idCommand + 1, 1,
    sp.close ++ [⟨sp.argv + sp.idInsert, 0⟩], sp.examined ++ [sp.argv + sp.idInsert]⟩,
    ?_, ⟨hrest, ?_, ?_, ?_, ?_, rfl⟩, rfl, rfl⟩
  · simp [Splitter.step, hread]
  · rw [List.length_append, h.index]
    rfl
  · rw [h.close]
  · simp only [h.examined, List.range_succ]
  · rw [← h.close]
    exact h.close_exact

theorem Open.step_token {token : String} (htoken : token ≠ "+")
    (h : Open argv closed (token :: rest) sp) :
    ∃ sp', sp.step argv = some sp' ∧ Open argv closed rest sp' ∧
      sp'.argv + sp'.idInsert = sp.argv + sp.idInsert + 1 ∧
      sp'.current.tokens argv = sp.current.tokens argv ++ [token] := by
  obtain ⟨hread, hrest⟩ := h.read
  have htokens : (argv.drop (sp.argv + 1)).take sp.idInsert =
      sp.current.tokens argv ++ [token] := by
    obtain ⟨n, hn⟩ : ∃ n, sp.idInsert = n + 1 := ⟨_, h.current⟩
    have hnext : (argv.drop (sp.argv + 1))[n]? = some token := by
      rw [List.getElem?_drop, Nat.add_assoc, Nat.add_comm 1 n, ← hn]
      exact hread
    rw [Cmd.tokens, Splitter.current, hn, Nat.add_sub_cancel, List.take_add_one, hnext]
    rfl
  refine ⟨{ sp with idInsert := sp.idInsert + 1
                    examined := sp.examined ++ [sp.argv + sp.idInsert] },
    ?_, ⟨hrest, h.index, h.cmds, ?_, h.closed, ?_⟩, rfl, htokens⟩
  · simp [Splitter.step, hread, htoken]
  · simp only [h.examined, ← Nat.add_assoc, List.range_succ]
  · have hsize : sp.idInsert = (sp.current.tokens argv).length + 1 := h.current
    change sp.idInsert + 1 = ((argv.drop (sp.argv + 1)).take sp.idInsert).length + 1
    rw [htokens, List.length_append, hsize, List.length_singleton]

theorem Open.run (h : Open argv closed rest sp) :
    ∃ sp', Splitter.run argv rest.length sp = some sp' ∧
      sp'.examined = List.range (sp.argv + sp.idInsert + rest.length) ∧
      (∀ c ∈ sp'.close, c.Exact argv) ∧
      sp'.close.map (Cmd.tokens argv) = closed.map (Cmd.tokens argv) ++
        (rest.splitOn "+").modifyHead (sp.current.tokens argv ++ ·) := by
  induction rest generalizing sp closed with
  | nil =>
      refine ⟨sp, rfl, h.examined, h.close_exact, ?_⟩
      rw [h.close, List.map_append]
      simp
  | cons token rest ih =>
      rw [List.splitOn_cons_eq_if_modifyHead, List.length_cons]
      by_cases htoken : token = "+"
      · subst htoken
        obtain ⟨sp₁, hstep, hopen, hposition, htokens⟩ := h.step_separator
        obtain ⟨sp', hrun, hexamined, hexact, hcut⟩ := ih hopen
        refine ⟨sp', ?_, ?_, hexact, ?_⟩
        · rw [Splitter.run, hstep]
          exact hrun
        · rw [hexamined, hposition, Nat.add_right_comm, Nat.add_assoc]
        · obtain ⟨first, pieces, hpieces⟩ :=
            List.exists_cons_of_ne_nil (List.splitOn_ne_nil "+" rest)
          rw [hcut, htokens, hpieces]
          simp
      · obtain ⟨sp₁, hstep, hopen, hposition, htokens⟩ := h.step_token htoken
        obtain ⟨sp', hrun, hexamined, hexact, hcut⟩ := ih hopen
        refine ⟨sp', ?_, ?_, hexact, ?_⟩
        · rw [Splitter.run, hstep]
          exact hrun
        · rw [hexamined, hposition, Nat.add_right_comm, Nat.add_assoc]
        · obtain ⟨first, pieces, hpieces⟩ :=
            List.exists_cons_of_ne_nil (List.splitOn_ne_nil "+" rest)
          rw [hcut, htokens, hpieces]
          simp [htoken]

theorem sum_splitOn (tokens : List String) :
    ((tokens.splitOn "+").map fun piece => piece.length + 1).sum = tokens.length + 1 := by
  induction tokens with
  | nil => rfl
  | cons token tokens ih =>
      obtain ⟨first, pieces, hpieces⟩ :=
        List.exists_cons_of_ne_nil (List.splitOn_ne_nil "+" tokens)
      rw [List.splitOn_cons_eq_if_modifyHead]
      rw [hpieces] at ih ⊢
      simp only [List.map_cons, List.sum_cons] at ih
      split
      · simp only [List.map_cons, List.sum_cons, List.length_nil, List.length_cons]
        omega
      · simp only [List.modifyHead_cons, List.map_cons, List.sum_cons, List.length_cons]
        omega

end Splitting

/--
The commands are the segments between the separators, in order; they cover the argument
vector, every position of which is read once and nothing behind it.
-/
theorem splitCommands_spec {program : String} (hprogram : program ≠ "+") (args : List String) :
    ∃ cmds, splitCommands (program :: args) =
        some (cmds, List.range (program :: args).length) ∧
      cmds.map (Cmd.tokens (program :: args)) = args.splitOn "+" ∧
      cmds.map Cmd.size = (args.splitOn "+").map (fun piece => piece.length + 1) ∧
      (cmds.map Cmd.size).sum = (program :: args).length := by
  have hstep : ({} : Splitter).step (program :: args) =
      some { idInsert := 1, examined := [0] } := by
    simp [Splitter.step, hprogram]
  have hopen : Open (program :: args) [] args { idInsert := 1, examined := [0] } :=
    ⟨rfl, rfl, rfl, rfl, by simp, rfl⟩
  obtain ⟨sp, hrun, hexamined, hexact, hcut⟩ := hopen.run
  have htokens : sp.close.map (Cmd.tokens (program :: args)) = args.splitOn "+" := by
    obtain ⟨first, pieces, hpieces⟩ :=
      List.exists_cons_of_ne_nil (List.splitOn_ne_nil "+" args)
    rw [hcut, hpieces]
    rfl
  have hsizes : sp.close.map Cmd.size = (args.splitOn "+").map (fun piece => piece.length + 1) := by
    rw [← htokens, List.map_map]
    exact List.map_congr_left hexact
  refine ⟨sp.close, ?_, htokens, hsizes, ?_⟩
  · rw [splitCommands, List.length_cons, Splitter.run, hstep, Option.bind_some, hrun,
      Option.map_some, hexamined]
    simp [Nat.add_comm]
  · rw [hsizes, sum_splitOn]
    rfl

theorem splitCommands_spec_two :
    ∃ cmds, splitCommands ["butterfly", "status", "+", "sg", "list"] =
        some (cmds, List.range 5) ∧
      cmds.map (Cmd.tokens ["butterfly", "status", "+", "sg", "list"]) =
        [["status"], ["sg", "list"]] ∧
      cmds.map Cmd.size = [2, 3] ∧ (cmds.map Cmd.size).sum = 5 :=
  splitCommands_spec (by decide) ["status", "+", "sg", "list"]

/-! ## CIDRs -/

/-- The loop of `CidrToProtobuf`, with the text that `w` points to. -/
structure CidrParts where
  address : List Char := []
  mask : List Char := []
  toMask : Bool := false

def CidrParts.read (parts : CidrParts) (c : Char) : CidrParts :=
  if c = '/' then { parts with toMask := true }
  else if parts.toMask then { parts with mask := parts.mask ++ [c] }
  else { parts with address := parts.address ++ [c] }

def cidrText (address mask : List Char) : String :=
  "address: \"" ++ String.ofList address ++ "\"" ++ "mask_size: " ++ String.ofList mask

/-- The text for the request, or `none` for the exit status 1. -/
def cidrToProtobuf (text : String) : Option String :=
  let parts := text.toList.foldl CidrParts.read {}
  if parts.address.length = 0 ∨ parts.mask.length = 0 then none
  else some (cidrText parts.address parts.mask)

/-! ### What the reader makes of a text -/

section Cidr

variable {text : String} {address mask : List Char}

theorem foldl_read_mask (cs : List Char) :
    cs.foldl CidrParts.read ⟨address, mask, true⟩ =
      ⟨address, mask ++ cs.filter (· ≠ '/'), true⟩ := by
  induction cs generalizing mask with
  | nil => simp
  | cons c cs ih =>
      rw [List.foldl_cons, CidrParts.read]
      split
      · next hslash => rw [ih, List.filter_cons_of_neg (by simpa using hslash)]
      · next hother =>
          rw [if_pos rfl, ih, List.filter_cons_of_pos (by simpa using hother), List.append_assoc]
          rfl

theorem foldl_read_plain (hcs : '/' ∉ mask) :
    mask.foldl CidrParts.read ⟨address, [], false⟩ = ⟨address ++ mask, [], false⟩ := by
  induction mask generalizing address with
  | nil => simp
  | cons c cs ih =>
      simp only [List.mem_cons, not_or] at hcs
      rw [List.foldl_cons, CidrParts.read, if_neg (Ne.symm hcs.1), if_neg Bool.false_ne_true,
        ih hcs.2, List.append_assoc]
      rfl

theorem cidrToProtobuf_of_slash {rest : List Char} (htext : text.toList = address ++ '/' :: rest)
    (haddress : '/' ∉ address) :
    cidrToProtobuf text =
      if address = [] ∨ rest.filter (· ≠ '/') = [] then none
      else some (cidrText address (rest.filter (· ≠ '/'))) := by
  have hparts : text.toList.foldl CidrParts.read {} =
      ⟨address, rest.filter (· ≠ '/'), true⟩ := by
    rw [htext, List.foldl_append, foldl_read_plain haddress, List.foldl_cons, CidrParts.read,
      if_pos rfl, foldl_read_mask]
    rfl
  rw [cidrToProtobuf, hparts]
  simp only [List.length_eq_zero_iff]

theorem cidrToProtobuf_of_no_slash (htext : '/' ∉ text.toList) : cidrToProtobuf text = none := by
  rw [cidrToProtobuf, foldl_read_plain htext]
  exact if_pos (.inr rfl)

structure IsCidr (text : String) (address mask : List Char) : Prop where
  cut : text.toList = address ++ '/' :: mask
  firstSlash : '/' ∉ address
  lastSlash : '/' ∉ mask
  hasAddress : address ≠ []
  hasMask : mask ≠ []

/-- The texts accepted are those of the syntax, and they are taken apart at the slash. -/
def ReadsCidr (text : String) : Prop :=
  ∀ out, cidrToProtobuf text = some out ↔
    ∃ address mask, IsCidr text address mask ∧ out = cidrText address mask

theorem isCidr_iff {address' rest : List Char} (htext : text.toList = address ++ '/' :: rest)
    (haddress : '/' ∉ address) :
    IsCidr text address' mask ↔
      address' = address ∧ mask = rest ∧ '/' ∉ rest ∧ address ≠ [] ∧ rest ≠ [] := by
  constructor
  · intro h
    obtain ⟨rfl, -, rfl⟩ := (List.append_cons_inj_of_notMem h.firstSlash h.lastSlash).mp
      (h.cut.symm.trans htext)
    exact ⟨rfl, rfl, h.lastSlash, h.hasAddress, h.hasMask⟩
  · rintro ⟨rfl, rfl, hlast, haddress', hmask⟩
    exact ⟨htext, haddress, hlast, haddress', hmask⟩

/--
A text is read as it should be unless it has more than one slash, the first one not in
front, and something else than slashes behind that.
-/
theorem reads_cidr_iff (text : String) :
    ReadsCidr text ↔
      text.toList.count '/' ≤ 1 ∨ text.toList.head? = some '/' ∨
        ∀ c ∈ text.toList.dropWhile (· ≠ '/'), c = '/' := by
  by_cases hslash : '/' ∈ text.toList
  · obtain ⟨address, rest, htext, haddress⟩ := List.eq_append_cons_of_mem hslash
    have hcount : text.toList.count '/' = rest.count '/' + 1 := by
      rw [htext, List.count_append, List.count_cons_self, List.count_eq_zero_of_not_mem haddress,
        Nat.zero_add]
    have hdrop : text.toList.dropWhile (· ≠ '/') = '/' :: rest := by
      rw [htext, List.dropWhile_append_of_pos (by
        intro c hc
        simpa using ne_of_mem_of_not_mem hc haddress)]
      exact List.dropWhile_cons_of_neg (by simp)
    have hfront : text.toList.head? = some '/' ↔ address = [] := by
      rw [htext]
      cases address with
      | nil => simp
      | cons c cs => simpa using Ne.symm (List.ne_of_not_mem_cons haddress)
    rw [hcount, hdrop, hfront]
    unfold ReadsCidr
    rw [cidrToProtobuf_of_slash htext haddress]
    simp only [isCidr_iff htext haddress]
    have hfilter : rest.filter (· ≠ '/') = [] ↔ ∀ c ∈ '/' :: rest, c = '/' := by
      simp [List.filter_eq_nil_iff]
    by_cases hlast : '/' ∈ rest
    · have hmany : ¬rest.count '/' + 1 ≤ 1 := by
        have := List.count_pos_iff.mpr hlast
        omega
      rw [← hfilter]
      constructor
      · intro hreads
        by_contra hno
        simp only [hmany, false_or] at hno
        obtain ⟨_, _, ⟨-, -, hnot, -⟩, -⟩ := (hreads _).mp (if_neg hno)
        exact hnot hlast
      · rintro (hone | hno) out
        · exact absurd hone hmany
        · rw [if_pos hno]
          exact iff_of_false (by simp) fun ⟨_, _, ⟨_, _, hnot, _⟩, _⟩ => hnot hlast
    · have hsame : rest.filter (· ≠ '/') = rest :=
        List.filter_eq_self.mpr fun c hc => by simpa using ne_of_mem_of_not_mem hc hlast
      refine iff_of_true (fun out => ?_) (.inl ?_)
      · rw [hsame]
        by_cases hparts : address = [] ∨ rest = []
        · rw [if_pos hparts]
          refine iff_of_false (by simp) ?_
          rintro ⟨_, _, ⟨-, -, -, haddress', hmask⟩, -⟩
          exact hparts.elim haddress' hmask
        · rw [if_neg hparts]
          obtain ⟨haddress', hmask⟩ := not_or.mp hparts
          constructor
          · intro hout
            exact ⟨address, rest, ⟨rfl, rfl, hlast, haddress', hmask⟩, (Option.some.inj hout).symm⟩
          · rintro ⟨_, _, ⟨rfl, rfl, -⟩, rfl⟩
            rfl
      · exact Nat.le_of_eq (congrArg (· + 1) (List.count_eq_zero_of_not_mem hlast))
  · refine iff_of_true (fun out => ?_) (.inl ?_)
    · rw [cidrToProtobuf_of_no_slash hslash]
      refine iff_of_false (by simp) ?_
      rintro ⟨address, mask, h, -⟩
      exact hslash (by simp [h.cut])
    · rw [List.count_eq_zero_of_not_mem hslash]
      exact Nat.zero_le 1

/-- Two slashes are accepted, and the mask is put together around the second one. -/
theorem two_slashes_accepted :
    cidrToProtobuf "10.0.0.0/1/6" = some "address: \"10.0.0.0\"mask_size: 16" ∧
      ¬ReadsCidr "10.0.0.0/1/6" := by
  have haccepted : cidrToProtobuf "10.0.0.0/1/6" = some "address: \"10.0.0.0\"mask_size: 16" := by
    decide +kernel
  refine ⟨haccepted, fun hreads => ?_⟩
  obtain ⟨address, mask, h, -⟩ := (hreads _).mp haccepted
  have hcut : "10.0.0.0".toList ++ '/' :: "1/6".toList = address ++ '/' :: mask := by
    rw [← h.cut]
    decide +kernel
  obtain ⟨-, -, rfl⟩ := (List.append_cons_inj_of_notMem h.firstSlash h.lastSlash).mp hcut.symm
  exact h.lastSlash (by decide +kernel)

end Cidr

end Butterfly.Client
