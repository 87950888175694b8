import Mathlib.Data.List.TakeWhile
import TestLint.Declaration.Members
import TestLint.Proofs.Syntax.Address

/-!
# The calls in a body

Every call of a body is found once, in pre-order, however deep it stands among other calls, lambdas
and local functions (`Method.invocations_exact`).  The mark that the walk carries along is that of
the nearest local function around a node (`Method.insideAt`): each local function decides anew for
all that stands in it.
-/

namespace TestLint

/-- The results of a function stand in the order of what they are the results of. -/
theorem forall₂_filterMap {α β : Type} (f : α → Option β) (as : List α) :
    List.Forall₂ (fun a b => f a = some b) (as.filter fun a => (f a).isSome) (as.filterMap f) := by
  induction as with
  | nil => exact .nil
  | cons a rest ih =>
    cases ha : f a with
    | none => rwa [List.filter_cons_of_neg (by simp [ha]), List.filterMap_cons_none ha]
    | some b =>
      rw [List.filter_cons_of_pos (by simp [ha]), List.filterMap_cons_some ha]
      exact .cons ha ih

namespace Invocation

/-! ## What a call is -/

/-- The name that a call of the function is written with. -/
inductive Calls : Tree → Tree → Prop
  | member {function name : Tree} (hkind : function.kind = "member_access_expression")
      (hname : function.childByField? "name" = some name) : Calls function name
  | plain {function : Tree} (hkind : function.kind ≠ "member_access_expression") :
      Calls function function

/-- The node of a written name that names the method, type arguments left out. -/
inductive NamesMethod : Tree → Tree → Prop
  | generic {name method : Tree} (hkind : name.kind = "generic_name")
      (hmethod : name.codeChildren.find? (·.kind == "identifier") = some method) :
      NamesMethod name method
  | bare {name : Tree} (hkind : name.kind = "generic_name")
      (hnone : ∀ c ∈ name.codeChildren, c.kind ≠ "identifier") : NamesMethod name name
  | plain {name : Tree} (hkind : name.kind ≠ "generic_name") : NamesMethod name name

/-- The node calls a method: it has a function and arguments, and the method has a name, which is
not `nameof`. -/
structure IsCall (source : List Char) (n : Tree) : Prop where
  kind_eq : n.kind = "invocation_expression"
  arguments : ∃ args, n.childByField? "arguments" = some args
  named : ∃ function name method, n.childByField? "function" = some function ∧
    Calls function name ∧ NamesMethod name method ∧
    method.text source ≠ "" ∧ method.text source ≠ "nameof"

theorem namesMethod_methodAndTypes (source : List Char) (name : Tree) :
    NamesMethod name (methodAndTypes source name).1 := by
  rw [methodAndTypes]
  split
  case isTrue hkind =>
    cases hfound : name.codeChildren.find? (·.kind == "identifier") with
    | none => exact .bare (beq_iff_eq.1 hkind) (by simpa using List.find?_eq_none.1 hfound)
    | some method => exact .generic (beq_iff_eq.1 hkind) hfound
  case isFalse hkind => exact .plain (by simpa using hkind)

theorem NamesMethod.eq_methodAndTypes {name method : Tree} (h : NamesMethod name method)
    (source : List Char) : method = (methodAndTypes source name).1 := by
  rw [methodAndTypes]
  cases h with
  | generic hkind hmethod => rw [if_pos (beq_iff_eq.2 hkind), hmethod, Option.getD_some]
  | bare hkind hnone =>
    have hfound : name.codeChildren.find? (·.kind == "identifier") = none :=
      List.find?_eq_none.2 (by simpa using hnone)
    rw [if_pos (beq_iff_eq.2 hkind), hfound, Option.getD_none]
  | plain hkind => rw [if_neg (by simpa using hkind)]

theorem calls_of_eq {function name : Tree}
    (h : (if function.kind == "member_access_expression" then function.childByField? "name"
      else some function) = some name) : Calls function name := by
  split at h
  case isTrue hkind => exact .member (beq_iff_eq.1 hkind) h
  case isFalse hkind =>
    cases h
    exact .plain (by simpa using hkind)

/-- A call expression is read as a call if it is one. -/
theorem isSome_ofTree?_iff {source : List Char} {n : Tree}
    (hkind : n.kind = "invocation_expression") :
    (ofTree? source n).isSome = true ↔ IsCall source n := by
  rw [Option.isSome_iff_exists]
  constructor
  · rintro ⟨call, h⟩
    simp only [ofTree?, Option.bind_eq_bind, Option.bind_eq_some_iff] at h
    obtain ⟨function, hfunction, args, hargs, h⟩ := h
    rw [← apply_ite (Option.bind · _), Option.bind_eq_some_iff] at h
    obtain ⟨name, hname, h⟩ := h
    split at h
    case isTrue => cases h
    case isFalse hmethod =>
      simp only [Bool.or_eq_true, beq_iff_eq, not_or] at hmethod
      exact ⟨hkind, ⟨args, hargs⟩, function, name, _, hfunction, calls_of_eq hname,
        namesMethod_methodAndTypes source name, hmethod⟩
  · rintro ⟨-, ⟨args, hargs⟩, function, name, method, hfunction, hcalls, hnames, hempty, hnameof⟩
    cases hnames.eq_methodAndTypes source
    simp only [ofTree?, Option.bind_eq_bind, hfunction, hargs, Option.bind_some]
    rcases hcalls with ⟨hmember, hwritten⟩ | hplain
    · simp [hmember, hwritten, hempty, hnameof]
    · simp [hplain, hempty, hnameof]

end Invocation

namespace Method

/-! ## Local functions -/

/-- The local function returns nothing, and one of the modifiers in front of what it returns is
`async`. -/
def IsAsyncVoid (source : List Char) (f : Tree) : Prop :=
  ∃ returns, (f.childByField? "type" <|> f.childByField? "returns") = some returns ∧
    returns.trimmedText source = "void" ∧
    ∃ front, front <+: f.children ∧ (∀ c ∈ front, c.start < returns.start) ∧
      ∃ modifier ∈ front, (modifier.kind = "modifier" ∨ modifier.kind ∈ modifierKeywords) ∧
        modifier.trimmedText source = "async"

/-- The nearest local function around the node at the address. -/
def nearestLocal? (body : Tree) (address : List Nat) : Option Tree :=
  (body.above address).find? (·.kind == "local_function_statement")

theorem has_ofTree_iff {source : List Char} {t : Tree} {boundary : Nat} {keyword : String} :
    (Modifiers.ofTree source t boundary).has keyword = true ↔
      ∃ front, front <+: t.children ∧ (∀ c ∈ front, c.start < boundary) ∧
        ∃ modifier ∈ front, (modifier.kind = "modifier" ∨ modifier.kind ∈ modifierKeywords) ∧
          modifier.trimmedText source = keyword := by
  simp only [Modifiers.has, Modifiers.ofTree, List.any_map, List.any_filter, List.any_eq_true,
    Function.comp_apply, Bool.and_eq_true, Bool.or_eq_true, beq_iff_eq, List.contains_iff_mem]
  constructor
  · rintro ⟨modifier, hmodifier, hkind, htext⟩
    refine ⟨_, List.takeWhile_prefix _, fun c hc => ?_, modifier, hmodifier, hkind, htext⟩
    simpa using List.mem_takeWhile_imp hc
  · rintro ⟨front, ⟨rest, hrest⟩, hbefore, modifier, hmodifier, hkind, htext⟩
    refine ⟨modifier, ?_, hkind, htext⟩
    rw [← hrest, List.takeWhile_append_of_pos (by simpa using hbefore)]
    exact List.mem_append_left _ hmodifier

variable {source : List Char}

/-- A local function decides for all that stands in it. -/
theorem inAsyncVoidBelow_of_local {outside : Bool} {f : Tree}
    (hkind : f.kind = "local_function_statement") :
    inAsyncVoidBelow source outside f = true ↔ IsAsyncVoid source f := by
  rw [inAsyncVoidBelow, if_pos (beq_iff_eq.2 hkind)]
  dsimp only
  rw [IsAsyncVoid]
  cases f.childByField? "type" <|> f.childByField? "returns" with
  | none => simp
  | some returns =>
    simp only [Option.map_some, Option.getD_some, Bool.and_eq_true, beq_iff_eq, has_ofTree_iff,
      Option.some.injEq, exists_eq_left']
    exact and_comm

theorem inAsyncVoidBelow_of_not_local {outside : Bool} {t : Tree}
    (hkind : t.kind ≠ "local_function_statement") : inAsyncVoidBelow source outside t = outside :=
  if_neg (by simpa using hkind)

/-! ## The walk -/

variable (source)

/-- The mark of what stands at an address. -/
def insideAt (outside : Bool) (t : Tree) (address : List Nat) : Bool :=
  (nearestLocal? t address).elim outside (inAsyncVoidBelow source false)

/-- The call at an address. -/
def callAt? (outside : Bool) (t : Tree) (address : List Nat) : Option Invocation :=
  (t.at? address).bind fun n =>
    if n.kind == "invocation_expression" then
      (Invocation.ofTree? source n).map fun read =>
        { read with inAsyncVoidLocal := insideAt source outside t address }
    else
      none

theorem insideAt_cons {outside : Bool} {t child : Tree} {place : Nat}
    (h : t.children[place]? = some child) (address : List Nat) :
    insideAt source outside t (place :: address) =
      insideAt source (inAsyncVoidBelow source outside t) child address := by
  rw [insideAt, insideAt, nearestLocal?, Tree.above_cons h, List.find?_append]
  change (Option.or (nearestLocal? child address) _).elim _ _ = _
  cases nearestLocal? child address with
  | some f => rfl
  | none =>
    -- The root itself is the nearest local function now, or what stands outside still counts.
    by_cases hkind : t.kind = "local_function_statement"
    · rw [Option.none_or, List.find?_singleton, if_pos (beq_iff_eq.2 hkind), Option.elim_some,
        Option.elim_none, Bool.eq_iff_iff, inAsyncVoidBelow_of_local hkind,
        inAsyncVoidBelow_of_local hkind]
    · rw [Option.none_or, List.find?_singleton, if_neg (by simpa using hkind), Option.elim_none,
        Option.elim_none, inAsyncVoidBelow_of_not_local hkind]

theorem callAt?_nil (outside : Bool) (t : Tree) :
    (callAt? source outside t []).toList =
      invocationAt source (inAsyncVoidBelow source outside t) t := by
  rw [callAt?, Tree.at?_nil, Option.bind_some, invocationAt]
  by_cases hkind : t.kind = "invocation_expression"
  · have hlocal : t.kind ≠ "local_function_statement" := by
      rw [hkind]
      decide
    rw [if_pos (beq_iff_eq.2 hkind), if_pos (beq_iff_eq.2 hkind),
      inAsyncVoidBelow_of_not_local hlocal]
    rfl
  · rw [if_neg (by simpa using hkind), if_neg (by simpa using hkind)]
    rfl

theorem callAt?_cons {outside : Bool} {t child : Tree} {place : Nat}
    (h : t.children[place]? = some child) (address : List Nat) :
    callAt? source outside t (place :: address) =
      callAt? source (inAsyncVoidBelow source outside t) child address := by
  rw [callAt?, callAt?, insideAt_cons source h, Tree.at?, h, Option.bind_some]

theorem invocationsAmong_eq_flatMap (inside : Bool) (place : Nat) (ts : List Tree) :
    invocationsAmong source inside ts = (ts.zipIdx place).flatMap fun (child, _) =>
      if child.isCode then invocationsIn source inside child else [] := by
  induction ts generalizing place with
  | nil => rfl
  | cons child rest ih => rw [invocationsAmong, ih, List.zipIdx_cons, List.flatMap_cons]

/-- The walk goes through the addresses of the code. -/
theorem invocationsIn_eq (outside : Bool) (t : Tree) :
    invocationsIn source outside t = t.codeAddresses.filterMap (callAt? source outside t) := by
  induction t using Tree.induction_on generalizing outside with
  | node info children ih =>
    -- The mark below the node is the one that the walk carries on to each child.
    have hbelow : ∀ entry ∈ children.zipIdx,
        (if entry.1.isCode = true then
            invocationsIn source (inAsyncVoidBelow source outside (.node info children)) entry.1
          else []) =
          (if entry.1.isCode = true then entry.1.codeAddresses.map (entry.2 :: ·)
            else []).filterMap (callAt? source outside (.node info children)) := by
      rintro ⟨child, place⟩ hmem
      have hchild := List.mem_zipIdx_iff_getElem?.1 hmem
      split
      case isFalse => rfl
      case isTrue =>
        rw [ih child (List.mem_of_getElem? hchild), List.filterMap_map]
        exact List.filterMap_congr fun address _ => (callAt?_cons source hchild address).symm
    rw [invocationsIn, ← callAt?_nil, invocationsAmong_eq_flatMap source _ 0,
      List.flatMap_congr hbelow, Tree.codeAddresses_eq]
    cases hhere : callAt? source outside (.node info children) [] with
    | none =>
      rw [List.filterMap_cons_none hhere, List.filterMap_flatMap]
      rfl
    | some call =>
      rw [List.filterMap_cons_some hhere, List.filterMap_flatMap]
      rfl

theorem insideAt_iff {t : Tree} {address : List Nat} : insideAt source false t address = true ↔
    ∃ f, nearestLocal? t address = some f ∧ IsAsyncVoid source f := by
  rw [insideAt]
  cases hnearest : nearestLocal? t address with
  | none => simp
  | some f =>
    have hkind := List.find?_some hnearest
    rw [Option.elim_some, inAsyncVoidBelow_of_local (beq_iff_eq.1 hkind)]
    simp only [Option.some.injEq, exists_eq_left']

theorem isSome_callAt?_iff {outside : Bool} {t n : Tree} {address : List Nat}
    (hn : t.at? address = some n) :
    (callAt? source outside t address).isSome = true ↔ Invocation.IsCall source n := by
  rw [callAt?, hn, Option.bind_some]
  by_cases hkind : n.kind = "invocation_expression"
  · rw [if_pos (beq_iff_eq.2 hkind), Option.isSome_map, Invocation.isSome_ofTree?_iff hkind]
  · rw [if_neg (by simpa using hkind)]
    exact ⟨nofun, fun h => absurd h.kind_eq hkind⟩

/-- The call is read off the node at the address, and marked if the nearest local function around
this node is `async void`. -/
def StandsAt (body : Tree) (address : List Nat) (call : Invocation) : Prop :=
  ∃ n read, body.at? address = some n ∧ Invocation.ofTree? source n = some read ∧
    call = { read with inAsyncVoidLocal := call.inAsyncVoidLocal } ∧
    (call.inAsyncVoidLocal = true ↔
      ∃ f, nearestLocal? body address = some f ∧ IsAsyncVoid source f)

theorem standsAt_of_callAt? {body : Tree} {address : List Nat} {call : Invocation}
    (h : callAt? source false body address = some call) : StandsAt source body address call := by
  obtain ⟨n, hn, h⟩ := Option.bind_eq_some_iff.1 h
  split at h
  case isFalse => cases h
  case isTrue =>
    obtain ⟨read, hread, rfl⟩ := Option.map_eq_some_iff.1 h
    exact ⟨n, read, hn, hread, rfl, insideAt_iff source⟩

/-- The calls of a body are, in pre-order, just the ones that are written in its code, each of
them marked if the nearest local function around it is `async void`. -/
theorem invocations_exact (source : List Char) (body : Tree) :
    (∃ addresses : List (List Nat), addresses.Pairwise (· < ·) ∧
      (∀ address, address ∈ addresses ↔
        ∃ n, body.CodeAt address n ∧ Invocation.IsCall source n) ∧
      List.Forall₂ (StandsAt source body) addresses (invocationsIn source false body)) ∧
    ∀ file t m, ofTree? file source t = some m → body? t = some body →
      m.invocations = invocationsIn source false body := by
  refine ⟨⟨body.codeAddresses.filter fun address => (callAt? source false body address).isSome,
    body.pairwise_codeAddresses.filter _, fun address => ?_, ?_⟩, fun file t m hm hbody => ?_⟩
  · rw [List.mem_filter, Tree.mem_codeAddresses_iff]
    constructor
    · rintro ⟨⟨n, hn⟩, hcall⟩
      exact ⟨n, hn, (isSome_callAt?_iff source hn.at?_eq).1 hcall⟩
    · rintro ⟨n, hn, hcall⟩
      exact ⟨⟨n, hn⟩, (isSome_callAt?_iff source hn.at?_eq).2 hcall⟩
  · rw [invocationsIn_eq]
    refine (forall₂_filterMap (callAt? source false body) body.codeAddresses).imp ?_
    exact fun address call h => standsAt_of_callAt? source h
  · simp only [ofTree?, Option.bind_eq_bind, Option.bind_eq_some_iff] at hm
    obtain ⟨name, -, hm⟩ := hm
    cases hm
    dsimp only
    rw [hbody, Option.map_some, Option.getD_some]

/-- A call without receiver; its function is named by one letter. -/
def letterCall (start stop : Nat) (arguments : List Tree) : Tree :=
  .node ⟨"invocation_expression", none, true, false, start, stop⟩
    [.node ⟨"identifier", some "function", true, false, start, start + 1⟩ [],
     .node ⟨"argument_list", some "arguments", true, false, start + 1, stop⟩ arguments]

def nestedLocalsBody : Tree :=
  let calling (start stop : Nat) (call : Tree) : Tree :=
    .node ⟨"expression_statement", none, true, false, start, stop⟩ [call]
  let argument : Tree := .node ⟨"argument", none, true, false, 40, 43⟩ [letterCall 40 43 []]
  let inner : Tree := .node ⟨"local_function_statement", none, true, false, 24, 38⟩
    [.node ⟨"predefined_type", some "type", true, false, 24, 28⟩ [],
     .node ⟨"identifier", some "name", true, false, 29, 30⟩ [],
     .node ⟨"block", some "body", true, false, 32, 38⟩ [calling 33 37 (letterCall 33 36 [])]]
  .node ⟨"block", some "body", true, false, 8, 51⟩
    [.node ⟨"local_function_statement", none, true, false, 9, 46⟩
      [.node ⟨"modifier", none, true, false, 9, 14⟩ [],
       .node ⟨"predefined_type", some "type", true, false, 15, 19⟩ [],
       .node ⟨"identifier", some "name", true, false, 20, 21⟩ [],
       .node ⟨"block", some "body", true, false, 23, 46⟩
        [inner, calling 38 45 (letterCall 38 44 [argument])]],
     calling 46 50 (letterCall 46 49 [])]

/-- A method with a local function in a local function, of which only the outer one is
`async void`. -/
def nestedLocals : Tree :=
  .node ⟨"method_declaration", none, true, false, 0, 51⟩
    [.node ⟨"predefined_type", some "returns", true, false, 0, 4⟩ [],
     .node ⟨"identifier", some "name", true, false, 5, 6⟩ [],
     nestedLocalsBody]

def nestedLocalsSource : List Char :=
  "void M()\x7basync void A()\x7bvoid B()\x7bF();\x7dG(K());\x7dH();\x7d".toList

/-- The call of `F` stands in the inner function, which is not `async`. -/
theorem invocations_exact_nestedLocals :
    ∃ m, ofTree? 0 nestedLocalsSource nestedLocals = some m ∧
      m.invocations.map (fun call => (call.method, call.inAsyncVoidLocal)) =
        [("F", false), ("G", true), ("K", true), ("H", false)] ∧
      ∃ addresses : List (List Nat), [0, 3, 0, 2, 0, 0] ∈ addresses ∧
        List.Forall₂ (StandsAt nestedLocalsSource nestedLocalsBody) addresses m.invocations := by
  obtain ⟨⟨addresses, -, hmem, hcalls⟩, hmethod⟩ :=
    invocations_exact nestedLocalsSource nestedLocalsBody
  obtain ⟨m, hm⟩ := Option.isSome_iff_exists.1
    (by decide +kernel : (ofTree? 0 nestedLocalsSource nestedLocals).isSome = true)
  have hinvocations := hmethod 0 nestedLocals m hm rfl
  refine ⟨m, hm, ?_, addresses, (hmem _).2 ?_, hinvocations ▸ hcalls⟩
  · rw [hinvocations]
    decide +kernel
  · obtain ⟨n, hn⟩ := Tree.mem_codeAddresses_iff.1
      (by decide : [0, 3, 0, 2, 0, 0] ∈ nestedLocalsBody.codeAddresses)
    cases (hn.at?_eq.symm.trans rfl : some n = some (letterCall 33 36 []))
    exact ⟨_, hn, rfl, ⟨_, rfl⟩, _, _, _, rfl, .plain (by decide), .plain (by decide),
      by decide +kernel, by decide +kernel⟩

end Method

end TestLint
