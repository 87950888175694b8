import TestLint.Check.CancellationToken
import TestLint.Proofs.Declaration.Places

/-!
# Where the token is written

The fix of a call that can be cancelled writes the token one column before the end of the
arguments.  This is a place of the source exactly if the arguments end with a character of one
byte on its line (`Edit.apply_insert_before_iff`), whatever that character is.

Where the closing parenthesis is there, it is this character, and the token is written in front
of it and behind all arguments.  Where it is missing, the character can belong to the last
argument, which is then split; an argument is left as it is exactly if it ends before the
arguments do (`Check.flowToken_passed`).
-/

namespace TestLint

open Text

variable {source : List Char} {stop : Nat}

/-! ## One column before a boundary -/

/-- The text up to a boundary ends with a character of one byte, which is no newline. -/
structure LastByte (source : List Char) (stop : Nat) (init : List Char) (c : Char)
    (after : List Char) : Prop where
  source_eq : init ++ [c] ++ after = source
  stop_eq : byteSize (init ++ [c]) = stop
  single : c.utf8Size = 1
  inLine : c ≠ '\n'

namespace Position

/-- The position one column before that of a boundary. -/
def before (source : List Char) (stop : Nat) : Position :=
  ⟨(ofOffset stop source).line, (ofOffset stop source).column - 1⟩

theorem before_eq {init after : List Char} {c : Char} (h : LastByte source stop init c after) :
    before source stop = ofOffset (byteSize init) source := by
  obtain ⟨rfl, rfl, hsingle, hline⟩ := h
  have hsize : byteSize [c] = 1 := by simp [hsingle]
  rw [before, ofOffset_append after (by simpa using hline.symm), hsize]
  rfl

/-- It locates nothing but the byte before the boundary. -/
theorem succ_eq_of_locates (hstop : isBoundary stop source = true) {n : Nat}
    (h : (before source stop).Locates source n) : n + 1 = stop := by
  obtain ⟨-, hcolumn, rows, rest, hparts, hrows, hcount, hoffset, -, -⟩ := h
  obtain ⟨-, -, rows', rest', hparts', hrows', hcount', hoffset', -, -⟩ :=
    locates_iff.2 ⟨hstop, rfl⟩
  obtain ⟨rfl, -⟩ := wholeRows_unique (hparts.trans hparts'.symm) hrows hrows'
    (hcount.trans hcount'.symm)
  simp only [before] at hcolumn hoffset
  omega

theorem exists_lastByte_of_locates (hstop : isBoundary stop source = true) {n : Nat}
    (h : (before source stop).Locates source n) :
    ∃ init c after, LastByte source stop init c after ∧ byteSize init = n := by
  have hn := succ_eq_of_locates hstop h
  obtain ⟨init, m, after, hsource, hinit, hm⟩ :=
    exists_parts_of_isBoundary h.isBoundary hstop (by omega)
  rw [byteSize_append, hinit] at hm
  cases m with
  | nil =>
    rw [byteSize_nil] at hm
    omega
  | cons c m =>
    have hc : 0 < c.utf8Size := c.utf8Size_pos
    rw [byteSize_cons] at hm
    obtain rfl : m = [] := byteSize_eq_zero_iff.1 (by omega)
    have hstopEq : byteSize (init ++ [c]) = stop := by
      rw [byteSize_append, byteSize_cons]
      omega
    refine ⟨init, c, after, ⟨hsource, hstopEq, ?_, ?_⟩, hinit⟩
    · rw [byteSize_nil] at hm
      omega
    · -- otherwise the boundary begins a line, and there is no column before it
      rintro rfl
      obtain ⟨-, hcolumn, -⟩ := h
      have hrows : WholeRows (init ++ ['\n']) := by
        intro c hc
        rw [List.getLast?_concat, Option.mem_some_iff] at hc
        exact hc.symm
      have hline : '\n' ∉ ([] : List Char) := List.not_mem_nil
      have hposition := ofOffset_rows after hrows hline
      rw [List.append_nil, hstopEq, hsource] at hposition
      rw [before, hposition, byteSize_nil] at hcolumn
      exact absurd hcolumn (Nat.lt_irrefl 0)

end Position

namespace Edit

variable (hsize : byteSize source < Position.wordSize) {text : String}

include hsize in
theorem apply_insert_before {init after : List Char} {c : Char}
    (h : LastByte source stop init c after) :
    apply (String.ofList source) [.insert (Position.before source stop).line
        (Position.before source stop).column text] =
      .ok (String.ofList (init ++ text.toList ++ ([c] ++ after))) := by
  rw [Position.before_eq h]
  obtain ⟨rfl, -, -, -⟩ := h
  rw [List.append_assoc] at hsize ⊢
  have hcovers := Location.covers_between init [] ([c] ++ after)
  rw [List.append_nil] at hcovers
  exact apply_insert_between hsize hcovers rfl text

include hsize in
/-- What is written one column before a boundary. -/
theorem apply_insert_before_iff (hstop : isBoundary stop source = true) {out : String} :
    apply (String.ofList source) [.insert (Position.before source stop).line
        (Position.before source stop).column text] = .ok out ↔
      ∃ init c after, LastByte source stop init c after ∧
        out = String.ofList (init ++ text.toList ++ ([c] ++ after)) := by
  constructor
  · intro h
    obtain ⟨splices, hresolution, -, -⟩ := apply_eq_ok_iff.1 h
    rw [String.toList_ofList] at hresolution
    cases hresolution with
    | cons hresolves _ =>
      obtain ⟨init, c, after, hlast, -⟩ :=
        Position.exists_lastByte_of_locates hstop hresolves.start
      rw [apply_insert_before hsize hlast] at h
      exact ⟨init, c, after, hlast, (Except.ok.inj h).symm⟩
  · rintro ⟨init, c, after, hlast, rfl⟩
    exact apply_insert_before hsize hlast

end Edit

/-! ## The list of arguments -/

/-- What stands before the place of an insertion has the text that it had. -/
theorem Tree.InPlace.text_eq {t : Tree} (h : t.InPlace source) {init rest : List Char}
    (hsource : init ++ rest = source) (hstop : t.stop ≤ byteSize init) (rest' : List Char) :
    t.text (init ++ rest') = t.text source := by
  obtain ⟨hforward, hstart, hstopBoundary⟩ := h.fits
  obtain ⟨a, b, c, hparts, ha, hab⟩ := exists_parts_of_isBoundary hstart hstopBoundary hforward
  change byteSize a = t.start at ha
  change byteSize (a ++ b) = t.stop at hab
  obtain ⟨m, rfl⟩ := exists_append_of_byteSize_le (hparts.trans hsource.symm) (hab ▸ hstop)
  have hslice (rest : List Char) : Text.slice? t.start t.stop (a ++ b ++ m ++ rest) = some b := by
    rw [List.append_assoc, ← ha, ← hab, slice?_parts]
  rw [Tree.text, Tree.text, ← hsource, hslice, hslice]

/-- The node is the list of the call's arguments. -/
structure Invocation.ListedIn (source : List Char) (call : Invocation) (args : Tree) : Prop where
  place : call.argumentsLocation = args.location source
  arguments_eq : call.arguments =
    (args.codeChildren.filter (·.kind == "argument")).map (Argument.ofTree source)

/-- Where the parts of a list are when a text has been written after `init`. -/
structure Tree.Passed (source out : List Char) (args : Tree) (init : List Char) : Prop where
  /-- What ends before the list does is in front of the text and as it was; nothing else is. -/
  behind_iff : ∀ child ∈ args.children, child.stop < args.stop ↔
    child.stop ≤ byteSize init ∧ child.text out = child.text source
  /-- What begins with the last byte, as a closing parenthesis does, or after it, as a missing
  one, comes after the text; nothing else does. -/
  ahead_iff : ∀ child ∈ args.children, args.stop ≤ child.start + 1 ↔ byteSize init ≤ child.start

theorem LastByte.passed {args : Tree} {init after : List Char} {c : Char}
    (h : LastByte source args.stop init c after) (hargs : args.Nested source) (text : List Char) :
    args.Passed source (init ++ text ++ ([c] ++ after)) init := by
  obtain ⟨hsource, hstop, hsingle, -⟩ := h
  have hstop : byteSize init + 1 = args.stop := by
    rw [← hstop, byteSize_append, byteSize_cons, byteSize_nil, hsingle]
  rw [List.append_assoc] at hsource
  refine ⟨fun child hchild => ?_, fun child hchild => by omega⟩
  constructor
  · intro hbefore
    have hbehind : child.stop ≤ byteSize init := by omega
    rw [List.append_assoc init]
    exact ⟨hbehind, (hargs child (.of_mem hchild)).text_eq hsource hbehind _⟩
  · rintro ⟨hbehind, -⟩
    omega

/-- A list that is closed ends with its closing parenthesis. -/
theorem exists_lastByte_of_closed {args : Tree} (hargs : args.Nested source)
    (hclosed : (args.text source).toList.getLast? = some ')') :
    ∃ init after, LastByte source args.stop init ')' after := by
  obtain ⟨before, text, after, hsource, -, hstop, htext⟩ := hargs.parts (.self args)
  rw [htext, String.toList_ofList, List.getLast?_eq_some_iff] at hclosed
  obtain ⟨init, rfl⟩ := hclosed
  refine ⟨before ++ init, after, ?_, ?_, by decide, by decide⟩
  · rw [List.append_assoc before, hsource]
  · rw [List.append_assoc, hstop]

/-! ## The fix -/

namespace Check

/-- What is written for the token of a context. -/
def tokenText (call : Invocation) (context : String) : String :=
  (if call.arguments.isEmpty then "" else ", ") ++ (context ++ "." ++ tokenType)

theorem exists_call_of_mem_flowToken {ctx : CheckedFile} {finding : Finding}
    (hfinding : finding ∈ flowTestContextCancellationToken ctx) {fix : Fix}
    (hfix : finding.fix = some fix) :
    ∃ t ∈ ctx.types, ∃ m ∈ t.methods, ∃ call ∈ m.invocations, finding.location = call.location ∧
      ∃ context, contextExpression? ctx t m = some context ∧
        tokenFix? call context = some fix := by
  obtain ⟨t, ht, hfinding⟩ := List.mem_flatMap.1 hfinding
  obtain ⟨m, hm, hfinding⟩ := List.mem_flatMap.1 hfinding
  have hm : m ∈ t.methods := (List.mem_filter.1 hm).1
  cases hcontext : contextExpression? ctx t m with
  | none =>
    rw [hcontext] at hfinding
    cases hfinding
  | some context =>
    rw [hcontext] at hfinding
    obtain ⟨call, hcall, rfl⟩ := List.mem_map.1 hfinding
    have hcall : call ∈ m.invocations := (List.mem_filter.1 hcall).1
    cases htoken : tokenFix? call context with
    | none =>
      rw [htoken] at hfix
      cases hfix
    | some fix' =>
      rw [htoken] at hfix
      cases hfix
      exact ⟨t, ht, m, hm, call, hcall, rfl, context, hcontext, htoken⟩

theorem tokenFix?_edits {call : Invocation} {args : Tree} (hlisted : call.ListedIn source args)
    {context : String} {fix : Fix} (h : tokenFix? call context = some fix) :
    fix.edits = [.insert (Position.before source args.stop).line
      (Position.before source args.stop).column (tokenText call context)] := by
  simp only [tokenFix?, hlisted.place, Tree.location, Location.ofOffsets, Location.between,
    Option.bind_eq_bind, Option.bind_some] at h
  split at h
  case isTrue => cases h
  case isFalse =>
    cases h
    rfl

/-- Every fix writes the token one byte before the end of the arguments of a call, if a
character of the line ends there. -/
theorem flowToken_passed {parse : Parser} {sources : List (Path × String)}
    {project : ProjectFacts} {framework : Framework} {file : SourceFile}
    (hfile : file ∈ (Compilation.ofSources parse sources project).files)
    (hsize : byteSize file.source < Position.wordSize) (hnested : file.tree.Nested file.source)
    {finding : Finding}
    (hfinding : finding ∈ flowTestContextCancellationToken
      ⟨Compilation.ofSources parse sources project, framework, file⟩)
    {fix : Fix} (hfix : finding.fix = some fix) :
    let ctx : CheckedFile := ⟨Compilation.ofSources parse sources project, framework, file⟩
    ∃ t ∈ ctx.types, ∃ m ∈ t.methods, ∃ call ∈ m.invocations, finding.location = call.location ∧
      ∃ context, contextExpression? ctx t m = some context ∧
        ∃ args, file.tree.Holds args ∧ call.ListedIn file.source args ∧
          (∀ out, Edit.apply (String.ofList file.source) fix.edits = .ok out ↔
            ∃ init c after, LastByte file.source args.stop init c after ∧
              out = String.ofList (init ++ (tokenText call context).toList ++ ([c] ++ after))) ∧
          (∀ init c after, LastByte file.source args.stop init c after →
            args.Passed file.source (init ++ (tokenText call context).toList ++ ([c] ++ after))
              init) ∧
          ((args.text file.source).toList.getLast? = some ')' →
            ∃ init after, LastByte file.source args.stop init ')' after) := by
  intro ctx
  obtain ⟨t, ht, m, hm, call, hcall, hlocation, context, hcontext, htoken⟩ :=
    exists_call_of_mem_flowToken hfinding hfix
  obtain ⟨args, hargs, hlisted⟩ : ∃ args, file.tree.Holds args ∧
      call.ListedIn file.source args := by
    obtain ⟨⟨⟨path, text⟩, id⟩, -, rfl⟩ := List.mem_map.1 hfile
    obtain ⟨n, hn, hread⟩ := FileDeclarations.exists_method_node ht hm
    obtain ⟨n', hn', -, read, inside, hread, rfl⟩ := Method.exists_call_node hread hcall
    obtain ⟨-, args, -, -, hargs, -, -, -, -, hplace, harguments⟩ := Invocation.exists_nodes hread
    have hholds : n'.Holds args := .of_mem (Tree.mem_of_childByField? hargs).1
    exact ⟨args, (hn.trans hn').trans hholds, hplace, harguments⟩
  have hinPlace := hnested.of_holds hargs
  refine ⟨t, ht, m, hm, call, hcall, hlocation, context, hcontext, args, hargs, hlisted, ?_, ?_,
    exists_lastByte_of_closed hinPlace⟩
  · intro out
    rw [tokenFix?_edits hlisted htoken]
    exact Edit.apply_insert_before_iff hsize hinPlace.inPlace.fits.2.2
  · intro init c after hlast
    exact hlast.passed hinPlace _

/-- A test that gets a context and calls `Task.Delay` with a list of arguments. -/
def delayTree (args : List Tree) (stop : Nat) : Tree :=
  .node ⟨"compilation_unit", none, true, false, 0, stop + 3⟩
    [.node ⟨"class_declaration", none, true, false, 0, stop + 3⟩
      [.node ⟨"identifier", some "name", true, false, 6, 7⟩ [],
       .node ⟨"declaration_list", some "body", true, false, 7, stop + 3⟩
        [.node ⟨"method_declaration", none, true, false, 8, stop + 2⟩
          [.node ⟨"attribute_list", none, true, false, 8, 20⟩
            [.node ⟨"attribute", none, true, false, 9, 19⟩
              [.node ⟨"identifier", some "name", true, false, 9, 19⟩ []]],
           .node ⟨"predefined_type", some "returns", true, false, 20, 24⟩ [],
           .node ⟨"identifier", some "name", true, false, 25, 26⟩ [],
           .node ⟨"parameter_list", some "parameters", true, false, 26, 41⟩
            [.node ⟨"parameter", none, true, false, 27, 40⟩
              [.node ⟨"identifier", some "type", true, false, 27, 38⟩ [],
               .node ⟨"identifier", some "name", true, false, 39, 40⟩ []]],
           .node ⟨"block", some "body", true, false, 41, stop + 2⟩
            [.node ⟨"expression_statement", none, true, false, 42, stop + 1⟩
              [.node ⟨"invocation_expression", none, true, false, 42, stop⟩
                [.node ⟨"member_access_expression", some "function", true, false, 42, 52⟩
                  [.node ⟨"identifier", some "expression", true, false, 42, 46⟩ [],
                   .node ⟨"identifier", some "name", true, false, 47, 52⟩ []],
                 .node ⟨"argument_list", some "arguments", true, false, 52, stop⟩ args]]]]]]]

/-- The source of the test as the one file of a compilation that refers to the framework. -/
def delayContext (written : String) (args : List Tree) (stop : Nat) : CheckedFile :=
  let parse : Parser := fun _ => delayTree args stop
  let path : Path := ⟨"T.cs"⟩
  let source :=
    "class T\x7b[TestMethod]void M(TestContext c)\x7bTask.Delay" ++ written ++ "\x7d\x7d"
  ⟨.ofSources parse [(path, source)] .empty, ⟨true⟩, .read parse 0 path source⟩

/-- What is found at the call, the arguments of which end before this column. -/
def delayFinding (column : Nat) : Finding :=
  Finding.new ⟨1, 43, some 1, some column, none⟩
      "Pass 'c.CancellationToken' to 'Delay' so the call observes test cancellation"
    |>.withFix ⟨"Pass 'c.CancellationToken'",
      [.insert 1 (column - 1) ", c.CancellationToken"]⟩

theorem flowToken_passed_closed :
    let ctx := delayContext "(x);" [.node ⟨"(", none, false, false, 52, 53⟩ [],
      .node ⟨"argument", none, true, false, 53, 54⟩
        [.node ⟨"identifier", none, true, false, 53, 54⟩ []],
      .node ⟨")", none, false, false, 54, 55⟩ []] 55
    delayFinding 56 ∈ flowTestContextCancellationToken ctx ∧
      ∃ (args : Tree) (fix : Fix) (init text after : List Char), (delayFinding 56).fix = some fix ∧
        LastByte ctx.file.source args.stop init ')' after ∧
        Edit.apply (String.ofList ctx.file.source) fix.edits =
          .ok (String.ofList (init ++ text ++ ([')'] ++ after))) ∧
        args.Passed ctx.file.source (init ++ text ++ ([')'] ++ after)) init := by
  intro ctx
  have hfinding : delayFinding 56 ∈ flowTestContextCancellationToken ctx := by
    decide +kernel
  have hsize : byteSize ctx.file.source < Position.wordSize := by decide +kernel
  have hnested : ctx.file.tree.Nested ctx.file.source := by decide +kernel
  obtain ⟨t, ht, m, hm, call, hcall, -, context, -, args, hargs, hlisted, happly, hpassed,
    hclosed⟩ := flowToken_passed (List.mem_singleton.2 rfl) hsize hnested hfinding rfl
  -- the one call has its arguments at a place where only a closed list stands
  have hplace : ∀ t ∈ ctx.types, ∀ m ∈ t.methods, ∀ call ∈ m.invocations,
      call.argumentsLocation = ⟨1, 53, some 1, some 56, none⟩ := by decide +kernel
  have hlists : ctx.file.tree.all (fun n =>
      n.location ctx.file.source ≠ ⟨1, 53, some 1, some 56, none⟩ ||
        (n.text ctx.file.source).toList.getLast? == some ')') = true := by decide +kernel
  have hlist := (Tree.all_iff _ _).1 hlists args hargs
  rw [← hlisted.place, hplace t ht m hm call hcall] at hlist
  obtain ⟨init, after, hlast⟩ := hclosed (by simpa using hlist)
  exact ⟨hfinding, args, _, init, _, after, rfl, hlast, (happly _).2 ⟨init, ')', after, hlast, rfl⟩,
    hpassed init ')' after hlast⟩

/-- Where the closing parenthesis is missing, the token is written into the last argument. -/
theorem token_splits_argument :
    let ctx := delayContext "(F(x);" [.node ⟨"(", none, false, false, 52, 53⟩ [],
      .node ⟨"argument", none, true, false, 53, 57⟩
        [.node ⟨"invocation_expression", none, true, false, 53, 57⟩
          [.node ⟨"identifier", some "function", true, false, 53, 54⟩ [],
           .node ⟨"argument_list", some "arguments", true, false, 54, 57⟩
            [.node ⟨"(", none, false, false, 54, 55⟩ [],
             .node ⟨"argument", none, true, false, 55, 56⟩
              [.node ⟨"identifier", none, true, false, 55, 56⟩ []],
             .node ⟨")", none, false, false, 56, 57⟩ []]]],
      .node ⟨")", none, false, true, 57, 57⟩ []] 57
    flowTestContextCancellationToken ctx = [delayFinding 58] ∧
      Edit.apply (String.ofList ctx.file.source) [.insert 1 57 ", c.CancellationToken"] =
        .ok ("class T\x7b[TestMethod]void M(TestContext c)\x7b" ++
          "Task.Delay(F(x, c.CancellationToken);\x7d\x7d") := by
  intro ctx
  exact ⟨by decide +kernel, by decide +kernel⟩

end Check

end TestLint
