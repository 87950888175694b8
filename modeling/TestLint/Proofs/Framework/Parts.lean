import TestLint.Proofs.Declaration.Outline
import TestLint.Proofs.Framework.Reach
import TestLint.Proofs.SortedNames

/-!
# Classes with several parts

All bases of a class are read in the file of its first part.  So a base that another
part writes may be lost, or found, depending on the order of the files: a class is bound
as if it were whole only where its parts agree on what is in scope
(`Framework.bind?_parts`).
-/

namespace TestLint

open TypeDeclaration (Outline outline)

namespace Framework

variable (f : Framework)

/-- What a declaration says to those who look for names: its outline, and whether names
of the framework can be written in its file. -/
def reading (c : Compilation) (t : TypeDeclaration) : Outline × Bool :=
  (t.outline, f.inScope (c.fileOf t))

/-- The types of the one compilation say the same as those of the other. -/
def SameReadings (c c' : Compilation) (ts ts' : List TypeDeclaration) : Prop :=
  ∀ r, r ∈ ts.map (f.reading c) ↔ r ∈ ts'.map (f.reading c')

variable {f} {c c' : Compilation} {ts ts' : List TypeDeclaration}

namespace SameReadings

theorem refl (ts : List TypeDeclaration) : f.SameReadings c c ts ts :=
  fun _ => Iff.rfl

theorem symm (h : f.SameReadings c c' ts ts') : f.SameReadings c' c ts' ts :=
  fun r => (h r).symm

theorem exists_mem (h : f.SameReadings c c' ts ts') {t : TypeDeclaration} (ht : t ∈ ts) :
    ∃ t' ∈ ts', t'.outline = t.outline ∧ f.inScope (c'.fileOf t') = f.inScope (c.fileOf t) := by
  obtain ⟨t', ht', heq⟩ := List.mem_map.1 ((h _).1 (List.mem_map_of_mem ht))
  exact ⟨t', ht', congrArg Prod.fst heq, congrArg Prod.snd heq⟩

theorem isEmpty_eq (h : f.SameReadings c c' ts ts') : ts.isEmpty = ts'.isEmpty := by
  have hnone {c c' : Compilation} {ts ts' : List TypeDeclaration}
      (h : f.SameReadings c c' ts ts') (hempty : ts = []) : ts' = [] := by
    refine List.eq_nil_iff_forall_not_mem.2 fun t' ht' => ?_
    obtain ⟨t, ht, -⟩ := h.symm.exists_mem ht'
    rw [hempty] at ht
    cases ht
  rw [Bool.eq_iff_iff, List.isEmpty_iff, List.isEmpty_iff]
  exact ⟨hnone h, hnone h.symm⟩

/-- The same can be asked of outlines. -/
theorem any_eq (h : f.SameReadings c c' ts ts') {p : TypeDeclaration → Bool}
    (hp : ∀ t t', t.outline = t'.outline → p t = p t') : ts.any p = ts'.any p := by
  have hany {c c' : Compilation} {ts ts' : List TypeDeclaration}
      (h : f.SameReadings c c' ts ts') (htrue : ts.any p = true) : ts'.any p = true := by
    obtain ⟨t, ht, hpt⟩ := List.any_eq_true.1 htrue
    obtain ⟨t', ht', houtline, -⟩ := h.exists_mem ht
    exact List.any_eq_true.2 ⟨t', ht', (hp _ _ houtline).trans hpt⟩
  exact Bool.eq_iff_iff.2 ⟨hany h, hany h.symm⟩

variable (h : f.SameReadings c c' c.types c'.types)

include h

theorem typeParts (fullName : String) :
    f.SameReadings c c' (c.typeParts fullName) (c'.typeParts fullName) := by
  have hparts {c c' : Compilation} (h : f.SameReadings c c' c.types c'.types) (r : Outline × Bool)
      (hr : r ∈ (c.typeParts fullName).map (f.reading c)) :
      r ∈ (c'.typeParts fullName).map (f.reading c') := by
    obtain ⟨t, ht, rfl⟩ := List.mem_map.1 hr
    obtain ⟨ht, hname⟩ := Compilation.mem_typeParts.1 ht
    obtain ⟨t', ht', houtline, hscope⟩ := h.exists_mem ht
    have hname' : t'.fullName = fullName := (congrArg Outline.fullName houtline).trans hname
    exact List.mem_map.2
      ⟨t', Compilation.mem_typeParts.2 ⟨ht', hname'⟩, Prod.ext houtline hscope⟩
  exact fun r => ⟨hparts h r, hparts h.symm r⟩

theorem candidates_eq (simple : String) (arity : Nat) :
    c.candidates simple arity = c'.candidates simple arity := by
  have hmem {c c' : Compilation} (h : f.SameReadings c c' c.types c'.types) (name : String)
      (hname : name ∈ (c.types.filter fun t =>
        t.name == simple && t.typeParameters.length == arity).map (·.fullName)) :
      name ∈ (c'.types.filter fun t =>
        t.name == simple && t.typeParameters.length == arity).map (·.fullName) := by
    obtain ⟨t, ht, rfl⟩ := List.mem_map.1 hname
    obtain ⟨ht, hfits⟩ := List.mem_filter.1 ht
    obtain ⟨t', ht', houtline, -⟩ := h.exists_mem ht
    obtain ⟨hsimple, hfull, -, hparameters, -⟩ := Outline.mk.inj houtline
    refine List.mem_map.2 ⟨t', List.mem_filter.2 ⟨ht', ?_⟩, hfull⟩
    rwa [hsimple, hparameters]
  exact sortedNames_congr fun name => ⟨hmem h name, hmem h.symm name⟩

end SameReadings

/-! ## Names -/

/-- The scopes are parts of one type, for all that names are resolved by. -/
def SameScope (scope scope' : Option TypeDeclaration) : Prop :=
  scope.map (fun t => (t.fullName, t.namespaceName)) =
    scope'.map fun t => (t.fullName, t.namespaceName)

variable {scope scope' : Option TypeDeclaration}

theorem choose_congr (hscope : SameScope scope scope') (last : String) (names : List String) :
    Compilation.choose last scope names = Compilation.choose last scope' names := by
  cases scope with
  | none =>
    cases scope' with
    | none => rfl
    | some t' => cases hscope
  | some t =>
    cases scope' with
    | none => cases hscope
    | some t' =>
      simp only [SameScope, Option.map_some, Option.some.injEq, Prod.mk.injEq] at hscope
      obtain ⟨hname, hnamespace⟩ := hscope
      match names with
      | [] => rfl
      | [_] => rfl
      | first :: second :: rest =>
        simp only [Compilation.choose, Option.bind_some, hname, hnamespace]

theorem SameReadings.meant?_eq (h : f.SameReadings c c' c.types c'.types)
    (hscope : SameScope scope scope') (written : String) :
    c.meant? written scope = c'.meant? written scope' := by
  simp only [Compilation.meant?, h.candidates_eq, choose_congr hscope, (h.typeParts _).isEmpty_eq]

theorem SameReadings.resolve (h : f.SameReadings c c' c.types c'.types)
    (hscope : SameScope scope scope') (written : String) :
    f.SameReadings c c' (c.resolve written scope) (c'.resolve written scope') := by
  rw [Compilation.resolve_eq, Compilation.resolve_eq, h.meant?_eq hscope]
  cases c'.meant? written scope' with
  | none => exact fun r => Iff.rfl
  | some fullName => exact h.typeParts fullName

theorem SameReadings.declaredClass (h : f.SameReadings c c' c.types c'.types)
    (hscope : SameScope scope scope') (short : String) :
    f.SameReadings c c' (declaredClass c short scope) (declaredClass c' short scope') := by
  have hderives {ts ts' : List TypeDeclaration} (hts : f.SameReadings c c' ts ts') :
      f.SameReadings c c' (if ts.any (!·.baseTypes.isEmpty) then ts else [])
        (if ts'.any (!·.baseTypes.isEmpty) then ts' else []) := by
    have hany : ts.any (!·.baseTypes.isEmpty) = ts'.any (!·.baseTypes.isEmpty) :=
      hts.any_eq fun t t' houtline =>
        congrArg (fun o : Outline => !o.baseTypes.isEmpty) houtline
    rw [hany]
    split
    · exact hts
    · exact fun r => Iff.rfl
  have hsuffixed := h.resolve hscope (short ++ "Attribute")
  rw [Framework.declaredClass, Framework.declaredClass]
  simp only [hsuffixed.isEmpty_eq]
  split
  · exact hderives (h.resolve hscope short)
  · exact hderives hsuffixed

/-! ## Sites -/

/-- The same name, read in files and scopes that say the same. -/
structure Site.Alike (f : Framework) (s s' : Site) : Prop where
  written_eq : s.written = s'.written
  inScope_eq : f.inScope s.file = f.inScope s'.file
  scope : SameScope s.scope s'.scope

variable {s s' u : Site} {t : FrameworkType}

theorem Site.Alike.symm (h : s.Alike f s') : s'.Alike f s :=
  ⟨h.written_eq.symm, h.inScope_eq.symm, h.scope.symm⟩

/-- A base that two parts write is read alike if the parts say the same. -/
theorem Site.alike_base {p p' : TypeDeclaration}
    (hscope : f.inScope (c.fileOf p) = f.inScope (c'.fileOf p')) (hname : p.fullName = p'.fullName)
    (hnamespace : p.namespaceName = p'.namespaceName) (base : String) :
    Site.Alike f ⟨c.fileOf p, base, some p⟩ ⟨c'.fileOf p', base, some p'⟩ := by
  refine ⟨rfl, hscope, ?_⟩
  rw [SameScope, Option.map_some, Option.map_some, hname, hnamespace]

variable (h : f.SameReadings c c' c.types c'.types)

include h

theorem SameReadings.parts (halike : s.Alike f u) :
    f.SameReadings c c' (s.parts c) (u.parts c') := by
  rw [Site.parts, Site.parts, Site.short, halike.written_eq]
  exact h.declaredClass halike.scope _

theorem SameReadings.ends (halike : s.Alike f u) (hends : f.Ends c s t) : f.Ends c' u t := by
  obtain ⟨hshort, hends⟩ := hends
  have hempty := (h.parts halike).isEmpty_eq
  rw [Ends, Site.short, ← halike.written_eq, ← halike.inScope_eq]
  refine ⟨hshort, hends.imp_right ?_⟩
  rintro ⟨hqualifier, hscope, hparts⟩
  rw [hparts] at hempty
  exact ⟨hqualifier, hscope, List.isEmpty_iff.1 hempty.symm⟩

theorem SameReadings.step (halike : s.Alike f u) (hstep : Step c s s') :
    ∃ u', Step c' u u' ∧ s'.Alike f u' := by
  obtain ⟨hqualified, p, hp, hs'⟩ := hstep
  obtain ⟨base, hbase, rfl⟩ := List.mem_map.1 hs'
  obtain ⟨p', hp', houtline, hscope⟩ := (h.parts halike).exists_mem hp
  obtain ⟨-, hname, hnamespace, -, hbases⟩ := Outline.mk.inj houtline
  rw [halike.written_eq] at hqualified
  rw [← hbases] at hbase
  exact ⟨_, ⟨hqualified, p', hp', List.mem_map_of_mem hbase⟩,
    Site.alike_base hscope.symm hname.symm hnamespace.symm base⟩

theorem SameReadings.steps (halike : s.Alike f u)
    (hsteps : Relation.ReflTransGen (Step c) s s') :
    ∃ u', Relation.ReflTransGen (Step c') u u' ∧ s'.Alike f u' := by
  induction hsteps with
  | refl => exact ⟨u, .refl, halike⟩
  | tail _ hstep ih =>
    obtain ⟨v, hv, halike'⟩ := ih
    obtain ⟨u', hu', halike''⟩ := h.step halike' hstep
    exact ⟨u', .tail hv hu', halike''⟩

theorem SameReadings.leads (halike : s.Alike f u) (hleads : f.Leads c s t) : f.Leads c' u t := by
  obtain ⟨s', hsteps, hends⟩ := hleads
  obtain ⟨u', hsteps', halike'⟩ := h.steps halike hsteps
  exact ⟨u', hsteps', h.ends halike' hends⟩

omit h

theorem SameReadings.leads_iff (h : f.SameReadings c c' c.types c'.types) (halike : s.Alike f u) :
    f.Leads c s t ↔ f.Leads c' u t :=
  ⟨h.leads halike, h.symm.leads halike.symm⟩

/-! ## Parts that agree -/

/-- The parts of each class on the way agree on what is in scope where they stand. -/
def Uniform (f : Framework) (c : Compilation) (s : Site) : Prop :=
  ∀ s', Relation.ReflTransGen (Step c) s s' → ∀ p ∈ s'.parts c, ∀ q ∈ s'.parts c,
    f.inScope (c.fileOf p) = f.inScope (c.fileOf q) ∧ p.namespaceName = q.namespaceName

theorem SameReadings.uniform (h : f.SameReadings c c' c.types c'.types) (halike : s.Alike f u)
    (huniform : Uniform f c s) : Uniform f c' u := by
  intro u' hsteps p hp q hq
  obtain ⟨s', hsteps', halike'⟩ := h.symm.steps halike.symm hsteps
  have hparts := h.symm.parts halike'
  obtain ⟨p', hp', hpoutline, hpscope⟩ := hparts.exists_mem hp
  obtain ⟨q', hq', hqoutline, hqscope⟩ := hparts.exists_mem hq
  obtain ⟨hscope, hnamespace⟩ := huniform s' hsteps' p' hp' q' hq'
  have hp : p'.namespaceName = p.namespaceName := congrArg Outline.namespaceName hpoutline
  have hq : q'.namespaceName = q.namespaceName := congrArg Outline.namespaceName hqoutline
  exact ⟨hpscope.symm.trans (hscope.trans hqscope), hp.symm.trans (hnamespace.trans hq)⟩

theorem Site.Alike.parts_eq (halike : s.Alike f u) : s.parts c = u.parts c := by
  have hresolve (written : String) : c.resolve written s.scope = c.resolve written u.scope := by
    rw [Compilation.resolve_eq, Compilation.resolve_eq,
      (SameReadings.refl (f := f) c.types).meant?_eq halike.scope]
  rw [Site.parts, Site.parts, Site.short, Site.short, halike.written_eq, declaredClass,
    declaredClass, hresolve, hresolve]

theorem Site.Alike.known?_eq (halike : s.Alike f u) :
    f.known? u.file u.written = f.known? s.file s.written := by
  rw [known?, known?, halike.written_eq, halike.inScope_eq]

theorem Site.Alike.expand_eq_none {bases bases' : List TypeDeclaration → List Site}
    (halike : s.Alike f u) (hexpand : expand c bases s = none) : expand c bases' u = none := by
  rw [expand_eq_none_iff] at hexpand ⊢
  rwa [← halike.written_eq, ← halike.parts_eq]

theorem step_firstWays_iff : DepthFirst.Step (firstWays c) s s' ↔
    isQualified s.written = false ∧ ∃ first others, s.parts c = first :: others ∧
      ∃ p ∈ s.parts c, ∃ base ∈ p.baseTypes, s' = ⟨c.fileOf first, base, some first⟩ := by
  have hbases (first : TypeDeclaration) (others : List TypeDeclaration) :
      s' ∈ Site.basesOfFirst c (first :: others) ↔
        ∃ p ∈ first :: others, ∃ base ∈ p.baseTypes, s' = ⟨c.fileOf first, base, some first⟩ := by
    simp only [Site.basesOfFirst, Compilation.pooledBases, List.mem_map, List.mem_flatMap,
      eq_comm (a := s')]
    grind
  constructor
  · rintro ⟨fullName, next, hexpand, hs'⟩
    obtain ⟨hqualified, first, others, hparts, -, rfl⟩ := expand_eq_some_iff.1 hexpand
    rw [hparts]
    exact ⟨hqualified, first, others, rfl, (hbases first others).1 hs'⟩
  · rintro ⟨hqualified, first, others, hparts, hs'⟩
    rw [hparts] at hs'
    exact ⟨_, _, expand_eq_some_iff.2 ⟨hqualified, first, others, hparts, rfl, rfl⟩,
      (hbases first others).2 hs'⟩

/-- Where parts agree, it is the same whether a base is read where it is written or
where the first part stands. -/
theorem Uniform.alike (huniform : Uniform f c s) (hsteps : Relation.ReflTransGen (Step c) s u)
    {first p : TypeDeclaration} {others : List TypeDeclaration}
    (hparts : u.parts c = first :: others) (hp : p ∈ u.parts c) (base : String) :
    Site.Alike f ⟨c.fileOf first, base, some first⟩ ⟨c.fileOf p, base, some p⟩ := by
  have hfirst : first ∈ u.parts c := hparts ▸ List.mem_cons_self
  obtain ⟨hscope, hnamespace⟩ := huniform u hsteps first hfirst p hp
  rw [hparts, parts_eq_typeParts hparts, Compilation.mem_typeParts] at hp
  exact Site.alike_base hscope hp.2.symm hnamespace base

theorem Uniform.reaches_iff (huniform : Uniform f c s) :
    DepthFirst.Reaches (firstWays c) (fun s => f.known? s.file s.written) s t ↔ f.Leads c s t := by
  rw [← reaches_ways_iff]
  have hself : s.Alike f s := ⟨rfl, rfl, rfl⟩
  constructor
  · refine DepthFirst.Reaches.simulates
      (fun v u => v.Alike f u ∧ Relation.ReflTransGen (Step c) s u) ?_ ?_ ⟨hself, .refl⟩
    · rintro v u ⟨halike, -⟩ hexpand
      exact ⟨halike.expand_eq_none hexpand, halike.known?_eq⟩
    · rintro v u v' ⟨halike, hsteps⟩ hstep
      obtain ⟨hqualified, first, others, hparts, p, hp, base, hbase, rfl⟩ :=
        step_firstWays_iff.1 hstep
      rw [halike.written_eq] at hqualified
      rw [halike.parts_eq] at hparts hp
      have hstep' : Step c u ⟨c.fileOf p, base, some p⟩ :=
        ⟨hqualified, p, hp, List.mem_map_of_mem hbase⟩
      exact ⟨_, step_ways_iff.2 hstep', huniform.alike hsteps hparts hp base, .tail hsteps hstep'⟩
  · refine DepthFirst.Reaches.simulates
      (fun u v => v.Alike f u ∧ Relation.ReflTransGen (Step c) s u) ?_ ?_ ⟨hself, .refl⟩
    · rintro u v ⟨halike, -⟩ hexpand
      exact ⟨halike.symm.expand_eq_none hexpand, halike.symm.known?_eq⟩
    · rintro u v u' ⟨halike, hsteps⟩ hstep
      obtain ⟨hqualified, p, hp, hu'⟩ := step_ways_iff.1 hstep
      obtain ⟨base, hbase, rfl⟩ := List.mem_map.1 hu'
      obtain ⟨first, others, hparts⟩ := List.exists_cons_of_ne_nil (List.ne_nil_of_mem hp)
      have hfirst : DepthFirst.Step (firstWays c) v ⟨c.fileOf first, base, some first⟩ := by
        rw [step_firstWays_iff, halike.written_eq, halike.parts_eq]
        exact ⟨hqualified, first, others, hparts, p, hp, base, hbase, rfl⟩
      exact ⟨_, hfirst, huniform.alike hsteps hparts hp base,
        .tail hsteps (step_ways_iff.1 hstep)⟩

/-! ## The order of files -/

/-- What the declarations of one source say. -/
def readingsOf (f : Framework) (parse : Parser) (source : Path × String) :
    List (Outline × Bool) :=
  let file := SourceFile.read parse 0 source.1 source.2
  file.declarations.types.map fun t => (t.outline, f.inScope file)

section sources

variable {parse : Parser} {sources sources' : List (Path × String)} {project : ProjectFacts}

theorem readings_read (id : FileId) (source : Path × String) :
    (SourceFile.read parse id source.1 source.2).declarations.types.map
        (fun t => (t.outline, f.inScope (.read parse id source.1 source.2))) =
      f.readingsOf parse source := by
  obtain ⟨husings, htypes⟩ := FileDeclarations.alike_ofTree id 0 source.2.toList (parse source.2)
  have hscope : f.inScope (.read parse id source.1 source.2) =
      f.inScope (.read parse 0 source.1 source.2) := by
    rw [inScope, inScope, SourceFile.read, SourceFile.read]
    simp only [husings]
  rw [readingsOf, hscope]
  have hmap (file : SourceFile) : file.declarations.types.map
      (fun t => (t.outline, f.inScope (.read parse 0 source.1 source.2))) =
      (file.declarations.types.map outline).map
        fun o => (o, f.inScope (.read parse 0 source.1 source.2)) := by
    rw [List.map_map]
    rfl
  rw [hmap, hmap]
  exact congrArg _ htypes

theorem mem_readings_iff {r : Outline × Bool} :
    r ∈ (Compilation.ofSources parse sources project).types.map
        (f.reading (.ofSources parse sources project)) ↔
      ∃ source ∈ sources, r ∈ f.readingsOf parse source := by
  have hnumbered := Compilation.numbered_ofSources parse sources project
  constructor
  · intro hr
    obtain ⟨t, ht, rfl⟩ := List.mem_map.1 hr
    obtain ⟨file, hfile, ht⟩ := List.mem_flatMap.1 ht
    rw [reading, hnumbered.fileOf_eq hfile ht]
    obtain ⟨⟨source, id⟩, hsource, rfl⟩ := List.mem_map.1 hfile
    refine ⟨source, List.fst_mem_of_mem_zipIdx hsource, ?_⟩
    rw [← readings_read id]
    exact List.mem_map_of_mem ht
  · rintro ⟨source, hsource, hr⟩
    obtain ⟨id, hget⟩ := List.mem_iff_getElem?.1 hsource
    rw [← readings_read id] at hr
    obtain ⟨t, ht, rfl⟩ := List.mem_map.1 hr
    have hfile : SourceFile.read parse id source.1 source.2 ∈
        (Compilation.ofSources parse sources project).files :=
      List.mem_map.2 ⟨(source, id), List.mk_mem_zipIdx_iff_getElem?.2 hget, rfl⟩
    refine List.mem_map.2 ⟨t, List.mem_flatMap.2 ⟨_, hfile, ht⟩, ?_⟩
    rw [reading, hnumbered.fileOf_eq hfile ht]

theorem sameReadings_perm (hperm : sources.Perm sources') :
    let c := Compilation.ofSources parse sources project
    let c' := Compilation.ofSources parse sources' project
    f.SameReadings c c' c.types c'.types := by
  intro c c' r
  rw [mem_readings_iff, mem_readings_iff]
  exact exists_congr fun source => and_congr_left fun _ => hperm.mem_iff

end sources

/-! ## Attributes -/

variable {file : SourceFile} {a : Attribute}

theorem Uniform.isSome_bind?_iff (huniform : Uniform f c ⟨file, a.name, none⟩)
    (hc : c.Numbered) :
    (f.bind? c file a).isSome = true ↔ ∃ t, f.Leads c ⟨file, a.name, none⟩ t :=
  (bindName_isSome_iff hc (Nat.lt_succ_self _)).trans
    (exists_congr fun _ => huniform.reaches_iff)

theorem Uniform.leads_of_bind? (huniform : Uniform f c ⟨file, a.name, none⟩) (hc : c.Numbered)
    (hbound : f.bind? c file a = some t) : f.Leads c ⟨file, a.name, none⟩ t := by
  obtain ⟨turns, hturns, -⟩ := (bindName_eq_some_iff hc (Nat.lt_succ_self _)).1 hbound
  exact huniform.reaches_iff.1 hturns.reaches

/-- Where the parts of a class agree on what is in scope, an attribute is bound exactly
if a base that some part writes leads to a type of the framework from the file of the
part.  It is bound in every order of the files, or in none, and to the same type if there
is only one that it leads to. -/
theorem bind?_parts (parse : Parser) (sources : List (Path × String)) (project : ProjectFacts)
    (f : Framework) (file : SourceFile) (a : Attribute)
    (huniform : Uniform f (.ofSources parse sources project) ⟨file, a.name, none⟩) :
    let c := Compilation.ofSources parse sources project
    ((f.bind? c file a).isSome = true ↔ ∃ t, f.Leads c ⟨file, a.name, none⟩ t) ∧
    ∀ sources' file', sources.Perm sources' → f.inScope file' = f.inScope file →
      let c' := Compilation.ofSources parse sources' project
      (f.bind? c' file' a).isSome = (f.bind? c file a).isSome ∧
      ((∀ t t', f.Leads c ⟨file, a.name, none⟩ t → f.Leads c ⟨file, a.name, none⟩ t' → t = t') →
        f.bind? c' file' a = f.bind? c file a) := by
  intro c
  have hc : c.Numbered := Compilation.numbered_ofSources parse sources project
  have hbound := huniform.isSome_bind?_iff hc
  refine ⟨hbound, fun sources' file' hperm hscope => ?_⟩
  intro c'
  have hc' : c'.Numbered := Compilation.numbered_ofSources parse sources' project
  have hsame : f.SameReadings c c' c.types c'.types := sameReadings_perm hperm
  have halike : Site.Alike f ⟨file, a.name, none⟩ ⟨file', a.name, none⟩ := ⟨rfl, hscope.symm, rfl⟩
  have huniform' := hsame.uniform halike huniform
  have hisSome : (f.bind? c' file' a).isSome = (f.bind? c file a).isSome := by
    rw [Bool.eq_iff_iff, huniform'.isSome_bind?_iff hc', hbound]
    exact exists_congr fun t => (hsame.leads_iff halike).symm
  refine ⟨hisSome, fun hunique => ?_⟩
  cases hfound : f.bind? c file a with
  | none =>
    rw [hfound, Option.isSome_none, Option.isSome_eq_false_iff,
      Option.isNone_iff_eq_none] at hisSome
    exact hisSome
  | some t =>
    rw [hfound, Option.isSome_some, Option.isSome_iff_exists] at hisSome
    obtain ⟨t', hfound'⟩ := hisSome
    have hleads' := (hsame.leads_iff halike).2 (huniform'.leads_of_bind? hc' hfound')
    rw [hfound', hunique t t' (huniform.leads_of_bind? hc hfound) hleads']

/-! ## A class in two files -/

/-- A part of an attribute class that writes no base. -/
def bareTree : Tree :=
  .node ⟨"compilation_unit", none, true, false, 0, 28⟩
    [.node ⟨"class_declaration", none, true, false, 0, 28⟩
      [.node ⟨"modifier", none, true, false, 0, 7⟩ [],
       .node ⟨"identifier", some "name", true, false, 14, 26⟩ [],
       .node ⟨"declaration_list", some "body", true, false, 26, 28⟩ []]]

def bareSource : String :=
  "partial class FooAttribute\x7b\x7d"

/-- A part that derives from a type of the framework, in a file that brings it into scope. -/
def derivedTree : Tree :=
  .node ⟨"compilation_unit", none, true, false, 0, 99⟩
    [.node ⟨"using_directive", none, true, false, 0, 51⟩
      [.node ⟨"qualified_name", none, true, false, 6, 50⟩ []],
     .node ⟨"class_declaration", none, true, false, 51, 99⟩
      [.node ⟨"modifier", none, true, false, 51, 58⟩ [],
       .node ⟨"identifier", some "name", true, false, 65, 77⟩ [],
       .node ⟨"base_list", none, true, false, 77, 97⟩
        [.node ⟨"identifier", none, true, false, 78, 97⟩ []],
       .node ⟨"declaration_list", some "body", true, false, 97, 99⟩ []]]

def derivedSource : String :=
  "using Microsoft.VisualStudio.TestTools.UnitTesting;" ++
    "partial class FooAttribute:TestMethodAttribute\x7b\x7d"

def partsParser : Parser := fun text =>
  if text.toList.head? = some 'p' then bareTree else derivedTree

/-- The two parts, the one without a base first. -/
def partSources : List (Path × String) :=
  [(⟨"A.cs"⟩, bareSource), (⟨"B.cs"⟩, derivedSource)]

def partsCompilation : Compilation :=
  .ofSources partsParser partSources .empty

/-- A name without a dot means the type of its name, if no other type has it. -/
theorem resolve_of_candidates {c : Compilation} {name : String} {names : List String}
    (hplain : Compilation.metadataForm (Compilation.plainName name) = name)
    (hdotless : name.toList.contains '.' = false)
    (hlast : Compilation.simpleAndArity (Compilation.lastSegment name) = (name, 0))
    (hnames : (c.types.filter fun t =>
      t.name == name && t.typeParameters.length == 0).map (·.fullName) = names)
    (hmem : name ∈ names) (honly : ∀ other ∈ names, other = name)
    (scope : Option TypeDeclaration) : c.resolve name scope = c.typeParts name := by
  have hcandidates : c.candidates name 0 = [name] := by
    have hone : ∀ other, other ∈ names ↔ other ∈ [name] := by
      intro other
      rw [List.mem_singleton]
      exact ⟨honly other, fun h => h ▸ hmem⟩
    rw [Compilation.candidates, hnames, sortedNames_congr hone, List.mergeSort_singleton,
      List.eraseDups_cons, List.filter_nil, List.eraseDups_nil]
  simp only [Compilation.resolve_eq, Compilation.meant?, hplain, hdotless, hlast, hcandidates,
    Bool.false_and, Bool.false_eq_true, if_false, Compilation.choose, Option.map_some,
    Option.getD_some]

theorem declaredClass_of_resolve {c : Compilation} {short : String}
    {scope : Option TypeDeclaration} {ts : List TypeDeclaration}
    (hresolve : c.resolve (short ++ "Attribute") scope = ts)
    (hderives : ts.any (!·.baseTypes.isEmpty) = true) : declaredClass c short scope = ts := by
  have hsome : ts.isEmpty = false := by
    cases ts with
    | nil => cases hderives
    | cons t ts => rfl
  simp only [declaredClass, hresolve, hsome, hderives, Bool.false_eq_true, if_false, if_true]

/-- The parts of the class, and what they find where they stand. -/
theorem exists_parts : ∃ first second,
    declaredClass partsCompilation "Foo" none = [first, second] ∧
      first.baseTypes = [] ∧ second.baseTypes = ["TestMethodAttribute"] ∧
      inScope ⟨false⟩ (partsCompilation.fileOf first) = false ∧
      inScope ⟨false⟩ (partsCompilation.fileOf second) = true ∧
      declaredClass partsCompilation "TestMethod" (some first) = [] ∧
      declaredClass partsCompilation "TestMethod" (some second) = [] := by
  have hnames : (partsCompilation.types.filter fun t =>
      t.name == "FooAttribute" && t.typeParameters.length == 0).map (·.fullName) =
        ["FooAttribute", "FooAttribute"] := by
    decide +kernel
  have hresolve := resolve_of_candidates (by decide +kernel) (by decide +kernel)
    (by decide +kernel) hnames (by simp) (by simp) none
  have hparts : (partsCompilation.typeParts "FooAttribute").map (fun part =>
      (part.baseTypes, inScope ⟨false⟩ (partsCompilation.fileOf part),
        (declaredClass partsCompilation "TestMethod" (some part)).isEmpty)) =
      [([], false, true), (["TestMethodAttribute"], true, true)] := by
    decide +kernel
  -- no more is used of the compilation, and none of it is to be unfolded
  generalize partsCompilation = c at *
  obtain ⟨first, rest, htypes, hfirst, hrest⟩ := List.map_eq_cons_iff.1 hparts
  obtain ⟨second, rest, rfl, hsecond, hrest⟩ := List.map_eq_cons_iff.1 hrest
  obtain rfl := List.map_eq_nil_iff.1 hrest
  simp only [Prod.mk.injEq, List.isEmpty_iff] at hfirst hsecond
  rw [htypes] at hresolve
  have hderives : [first, second].any (!·.baseTypes.isEmpty) = true := by simp [hsecond.1]
  exact ⟨first, second, declaredClass_of_resolve hresolve hderives, hfirst.1, hsecond.1,
    hfirst.2.1, hsecond.2.1, hfirst.2.2, hsecond.2.2⟩

theorem attributeShort_parts : Name.attributeShort "Foo" = "Foo" ∧
    Name.attributeShort "TestMethodAttribute" = "TestMethod" ∧
    FrameworkType.shortName .testMethod = "TestMethod" ∧ isQualified "Foo" = false ∧
    Name.qualifier? "TestMethodAttribute" = none := by
  decide +kernel

/-- The second part leads to a test method wherever its file finds the framework. -/
theorem leads_parts {f : Framework}
    (hf : ∀ file, inScope ⟨false⟩ file = true → f.inScope file = true) :
    f.Leads partsCompilation ⟨default, "Foo", none⟩ .testMethod := by
  obtain ⟨first, second, hclass, -, hsecond, -, hin, -, hleaf⟩ := exists_parts
  obtain ⟨hfoo, hshort, hname, hqualified, hqualifier⟩ := attributeShort_parts
  generalize partsCompilation = c at *
  have hparts : Site.parts c ⟨default, "Foo", none⟩ = [first, second] := by
    rw [Site.parts, Site.short, hfoo, hclass]
  have hstep : Step c ⟨default, "Foo", none⟩
      ⟨c.fileOf second, "TestMethodAttribute", some second⟩ := by
    refine ⟨hqualified, second, by simp [hparts], List.mem_map.2 ⟨_, ?_, rfl⟩⟩
    rw [hsecond]
    exact List.mem_singleton.2 rfl
  refine ⟨_, .single hstep, ?_, .inr ⟨hqualifier, hf _ hin, ?_⟩⟩
  · rw [Site.short, hshort, hname]
  · rw [Site.parts, Site.short, hshort, hleaf]

/-- The base that the second part writes is read in the file of the first, which does not
bring the framework into scope. -/
theorem base_of_second_part_is_lost :
    Leads partsCompilation ⟨false⟩ ⟨default, "Foo", none⟩ .testMethod ∧
      bind? ⟨false⟩ partsCompilation default (named "Foo") = none := by
  refine ⟨leads_parts fun _ h => h, ?_⟩
  obtain ⟨first, second, hclass, hfirst, hsecond, hout, -, hleaf, -⟩ := exists_parts
  obtain ⟨hfoo, hshort, -, hqualified, hqualifier⟩ := attributeShort_parts
  have hlength : partsCompilation.types.length = 2 := by decide +kernel
  have hname : (named "Foo").name = "Foo" := rfl
  generalize partsCompilation = c at *
  have hfile : (c.file? first.file).getD default = c.fileOf first := rfl
  have hknown : known? ⟨false⟩ (c.fileOf first) "TestMethodAttribute" = none := by
    simp [known?, hqualifier, hout]
  simp [bind?, bindName_succ, hlength, hname, hfoo, hshort, hclass, hfirst, hsecond, hqualified,
    hfile, hleaf, hknown, Compilation.pooledBases]

/-- Where the framework is in scope everywhere, the order of the two files does not matter. -/
theorem bind?_parts_everywhere :
    Uniform ⟨true⟩ partsCompilation ⟨default, "Foo", none⟩ ∧
      (bind? ⟨true⟩ partsCompilation default (named "Foo")).isSome = true ∧
      (bind? ⟨true⟩ (.ofSources partsParser partSources.reverse .empty) default
        (named "Foo")).isSome = true := by
  have hnamespaces : partsCompilation.types.all (·.namespaceName.isNone) = true := by
    decide +kernel
  have huniform : Uniform ⟨true⟩ partsCompilation ⟨default, "Foo", none⟩ := by
    intro s' _ p hp q hq
    have hp := List.all_eq_true.1 hnamespaces p (mem_types_of_mem_parts hp)
    have hq := List.all_eq_true.1 hnamespaces q (mem_types_of_mem_parts hq)
    rw [Option.isNone_iff_eq_none] at hp hq
    exact ⟨rfl, hp.trans hq.symm⟩
  obtain ⟨hsome, horder⟩ :=
    bind?_parts partsParser partSources .empty ⟨true⟩ default (named "Foo") huniform
  have hbound := hsome.2 ⟨_, leads_parts fun _ _ => rfl⟩
  exact ⟨huniform, hbound,
    (horder partSources.reverse default (List.reverse_perm _).symm rfl).1.trans hbound⟩

end Framework

end TestLint
