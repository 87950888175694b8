import Mathlib.Data.List.Perm.Subperm
import TestLint.Config.Loading
import TestLint.Proofs.Config.Form
import TestLint.Proofs.DepthFirst

/-!
# Chains of configurations

A configuration that extends another, which may extend a third, is loaded by following
the chain (`Config.Follows`).  That comes to an end on every system of files: either at a
configuration that extends nothing, or at a path that leads to nothing that can be read
as a configuration, or back to a file of the chain (`Config.Refused`).  In the first case
the configurations are put on top of each other, the nearest one last (`Config.merged`,
`Config.loadFile_spec`).

The files of a chain are different ones, so there are no more of them than the system
has, which is what the fuel is for.

A file says the configuration that the JSON value of its text stands for (`Config.Says`); which
value that is, is left to the codec.
-/

namespace TestLint.Config

/-- A file of a chain: the path that it is found by, its own names, and what it says. -/
structure Link where
  path : Path
  file : List String
  config : Config

variable (json : Json.Codec) (view : FileView)

/-- The text is JSON, and its value stands for the configuration. -/
def Says (text : String) (c : Config) : Prop :=
  ∃ value, json.read? text = some value ∧ ofJson? value = some c

/-- The path leads to the file, which holds the configuration. -/
def Link.IsRead (l : Link) : Prop :=
  ∃ place text, view.resolve l.path = .ok place ∧ place.names = l.file ∧
    place.node.content = .ok text ∧ Says json text l.config

/-- The files that are read one after the other from a path on, and the path that is to be
read next, if the last of them extends another. -/
inductive Follows : Path → List Link → Option Path → Prop
  | start (path : Path) : Follows path [] (some path)
  | last {l : Link} (hread : l.IsRead json view) (hbase : l.config.base = none) :
      Follows l.path [l] none
  | link {l : Link} {written : String} {links : List Link} {next : Option Path}
      (hread : l.IsRead json view) (hbase : l.config.base = some written)
      (h : Follows (basePath l.path written) links next) : Follows l.path (l :: links) next

/-- Why a path is not read: `origin` is the configuration that refers to it, `visited` are
the files that have been read. -/
inductive Refused (origin : Option Path) (visited : List (List String)) (path : Path) :
    ConfigError → Prop
  | missing {reason : FileError} {referrer : Path} (hresolve : view.resolve path = .error reason)
      (horigin : origin = some referrer) : Refused origin visited path (.baseNotFound path referrer)
  | unreachable {reason : FileError} (hresolve : view.resolve path = .error reason)
      (horigin : origin = none) : Refused origin visited path (.unreadable path reason)
  | circular {place : FileTree.Place} (hresolve : view.resolve path = .ok place)
      (hvisited : place.names ∈ visited) : Refused origin visited path (.circular path)
  | unreadable {place : FileTree.Place} {reason : FileError}
      (hresolve : view.resolve path = .ok place) (hnew : place.names ∉ visited)
      (hcontent : place.node.content = .error reason) :
      Refused origin visited path (.unreadable path reason)
  | invalid {place : FileTree.Place} {text : String} (hresolve : view.resolve path = .ok place)
      (hnew : place.names ∉ visited) (hcontent : place.node.content = .ok text)
      (hread : ∀ c, ¬Says json text c) : Refused origin visited path (.invalid path)

/-- The configurations of a chain on top of each other, the first one uppermost. -/
def merged (links : List Link) : Config :=
  links.foldr (fun l base => ({ l.config with base := none } : Config).extending base) .empty

theorem read?_eq_some_iff {text : String} {c : Config} :
    read? json text = some c ↔ Says json text c :=
  Option.bind_eq_some_iff

theorem read?_eq_none_iff {text : String} : read? json text = none ↔ ∀ c, ¬Says json text c := by
  simp only [← read?_eq_some_iff, Option.eq_none_iff_forall_ne_some, ne_eq]

/-- Every configuration is what some value stands for. -/
theorem says_toJson {text : String} {c : Config} (hc : c.KeysOnce)
    (htext : json.read? text = some c.toJson) : Says json text c :=
  ⟨c.toJson, htext, ofJson?_toJson hc⟩

/-! ## Configurations on top of each other -/

theorem extending_empty (c : Config) : c.extending .empty = c := by
  obtain ⟨base, rules, ignore, overrides⟩ := c
  simp [extending, empty]

theorem merged_ignore (links : List Link) :
    (merged links).ignore = links.reverse.flatMap (·.config.ignore) := by
  induction links with
  | nil => rfl
  | cons l links ih =>
    rw [merged, List.foldr_cons, ← merged, List.reverse_cons, List.flatMap_append, ← ih]
    simp [extending]

theorem merged_overrides (links : List Link) :
    (merged links).overrides = links.reverse.flatMap (·.config.overrides) := by
  induction links with
  | nil => rfl
  | cons l links ih =>
    rw [merged, List.foldr_cons, ← merged, List.reverse_cons, List.flatMap_append, ← ih]
    simp [extending]

/-- Leaving out other keys does not change what a key is set to. -/
theorem lookup_filter {p : String → Bool} {key : String} (hkey : p key = true)
    (rules : RuleTable) :
    (rules.filter fun entry => p entry.1).lookup key = rules.lookup key := by
  induction rules with
  | nil => rfl
  | cons entry rest ih =>
    obtain ⟨k, setting⟩ := entry
    by_cases hk : key = k
    · subst hk
      simp only [List.filter_cons, hkey, if_true, List.lookup_cons_self]
    · have hbeq : (key == k) = false := by simpa using hk
      by_cases hp : p k = true
      · simp only [List.filter_cons, hp, if_true, List.lookup_cons, hbeq, ih]
      · simp only [List.filter_cons, hp, Bool.false_eq_true, if_false, List.lookup_cons, hbeq, ih]

/-- Of the settings of a key, the uppermost one counts. -/
theorem lookup_extending (c base : Config) (key : String) :
    (c.extending base).rules.lookup key = (c.rules.lookup key).or (base.rules.lookup key) := by
  let free (k : String) : Bool := !c.rules.any (·.1 == k)
  have happend : (c.extending base).rules.lookup key =
      ((base.rules.filter fun entry => free entry.1).lookup key).or (c.rules.lookup key) :=
    List.lookup_append
  rw [happend]
  cases hown : c.rules.lookup key with
  | some setting =>
    have htaken : (base.rules.filter fun entry => free entry.1).lookup key = none := by
      rw [List.lookup_eq_none_iff]
      intro entry hentry
      obtain ⟨before, after, hrules, -⟩ := List.lookup_eq_some_iff.1 hown
      have hfree := (List.mem_filter.1 hentry).2
      rw [bne_iff_ne]
      rintro rfl
      simp [free, hrules] at hfree
    rw [htaken, Option.none_or, Option.some_or]
  | none =>
    have hfree : free key = true := by
      rw [Bool.not_eq_true', List.any_eq_false]
      intro entry hentry heq
      have hne := List.lookup_eq_none_iff.1 hown entry hentry
      simp_all
    rw [Option.or_none, Option.none_or]
    exact lookup_filter hfree base.rules

theorem lookup_merged (links : List Link) (key : String) :
    (merged links).rules.lookup key = links.findSome? (·.config.rules.lookup key) := by
  induction links with
  | nil => rfl
  | cons l links ih =>
    rw [merged, List.foldr_cons, ← merged, lookup_extending, ih, List.findSome?_cons]
    cases l.config.rules.lookup key <;> rfl

variable {json view} {path p : Path} {links : List Link} {next origin : Option Path}
  {visited : List (List String)} {fuel : Nat} {e : ConfigError}

/-! ## Different files -/

/-- The files of the links are different from each other and from those visited before. -/
def Fresh (visited : List (List String)) (links : List Link) : Prop :=
  (links.map (·.file)).Nodup ∧ ∀ l ∈ links, l.file ∉ visited

theorem fresh_nil : Fresh visited [] :=
  ⟨List.nodup_nil, by simp⟩

theorem fresh_of_nodup (h : (links.map (·.file)).Nodup) : Fresh [] links :=
  ⟨h, by simp⟩

theorem fresh_cons {l : Link} :
    Fresh visited (l :: links) ↔ l.file ∉ visited ∧ Fresh (l.file :: visited) links := by
  unfold Fresh
  rw [List.map_cons, List.nodup_cons, List.forall_mem_cons]
  constructor
  · rintro ⟨⟨hfirst, hnodup⟩, hl, hlinks⟩
    refine ⟨hl, hnodup, fun m hm hmem => ?_⟩
    rcases List.mem_cons.1 hmem with heq | hmem
    · exact hfirst (List.mem_map.2 ⟨m, hm, heq⟩)
    · exact hlinks m hm hmem
  · rintro ⟨hl, hnodup, hlinks⟩
    refine ⟨⟨fun hmem => ?_, hnodup⟩, hl, fun m hm hmem => ?_⟩
    · obtain ⟨m, hm, heq⟩ := List.mem_map.1 hmem
      exact hlinks m hm (List.mem_cons.2 (.inl heq))
    · exact hlinks m hm (List.mem_cons_of_mem _ hmem)

/-! ## What following a chain gives -/

theorem Link.IsRead.pathExists {l : Link} (hread : l.IsRead json view) :
    view.pathExists l.path = true := by
  obtain ⟨place, text, hresolve, -⟩ := hread
  exact view.pathExists_of_resolve hresolve

theorem Link.IsRead.mem_files {l : Link} (hread : l.IsRead json view) : l.file ∈ view.files := by
  obtain ⟨place, text, hresolve, hfile, -⟩ := hread
  rw [← hfile]
  exact view.mem_files l.path place hresolve

theorem Follows.next_eq_of_nil (h : Follows json view path [] next) : next = some path := by
  cases h
  rfl

/-- A path from which a file is read leads somewhere. -/
theorem Follows.pathExists (h : Follows json view path links next) (hlinks : links ≠ []) :
    view.pathExists path = true := by
  cases h with
  | start => exact absurd rfl hlinks
  | last hread => exact hread.pathExists
  | link hread => exact hread.pathExists

/-- One step: the configuration of a file that is read, on top of what it extends. -/
theorem loadChain_of_isRead {l : Link} (hread : l.IsRead json view) (hnew : l.file ∉ visited) :
    loadChain json view (fuel + 1) visited l.path =
      match l.config.base with
      | none => .ok l.config
      | some written =>
        if view.pathExists (basePath l.path written) then
          (loadChain json view fuel (l.file :: visited) (basePath l.path written)).map
            ({ l.config with base := none } : Config).extending
        else
          .error (.baseNotFound (basePath l.path written) l.path) := by
  obtain ⟨place, text, hresolve, hfile, hcontent, hsays⟩ := hread
  have hconfig := (read?_eq_some_iff json).2 hsays
  rw [← hfile] at hnew ⊢
  rw [loadChain]
  cases hbase : l.config.base <;>
    simp only [hresolve, hcontent, hconfig, List.contains_eq_mem, hnew, decide_false,
      Bool.false_eq_true, if_false, hbase]

/-- A chain that ends with a configuration that extends nothing is loaded. -/
theorem Follows.loadChain_eq (h : Follows json view path links none) (hfresh : Fresh visited links)
    (hfuel : links.length ≤ fuel) : loadChain json view fuel visited path = .ok (merged links) := by
  generalize hnext : (none : Option Path) = next at h
  induction h generalizing visited fuel with
  | start => cases hnext
  | @last l hread hbase =>
    cases fuel with
    | zero => cases hfuel
    | succ fuel =>
      have hown : ({ l.config with base := none } : Config) = l.config := by rw [← hbase]
      rw [loadChain_of_isRead hread (fresh_cons.1 hfresh).1, hbase]
      simp only [merged, List.foldr_cons, List.foldr_nil, hown, extending_empty]
  | @link l written links next hread hbase h ih =>
    cases fuel with
    | zero => cases hfuel
    | succ fuel =>
      obtain ⟨hnew, hfresh⟩ := fresh_cons.1 hfresh
      have hlinks : links ≠ [] := by
        rintro rfl
        rw [h.next_eq_of_nil] at hnext
        cases hnext
      have hinner : loadChain json view fuel (l.file :: visited) (basePath l.path written) =
          .ok (merged links) := ih hfresh (Nat.le_of_succ_le_succ hfuel) hnext
      rw [loadChain_of_isRead hread hnew, hbase]
      simp only [h.pathExists hlinks, hinner, if_true, Except.map, merged, List.foldr_cons]

/-- Where a path leads somewhere, it does not matter who refers to it. -/
theorem Refused.of_pathExists {origin' : Option Path} (h : Refused json view origin visited p e)
    (hexists : view.pathExists p = true) : Refused json view origin' visited p e := by
  have hfound : ∀ reason, view.resolve p ≠ .error reason := by
    intro reason hreason
    rw [FileView.pathExists, hreason] at hexists
    cases hexists
  cases h with
  | missing hmissing => exact absurd hmissing (hfound _)
  | unreachable hmissing => exact absurd hmissing (hfound _)
  | circular hresolve hvisited => exact .circular hresolve hvisited
  | unreadable hresolve hnew hcontent => exact .unreadable hresolve hnew hcontent
  | invalid hresolve hnew hcontent hread => exact .invalid hresolve hnew hcontent hread

/-- Where a path leads nowhere, whoever refers to it is told. -/
theorem Refused.eq_baseNotFound {referrer : Path}
    (h : Refused json view (some referrer) visited p e) (hexists : ¬view.pathExists p = true) :
    e = .baseNotFound p referrer := by
  cases h with
  | missing _ horigin =>
    cases horigin
    rfl
  | unreachable _ horigin => cases horigin
  | circular hresolve => exact absurd (view.pathExists_of_resolve hresolve) hexists
  | unreadable hresolve => exact absurd (view.pathExists_of_resolve hresolve) hexists
  | invalid hresolve => exact absurd (view.pathExists_of_resolve hresolve) hexists

/-- In which order files have been read does not matter. -/
theorem Refused.of_mem_iff {visited' : List (List String)}
    (h : Refused json view origin visited p e)
    (hmem : ∀ file, file ∈ visited ↔ file ∈ visited') :
    Refused json view origin visited' p e := by
  cases h with
  | missing hresolve horigin => exact .missing hresolve horigin
  | unreachable hresolve horigin => exact .unreachable hresolve horigin
  | circular hresolve hvisited => exact .circular hresolve ((hmem _).1 hvisited)
  | unreadable hresolve hnew hcontent =>
    exact .unreadable hresolve (fun h => hnew ((hmem _).2 h)) hcontent
  | invalid hresolve hnew hcontent hread =>
    exact .invalid hresolve (fun h => hnew ((hmem _).2 h)) hcontent hread

/-- A path that is not read is refused at once. -/
theorem Refused.loadChain_eq (h : Refused json view none visited path e) :
    loadChain json view (fuel + 1) visited path = .error e := by
  unfold loadChain
  cases h with
  | missing _ horigin => cases horigin
  | unreachable hresolve => simp only [hresolve]
  | circular hresolve hvisited =>
    simp only [hresolve, List.contains_eq_mem, hvisited, decide_true, if_true]
  | unreadable hresolve hnew hcontent =>
    simp only [hresolve, List.contains_eq_mem, hnew, decide_false, Bool.false_eq_true, if_false,
      hcontent]
  | invalid hresolve hnew hcontent hread =>
    simp only [hresolve, List.contains_eq_mem, hnew, decide_false, Bool.false_eq_true, if_false,
      hcontent, (read?_eq_none_iff json).2 hread]

/-- A chain that comes to a path that is not read is refused. -/
theorem Follows.loadChain_eq_error (h : Follows json view path links (some p))
    (hfresh : Fresh visited links) (hfuel : links.length < fuel)
    (hrefused : Refused json view (links.getLast?.map (·.path))
      ((links.map (·.file)).reverse ++ visited) p e) :
    loadChain json view fuel visited path = .error e := by
  generalize hnext : some p = next at h
  induction h generalizing visited fuel with
  | start =>
    cases hnext
    cases fuel with
    | zero => cases hfuel
    | succ fuel => exact hrefused.loadChain_eq
  | last => cases hnext
  | @link l written links next hread hbase h ih =>
    cases fuel with
    | zero => cases hfuel
    | succ fuel =>
      obtain ⟨hnew, hfresh⟩ := fresh_cons.1 hfresh
      rw [List.map_cons, List.reverse_cons, List.append_assoc, List.singleton_append] at hrefused
      rw [loadChain_of_isRead hread hnew, hbase]
      by_cases hexists : view.pathExists (basePath l.path written) = true
      · have hinner : loadChain json view fuel (l.file :: visited) (basePath l.path written) =
            .error e := by
          refine ih hfresh (Nat.lt_of_succ_lt_succ hfuel) ?_ hnext
          cases links with
          | nil =>
            -- the next path is refused right after this file
            have hp : p = basePath l.path written :=
              Option.some.inj (hnext.trans h.next_eq_of_nil)
            rw [hp] at hrefused ⊢
            exact hrefused.of_pathExists hexists
          | cons second rest =>
            rw [List.getLast?_cons_cons] at hrefused
            exact hrefused
        simp only [hexists, hinner, if_true, Except.map]
      · have hlinks : links = [] := by
          by_contra hne
          exact hexists (h.pathExists hne)
        subst hlinks
        have hp : p = basePath l.path written := Option.some.inj (hnext.trans h.next_eq_of_nil)
        rw [hp] at hrefused
        have he : e = .baseNotFound (basePath l.path written) l.path :=
          hrefused.eq_baseNotFound hexists
        simp only [hexists, he, Bool.false_eq_true, if_false]

/-! ## Every chain ends -/

variable (json view) in
/-- From every path a chain can be followed to its end: to a configuration that extends
nothing, or to a path that is not read. -/
theorem exists_follows (origin : Option Path) (visited : List (List String)) (path : Path) :
    ∃ links next, Follows json view path links next ∧ Fresh visited links ∧ ∀ p, next = some p →
      ∃ e, Refused json view ((links.getLast?.map (·.path)).or origin)
        ((links.map (·.file)).reverse ++ visited) p e := by
  induction hleft : DepthFirst.unmet view.files visited using Nat.strongRecOn
    generalizing origin visited path with
  | ind left ih =>
  by_cases hrefused : ∃ e, Refused json view origin visited path e
  · refine ⟨[], some path, .start path, fresh_nil, ?_⟩
    rintro p ⟨⟩
    exact hrefused
  -- a path that is not refused is read
  · cases hresolve : view.resolve path with
    | error reason =>
      cases origin with
      | none => exact absurd ⟨_, .unreachable hresolve rfl⟩ hrefused
      | some referrer => exact absurd ⟨_, .missing hresolve rfl⟩ hrefused
    | ok place =>
    by_cases hvisited : place.names ∈ visited
    · exact absurd ⟨_, .circular hresolve hvisited⟩ hrefused
    cases hcontent : place.node.content with
    | error reason => exact absurd ⟨_, .unreadable hresolve hvisited hcontent⟩ hrefused
    | ok text =>
    cases hconfig : read? json text with
    | none =>
      have hread := (read?_eq_none_iff json).1 hconfig
      exact absurd ⟨_, .invalid hresolve hvisited hcontent hread⟩ hrefused
    | some config =>
    have hread : Link.IsRead json view ⟨path, place.names, config⟩ :=
      ⟨place, text, hresolve, rfl, hcontent, (read?_eq_some_iff json).1 hconfig⟩
    cases hbase : config.base with
    | none =>
      refine ⟨[⟨path, place.names, config⟩], none, .last hread hbase,
        fresh_cons.2 ⟨hvisited, fresh_nil⟩, ?_⟩
      rintro p ⟨⟩
    | some written =>
      have hless : DepthFirst.unmet view.files (place.names :: visited) < left := by
        rw [← hleft]
        exact DepthFirst.unmet_cons_lt (view.mem_files path place hresolve) hvisited
      obtain ⟨links, next, hfollows, hfresh, hend⟩ :=
        ih _ hless (some path) (place.names :: visited) (basePath path written) rfl
      refine ⟨⟨path, place.names, config⟩ :: links, next, .link hread hbase hfollows,
        fresh_cons.2 ⟨hvisited, hfresh⟩, fun p hp => ?_⟩
      obtain ⟨e, he⟩ := hend p hp
      refine ⟨e, ?_⟩
      rw [List.map_cons, List.reverse_cons, List.append_assoc, List.singleton_append]
      cases links with
      | nil => exact he
      | cons second rest => exact he

/-- The files of a chain are files of the system. -/
theorem Follows.mem_files (h : Follows json view path links next) :
    ∀ l ∈ links, l.file ∈ view.files := by
  induction h with
  | start => simp
  | last hread => simpa using hread.mem_files
  | link hread _ _ ih => exact List.forall_mem_cons.2 ⟨hread.mem_files, ih⟩

/-- There are no more files in a chain than the system has. -/
theorem Follows.length_le (h : Follows json view path links next) (hfresh : Fresh visited links) :
    links.length ≤ view.files.length := by
  have hsub : links.map (·.file) ⊆ view.files := by
    intro file hfile
    obtain ⟨l, hl, rfl⟩ := List.mem_map.1 hfile
    exact h.mem_files l hl
  have hle := (List.subperm_of_subset hfresh.1 hsub).length_le
  rwa [List.length_map] at hle

/-- With fuel for all files, a chain is either loaded or refused, as it ends. -/
theorem loadChain_outcome (hfuel : view.files.length < fuel) (path : Path) :
    (∃ links, Follows json view path links none ∧ (links.map (·.file)).Nodup ∧
      loadChain json view fuel [] path = .ok (merged links)) ∨
    ∃ links p e, Follows json view path links (some p) ∧ (links.map (·.file)).Nodup ∧
      Refused json view (links.getLast?.map (·.path)) (links.map (·.file)) p e ∧
      loadChain json view fuel [] path = .error e := by
  obtain ⟨links, next, hfollows, hfresh, hend⟩ := exists_follows json view none [] path
  have hlength := hfollows.length_le hfresh
  cases next with
  | none =>
    exact .inl ⟨links, hfollows, hfresh.1, hfollows.loadChain_eq hfresh (by omega)⟩
  | some p =>
    obtain ⟨e, he⟩ := hend p rfl
    rw [Option.or_none] at he
    refine .inr ⟨links, p, e, hfollows, hfresh.1, he.of_mem_iff (by simp), ?_⟩
    exact hfollows.loadChain_eq_error hfresh (by omega) he

theorem loadChain_eq_ok_iff (hfuel : view.files.length < fuel) {c : Config} :
    loadChain json view fuel [] path = .ok c ↔ ∃ links, Follows json view path links none ∧
      (links.map (·.file)).Nodup ∧ c = merged links := by
  constructor
  · intro h
    rcases loadChain_outcome hfuel path with ⟨links, hfollows, hnodup, hok⟩ |
      ⟨links, p, e, -, -, -, herror⟩
    · rw [h] at hok
      cases hok
      exact ⟨links, hfollows, hnodup, rfl⟩
    · rw [h] at herror
      cases herror
  · rintro ⟨links, hfollows, hnodup, rfl⟩
    have hfresh := fresh_of_nodup hnodup
    have hlength := hfollows.length_le hfresh
    exact hfollows.loadChain_eq hfresh (by omega)

theorem loadChain_eq_error_iff (hfuel : view.files.length < fuel) :
    loadChain json view fuel [] path = .error e ↔ ∃ links p, Follows json view path links (some p) ∧
      (links.map (·.file)).Nodup ∧
      Refused json view (links.getLast?.map (·.path)) (links.map (·.file)) p e := by
  constructor
  · intro h
    rcases loadChain_outcome hfuel path with ⟨links, -, -, hok⟩ |
      ⟨links, p, e, hfollows, hnodup, hrefused, herror⟩
    · rw [h] at hok
      cases hok
    · rw [h] at herror
      cases herror
      exact ⟨links, p, hfollows, hnodup, hrefused⟩
  · rintro ⟨links, p, hfollows, hnodup, hrefused⟩
    have hfresh := fresh_of_nodup hnodup
    have hlength := hfollows.length_le hfresh
    exact hfollows.loadChain_eq_error hfresh (by omega) (hrefused.of_mem_iff (by simp))

theorem exists_of_map_eq_ok {ε α β : Type} {x : Except ε α} {f : α → β} {b : β}
    (h : x.map f = .ok b) : ∃ a, x = .ok a ∧ f a = b := by
  cases x with
  | error e => cases h
  | ok a => exact ⟨a, rfl, Except.ok.inj h⟩

/-- What is found at the link's path is its file, with its configuration. -/
theorem Link.isRead_of_map {tree : FileTree} {l : Link}
    (h : (tree.resolve l.path).map (fun place =>
      (place.names, place.node.content.map (read? json))) = .ok (l.file, .ok (some l.config))) :
    l.IsRead json tree.view := by
  obtain ⟨place, hresolve, hfound⟩ := exists_of_map_eq_ok h
  obtain ⟨hnames, hcontent⟩ := Prod.mk.inj hfound
  obtain ⟨text, htext, hread⟩ := exists_of_map_eq_ok hcontent
  exact ⟨place, text, hresolve, hnames, htext, (read?_eq_some_iff json).1 hread⟩

/-- Loading a configuration comes to an end on every system of files: more fuel changes
nothing.  It succeeds if the chain of the configurations that are extended ends with one
that extends nothing, and fails if the chain comes to a path that is missing, unreadable,
invalid or leads back into the chain.  The configurations of the chain are put on top of
each other: the patterns and overrides of the farthest one come first, and the nearest
one that sets a rule decides about it.  Every configuration can be said by a file. -/
theorem loadFile_spec (json : Json.Codec) (view : FileView) (path : Path) :
    (∀ more, loadChain json view (view.files.length + 1 + more) [] path =
      loadFile json view path) ∧
    (∀ c, loadFile json view path = .ok c ↔ ∃ links, Follows json view path links none ∧
      (links.map (·.file)).Nodup ∧ c = merged links) ∧
    (∀ e, loadFile json view path = .error e ↔ ∃ links p, Follows json view path links (some p) ∧
      (links.map (·.file)).Nodup ∧
      Refused json view (links.getLast?.map (·.path)) (links.map (·.file)) p e) ∧
    (∀ links, (merged links).ignore = links.reverse.flatMap (·.config.ignore) ∧
      (merged links).overrides = links.reverse.flatMap (·.config.overrides) ∧
      ∀ key, (merged links).rules.lookup key = links.findSome? (·.config.rules.lookup key)) ∧
    ∀ text (c : Config), c.KeysOnce → json.read? text = some c.toJson → Says json text c := by
  have hfuel : view.files.length < view.files.length + 1 := Nat.lt_succ_self _
  refine ⟨fun more => ?_, fun c => loadChain_eq_ok_iff hfuel, fun e => loadChain_eq_error_iff hfuel,
    fun links => ⟨merged_ignore links, merged_overrides links, lookup_merged links⟩,
    fun _ _ hc => says_toJson json hc⟩
  have hmore : view.files.length < view.files.length + 1 + more := by omega
  cases hload : loadFile json view path with
  | ok c => exact (loadChain_eq_ok_iff hmore).2 ((loadChain_eq_ok_iff hfuel).1 hload)
  | error e => exact (loadChain_eq_error_iff hmore).2 ((loadChain_eq_error_iff hfuel).1 hload)

/-- A configuration that extends two others in a row, the last one being written as an array; an
empty one; one that is invalid; and one that extends itself. -/
def sharedFiles : FileTree where
  root := .directory ""
    [.directory "app"
      [.text "lint.json" "\x7b\"extends\": \"../shared/base\",
        \"rules\": \x7b\"MSTEST0017\": \"off\"\x7d, \"ignore\": [\"**/obj/**\"]\x7d"],
     .directory "shared"
      [.text "base.json" "\x7b\"extends\": \"team.json\", \"ignore\": [\"**/bin/**\"],
        \"rules\": \x7b\"MSTEST0017\": \"error\", \"MSTEST0001\": \"info\"\x7d\x7d",
       .text "team.json" "[null, \x7b\"MSTEST0001\": \"error\"\x7d, [\"**/gen/**\"],
        [\x7b\"files\": [\"*.cs\"], \"rules\": \x7b\"MSTEST0002\": \"warning\"\x7d\x7d]]"],
     .text "empty.json" "[]",
     .text "broken.json" "\x7b\"rules\": 5\x7d",
     .text "loop.json" "\x7b\"extends\": \"loop\"\x7d"]

theorem loadFile_spec_shared :
    let load (path : Path) : Except ConfigError Config := loadFile .strict sharedFiles.view path
    load ⟨"app/lint.json"⟩ = .ok ⟨none, [("MSTEST0001", .on .info), ("MSTEST0017", .off)],
        ["**/gen/**", "**/bin/**", "**/obj/**"], [⟨["*.cs"], [("MSTEST0002", .on .warning)]⟩]⟩ ∧
      load ⟨"empty.json"⟩ = .ok .empty ∧
      load ⟨"broken.json"⟩ = .error (.invalid ⟨"broken.json"⟩) ∧
      load ⟨"loop.json"⟩ = .error (.circular ⟨"loop.json"⟩) := by
  intro load
  let view := sharedFiles.view
  refine ⟨?_, ?_, ?_, ?_⟩
  · let lint : Link := ⟨⟨"app/lint.json"⟩, ["app", "lint.json"],
      ⟨some "../shared/base", [("MSTEST0017", .off)], ["**/obj/**"], []⟩⟩
    let base : Link := ⟨⟨"app/../shared/base.json"⟩, ["shared", "base.json"],
      ⟨some "team.json", [("MSTEST0017", .on .error), ("MSTEST0001", .on .info)],
        ["**/bin/**"], []⟩⟩
    let team : Link := ⟨⟨"app/../shared/team.json"⟩, ["shared", "team.json"],
      ⟨none, [("MSTEST0001", .on .error)], ["**/gen/**"],
        [⟨["*.cs"], [("MSTEST0002", .on .warning)]⟩]⟩⟩
    have hteam : Follows .strict view team.path [team] none :=
      .last (Link.isRead_of_map (by decide +kernel)) rfl
    have hpath : basePath base.path "team.json" = team.path := by decide +kernel
    have hbase : Follows .strict view base.path [base, team] none :=
      .link (Link.isRead_of_map (by decide +kernel)) rfl (hpath ▸ hteam)
    have hpath' : basePath lint.path "../shared/base" = base.path := by decide +kernel
    have hlint : Follows .strict view lint.path [lint, base, team] none :=
      .link (Link.isRead_of_map (by decide +kernel)) rfl (hpath' ▸ hbase)
    exact ((loadFile_spec .strict view lint.path).2.1 _).2
      ⟨_, hlint, by decide +kernel, by decide +kernel⟩
  · let alone : Link := ⟨⟨"empty.json"⟩, ["empty.json"], .empty⟩
    have hempty : Follows .strict view alone.path [alone] none :=
      .last (Link.isRead_of_map (by decide +kernel)) rfl
    exact ((loadFile_spec .strict view alone.path).2.1 _).2
      ⟨_, hempty, by decide +kernel, by decide +kernel⟩
  · have hbroken : (sharedFiles.resolve ⟨"broken.json"⟩).map
        (·.node.content.map (read? .strict)) = .ok (.ok none) := by decide +kernel
    obtain ⟨place, hresolve, hfound⟩ := exists_of_map_eq_ok hbroken
    obtain ⟨text, hcontent, hread⟩ := exists_of_map_eq_ok hfound
    exact ((loadFile_spec .strict view ⟨"broken.json"⟩).2.2.1 _).2 ⟨[], _, .start _,
      List.nodup_nil, .invalid hresolve List.not_mem_nil hcontent
        ((read?_eq_none_iff .strict).1 hread)⟩
  · let loop : Link := ⟨⟨"loop.json"⟩, ["loop.json"], ⟨some "loop", [], [], []⟩⟩
    have hpath : loop.path = basePath loop.path "loop" := by decide +kernel
    have hloop : Follows .strict view loop.path [loop] (some loop.path) :=
      .link (Link.isRead_of_map (by decide +kernel)) rfl (hpath ▸ .start loop.path)
    have hback : (sharedFiles.resolve loop.path).map (·.names) = .ok loop.file := by
      decide +kernel
    obtain ⟨place, hresolve, hnames⟩ := exists_of_map_eq_ok hback
    exact ((loadFile_spec .strict view loop.path).2.2.1 _).2
      ⟨_, _, hloop, by decide +kernel, .circular hresolve (List.mem_singleton.2 hnames)⟩

end TestLint.Config
