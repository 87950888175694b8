import TestLint.Compilation

/-!
# Declarations without their file

What a file declares depends on its number only in that the declarations point back to
their nodes.  The outline of a type has all that names are resolved by, and is the same
whatever number the file has.
-/

namespace TestLint

namespace TypeDeclaration

/-- What names are resolved by. -/
structure Outline where
  name : String
  fullName : String
  namespaceName : Option String
  typeParameters : List String
  baseTypes : List String

def outline (t : TypeDeclaration) : Outline :=
  ⟨t.name, t.fullName, t.namespaceName, t.typeParameters, t.baseTypes⟩

variable (file file' : FileId) (source : List Char) (namespaceName : Option String)

theorem outline_ofNode? (containing : Option String) (t : Tree) :
    (ofNode? file source namespaceName containing t).map outline =
      (ofNode? file' source namespaceName containing t).map outline := by
  rw [ofNode?, ofNode?]
  cases t.childByField? "name" <;> rfl

mutual

theorem outline_allOfNode (containing : Option String) (t : Tree) :
    (allOfNode file source namespaceName containing t).map outline =
      (allOfNode file' source namespaceName containing t).map outline := by
  obtain ⟨info, children⟩ := t
  have hnode := outline_ofNode? file file' source namespaceName containing (.node info children)
  rw [allOfNode, allOfNode]
  cases hread : ofNode? file source namespaceName containing (.node info children) with
  | none =>
    rw [hread, Option.map_none, eq_comm, Option.map_eq_none_iff] at hnode
    rw [hnode]
  | some d =>
    rw [hread, Option.map_some, eq_comm, Option.map_eq_some_iff] at hnode
    obtain ⟨d', hread', houtline⟩ := hnode
    have hname : d'.fullName = d.fullName := congrArg Outline.fullName houtline
    rw [hread']
    simp only [List.map_cons, houtline, hname]
    rw [outline_nestedInFirst d.fullName _ children]

theorem outline_nestedInFirst (containing : String) (isBody : NodeInfo → Bool) (ts : List Tree) :
    (nestedInFirst file source namespaceName containing isBody ts).map outline =
      (nestedInFirst file' source namespaceName containing isBody ts).map outline := by
  match ts with
  | [] => rfl
  | .node info members :: rest =>
    rw [nestedInFirst, nestedInFirst]
    split
    · exact outline_nestedAmong containing members
    · exact outline_nestedInFirst containing isBody rest

theorem outline_nestedAmong (containing : String) (ts : List Tree) :
    (nestedAmong file source namespaceName containing ts).map outline =
      (nestedAmong file' source namespaceName containing ts).map outline := by
  match ts with
  | [] => rfl
  | member :: rest =>
    rw [nestedAmong, nestedAmong, List.map_append, List.map_append,
      outline_nestedAmong containing rest]
    split
    · rw [outline_allOfNode (some containing) member]
    · rfl

end

end TypeDeclaration

namespace FileDeclarations

open TypeDeclaration (outline)

/-- The same is declared and brought into scope. -/
def Alike (a b : FileDeclarations) : Prop :=
  a.usings = b.usings ∧ a.types.map outline = b.types.map outline

theorem Alike.append {a a' b b' : FileDeclarations} (ha : a.Alike a') (hb : b.Alike b') :
    (a.append b).Alike (a'.append b') := by
  obtain ⟨husings, htypes⟩ := ha
  obtain ⟨husings', htypes'⟩ := hb
  simp only [Alike, FileDeclarations.append, List.map_append, husings, husings', htypes, htypes',
    and_self]

variable (file file' : FileId) (source : List Char)

mutual

theorem alike_ofMember (outer current : Option String) (t : Tree) :
    (ofMember file source outer current t).Alike (ofMember file' source outer current t) := by
  obtain ⟨info, children⟩ := t
  rw [ofMember, ofMember]
  split
  · exact ⟨rfl, rfl⟩
  · exact ⟨rfl, rfl⟩
  · exact ⟨rfl, rfl⟩
  · exact alike_ofBody _ _ children
  · exact alike_ofMembers _ _ children
  · split
    · exact ⟨rfl, TypeDeclaration.outline_allOfNode file file' source current none _⟩
    · exact ⟨rfl, rfl⟩

theorem alike_ofMembers (outer current : Option String) (ts : List Tree) :
    (ofMembers file source outer current ts).Alike (ofMembers file' source outer current ts) := by
  match ts with
  | [] => exact ⟨rfl, rfl⟩
  | member :: rest =>
    rw [ofMembers, ofMembers]
    refine Alike.append ?_ (alike_ofMembers outer _ rest)
    split
    · exact alike_ofMember outer current member
    · exact ⟨rfl, rfl⟩

theorem alike_ofBody (namespaceName : Option String) (isBody : NodeInfo → Bool) (ts : List Tree) :
    (ofBody file source namespaceName isBody ts).Alike
      (ofBody file' source namespaceName isBody ts) := by
  match ts with
  | [] => exact ⟨rfl, rfl⟩
  | .node info members :: rest =>
    rw [ofBody, ofBody]
    split
    · exact alike_ofMembers _ _ members
    · exact alike_ofBody _ _ rest

end

theorem alike_ofTree (t : Tree) : (ofTree file source t).Alike (ofTree file' source t) :=
  alike_ofMembers file file' source none none t.children

end FileDeclarations

end TestLint
