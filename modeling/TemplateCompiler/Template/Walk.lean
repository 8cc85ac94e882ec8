import TemplateCompiler.Template.Program

/-!
# Walks through templates

The tags of a template in authored order, each with the tags around it, and the tag that an attribute
tag belongs to. `Occurrence.owner?` never is an attribute tag (`isAttributeTag_of_owner?`).
-/

namespace TemplateCompiler

/-- A tag and the tags around it, the innermost first. -/
structure Occurrence where
  tag : Tag
  enclosing : List Tag
deriving DecidableEq, Repr

mutual

/-- The tags of a node, where `enclosing` are the tags around it. -/
def Node.occurrences (enclosing : List Tag) : Node → List Occurrence
  | .leaf _ _ => []
  | .tag _ t children => ⟨t, enclosing⟩ :: Node.occurrencesIn (t :: enclosing) children
termination_by structural n => n

/-- The tags of a list of nodes, where `enclosing` are the tags around them. -/
def Node.occurrencesIn (enclosing : List Tag) : List Node → List Occurrence
  | [] => []
  | n :: ns => n.occurrences enclosing ++ Node.occurrencesIn enclosing ns
termination_by structural ns => ns

end

/-- The tags of a program. -/
def Program.occurrences (p : Program) : List Occurrence := Node.occurrencesIn [] p.nodes

theorem Node.occurrencesIn_eq_flatMap (enclosing : List Tag) (ns : List Node) :
    Node.occurrencesIn enclosing ns = ns.flatMap (·.occurrences enclosing) := by
  induction ns with
  | nil => rfl
  | cons n ns ih => simp [Node.occurrencesIn, ih]

/-- The tag that an occurrence belongs to: itself, or for an attribute tag the nearest tag around it
that is none. -/
def Occurrence.owner? (o : Occurrence) : Option Tag :=
  if o.tag.isAttributeTag then o.enclosing.find? fun t => !t.isAttributeTag else some o.tag

/-- An owner is no attribute tag. -/
theorem Occurrence.isAttributeTag_of_owner? {o : Occurrence} {t : Tag} (h : o.owner? = some t) :
    t.isAttributeTag = false := by
  unfold Occurrence.owner? at h
  split at h
  · simpa using List.find?_some h
  · rename_i hn
    simp only [Option.some.injEq] at h
    subst h
    simpa using hn

/-! ## Traces -/

/-- The steps of a walk through a template: into a tag, into its children, and past a leaf. -/
inductive Step where
  | tag (name : TagName)
  | children (count : Nat)
  | leave
  | leaf (leaf : Leaf)
deriving DecidableEq, Repr

mutual

/-- The steps of a walk through a node that does not go into the tags which `pruned` holds of. -/
def Node.trace (pruned : Tag → Bool) : Node → List Step
  | .leaf _ l => [.leaf l]
  | .tag _ t children =>
    if pruned t then [.tag t.name]
    else .tag t.name :: .children children.length ::
      (Node.traceIn pruned children ++ [.leave])
termination_by structural n => n

/-- The steps of a walk through a list of nodes. -/
def Node.traceIn (pruned : Tag → Bool) : List Node → List Step
  | [] => []
  | n :: ns => n.trace pruned ++ Node.traceIn pruned ns
termination_by structural ns => ns

end

end TemplateCompiler
