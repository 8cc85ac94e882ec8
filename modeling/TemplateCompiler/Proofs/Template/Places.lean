import Mathlib.Data.List.Forall2
import Mathlib.Data.List.Lex
import TemplateCompiler.Template.Walk

/-!
# Tags and their places

A place in a list of nodes is the index of one of them, then that of one of its children, and so on. The tags around a
tag are those on the way to its place (`Node.wayTo?`), and it begins before another tag just if its place is less. The
walk comes to the place of each tag once and in this order, whether it hands the tags around down to the children or
keeps them on one stack, and the owner of a tag is the nearest plain tag on its way (`Node.tags_in_order`).
-/

namespace TemplateCompiler

/-! ## Places -/

/-- The tags on the way to a place, from the outermost one to the one at the place itself. -/
def Node.wayTo? (ns : List Node) : List Nat → Option (List Tag)
  | [] => some []
  | i :: place =>
    match ns[i]? with
    | some (.tag _ t children) => (Node.wayTo? children place).map (t :: ·)
    | _ => none

/-- The tag stands at a place, and around it are the tags on the way there. -/
def Occurrence.IsAt (ns : List Node) (place : List Nat) (o : Occurrence) : Prop :=
  Node.wayTo? ns place = some (o.enclosing.reverse ++ [o.tag])

/-- The occurrence with more tags around it. -/
def Occurrence.inside (outer : List Tag) (o : Occurrence) : Occurrence := { o with enclosing := o.enclosing ++ outer }

namespace Node

mutual

/-- The places of the tags of a node, as seen from the node. -/
def places : Node → List (List Nat)
  | .leaf _ _ => []
  | .tag _ _ children => [] :: placesFrom 0 children
termination_by structural n => n

/-- The places of the tags of a list of nodes, where `i` is the index of the first node. -/
def placesFrom (i : Nat) : List Node → List (List Nat)
  | [] => []
  | n :: ns => n.places.map (i :: ·) ++ placesFrom (i + 1) ns
termination_by structural ns => ns

end

section

variable {ns children : List Node} {i : Nat} {place : List Nat} {m : Marks} {t : Tag}

theorem wayTo?_cons (h : ns[i]? = some (.tag m t children)) :
    wayTo? ns (i :: place) = (wayTo? children place).map (t :: ·) := by
  rw [wayTo?, h]

theorem mem_placesFrom_iff :
    place ∈ placesFrom i ns ↔ ∃ j n below, ns[j]? = some n ∧ below ∈ n.places ∧ place = (i + j) :: below := by
  induction ns generalizing i with
  | nil => simp [placesFrom]
  | cons first ns ih =>
    rw [placesFrom, List.mem_append, ih, List.mem_map]
    constructor
    · rintro (⟨below, hbelow, rfl⟩ | ⟨j, n, below, hn, hbelow, rfl⟩)
      · exact ⟨0, first, below, rfl, hbelow, rfl⟩
      · exact ⟨j + 1, n, below, hn, hbelow, by rw [Nat.add_assoc, Nat.add_comm 1 j]⟩
    · rintro ⟨j, n, below, hn, hbelow, rfl⟩
      cases j with
      | zero =>
        obtain rfl : first = n := Option.some.inj hn
        exact .inl ⟨below, hbelow, rfl⟩
      | succ j => exact .inr ⟨j, n, below, hn, hbelow, by rw [Nat.add_assoc, Nat.add_comm 1 j]⟩

theorem mem_placesFrom_of_wayTo? (hplace : place ≠ []) (hway : (wayTo? ns place).isSome = true) :
    place ∈ placesFrom 0 ns := by
  induction place generalizing ns with
  | nil => exact absurd rfl hplace
  | cons i place ih =>
    rw [wayTo?] at hway
    split at hway
    · rename_i m t children hn
      rw [Option.isSome_map] at hway
      have hbelow : place ∈ places (.tag m t children) := by
        by_cases hnil : place = []
        · rw [hnil]
          exact List.mem_cons_self
        · exact List.mem_cons_of_mem _ (ih hnil hway)
      exact mem_placesFrom_iff.mpr ⟨i, _, place, hn, hbelow, by rw [Nat.zero_add]⟩
    · cases hway

theorem pairwise_places :
    (∀ n : Node, n.places.Pairwise (· < ·)) ∧ ∀ (ns : List Node) (i : Nat), (placesFrom i ns).Pairwise (· < ·) := by
  refine Node.induct ?_ ?_ ?_ ?_
  · intro m l
    exact .nil
  · intro m t children ih
    -- a tag begins before those inside of it
    refine .cons (fun place hplace => ?_) (ih 0)
    obtain ⟨j, n, below, -, -, rfl⟩ := mem_placesFrom_iff.mp hplace
    exact List.nil_lt_cons _ _
  · intro i
    exact .nil
  · intro n ns ihn ihns i
    rw [placesFrom, List.pairwise_append]
    refine ⟨List.pairwise_map.mpr (ihn.imp fun h => List.cons_lt_cons_iff.mpr (.inr ⟨rfl, h⟩)), ihns (i + 1), ?_⟩
    -- and those inside of it before the ones behind it
    intro place hplace later hlater
    obtain ⟨below, -, rfl⟩ := List.mem_map.mp hplace
    obtain ⟨j, n', below', -, -, rfl⟩ := mem_placesFrom_iff.mp hlater
    exact List.cons_lt_cons_iff.mpr (.inl (by omega))

end

/-! ## The walk -/

/-- Tags further out are left as they are. -/
theorem occurrences_append (outer : List Tag) :
    (∀ (n : Node) (inner : List Tag), n.occurrences (inner ++ outer) = (n.occurrences inner).map (·.inside outer)) ∧
    ∀ (ns : List Node) (inner : List Tag),
      occurrencesIn (inner ++ outer) ns = (occurrencesIn inner ns).map (·.inside outer) := by
  refine Node.induct ?_ ?_ ?_ ?_
  · intro m l inner
    rfl
  · intro m t children ih inner
    rw [occurrences, occurrences, List.map_cons, ← ih (t :: inner)]
    rfl
  · intro inner
    rfl
  · intro n ns ihn ihns inner
    rw [occurrencesIn, occurrencesIn, List.map_append, ihn, ihns]

/-- What is at a place below a tag has that tag around it, outside of all others. -/
theorem isAt_inside {ns children : List Node} {i : Nat} {place : List Nat} {m : Marks} {t : Tag} {o : Occurrence}
    (h : ns[i]? = some (.tag m t children)) (ho : o.IsAt children place) :
    (o.inside [t]).IsAt ns (i :: place) := by
  rw [Occurrence.IsAt, wayTo?_cons h, ho, Occurrence.inside]
  simp

/-- The walk through a part of the nodes comes to the places there, one after the other. -/
theorem forall₂_isAt :
    (∀ (n : Node) (ns : List Node) (i : Nat), ns[i]? = some n →
      List.Forall₂ (Occurrence.IsAt ns) (n.places.map (i :: ·)) (n.occurrences [])) ∧
    ∀ (part ns : List Node) (i : Nat), ns.drop i = part →
      List.Forall₂ (Occurrence.IsAt ns) (placesFrom i part) (occurrencesIn [] part) := by
  refine Node.induct ?_ ?_ ?_ ?_
  · intro m l ns i h
    exact .nil
  · intro m t children ih ns i h
    rw [places, occurrences, List.map_cons, ← List.nil_append [t], (occurrences_append [t]).2]
    refine .cons (wayTo?_cons h) ?_
    rw [List.forall₂_map_left_iff, List.forall₂_map_right_iff]
    exact (ih children 0 rfl).imp fun place o ho => isAt_inside h ho
  · intro ns i h
    exact .nil
  · intro n part ihn ihpart ns i h
    have hn : ns[i]? = some n := by rw [← List.head?_drop, h, List.head?_cons]
    have hpart : ns.drop (i + 1) = part := by rw [← List.tail_drop, h, List.tail_cons]
    exact List.rel_append (ihn ns i hn) (ihpart ns (i + 1) hpart)

theorem mem_placesFrom_iff_isAt {ns : List Node} {place : List Nat} :
    place ∈ placesFrom 0 ns ↔ ∃ o : Occurrence, o.IsAt ns place := by
  constructor
  · intro h
    obtain ⟨k, hk, rfl⟩ := List.mem_iff_getElem.mp h
    have hwalk := forall₂_isAt.2 ns ns 0 rfl
    exact ⟨_, hwalk.get hk (hwalk.length_eq ▸ hk)⟩
  · rintro ⟨o, ho⟩
    refine mem_placesFrom_of_wayTo? ?_ (Option.isSome_of_eq_some ho)
    rintro rfl
    exact List.concat_ne_nil _ _ (Option.some.inj ho).symm

/-! ## The walk with a stack -/

section

variable {M : Type → Type} [Monad M]

mutual

/-- Hands the tags of a node over, each with the tags on the stack. A tag lies on top of the stack while its children
are visited. -/
def visit (f : Tag → List Tag → M Unit) : Node → StateT (List Tag) M Unit
  | .leaf _ _ => pure ()
  | .tag _ t children => do
    f t (← get)
    modify (· ++ [t])
    visitAll f children
    modify List.dropLast
termination_by structural n => n

/-- Hands the tags of a list of nodes over, each with the tags on the stack. -/
def visitAll (f : Tag → List Tag → M Unit) : List Node → StateT (List Tag) M Unit
  | [] => pure ()
  | n :: ns => do
    n.visit f
    visitAll f ns
termination_by structural ns => ns

end

/-- Each visit leaves the stack as it was, and so the tags on it are always the tags around. -/
theorem run_visit [LawfulMonad M] (f : Tag → List Tag → M Unit) :
    (∀ (n : Node) (stack : List Tag), (n.visit f).run stack =
      ((n.occurrences stack.reverse).forM fun o => f o.tag o.enclosing.reverse) *> pure ((), stack)) ∧
    ∀ (ns : List Node) (stack : List Tag), (visitAll f ns).run stack =
      ((occurrencesIn stack.reverse ns).forM fun o => f o.tag o.enclosing.reverse) *> pure ((), stack) := by
  refine Node.induct ?_ ?_ ?_ ?_
  · intro m l stack
    simp [visit, occurrences]
  · intro m t children ih stack
    have hbelow := ih (stack ++ [t])
    rw [List.reverse_concat] at hbelow
    simp [visit, occurrences, hbelow, seqRight_eq_bind]
  · intro stack
    simp [visitAll, occurrencesIn]
  · intro n ns ihn ihns stack
    simp [visitAll, occurrencesIn, ihn, ihns, seqRight_eq_bind]

end

end Node

/-! ## Owners -/

/-- A plain tag is owned by itself, and an attribute tag by the nearest plain tag around it: there are only attribute
tags between them. -/
inductive Occurrence.IsOwnedBy : Occurrence → Tag → Prop
  | plain {t : Tag} {enclosing : List Tag} (ht : t.isAttributeTag = false) : IsOwnedBy ⟨t, enclosing⟩ t
  | slot {t owner : Tag} {between outer : List Tag} (ht : t.isAttributeTag = true)
      (hbetween : ∀ s ∈ between, s.isAttributeTag = true) (howner : owner.isAttributeTag = false) :
      IsOwnedBy ⟨t, between ++ owner :: outer⟩ owner

namespace Occurrence

variable {o : Occurrence}

theorem owner?_eq_some_iff {owner : Tag} : o.owner? = some owner ↔ o.IsOwnedBy owner := by
  constructor
  · intro h
    obtain ⟨t, enclosing⟩ := o
    rw [owner?] at h
    split at h
    · rename_i ht
      obtain ⟨howner, between, outer, henclosing, hbetween⟩ := List.find?_eq_some_iff_append.mp h
      dsimp only at henclosing
      rw [henclosing]
      exact .slot ht (fun s hs => by simpa using hbetween s hs) (by simpa using howner)
    · rename_i ht
      cases h
      exact .plain (by simpa using ht)
  · rintro (ht | ⟨ht, hbetween, howner⟩)
    · rw [owner?, if_neg (by simp [ht])]
    · rw [owner?, if_pos ht, List.find?_eq_some_iff_append]
      exact ⟨by simp [howner], _, _, rfl, fun s hs => by simp [hbetween s hs]⟩

theorem owner?_eq_none_iff (ht : o.tag.isAttributeTag = true) :
    o.owner? = none ↔ ∀ t ∈ o.enclosing, t.isAttributeTag = true := by
  rw [owner?, if_pos ht, List.find?_eq_none]
  simp

end Occurrence

/-- The walk comes to the tags of a list of nodes in the order in which they begin, once to each: to the places of tags
from the least one on, and at each of them with exactly the tags on the way there around. A visit with a single stack
for the tags around, the outermost one first, hands over the same, whatever is done with it, and leaves the stack empty.
A plain tag is found to be its own owner, and an attribute tag to be owned by the nearest plain tag around it; none is
found for it just if all tags around it are attribute tags, and what is found never is one. -/
theorem Node.tags_in_order (ns : List Node) :
    (∃ places : List (List Nat),
      places.Pairwise (· < ·) ∧ (∀ place, place ∈ places ↔ ∃ o : Occurrence, o.IsAt ns place) ∧
      List.Forall₂ (Occurrence.IsAt ns) places (Node.occurrencesIn [] ns)) ∧
    (∀ {σ : Type} (f : Tag → List Tag → StateM σ Unit),
      (Node.visitAll f ns).run [] =
        ((Node.occurrencesIn [] ns).forM fun o => f o.tag o.enclosing.reverse) *> pure ((), [])) ∧
    ∀ o ∈ Node.occurrencesIn [] ns,
      (∀ owner, o.owner? = some owner ↔ o.IsOwnedBy owner) ∧
      (o.tag.isAttributeTag = true → (o.owner? = none ↔ ∀ t ∈ o.enclosing, t.isAttributeTag = true)) ∧
      ∀ owner, o.owner? = some owner → owner.isAttributeTag = false := by
  refine ⟨⟨Node.placesFrom 0 ns, ?_, ?_, ?_⟩, fun f => ?_,
    fun o _ => ⟨fun owner => ?_, fun ht => ?_, fun owner h => ?_⟩⟩
  · exact Node.pairwise_places.2 ns 0
  · intro place
    exact Node.mem_placesFrom_iff_isAt
  · exact Node.forall₂_isAt.2 ns ns 0 rfl
  · exact (Node.run_visit f).2 ns []
  · exact Occurrence.owner?_eq_some_iff
  · exact Occurrence.owner?_eq_none_iff ht
  · exact Occurrence.isAttributeTag_of_owner? h

/-- Attribute tags one inside of the other in a list, a plain tag behind them, and an attribute tag on its own. -/
theorem Node.tags_in_order_list :
    let tag (name : String) : Tag := ⟨.static name, [], none, []⟩
    let node (name : String) (children : List Node) : Node := .tag ⟨false, ⟨1, 1⟩⟩ (tag name) children
    let nodes : List Node := [node "list" [node "@section" [node "@cell" []], node "b" []], node "@row" []]
    let cell : Occurrence := ⟨tag "@cell", [tag "@section", tag "list"]⟩
    let row : Occurrence := ⟨tag "@row", []⟩
    cell ∈ Node.occurrencesIn [] nodes ∧ cell.tag.isAttributeTag = true ∧ cell.IsOwnedBy (tag "list") ∧
    row ∈ Node.occurrencesIn [] nodes ∧ row.tag.isAttributeTag = true ∧ row.owner? = none ∧
    ∀ f : Tag → List Tag → StateM (List Tag) Unit, (Node.visitAll f nodes).run [] = (do
      f (tag "list") []
      f (tag "@section") [tag "list"]
      f (tag "@cell") [tag "list", tag "@section"]
      f (tag "b") [tag "list"]
      f (tag "@row") []
      pure ((), [])) := by
  intro tag node nodes cell row
  have hcell : cell ∈ Node.occurrencesIn [] nodes := by decide
  have hrow : row ∈ Node.occurrencesIn [] nodes := by decide
  obtain ⟨-, hvisit, howners⟩ := Node.tags_in_order nodes
  refine ⟨hcell, by decide, ((howners cell hcell).1 _).mp (by decide), hrow, by decide, ?_, fun f => ?_⟩
  · exact ((howners row hrow).2.1 (by decide)).mpr (by decide)
  · rw [hvisit f]
    rfl

end TemplateCompiler
