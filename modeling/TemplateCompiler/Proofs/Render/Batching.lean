import Mathlib.Data.List.Chain
import TemplateCompiler.Render.Module

/-!
# Batched writes

Joining adjacent writes keeps what a render function does, and leaves a normal form: two lists of
operations that do the same, and have no empty writes, are batched to the same list. What a render
function does is its list of events (`Op.eventsOf`), in which the borders of blocks are events too.
That events determine the batched operations is shown by reading them backwards (`Event.replay`).
-/

namespace TemplateCompiler.Render

/-- What a render function does, step by step: it writes a character, runs a statement, or passes a
border of a block. -/
inductive Event where
  | char (c : Char)
  | code (statement : String)
  | opening (text : String)
  | closing (text : String)
deriving DecidableEq, Repr

namespace Op

/-! ## Views of operations -/

mutual

/-- The events of an operation. -/
def events : TextOp → List Event
  | .write markup => markup.toList.map .char
  | .code statement => [.code statement]
  | .block frame body => .opening frame.opening :: (eventsOf body ++ [.closing frame.closing])
termination_by structural op => op

/-- The events of a list of operations. -/
def eventsOf : List TextOp → List Event
  | [] => []
  | op :: ops => events op ++ eventsOf ops
termination_by structural ops => ops

end

section

variable {σ β τ γ : Type}

mutual

/-- The bodies of the blocks in an operation, at all depths. -/
def bodies : Op σ β → List (List (Op σ β))
  | .block _ body => body :: bodiesOf body
  | .write _ => []
  | .code _ => []
termination_by structural op => op

/-- The bodies of the blocks in a list of operations, at all depths. -/
def bodiesOf : List (Op σ β) → List (List (Op σ β))
  | [] => []
  | op :: ops => bodies op ++ bodiesOf ops
termination_by structural ops => ops

end

/-- A list of operations and the lists in its blocks, at all depths. -/
def levels (ops : List (Op σ β)) : List (List (Op σ β)) := ops :: bodiesOf ops

/-- The operation is a write. -/
def isWrite : Op σ β → Bool
  | .write _ => true
  | _ => false

/-- No two writes are adjacent, at any depth. -/
def IsBatched (ops : List (Op σ β)) : Prop :=
  ∀ level ∈ levels ops, level.IsChain fun a b => ¬(a.isWrite = true ∧ b.isWrite = true)

/-- No write is empty, at any depth. -/
def HasNoEmptyWrite (ops : List (Op σ β)) : Prop := ∀ level ∈ levels ops, .write "" ∉ level

theorem hasNoEmptyWrite_cons {op : Op σ β} {ops : List (Op σ β)}
    (h : HasNoEmptyWrite (op :: ops)) : op ≠ .write "" ∧ HasNoEmptyWrite ops := by
  have hhead := h (op :: ops) List.mem_cons_self
  refine ⟨fun heq => hhead (heq ▸ List.mem_cons_self), fun level hlevel => ?_⟩
  rcases List.mem_cons.mp hlevel with rfl | hbelow
  · exact fun hmem => hhead (List.mem_cons_of_mem _ hmem)
  · exact h level (List.mem_cons_of_mem _ (List.mem_append_right _ hbelow))

theorem hasNoEmptyWrite_body {scope : β} {body ops : List (Op σ β)}
    (h : HasNoEmptyWrite (.block scope body :: ops)) : HasNoEmptyWrite body := by
  intro level hlevel
  exact h level (List.mem_cons_of_mem _ (List.mem_append_left _ hlevel))

/-! ## Joining -/

theorem join_join_write (a b : String) (ops : List (Op σ β)) :
    join (.write a) (join (.write b) ops) = join (.write (a ++ b)) ops := by
  match ops with
  | [] => rfl
  | .write c :: rest =>
    show [.write (a ++ (b ++ c))] ++ rest = [.write (a ++ b ++ c)] ++ rest
    rw [String.append_assoc]
  | .code _ :: _ => rfl
  | .block _ _ :: _ => rfl

/-- Operations in front of others that are batched already. -/
def batchOnto (rest : List (Op σ β)) (ops : List (Op σ β)) : List (Op σ β) :=
  ops.foldr (fun op behind => join op.batchInside behind) rest

theorem batchOnto_nil (ops : List (Op σ β)) : batchOnto [] ops = batch ops := by
  induction ops with
  | nil => rfl
  | cons op ops ih =>
    rw [batch_cons, ← ih]
    rfl

theorem batch_append_eq_batchOnto (a b : List (Op σ β)) :
    batch (a ++ b) = batchOnto (batch b) a := by
  rw [← batchOnto_nil, ← batchOnto_nil, batchOnto, List.foldr_append]
  rfl

-- What is joined first may as well be put in front one by one.
theorem batchOnto_join (op : Op σ β) (ops rest : List (Op σ β)) :
    batchOnto rest (join op ops) = join op.batchInside (batchOnto rest ops) := by
  match op, ops with
  | .write a, .write b :: ops => exact (join_join_write a b (batchOnto rest ops)).symm
  | .write _, [] | .write _, .code _ :: _ | .write _, .block _ _ :: _ => rfl
  | .code _, _ | .block _ _, _ => rfl

/-- Batching again changes nothing: neither inside of an operation nor in a list. -/
theorem batchInside_batch_batchOnto :
    (∀ op : Op σ β, op.batchInside.batchInside = op.batchInside) ∧
      ∀ ops rest : List (Op σ β), batchOnto rest (batch ops) = batchOnto rest ops := by
  apply Op.induct
  case write => exact fun _ => rfl
  case code => exact fun _ => rfl
  case block =>
    intro scope body ih
    show Op.block scope (batch (batch body)) = .block scope (batch body)
    rw [← batchOnto_nil, ih, batchOnto_nil]
  case nil => exact fun _ => rfl
  case cons =>
    intro op ops ihop ihops rest
    rw [batch_cons, batchOnto_join, ihop, ihops]
    rfl

theorem batch_batch (ops : List (Op σ β)) : batch (batch ops) = batch ops := by
  rw [← batchOnto_nil (batch ops), batchInside_batch_batchOnto.2, batchOnto_nil]

-- Parts may be batched before the whole.
theorem batch_append_batch (a b : List (Op σ β)) :
    batch (batch a ++ batch b) = batch (a ++ b) := by
  rw [batch_append_eq_batchOnto, batch_append_eq_batchOnto, batch_batch,
    batchInside_batch_batchOnto.2]

-- Statements and blocks may be replaced before or after batching.
theorem batch_mapAll (f : σ → τ) (g : β → γ) (ops : List (Op σ β)) :
    batch (mapAll f g ops) = mapAll f g (batch ops) := by
  have hjoin (op : Op σ β) (ops : List (Op σ β)) :
      mapAll f g (join op ops) = join (op.map f g) (mapAll f g ops) := by
    match op, ops with
    | .write _, [] | .write _, .write _ :: _ | .write _, .code _ :: _ | .write _, .block _ _ :: _ =>
      rfl
    | .code _, _ | .block _ _, _ => rfl
  have h : (∀ op : Op σ β, (op.map f g).batchInside = op.batchInside.map f g) ∧
      ∀ ops : List (Op σ β), batch (mapAll f g ops) = mapAll f g (batch ops) := by
    apply Op.induct
    case write => exact fun _ => rfl
    case code => exact fun _ => rfl
    case block =>
      intro scope body ih
      exact congrArg (Op.block (g scope)) ih
    case nil => rfl
    case cons =>
      intro op ops ihop ihops
      rw [mapAll, batch_cons, batch_cons, ihop, ihops, hjoin]
  exact h.2 ops

/-! ## The normal form -/

theorem bodiesOf_join (op : Op σ β) (ops : List (Op σ β)) :
    bodiesOf (join op ops) = bodies op ++ bodiesOf ops := by
  match op, ops with
  | .write _, [] | .write _, .write _ :: _ | .write _, .code _ :: _ | .write _, .block _ _ :: _ =>
    rfl
  | .code _, _ | .block _ _, _ => rfl

-- The joined write has the neighbour that the second of the two had.
theorem isChain_join {op : Op σ β} {ops : List (Op σ β)}
    (h : ops.IsChain fun a b => ¬(a.isWrite = true ∧ b.isWrite = true)) :
    (join op ops).IsChain fun a b => ¬(a.isWrite = true ∧ b.isWrite = true) := by
  match op, ops with
  | .write _, [] => exact .singleton _
  | .write a, [.write b] => exact .singleton _
  | .write a, .write b :: next :: rest =>
    rw [List.isChain_cons_cons] at h
    exact .cons_cons h.1 h.2
  | .write _, .code _ :: _ | .write _, .block _ _ :: _ =>
    exact .cons_cons (by simp [isWrite]) h
  | .code _, _ | .block _ _, _ =>
    exact h.cons fun _ _ => by simp [isWrite]

theorem isBatched_batch (ops : List (Op σ β)) : IsBatched (batch ops) := by
  have h : (∀ op : Op σ β, ∀ level ∈ bodies op.batchInside,
        level.IsChain fun a b => ¬(a.isWrite = true ∧ b.isWrite = true)) ∧
      ∀ ops : List (Op σ β), IsBatched (batch ops) := by
    apply Op.induct
    case write => intro _ level hlevel; cases hlevel
    case code => intro _ level hlevel; cases hlevel
    case block => exact fun _ _ ih => ih
    case nil =>
      intro level hlevel
      obtain rfl := List.mem_singleton.mp hlevel
      exact .nil
    case cons =>
      intro op ops ihop ihops level hlevel
      -- joining changes the list itself, and none of the lists in its blocks
      rcases List.mem_cons.mp hlevel with rfl | hbelow
      · exact isChain_join (ihops _ List.mem_cons_self)
      · rw [batch_cons, bodiesOf_join] at hbelow
        rcases List.mem_append.mp hbelow with hop | hops
        · exact ihop level hop
        · exact ihops level (List.mem_cons_of_mem _ hops)
  exact h.2 ops

end

/-! ## Events -/

theorem eventsOf_join (op : TextOp) (ops : List TextOp) :
    eventsOf (join op ops) = events op ++ eventsOf ops := by
  match op, ops with
  | .write a, .write b :: rest =>
    simp only [join, eventsOf, events, String.toList_append, List.map_append, List.append_assoc]
  | .write _, [] | .write _, .code _ :: _ | .write _, .block _ _ :: _ => rfl
  | .code _, _ | .block _ _, _ => rfl

/-- Batching keeps what a render function does. -/
theorem eventsOf_batch (ops : List TextOp) : eventsOf (batch ops) = eventsOf ops := by
  have h : (∀ op : TextOp, events op.batchInside = events op) ∧
      ∀ ops : List TextOp, eventsOf (batch ops) = eventsOf ops := by
    apply Op.induct
    case write => exact fun _ => rfl
    case code => exact fun _ => rfl
    case block =>
      intro frame body ih
      rw [batchInside, events, events, ih]
    case nil => rfl
    case cons =>
      intro op ops ihop ihops
      rw [batch_cons, eventsOf_join, ihop, ihops, eventsOf]
  exact h.2 ops

end Op

/-! ## Reading events backwards -/

/-- What events that were read backwards amount to: the operations behind the place that is reached,
and for each block that is open there its closing text and the operations behind it. -/
structure Replay where
  behind : List TextOp
  pending : List (String × List TextOp)

/-- Reads the event in front of those that were read. The opening of a block that is not open leaves
everything as it is. -/
def Event.replay (e : Event) (r : Replay) : Replay :=
  match e with
  | .char c => { r with behind := Op.join (.write (String.singleton c)) r.behind }
  | .code statement => { r with behind := .code statement :: r.behind }
  | .closing text => ⟨[], (text, r.behind) :: r.pending⟩
  | .opening text =>
    match r.pending with
    | (closingText, outer) :: pending => ⟨.block ⟨text, closingText⟩ r.behind :: outer, pending⟩
    | [] => r

namespace Op

-- The characters of a text that is not empty are read as one write.
theorem foldr_replay_chars (c : Char) (cs : List Char) (r : Replay) :
    ((c :: cs).map Event.char).foldr Event.replay r =
      { r with behind := join (.write (String.ofList (c :: cs))) r.behind } := by
  induction cs generalizing c with
  | nil => rfl
  | cons d ds ih =>
    rw [List.map_cons, List.foldr_cons, ih]
    simp only [Event.replay, join_join_write]
    rw [← String.ofList_cons]

/-- The events of operations without empty writes are read as the batched operations. -/
theorem foldr_replay :
    (∀ op : TextOp, HasNoEmptyWrite [op] → ∀ r : Replay,
      (events op).foldr Event.replay r = { r with behind := join op.batchInside r.behind }) ∧
    ∀ ops : List TextOp, HasNoEmptyWrite ops → ∀ r : Replay,
      (eventsOf ops).foldr Event.replay r = { r with behind := batchOnto r.behind ops } := by
  apply Op.induct
  case write =>
    intro markup h r
    have hne : markup ≠ "" := fun heq => (hasNoEmptyWrite_cons h).1 (by rw [heq])
    obtain ⟨c, cs, hcs⟩ : ∃ c cs, markup.toList = c :: cs :=
      List.exists_cons_of_ne_nil (mt String.toList_eq_nil_iff.mp hne)
    rw [events, hcs, foldr_replay_chars, ← hcs, String.ofList_toList]
    rfl
  case code => exact fun _ _ _ => rfl
  case block =>
    intro frame body ih h r
    -- the closing puts aside what is behind the block, and the opening takes it up again
    rw [events, List.foldr_cons, List.foldr_append, List.foldr_cons, List.foldr_nil,
      ih (hasNoEmptyWrite_body h)]
    simp only [Event.replay, batchOnto_nil]
    rfl
  case nil => exact fun _ _ => rfl
  case cons =>
    intro op ops ihop ihops h r
    have hop : HasNoEmptyWrite [op] := by
      intro level hlevel
      rcases List.mem_cons.mp hlevel with rfl | hbelow
      · exact fun hmem => (hasNoEmptyWrite_cons h).1 (List.mem_singleton.mp hmem).symm
      · rw [bodiesOf, bodiesOf, List.append_nil] at hbelow
        exact h level (List.mem_cons_of_mem _ (List.mem_append_left _ hbelow))
    rw [eventsOf, List.foldr_append, ihops (hasNoEmptyWrite_cons h).2, ihop hop]
    rfl

/-- Events determine the batched operations. -/
theorem batch_eq_of_eventsOf_eq {a b : List TextOp} (ha : HasNoEmptyWrite a)
    (hb : HasNoEmptyWrite b) (h : eventsOf a = eventsOf b) : batch a = batch b := by
  -- equal events are read alike, and what is read are the batched operations
  have hread := congrArg (·.foldr Event.replay ⟨[], []⟩) h
  simp only [foldr_replay.2 _ ha, foldr_replay.2 _ hb, batchOnto_nil, Replay.mk.injEq] at hread
  exact hread.1

end Op

/-! ## Modules -/

/-- The item defines a render function. -/
def ModuleItem.isRender : ModuleItem → Bool
  | .render _ => true
  | _ => false

namespace Module

/-- Only the body of the first render function is batched. -/
theorem batchFirst_eq (items : List ModuleItem) :
    ((∀ i ∈ items, i.isRender = false) ∧ batchFirst items = items) ∨
      ∃ before call behind, (∀ i ∈ before, i.isRender = false) ∧
        items = before ++ .render call :: behind ∧
        batchFirst items = before ++ .render { call with body := Op.batch call.body } :: behind := by
  induction items with
  | nil => exact .inl ⟨fun _ h => (List.not_mem_nil h).elim, rfl⟩
  | cons i rest ih =>
    by_cases hi : i.isRender = true
    · obtain ⟨call, rfl⟩ : ∃ call, i = .render call := by
        cases i <;> simp_all [ModuleItem.isRender]
      exact .inr ⟨[], call, rest, fun _ h => (List.not_mem_nil h).elim, rfl, rfl⟩
    · have hnot : i.isRender = false := Bool.eq_false_iff.mpr hi
      have hskip : batchFirst (i :: rest) = i :: batchFirst rest := by
        cases i <;> first | rfl | exact absurd rfl hi
      rcases ih with ⟨hnone, hrest⟩ | ⟨before, call, behind, hnone, hitems, hrest⟩
      · exact .inl ⟨List.forall_mem_cons.mpr ⟨hnot, hnone⟩, by rw [hskip, hrest]⟩
      · refine .inr ⟨i :: before, call, behind, List.forall_mem_cons.mpr ⟨hnot, hnone⟩, ?_, ?_⟩
        · rw [hitems, List.cons_append]
        · rw [hskip, hrest, List.cons_append]

end Module

/-! ## Main result -/

/-- Batching joins adjacent writes and nothing else. It keeps the events, leaves no adjacent writes at
any depth, does not depend on what was batched before, and gives the same list for all lists with the
same events and without empty writes. In a module it changes the body of the first render function. -/
theorem batch_canonical (ops more : List TextOp) (m : Module) :
    Op.eventsOf (Op.batch ops) = Op.eventsOf ops ∧
    Op.IsBatched (Op.batch ops) ∧
    Op.batch (Op.batch ops) = Op.batch ops ∧
    Op.batch (ops ++ more) = Op.batch (Op.batch ops ++ Op.batch more) ∧
    (Op.HasNoEmptyWrite ops → Op.HasNoEmptyWrite more → Op.eventsOf ops = Op.eventsOf more →
      Op.batch ops = Op.batch more) ∧
    m.batchWrites.header = m.header ∧
    m.batchWrites.imports = m.imports ∧
    (((∀ i ∈ m.items, i.isRender = false) ∧ m.batchWrites.items = m.items) ∨
      ∃ before call behind, (∀ i ∈ before, i.isRender = false) ∧
        m.items = before ++ .render call :: behind ∧
        m.batchWrites.items =
          before ++ .render { call with body := Op.batch call.body } :: behind) :=
  ⟨Op.eventsOf_batch ops, Op.isBatched_batch ops, Op.batch_batch ops,
    (Op.batch_append_batch ops more).symm, Op.batch_eq_of_eventsOf_eq, rfl, rfl,
    Module.batchFirst_eq m.items⟩

/-- Two lists with different writes but the same events, around a block. -/
theorem batch_canonical_split_writes :
    Op.batch ([.write "<ul>", .write "<li>", .block ⟨"if (x) \x7b", "\x7d"⟩ [.write "a", .write "b"],
      .write "c"] : List TextOp) =
    Op.batch [.write "<ul><li>", .block ⟨"if (x) \x7b", "\x7d"⟩ [.write "ab"], .write "c"] := by
  refine (batch_canonical _ _ ⟨none, .empty, []⟩).2.2.2.2.1 ?_ ?_ (by decide)
  · intro level hlevel
    simp [Op.levels, Op.bodiesOf, Op.bodies] at hlevel
    rcases hlevel with rfl | rfl <;> simp
  · intro level hlevel
    simp [Op.levels, Op.bodiesOf, Op.bodies] at hlevel
    rcases hlevel with rfl | rfl <;> simp

end TemplateCompiler.Render
