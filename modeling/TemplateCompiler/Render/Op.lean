/-!
# Render operations

What a render function does, in order: it writes constant markup, runs statements and enters blocks.
Statements and blocks are texts in the end, but the type leaves open what they are. `batch` joins
adjacent writes.
-/

namespace TemplateCompiler.Render

/-- An operation of a render function, where `σ` are its statements and `β` its blocks. -/
inductive Op (σ β : Type) where
  | write (markup : String)
  | code (statement : σ)
  | block (scope : β) (body : List (Op σ β))
deriving Repr

/-- The texts before and behind the body of a block. -/
structure Frame where
  opening : String
  closing : String
deriving DecidableEq, Repr

/-- An operation as text. -/
abbrev TextOp := Op String Frame

namespace Op

variable {σ β τ γ : Type}

/-- Induction over an operation and the lists of operations in its blocks. -/
theorem induct {P : Op σ β → Prop} {Q : List (Op σ β) → Prop}
    (write : ∀ markup, P (.write markup)) (code : ∀ statement, P (.code statement))
    (block : ∀ scope body, Q body → P (.block scope body))
    (nil : Q []) (cons : ∀ op ops, P op → Q ops → Q (op :: ops)) : (∀ op, P op) ∧ ∀ ops, Q ops :=
  ⟨fun op => Op.rec (motive_1 := P) (motive_2 := Q) write code block nil cons op,
    fun ops => Op.rec_1 (motive_1 := P) (motive_2 := Q) write code block nil cons ops⟩

/-! ## Mapping -/

mutual

/-- An operation with other statements and blocks in the same places. -/
def map (f : σ → τ) (g : β → γ) : Op σ β → Op τ γ
  | .write markup => .write markup
  | .code statement => .code (f statement)
  | .block scope body => .block (g scope) (mapAll f g body)
termination_by structural op => op

/-- A list of operations with other statements and blocks in the same places. -/
def mapAll (f : σ → τ) (g : β → γ) : List (Op σ β) → List (Op τ γ)
  | [] => []
  | op :: ops => op.map f g :: mapAll f g ops
termination_by structural ops => ops

end

theorem mapAll_eq_map (f : σ → τ) (g : β → γ) (ops : List (Op σ β)) :
    mapAll f g ops = ops.map (·.map f g) := by
  induction ops with
  | nil => rfl
  | cons op ops ih => simp [mapAll, ih]

/-! ## Batching -/

/-- Puts an operation in front of others. A write is joined with the write that follows. -/
def join : Op σ β → List (Op σ β) → List (Op σ β)
  | .write a, .write b :: rest => .write (a ++ b) :: rest
  | op, rest => op :: rest

mutual

/-- An operation with adjacent writes inside of it joined. -/
def batchInside : Op σ β → Op σ β
  | .block scope body => .block scope (batch body)
  | .write markup => .write markup
  | .code statement => .code statement
termination_by structural op => op

/-- Operations with adjacent writes joined, at all depths. -/
def batch : List (Op σ β) → List (Op σ β)
  | [] => []
  | op :: ops => join op.batchInside (batch ops)
termination_by structural ops => ops

end

@[simp] theorem batch_nil : batch ([] : List (Op σ β)) = [] := rfl

@[simp] theorem batch_cons (op : Op σ β) (ops : List (Op σ β)) :
    batch (op :: ops) = join op.batchInside (batch ops) := rfl

end Op

end TemplateCompiler.Render
