import RowStream.Stream.Stage

/-!
# Chains

A chain is a source with stages over it, each of which has the one below it as its source. A chain
of any length is a batch iterator.
-/

namespace RowStream

/-- So many stages over a source. The outermost stage comes first. -/
def Chain (β : Type) : Nat → Type
  | 0 => β
  | n + 1 => Stage × Chain β n

namespace Chain

variable {β : Type}

instance iterator [BatchIterator β] : (n : Nat) → BatchIterator (Chain β n)
  | 0 => inferInstanceAs (BatchIterator β)
  | n + 1 =>
    letI := iterator n
    inferInstanceAs (BatchIterator (Stage × Chain β n))

/-- Puts fresh stages over a source; the first operator is that of the outermost one. -/
def build (source : β) : (operators : List Operator) → Chain β operators.length
  | [] => source
  | op :: ops => (Stage.new op, build source ops)

/-- The source at the bottom. -/
def source : {n : Nat} → Chain β n → β
  | 0, s => s
  | _ + 1, (_, inner) => source inner

/-- Works on the source at the bottom. -/
def modifySource (f : β → β) : {n : Nat} → Chain β n → Chain β n
  | 0, s => f s
  | _ + 1, (stage, inner) => (stage, modifySource f inner)

/-- The operators of the stages, the outermost first. -/
def operators : {n : Nat} → Chain β n → List Operator
  | 0, _ => []
  | _ + 1, (stage, inner) => stage.operator :: operators inner

@[simp] theorem source_build (s : β) (ops : List Operator) : (build s ops).source = s := by
  induction ops with
  | nil => rfl
  | cons op ops ih => exact ih

end Chain

/-- Puts stages over a source, the first of them directly. -/
def compose {β : Type} (source : β) (operators : List Operator) :
    Chain β operators.reverse.length :=
  Chain.build source operators.reverse

end RowStream
