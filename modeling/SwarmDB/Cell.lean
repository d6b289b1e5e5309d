import Mathlib.Data.List.Basic

namespace SwarmDB

-- What can be done to a place that holds one value or none.
inductive CellOp (V : Type)
  | create (value : V)
  | update (value : V)
  | remove
  deriving DecidableEq, Repr

namespace CellOp

variable {V : Type}

-- Creating fails where there is a value, updating where there is none.
def perform : CellOp V → Option V → Option V
  | create value, none => some value
  | create _, some held => some held
  | update _, none => none
  | update value, some _ => some value
  | remove, _ => none

def performAll (ops : List (CellOp V)) (cell : Option V) : Option V :=
  ops.foldl (fun cell op => op.perform cell) cell

@[simp] theorem performAll_nil (cell : Option V) : performAll [] cell = cell := rfl

@[simp] theorem performAll_cons (op : CellOp V) (ops : List (CellOp V)) (cell : Option V) :
    performAll (op :: ops) cell = performAll ops (op.perform cell) := rfl

-- A history leaves every value alone, or does not depend on the value it found.
theorem performAll_some (ops : List (CellOp V)) :
    (∀ held, performAll ops (some held) = some held) ∨
      ∀ held other, performAll ops (some held) = performAll ops (some other) := by
  induction ops with
  | nil => exact Or.inl fun _ => rfl
  | cons op rest ih =>
      cases op with
      | create _ => exact ih
      | update _ | remove => exact Or.inr fun _ _ => rfl

-- Once more over what it made itself, a history that starts with a create changes nothing.
theorem performAll_again {ops : List (CellOp V)} (h : ∀ op ∈ ops.head?, ∃ value, op = create value) :
    performAll ops (performAll ops none) = performAll ops none := by
  cases ops with
  | nil => rfl
  | cons op rest =>
      obtain ⟨value, rfl⟩ := h op rfl
      show performAll (create value :: rest) (performAll rest (some value)) = performAll rest (some value)
      cases hmade : performAll rest (some value) with
      | none => exact hmade
      | some made =>
          show performAll rest (some made) = some made
          rcases performAll_some rest with hkeeps | hforgets
          · exact hkeeps made
          · rw [hforgets made value]
            exact hmade

end CellOp

end SwarmDB
