/-!
# Bindings in order

A list of keys and values in the order in which the keys first came. A value under a key that is
there takes the place of the old one; a new key goes to the end.
-/

namespace LispCore.Bindings

variable {α β : Type}

/-- Puts a value under a key, where `same` says which keys are one. -/
def put (same : α → α → Bool) (k : α) (v : β) : List (α × β) → List (α × β)
  | [] => [(k, v)]
  | (m, w) :: rest => if same m k then (m, v) :: rest else (m, w) :: put same k v rest

/-- Every key once, at its first place and with its last value. -/
def merge (same : α → α → Bool) (entries : List (α × β)) : List (α × β) :=
  entries.foldl (fun acc (k, v) => put same k v acc) []

end LispCore.Bindings
