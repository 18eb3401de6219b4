namespace Loadable

variable {ε α : Type}

-- The steps that checkers are made of: the first one that fails decides the error.
def require (condition : Prop) [Decidable condition] (error : ε) : Except ε Unit :=
  if condition then .ok () else .error error

def demand (value : Option α) (error : ε) : Except ε α :=
  match value with
  | some value => .ok value
  | none => .error error

@[simp] theorem require_eq_ok (condition : Prop) [Decidable condition] (error : ε) (result : Unit) :
    require condition error = .ok result ↔ condition := by
  unfold require
  split <;> simp_all

@[simp] theorem demand_eq_ok (value : Option α) (error : ε) (result : α) :
    demand value error = .ok result ↔ value = some result := by
  cases value <;> simp [demand]

end Loadable
