import Loadable.Check
import Mathlib.Data.List.Forall2

namespace Loadable

variable {ε α β : Type}

@[simp] theorem ok_bind (result : α) (next : α → Except ε β) :
    (Except.ok result >>= next) = next result := rfl

@[simp] theorem error_bind (error : ε) (next : α → Except ε β) :
    (Except.error error >>= next) = Except.error error := rfl

-- What a run of steps with an answer went through.
@[simp] theorem bind_eq_ok_iff (step : Except ε α) (next : α → Except ε β) (answer : β) :
    (step >>= next) = .ok answer ↔ ∃ result, step = .ok result ∧ next result = .ok answer := by
  cases step with
  | ok result => simp [bind, Except.bind]
  | error error => simp [bind, Except.bind]

theorem bind_eq_error_iff (step : Except ε α) (next : α → Except ε β) (error : ε) :
    (step >>= next) = .error error ↔
      step = .error error ∨ ∃ result, step = .ok result ∧ next result = .error error := by
  cases step <;> simp

@[simp] theorem pure_eq_ok_iff (result answer : α) :
    (pure result : Except ε α) = .ok answer ↔ answer = result := by
  simp [pure, Except.pure, eq_comm]

theorem map_eq_ok_iff (f : α → β) (step : Except ε α) (answer : β) :
    step.map f = .ok answer ↔ ∃ result, step = .ok result ∧ f result = answer := by
  cases step <;> simp [Except.map]

theorem mapM_eq_ok_iff (step : α → Except ε β) (inputs : List α) (answers : List β) :
    inputs.mapM step = .ok answers ↔
      List.Forall₂ (fun input answer => step input = .ok answer) inputs answers := by
  induction inputs generalizing answers with
  | nil => rw [List.mapM_nil, pure_eq_ok_iff, List.forall₂_nil_left_iff]
  | cons input rest ih =>
      simp only [List.mapM_cons, bind_eq_ok_iff, pure_eq_ok_iff, ih, List.forall₂_cons_left_iff]
      constructor
      · rintro ⟨answer, hstep, others, hrest, rfl⟩
        exact ⟨answer, others, hstep, hrest, rfl⟩
      · rintro ⟨answer, others, hstep, hrest, rfl⟩
        exact ⟨answer, hstep, others, hrest, rfl⟩

theorem forM_eq_ok_iff (step : α → Except ε Unit) (inputs : List α) (result : Unit) :
    inputs.forM step = .ok result ↔ ∀ input ∈ inputs, step input = .ok () := by
  induction inputs with
  | nil => exact iff_of_true rfl (List.forall_mem_nil _)
  | cons input rest ih =>
      have hstep : (input :: rest).forM step = step input >>= fun _ => rest.forM step := rfl
      rw [hstep, bind_eq_ok_iff, List.forall_mem_cons]
      simp only [ih, Unique.exists_iff, PUnit.default_eq_unit]

-- Two runs agree if they agree after every answer that their first step can give.
theorem bind_congr_of_ok {step : Except ε α} {next next' : α → Except ε β}
    (h : ∀ result, step = .ok result → next result = next' result) :
    (step >>= next) = (step >>= next') := by
  cases step with
  | ok result => exact h result rfl
  | error error => rfl

theorem mapError_bind {ε' : Type} (f : ε → ε') (step : Except ε α) (next : α → Except ε β) :
    (step >>= next).mapError f = step.mapError f >>= fun result => (next result).mapError f := by
  cases step <;> rfl

@[simp] theorem mapError_eq_ok_iff {ε' : Type} (f : ε → ε') (step : Except ε α) (result : α) :
    step.mapError f = .ok result ↔ step = .ok result := by
  cases step <;> simp [Except.mapError]

theorem mapError_eq_error_iff {ε' : Type} (f : ε → ε') (step : Except ε α) (error : ε') :
    step.mapError f = .error error ↔ ∃ cause, step = .error cause ∧ f cause = error := by
  cases step <;> simp [Except.mapError]

theorem require_eq_error_iff (condition : Prop) [Decidable condition] (cause error : ε) :
    require condition cause = .error error ↔ ¬condition ∧ cause = error := by
  unfold require
  split <;> simp_all

-- The error that a run ends in, if it fails.
def failure? (run : Except ε α) : Option ε :=
  match run with
  | .ok _ => none
  | .error error => some error

@[simp] theorem failure?_ok (result : α) : failure? (.ok result : Except ε α) = none := rfl

@[simp] theorem failure?_error (error : ε) :
    failure? (.error error : Except ε α) = some error := rfl

theorem failure?_eq_some_iff (run : Except ε α) (error : ε) :
    failure? run = some error ↔ run = .error error := by
  cases run <;> simp

theorem failure?_eq_none_iff (run : Except ε α) : failure? run = none ↔ run.isOk := by
  cases run <;> simp [Except.isOk, Except.toBool]

-- Of steps that are taken one after the other, each with its error if it fails, the first
-- error is the one that a run ends in.
def firstError (steps : List (Option ε)) : Option ε := steps.findSome? id

@[simp] theorem firstError_nil : firstError ([] : List (Option ε)) = none := rfl

@[simp] theorem firstError_cons (step : Option ε) (rest : List (Option ε)) :
    firstError (step :: rest) = step.or (firstError rest) := by
  cases step <;> rfl

@[simp] theorem firstError_append (first rest : List (Option ε)) :
    firstError (first ++ rest) = (firstError first).or (firstError rest) :=
  List.findSome?_append

theorem firstError_flatMap (steps : β → List (Option ε)) (items : List β) :
    firstError (items.flatMap steps) = firstError (items.map fun item => firstError (steps item)) := by
  induction items with
  | nil => rfl
  | cons item rest ih => rw [List.flatMap_cons, firstError_append, ih, List.map_cons, firstError_cons]

theorem firstError_eq_none_iff (steps : List (Option ε)) :
    firstError steps = none ↔ ∀ step ∈ steps, step = none :=
  List.findSome?_eq_none_iff

theorem firstError_eq_some_iff (steps : List (Option ε)) (error : ε) :
    firstError steps = some error ↔
      ∃ before after, steps = before ++ some error :: after ∧ ∀ step ∈ before, step = none := by
  rw [firstError, List.findSome?_eq_some_iff]
  constructor
  · rintro ⟨before, _, after, rfl, rfl, hbefore⟩
    exact ⟨before, after, rfl, hbefore⟩
  · rintro ⟨before, after, rfl, hbefore⟩
    exact ⟨before, some error, after, rfl, rfl, hbefore⟩

-- The same for steps that go over the items of a list.
theorem firstError_map_eq_some_iff (step : α → Option ε) (items : List α) (error : ε) :
    firstError (items.map step) = some error ↔
      ∃ before item after, items = before ++ item :: after ∧
        (∀ earlier ∈ before, step earlier = none) ∧ step item = some error := by
  rw [firstError, List.findSome?_map, List.findSome?_eq_some_iff]
  constructor
  · rintro ⟨before, item, after, hsplit, hitem, hbefore⟩
    exact ⟨before, item, after, hsplit, hbefore, hitem⟩
  · rintro ⟨before, item, after, hsplit, hbefore, hitem⟩
    exact ⟨before, item, after, hsplit, hitem, hbefore⟩

theorem firstError_map_eq_none_iff (step : α → Option ε) (items : List α) :
    firstError (items.map step) = none ↔ ∀ item ∈ items, step item = none := by
  rw [firstError_eq_none_iff, List.forall_mem_map]

theorem failure?_bind {step : Except ε α} {next : α → Except ε β} {later : Option ε}
    (h : ∀ result, step = .ok result → failure? (next result) = later) :
    failure? (step >>= next) = (failure? step).or later := by
  cases step with
  | ok result => exact h result rfl
  | error error => rfl

-- What comes after a step and cannot fail.
theorem failure?_bind_eq_left {step : Except ε α} {next : α → Except ε β}
    (h : ∀ result, failure? (next result) = none) : failure? (step >>= next) = failure? step := by
  rw [failure?_bind fun result _ => h result, Option.or_none]

theorem failure?_map (f : α → β) (run : Except ε α) : failure? (run.map f) = failure? run := by
  cases run <;> rfl

theorem failure?_mapM (step : α → Except ε β) (inputs : List α) :
    failure? (inputs.mapM step) = firstError (inputs.map fun input => failure? (step input)) := by
  induction inputs with
  | nil => rfl
  | cons input rest ih =>
      rw [List.mapM_cons, List.map_cons, firstError_cons]
      refine failure?_bind fun answer _ => ?_
      rw [← ih]
      cases rest.mapM step <;> rfl

end Loadable
