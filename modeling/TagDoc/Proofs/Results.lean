/-!
# Values and errors

What is left of a result when one only asks for its value, or only for its
error, and when a chain of results ends well.
-/

namespace TagDoc

variable {ε α β : Type}

/-- The value of a result. -/
def valueOf? : Except ε α → Option α
  | .error _ => none
  | .ok value => some value

/-- The error of a result. -/
def errorOf? : Except ε α → Option ε
  | .error error => some error
  | .ok _ => none

@[simp]
theorem valueOf?_error (error : ε) :
    valueOf? (.error error : Except ε α) = none := rfl

@[simp]
theorem valueOf?_ok (value : α) :
    valueOf? (.ok value : Except ε α) = some value := rfl

@[simp]
theorem errorOf?_error (error : ε) :
    errorOf? (.error error : Except ε α) = some error := rfl

@[simp]
theorem errorOf?_ok (value : α) :
    errorOf? (.ok value : Except ε α) = none := rfl

/-- Every result leaves either a value or an error. -/
theorem length_values_add_errors (results : List (Except ε α)) :
    (results.filterMap valueOf?).length +
      (results.filterMap errorOf?).length = results.length := by
  induction results with
  | nil => rfl
  | cons result rest ih =>
      cases result with
      | error error =>
          simp only [List.filterMap_cons, valueOf?_error, errorOf?_error,
            List.length_cons]
          omega
      | ok value =>
          simp only [List.filterMap_cons, valueOf?_ok, errorOf?_ok,
            List.length_cons]
          omega

theorem bind_eq_ok {first : Except ε α} {next : α → Except ε β}
    {result : β} :
    (first >>= next) = .ok result ↔
      ∃ value, first = .ok value ∧ next value = .ok result := by
  cases first with
  | error error => simp [bind, Except.bind]
  | ok value => simp [bind, Except.bind]

end TagDoc
