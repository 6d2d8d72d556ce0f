/-!
# All results or every error

A stage that works on several things does not stop at the first that fails. It gives all
results, in order, when nothing failed, and otherwise every error, in order.
-/

namespace SchemaWeave

variable {ε α : Type}

/-- The errors among the results. -/
def errorsOf : List (Except ε α) → List ε
  | [] => []
  | .ok _ :: rs => errorsOf rs
  | .error e :: rs => e :: errorsOf rs

/-- The successes among the results. -/
def successesOf : List (Except ε α) → List α
  | [] => []
  | .ok a :: rs => a :: successesOf rs
  | .error _ :: rs => successesOf rs

/-- All results, or every error. -/
def collectResults (rs : List (Except ε α)) : Except (List ε) (List α) :=
  if (errorsOf rs).isEmpty then .ok (successesOf rs) else .error (errorsOf rs)

/-- As `collectResults`, where each result may bring several errors. -/
def collectAll (rs : List (Except (List ε) α)) : Except (List ε) (List α) :=
  if (errorsOf rs).isEmpty then .ok (successesOf rs) else .error (errorsOf rs).flatten

end SchemaWeave
