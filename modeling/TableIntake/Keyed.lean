namespace TableIntake

/-! Lists that are kept in the order of their keys. -/

/-- Places a value by its key; a value of that key gives way. -/
def insertKey (key : String) (value : α) : List (String × α) → List (String × α)
  | [] => [(key, value)]
  | (k, v) :: pairs =>
      if key < k then (key, value) :: (k, v) :: pairs
      else if key = k then (key, value) :: pairs
      else (k, v) :: insertKey key value pairs

end TableIntake
