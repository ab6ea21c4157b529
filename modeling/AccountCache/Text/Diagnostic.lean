namespace AccountCache.Text

def list (f : α → String) (l : List α) : String := "[" ++ ", ".intercalate (l.map f) ++ "]"

def option (f : α → String) : Option α → String
  | some a => "Some(" ++ f a ++ ")"
  | none => "None"

def fieldTexts (fields : List (String × String)) : List String :=
  fields.map fun field => field.1 ++ ": " ++ field.2

def record (name : String) (fields : List (String × String)) : String :=
  name ++ " \x7b " ++ ", ".intercalate (fieldTexts fields) ++ " \x7d"

def partRecord (name : String) (fields : List (String × String)) : String :=
  name ++ " \x7b " ++ ", ".intercalate (fieldTexts fields ++ [".."]) ++ " \x7d"

end AccountCache.Text
