import ModuleLift.Text.Letter

/-! Where in a file something is, as it stands in messages. -/

namespace ModuleLift

/-- A line and a column after a file's name. Without a line there is nothing to say. -/
def locationText : Option Int → Option Int → Text
  | none, _ => ""
  | some line, none => ":" ++ toString line
  | some line, some column => ":" ++ toString line ++ ":" ++ toString column

/-- A description of what is wrong in a file, with its place. -/
def locatedMessage (name description : Text) (line column : Option Int) : Text :=
  name ++ locationText line column ++ ": " ++ description

end ModuleLift
