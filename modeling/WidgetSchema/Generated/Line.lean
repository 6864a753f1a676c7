-- The lines that generated sections are made of, and the marks by which lines are known.
import WidgetSchema.Control.Basic
import WidgetSchema.Markup.Field
import WidgetSchema.Node.Text
namespace WidgetSchema.Generated

open Text Markup

def panelOpen (id : String) : String := "<bob-panel id='" ++ id ++ "'>"

def panelClose : String := "</bob-panel>"

/-- Choices as they stand in an attribute with single quotes. -/
def encodeChoices (choices : Node) : String := Text.replace choices.text "\"" "&quot;"

def choiceNode (label value : String) : Node := Choice.toNode ⟨label, value⟩

def choiceList (choices : List (String × String)) : String :=
  encodeChoices (.array (choices.map fun (label, value) => choiceNode label value))

/-- Whether a word of small letters occurs in a line, capital letters counted as small. -/
def containsFolded (line : String) (word : List Char) : Bool :=
  (cutFolded Char.toLower word line.toList).isSome

def closesPanel (line : String) : Bool := contains line panelClose

end WidgetSchema.Generated
